import FuzzyRating.Proofs.Cache.History
import Mathlib.Data.Finset.Card
import Mathlib.Data.Finset.Dedup

/-!
What a cache serves, over every history: nothing but what was stored last under a key and is not
too old, and that for as long as not too many other keys are used.
-/

namespace FuzzyRating.Cache

variable {alpha : Type} {maxSize ttl : Nat} {key : String} {keys : List String}
  {entry : CacheEntry alpha} {entries : List (CacheEntry alpha)}

/-! ## Entries behind an entry -/

/-- The entry is one of the entries, and behind it stand only entries of the given keys. -/
def AheadOf (keys : List String) (entry : CacheEntry alpha) (entries : List (CacheEntry alpha)) :
    Prop :=
  ∃ front back, entries = front ++ entry :: back ∧ ∀ other ∈ back, other.key ∈ keys

theorem AheadOf.last (keys : List String) (entry : CacheEntry alpha)
    (front : List (CacheEntry alpha)) :
    AheadOf keys entry (front ++ [entry]) :=
  ⟨front, [], rfl, by simp⟩

theorem AheadOf.mem (ahead : AheadOf keys entry entries) : entry ∈ entries := by
  obtain ⟨front, back, rfl, _⟩ := ahead
  simp

theorem AheadOf.filter {test : CacheEntry alpha → Bool} (ahead : AheadOf keys entry entries)
    (kept : test entry = true) :
    AheadOf keys entry (entries.filter test) := by
  obtain ⟨front, back, rfl, behind⟩ := ahead
  refine ⟨front.filter test, back.filter test, by simp [kept], ?_⟩
  exact fun other member => behind other (List.mem_filter.mp member).1

theorem AheadOf.append (ahead : AheadOf keys entry entries) (added : CacheEntry alpha) :
    AheadOf (added.key :: keys) entry (entries ++ [added]) := by
  obtain ⟨front, back, rfl, behind⟩ := ahead
  refine ⟨front, back ++ [added], by simp, ?_⟩
  intro other member
  rcases List.mem_append.mp member with inBack | isAdded
  · exact List.mem_cons_of_mem _ (behind other inBack)
  · rw [List.mem_singleton.mp isAdded]
    exact List.mem_cons_self

/-- Where there are more entries than keys are given, the first entry is another one. The keys
include one that has no entry. -/
theorem AheadOf.drop_one {added : String} (ahead : AheadOf keys entry entries)
    (nodup : (added :: entries.map CacheEntry.key).Nodup)
    (many : (added :: keys).toFinset.card < entries.length) :
    AheadOf keys entry (entries.drop 1) := by
  obtain ⟨front, back, rfl, behind⟩ := ahead
  cases front with
  | nil =>
      have backNodup : (added :: back.map CacheEntry.key).Nodup :=
        nodup.sublist (List.Sublist.cons_cons added (List.sublist_cons_self _ _))
      have backKeys : (added :: back.map CacheEntry.key).toFinset ⊆ (added :: keys).toFinset := by
        intro other member
        simp only [List.mem_toFinset, List.mem_cons, List.mem_map] at member ⊢
        rcases member with rfl | ⟨inBack, isMember, rfl⟩
        · exact Or.inl rfl
        · exact Or.inr (behind inBack isMember)
      have fewer := Finset.card_le_card backKeys
      rw [List.toFinset_card_of_nodup backNodup, List.length_cons, List.length_map] at fewer
      simp only [List.nil_append, List.length_cons] at many
      omega
  | cons first front => exact ⟨front, back, rfl, behind⟩

/-! ## What stays -/

/-- None of these steps came upon an entry of the key that was stored at this time and was too
old. -/
structure NeverExpired (ttl : Nat) (key : String) (storedAt : Nat) (steps : List (Step alpha)) :
    Prop where
  pruned : ∀ now, .prune now ∈ steps → now - storedAt < ttl
  lookedUp : ∀ now, .get key now ∈ steps → now - storedAt < ttl

theorem NeverExpired.of_cons {storedAt : Nat} {step : Step alpha} {steps : List (Step alpha)}
    (never : NeverExpired ttl key storedAt (step :: steps)) :
    NeverExpired ttl key storedAt steps where
  pruned now member := never.pruned now (List.mem_cons_of_mem step member)
  lookedUp now member := never.lookedUp now (List.mem_cons_of_mem step member)

theorem sinceStored_cons {step : Step alpha} (other : step.stores key = false)
    (earlier : List (Step alpha)) :
    sinceStored key (step :: earlier) = step :: sinceStored key earlier := by
  simp [sinceStored, other]

/-- Entries of other keys than the one used are where they were, unless one of them made room. -/
theorem AheadOf.of_touched {cache : Cache alpha} {step : Step alpha} {other : String}
    (ahead : AheadOf keys entry cache.entries) (different : other ≠ entry.key)
    (nodup : (cache.entries.map CacheEntry.key).Nodup)
    (touched : cache.touched? step = some other)
    (room : (other :: keys).toFinset.card < cache.maxSize) :
    AheadOf (other :: keys) entry (cache.perform step).entries := by
  have stays : AheadOf keys entry (cache.others other) :=
    ahead.filter (bne_iff_ne.mpr different.symm)
  cases step with
  | set stored value now =>
      cases touched
      rw [perform]
      by_cases isRoom : (cache.others other).length < cache.maxSize
      · rw [set_of_room value now isRoom]
        exact stays.append _
      · have full : cache.maxSize ≤ (cache.others other).length := Nat.not_lt.mp isRoom
        rw [set_of_full value now (by omega) full]
        have othersNodup : (other :: (cache.others other).map CacheEntry.key).Nodup := by
          refine List.nodup_cons.mpr ⟨?_, nodup.sublist (List.filter_sublist.map _)⟩
          intro member
          obtain ⟨found, inOthers, sameKey⟩ := List.mem_map.mp member
          exact key_ne_of_mem_others inOthers sameKey
        exact (stays.drop_one othersNodup (room.trans_le full)).append _
  | get lookedUp now =>
      rw [perform]
      rcases cache.get_cases lookedUp now with ⟨served, _, rfl, _, isServed, entries⟩ | ⟨missed, _⟩
      · obtain rfl : served.key = other := by
          simpa [touched?, isServed] using touched
        rw [entries]
        exact stays.append { served with hits := served.hits + 1 }
      · simp [touched?, missed] at touched
  | prune now => cases touched
  | clear => cases touched

/-- A step that uses no key leaves an entry that is not too old. -/
theorem AheadOf.of_untouched {cache : Cache alpha} {step : Step alpha}
    (ahead : AheadOf keys entry cache.entries)
    (nodup : (cache.entries.map CacheEntry.key).Nodup)
    (untouched : cache.touched? step = none) (notCleared : step ≠ .clear)
    (never : NeverExpired cache.ttl entry.key entry.storedAt [step]) :
    AheadOf keys entry (cache.perform step).entries := by
  cases step with
  | set other value now => cases untouched
  | get other now =>
      have notFresh {found : CacheEntry alpha} (isFound : cache.peek? other = some found) :
          cache.isExpired found now = true := by
        by_contra fresh
        have served := get_of_fresh isFound (Bool.eq_false_iff.mpr fresh)
        simp [touched?, served] at untouched
      have different : other ≠ entry.key := by
        rintro rfl
        have expired := notFresh (peek?_of_mem nodup ahead.mem)
        have fresh := isExpired_eq_false_iff.mpr (never.lookedUp now List.mem_cons_self)
        rw [expired] at fresh
        cases fresh
      rw [perform]
      cases isFound : cache.peek? other with
      | none =>
          rw [get_of_absent isFound]
          exact ahead
      | some found =>
          rw [get_of_expired isFound (notFresh isFound)]
          exact ahead.filter (bne_iff_ne.mpr different.symm)
  | prune now =>
      exact ahead.filter (decide_eq_true (never.pruned now List.mem_cons_self))
  | clear => exact absurd rfl notCleared

theorem lastStored?_of_cons {step : Step alpha} {earlier : List (Step alpha)}
    {stored : alpha × Nat} (other : step.stores key = false)
    (isStored : lastStored? key (step :: earlier) = some stored) :
    step ≠ .clear ∧ lastStored? key earlier = some stored := by
  cases step with
  | set otherKey value now =>
      have different : otherKey ≠ key := by
        simpa [Step.stores] using other
      rw [lastStored?, if_neg different] at isStored
      exact ⟨by simp, isStored⟩
  | get otherKey now => exact ⟨by simp, isStored⟩
  | prune now => exact ⟨by simp, isStored⟩
  | clear => cases isStored

theorem stores_of_untouched {cache : Cache alpha} {step : Step alpha}
    (untouched : cache.touched? step ≠ some key) :
    step.stores key = false := by
  cases step with
  | set other value now => simpa [touched?, Step.stores] using untouched
  | get other now => rfl
  | prune now => rfl
  | clear => rfl

/-- The entry that was stored or served last is the last one. -/
theorem exists_last_of_touched (positive : 0 < maxSize) {step : Step alpha}
    {earlier : List (Step alpha)} {stored : alpha × Nat}
    (touched : (after maxSize ttl earlier).touched? step = some key)
    (isStored : lastStored? key (step :: earlier) = some stored) :
    ∃ (entry : CacheEntry alpha) (front : List (CacheEntry alpha)),
      (after maxSize ttl (step :: earlier)).entries = front ++ [entry] ∧ entry.key = key ∧
        (entry.value, entry.storedAt) = stored := by
  obtain ⟨front, entry, entries, rfl, _⟩ :=
    entries_perform_of_touched (by simpa) (by simpa using length_entries_le positive earlier) touched
  refine ⟨entry, front, entries, rfl, ?_⟩
  have member : entry ∈ (after maxSize ttl (step :: earlier)).entries := by
    rw [after, entries]
    simp
  rw [lastStored?_of_mem positive _ entry member] at isStored
  exact Option.some.inj isStored

/-- A result that was never found too old stays as long as fewer keys than the cache has room for
were used since its key was. -/
theorem exists_aheadOf (positive : 0 < maxSize) {stored : alpha × Nat}
    (history : List (Step alpha)) (isStored : lastStored? key history = some stored)
    (room : (touchedSince maxSize ttl key history).toFinset.card < maxSize)
    (never : NeverExpired ttl key stored.2 (sinceStored key history)) :
    ∃ entry : CacheEntry alpha, entry.key = key ∧ (entry.value, entry.storedAt) = stored ∧
      AheadOf (touchedSince maxSize ttl key history) entry (after maxSize ttl history).entries := by
  induction history with
  | nil => cases isStored
  | cons step earlier inductionHypothesis =>
      by_cases usesKey : (after maxSize ttl earlier).touched? step = some key
      · obtain ⟨entry, front, entries, sameKey, sameStored⟩ :=
          exists_last_of_touched positive usesKey isStored
        refine ⟨entry, sameKey, sameStored, ?_⟩
        rw [entries]
        exact AheadOf.last _ entry front
      · have notStored := stores_of_untouched usesKey
        obtain ⟨notCleared, storedBefore⟩ := lastStored?_of_cons notStored isStored
        have nodup : ((after maxSize ttl earlier).entries.map CacheEntry.key).Nodup :=
          keys_nodup_after positive earlier
        rw [sinceStored_cons notStored] at never
        cases touched : (after maxSize ttl earlier).touched? step with
        | none =>
            simp only [touchedSince, touched] at room ⊢
            obtain ⟨entry, rfl, rfl, ahead⟩ :=
              inductionHypothesis storedBefore room never.of_cons
            refine ⟨entry, rfl, rfl, ahead.of_untouched nodup touched notCleared ?_⟩
            rw [ttl_after]
            exact ⟨fun now member => never.pruned now (by simp_all),
              fun now member => never.lookedUp now (by simp_all)⟩
        | some other =>
            have different : other ≠ key := by
              rintro rfl
              exact usesKey touched
            simp only [touchedSince, touched, if_neg different] at room ⊢
            have fewer : (touchedSince maxSize ttl key earlier).toFinset.card < maxSize := by
              refine (Finset.card_le_card ?_).trans_lt room
              rw [List.toFinset_cons]
              exact Finset.subset_insert _ _
            obtain ⟨entry, rfl, rfl, ahead⟩ :=
              inductionHypothesis storedBefore fewer never.of_cons
            refine ⟨entry, rfl, rfl, ahead.of_touched different nodup touched ?_⟩
            rwa [maxSize_after]

/-! ## What is served -/

theorem length_others_lt {cache : Cache alpha} (present : key ∈ cache.entries.map CacheEntry.key) :
    (cache.others key).length < cache.entries.length := by
  obtain ⟨entry, member, sameKey⟩ := List.mem_map.mp present
  exact List.length_filter_lt_length_iff_exists.mpr ⟨entry, member, by simp [sameKey]⟩

/-- The cache after a history holds its entries in the order of their last use, and the one that was
not used for longest makes room for a new one. -/
structure InOrderOfUse (maxSize ttl : Nat) (history : List (Step alpha)) (cache : Cache alpha) :
    Prop where
  length_le : cache.entries.length ≤ maxSize
  nodup : (cache.entries.map CacheEntry.key).Nodup
  ordered : cache.entries.Pairwise fun a b =>
    lastTouch maxSize ttl a.key history < lastTouch maxSize ttl b.key history
  /-- The entries of other keys stay where a key is stored again or where there is room. -/
  keeps : ∀ key value now,
    key ∈ cache.entries.map CacheEntry.key ∨ cache.entries.length < maxSize →
      (cache.set key value now).entries = cache.others key ++ [⟨key, value, now, 0⟩]
  evicts : ∀ key value now,
    key ∉ cache.entries.map CacheEntry.key → cache.entries.length = maxSize →
      ∃ oldest rest, cache.entries = oldest :: rest ∧
        (∀ other ∈ rest, lastTouch maxSize ttl oldest.key history <
          lastTouch maxSize ttl other.key history) ∧
        (cache.set key value now).entries = rest ++ [⟨key, value, now, 0⟩]

theorem inOrderOfUse_after (positive : 0 < maxSize) (history : List (Step alpha)) :
    InOrderOfUse maxSize ttl history (after maxSize ttl history) where
  length_le := length_entries_le positive history
  nodup := keys_nodup_after positive history
  ordered := entries_pairwise_lastTouch positive history
  keeps key value now roomy := by
    refine congrArg Cache.entries (set_of_room value now ?_)
    have bound : (after maxSize ttl history).entries.length ≤ maxSize :=
      length_entries_le positive history
    rw [maxSize_after]
    rcases roomy with present | room
    · exact (length_others_lt present).trans_le bound
    · exact (List.length_filter_le _ _).trans_lt room
  evicts key value now absent full := by
    obtain ⟨oldest, rest, entries⟩ := List.exists_cons_of_length_pos (full ▸ positive)
    have ordered : (oldest :: rest).Pairwise fun a b =>
        lastTouch maxSize ttl a.key history < lastTouch maxSize ttl b.key history := by
      rw [← entries]
      exact entries_pairwise_lastTouch positive history
    refine ⟨oldest, rest, entries, (List.pairwise_cons.mp ordered).1, ?_⟩
    have othersEq := others_eq_self absent
    rw [set_of_full value now (by simpa) (by rw [maxSize_after, othersEq, full])]
    dsimp only
    rw [othersEq, entries, List.drop_one, List.tail_cons]

/-- What a cache that has room for something serves after any history: only what was stored last
under the key and is not too old, and always that, unless as many other keys as there is room for
were used since the key was or the result was found too old before. -/
theorem after_serves (roomy : 1 ≤ maxSize) (ttl : Nat) (history : List (Step alpha)) :
    (∀ key now value, ((after maxSize ttl history).get key now).1 = some value →
      ∃ storedAt, lastStored? key history = some (value, storedAt) ∧ now - storedAt < ttl) ∧
    (∀ key now value storedAt, lastStored? key history = some (value, storedAt) →
      (touchedSince maxSize ttl key history).toFinset.card < maxSize →
      NeverExpired ttl key storedAt (sinceStored key history) → now - storedAt < ttl →
      ((after maxSize ttl history).get key now).1 = some value) ∧
    InOrderOfUse maxSize ttl history (after maxSize ttl history) := by
  refine ⟨?_, ?_, inOrderOfUse_after roomy history⟩
  · intro key now value served
    rcases (after maxSize ttl history).get_cases key now with
      ⟨entry, member, rfl, fresh, isServed, _⟩ | ⟨missed, _⟩
    · rw [isServed, Option.some.injEq] at served
      subst served
      rw [isExpired_eq_false_iff, ttl_after] at fresh
      exact ⟨entry.storedAt, lastStored?_of_mem roomy history entry member, fresh⟩
    · rw [missed] at served
      cases served
  · intro key now value storedAt isStored room never young
    obtain ⟨entry, rfl, sameStored, ahead⟩ := exists_aheadOf roomy history isStored room never
    cases sameStored
    have found := peek?_of_mem (keys_nodup_after roomy history) ahead.mem
    have fresh : (after maxSize ttl history).isExpired entry now = false := by
      rwa [isExpired_eq_false_iff, ttl_after]
    rw [get_of_fresh found fresh]

/-- A key that was served outlives one that was stored after it, also when the clock runs back. -/
theorem after_serves_hit :
    let history : List (Step Nat) :=
      [.prune 8, .set "c" 3 2, .get "a" 5, .set "b" 2 9, .set "a" 1 0]
    1 ≤ 2 ∧ lastStored? "a" history = some (1, 0) ∧
      (touchedSince 2 10 "a" history).toFinset.card < 2 ∧
      NeverExpired 10 "a" 0 (sinceStored "a" history) ∧ 9 - 0 < 10 ∧
      ((after 2 10 history).get "a" 9).1 = some 1 := by
  intro history
  have stored : lastStored? "a" history = some (1, 0) := by decide
  have room : (touchedSince 2 10 "a" history).toFinset.card < 2 := by decide
  have never : NeverExpired 10 "a" 0 (sinceStored "a" history) := by
    have since : sinceStored "a" history =
        [.prune 8, .set "c" 3 2, .get "a" 5, .set "b" 2 9] := by
      decide
    rw [since]
    constructor <;>
      · intro now member
        simp at member
        omega
  exact ⟨by decide, stored, room, never, by decide,
    (after_serves (by decide) 10 history).2.1 "a" 9 1 0 stored room never (by decide)⟩

end FuzzyRating.Cache
