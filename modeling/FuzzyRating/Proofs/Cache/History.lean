import FuzzyRating.Proofs.Cache.Entries
import FuzzyRating.Proofs.Keyed

/-!
Histories of a cache: what was stored, looked up, pruned and cleared, and when. The entries are in
the order in which their keys were used last, and each holds what was stored last under its key.
-/

namespace FuzzyRating.Cache

variable {alpha : Type}

/-! ## Histories -/

/-- What is done to a cache. -/
inductive Step (alpha : Type) where
  | set (key : String) (value : alpha) (now : Nat)
  | get (key : String) (now : Nat)
  | prune (now : Nat)
  | clear
  deriving DecidableEq, Repr

def perform (cache : Cache alpha) : Step alpha → Cache alpha
  | .set key value now => cache.set key value now
  | .get key now => (cache.get key now).2
  | .prune now => (cache.prune now).2
  | .clear => cache.clear

/-- The cache after a history, the newest step of which comes first. -/
def after (maxSize ttl : Nat) : List (Step alpha) → Cache alpha
  | [] => empty maxSize ttl
  | step :: earlier => (after maxSize ttl earlier).perform step

/-- The key that a step uses: it stores a result under the key or is served the one there. -/
def touched? (cache : Cache alpha) : Step alpha → Option String
  | .set key _ _ => some key
  | .get key now => if (cache.get key now).1.isSome then some key else none
  | .prune _ | .clear => none

/-- How many steps a history had when a key was used last, zero if it never was. -/
def lastTouch (maxSize ttl : Nat) (key : String) : List (Step alpha) → Nat
  | [] => 0
  | step :: earlier =>
      if (after maxSize ttl earlier).touched? step = some key then earlier.length + 1
      else lastTouch maxSize ttl key earlier

/-- The keys used since a key itself was used last, newest first. -/
def touchedSince (maxSize ttl : Nat) (key : String) : List (Step alpha) → List String
  | [] => []
  | step :: earlier =>
      match (after maxSize ttl earlier).touched? step with
      | some other => if other = key then [] else other :: touchedSince maxSize ttl key earlier
      | none => touchedSince maxSize ttl key earlier

/-- What was stored last under a key, and when, unless the cache was cleared since. -/
def lastStored? (key : String) : List (Step alpha) → Option (alpha × Nat)
  | [] => none
  | .set other value now :: earlier =>
      if other = key then some (value, now) else lastStored? key earlier
  | .clear :: _ => none
  | .get _ _ :: earlier | .prune _ :: earlier => lastStored? key earlier

def Step.stores (key : String) : Step alpha → Bool
  | .set other _ _ => other == key
  | _ => false

/-- The steps since a result was stored under a key. -/
def sinceStored (key : String) (history : List (Step alpha)) : List (Step alpha) :=
  history.takeWhile fun step => !step.stores key

/-! ## Looking up -/

variable {cache : Cache alpha} {key : String} {now : Nat} {entry : CacheEntry alpha}

theorem get_of_absent (absent : cache.peek? key = none) :
    cache.get key now = (none, { cache with misses := cache.misses + 1 }) := by
  unfold get
  rw [absent]

theorem get_of_expired (found : cache.peek? key = some entry)
    (expired : cache.isExpired entry now = true) :
    cache.get key now = (none, { cache with
      entries := cache.others key
      misses := cache.misses + 1
      expirations := cache.expirations + 1 }) := by
  unfold get
  rw [found]
  dsimp only
  rw [if_pos expired]

theorem get_of_fresh (found : cache.peek? key = some entry)
    (fresh : cache.isExpired entry now = false) :
    cache.get key now = (some entry.value, { cache with
      entries := cache.others key ++ [{ entry with hits := entry.hits + 1 }]
      hits := cache.hits + 1 }) := by
  unfold get
  rw [found]
  dsimp only
  rw [if_neg (Bool.eq_false_iff.mp fresh)]

/-- A look-up is served from an entry of the key that is not too old, or it only takes entries
away. -/
theorem get_cases (cache : Cache alpha) (key : String) (now : Nat) :
    (∃ entry ∈ cache.entries, entry.key = key ∧ cache.isExpired entry now = false ∧
      (cache.get key now).1 = some entry.value ∧
      (cache.get key now).2.entries =
        cache.others key ++ [{ entry with hits := entry.hits + 1 }]) ∨
    ((cache.get key now).1 = none ∧ (cache.get key now).2.entries.Sublist cache.entries) := by
  cases found : cache.peek? key with
  | none =>
      rw [get_of_absent found]
      exact Or.inr ⟨rfl, List.Sublist.refl _⟩
  | some entry =>
      obtain ⟨member, sameKey⟩ := of_peek? found
      cases expired : cache.isExpired entry now with
      | true =>
          rw [get_of_expired found expired]
          exact Or.inr ⟨rfl, List.filter_sublist⟩
      | false =>
          rw [get_of_fresh found expired]
          exact Or.inl ⟨entry, member, sameKey, expired, rfl, rfl⟩

theorem isExpired_eq_false_iff :
    cache.isExpired entry now = false ↔ now - entry.storedAt < cache.ttl := by
  unfold isExpired age
  rw [decide_eq_false_iff_not, Nat.not_le]

/-- Pruning and looking up agree on what is too old. -/
theorem entries_prune (cache : Cache alpha) (now : Nat) :
    (cache.prune now).2.entries =
      cache.entries.filter fun entry => !cache.isExpired entry now := by
  refine List.filter_congr fun entry _ => Bool.eq_iff_iff.mpr ?_
  rw [decide_eq_true_iff, Bool.not_eq_true', isExpired_eq_false_iff]
  exact Iff.rfl

/-! ## Entries under different keys -/

theorem peek?_of_mem (nodup : (cache.entries.map CacheEntry.key).Nodup)
    (member : entry ∈ cache.entries) :
    cache.peek? entry.key = some entry :=
  (find?_key_eq_some_iff nodup).mpr ⟨member, rfl⟩

theorem peek?_eq_none_iff :
    cache.peek? key = none ↔ key ∉ cache.entries.map CacheEntry.key := by
  simp [peek?]

theorem others_eq_self (absent : key ∉ cache.entries.map CacheEntry.key) :
    cache.others key = cache.entries := by
  refine List.filter_eq_self.mpr fun entry member => ?_
  rw [bne_iff_ne]
  rintro rfl
  exact absent (List.mem_map_of_mem member)

/-- Where keys differ, taking one away takes one entry away. -/
theorem length_others_add_one (nodup : (cache.entries.map CacheEntry.key).Nodup)
    (present : key ∈ cache.entries.map CacheEntry.key) :
    (cache.others key).length + 1 = cache.entries.length := by
  have once : cache.entries.countP (·.key == key) = 1 := by
    have counted := List.count_eq_one_of_mem nodup present
    rwa [List.count, List.countP_map] at counted
  have split := List.length_eq_length_filter_add (l := cache.entries) (·.key == key)
  rw [← List.countP_eq_length_filter, once, Nat.add_comm] at split
  exact split.symm

/-! ## Storing -/

theorem key_ne_of_mem_others (member : entry ∈ cache.others key) : entry.key ≠ key := by
  simpa using (List.mem_filter.mp member).2

theorem set_of_zero (zero : cache.maxSize = 0) (key : String) (value : alpha) (now : Nat) :
    cache.set key value now = cache :=
  if_pos zero

theorem set_of_room (value : alpha) (now : Nat)
    (room : (cache.others key).length < cache.maxSize) :
    cache.set key value now =
      { cache with entries := cache.others key ++ [⟨key, value, now, 0⟩] } := by
  have positive : cache.maxSize ≠ 0 := by omega
  unfold set
  dsimp only
  rw [if_neg positive, if_pos room]

theorem set_of_full (value : alpha) (now : Nat) (positive : 0 < cache.maxSize)
    (full : cache.maxSize ≤ (cache.others key).length) :
    cache.set key value now =
      { cache with
        entries := (cache.others key).drop 1 ++ [⟨key, value, now, 0⟩]
        evictions := cache.evictions + 1 } := by
  unfold set
  dsimp only
  rw [if_neg (Nat.ne_of_gt positive), if_neg (Nat.not_lt.mpr full)]

/-- Storing keeps entries of other keys and puts the new one last. -/
theorem exists_entries_set (cache : Cache alpha) (key : String) (value : alpha) (now : Nat)
    (positive : 0 < cache.maxSize) (bound : cache.entries.length ≤ cache.maxSize) :
    ∃ kept, (cache.set key value now).entries = kept ++ [⟨key, value, now, 0⟩] ∧
      kept.Sublist (cache.others key) ∧ kept.length < cache.maxSize := by
  by_cases room : (cache.others key).length < cache.maxSize
  · exact ⟨_, congrArg entries (set_of_room value now room), List.Sublist.refl _, room⟩
  · have full : cache.maxSize ≤ (cache.others key).length := Nat.not_lt.mp room
    have fewer : (cache.others key).length ≤ cache.entries.length := List.length_filter_le _ _
    refine ⟨_, congrArg entries (set_of_full value now positive full), List.drop_sublist 1 _, ?_⟩
    rw [List.length_drop]
    omega

/-! ## One step -/

theorem limits_perform (cache : Cache alpha) (step : Step alpha) :
    (cache.perform step).maxSize = cache.maxSize ∧ (cache.perform step).ttl = cache.ttl := by
  cases step with
  | set key value now =>
      simp only [perform, set]
      split
      · exact ⟨rfl, rfl⟩
      · split <;> exact ⟨rfl, rfl⟩
  | get key now =>
      simp only [perform, get]
      split
      · exact ⟨rfl, rfl⟩
      · split <;> exact ⟨rfl, rfl⟩
  | prune now => exact ⟨rfl, rfl⟩
  | clear => exact ⟨rfl, rfl⟩

/-- A step that uses no key only takes entries away. -/
theorem entries_perform_of_untouched {step : Step alpha} (untouched : cache.touched? step = none) :
    (cache.perform step).entries.Sublist cache.entries := by
  cases step with
  | set key value now => cases untouched
  | get key now =>
      rcases cache.get_cases key now with ⟨entry, _, _, _, served, _⟩ | ⟨_, taken⟩
      · simp [touched?, served] at untouched
      · exact taken
  | prune now => exact List.filter_sublist
  | clear => exact List.nil_sublist _

/-- A step that uses a key puts an entry of that key last. -/
theorem entries_perform_of_touched {step : Step alpha} (positive : 0 < cache.maxSize)
    (bound : cache.entries.length ≤ cache.maxSize) (touched : cache.touched? step = some key) :
    ∃ kept entry, (cache.perform step).entries = kept ++ [entry] ∧ entry.key = key ∧
      kept.Sublist (cache.others key) ∧ kept.length < cache.maxSize := by
  cases step with
  | set other value now =>
      cases touched
      obtain ⟨kept, entries, keptOthers, room⟩ :=
        cache.exists_entries_set key value now positive bound
      exact ⟨kept, _, entries, rfl, keptOthers, room⟩
  | get other now =>
      rcases cache.get_cases other now with ⟨entry, member, sameKey, _, served, entries⟩ | ⟨missed, _⟩
      · obtain rfl : other = key := by
          simpa [touched?, served] using touched
        refine ⟨cache.others other, _, entries, sameKey, List.Sublist.refl _, ?_⟩
        have fewer : (cache.others other).length < cache.entries.length := by
          apply List.length_filter_lt_length_iff_exists.mpr
          exact ⟨entry, member, by simp [sameKey]⟩
        exact Nat.lt_of_lt_of_le fewer bound
      · simp [touched?, missed] at touched
  | prune now => cases touched
  | clear => cases touched

/-! ## Whole histories -/

variable {maxSize ttl : Nat}

@[simp]
theorem maxSize_after (history : List (Step alpha)) : (after maxSize ttl history).maxSize = maxSize := by
  induction history with
  | nil => rfl
  | cons step earlier inductionHypothesis =>
      exact (limits_perform _ step).1.trans inductionHypothesis

@[simp]
theorem ttl_after (history : List (Step alpha)) : (after maxSize ttl history).ttl = ttl := by
  induction history with
  | nil => rfl
  | cons step earlier inductionHypothesis =>
      exact (limits_perform _ step).2.trans inductionHypothesis

theorem length_entries_le (positive : 0 < maxSize) (history : List (Step alpha)) :
    (after maxSize ttl history).entries.length ≤ maxSize := by
  induction history with
  | nil => exact Nat.zero_le maxSize
  | cons step earlier inductionHypothesis =>
      cases touched : (after maxSize ttl earlier).touched? step with
      | none =>
          have fewer := (entries_perform_of_untouched touched).length_le
          exact Nat.le_trans fewer inductionHypothesis
      | some key =>
          obtain ⟨kept, entry, entries, _, _, room⟩ :=
            entries_perform_of_touched (by simpa) (by simpa) touched
          rw [maxSize_after] at room
          rw [after, entries, List.length_append, List.length_singleton]
          omega

/-- Entries hold what was stored last under their keys. -/
theorem lastStored?_of_mem (positive : 0 < maxSize) (history : List (Step alpha)) :
    ∀ entry ∈ (after maxSize ttl history).entries,
      lastStored? entry.key history = some (entry.value, entry.storedAt) := by
  induction history with
  | nil =>
      intro entry member
      cases member
  | cons step earlier inductionHypothesis =>
      intro entry member
      rw [after] at member
      cases step with
      | set key value now =>
          obtain ⟨kept, entries, keptOthers, _⟩ :=
            (after maxSize ttl earlier).exists_entries_set key value now (by simpa)
              (by simpa using length_entries_le positive earlier)
          rw [perform, entries] at member
          rcases List.mem_append.mp member with inKept | last
          · have inOthers := keptOthers.mem inKept
            have different : key ≠ entry.key := (key_ne_of_mem_others inOthers).symm
            rw [lastStored?, if_neg different]
            exact inductionHypothesis entry (mem_of_mem_others inOthers)
          · rw [List.mem_singleton.mp last, lastStored?, if_pos rfl]
      | get key now =>
          rw [perform] at member
          rw [lastStored?]
          rcases (after maxSize ttl earlier).get_cases key now with
            ⟨served, inCache, _, _, _, entries⟩ | ⟨_, taken⟩
          · rw [entries] at member
            rcases List.mem_append.mp member with inOthers | last
            · exact inductionHypothesis entry (mem_of_mem_others inOthers)
            · rw [List.mem_singleton.mp last]
              exact inductionHypothesis served inCache
          · exact inductionHypothesis entry (taken.mem member)
      | prune now =>
          rw [lastStored?]
          exact inductionHypothesis entry (List.filter_sublist.mem member)
      | clear => cases member

theorem lastTouch_le_length (key : String) (history : List (Step alpha)) :
    lastTouch maxSize ttl key history ≤ history.length := by
  induction history with
  | nil => exact Nat.le_refl 0
  | cons step earlier inductionHypothesis =>
      rw [lastTouch, List.length_cons]
      split
      · exact Nat.le_refl _
      · exact Nat.le_trans inductionHypothesis (Nat.le_succ _)

/-- The entries stand in the order in which their keys were used last. -/
theorem entries_pairwise_lastTouch (positive : 0 < maxSize) (history : List (Step alpha)) :
    (after maxSize ttl history).entries.Pairwise fun a b =>
      lastTouch maxSize ttl a.key history < lastTouch maxSize ttl b.key history := by
  induction history with
  | nil => exact List.Pairwise.nil
  | cons step earlier inductionHypothesis =>
      cases touched : (after maxSize ttl earlier).touched? step with
      | none =>
          have sameTouch (key : String) : lastTouch maxSize ttl key (step :: earlier) =
              lastTouch maxSize ttl key earlier := by
            simp [lastTouch, touched]
          simp only [sameTouch]
          exact inductionHypothesis.sublist (entries_perform_of_untouched touched)
      | some key =>
          obtain ⟨kept, entry, entries, rfl, keptOthers, _⟩ :=
            entries_perform_of_touched (by simpa)
              (by simpa using length_entries_le positive earlier) touched
          have lastEq : lastTouch maxSize ttl entry.key (step :: earlier) = earlier.length + 1 := by
            simp [lastTouch, touched]
          have keptEq : ∀ other ∈ kept, lastTouch maxSize ttl other.key (step :: earlier) =
              lastTouch maxSize ttl other.key earlier := by
            intro other inKept
            have different := (key_ne_of_mem_others (keptOthers.mem inKept)).symm
            simp [lastTouch, touched, different]
          rw [after, entries, List.pairwise_append]
          refine ⟨?_, List.pairwise_singleton _ _, ?_⟩
          · have inOrder := inductionHypothesis.sublist (keptOthers.trans List.filter_sublist)
            refine inOrder.imp_of_mem fun aKept bKept before => ?_
            rwa [keptEq _ aKept, keptEq _ bKept]
          · intro other inKept last isLast
            rw [List.mem_singleton.mp isLast, keptEq other inKept, lastEq]
            exact Nat.lt_succ_of_le (lastTouch_le_length other.key earlier)

theorem keys_nodup_after (positive : 0 < maxSize) (history : List (Step alpha)) :
    ((after maxSize ttl history).entries.map CacheEntry.key).Nodup := by
  refine List.pairwise_map.mpr ((entries_pairwise_lastTouch positive history).imp ?_)
  intro a b before sameKey
  rw [sameKey] at before
  exact Nat.lt_irrefl _ before

theorem entries_after_zero (history : List (Step alpha)) : (after 0 ttl history).entries = [] := by
  induction history with
  | nil => rfl
  | cons step earlier inductionHypothesis =>
      rw [after]
      cases step with
      | set key value now =>
          rw [perform, set_of_zero (maxSize_after earlier)]
          exact inductionHypothesis
      | get key now =>
          rw [perform]
          rcases (after 0 ttl earlier).get_cases key now with ⟨entry, member, _⟩ | ⟨_, taken⟩
          · rw [inductionHypothesis] at member
            cases member
          · rw [inductionHypothesis] at taken
            exact List.sublist_nil.mp taken
      | prune now =>
          rw [perform, prune]
          dsimp only
          rw [inductionHypothesis]
          rfl
      | clear => rfl

/-- A cache that holds nothing keeps what every other one does. -/
theorem wellFormed_after (maxSize ttl : Nat) (history : List (Step alpha)) :
    ((after maxSize ttl history).entries.map CacheEntry.key).Nodup ∧
      (after maxSize ttl history).entries.length ≤ maxSize := by
  rcases Nat.eq_zero_or_pos maxSize with rfl | positive
  · rw [entries_after_zero]
    exact ⟨List.nodup_nil, Nat.le_refl 0⟩
  · exact ⟨keys_nodup_after positive history, length_entries_le positive history⟩

end FuzzyRating.Cache
