import FuzzyRating.Proofs.Cache.History

/-!
The counters of a cache, over every history. Each look-up is a hit or a miss, each entry that came
in is still there or was counted when it left, and each entry counts how often it was served.
-/

namespace FuzzyRating.Cache

variable {alpha : Type}

/-! ## Histories in which entries are looked at -/

/-- What is done to a cache, or seen in it. -/
inductive Access (alpha : Type) where
  | perform (step : Step alpha)
  | peek (key : String)
  deriving DecidableEq, Repr

namespace Access

def isClear : Access alpha → Bool
  | perform .clear => true
  | _ => false

def isLookUp : Access alpha → Bool
  | perform (.get _ _) => true
  | _ => false

def stores (key : String) : Access alpha → Bool
  | perform step => step.stores key
  | peek _ => false

end Access

/-- Looking at an entry changes nothing. -/
def access (cache : Cache alpha) : Access alpha → Cache alpha
  | .perform step => cache.perform step
  | .peek _ => cache

/-- The cache after some accesses, the newest of which comes first. -/
def afterAccesses (maxSize ttl : Nat) : List (Access alpha) → Cache alpha
  | [] => empty maxSize ttl
  | access :: earlier => (afterAccesses maxSize ttl earlier).access access

/-- The key that a look-up is served under. -/
def served? (cache : Cache alpha) : Access alpha → Option String
  | .perform (.get key now) => if (cache.get key now).1.isSome then some key else none
  | _ => none

/-- Whether a result is stored under a key that has none. -/
def admits (cache : Cache alpha) : Access alpha → Bool
  | .perform (.set key value now) =>
      (cache.peek? key).isNone && ((cache.set key value now).peek? key).isSome
  | _ => false

/-- How many accesses since the last one at which counting starts anew are to be counted, each
judged by the cache that it finds. -/
def countSince (maxSize ttl : Nat) (startsAnew : Access alpha → Bool)
    (counts : Cache alpha → Access alpha → Bool) : List (Access alpha) → Nat
  | [] => 0
  | access :: earlier =>
      if startsAnew access then 0
      else
        countSince maxSize ttl startsAnew counts earlier +
          (counts (afterAccesses maxSize ttl earlier) access).toNat

/-- The counters of a cache are what they should be after some accesses. -/
structure Balanced (maxSize ttl : Nat) (history : List (Access alpha)) (cache : Cache alpha) :
    Prop where
  lookUps : cache.stats.hits + cache.stats.misses =
    countSince maxSize ttl Access.isClear (fun _ access => access.isLookUp) history
  hits : cache.stats.hits =
    countSince maxSize ttl Access.isClear (fun cache access => (cache.served? access).isSome) history
  /-- Whatever came in is still there, made room or was too old. -/
  admitted : countSince maxSize ttl Access.isClear admits history =
    cache.stats.size + cache.stats.evictions + cache.stats.expirations
  /-- An entry counts how often it was served since it was stored. -/
  served : ∀ key entry, cache.peek? key = some entry → entry.hits =
    countSince maxSize ttl (Access.stores key) (fun cache access => cache.served? access == some key)
      history

/-! ## One access -/

variable {cache : Cache alpha}

/-- What an access that does not clear the cache changes in its counters. -/
structure Counted (access : Access alpha) (before after : Cache alpha) : Prop where
  lookUps : after.hits + after.misses = before.hits + before.misses + access.isLookUp.toNat
  hits : after.hits = before.hits + (before.served? access).isSome.toNat
  admitted : after.size + after.evictions + after.expirations =
    before.size + before.evictions + before.expirations + (before.admits access).toNat

/-- What was just stored is there. -/
theorem isSome_peek?_set (positive : 0 < cache.maxSize) (key : String) (value : alpha) (now : Nat) :
    ((cache.set key value now).peek? key).isSome = true := by
  have added : ⟨key, value, now, 0⟩ ∈ (cache.set key value now).entries := by
    by_cases room : (cache.others key).length < cache.maxSize
    · rw [set_of_room value now room]
      exact List.mem_append_right _ (List.mem_singleton_self _)
    · rw [set_of_full value now positive (Nat.le_of_not_lt room)]
      exact List.mem_append_right _ (List.mem_singleton_self _)
  exact List.find?_isSome.mpr ⟨_, added, beq_self_eq_true key⟩

theorem counted_set (nodup : (cache.entries.map CacheEntry.key).Nodup)
    (bound : cache.entries.length ≤ cache.maxSize) (key : String) (value : alpha) (now : Nat) :
    Counted (.perform (.set key value now)) cache (cache.set key value now) := by
  rcases Nat.eq_zero_or_pos cache.maxSize with zero | positive
  · have nothing : cache.admits (.perform (.set key value now)) = false := by
      rw [admits, set_of_zero zero]
      cases cache.peek? key <;> rfl
    rw [set_of_zero zero]
    exact ⟨rfl, rfl, by rw [nothing]; rfl⟩
  · have stored := isSome_peek?_set positive key value now
    by_cases present : key ∈ cache.entries.map CacheEntry.key
    · have one := length_others_add_one nodup present
      have nothing : cache.admits (.perform (.set key value now)) = false := by
        rw [admits, Option.isNone_eq_false_iff.mpr, Bool.false_and]
        exact Option.isSome_iff_ne_none.mpr fun absent => peek?_eq_none_iff.mp absent present
      rw [set_of_room value now (by omega)]
      refine ⟨rfl, rfl, ?_⟩
      rw [nothing]
      simp only [size, List.length_append, List.length_singleton, Bool.toNat_false]
      omega
    · have all := others_eq_self present
      have something : cache.admits (.perform (.set key value now)) = true := by
        rw [admits, peek?_eq_none_iff.mpr present, stored]
        rfl
      by_cases room : (cache.others key).length < cache.maxSize
      · rw [set_of_room value now room]
        refine ⟨rfl, rfl, ?_⟩
        rw [something]
        simp only [size, all, List.length_append, List.length_singleton, Bool.toNat_true]
        omega
      · have full : cache.maxSize ≤ (cache.others key).length := Nat.le_of_not_lt room
        rw [set_of_full value now positive full]
        refine ⟨rfl, rfl, ?_⟩
        rw [something]
        rw [all] at full
        simp only [size, all, List.length_append, List.length_singleton, List.length_drop,
          Bool.toNat_true]
        omega

theorem counted_get (nodup : (cache.entries.map CacheEntry.key).Nodup) (key : String) (now : Nat) :
    Counted (.perform (.get key now)) cache (cache.get key now).2 := by
  cases found : cache.peek? key with
  | none =>
      have missed : cache.get key now = (none, { cache with misses := cache.misses + 1 }) :=
        get_of_absent found
      rw [missed]
      refine ⟨rfl, ?_, rfl⟩
      rw [served?, missed]
      rfl
  | some entry =>
      obtain ⟨member, rfl⟩ := of_peek? found
      have one := length_others_add_one nodup (List.mem_map_of_mem member)
      cases expired : cache.isExpired entry now with
      | true =>
          have missed := get_of_expired found expired
          rw [missed]
          refine ⟨rfl, ?_, ?_⟩
          · rw [served?, missed]
            rfl
          · simp only [size, admits, Bool.toNat_false]
            omega
      | false =>
          have served := get_of_fresh found expired
          rw [served]
          refine ⟨?_, ?_, ?_⟩
          · simp only [Access.isLookUp, Bool.toNat_true]
            omega
          · rw [served?, served]
            rfl
          · simp only [size, admits, List.length_append, List.length_singleton, Bool.toNat_false]
            omega

theorem counted_prune (cache : Cache alpha) (now : Nat) :
    Counted (.perform (.prune now)) cache (cache.prune now).2 := by
  refine ⟨rfl, rfl, ?_⟩
  have fewer := List.length_filter_le (fun entry => age entry now < cache.ttl) cache.entries
  simp only [prune, size, admits, Bool.toNat_false]
  omega

theorem counted_access {access : Access alpha} (notClear : access.isClear = false)
    (nodup : (cache.entries.map CacheEntry.key).Nodup)
    (bound : cache.entries.length ≤ cache.maxSize) :
    Counted access cache (cache.access access) := by
  cases access with
  | peek key => exact ⟨rfl, rfl, rfl⟩
  | perform step =>
      cases step with
      | set key value now => exact counted_set nodup bound key value now
      | get key now => exact counted_get nodup key now
      | prune now => exact counted_prune cache now
      | clear => cases notClear

/-- An entry was just stored, or it was there before and is served now if the access looks it up. -/
theorem hits_access {access : Access alpha} (bound : cache.entries.length ≤ cache.maxSize)
    {entry : CacheEntry alpha} (member : entry ∈ (cache.access access).entries) :
    access.stores entry.key = true ∧ entry.hits = 0 ∨
      access.stores entry.key = false ∧ ∃ old ∈ cache.entries, old.key = entry.key ∧
        entry.hits = old.hits + (cache.served? access == some entry.key).toNat := by
  cases access with
  | peek key => exact Or.inr ⟨rfl, entry, member, rfl, rfl⟩
  | perform step =>
      cases step with
      | set key value now =>
          change entry ∈ (cache.set key value now).entries at member
          rcases Nat.eq_zero_or_pos cache.maxSize with zero | positive
          · have nothing : cache.entries = [] := List.length_eq_zero_iff.mp (by omega)
            rw [set_of_zero zero, nothing] at member
            cases member
          · obtain ⟨kept, entries, keptOthers, _⟩ :=
              cache.exists_entries_set key value now positive bound
            rw [entries] at member
            rcases List.mem_append.mp member with inKept | isLast
            · have inOthers := keptOthers.mem inKept
              have different : key ≠ entry.key := (key_ne_of_mem_others inOthers).symm
              exact Or.inr ⟨beq_false_of_ne different, entry, mem_of_mem_others inOthers, rfl, rfl⟩
            · rw [List.mem_singleton.mp isLast]
              exact Or.inl ⟨beq_self_eq_true key, rfl⟩
      | get key now =>
          refine Or.inr ⟨rfl, ?_⟩
          change entry ∈ (cache.get key now).2.entries at member
          rcases cache.get_cases key now with
            ⟨old, oldMember, rfl, _, isServed, entries⟩ | ⟨missed, taken⟩
          · have served : cache.served? (.perform (.get old.key now)) = some old.key := by
              rw [served?, isServed]
              rfl
            rw [served]
            rw [entries] at member
            rcases List.mem_append.mp member with inOthers | isLast
            · have different : old.key ≠ entry.key := (key_ne_of_mem_others inOthers).symm
              refine ⟨entry, mem_of_mem_others inOthers, rfl, ?_⟩
              rw [beq_false_of_ne fun same => different (Option.some.inj same)]
              rfl
            · rw [List.mem_singleton.mp isLast]
              refine ⟨old, oldMember, rfl, ?_⟩
              rw [beq_self_eq_true]
              rfl
          · refine ⟨entry, taken.mem member, rfl, ?_⟩
            rw [served?, missed]
            rfl
      | prune now =>
          exact Or.inr ⟨rfl, entry, List.filter_sublist.mem member, rfl, rfl⟩
      | clear => cases member

/-! ## Whole histories -/

variable {maxSize ttl : Nat}

/-- Looks at entries apart, accesses are a history. -/
theorem exists_after_eq (maxSize ttl : Nat) (history : List (Access alpha)) :
    ∃ steps, afterAccesses maxSize ttl history = after maxSize ttl steps := by
  induction history with
  | nil => exact ⟨[], rfl⟩
  | cons access earlier inductionHypothesis =>
      obtain ⟨steps, same⟩ := inductionHypothesis
      cases access with
      | perform step =>
          refine ⟨step :: steps, ?_⟩
          rw [afterAccesses, same]
          rfl
      | peek key => exact ⟨steps, same⟩

theorem wellFormed_afterAccesses (maxSize ttl : Nat) (history : List (Access alpha)) :
    ((afterAccesses maxSize ttl history).entries.map CacheEntry.key).Nodup ∧
      (afterAccesses maxSize ttl history).entries.length ≤
        (afterAccesses maxSize ttl history).maxSize := by
  obtain ⟨steps, same⟩ := exists_after_eq maxSize ttl history
  rw [same, maxSize_after]
  exact wellFormed_after maxSize ttl steps

theorem countSince_of_startsAnew {startsAnew : Access alpha → Bool}
    {counts : Cache alpha → Access alpha → Bool} {access : Access alpha}
    (anew : startsAnew access = true) (earlier : List (Access alpha)) :
    countSince maxSize ttl startsAnew counts (access :: earlier) = 0 :=
  if_pos anew

theorem countSince_of_goesOn {startsAnew : Access alpha → Bool}
    {counts : Cache alpha → Access alpha → Bool} {access : Access alpha}
    (goesOn : startsAnew access = false) (earlier : List (Access alpha)) :
    countSince maxSize ttl startsAnew counts (access :: earlier) =
      countSince maxSize ttl startsAnew counts earlier +
        (counts (afterAccesses maxSize ttl earlier) access).toNat :=
  if_neg (Bool.eq_false_iff.mp goesOn)

theorem hits_of_mem (history : List (Access alpha)) :
    ∀ entry ∈ (afterAccesses maxSize ttl history).entries, entry.hits =
      countSince maxSize ttl (Access.stores entry.key)
        (fun cache access => cache.served? access == some entry.key) history := by
  induction history with
  | nil =>
      intro entry member
      cases member
  | cons access earlier inductionHypothesis =>
      intro entry member
      obtain ⟨_, bound⟩ := wellFormed_afterAccesses maxSize ttl earlier
      rcases hits_access bound member with
        ⟨stores, unserved⟩ | ⟨notStored, old, oldMember, sameKey, served⟩
      · rw [countSince_of_startsAnew stores, unserved]
      · have before := inductionHypothesis old oldMember
        rw [sameKey] at before
        rw [countSince_of_goesOn notStored, served, before]

/-- Whatever is done to a cache and whenever, its counters balance. -/
theorem balanced_afterAccesses (maxSize ttl : Nat) (history : List (Access alpha)) :
    Balanced maxSize ttl history (afterAccesses maxSize ttl history) := by
  induction history with
  | nil => exact ⟨rfl, rfl, rfl, by rintro key entry ⟨⟩⟩
  | cons access earlier inductionHypothesis =>
      have served : ∀ key entry,
          (afterAccesses maxSize ttl (access :: earlier)).peek? key = some entry → entry.hits =
            countSince maxSize ttl (Access.stores key)
              (fun cache access => cache.served? access == some key) (access :: earlier) := by
        intro key entry found
        obtain ⟨member, rfl⟩ := of_peek? found
        exact hits_of_mem _ entry member
      cases clears : access.isClear with
      | true =>
          obtain rfl : access = .perform .clear := by
            unfold Access.isClear at clears
            split at clears
            · rfl
            · cases clears
          exact ⟨rfl, rfl, rfl, served⟩
      | false =>
          obtain ⟨nodup, bound⟩ := wellFormed_afterAccesses maxSize ttl earlier
          have counted := counted_access clears nodup bound
          obtain ⟨lookUps, hits, admitted, _⟩ := inductionHypothesis
          refine ⟨?_, ?_, ?_, served⟩
          · rw [countSince_of_goesOn clears, ← lookUps]
            exact counted.lookUps
          · rw [countSince_of_goesOn clears, ← hits]
            exact counted.hits
          · rw [countSince_of_goesOn clears, admitted]
            exact counted.admitted.symm

end FuzzyRating.Cache
