import FuzzyRating.Cache

/-!
What cache operations leave in a cache: no operation but storing puts a result under a key.
-/

namespace FuzzyRating.Cache

variable {alpha : Type} {holds : String → alpha → Prop} {cache : Cache alpha}

/-- Every result in a cache is right for its key. -/
def All (holds : String → alpha → Prop) (cache : Cache alpha) : Prop :=
  ∀ entry ∈ cache.entries, holds entry.key entry.value

theorem All.empty (maxSize ttl : Nat) : All holds (empty maxSize ttl) := by
  intro entry member
  cases member

theorem All.clear : All holds cache.clear :=
  All.empty cache.maxSize cache.ttl

theorem mem_of_mem_others {key : String} {entry : CacheEntry alpha}
    (member : entry ∈ cache.others key) :
    entry ∈ cache.entries :=
  (List.mem_filter.mp member).1

theorem of_peek? {key : String} {entry : CacheEntry alpha}
    (found : cache.peek? key = some entry) :
    entry ∈ cache.entries ∧ entry.key = key := by
  have sameKey := List.find?_some found
  exact ⟨List.mem_of_find?_eq_some found, by simpa using sameKey⟩

/-- A result that is served was stored under the key. -/
theorem All.of_get {key : String} {now : Nat} {value : alpha} (all : All holds cache)
    (served : (cache.get key now).1 = some value) :
    holds key value := by
  unfold get at served
  cases found : cache.peek? key with
  | none =>
      rw [found] at served
      cases served
  | some entry =>
      obtain ⟨member, sameKey⟩ := of_peek? found
      rw [found] at served
      dsimp only at served
      split at served
      · cases served
      · cases served
        exact sameKey ▸ all entry member

theorem All.get (all : All holds cache) (key : String) (now : Nat) :
    All holds (cache.get key now).2 := by
  unfold Cache.get
  cases found : cache.peek? key with
  | none => exact all
  | some entry =>
      dsimp only
      split
      · exact fun other member => all other (mem_of_mem_others member)
      · intro other member
        rcases List.mem_append.mp member with before | last
        · exact all other (mem_of_mem_others before)
        · rw [List.mem_singleton.mp last]
          exact all entry (of_peek? found).1

theorem All.set {key : String} {value : alpha} (all : All holds cache) (right : holds key value)
    (now : Nat) :
    All holds (cache.set key value now) := by
  unfold Cache.set
  dsimp only
  split
  · exact all
  · split
    · intro entry member
      rcases List.mem_append.mp member with before | last
      · exact all entry (mem_of_mem_others before)
      · rw [List.mem_singleton.mp last]
        exact right
    · intro entry member
      rcases List.mem_append.mp member with before | last
      · exact all entry (mem_of_mem_others (List.mem_of_mem_drop before))
      · rw [List.mem_singleton.mp last]
        exact right

theorem All.prune (all : All holds cache) (now : Nat) :
    All holds (cache.prune now).2 :=
  fun entry member => all entry (List.mem_filter.mp member).1

end FuzzyRating.Cache
