import FuzzyRating.Proofs.Cache.History

/-!
Entries that are too old are dropped without anyone noticing who looks keys up later: they would not
be served any more. What is dropped is what a look-up at that time would find too old.
-/

namespace FuzzyRating.Cache

variable {alpha : Type} {cache other : Cache alpha} {entry : CacheEntry alpha} {key : String}
  {time now : Nat}

/-! ## Entries that are too old -/

/-- Whether looking a key up finds an entry that is too old. -/
def expires (cache : Cache alpha) (key : String) (now : Nat) : Bool :=
  (cache.get key now).1.isNone && (cache.get key now).2.expirations == cache.expirations + 1

theorem expires_of_mem (nodup : (cache.entries.map CacheEntry.key).Nodup)
    (member : entry ∈ cache.entries) (now : Nat) :
    cache.expires entry.key now = cache.isExpired entry now := by
  have found := peek?_of_mem nodup member
  unfold expires
  cases expired : cache.isExpired entry now with
  | true =>
      rw [get_of_expired found expired]
      exact beq_self_eq_true (cache.expirations + 1)
  | false =>
      rw [get_of_fresh found expired]
      rfl

theorem isExpired_mono (later : time ≤ now) (expired : cache.isExpired entry time = true) :
    cache.isExpired entry now = true := by
  unfold isExpired age at expired ⊢
  rw [decide_eq_true_eq] at expired ⊢
  omega

/-! ## Look-ups later -/

/-- Looks keys up one after the other, each at its time. -/
def getEach (cache : Cache alpha) : List (String × Nat) → List (Option alpha) × Cache alpha
  | [] => ([], cache)
  | (key, now) :: queries =>
      let (answer, cache) := cache.get key now
      let (answers, cache) := getEach cache queries
      (answer :: answers, cache)

/-- The other cache lacks the entries that were too old at some time, and has been asked the same. -/
structure LacksExpired (time : Nat) (cache other : Cache alpha) : Prop where
  entries : other.entries = cache.entries.filter fun entry => !cache.isExpired entry time
  ttl : other.ttl = cache.ttl
  hits : other.hits = cache.hits
  misses : other.misses = cache.misses

theorem lacksExpired_prune (cache : Cache alpha) (time : Nat) :
    LacksExpired time cache (cache.prune time).2 :=
  ⟨entries_prune cache time, rfl, rfl, rfl⟩

namespace LacksExpired

theorem isExpired (lacks : LacksExpired time cache other) :
    other.isExpired entry now = cache.isExpired entry now := by
  unfold Cache.isExpired
  rw [lacks.ttl]

theorem others (lacks : LacksExpired time cache other) (key : String) :
    other.others key = (cache.others key).filter fun entry => !cache.isExpired entry time := by
  unfold Cache.others
  rw [lacks.entries, List.filter_comm]

theorem nodup (lacks : LacksExpired time cache other)
    (nodup : (cache.entries.map CacheEntry.key).Nodup) :
    (other.entries.map CacheEntry.key).Nodup := by
  rw [lacks.entries]
  exact nodup.sublist (List.filter_sublist.map _)

theorem peek?_of_fresh (lacks : LacksExpired time cache other)
    (nodup : (cache.entries.map CacheEntry.key).Nodup) (found : cache.peek? key = some entry)
    (fresh : cache.isExpired entry time = false) :
    other.peek? key = some entry := by
  obtain ⟨member, rfl⟩ := of_peek? found
  refine peek?_of_mem (lacks.nodup nodup) ?_
  rw [lacks.entries]
  exact List.mem_filter.mpr ⟨member, by rw [fresh]; rfl⟩

/-- A key is not found if it had no entry, or only one that was too old. -/
theorem peek?_of_gone (lacks : LacksExpired time cache other)
    (nodup : (cache.entries.map CacheEntry.key).Nodup)
    (gone : ∀ entry, cache.peek? key = some entry → cache.isExpired entry time = true) :
    other.peek? key = none := by
  refine List.find?_eq_none.mpr fun entry member sameKey => ?_
  rw [lacks.entries] at member
  obtain ⟨inCache, fresh⟩ := List.mem_filter.mp member
  obtain rfl : entry.key = key := beq_iff_eq.mp sameKey
  rw [gone entry (peek?_of_mem nodup inCache)] at fresh
  cases fresh

/-- A later look-up is answered alike, and the entries that were too old stay the only difference. -/
theorem get (lacks : LacksExpired time cache other)
    (nodup : (cache.entries.map CacheEntry.key).Nodup) (later : time ≤ now) (key : String) :
    (other.get key now).1 = (cache.get key now).1 ∧
      LacksExpired time (cache.get key now).2 (other.get key now).2 := by
  cases found : cache.peek? key with
  | none =>
      have gone := lacks.peek?_of_gone nodup fun entry isFound => by
        rw [found] at isFound
        cases isFound
      rw [get_of_absent found, get_of_absent gone]
      exact ⟨rfl, lacks.entries, lacks.ttl, lacks.hits, congrArg (· + 1) lacks.misses⟩
  | some entry =>
      cases before : cache.isExpired entry time with
      | true =>
          have gone := lacks.peek?_of_gone nodup fun other isFound => by
            rw [found] at isFound
            cases isFound
            exact before
          have absent := peek?_eq_none_iff.mp gone
          rw [get_of_expired found (isExpired_mono later before), get_of_absent gone]
          refine ⟨rfl, ?_, lacks.ttl, lacks.hits, congrArg (· + 1) lacks.misses⟩
          exact (others_eq_self absent).symm.trans (lacks.others key)
      | false =>
          have stillFound := lacks.peek?_of_fresh nodup found before
          cases expired : cache.isExpired entry now with
          | true =>
              rw [get_of_expired found expired,
                get_of_expired stillFound (lacks.isExpired.trans expired)]
              exact ⟨rfl, lacks.others key, lacks.ttl, lacks.hits, congrArg (· + 1) lacks.misses⟩
          | false =>
              rw [get_of_fresh found expired,
                get_of_fresh stillFound (lacks.isExpired.trans expired)]
              refine ⟨rfl, ?_, lacks.ttl, congrArg (· + 1) lacks.hits, lacks.misses⟩
              have stays : (!cache.isExpired { entry with hits := entry.hits + 1 } time) = true := by
                change (!cache.isExpired entry time) = true
                rw [before]
                rfl
              have kept : [{ entry with hits := entry.hits + 1 }].filter
                  (fun entry => !cache.isExpired entry time) =
                    [{ entry with hits := entry.hits + 1 }] :=
                List.filter_cons_of_pos stays
              change other.others key ++ _ = List.filter (fun entry => !cache.isExpired entry time) _
              rw [List.filter_append, kept, ← lacks.others]

/-- All later look-ups are answered alike. -/
theorem getEach {maxSize ttl : Nat} {history : List (Step alpha)}
    (lacks : LacksExpired time (after maxSize ttl history) other) {queries : List (String × Nat)}
    (later : ∀ query ∈ queries, time ≤ query.2) :
    (other.getEach queries).1 = ((after maxSize ttl history).getEach queries).1 ∧
      LacksExpired time ((after maxSize ttl history).getEach queries).2
        (other.getEach queries).2 := by
  induction queries generalizing history other with
  | nil => exact ⟨rfl, lacks⟩
  | cons query queries inductionHypothesis =>
      obtain ⟨key, now⟩ := query
      obtain ⟨nodup, _⟩ := wellFormed_after maxSize ttl history
      obtain ⟨sameAnswer, stillLacks⟩ := lacks.get nodup (later _ List.mem_cons_self) key
      -- the cache after the first look-up is the one after a longer history
      obtain ⟨sameAnswers, lacksAfter⟩ :=
        @inductionHypothesis _ (.get key now :: history) stillLacks
          fun query member => later query (List.mem_cons_of_mem _ member)
      exact ⟨List.cons_eq_cons.mpr ⟨sameAnswer, sameAnswers⟩, lacksAfter⟩

end LacksExpired

/-! ## Every history -/

/-- After any history, dropping what is too old at some time leaves the answers to all later
look-ups and their hits and misses as they are. The entries dropped are those that a look-up at that
time would find too old. -/
theorem prune_unnoticed (maxSize ttl : Nat) (history : List (Step alpha)) (time : Nat) :
    let cache := after maxSize ttl history
    let pruned := (cache.prune time).2
    (pruned.hits = cache.hits ∧ pruned.misses = cache.misses ∧
      ∀ key now, time ≤ now →
        (pruned.get key now).1 = (cache.get key now).1 ∧
        (pruned.get key now).2.hits = (cache.get key now).2.hits ∧
        (pruned.get key now).2.misses = (cache.get key now).2.misses) ∧
    (cache.prune time).1 = cache.entries.countP (fun entry => cache.expires entry.key time) ∧
    pruned.entries = cache.entries.filter fun entry => !cache.expires entry.key time := by
  intro cache pruned
  obtain ⟨nodup, _⟩ : (cache.entries.map CacheEntry.key).Nodup ∧ _ :=
    wellFormed_after maxSize ttl history
  refine ⟨⟨rfl, rfl, fun key now later => ?_⟩, ?_, ?_⟩
  · obtain ⟨sameAnswer, alike⟩ := (lacksExpired_prune cache time).get nodup later key
    exact ⟨sameAnswer, alike.hits, alike.misses⟩
  · have dropped : cache.entries.countP (fun entry => cache.expires entry.key time) =
        cache.entries.countP (fun entry => cache.isExpired entry time) :=
      List.countP_congr fun entry member => by rw [expires_of_mem nodup member]
    have split := List.length_eq_length_filter_add (l := cache.entries)
      (fun entry => cache.isExpired entry time)
    rw [dropped, List.countP_eq_length_filter]
    change cache.entries.length - (cache.prune time).2.entries.length = _
    rw [entries_prune]
    exact Nat.sub_eq_of_eq_add split
  · refine (entries_prune cache time).trans (List.filter_congr fun entry member => ?_)
    rw [expires_of_mem nodup member]

/-- One entry was stored at the latest time, and another one is just too old. -/
theorem prune_unnoticed_overdue :
    let cache := after 3 10 [.set "c" 3 25, .get "b" 14, .set "b" 2 12, .set "a" 1 5]
    let pruned := (cache.prune 15).2
    15 ≤ 16 ∧ (pruned.get "b" 16).1 = (cache.get "b" 16).1 ∧ (cache.get "b" 16).1 = some 2 ∧
      (pruned.get "a" 16).1 = (cache.get "a" 16).1 ∧ (cache.get "a" 16).1 = none ∧
      (cache.prune 15).1 = 1 := by
  intro cache pruned
  have unnoticed := prune_unnoticed 3 10
    ([.set "c" 3 25, .get "b" 14, .set "b" 2 12, .set "a" 1 5] : List (Step Nat)) 15
  refine ⟨by decide, (unnoticed.1.2.2 "b" 16 (by decide)).1, by decide,
    (unnoticed.1.2.2 "a" 16 (by decide)).1, by decide, ?_⟩
  exact unnoticed.2.1.trans (by decide)

/-- Nor is what was dropped missed by several later look-ups, whatever the order of their times. -/
theorem getEach_prune (maxSize ttl : Nat) (history : List (Step alpha)) {time : Nat}
    {queries : List (String × Nat)} (later : ∀ query ∈ queries, time ≤ query.2) :
    let cache := after maxSize ttl history
    let pruned := (cache.prune time).2
    (pruned.getEach queries).1 = (cache.getEach queries).1 ∧
      (pruned.getEach queries).2.hits = (cache.getEach queries).2.hits ∧
      (pruned.getEach queries).2.misses = (cache.getEach queries).2.misses := by
  intro cache pruned
  obtain ⟨sameAnswers, alike⟩ := (lacksExpired_prune cache time).getEach later
  exact ⟨sameAnswers, alike.hits, alike.misses⟩

end FuzzyRating.Cache
