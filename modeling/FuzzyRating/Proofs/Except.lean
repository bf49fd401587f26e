/-!
Steps that may fail, one after the other.
-/

namespace FuzzyRating

variable {epsilon alpha beta : Type}

/-- A value comes out of two steps exactly if one comes out of each. -/
theorem bind_eq_ok_iff {first : Except epsilon alpha} {next : alpha → Except epsilon beta}
    {result : beta} :
    first >>= next = .ok result ↔ ∃ value, first = .ok value ∧ next value = .ok result := by
  constructor
  · cases first with
    | error error =>
        intro impossible
        cases impossible
    | ok value => exact fun second => ⟨value, rfl, second⟩
  · rintro ⟨value, rfl, second⟩
    exact second

theorem eq_ok_of_toOption {outcome : Except epsilon alpha} {value : alpha}
    (isSome : outcome.toOption = some value) :
    outcome = .ok value := by
  cases outcome with
  | error error => cases isSome
  | ok other =>
      cases isSome
      rfl

/-- Renaming errors keeps values as they are. -/
theorem mapError_eq_ok_iff {delta : Type} {rename : epsilon → delta}
    {outcome : Except epsilon alpha} {value : alpha} :
    outcome.mapError rename = .ok value ↔ outcome = .ok value := by
  cases outcome with
  | error error => exact ⟨nofun, nofun⟩
  | ok other =>
      constructor
      · rintro ⟨⟩
        rfl
      · rintro ⟨⟩
        rfl

/-- What holds at the start of a fold and is kept by each of its steps holds at its end. The motive
may speak about the items passed so far. -/
theorem foldlM_induction {step : beta → alpha → Except epsilon beta} {start result : beta}
    {items : List alpha} (motive : List alpha → beta → Prop) (initial : motive [] start)
    (kept : ∀ passed item rest current next, items = passed ++ item :: rest →
      motive passed current → step current item = .ok next → motive (passed ++ [item]) next)
    (finished : items.foldlM step start = .ok result) :
    motive items result := by
  suffices general : ∀ passed rest current, items = passed ++ rest → motive passed current →
      rest.foldlM step current = .ok result → motive items result from
    general [] items start rfl initial finished
  intro passed rest
  induction rest generalizing passed with
  | nil =>
      intro current itemsEq holds ended
      rw [List.append_nil] at itemsEq
      cases ended
      rwa [itemsEq]
  | cons item rest inductionHypothesis =>
      intro current itemsEq holds remaining
      rw [List.foldlM_cons] at remaining
      obtain ⟨next, stepEq, later⟩ := bind_eq_ok_iff.mp remaining
      have nextHolds := kept passed item rest current next itemsEq holds stepEq
      have nextEq : items = (passed ++ [item]) ++ rest := by
        simpa using itemsEq
      exact inductionHypothesis (passed ++ [item]) next nextEq nextHolds later

end FuzzyRating
