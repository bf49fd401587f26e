/-!
Stretches of a text: characters of one kind, up to the first one of another kind.
-/

namespace FuzzyRating

variable {inside : Char → Bool} {text rest : List Char}

/-- What follows does not go on with a character of the kind. -/
def Ends (inside : Char → Bool) (rest : List Char) : Prop :=
  ∀ c, rest.head? = some c → inside c = false

theorem Ends.nil : Ends inside [] := by
  intro c isHead
  cases isHead

theorem Ends.cons {c : Char} (outside : inside c = false) : Ends inside (c :: rest) := by
  rintro _ ⟨⟩
  exact outside

/-- The front of what does not go on with the kind does not go on with it either. -/
theorem Ends.of_prefix {kept : List Char} (ends : Ends inside rest) (front : kept <+: rest) :
    Ends inside kept := by
  intro c isHead
  obtain ⟨tail, rfl⟩ := front
  exact ends c (by rw [List.head?_append, isHead, Option.some_or])

theorem takeWhile_stretch (stretch : ∀ c ∈ text, inside c = true) (ends : Ends inside rest) :
    (text ++ rest).takeWhile inside = text := by
  rw [List.takeWhile_append_of_pos stretch]
  cases rest with
  | nil => exact List.append_nil text
  | cons c rest => simp [ends c rfl]

theorem dropWhile_stretch (stretch : ∀ c ∈ text, inside c = true) (ends : Ends inside rest) :
    (text ++ rest).dropWhile inside = rest := by
  rw [List.dropWhile_append_of_pos stretch]
  cases rest with
  | nil => rfl
  | cons c rest => simp [ends c rfl]

theorem takeWhile_append_of_ends (text : List Char) (ends : Ends inside rest) :
    (text ++ rest).takeWhile inside = text.takeWhile inside := by
  induction text with
  | nil => exact takeWhile_stretch (by simp) ends
  | cons c text inductionHypothesis =>
      rw [List.cons_append, List.takeWhile_cons, List.takeWhile_cons, inductionHypothesis]

theorem dropWhile_append_of_ends (text : List Char) (ends : Ends inside rest) :
    (text ++ rest).dropWhile inside = text.dropWhile inside ++ rest := by
  induction text with
  | nil => exact dropWhile_stretch (by simp) ends
  | cons c text inductionHypothesis =>
      rw [List.cons_append, List.dropWhile_cons, List.dropWhile_cons, inductionHypothesis]
      split <;> rfl

/-- A stretch is known from what it stands in front of. -/
theorem stretch_inj {other otherRest : List Char} (stretch : ∀ c ∈ text, inside c = true)
    (otherStretch : ∀ c ∈ other, inside c = true) (ends : Ends inside rest)
    (otherEnds : Ends inside otherRest) (same : text ++ rest = other ++ otherRest) :
    text = other ∧ rest = otherRest := by
  constructor
  · rw [← takeWhile_stretch stretch ends, same, takeWhile_stretch otherStretch otherEnds]
  · rw [← dropWhile_stretch stretch ends, same, dropWhile_stretch otherStretch otherEnds]

end FuzzyRating
