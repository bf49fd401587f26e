/-!
Journals: entries under keys, newest first. A later entry replaces an earlier one under its key.
-/

namespace FuzzyRating

/-- Entries by key, newest first. -/
abbrev Journal (alpha : Type) :=
  List (String × alpha)

namespace Journal

variable {alpha : Type}

/-- Leaves out the entries whose key is that of the entry before, `last` being the key before the
first one. -/
def dropRepeats (last : Option String) : Journal alpha → Journal alpha
  | [] => []
  | (key, value) :: rest =>
      if last = some key then dropRepeats last rest
      else (key, value) :: dropRepeats (some key) rest

/-- The newest entry of each key, in the order of the keys. -/
def current (journal : Journal alpha) : List (String × alpha) :=
  dropRepeats none (journal.mergeSort fun a b => decide (a.1 ≤ b.1))

end Journal

end FuzzyRating
