import FuzzyRating.PropertyValue

/-!
The values of one subject, by property name or id.
-/

namespace FuzzyRating

/-- Values by key. Each key has one value. -/
structure PropertyData (num : Type) where
  entries : List (String × PropertyValue num)
  distinct : (entries.map Prod.fst).Nodup

namespace PropertyData

variable {num : Type}

def empty : PropertyData num :=
  ⟨[], List.nodup_nil⟩

/-- The value of a key. -/
def get? (data : PropertyData num) (key : String) : Option (PropertyValue num) :=
  data.entries.lookup key

/-- Keeps the entries whose key and value satisfy a test. -/
def filter (test : String → PropertyValue num → Bool) (data : PropertyData num) :
    PropertyData num where
  entries := data.entries.filter fun (key, value) => test key value
  distinct := (List.filter_sublist.map Prod.fst).nodup data.distinct

/-- Gives a key a value, in place of the one it had. -/
def insert (key : String) (value : PropertyValue num) (data : PropertyData num) :
    PropertyData num where
  entries := (key, value) :: (data.filter fun other _ => other != key).entries
  distinct := by
    refine List.nodup_cons.mpr ⟨?_, (data.filter fun other _ => other != key).distinct⟩
    simp [filter]

/-- Entries one after the other. The last value of a key counts. -/
def ofList (entries : List (String × PropertyValue num)) : PropertyData num :=
  entries.foldl (fun data (key, value) => data.insert key value) empty

/-- The entries in the order of their keys. -/
def sorted (data : PropertyData num) : List (String × PropertyValue num) :=
  data.entries.mergeSort fun a b => decide (a.1 ≤ b.1)

end PropertyData

end FuzzyRating
