import FuzzyRating.Proofs.Json.Members
import FuzzyRating.Proofs.Json.Yield

/-!
Values that were read, written again. Reading them gives the same values, as long as their numbers are
read back.
-/

namespace FuzzyRating.Json

variable {alpha beta : Type} {read : Reader alpha} {encode : alpha → Value}
  {numbers : alpha → List Float} {depth : Nat}

/-- The value is read back from its text if its finite numbers are. -/
def Stable (read : Reader alpha) (encode : alpha → Value) (numbers : alpha → List Float)
    (depth : Nat) (value : alpha) : Prop :=
  (∀ x ∈ numbers value, x.isFinite = true → ReadsBack x) → Written read depth (encode value) value

/-- Every value that is read is stable. -/
def Rereads (read : Reader alpha) (encode : alpha → Value) (numbers : alpha → List Float)
    (depth : Nat) : Prop :=
  Yields read depth (Stable read encode numbers depth)

/-- A part of a value is read back if the numbers of the whole value are. -/
theorem Stable.written {value : alpha} (stable : Stable read encode numbers depth value)
    {all : List Float} (readsBack : ∀ x ∈ all, x.isFinite = true → ReadsBack x)
    (within : numbers value ⊆ all) : Written read depth (encode value) value :=
  stable fun x inValue => readsBack x (within inValue)

/-- A number on its own. -/
abbrev StableNumber (depth : Nat) (x : Float) : Prop :=
  Stable floatReader .number (fun x => [x]) depth x

theorem stableNumber {x : Float} (finite : x.isFinite = true) (depth : Nat) :
    StableNumber depth x := by
  intro readsBack
  exact floatReader_written (readsBack x List.mem_cons_self finite) depth

theorem floatReader_rereads (depth : Nat) :
    Rereads floatReader .number (fun x => [x]) depth := by
  intro text value rest result
  exact stableNumber (floatReader_yields depth text value rest result) depth

abbrev StableList (read : Reader alpha) (encode : alpha → Value) (numbers : alpha → List Float)
    (depth : Nat) (items : List alpha) : Prop :=
  Stable (listReader read) (fun items => .array (items.map encode)) (·.flatMap numbers) depth items

theorem Stable.list {items : List alpha} (room : 1 < depth)
    (each : ∀ item ∈ items, Stable read encode numbers (depth - 1) item) :
    StableList read encode numbers depth items := by
  intro readsBack
  apply listReader_written room
  intro item member
  apply each item member
  intro x inItem
  exact readsBack x (List.mem_flatMap.mpr ⟨item, member, inItem⟩)

theorem Rereads.list (rereads : Rereads read encode numbers (depth - 1)) :
    Yields (listReader read) depth (StableList read encode numbers depth) := by
  intro text items rest result
  obtain ⟨room, each⟩ := Yields.list rereads text items rest result
  exact Stable.list room each

/-- A list that was left out is written as an empty one. -/
theorem Stable.list_getD {items : Option (List alpha)} (room : 1 < depth)
    (given : ∀ listed, items = some listed → StableList read encode numbers depth listed) :
    StableList read encode numbers depth (items.getD []) := by
  cases items with
  | none => exact Stable.list room (List.forall_mem_nil _)
  | some items => exact given items rfl

theorem eq_some_of_required {name : String} {member : Option alpha} {value : alpha}
    (present : required name member = .ok value) : member = some value := by
  cases member with
  | none => cases present
  | some member =>
      cases present
      rfl

/-- A value that was just put into a draft is the one found there. -/
theorem forall_eq_some {good : alpha → Prop} {value : alpha} (holds : good value) :
    ∀ other, some value = some other → good other := by
  rintro _ ⟨⟩
  exact holds

/-! ## Whole texts -/

theorem of_parse {source : String} {value : alpha} (parsed : parse read source = .ok value) :
    ∃ rest, read startDepth source.toList = .ok (value, rest) := by
  unfold parse at parsed
  dsimp only at parsed
  split at parsed
  · cases parsed
  · next rest readEq =>
      split at parsed
      · cases parsed
        exact ⟨rest, readEq⟩
      · cases parsed

theorem parse_textIn {json : Value} {value : alpha} (written : Written read startDepth json value)
    (spacing : Spacing) : parse read (String.ofList (json.textIn spacing)) = .ok value := by
  have readEq := written.readsAs.here spacing Ends.nil
  rw [List.append_nil] at readEq
  unfold parse
  rw [String.toList_ofList]
  dsimp only
  rw [readEq]
  rfl

/-- What a text says is what it says when it is written out again, with or without line breaks. -/
theorem parse_of_rereads (rereads : Rereads read encode numbers startDepth) {source : String}
    {value : alpha} (parsed : parse read source = .ok value)
    (readsBack : ∀ x ∈ numbers value, x.isFinite = true → ReadsBack x) :
    parse read (encode value).compact = .ok value ∧
      parse read (encode value).pretty = .ok value := by
  obtain ⟨rest, result⟩ := of_parse parsed
  have written := rereads source.toList value rest result readsBack
  exact ⟨parse_textIn written .compact, parse_textIn written (.pretty 0)⟩

end FuzzyRating.Json
