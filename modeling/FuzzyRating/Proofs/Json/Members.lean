import FuzzyRating.Proofs.Json.Written
import FuzzyRating.Proofs.Keyed

/-!
Objects that are read back. Each member takes the draft of the record one step on, and the members of
an object do so one after the other.
-/

namespace FuzzyRating.Json.Record

variable {draft alpha beta : Type} {record : Record draft alpha} {depth limit : Nat}
  {current next last : draft} {member : String × Value} {members later : List (String × Value)}

/-! ## One member -/

/-- Reading the member as it is written makes the next draft of the current one. -/
def Takes (record : Record draft alpha) (depth : Nat) (member : String × Value)
    (current next : draft) : Prop :=
  ∀ (spacing : Spacing) tail, Ends Decimal.continuesNumeral tail →
    record.readMember depth member.1 current
        (':' :: (spacing.colon ++ (member.2.textIn spacing.inner ++ tail))) =
      .ok (next, tail)

/-- The value of a field that the draft does not have yet is put into the draft. -/
theorem takes (distinct : (record.fields.map (·.name)).Nodup) (index : Nat)
    {name : String} {isOptional : Bool} {read : Reader beta} {get : draft → Option beta}
    {set : beta → draft → draft} {json : Value} {value : beta}
    (known : record.fields[index]? = some (Field.of name isOptional read get set))
    (unset : get current = none) (readsAs : ReadsAs read depth json value) :
    record.Takes depth (name, json) current (set value current) := by
  intro spacing tail ends
  have found : record.fields.find? (·.name == name) = some (Field.of name isOptional read get set) :=
    (find?_key_eq_some_iff distinct).mpr ⟨List.mem_of_getElem? known, rfl⟩
  have notSet : (Field.of name isOptional read get set).isSet current = false := by
    change (get current).isSome = false
    rw [unset]
    rfl
  have colon : ∀ rest, readColon (':' :: rest) = .ok rest := by
    intro rest
    unfold readColon
    rw [skipSpace_cons rfl]
    rfl
  have readEq := readsAs spacing.inner spacing.colon tail spacing.blank_colon ends
  unfold readMember
  simp only [found, notSet, colon, bind, Except.bind, Bool.false_eq_true, if_false]
  change (read depth (spacing.colon ++ (json.textIn spacing.inner ++ tail)) >>= fun result =>
    Except.ok (set result.1 current, result.2)) = _
  rw [readEq]
  rfl

theorem takesText (distinct : (record.fields.map (·.name)).Nodup) (index : Nat) {name : String}
    {isOptional : Bool} {get : draft → Option String} {set : String → draft → draft} {text : String}
    (known : record.fields[index]? = some (Field.of name isOptional textReader get set))
    (unset : get current = none) :
    record.Takes depth (name, .text text) current (set text current) :=
  takes distinct index known unset (textReader_written depth text).readsAs

/-! ## All members -/

/-- Reading the members in turn makes the last draft of the current one. -/
inductive TakesAll (record : Record draft alpha) (depth : Nat) :
    List (String × Value) → draft → draft → Prop
  | nil (current : draft) : TakesAll record depth [] current current
  | cons {member : String × Value} {members : List (String × Value)} {current next last : draft}
      (first : record.Takes depth member current next)
      (others : TakesAll record depth members next last) :
      TakesAll record depth (member :: members) current last

theorem TakesAll.append (front : record.TakesAll depth members current next)
    (back : record.TakesAll depth later next last) :
    record.TakesAll depth (members ++ later) current last := by
  induction front with
  | nil => exact back
  | cons first _ inductionHypothesis => exact .cons first (inductionHypothesis back)

theorem TakesAll.single (takes : record.Takes depth member current next) :
    record.TakesAll depth [member] current next :=
  .cons takes (.nil next)

theorem join_map_some (value : Option beta) : (value.map some).join = value := by
  cases value with
  | none => rfl
  | some value => rfl

/-- A value that may be absent is written and read, or is left out and stays absent. -/
theorem takesAll_optional (distinct : (record.fields.map (·.name)).Nodup) (index : Nat)
    {name : String} {isOptional : Bool} {read : Reader beta} {get : draft → Option (Option beta)}
    {encode : beta → Value} {value : Option beta}
    (put : Option (Option beta) → draft → draft)
    (known : record.fields[index]? =
      some (Field.of name isOptional (optionReader read) get fun value => put (some value)))
    (unset : get current = none) (same : put none current = current)
    (written : ∀ inner, value = some inner → Written read depth (encode inner) inner) :
    record.TakesAll depth (Value.optionalMember name encode value) current
      (put (value.map some) current) := by
  cases value with
  | none =>
      rw [Option.map_none, same]
      exact .nil current
  | some inner =>
      have takes :=
        takes distinct index known unset (written inner rfl).option.readsAs
      exact .single takes

theorem takesAll_optionalText (distinct : (record.fields.map (·.name)).Nodup) (index : Nat)
    {name : String} {isOptional : Bool} {get : draft → Option (Option String)} {text : Option String}
    (put : Option (Option String) → draft → draft)
    (known : record.fields[index]? =
      some (Field.of name isOptional (optionReader textReader) get fun value => put (some value)))
    (unset : get current = none) (same : put none current = current) :
    record.TakesAll depth (Value.optionalMember name .text text) current
      (put (text.map some) current) :=
  takesAll_optional distinct index put known unset same fun text _ => textReader_written depth text

/-! ## Objects -/

section

variable (spacing : Spacing)

theorem skipSpace_stringText {blank : List Char} (isBlank : Blank blank) (name : String)
    (rest : List Char) : ∃ behind, skipSpace (blank ++ (stringText name ++ rest)) = '"' :: behind ∧
      readString behind = .ok (name, rest) := by
  obtain ⟨behind, textEq, readEq⟩ := readString_stringText name rest
  exact ⟨behind, ((starts_stringText name).skipSpace_append isBlank rest).trans textEq, readEq⟩

theorem nextKey_first (name : String) (rest : List Char) :
    nextKey true (spacing.gap ++ (stringText name ++ rest)) = .ok (some name, rest) := by
  obtain ⟨behind, textEq, readEq⟩ := skipSpace_stringText spacing.blank_gap name rest
  unfold nextKey
  rw [textEq]
  change nextKey.key behind = _
  unfold nextKey.key
  rw [readEq]
  rfl

theorem nextKey_later (name : String) (rest : List Char) :
    nextKey false (',' :: (spacing.gap ++ (stringText name ++ rest))) = .ok (some name, rest) := by
  obtain ⟨behind, textEq, readEq⟩ := skipSpace_stringText spacing.blank_gap name rest
  unfold nextKey
  rw [skipSpace_cons rfl]
  split
  · next empty => cases empty
  · next same => cases same
  · next same =>
      cases same
      rw [if_neg Bool.false_ne_true, if_pos rfl, textEq]
      change nextKey.key behind = _
      unfold nextKey.key
      rw [readEq]
      rfl

theorem nextKey_end (first : Bool) (tail : List Char) :
    nextKey first (spacing.behind ++ '}' :: tail) = .ok (none, '}' :: tail) := by
  unfold nextKey
  rw [skipSpace_append spacing.blank_behind, skipSpace_cons rfl]
  rfl

theorem memberText_append (rest : List Char) :
    memberText spacing member ++ rest = stringText member.1 ++
      ':' :: (spacing.colon ++ (member.2.textIn spacing.inner ++ rest)) := by
  simp [memberText]

theorem membersWithin_later (takes : record.TakesAll depth members current last)
    (room : members.length < limit) (tail : List Char) :
    membersWithin (record.readMember depth) limit false current
        (spacing.following '}' (members.map (memberText spacing)) tail) =
      .ok (last, '}' :: tail) := by
  induction takes generalizing limit with
  | nil current =>
      obtain ⟨limit, rfl⟩ := Nat.exists_eq_add_one.mpr room
      rw [List.map_nil, Spacing.following_nil, membersWithin, nextKey_end]
      rfl
  | @cons member members current next last first _ inductionHypothesis =>
      obtain ⟨limit, rfl⟩ := Nat.exists_eq_add_one.mpr (Nat.zero_lt_of_lt room)
      have readEq := first spacing _
        (spacing.ends_following '}' rfl (members.map (memberText spacing)) tail)
      have later := inductionHypothesis (Nat.lt_of_succ_lt_succ room)
      rw [List.map_cons, Spacing.following_cons, memberText_append, membersWithin, nextKey_later]
      simp only [readEq, later, bind, Except.bind]

/-- An object in either spacing. -/
theorem readObject_written (room : 1 < depth) {blank : List Char} (isBlank : Blank blank)
    {value : alpha} (takes : record.TakesAll (depth - 1) members record.empty last)
    (finishEq : record.finish last = .ok value) (tail : List Char) :
    record.reader depth
        (blank ++ (spacing.bracketed '{' '}' (members.map (memberText spacing)) ++ tail)) =
      .ok (value, tail) := by
  have inside : ∀ text, readMembers (record.readMember (depth - 1)) record.empty text =
      .ok (last, '}' :: tail) → record.reader depth (blank ++ '{' :: text) = .ok (value, tail) := by
    intro text membersEq
    unfold reader
    rw [skipSpace_append isBlank, skipSpace_cons rfl]
    refine Eq.trans (if_neg (Nat.not_le.mpr room)) ?_
    change closing closeObject (record.complete
      (readMembers (record.readMember (depth - 1)) record.empty text)) = _
    rw [membersEq]
    simp only [complete, finishEq, bind, Except.bind]
    rfl
  cases takes with
  | nil =>
      apply inside
      rfl
  | @cons member members _ next _ first others =>
      have enough : members.length < (spacing.gap ++ (memberText spacing member ++
          spacing.following '}' (members.map (memberText spacing)) tail)).length := by
        have rest := spacing.length_lt_following '}' (members.map (memberText spacing)) tail
        rw [List.length_map] at rest
        rw [List.length_append, List.length_append]
        omega
      have readEq := first spacing _
        (spacing.ends_following '}' rfl (members.map (memberText spacing)) tail)
      have later := membersWithin_later spacing others enough tail
      rw [List.map_cons, Spacing.bracketed_cons_append]
      apply inside
      unfold readMembers
      rw [membersWithin]
      rw [memberText_append] at later ⊢
      rw [nextKey_first]
      simp only [readEq, later, bind, Except.bind]

end

/-- An object is read back if its members lead to a draft of the value. -/
theorem written (room : 1 < depth) {value : alpha}
    (takes : record.TakesAll (depth - 1) members record.empty last)
    (finishEq : record.finish last = .ok value) :
    Written record.reader depth (.object members) value := by
  constructor
  · intro spacing
    obtain ⟨inside, insideEq⟩ := spacing.exists_bracketed '{' '}' (members.map (memberText spacing))
    rw [Spacing.textIn_object, insideEq]
    exact ⟨'{', inside, rfl, rfl, by decide, by decide⟩
  · intro spacing blank tail isBlank _
    rw [Spacing.textIn_object]
    exact readObject_written spacing room isBlank takes finishEq tail

end FuzzyRating.Json.Record
