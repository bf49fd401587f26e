import FuzzyRating.Json.Record
import FuzzyRating.Proofs.Json.Numeral
import FuzzyRating.Proofs.Json.Spacing
import FuzzyRating.Proofs.Json.Text

/-!
Values that are read back from the text they are written as. Scalars are, and a list is if its items
are. Items stand behind one another, so each is read with the text of the others behind it.
-/

namespace FuzzyRating.Json

/-- Written in either way, the value is read behind any spaces, whatever follows that does not go on
with a number. -/
def ReadsAs {alpha : Type} (read : Reader alpha) (depth : Nat) (json : Value) (value : alpha) :
    Prop :=
  ∀ spacing blank tail, Blank blank → Ends Decimal.continuesNumeral tail →
    read depth (blank ++ (json.textIn spacing ++ tail)) = .ok (value, tail)

/-- A value other than `null` starts right here. -/
def Starts (text : List Char) : Prop :=
  ∃ c behind, text = c :: behind ∧ isSpace c = false ∧ c ≠ ']' ∧ c ≠ 'n'

/-- The value is read back from what is written, which is not `null`. -/
structure Written {alpha : Type} (read : Reader alpha) (depth : Nat) (json : Value) (value : alpha) :
    Prop where
  starts : ∀ spacing, Starts (json.textIn spacing)
  readsAs : ReadsAs read depth json value

/-! ## Scalars -/

section

variable {alpha beta : Type} {read : Reader alpha} {depth : Nat} {value : alpha} {json : Value}
  {text blank rest tail : List Char}

theorem ReadsAs.here (readsAs : ReadsAs read depth json value) (spacing : Spacing)
    (ends : Ends Decimal.continuesNumeral tail) :
    read depth (json.textIn spacing ++ tail) = .ok (value, tail) :=
  readsAs spacing [] tail (List.forall_mem_nil _) ends

theorem skipSpace_cons {c : Char} (solid : isSpace c = false) (text : List Char) :
    skipSpace (c :: text) = c :: text := by
  unfold skipSpace
  rw [List.dropWhile_cons_of_neg (by simp [solid])]

theorem skipSpace_append (isBlank : Blank blank) (text : List Char) :
    skipSpace (blank ++ text) = skipSpace text :=
  List.dropWhile_append_of_pos isBlank

theorem Starts.skipSpace_append (starts : Starts text) (isBlank : Blank blank) (rest : List Char) :
    skipSpace (blank ++ (text ++ rest)) = text ++ rest := by
  obtain ⟨c, behind, rfl, solid, _⟩ := starts
  rw [Json.skipSpace_append isBlank]
  exact skipSpace_cons solid _

theorem starts_stringText (text : String) : Starts (stringText text) :=
  ⟨'"', _, rfl, rfl, by decide, by decide⟩

/-- A scalar is written in one way only. -/
theorem Written.scalar (textEq : ∀ spacing, json.textIn spacing = text) (starts : Starts text)
    (readsAs : ∀ blank tail, Blank blank → Ends Decimal.continuesNumeral tail →
      read depth (blank ++ (text ++ tail)) = .ok (value, tail)) : Written read depth json value := by
  constructor
  · intro spacing
    rw [textEq]
    exact starts
  · intro spacing blank tail isBlank ends
    rw [textEq]
    exact readsAs blank tail isBlank ends

theorem textIn_text (text : String) (spacing : Spacing) :
    (Value.text text).textIn spacing = stringText text := by
  cases spacing <;> rfl

theorem textIn_bool (value : Bool) (spacing : Spacing) :
    (Value.bool value).textIn spacing = (if value then "true" else "false").toList := by
  cases spacing <;> rfl

theorem textIn_number (value : Float) (spacing : Spacing) :
    (Value.number value).textIn spacing = (Layout.json.write value).toList := by
  cases spacing <;> rfl

theorem textIn_natural (value : Nat) (spacing : Spacing) :
    (Value.natural value).textIn spacing = Layout.digits value := by
  cases spacing <;> rfl

theorem stringReader_written (expected : String) (depth : Nat) (text : String) :
    Written (stringReader expected) depth (.text text) text := by
  have starts := starts_stringText text
  refine .scalar (textIn_text text) starts fun blank tail isBlank _ => ?_
  obtain ⟨behind, textEq, readEq⟩ := readString_stringText text tail
  unfold stringReader
  rw [starts.skipSpace_append isBlank, textEq]
  exact readEq

theorem textReader_written (depth : Nat) (text : String) :
    Written textReader depth (.text text) text :=
  stringReader_written "a string" depth text

theorem boolReader_written (depth : Nat) (value : Bool) :
    Written boolReader depth (.bool value) value := by
  have starts : Starts (if value then "true" else "false").toList := by
    cases value with
    | false => exact ⟨'f', _, rfl, rfl, by decide, by decide⟩
    | true => exact ⟨'t', _, rfl, rfl, by decide, by decide⟩
  refine .scalar (textIn_bool value) starts fun blank tail isBlank _ => ?_
  unfold boolReader
  rw [starts.skipSpace_append isBlank]
  cases value <;> rfl

theorem starts_of_startsNumber {c : Char} (number : startsNumber c = true) :
    Starts (c :: rest) := by
  refine ⟨c, rest, rfl, ?_, ?_, ?_⟩
  · by_contra space
    simp only [isSpace, Bool.not_eq_false, Bool.or_eq_true, beq_iff_eq] at space
    rcases space with ((rfl | rfl) | rfl) | rfl <;> cases number
  · rintro rfl
    cases number
  · rintro rfl
    cases number

theorem floatReader_written {value : Float} (readsBack : ReadsBack value) (depth : Nat) :
    Written floatReader depth (.number value) value := by
  obtain ⟨⟨numeral, left⟩, readEq, valueEq⟩ := Option.map_eq_some_iff.mp readsBack
  cases valueEq
  have numeralEq := eq_ok_of_toOption readEq
  obtain ⟨c, behind, textEq, number⟩ := startsNumber_of_readNumeral numeralEq
  have starts : Starts (c :: behind) := starts_of_startsNumber number
  rw [textEq] at numeralEq
  refine .scalar (fun spacing => (textIn_number _ spacing).trans textEq) starts
    fun blank tail isBlank ends => ?_
  have appended := readNumeral_append numeralEq ends
  unfold floatReader
  rw [starts.skipSpace_append isBlank, List.cons_append]
  dsimp only
  rw [if_pos number, ← List.cons_append, appended]
  rfl

theorem naturalReader_written {value : Nat} (fits : value < Nat.pow 2 64) (expected : String)
    (depth : Nat) : Written (naturalReader expected) depth (.natural value) value := by
  have numeralEq : ∀ tail, Ends Decimal.continuesNumeral tail →
      readNumeral (Layout.digits value ++ tail) = .ok (.natural value, tail) :=
    fun tail ends => readNumeral_digits fits ends
  have alone := numeralEq [] Ends.nil
  rw [List.append_nil] at alone
  obtain ⟨c, behind, textEq, number⟩ := startsNumber_of_readNumeral alone
  have starts : Starts (c :: behind) := starts_of_startsNumber number
  refine .scalar (fun spacing => (textIn_natural _ spacing).trans textEq) starts
    fun blank tail isBlank ends => ?_
  have appended := numeralEq tail ends
  rw [textEq] at appended
  unfold naturalReader
  rw [starts.skipSpace_append isBlank, List.cons_append]
  dsimp only
  rw [if_pos number, ← List.cons_append, appended]
  rfl

theorem variantReader_written {variants : List (String × alpha)} {name : String}
    (known : variants.lookup name = some value) (depth : Nat) :
    Written (variantReader variants) depth (.text name) value := by
  have starts := starts_stringText name
  refine .scalar (textIn_text name) starts fun blank tail isBlank _ => ?_
  obtain ⟨behind, textEq, readEq⟩ := readString_stringText name tail
  unfold variantReader
  rw [starts.skipSpace_append isBlank, textEq]
  change (readString behind >>= fun result => findVariant variants result.1 result.2) = _
  rw [readEq]
  change findVariant variants name tail = _
  unfold findVariant
  rw [known]

theorem Written.option (written : Written read depth json value) :
    Written (optionReader read) depth json (some value) := by
  refine ⟨written.starts, fun spacing blank tail isBlank ends => ?_⟩
  have readEq := written.readsAs.here spacing ends
  have skipped := (written.starts spacing).skipSpace_append isBlank tail
  obtain ⟨c, behind, textEq, _, _, notNull⟩ := written.starts spacing
  unfold optionReader
  rw [skipped]
  rw [textEq, List.cons_append] at readEq ⊢
  split
  · next same =>
      cases same
      exact absurd rfl notNull
  · rw [readEq]
    rfl

theorem ofOption_readsAs {encode : alpha → Value} {value : Option alpha}
    (written : ∀ inner, value = some inner → Written read depth (encode inner) inner) :
    ReadsAs (optionReader read) depth (Value.ofOption encode value) value := by
  cases value with
  | none =>
      intro spacing blank tail isBlank _
      have textEq : Value.null.textIn spacing = "null".toList := by
        cases spacing <;> rfl
      unfold optionReader
      rw [Value.ofOption, textEq, skipSpace_append isBlank]
      rfl
  | some inner => exact (written inner rfl).option.readsAs

theorem Written.checked {check : alpha → Except String beta} {checked : beta}
    (written : Written read depth json value) (checkEq : check value = .ok checked) :
    Written (checkedReader read check) depth json checked := by
  refine ⟨written.starts, fun spacing blank tail isBlank ends => ?_⟩
  unfold checkedReader
  rw [written.readsAs spacing blank tail isBlank ends]
  simp only [bind, Except.bind, checkEq]

end

/-! ## Lists -/

section

variable {alpha : Type} {read : Reader alpha} {encode : alpha → Value} {depth limit : Nat}
  {items : List alpha} {text tail : List Char} (spacing : Spacing)

theorem nextItem_first (starts : Starts text) (rest : List Char) :
    nextItem true (spacing.gap ++ (text ++ rest)) = .ok (some (text ++ rest), text ++ rest) := by
  obtain ⟨c, behind, rfl, solid, notEnd, _⟩ := starts
  unfold nextItem
  rw [skipSpace_append spacing.blank_gap, List.cons_append, skipSpace_cons solid]
  split
  · next empty => cases empty
  · next same =>
      cases same
      exact absurd rfl notEnd
  · next same =>
      cases same
      rfl

theorem nextItem_later (starts : Starts text) (rest : List Char) :
    nextItem false (',' :: (spacing.gap ++ (text ++ rest))) =
      .ok (some (text ++ rest), text ++ rest) := by
  obtain ⟨c, behind, rfl, solid, notEnd, _⟩ := starts
  unfold nextItem
  rw [skipSpace_cons rfl]
  split
  · next empty => cases empty
  · next same => cases same
  · next same =>
      cases same
      rw [if_neg Bool.false_ne_true, if_pos rfl, skipSpace_append spacing.blank_gap,
        List.cons_append, skipSpace_cons solid]
      split
      · next same =>
          cases same
          exact absurd rfl notEnd
      · next empty => cases empty
      · rfl

theorem nextItem_end (first : Bool) (tail : List Char) :
    nextItem first (spacing.behind ++ ']' :: tail) = .ok (none, ']' :: tail) := by
  unfold nextItem
  rw [skipSpace_append spacing.blank_behind, skipSpace_cons rfl]
  rfl

/-- The texts of the items. -/
def itemTexts (encode : alpha → Value) (items : List alpha) : List (List Char) :=
  items.map fun item => (encode item).textIn spacing.inner

theorem itemsWithin_later (each : ∀ item ∈ items, Written read depth (encode item) item)
    (room : items.length < limit) (tail : List Char) :
    itemsWithin read depth limit false
        (spacing.following ']' (itemTexts spacing encode items) tail) =
      .ok (items, ']' :: tail) := by
  induction items generalizing limit with
  | nil =>
      obtain ⟨limit, rfl⟩ := Nat.exists_eq_add_one.mpr room
      rw [itemTexts, List.map_nil, Spacing.following_nil, itemsWithin, nextItem_end]
      rfl
  | cons item items inductionHypothesis =>
      obtain ⟨limit, rfl⟩ := Nat.exists_eq_add_one.mpr (Nat.zero_lt_of_lt room)
      rw [List.forall_mem_cons] at each
      have readEq := each.1.readsAs.here spacing.inner
        (spacing.ends_following ']' rfl (itemTexts spacing encode items) tail)
      have later := inductionHypothesis each.2 (Nat.lt_of_succ_lt_succ room)
      rw [itemTexts, List.map_cons, Spacing.following_cons, itemsWithin,
        nextItem_later spacing (each.1.starts spacing.inner), ← itemTexts]
      simp only [readEq, later, bind, Except.bind]

/-- A list in either spacing. -/
theorem readList_written (room : 1 < depth) {blank : List Char} (isBlank : Blank blank)
    (each : ∀ item ∈ items, Written read (depth - 1) (encode item) item) :
    listReader read depth
        (blank ++ (spacing.bracketed '[' ']' (itemTexts spacing encode items) ++ tail)) =
      .ok (items, tail) := by
  have inside : ∀ text,
      itemsWithin read (depth - 1) (text.length + 1) true text = .ok (items, ']' :: tail) →
        listReader read depth (blank ++ '[' :: text) = .ok (items, tail) := by
    intro text itemsEq
    unfold listReader
    rw [skipSpace_append isBlank, skipSpace_cons rfl]
    refine Eq.trans (if_neg (Nat.not_le.mpr room)) ?_
    change closing closeList (itemsWithin read (depth - 1) (text.length + 1) true text) = _
    rw [itemsEq]
    rfl
  cases items with
  | nil =>
      apply inside
      rfl
  | cons item items =>
      rw [List.forall_mem_cons] at each
      rw [itemTexts, List.map_cons, Spacing.bracketed_cons_append, ← itemTexts]
      apply inside
      have readEq := each.1.readsAs.here spacing.inner
        (spacing.ends_following ']' rfl (itemTexts spacing encode items) tail)
      have enough : items.length < (spacing.gap ++ ((encode item).textIn spacing.inner ++
          spacing.following ']' (itemTexts spacing encode items) tail)).length := by
        have rest := spacing.length_lt_following ']' (itemTexts spacing encode items) tail
        rw [itemTexts, List.length_map, ← itemTexts] at rest
        rw [List.length_append, List.length_append]
        omega
      have later := itemsWithin_later spacing each.2 enough tail
      rw [itemsWithin, nextItem_first spacing (each.1.starts spacing.inner)]
      simp only [readEq, later, bind, Except.bind]

theorem listReader_written (room : 1 < depth)
    (each : ∀ item ∈ items, Written read (depth - 1) (encode item) item) :
    Written (listReader read) depth (.array (items.map encode)) items := by
  have textEq : ∀ spacing, (Value.array (items.map encode)).textIn spacing =
      spacing.bracketed '[' ']' (itemTexts spacing encode items) := by
    intro spacing
    rw [Spacing.textIn_array, List.map_map]
    rfl
  constructor
  · intro spacing
    obtain ⟨inside, insideEq⟩ := spacing.exists_bracketed '[' ']' (itemTexts spacing encode items)
    rw [textEq, insideEq]
    exact ⟨'[', inside, rfl, rfl, by decide, by decide⟩
  · intro spacing blank tail isBlank _
    rw [textEq]
    exact readList_written spacing room isBlank each

end

end FuzzyRating.Json
