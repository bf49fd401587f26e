import FuzzyRating.Engine
import FuzzyRating.Proofs.Decimal.Bits
import FuzzyRating.Proofs.Journal
import FuzzyRating.Proofs.Json.Text
import FuzzyRating.Proofs.PropertyData
import FuzzyRating.Proofs.Stretch

/-!
A cache key gives back what it was made of: the name of the interpretation and, when all numbers
are finite, the value of every key of the data. Nothing else goes into it, so the same name and the
same values give the same key.
-/

namespace FuzzyRating

namespace Json

/-! ## Values -/

/-- Whether a character cannot stand behind a value in an object. -/
private def isInner (c : Char) : Bool :=
  c != ',' && c != '}'

private theorem isInner_of_isMark {c : Char} (mark : Layout.isMark c = true) :
    isInner c = true := by
  unfold isInner
  simp only [Bool.and_eq_true, bne_iff_ne]
  constructor <;>
    · rintro rfl
      cases mark

/-- Numbers and `null` have no quotes, and none of the characters that follow values. -/
private structure Plain (text : List Char) : Prop where
  nonempty : text ≠ []
  unquoted : '"' ∉ text
  inner : ∀ c ∈ text, isInner c = true

private theorem plain_null :
    Plain Value.null.compactText where
  nonempty := by decide +kernel
  unquoted := by decide +kernel
  inner := List.all_eq_true.mp (by decide +kernel)

private theorem plain_number {x : Float} (finite : x.isFinite = true) :
    Plain (Value.number x).compactText where
  nonempty := Layout.write_ne_nil finite
  unquoted := fun quote => by
    have mark := Layout.isMark_of_mem_write finite quote
    cases mark
  inner := fun _ member => isInner_of_isMark (Layout.isMark_of_mem_write finite member)

private theorem stringText_append_ne_plain {text : String} {plain aRest bRest : List Char}
    (isPlain : Plain plain) :
    stringText text ++ aRest ≠ plain ++ bRest := by
  intro same
  obtain ⟨c, rest, rfl⟩ := List.exists_cons_of_ne_nil isPlain.nonempty
  simp only [stringText, List.cons_append, List.cons.injEq] at same
  obtain ⟨rfl, _⟩ := same
  exact isPlain.unquoted List.mem_cons_self

/-- Numbers in a value are finite. -/
private def FiniteValue (value : PropertyValue Float) : Prop :=
  value.number?.all Float.isFinite = true

/-- A written value is known from what follows it. -/
private theorem value_append_inj {a b : PropertyValue Float} {aRest bRest : List Char}
    (aFinite : FiniteValue a) (bFinite : FiniteValue b)
    (aEnds : Ends isInner aRest) (bEnds : Ends isInner bRest)
    (same : a.toJson.compactText ++ aRest = b.toJson.compactText ++ bRest) :
    a = b ∧ aRest = bRest := by
  have plainSame {aText bText : List Char} (aPlain : Plain aText) (bPlain : Plain bText)
      (sameText : aText ++ aRest = bText ++ bRest) :
      aText = bText ∧ aRest = bRest :=
    stretch_inj aPlain.inner bPlain.inner aEnds bEnds sameText
  have numberNotNull {x : Float} (finite : x.isFinite = true) :
      (Value.number x).compactText ≠ Value.null.compactText := by
    intro sameText
    have inText : 'n' ∈ (Layout.json.write x).toList := by
      change 'n' ∈ (Value.number x).compactText
      rw [sameText]
      decide +kernel
    have mark := Layout.isMark_of_mem_write finite inText
    cases mark
  cases a with
  | text aText =>
      cases b with
      | text bText =>
          obtain ⟨rfl, sameRest⟩ := stringText_append_inj same
          exact ⟨rfl, sameRest⟩
      | number y => exact (stringText_append_ne_plain (plain_number bFinite) same).elim
      | null => exact (stringText_append_ne_plain plain_null same).elim
  | number x =>
      cases b with
      | text bText => exact (stringText_append_ne_plain (plain_number aFinite) same.symm).elim
      | number y =>
          obtain ⟨sameText, sameRest⟩ := plainSame (plain_number aFinite) (plain_number bFinite) same
          have sameNumber : x = y :=
            Layout.eq_of_write_eq aFinite bFinite (String.toList_inj.mp sameText)
          subst sameNumber
          exact ⟨rfl, sameRest⟩
      | null =>
          exact (numberNotNull aFinite (plainSame (plain_number aFinite) plain_null same).1).elim
  | null =>
      cases b with
      | text bText => exact (stringText_append_ne_plain plain_null same.symm).elim
      | number y =>
          exact (numberNotNull bFinite (plainSame plain_null (plain_number bFinite) same).1.symm).elim
      | null => exact ⟨rfl, (plainSame plain_null plain_null same).2⟩

/-! ## Members -/

/-- Members as they stand in an object, and its closing bracket. -/
private def membersText (members : List (String × PropertyValue Float)) : List Char :=
  separated [','] (Value.compactMembers (members.map fun (key, value) => (key, value.toJson))) ++
    ['}']

/-- What stands behind a member that these members follow. -/
private def followingText : List (String × PropertyValue Float) → List Char
  | [] => ['}']
  | members => ',' :: membersText members

private theorem ends_followingText (members : List (String × PropertyValue Float)) :
    Ends isInner (followingText members) := by
  cases members <;> exact Ends.cons rfl

private theorem membersText_cons (key : String) (value : PropertyValue Float)
    (members : List (String × PropertyValue Float)) :
    membersText ((key, value) :: members) =
      stringText key ++ ':' :: (value.toJson.compactText ++ followingText members) := by
  cases members with
  | nil => simp [membersText, followingText, separated, Value.compactMembers]
  | cons => simp [membersText, followingText, separated, Value.compactMembers]

private theorem membersText_inj {as bs : List (String × PropertyValue Float)}
    (aFinite : ∀ entry ∈ as, FiniteValue entry.2) (bFinite : ∀ entry ∈ bs, FiniteValue entry.2)
    (same : membersText as = membersText bs) :
    as = bs := by
  induction as generalizing bs with
  | nil =>
      cases bs with
      | nil => rfl
      | cons b bs =>
          rw [membersText_cons] at same
          cases same
  | cons a as inductionHypothesis =>
      obtain ⟨aKey, aValue⟩ := a
      cases bs with
      | nil =>
          rw [membersText_cons] at same
          cases same
      | cons b bs =>
          obtain ⟨bKey, bValue⟩ := b
          rw [membersText_cons, membersText_cons] at same
          obtain ⟨rfl, sameBehind⟩ := stringText_append_inj same
          rw [List.cons.injEq] at sameBehind
          obtain ⟨rfl, sameFollowing⟩ := value_append_inj (aFinite _ List.mem_cons_self)
            (bFinite _ List.mem_cons_self) (ends_followingText as) (ends_followingText bs)
            sameBehind.2
          have sameMembers : as = bs := by
            cases as with
            | nil =>
                cases bs with
                | nil => rfl
                | cons => cases sameFollowing
            | cons aNext as =>
                cases bs with
                | nil => cases sameFollowing
                | cons bNext bs =>
                    exact inductionHypothesis
                      (fun entry member => aFinite entry (List.mem_cons_of_mem _ member))
                      (fun entry member => bFinite entry (List.mem_cons_of_mem _ member))
                      (List.cons.inj sameFollowing).2
          rw [sameMembers]

/-! ## No separators in JSON -/

private theorem printable_of_isMark {c : Char} (mark : Layout.isMark c = true) :
    0x20 ≤ c.toNat := by
  unfold Layout.isMark at mark
  simp only [Bool.or_eq_true, beq_iff_eq, or_assoc] at mark
  rcases mark with isDigit | rfl | rfl | rfl | rfl
  · exact le_trans (by decide) (Char.isDigit_iff_toNat.mp isDigit).1
  all_goals decide

private theorem printable_of_mem_value {value : PropertyValue Float} (finite : FiniteValue value)
    {c : Char} (member : c ∈ value.toJson.compactText) :
    0x20 ≤ c.toNat := by
  cases value with
  | number x => exact printable_of_isMark (Layout.isMark_of_mem_write finite member)
  | text text => exact printable_of_mem_stringText member
  | null =>
      have letters : Value.null.compactText.all (0x20 ≤ ·.toNat) = true := by
        decide +kernel
      simpa using List.all_eq_true.mp letters c member

private theorem printable_of_mem_membersText {members : List (String × PropertyValue Float)}
    (finite : ∀ entry ∈ members, FiniteValue entry.2) {c : Char}
    (member : c ∈ membersText members) :
    0x20 ≤ c.toNat := by
  induction members with
  | nil =>
      rw [List.mem_singleton.mp member]
      decide
  | cons first members inductionHypothesis =>
      obtain ⟨key, value⟩ := first
      have later : c ∈ membersText members → 0x20 ≤ c.toNat :=
        inductionHypothesis fun entry inRest => finite entry (List.mem_cons_of_mem _ inRest)
      rw [membersText_cons] at member
      simp only [List.mem_append, List.mem_cons] at member
      rcases member with inKey | rfl | inValue | following
      · exact printable_of_mem_stringText inKey
      · decide
      · exact printable_of_mem_value (finite _ List.mem_cons_self) inValue
      · cases members with
        | nil =>
            rw [List.mem_singleton.mp following]
            decide
        | cons =>
            rcases List.mem_cons.mp following with rfl | inMembers
            · decide
            · exact later inMembers

end Json

namespace PropertyData

open Json

private theorem compact_toJson (data : PropertyData Float) :
    data.toJson.compact = String.ofList ('{' :: membersText data.sorted) :=
  rfl

private theorem finite_of_isCacheable {data : PropertyData Float}
    (cacheable : Engine.isCacheable data = true) :
    ∀ entry ∈ data.sorted, FiniteValue entry.2 := by
  intro entry member
  exact List.all_eq_true.mp cacheable entry (List.mem_mergeSort.mp member)

private theorem get?_eq_lookup_sorted (data : PropertyData Float) (key : String) :
    data.get? key = data.sorted.lookup key :=
  (Journal.lookup_sorted key data.entries).symm

end PropertyData

open Json PropertyData in
/-- The separator is the last control character of a key, as the data that follow have none. -/
theorem cacheKey_inj {name other : String} {data otherData : PropertyData Float}
    (cacheable : Engine.isCacheable data = true)
    (otherCacheable : Engine.isCacheable otherData = true)
    (same : cacheKey name data = cacheKey other otherData) :
    name = other ∧ ∀ key, data.get? key = otherData.get? key := by
  have printable {any : PropertyData Float} (anyCacheable : Engine.isCacheable any = true) :
      ∀ c ∈ ('{' :: membersText any.sorted).reverse, (c != '\x1f') = true := by
    intro c member
    rw [List.mem_reverse, List.mem_cons] at member
    have notControl : 0x20 ≤ c.toNat := by
      rcases member with rfl | inMembers
      · decide
      · exact printable_of_mem_membersText (finite_of_isCacheable anyCacheable) inMembers
    rw [bne_iff_ne]
    rintro rfl
    exact absurd notControl (by decide)
  have reversed : ('{' :: membersText data.sorted).reverse ++ '\x1f' :: name.toList.reverse =
      ('{' :: membersText otherData.sorted).reverse ++ '\x1f' :: other.toList.reverse := by
    have sameChars := congrArg (fun key => key.toList.reverse) same
    simpa [cacheKey, compact_toJson] using sameChars
  obtain ⟨sameText, sameRest⟩ := stretch_inj (printable cacheable) (printable otherCacheable)
    (Ends.cons (bne_self_eq_false _)) (Ends.cons (bne_self_eq_false _)) reversed
  have sameEntries : data.sorted = otherData.sorted :=
    membersText_inj (finite_of_isCacheable cacheable) (finite_of_isCacheable otherCacheable)
      (List.cons.inj (List.reverse_injective sameText)).2
  constructor
  · exact String.toList_inj.mp (List.reverse_injective (List.cons.inj sameRest).2)
  · intro key
    rw [get?_eq_lookup_sorted, get?_eq_lookup_sorted, sameEntries]

/-! ## When keys are the same -/

/-- The value with the bits of its number in place of the number. -/
def PropertyValue.bits : PropertyValue Float → PropertyValue UInt64
  | number value => .number value.toBits
  | text value => .text value
  | null => .null

theorem PropertyValue.bits_injective : Function.Injective PropertyValue.bits := by
  intro a b same
  cases a <;> cases b <;> simp only [bits, number.injEq, text.injEq, reduceCtorEq] at same
  · rw [eq_of_toBits_eq same]
  · rw [same]
  · rfl

/-- All numbers among the values are finite. -/
def PropertyData.AllFinite (data : PropertyData Float) : Prop :=
  ∀ key x, data.get? key = some (.number x) → x.isFinite = true

theorem PropertyData.isCacheable_iff {data : PropertyData Float} :
    Engine.isCacheable data = true ↔ data.AllFinite := by
  unfold Engine.isCacheable
  rw [List.all_eq_true]
  constructor
  · intro allFinite key x found
    exact allFinite (key, .number x) (get?_eq_some_iff.mp found)
  · rintro allFinite ⟨key, value⟩ member
    have found := get?_eq_some_iff.mpr member
    cases value with
    | number x => exact allFinite key x found
    | text text => rfl
    | null => rfl

theorem cacheKey_eq_of_perm {data other : PropertyData Float}
    (reordered : data.entries.Perm other.entries) (name : String) :
    cacheKey name data = cacheKey name other := by
  unfold cacheKey PropertyData.toJson
  rw [PropertyData.sorted_eq_of_perm reordered]

/-- Keys are the same for the same name and the same values, numbers being the same when their bits
are, and in no other case. In which order the entries came does not matter. -/
theorem cacheKey_eq_iff {name otherName : String} {data other : PropertyData Float}
    (finite : data.AllFinite) (otherFinite : other.AllFinite) :
    (cacheKey name data = cacheKey otherName other ↔
      name = otherName ∧ ∀ key,
        (data.get? key).map PropertyValue.bits = (other.get? key).map PropertyValue.bits) ∧
    ∀ entries reordered : List (String × PropertyValue Float), entries.Perm reordered →
      (entries.map Prod.fst).Nodup →
      cacheKey name (.ofList entries) = cacheKey name (.ofList reordered) := by
  refine ⟨⟨fun same => ?_, ?_⟩, fun entries reordered perm distinct => ?_⟩
  · obtain ⟨sameName, sameValues⟩ := cacheKey_inj (PropertyData.isCacheable_iff.mpr finite)
      (PropertyData.isCacheable_iff.mpr otherFinite) same
    exact ⟨sameName, fun key => by rw [sameValues key]⟩
  · rintro ⟨rfl, sameBits⟩
    have sameValues : ∀ key, data.get? key = other.get? key := fun key =>
      Option.map_injective PropertyValue.bits_injective (sameBits key)
    exact cacheKey_eq_of_perm (PropertyData.perm_entries_iff.mpr sameValues) name
  · have reorderedDistinct : (reordered.map Prod.fst).Nodup :=
      (perm.map Prod.fst).nodup_iff.mp distinct
    apply cacheKey_eq_of_perm
    rw [PropertyData.entries_ofList distinct, PropertyData.entries_ofList reorderedDistinct]
    exact (List.reverse_perm entries).trans (perm.trans (List.reverse_perm reordered).symm)

/-- Zeros of different signs make different keys, also under a name with a separator of its own, and
entries in another order make the same one. -/
theorem cacheKey_signedZero :
    let soil : PropertyData Float := .ofList [("pH", .number 0.0), ("soil", .text "a\x1f\"")]
    let reordered : PropertyData Float := .ofList [("soil", .text "a\x1f\""), ("pH", .number 0.0)]
    let negated : PropertyData Float := .ofList [("soil", .text "a\x1f\""), ("pH", .number (-0.0))]
    soil.AllFinite ∧ negated.AllFinite ∧
      cacheKey "Site\x1f\x7b" soil = cacheKey "Site\x1f\x7b" reordered ∧
      cacheKey "Site\x1f\x7b" soil ≠ cacheKey "Site\x1f\x7b" negated := by
  intro soil reordered negated
  have finite : soil.AllFinite := PropertyData.isCacheable_iff.mp (by decide +kernel)
  have negatedFinite : negated.AllFinite := PropertyData.isCacheable_iff.mp (by decide +kernel)
  obtain ⟨sameKey, sameOrder⟩ :=
    @cacheKey_eq_iff "Site\x1f\x7b" "Site\x1f\x7b" _ _ finite negatedFinite
  refine ⟨finite, negatedFinite, sameOrder _ _ (List.Perm.swap _ _ _) (by decide), fun same => ?_⟩
  have sameValue := (sameKey.mp same).2 "pH"
  have sameBits := congrArg (fun value => value.bind PropertyValue.number?) sameValue
  revert sameBits
  decide +kernel

end FuzzyRating
