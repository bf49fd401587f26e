import FuzzyRating.Proofs.Assessment.Subject
import FuzzyRating.Proofs.Catalog.Build
import FuzzyRating.Proofs.PropertyData

/-!
Null values in the data of a subject. A null counts as a missing key, except where it hides a
value: the value for a name is looked for under several keys, and a null under one of them ends
the search.
-/

namespace FuzzyRating

variable {num : Type}

namespace PropertyData

/-- The data without the keys whose value is null. -/
def withoutNulls (data : PropertyData num) : PropertyData num :=
  data.filter fun _ value => !value.isNull

theorem get?_withoutNulls (data : PropertyData num) (key : String) :
    data.withoutNulls.get? key = (data.get? key).filter fun value => !value.isNull :=
  get?_filter (fun _ value => !value.isNull) data key

/-- The keys under which the value for a name is looked for, in that order. -/
def searchedKeys (catalog : Catalog num) (name : String) : List String :=
  match catalog.property? name with
  | some property => [name, property.name, property.id]
  | none => [name]

theorem valueOf_eq_findSome? (data : PropertyData num) (catalog : Catalog num) (name : String) :
    data.valueOf catalog name = ((searchedKeys catalog name).findSome? data.get?).getD .null := by
  unfold valueOf searchedKeys
  cases catalog.property? name with
  | none =>
      simp only [Option.bind_none, List.findSome?_cons, List.findSome?_nil]
      cases data.get? name <;> rfl
  | some property =>
      simp only [Option.bind_some, List.findSome?_cons, List.findSome?_nil]
      cases data.get? name <;> cases data.get? property.name <;>
        cases data.get? property.id <;> rfl

/-- The search for a value ends at a null although another key searched has a value. -/
def HidesValue (data : PropertyData num) (catalog : Catalog num) (name : String) : Prop :=
  (searchedKeys catalog name).findSome? data.get? = some .null ∧
    ∃ key ∈ searchedKeys catalog name, ∃ value, data.get? key = some value ∧ value.isNull = false

/-- What a search finds when nulls are passed over, given what it finds first. -/
private theorem findSome?_filter (find : String → Option (PropertyValue num))
    (keys : List String) :
    keys.findSome? (fun key => (find key).filter fun value => !value.isNull) =
      match keys.findSome? find with
      | none => none
      | some .null => keys.findSome? fun key => (find key).filter fun value => !value.isNull
      | some value => some value := by
  induction keys with
  | nil =>
      rfl
  | cons key keys inductionHypothesis =>
      rw [List.findSome?_cons, List.findSome?_cons]
      cases find key with
      | none => simpa using inductionHypothesis
      | some value => cases value <;> simp [Option.filter, PropertyValue.isNull]

/-- Leaving out nulls changes the value found for a name exactly if a null hides one. -/
theorem valueOf_withoutNulls_eq_iff (data : PropertyData num) (catalog : Catalog num)
    (name : String) :
    data.valueOf catalog name = data.withoutNulls.valueOf catalog name ↔
      ¬ data.HidesValue catalog name := by
  rw [valueOf_eq_findSome?, valueOf_eq_findSome?, funext (get?_withoutNulls data)]
  have passedOver := findSome?_filter data.get? (searchedKeys catalog name)
  cases found : (searchedKeys catalog name).findSome? data.get? with
  | none =>
      rw [found] at passedOver
      simp [passedOver, HidesValue, found]
  | some value =>
      rw [found] at passedOver
      cases value with
      | number value => simp [passedOver, HidesValue, found]
      | text value => simp [passedOver, HidesValue, found]
      | null =>
          cases kept : (searchedKeys catalog name).findSome? fun key =>
              (data.get? key).filter fun value => !value.isNull with
          | none =>
              have onlyNulls := List.findSome?_eq_none_iff.mp kept
              have hidesNothing : ¬ data.HidesValue catalog name := by
                rintro ⟨_, key, searched, value, valueEq, notNull⟩
                have dropped := onlyNulls key searched
                simp [valueEq, notNull] at dropped
              simp [hidesNothing]
          | some value =>
              obtain ⟨key, searched, valueEq⟩ := List.exists_of_findSome?_eq_some kept
              obtain ⟨present, notNull⟩ := Option.filter_eq_some_iff.mp valueEq
              have hides : data.HidesValue catalog name :=
                ⟨found, key, searched, value, present, by simpa using notNull⟩
              have different : PropertyValue.null ≠ value := by
                rintro rfl
                simp [PropertyValue.isNull] at notNull
              simp [hides, different]

end PropertyData

/-! ## Assessments without the nulls -/

section Assessment

variable [Arith num] {catalog : Catalog num} {target : Interpretation num}
  {options : AssessmentOptions} {subject : PropertyData num}

/-- A subject that has the same value under every name recorded for another one is assessed as
that one. -/
private theorem assess_start_of_agree {other : PropertyData num}
    (agree : ∀ entry ∈ Journal.current
      (assess catalog target.name target.roots (.start subject options)).2.values,
      subject.valueOf catalog entry.1 = other.valueOf catalog entry.1) :
    assess catalog target.name target.roots (.start other options) =
      (assess catalog target.name target.roots (.start subject options)).leaving
        (·.withData other) := by
  have agreeOn : AgreeOn catalog subject other
      (assess catalog target.name target.roots (.start subject options)).2.values := by
    intro entry member
    obtain ⟨value, inCurrent⟩ := Journal.exists_mem_current member
    exact agree (entry.1, value) inCurrent
  exact (assess_readsOnlyRecorded target).same (.start subject options) agreeOn

end Assessment

/-- An assessment without the nulls in the data comes to the same, with the same ratings of nodes
and the same values used, exactly if under no name used a null hides a value. -/
theorem assess_withoutNulls_iff [Arith num] (catalog : Catalog num) (target : Interpretation num)
    (options : AssessmentOptions) (subject : PropertyData num) :
    let given := assess catalog target.name target.roots (.start subject options)
    let stripped := assess catalog target.name target.roots (.start subject.withoutNulls options)
    (stripped.1 = given.1 ∧
        Journal.current stripped.2.ratings = Journal.current given.2.ratings ∧
        Journal.current stripped.2.values = Journal.current given.2.values) ↔
      ∀ entry ∈ Journal.current given.2.values, ¬ subject.HidesValue catalog entry.1 := by
  intro given stripped
  constructor
  · rintro ⟨_, _, sameValues⟩ entry member
    rw [← PropertyData.valueOf_withoutNulls_eq_iff]
    have strippedMember : entry ∈ Journal.current stripped.2.values := by
      rw [sameValues]
      exact member
    rw [← eq_valueOf_of_mem_current member, ← eq_valueOf_of_mem_current strippedMember]
  · intro hidesNone
    have sameOutcome : stripped = given.leaving (·.withData subject.withoutNulls) :=
      assess_start_of_agree fun entry member =>
        (PropertyData.valueOf_withoutNulls_eq_iff _ _ _).mpr (hidesNone entry member)
    rw [sameOutcome]
    exact ⟨rfl, rfl, rfl⟩

/-- A slope of five, given by the property's id, beside a null under the property's name. -/
def slopeWithNull : PropertyData Float where
  entries := [("slope", .null), ("p1", .number 5)]
  distinct := by simp

/-- A null under the name of a property hides the value under its id: the slope is not rated with
the null and rated one without it. -/
theorem null_hides_value_of_id :
    ∃ catalog target, Catalog.build Catalog.siteData = .ok catalog ∧ target ∈ catalog.interpretations ∧
      (assess catalog target.name target.roots
        (.start slopeWithNull .standard)).1.toOption = some none ∧
      (assess catalog target.name target.roots
        (.start slopeWithNull.withoutNulls .standard)).1.toOption = some (some 1) := by
  have run : ((Catalog.build Catalog.siteData).toOption.bind fun catalog =>
      catalog.interpretations.head?.map fun target =>
        ((assess catalog target.name target.roots (.start slopeWithNull .standard)).1.toOption,
          (assess catalog target.name target.roots
            (.start slopeWithNull.withoutNulls .standard)).1.toOption)) =
      some (some none, some (some 1)) := by
    decide +kernel
  obtain ⟨catalog, built, rest⟩ := Option.bind_eq_some_iff.mp run
  obtain ⟨target, first, outcomes⟩ := Option.map_eq_some_iff.mp rest
  obtain ⟨withNull, without⟩ := Prod.mk.inj outcomes
  refine ⟨catalog, target, ?_, List.mem_of_mem_head? first, withNull, without⟩
  cases result : Catalog.build Catalog.siteData with
  | error error => simp [result, Except.toOption] at built
  | ok catalog => simpa [result, Except.toOption] using built

end FuzzyRating
