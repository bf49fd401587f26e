import FuzzyRating.Proofs.Catalog.Build

/-!
Looking up the properties and evaluations of a catalog under their own names and ids. Names are
checked when a catalog is built and always lead back. Ids are not checked: an id leads elsewhere when
it is the name of another entry, or when a later entry has it too.
-/

namespace FuzzyRating.Catalog

/-! ## Entries -/

section Entries

variable {alpha : Type} {name id : alpha → String} {entries : List alpha}

/-- Unlike another name, the id of an entry leads back to it. -/
structure LeadsBack (name id : alpha → String) (entries : List alpha) (entry : alpha) : Prop where
  names : ∀ other ∈ entries, name other = id entry → other = entry
  last : name entry = id entry ∨
    ∃ initial suffix, entries = initial ++ entry :: suffix ∧ ∀ later ∈ suffix, id later ≠ id entry

/-- Ids that differ from each other and from the names of other entries. -/
structure OwnIds (name id : alpha → String) (entries : List alpha) : Prop where
  ids : (entries.map id).Nodup
  names : ∀ entry ∈ entries, ∀ other ∈ entries, name other = id entry → other = entry

theorem findEntry?_name {entry : alpha} (distinct : (entries.map name).Nodup)
    (member : entry ∈ entries) :
    findEntry? name id entries (name entry) = some entry := by
  unfold findEntry?
  rw [(find?_key_eq_some_iff distinct).mpr ⟨member, rfl⟩, Option.some_or]

/-- A key that is no name finds the last entry that has it as its id. -/
theorem findEntry?_eq_some_iff_of_unnamed {key : String} {entry : alpha}
    (unnamed : ∀ other ∈ entries, name other ≠ key) :
    findEntry? name id entries key = some entry ↔
      id entry = key ∧ ∃ initial suffix, entries = initial ++ entry :: suffix ∧
        ∀ later ∈ suffix, id later ≠ key := by
  have noName : entries.find? (name · == key) = none := by
    simpa using unnamed
  unfold findEntry?
  rw [noName, Option.none_or, List.find?_eq_some_iff_append, beq_iff_eq]
  apply and_congr_right
  intro hasId
  constructor
  · rintro ⟨suffix, initial, reversed, others⟩
    refine ⟨initial.reverse, suffix.reverse, ?_, fun later member => ?_⟩
    · rw [← List.reverse_reverse entries, reversed]
      simp
    · simpa using others later (List.mem_reverse.mp member)
  · rintro ⟨initial, suffix, rfl, others⟩
    refine ⟨suffix.reverse, initial.reverse, by simp, fun later member => ?_⟩
    simpa using others later (List.mem_reverse.mp member)

theorem findEntry?_id_iff {entry : alpha} (distinct : (entries.map name).Nodup)
    (member : entry ∈ entries) :
    findEntry? name id entries (id entry) = some entry ↔ LeadsBack name id entries entry := by
  by_cases named : ∃ other ∈ entries, name other = id entry
  · -- the id is a name, and names come before ids
    obtain ⟨other, otherMember, isName⟩ := named
    have found : findEntry? name id entries (id entry) = some other := by
      rw [← isName]
      exact findEntry?_name distinct otherMember
    rw [found, Option.some.injEq]
    constructor
    · rintro rfl
      refine ⟨fun third thirdMember thirdName => ?_, Or.inl isName⟩
      exact List.inj_on_of_nodup_map distinct thirdMember member (thirdName.trans isName.symm)
    · intro leadsBack
      exact leadsBack.names other otherMember isName
  · have unnamed : ∀ other ∈ entries, name other ≠ id entry :=
      fun other otherMember isName => named ⟨other, otherMember, isName⟩
    rw [findEntry?_eq_some_iff_of_unnamed unnamed]
    constructor
    · rintro ⟨_, last⟩
      exact ⟨fun other otherMember isName => absurd isName (unnamed other otherMember),
        Or.inr last⟩
    · intro leadsBack
      exact ⟨rfl, leadsBack.last.resolve_left (unnamed entry member)⟩

/-- All ids lead back if they are the entries' own. -/
theorem forall_leadsBack_iff (distinct : (entries.map name).Nodup) :
    (∀ entry ∈ entries, LeadsBack name id entries entry) ↔ OwnIds name id entries := by
  constructor
  · intro leadBack
    refine ⟨?_, fun entry member => (leadBack entry member).names⟩
    refine List.Nodup.map_on (fun first firstMember second secondMember sameId => ?_)
      (List.Nodup.of_map name distinct)
    have firstFound := (findEntry?_id_iff distinct firstMember).mpr (leadBack first firstMember)
    have secondFound := (findEntry?_id_iff distinct secondMember).mpr (leadBack second secondMember)
    rw [sameId, secondFound] at firstFound
    exact (Option.some.inj firstFound).symm
  · intro own entry member
    refine ⟨own.names entry member, Or.inr ?_⟩
    obtain ⟨initial, suffix, rfl⟩ := List.append_of_mem member
    refine ⟨initial, suffix, rfl, fun later laterMember sameId => ?_⟩
    have ids := own.ids
    rw [List.map_append, List.map_cons] at ids
    have notLater := (List.nodup_cons.mp ids.of_append_right).1
    exact notLater (List.mem_map.mpr ⟨later, laterMember, sameId⟩)

end Entries

/-! ## Built catalogs -/

section Built

variable {num : Type} [Arith num] {data : CatalogData num} {catalog : Catalog num}

/-- In a built catalog every property and evaluation is found under its own name. It is found under
its own id too exactly if no other entry of its kind has the id as its name, and no later one as its
id. -/
theorem own_keys_lead_back (built : build data = .ok catalog) :
    (∀ property ∈ catalog.properties,
      catalog.property? property.name = some property ∧
      (catalog.property? property.id = some property ↔
        LeadsBack Property.name Property.id catalog.properties property)) ∧
    (∀ evaluation ∈ catalog.evaluations,
      catalog.evaluation? evaluation.name = some evaluation ∧
      (catalog.evaluation? evaluation.id = some evaluation ↔
        LeadsBack Evaluation.name Evaluation.id catalog.evaluations evaluation)) := by
  have checked := build_checked built
  constructor
  · intro property member
    exact ⟨findEntry?_name checked.propertyNames member,
      findEntry?_id_iff checked.propertyNames member⟩
  · intro evaluation member
    exact ⟨findEntry?_name checked.evaluationNames member,
      findEntry?_id_iff checked.evaluationNames member⟩

/-- All of them are found under their ids exactly if the ids are their own. -/
theorem all_ids_lead_back_iff (built : build data = .ok catalog) :
    ((∀ property ∈ catalog.properties, catalog.property? property.id = some property) ↔
      OwnIds Property.name Property.id catalog.properties) ∧
    ((∀ evaluation ∈ catalog.evaluations, catalog.evaluation? evaluation.id = some evaluation) ↔
      OwnIds Evaluation.name Evaluation.id catalog.evaluations) := by
  have checked := build_checked built
  constructor
  · rw [← forall_leadsBack_iff checked.propertyNames]
    exact forall₂_congr fun property member => findEntry?_id_iff checked.propertyNames member
  · rw [← forall_leadsBack_iff checked.evaluationNames]
    exact forall₂_congr fun evaluation member => findEntry?_id_iff checked.evaluationNames member

end Built

/-! ## A shared id -/

/-- Two properties with different names and one id. -/
def sharedIdData : CatalogData Float where
  properties :=
    [⟨"p1", "slope", none, none, none, "", false⟩, ⟨"p1", "aspect", none, none, none, "", false⟩]
  evaluations := []
  rules := []

private theorem exists_build_sharedIdData :
    ∃ catalog slope aspect, build sharedIdData = .ok catalog ∧
      catalog.properties = [slope, aspect] ∧ slope.name = "slope" ∧ aspect.name = "aspect" ∧
      slope.id = "p1" ∧ aspect.id = "p1" := by
  have run : (build sharedIdData).toOption.map (fun catalog =>
      catalog.properties.map fun property => (property.name, property.id)) =
      some [("slope", "p1"), ("aspect", "p1")] := by
    decide +kernel
  obtain ⟨catalog, built, keys⟩ := Option.map_eq_some_iff.mp run
  simp only [List.map_eq_cons_iff, List.map_eq_nil_iff, Prod.mk.injEq] at keys
  obtain ⟨slope, _, propertiesEq, ⟨slopeName, slopeId⟩, aspect, _, rfl, ⟨aspectName, aspectId⟩,
    rfl⟩ := keys
  exact ⟨catalog, slope, aspect, eq_ok_of_toOption built, propertiesEq, slopeName, aspectName,
    slopeId, aspectId⟩

/-- The last of them is found under the id. -/
theorem own_keys_lead_back_aspect :
    ∃ catalog aspect, build sharedIdData = .ok catalog ∧ aspect ∈ catalog.properties ∧
      aspect.name = "aspect" ∧ catalog.property? "aspect" = some aspect ∧
      catalog.property? "p1" = some aspect := by
  obtain ⟨catalog, slope, aspect, built, propertiesEq, slopeName, aspectName, _, aspectId⟩ :=
    exists_build_sharedIdData
  have member : aspect ∈ catalog.properties := by simp [propertiesEq]
  obtain ⟨byName, byId⟩ := (own_keys_lead_back built).1 aspect member
  rw [aspectName] at byName
  rw [aspectId] at byId
  refine ⟨catalog, aspect, built, member, aspectName, byName, byId.mpr ?_⟩
  refine ⟨?_, Or.inr ⟨[slope], [], propertiesEq, by simp⟩⟩
  simp [propertiesEq, slopeName, aspectName, aspectId]

/-- The first of them is not. -/
theorem sharedId_hides_property :
    ∃ catalog, build sharedIdData = .ok catalog ∧
      ∃ property ∈ catalog.properties, catalog.property? property.id ≠ some property := by
  obtain ⟨catalog, slope, aspect, built, propertiesEq, slopeName, aspectName, slopeId, aspectId⟩ :=
    exists_build_sharedIdData
  have found : catalog.property? "p1" = some aspect := by
    simp [property?, findEntry?, propertiesEq, slopeName, aspectName, aspectId]
  refine ⟨catalog, built, slope, by simp [propertiesEq], ?_⟩
  rw [slopeId, found]
  rintro ⟨⟩
  rw [slopeName] at aspectName
  exact absurd aspectName (by decide)

end FuzzyRating.Catalog
