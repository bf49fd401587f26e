import FuzzyRating.Catalog.Cycle
import FuzzyRating.Proofs.Except
import FuzzyRating.Proofs.Keyed
import Mathlib.Data.List.Chain
import Mathlib.Data.List.Perm.Subperm
import Mathlib.Order.RelClasses

/-!
The search for circles is complete: when it finds none, references cannot be followed forever.
-/

namespace FuzzyRating.Catalog

variable {num : Type} {catalog : Catalog num}

/-! ## References between interpretations -/

/-- A leaf of `source` refers to `target`. -/
def RefersTo (catalog : Catalog num) (source target : Interpretation num) : Prop :=
  target ∈ catalog.subRules source

theorem refersTo_iff {source target : Interpretation num} :
    catalog.RefersTo source target ↔
      ∃ reference ∈ leafRefs source.roots,
        catalog.resolve? reference = some (.interpretation target) := by
  unfold RefersTo subRules
  rw [List.mem_filterMap]
  refine exists_congr fun reference => and_congr_right fun _ => ?_
  rcases catalog.resolve? reference with _ | evaluation | interpretation <;> simp

theorem mem_of_resolve? {reference : String} {target : Interpretation num}
    (resolved : catalog.resolve? reference = some (.interpretation target)) :
    target ∈ catalog.interpretations := by
  unfold resolve? interpretation? at resolved
  split at resolved
  · simp at resolved
  · obtain ⟨found, foundEq, sameTarget⟩ := Option.map_eq_some_iff.mp resolved
    cases sameTarget
    exact List.mem_of_find?_eq_some foundEq

theorem findEntry?_eq_none_iff {alpha : Type} {name id : alpha → String} {entries : List alpha}
    {key : String} :
    findEntry? name id entries key = none ↔
      ∀ entry ∈ entries, name entry ≠ key ∧ id entry ≠ key := by
  unfold findEntry?
  simp only [Option.or_eq_none_iff, List.find?_eq_none, List.mem_reverse, beq_iff_eq]
  constructor
  · rintro ⟨otherNames, otherIds⟩ entry member
    exact ⟨otherNames entry member, otherIds entry member⟩
  · intro others
    exact ⟨fun entry member => (others entry member).1,
      fun entry member => (others entry member).2⟩

/-- A key that is a name finds an entry of that name. -/
theorem name_eq_of_found {alpha : Type} {name id : alpha → String} {entries : List alpha}
    {key : String} {entry other : alpha} (found : findEntry? name id entries key = some entry)
    (member : other ∈ entries) (named : name other = key) :
    name entry = key := by
  unfold findEntry? at found
  rcases Option.or_eq_some_iff.mp found with byName | ⟨noName, _⟩
  · simpa using List.find?_some byName
  · have unlike := List.find?_eq_none.mp noName other member
    simp [named] at unlike

/-- An entry that is found has the key as its name or as its id. -/
theorem mem_of_found {alpha : Type} {name id : alpha → String} {entries : List alpha}
    {key : String} {entry : alpha} (found : findEntry? name id entries key = some entry) :
    entry ∈ entries ∧ (name entry = key ∨ id entry = key) := by
  unfold findEntry? at found
  rcases Option.or_eq_some_iff.mp found with byName | ⟨_, byId⟩
  · exact ⟨List.mem_of_find?_eq_some byName, Or.inl (by simpa using List.find?_some byName)⟩
  · exact ⟨List.mem_reverse.mp (List.mem_of_find?_eq_some byId),
      Or.inr (by simpa using List.find?_some byId)⟩

theorem mem_of_evaluation? {reference : String} {evaluation : Evaluation num}
    (found : catalog.evaluation? reference = some evaluation) :
    evaluation ∈ catalog.evaluations :=
  (mem_of_found found).1

theorem mem_of_resolve?_evaluation {reference : String} {evaluation : Evaluation num}
    (resolved : catalog.resolve? reference = some (.evaluation evaluation)) :
    evaluation ∈ catalog.evaluations := by
  unfold resolve? at resolved
  split at resolved
  · next found =>
      cases resolved
      exact mem_of_evaluation? found
  · obtain ⟨_, _, impossible⟩ := Option.map_eq_some_iff.mp resolved
    cases impossible

theorem RefersTo.mem {source target : Interpretation num}
    (refers : catalog.RefersTo source target) :
    target ∈ catalog.interpretations := by
  obtain ⟨_, _, resolved⟩ := refersTo_iff.mp refers
  exact mem_of_resolve? resolved

theorem eq_of_name_eq (names : catalog.interpretationNames.Nodup)
    {first second : Interpretation num} (firstMember : first ∈ catalog.interpretations)
    (secondMember : second ∈ catalog.interpretations) (sameName : first.name = second.name) :
    first = second :=
  List.inj_on_of_nodup_map names firstMember secondMember sameName

theorem interpretation?_eq_some_iff (names : catalog.interpretationNames.Nodup) {name : String}
    {target : Interpretation num} :
    catalog.interpretation? name = some target ↔
      target ∈ catalog.interpretations ∧ target.name = name :=
  find?_key_eq_some_iff names

/-- References cannot be followed forever. -/
def Acyclic (catalog : Catalog num) : Prop :=
  WellFounded fun target source => catalog.RefersTo source target

/-! ## The search -/

/-- From interpretations with these names references cannot be followed forever. -/
def Settled (catalog : Catalog num) (done : List String) : Prop :=
  ∀ interpretation ∈ catalog.interpretations, interpretation.name ∈ done →
    Acc (fun target source => catalog.RefersTo source target) interpretation

/-- A path of distinct interpretations is no longer than their number. -/
theorem length_le_of_path {path : List String} (distinct : path.Nodup)
    (known : path ⊆ catalog.interpretationNames) :
    path.length ≤ catalog.interpretations.length := by
  have bound := (List.subperm_of_subset distinct known).length_le
  simpa [interpretationNames] using bound

/-- A visit that finds no circle settles the interpretation visited and keeps what was settled. -/
theorem visitWithin_settles (names : catalog.interpretationNames.Nodup) {limit : Nat}
    {path done after : List String} {interpretation : Interpretation num}
    (member : interpretation ∈ catalog.interpretations)
    (distinct : path.Nodup) (known : path ⊆ catalog.interpretationNames)
    (room : path.length + limit = catalog.interpretations.length + 1)
    (settled : catalog.Settled done)
    (visited : catalog.visitWithin limit path done interpretation = .ok after) :
    catalog.Settled after ∧ done ⊆ after ∧ interpretation.name ∈ after := by
  induction limit generalizing path done after interpretation with
  | zero =>
      have bound := length_le_of_path distinct known
      omega
  | succ limit inductionHypothesis =>
      rw [visitWithin] at visited
      by_cases inDone : done.contains interpretation.name = true
      · rw [if_pos inDone] at visited
        cases visited
        exact ⟨settled, List.Subset.refl done, by simpa using inDone⟩
      · by_cases inPath : path.contains interpretation.name = true
        · rw [if_neg inDone, if_pos inPath] at visited
          cases visited
        · rw [if_neg inDone, if_neg inPath] at visited
          obtain ⟨below, folded, afterEq⟩ := bind_eq_ok_iff.mp visited
          cases afterEq
          have fresh : interpretation.name ∉ path := by
            simpa using inPath
          have longerDistinct : (path ++ [interpretation.name]).Nodup := by
            rw [List.nodup_append_comm]
            exact List.nodup_cons.mpr ⟨fresh, distinct⟩
          have longerKnown : path ++ [interpretation.name] ⊆ catalog.interpretationNames := by
            intro name inLonger
            rcases List.mem_append.mp inLonger with inPath | isName
            · exact known inPath
            · rw [List.mem_singleton.mp isName]
              exact List.mem_map.mpr ⟨interpretation, member, rfl⟩
          -- all targets passed so far are settled, and nothing is forgotten
          obtain ⟨belowSettled, kept, targetsDone⟩ :=
            foldlM_induction
              (fun passed current => catalog.Settled current ∧ done ⊆ current ∧
                ∀ target ∈ passed, target.name ∈ current)
              ⟨settled, List.Subset.refl done, by simp⟩
              (by
                rintro passed target rest current next targetsEq
                  ⟨currentSettled, keptSoFar, passedDone⟩ visitedTarget
                have refers : catalog.RefersTo interpretation target := by
                  unfold RefersTo
                  rw [targetsEq]
                  exact List.mem_append_right passed List.mem_cons_self
                obtain ⟨nextSettled, grown, targetDone⟩ :=
                  inductionHypothesis refers.mem longerDistinct longerKnown
                    (by simp only [List.length_append, List.length_singleton]; omega)
                    currentSettled visitedTarget
                refine ⟨nextSettled, fun name inDone => grown (keptSoFar inDone), ?_⟩
                intro other otherMember
                rcases List.mem_append.mp otherMember with inPassed | isTarget
                · exact grown (passedDone other inPassed)
                · rw [List.mem_singleton.mp isTarget]
                  exact targetDone)
              folded
          refine ⟨?_, fun name inDone => List.mem_cons_of_mem _ (kept inDone),
            List.mem_cons_self⟩
          intro other otherMember otherName
          rcases List.mem_cons.mp otherName with sameName | inBelow
          · rw [eq_of_name_eq names otherMember member sameName]
            constructor
            intro target refers
            exact belowSettled target refers.mem (targetsDone target refers)
          · exact belowSettled other otherMember inBelow

/-- When the search finds no circle, references cannot be followed forever. -/
theorem acyclic_of_findCircle?_eq_none (names : catalog.interpretationNames.Nodup)
    (noCircle : catalog.findCircle? = none) :
    catalog.Acyclic := by
  unfold findCircle? at noCircle
  split at noCircle
  · next done visited =>
      obtain ⟨settled, allDone⟩ :=
        foldlM_induction
          (fun passed current => catalog.Settled current ∧
            ∀ interpretation ∈ passed, interpretation.name ∈ current)
          ⟨fun _ _ impossible => by simp at impossible, by simp⟩
          (by
            rintro passed interpretation rest current next itemsEq ⟨settled, passedDone⟩ visited
            have member : interpretation ∈ catalog.interpretations := by
              rw [itemsEq]
              exact List.mem_append_right passed List.mem_cons_self
            obtain ⟨nextSettled, grown, nameDone⟩ :=
              visitWithin_settles names member List.nodup_nil (List.nil_subset _)
                (Nat.zero_add _) settled visited
            refine ⟨nextSettled, ?_⟩
            intro other otherMember
            rcases List.mem_append.mp otherMember with inPassed | isLast
            · exact grown (passedDone other inPassed)
            · rw [List.mem_singleton.mp isLast]
              exact nameDone)
          visited
      constructor
      intro source
      constructor
      intro target refers
      exact settled target refers.mem (allDone target refers.mem)
  · cases noCircle

/-- No interpretation refers to itself through others. -/
theorem Acyclic.not_transGen_refersTo (acyclic : catalog.Acyclic)
    (interpretation : Interpretation num) :
    ¬ Relation.TransGen catalog.RefersTo interpretation interpretation := by
  intro circle
  have backwards := Relation.transGen_swap.mpr circle
  exact (WellFounded.transGen acyclic).asymmetric interpretation interpretation backwards backwards

/-- Interpretations that refer to one another, the last one first, do not repeat the last one. -/
theorem Acyclic.not_mem_of_isChain {last : Interpretation num}
    {earlier : List (Interpretation num)} (acyclic : catalog.Acyclic)
    (chain : (last :: earlier).IsChain fun target source => catalog.RefersTo source target) :
    last ∉ earlier := by
  intro repeated
  have connected := chain.imp fun _ _ refers => Relation.TransGen.single refers
  have circle := connected.rel_cons repeated
  exact (WellFounded.transGen acyclic).asymmetric last last circle circle

end FuzzyRating.Catalog
