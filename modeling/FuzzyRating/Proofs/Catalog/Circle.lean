import FuzzyRating.Proofs.Catalog.Build
import Mathlib.Logic.Relation

/-!
The search for circles is exact. It ends by itself, without the limit that the definition sets, and
it reports a circle of references exactly if there is one.
-/

namespace FuzzyRating.Catalog

variable {num : Type} {catalog : Catalog num}

/-! ## References by name -/

/-- A leaf of the interpretation `source` refers to the interpretation `target`: no evaluation has
this name or id. -/
structure HasEdge (catalog : Catalog num) (source target : String) : Prop where
  leaf : ∃ interpretation ∈ catalog.interpretations,
    interpretation.name = source ∧ target ∈ leafRefs interpretation.roots
  known : target ∈ catalog.interpretationNames
  notEvaluation : ∀ evaluation ∈ catalog.evaluations,
    evaluation.name ≠ target ∧ evaluation.id ≠ target

theorem resolve?_eq_interpretation_iff {reference : String} {target : Interpretation num} :
    catalog.resolve? reference = some (.interpretation target) ↔
      catalog.evaluation? reference = none ∧ catalog.interpretation? reference = some target := by
  unfold resolve?
  cases catalog.evaluation? reference with
  | some evaluation => simp
  | none => simp

theorem name_of_interpretation? {name : String} {target : Interpretation num}
    (found : catalog.interpretation? name = some target) :
    target.name = name := by
  simpa using List.find?_some found

theorem hasEdge_of_refersTo {source target : Interpretation num}
    (member : source ∈ catalog.interpretations) (refers : catalog.RefersTo source target) :
    catalog.HasEdge source.name target.name := by
  obtain ⟨reference, leaf, resolved⟩ := refersTo_iff.mp refers
  obtain ⟨noEvaluation, found⟩ := resolve?_eq_interpretation_iff.mp resolved
  obtain rfl := name_of_interpretation? found
  exact {
    leaf := ⟨source, member, rfl, leaf⟩
    known := List.mem_map_of_mem refers.mem
    notEvaluation := findEntry?_eq_none_iff.mp noEvaluation }

theorem refersTo_of_hasEdge {source target : String} (edge : catalog.HasEdge source target) :
    ∃ first ∈ catalog.interpretations, ∃ second ∈ catalog.interpretations,
      first.name = source ∧ second.name = target ∧ catalog.RefersTo first second := by
  obtain ⟨first, member, firstName, leaf⟩ := edge.leaf
  have noEvaluation : catalog.evaluation? target = none :=
    findEntry?_eq_none_iff.mpr edge.notEvaluation
  obtain ⟨second, found⟩ : ∃ second, catalog.interpretation? target = some second := by
    obtain ⟨other, otherMember, otherName⟩ := List.mem_map.mp edge.known
    apply Option.isSome_iff_exists.mp
    exact List.find?_isSome.mpr ⟨other, otherMember, by simpa using otherName⟩
  have refers : catalog.RefersTo first second := refersTo_iff.mpr
    ⟨target, leaf, resolve?_eq_interpretation_iff.mpr ⟨noEvaluation, found⟩⟩
  exact ⟨first, member, second, refers.mem, firstName, name_of_interpretation? found, refers⟩

/-- A way along edges is a way along references. -/
private theorem refersTo_of_transGen (names : catalog.interpretationNames.Nodup)
    {source target : String} (connected : Relation.TransGen catalog.HasEdge source target) :
    ∃ first ∈ catalog.interpretations, ∃ last ∈ catalog.interpretations,
      first.name = source ∧ last.name = target ∧
        Relation.TransGen catalog.RefersTo first last := by
  induction connected with
  | single edge =>
      obtain ⟨first, firstMember, second, secondMember, firstName, secondName, refers⟩ :=
        refersTo_of_hasEdge edge
      exact ⟨first, firstMember, second, secondMember, firstName, secondName, .single refers⟩
  | tail _ edge inductionHypothesis =>
      obtain ⟨first, firstMember, middle, middleMember, firstName, middleName, way⟩ :=
        inductionHypothesis
      obtain ⟨other, otherMember, last, lastMember, otherName, lastName, refers⟩ :=
        refersTo_of_hasEdge edge
      obtain rfl := eq_of_name_eq names otherMember middleMember (otherName.trans middleName.symm)
      exact ⟨first, firstMember, last, lastMember, firstName, lastName, way.tail refers⟩

theorem Acyclic.not_transGen (acyclic : catalog.Acyclic)
    (names : catalog.interpretationNames.Nodup) (name : String) :
    ¬ Relation.TransGen catalog.HasEdge name name := by
  intro connected
  obtain ⟨first, firstMember, last, lastMember, firstName, lastName, way⟩ :=
    refersTo_of_transGen names connected
  obtain rfl := eq_of_name_eq names firstMember lastMember (firstName.trans lastName.symm)
  exact acyclic.not_transGen_refersTo first way

/-! ## Circles -/

/-- Names each of which has an edge to the next one. The first one stands again at the end, and
otherwise they differ. -/
structure IsCircle (catalog : Catalog num) (chain : List String) : Prop where
  edges : chain.IsChain catalog.HasEdge
  closed : ∃ first rest, chain = first :: rest ++ [first] ∧ (first :: rest).Nodup

theorem IsCircle.exists_transGen {chain : List String} (isCircle : catalog.IsCircle chain) :
    ∃ name, Relation.TransGen catalog.HasEdge name name := by
  obtain ⟨first, rest, rfl, _⟩ := isCircle.closed
  have connected := isCircle.edges.imp fun _ _ edge => Relation.TransGen.single edge
  exact ⟨first, connected.rel_cons (List.mem_append_right rest List.mem_cons_self)⟩

private theorem circle_eq {early late : List String} {name : String}
    (distinct : (early ++ name :: late).Nodup) :
    circle (early ++ name :: late) name = name :: late ++ [name] := by
  have notEarly : ∀ other ∈ early, (other != name) = true := by
    intro other member
    rw [bne_iff_ne]
    rintro rfl
    exact (List.nodup_append.mp distinct).2.2 other member other List.mem_cons_self rfl
  rw [circle, List.dropWhile_append_of_pos notEarly, List.dropWhile_cons, bne_self_eq_false]
  rfl

/-- A path whose last name has an edge to one of its names closes to a circle. -/
theorem isCircle_circle {path : List String} {name : String} (distinct : path.Nodup)
    (connected : path.IsChain catalog.HasEdge) (inPath : name ∈ path)
    (closing : ∀ last ∈ path.getLast?, catalog.HasEdge last name) :
    catalog.IsCircle (circle path name) := by
  obtain ⟨early, late, rfl⟩ := List.append_of_mem inPath
  rw [circle_eq distinct]
  refine ⟨?_, name, late, rfl, (List.nodup_append.mp distinct).2.1⟩
  refine connected.right_of_append.append (List.isChain_singleton name) ?_
  intro last isLast next isNext
  obtain rfl : name = next := by simpa using isNext
  refine closing last ?_
  rwa [List.getLast?_append_of_ne_nil early (List.cons_ne_nil name late)]

/-! ## The search without a limit -/

/-- Follows interpretations one after the other, where `path` leads to them and those in `done` are
known to lead to no circle, as far as it takes. -/
inductive Search (catalog : Catalog num) :
    List String → List String → List (Interpretation num) →
      Except (List String) (List String) → Prop
  | finished {path done : List String} : Search catalog path done [] (.ok done)
  | known {path done : List String} {next : Interpretation num}
      {rest : List (Interpretation num)} {outcome : Except (List String) (List String)}
      (inDone : next.name ∈ done) (later : Search catalog path done rest outcome) :
      Search catalog path done (next :: rest) outcome
  | circle {path done : List String} {next : Interpretation num}
      {rest : List (Interpretation num)} (notDone : next.name ∉ done) (inPath : next.name ∈ path) :
      Search catalog path done (next :: rest) (.error (Catalog.circle path next.name))
  | stopped {path done : List String} {next : Interpretation num}
      {rest : List (Interpretation num)} {chain : List String} (notDone : next.name ∉ done)
      (notInPath : next.name ∉ path)
      (below : Search catalog (path ++ [next.name]) done (catalog.subRules next) (.error chain)) :
      Search catalog path done (next :: rest) (.error chain)
  | passed {path done after : List String} {next : Interpretation num}
      {rest : List (Interpretation num)} {outcome : Except (List String) (List String)}
      (notDone : next.name ∉ done) (notInPath : next.name ∉ path)
      (below : Search catalog (path ++ [next.name]) done (catalog.subRules next) (.ok after))
      (later : Search catalog path (next.name :: after) rest outcome) :
      Search catalog path done (next :: rest) outcome

/-- Within the limit the search comes to its end: a path of distinct interpretations is no longer
than their number. -/
theorem search_visitWithin {limit : Nat} {path done : List String}
    {items : List (Interpretation num)}
    (known : ∀ item ∈ items, item ∈ catalog.interpretations) (distinct : path.Nodup)
    (pathKnown : path ⊆ catalog.interpretationNames)
    (room : path.length + limit = catalog.interpretations.length + 1) :
    catalog.Search path done items
      (items.foldlM (fun done item => catalog.visitWithin limit path done item) done) := by
  induction limit generalizing path done items with
  | zero =>
      have bound := length_le_of_path distinct pathKnown
      omega
  | succ limit limitHypothesis =>
      induction items generalizing done with
      | nil => exact .finished
      | cons next rest itemsHypothesis =>
          have later (after : List String) : catalog.Search path after rest
              (rest.foldlM (fun done item => catalog.visitWithin (limit + 1) path done item)
                after) :=
            itemsHypothesis fun item member => known item (List.mem_cons_of_mem next member)
          rw [List.foldlM_cons, visitWithin]
          by_cases inDone : next.name ∈ done
          · rw [if_pos (List.contains_iff_mem.mpr inDone)]
            exact .known inDone (later done)
          · rw [if_neg (by simpa using inDone)]
            by_cases inPath : next.name ∈ path
            · rw [if_pos (List.contains_iff_mem.mpr inPath)]
              exact .circle inDone inPath
            · rw [if_neg (by simpa using inPath)]
              have longerDistinct : (path ++ [next.name]).Nodup := by
                rw [List.nodup_append_comm]
                exact List.nodup_cons.mpr ⟨inPath, distinct⟩
              have longerKnown : path ++ [next.name] ⊆ catalog.interpretationNames := by
                refine List.append_subset.mpr ⟨pathKnown, ?_⟩
                rintro _ (_ | _)
                · exact List.mem_map_of_mem (known next List.mem_cons_self)
                · contradiction
              have longerRoom : (path ++ [next.name]).length + limit =
                  catalog.interpretations.length + 1 := by
                rw [List.length_append, List.length_singleton]
                omega
              have below : catalog.Search (path ++ [next.name]) done (catalog.subRules next)
                  ((catalog.subRules next).foldlM (fun done target =>
                    catalog.visitWithin limit (path ++ [next.name]) done target) done) :=
                limitHypothesis (fun target refers => RefersTo.mem refers) longerDistinct
                  longerKnown longerRoom
              cases outcome : (catalog.subRules next).foldlM
                  (fun done target => catalog.visitWithin limit (path ++ [next.name]) done target)
                  done with
              | error chain =>
                  rw [outcome] at below
                  exact .stopped inDone inPath below
              | ok after =>
                  rw [outcome] at below
                  exact .passed inDone inPath below (later (next.name :: after))

theorem isCircle_of_search {path done : List String} {items : List (Interpretation num)}
    {chain : List String} (known : ∀ item ∈ items, item ∈ catalog.interpretations)
    (distinct : path.Nodup) (connected : path.IsChain catalog.HasEdge)
    (leads : ∀ last ∈ path.getLast?, ∀ item ∈ items, catalog.HasEdge last item.name)
    (search : catalog.Search path done items (.error chain)) :
    catalog.IsCircle chain := by
  generalize reported : (.error chain : Except (List String) (List String)) = outcome at search
  induction search with
  | finished => cases reported
  | @known path done next rest outcome inDone later laterHypothesis =>
      exact laterHypothesis (fun item member => known item (List.mem_cons_of_mem next member))
        distinct connected
        (fun last isLast item member => leads last isLast item (List.mem_cons_of_mem next member))
        reported
  | @circle path done next rest notDone inPath =>
      cases reported
      exact isCircle_circle distinct connected inPath fun last isLast =>
        leads last isLast next List.mem_cons_self
  | @stopped path done next rest _ notDone notInPath below belowHypothesis =>
      have nextKnown := known next List.mem_cons_self
      refine belowHypothesis (fun target refers => RefersTo.mem refers) ?_ ?_ ?_ reported
      · rw [List.nodup_append_comm]
        exact List.nodup_cons.mpr ⟨notInPath, distinct⟩
      · refine connected.append (List.isChain_singleton next.name) ?_
        intro last isLast name isName
        obtain rfl : next.name = name := by simpa using isName
        exact leads last isLast next List.mem_cons_self
      · intro last isLast target refers
        obtain rfl : next.name = last := by simpa using isLast
        exact hasEdge_of_refersTo nextKnown refers
  | @passed path done after next rest outcome notDone notInPath below later _ laterHypothesis =>
      exact laterHypothesis (fun item member => known item (List.mem_cons_of_mem next member))
        distinct connected
        (fun last isLast item member => leads last isLast item (List.mem_cons_of_mem next member))
        reported

/-- The circle that an outcome of the search reports. -/
def reported? : Except (List String) (List String) → Option (List String)
  | .ok _ => none
  | .error chain => some chain

/-- The search through all interpretations ends, whatever they refer to, and it is the one that is
made. -/
theorem search_findCircle? (catalog : Catalog num) :
    ∃ outcome, catalog.Search [] [] catalog.interpretations outcome ∧
      catalog.findCircle? = reported? outcome := by
  refine ⟨_, search_visitWithin (fun _ member => member) List.nodup_nil
    (List.nil_subset _) (Nat.zero_add _), ?_⟩
  unfold findCircle?
  split
  · next done visited => rw [visited, reported?]
  · next chain visited => rw [visited, reported?]

theorem isCircle_of_findCircle? {chain : List String}
    (found : catalog.findCircle? = some chain) :
    catalog.IsCircle chain := by
  obtain ⟨outcome, search, reported⟩ := search_findCircle? catalog
  rw [found] at reported
  cases outcome with
  | ok done => cases reported
  | error other =>
      cases reported
      refine isCircle_of_search (fun _ member => member) List.nodup_nil List.isChain_nil ?_ search
      simp

theorem exists_findCircle?_iff (names : catalog.interpretationNames.Nodup) :
    (∃ chain, catalog.findCircle? = some chain) ↔
      ∃ name, Relation.TransGen catalog.HasEdge name name := by
  constructor
  · rintro ⟨chain, found⟩
    exact (isCircle_of_findCircle? found).exists_transGen
  · rintro ⟨name, connected⟩
    apply Option.ne_none_iff_exists'.mp
    intro noCircle
    exact (acyclic_of_findCircle?_eq_none names noCircle).not_transGen names name connected

/-! ## Building -/

section Building

variable [Arith num] {data : CatalogData num}

private theorem build_eq_referenceCycle_iff (assembled : assemble data = .ok catalog)
    {chain : List String} :
    build data = .error (.referenceCycle chain) ↔ catalog.findCircle? = some chain := by
  rw [build_eq_assemble, assembled]
  simp only [bind, Except.bind]
  cases catalog.findCircle? <;> simp

/-- Of what passes all other checks, exactly that is refused whose references form a circle, and
the names reported are a circle. The search for it ends by itself, whatever is searched. -/
theorem build_referenceCycle_exact (assembled : assemble data = .ok catalog) :
    ((∃ chain, build data = .error (.referenceCycle chain)) ↔
        ∃ name, Relation.TransGen catalog.HasEdge name name) ∧
      (∀ chain, build data = .error (.referenceCycle chain) → catalog.IsCircle chain) ∧
      ∀ searched : Catalog num, ∃ outcome,
        searched.Search [] [] searched.interpretations outcome ∧
          searched.findCircle? = reported? outcome := by
  have names := (assemble_entered assembled).names
  simp only [build_eq_referenceCycle_iff assembled]
  exact ⟨exists_findCircle?_iff names, fun _ found => isCircle_of_findCircle? found,
    search_findCircle?⟩

end Building

/-- A site that is rated by its slope and its aspect, which refer to each other. -/
def loopData : CatalogData Float where
  properties := []
  evaluations := []
  rules :=
    [⟨"r1", "Site",
      [.node "Site" none none none [], .node "  Slope" none none (some "Slope") [],
       .node "  Aspect" none none (some "Aspect") []]⟩,
     ⟨"r2", "Slope",
      [.node "Slope" none none none [], .node "  Aspect" none none (some "Aspect") []]⟩,
     ⟨"r3", "Aspect",
      [.node "Aspect" none none none [], .node "  Slope" none none (some "Slope") []]⟩]

/-- The circle is reported from the slope on, where the search enters it. -/
theorem build_referenceCycle_loop :
    ∃ catalog, assemble loopData = .ok catalog ∧
      build loopData = .error (.referenceCycle ["Slope", "Aspect", "Slope"]) ∧
      catalog.IsCircle ["Slope", "Aspect", "Slope"] ∧
      (∃ name, Relation.TransGen catalog.HasEdge name name) ∧
      ∃ outcome, catalog.Search [] [] catalog.interpretations outcome ∧
        catalog.findCircle? = reported? outcome := by
  have searched : (assemble loopData).toOption.bind findCircle? =
      some ["Slope", "Aspect", "Slope"] := by
    decide +kernel
  obtain ⟨catalog, assembledEq, found⟩ := Option.bind_eq_some_iff.mp searched
  have assembled := eq_ok_of_toOption assembledEq
  have reported := (build_eq_referenceCycle_iff assembled).mpr found
  obtain ⟨refused, isCircle, ends⟩ := build_referenceCycle_exact assembled
  exact ⟨catalog, assembled, reported, isCircle _ reported, refused.mp ⟨_, reported⟩,
    ends catalog⟩

end FuzzyRating.Catalog
