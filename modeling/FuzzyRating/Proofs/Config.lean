import FuzzyRating.Config
import FuzzyRating.Double
import FuzzyRating.Proofs.Json.Reread
import FuzzyRating.Proofs.RatingTable

/-!
Configurations that were read and are written again.
-/

namespace FuzzyRating

open Json (Field Record Rereads Stable StableList StableNumber Value Written Yields)

variable {depth : Nat}

/-! ## Tables of ratings -/

namespace RatingThreshold

def numbers (entry : RatingThreshold Float) : List Float :=
  [entry.threshold]

def toJson (entry : RatingThreshold Float) : Value :=
  .object [("threshold", .number entry.threshold), ("class", .text entry.rank.label)]

theorem lookup_label (rank : RatingClass) : RatingClass.variants.lookup rank.label = some rank := by
  cases rank <;> decide

theorem names_distinct : (RatingThreshold.record.fields.map (·.name)).Nodup := by
  decide

theorem stable {entry : RatingThreshold Float} (room : 1 < depth)
    (threshold : StableNumber (depth - 1) entry.threshold) :
    Stable RatingThreshold.record.reader toJson numbers depth entry := by
  intro readsBack
  apply Record.written room (.cons ?threshold (.single ?rank)) ?finish
  case threshold =>
    have written := threshold.written readsBack (List.Subset.refl _)
    exact Record.takes names_distinct 0 rfl rfl written.readsAs
  case rank =>
    have written := Json.variantReader_written (lookup_label entry.rank) (depth - 1)
    exact Record.takes names_distinct 1 rfl rfl written.readsAs
  case finish => rfl

end RatingThreshold

structure ThresholdDraft.Stable (depth : Nat) (draft : ThresholdDraft) : Prop where
  threshold : ∀ x, draft.threshold = some x → StableNumber depth x

theorem ThresholdDraft.stable_kept :
    ∀ field ∈ RatingThreshold.record.fields, field.Keeps depth (ThresholdDraft.Stable depth) := by
  simp only [RatingThreshold.record, List.forall_mem_cons]
  refine ⟨?threshold, ?_, List.forall_mem_nil _⟩
  case threshold =>
    exact Field.of_keeps (Json.floatReader_rereads _) fun _ _ stable _ =>
      ⟨Json.forall_eq_some stable⟩
  exact Field.of_keeps (Yields.any _ _) fun _ _ _ holds => { holds with }

theorem RatingThreshold.rereads (depth : Nat) :
    Rereads RatingThreshold.record.reader RatingThreshold.toJson RatingThreshold.numbers depth := by
  intro text entry rest result
  have start : ThresholdDraft.Stable (depth - 1) RatingThreshold.record.empty := ⟨nofun⟩
  obtain ⟨room, draft, holds, finishEq⟩ :=
    Record.yields start ThresholdDraft.stable_kept text entry rest result
  obtain ⟨threshold, thresholdEq, finishEq⟩ := bind_eq_ok_iff.mp finishEq
  obtain ⟨rank, _, finishEq⟩ := bind_eq_ok_iff.mp finishEq
  cases finishEq
  have stable := holds.threshold threshold (Json.eq_some_of_required thresholdEq)
  exact RatingThreshold.stable room stable

namespace RatingTable

def numbers (table : RatingTable Float) : List Float :=
  table.thresholds.flatMap RatingThreshold.numbers

theorem stable {table : RatingTable Float}
    (made : ofThresholds table.thresholds = .ok table)
    (thresholds : StableList RatingThreshold.record.reader RatingThreshold.toJson
      RatingThreshold.numbers depth table.thresholds) :
    Stable RatingTable.reader RatingTable.toJson RatingTable.numbers depth table := by
  intro readsBack
  apply (thresholds readsBack).checked
  rw [made]
  rfl

theorem rereads (depth : Nat) :
    Rereads RatingTable.reader RatingTable.toJson RatingTable.numbers depth := by
  intro text table rest result
  obtain ⟨thresholds, listed, checked⟩ :=
    (RatingThreshold.rereads (depth - 1)).list.checked text table rest result
  have made : ofThresholds thresholds = .ok table := mapError_eq_ok_iff.mp checked
  obtain ⟨rfl, _⟩ := ofThresholds_eq_ok_iff.mp made
  exact stable made listed

theorem standard_made :
    ofThresholds (standard : RatingTable Float).thresholds = .ok standard := by
  have isTable : (ofThresholds (standard : RatingTable Float).thresholds).toOption.isSome := by
    decide +kernel
  obtain ⟨table, someEq⟩ := Option.isSome_iff_exists.mp isTable
  have made := eq_ok_of_toOption someEq
  rw [made, (ofThresholds_eq_ok_iff.mp made).1]

theorem standard_stable (room : 2 < depth) :
    Stable RatingTable.reader RatingTable.toJson RatingTable.numbers depth standard := by
  have finite : ∀ entry ∈ (standard : RatingTable Float).thresholds,
      entry.threshold.isFinite = true := by
    decide +kernel
  apply stable standard_made
  apply Stable.list (Nat.lt_of_succ_lt room)
  intro entry member
  have inner : 1 < depth - 1 := Nat.lt_sub_of_add_lt room
  exact RatingThreshold.stable inner (Json.stableNumber (finite entry member) _)

end RatingTable

/-! ## Settings -/

namespace Config

def numbers (config : Config Float) : List Float :=
  config.ratingTable.numbers

theorem lookup_name (policy : MissingData) :
    MissingData.variants.lookup policy.name = some policy := by
  cases policy <;> decide

theorem names_distinct : (Config.record.fields.map (·.name)).Nodup := by
  decide

abbrev StableTable (depth : Nat) (table : RatingTable Float) : Prop :=
  Stable RatingTable.reader RatingTable.toJson RatingTable.numbers depth table

theorem stable {config : Config Float} (room : 1 < depth)
    (cacheMaxSize : config.cacheMaxSize < Nat.pow 2 64)
    (cacheTtlSecs : config.cacheTtlSecs < Nat.pow 2 64)
    (catalogTtlSecs : ∀ n, config.catalogTtlSecs = some n → n < Nat.pow 2 64)
    (maxDepth : config.maxDepth < Nat.pow 2 64)
    (ratingTable : StableTable (depth - 1) config.ratingTable) :
    Stable Config.record.reader Config.toJson Config.numbers depth config := by
  intro readsBack
  apply Record.written room (.cons ?size (.cons ?ttl (.cons ?catalog (.cons ?clamp
    (.cons ?missing (.cons ?depth (.single ?table))))))) ?finish
  case size =>
    exact Record.takes names_distinct 0 rfl rfl
      (Json.naturalReader_written cacheMaxSize _ _).readsAs
  case ttl =>
    exact Record.takes names_distinct 1 rfl rfl
      (Json.naturalReader_written cacheTtlSecs _ _).readsAs
  case catalog =>
    have written := Json.ofOption_readsAs fun n given =>
      Json.naturalReader_written (catalogTtlSecs n given) "u64" (depth - 1)
    exact Record.takes names_distinct 2 rfl rfl written
  case clamp => exact Record.takes names_distinct 3 rfl rfl (Json.boolReader_written _ _).readsAs
  case missing =>
    have written := Json.variantReader_written (lookup_name config.missingData) (depth - 1)
    exact Record.takes names_distinct 4 rfl rfl written.readsAs
  case depth =>
    exact Record.takes names_distinct 5 rfl rfl (Json.naturalReader_written maxDepth _ _).readsAs
  case table => exact Record.takes names_distinct 6 rfl rfl (ratingTable readsBack).readsAs
  case finish => rfl

end Config

structure ConfigDraft.Stable (depth : Nat) (draft : ConfigDraft) : Prop where
  cacheMaxSize : ∀ n, draft.cacheMaxSize = some n → n < Nat.pow 2 64
  cacheTtlSecs : ∀ n, draft.cacheTtlSecs = some n → n < Nat.pow 2 64
  catalogTtlSecs : ∀ n, draft.catalogTtlSecs.join = some n → n < Nat.pow 2 64
  maxDepth : ∀ n, draft.maxDepth = some n → n < Nat.pow 2 64
  ratingTable : ∀ table, draft.ratingTable = some table → Config.StableTable depth table

theorem ConfigDraft.stable_kept :
    ∀ field ∈ Config.record.fields, field.Keeps depth (ConfigDraft.Stable depth) := by
  simp only [Config.record, List.forall_mem_cons]
  refine ⟨?size, ?ttl, ?catalog, ?_, ?_, ?depth, ?table, List.forall_mem_nil _⟩
  case size =>
    exact Field.of_keeps (Json.naturalReader_yields _ _) fun _ _ fits holds =>
      { holds with cacheMaxSize := Json.forall_eq_some fits }
  case ttl =>
    exact Field.of_keeps (Json.naturalReader_yields _ _) fun _ _ fits holds =>
      { holds with cacheTtlSecs := Json.forall_eq_some fits }
  case catalog =>
    exact Field.of_keeps (Json.naturalReader_yields _ _).option fun _ _ fits holds =>
      { holds with catalogTtlSecs := fits }
  case depth =>
    exact Field.of_keeps (Json.naturalReader_yields _ _) fun _ _ fits holds =>
      { holds with maxDepth := Json.forall_eq_some fits }
  case table =>
    exact Field.of_keeps (RatingTable.rereads _) fun _ _ stable holds =>
      { holds with ratingTable := Json.forall_eq_some stable }
  all_goals exact Field.of_keeps (Yields.any _ _) fun _ _ _ holds => { holds with }

theorem getD_lt {bound other : Nat} {given : Option Nat} (otherLt : other < bound)
    (givenLt : ∀ n, given = some n → n < bound) : given.getD other < bound := by
  cases given with
  | none => exact otherLt
  | some n => exact givenLt n rfl

theorem Config.rereads (room : 3 < depth) :
    Rereads Config.record.reader Config.toJson Config.numbers depth := by
  intro text config rest result
  have start : ConfigDraft.Stable (depth - 1) Config.record.empty :=
    ⟨nofun, nofun, nofun, nofun, nofun⟩
  obtain ⟨outer, draft, holds, finishEq⟩ :=
    Record.yields start ConfigDraft.stable_kept text config rest result
  cases finishEq
  apply Config.stable outer
  case cacheMaxSize => exact getD_lt (by decide) holds.cacheMaxSize
  case cacheTtlSecs => exact getD_lt (by decide) holds.cacheTtlSecs
  case catalogTtlSecs =>
    intro n given
    apply holds.catalogTtlSecs n
    cases present : draft.catalogTtlSecs with
    | none =>
      rw [present] at given
      cases given
    | some ttl =>
      rw [present] at given
      exact given
  case maxDepth => exact getD_lt (by decide) holds.maxDepth
  case ratingTable =>
    cases given : draft.ratingTable with
    | none => exact RatingTable.standard_stable (Nat.lt_sub_of_add_lt room)
    | some table => exact holds.ratingTable table given

end FuzzyRating
