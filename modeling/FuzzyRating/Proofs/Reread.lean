import FuzzyRating.Proofs.Catalog.Json
import FuzzyRating.Proofs.Config

/-!
Catalogs and configurations are read back from the text that they are written as.
-/

namespace FuzzyRating

/-- Reading what is written gives the value again, so that writing it once more changes nothing. -/
structure Preserved {epsilon alpha : Type} (read : String → Except epsilon alpha)
    (encode : alpha → Json.Value) (value : alpha) : Prop where
  compact : read (encode value).compact = .ok value
  pretty : read (encode value).pretty = .ok value
  idempotent : (read (encode value).compact).map (fun again => (encode again).compact) =
    .ok (encode value).compact

theorem preserved_of_rereads {alpha epsilon : Type} {reader : Json.Reader alpha}
    {encode : alpha → Json.Value} {numbers : alpha → List Float} (rename : Json.Error → epsilon)
    (rereads : Json.Rereads reader encode numbers Json.startDepth) {source : String} {value : alpha}
    (parsed : Json.parse reader source = .ok value)
    (readsBack : ∀ x ∈ numbers value, x.isFinite = true → Json.ReadsBack x) :
    Preserved (fun text => (Json.parse reader text).mapError rename) encode value := by
  obtain ⟨compact, pretty⟩ := Json.parse_of_rereads rereads parsed readsBack
  have compactEq : (Json.parse reader (encode value).compact).mapError rename = .ok value :=
    mapError_eq_ok_iff.mpr compact
  refine ⟨compactEq, mapError_eq_ok_iff.mpr pretty, ?_⟩
  rw [compactEq]
  rfl

/-- A catalog or a configuration that was read is read as the same from what it is written as, given
that the text of each of its finite numbers gives the number. -/
theorem preserved_of_ofJson :
    (∀ (origin again source : String) (data : CatalogData Float),
      CatalogData.ofJson origin source = .ok data →
      (∀ x ∈ data.numbers, x.isFinite = true → Json.ReadsBack x) →
      Preserved (CatalogData.ofJson again) CatalogData.toJson data) ∧
    ∀ (source : String) (config : Config Float), Config.ofJson source = .ok config →
      (∀ x ∈ config.numbers, x.isFinite = true → Json.ReadsBack x) →
      Preserved Config.ofJson Config.toJson config := by
  constructor
  · intro origin again source data read readsBack
    have parsed : Json.parse CatalogData.record.reader source = .ok data :=
      mapError_eq_ok_iff.mp read
    have room : 4 < Json.startDepth := by decide
    exact preserved_of_rereads (ConfigurationError.json again) (CatalogData.rereads room) parsed
      readsBack
  · intro source config read readsBack
    have parsed : Json.parse Config.record.reader source = .ok config :=
      mapError_eq_ok_iff.mp read
    have room : 3 < Json.startDepth := by decide
    exact preserved_of_rereads (ConfigurationError.json "<config>") (Config.rereads room) parsed
      readsBack

/-- A catalog whose records are written as lists. -/
def widthText : String :=
  "[[[\"p\",\"width\",null,-0.5]],[[\"e\",\"wide\",\"width\",\"fuzzy\",true,[[0,0],[20,1]]]]," ++
    "[[\"r\",\"site\",[[\"all\",null,null,null,[[\"wide\"]]]]]]]"

def hourText : String :=
  "[10,3600,null,false,\"ignore\",3,[[0.25,\"slight\"],[0.7,\"severe\"]]]"

theorem preserved_of_ofJson_width :
    (∃ data, CatalogData.ofJson "width.json" widthText = .ok data ∧
      data.numbers = [-0.5, 0, 0, 20, 1] ∧
      Preserved (CatalogData.ofJson "again.json") CatalogData.toJson data) ∧
    ∃ config, Config.ofJson hourText = .ok config ∧ config.numbers = [0.25, 0.7] ∧
      Preserved Config.ofJson Config.toJson config := by
  constructor
  · have numbersEq : (CatalogData.ofJson "width.json" widthText).toOption.map CatalogData.numbers =
        some [-0.5, 0, 0, 20, 1] := by
      decide +kernel
    have readBack : ∀ x ∈ ([-0.5, 0, 0, 20, 1] : List Float), x.isFinite = true →
        Json.ReadsBack x := by
      decide +kernel
    obtain ⟨data, someEq, dataNumbers⟩ := Option.map_eq_some_iff.mp numbersEq
    have read := eq_ok_of_toOption someEq
    refine ⟨data, read, dataNumbers, ?_⟩
    exact preserved_of_ofJson.1 _ "again.json" _ data read (dataNumbers ▸ readBack)
  · have numbersEq : (Config.ofJson hourText).toOption.map Config.numbers = some [0.25, 0.7] := by
      decide +kernel
    have readBack : ∀ x ∈ ([0.25, 0.7] : List Float), x.isFinite = true → Json.ReadsBack x := by
      decide +kernel
    obtain ⟨config, someEq, configNumbers⟩ := Option.map_eq_some_iff.mp numbersEq
    have read := eq_ok_of_toOption someEq
    refine ⟨config, read, configNumbers, ?_⟩
    exact preserved_of_ofJson.2 _ config read (configNumbers ▸ readBack)

end FuzzyRating
