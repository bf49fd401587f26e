import FuzzyRating.Engine

/-!
Runs of an engine: what it is asked to do, when, and what it answers, with its cache and without.
-/

namespace FuzzyRating.Engine

/-! ## Runs -/

/-- What an engine is asked to do. -/
inductive Request where
  | evaluate (name : String) (data : PropertyData Float)
  | evaluateById (id : InterpretationId) (data : PropertyData Float)
  | evaluateBatch (name : String) (records : List (PropertyData Float))
  | requiredProperties (name : String)
  | ruleTree (name : String)
  | interpretationNames
  | reload
  | clearCache
  | pruneCache
  /-- From now on the source of catalogs delivers something else. -/
  | withSupply (supply : Supply)

/-- Does what is asked, and gives the answers to what is to be rated. -/
def perform (engine : Engine) (now : Nat) : Request → List Answer × Engine
  | .evaluate name data =>
      let (answer, engine) := engine.evaluate name data now
      ([answer], engine)
  | .evaluateById id data =>
      let (answer, engine) := engine.evaluateById id data now
      ([answer], engine)
  | .evaluateBatch name records => engine.evaluateBatch name records now
  | .requiredProperties name => ([], (engine.requiredProperties name now).2)
  | .ruleTree name => ([], (engine.ruleTree name now).2)
  | .interpretationNames => ([], (engine.interpretationNames now).2)
  | .reload => ([], (engine.reload now).2)
  | .clearCache => ([], engine.clearCache)
  | .pruneCache => ([], (engine.pruneCache now).2)
  | .withSupply supply => ([], engine.withSupply supply)

/-- Requests one after the other, each with the time at which it is made. -/
def run (engine : Engine) : List (Nat × Request) → List (List Answer) × Engine
  | [] => ([], engine)
  | (now, request) :: requests =>
      let (answers, engine) := engine.perform now request
      let (later, engine) := run engine requests
      (answers :: later, engine)

/-! ## Runs without a cache -/

/-- Computes a report for what was looked up. -/
def recompute (engine : Engine) (found : Except (AssessmentError Float) (Interpretation Float))
    (data : PropertyData Float) : Except (AssessmentError Float) (Report Float) :=
  found.bind fun interpretation => engine.compute interpretation data

/-- Does what is asked without looking into the cache or changing it. -/
def performUncached (engine : Engine) (now : Nat) :
    Request → List (Except (AssessmentError Float) (Report Float)) × Engine
  | .evaluate name data =>
      let engine := engine.refresh now
      ([engine.recompute (engine.find name) data], engine)
  | .evaluateById id data =>
      let engine := engine.refresh now
      ([engine.recompute (engine.findById id) data], engine)
  | .evaluateBatch name records =>
      let engine := engine.refresh now
      (records.map (engine.recompute (engine.find name)), engine)
  | .requiredProperties _ | .ruleTree _ | .interpretationNames => ([], engine.refresh now)
  | .reload => ([], (engine.reload now).2)
  | .clearCache | .pruneCache => ([], engine)
  | .withSupply supply => ([], engine.withSupply supply)

def runUncached (engine : Engine) :
    List (Nat × Request) → List (List (Except (AssessmentError Float) (Report Float))) × Engine
  | [] => ([], engine)
  | (now, request) :: requests =>
      let (answers, engine) := engine.performUncached now request
      let (later, engine) := runUncached engine requests
      (answers :: later, engine)

/-! ## Loading -/

theorem reload_of_ok {engine : Engine} {catalog : Catalog Float}
    (loaded : load engine.supply = .ok catalog) (now : Nat) :
    engine.reload now = (.ok (), { engine with
      loads := engine.loads + 1, catalog, loadedAt := now, generation := engine.generation + 1,
      cache := engine.cache.clear }) := by
  unfold reload
  dsimp only
  rw [loaded]

theorem reload_of_error {engine : Engine} {error : ConfigurationError Float}
    (failed : load engine.supply = .error error) (now : Nat) :
    engine.reload now = (.error error, { engine with loads := engine.loads + 1 }) := by
  unfold reload
  dsimp only
  rw [failed]

theorem refresh_of_fresh {engine : Engine} {now : Nat} (fresh : engine.isStale now = false) :
    engine.refresh now = engine := by
  unfold refresh
  rw [if_neg (Bool.eq_false_iff.mp fresh)]

theorem refresh_of_ok {engine : Engine} {now : Nat} {catalog : Catalog Float}
    (stale : engine.isStale now = true) (loaded : load engine.supply = .ok catalog) :
    engine.refresh now = { engine with
      loads := engine.loads + 1, catalog, loadedAt := now, generation := engine.generation + 1,
      cache := engine.cache.clear } := by
  unfold refresh
  rw [if_pos stale, reload_of_ok loaded]

theorem refresh_of_error {engine : Engine} {now : Nat} {error : ConfigurationError Float}
    (stale : engine.isStale now = true) (failed : load engine.supply = .error error) :
    engine.refresh now = { engine with loads := engine.loads + 1, loadedAt := now } := by
  unfold refresh
  rw [if_pos stale, reload_of_error failed]

/-! ## Rating -/

section

variable (engine : Engine) (generation : Nat) (data : PropertyData Float) (now : Nat)

/-- Where the catalog is still there that a report was computed by, the report is kept. -/
theorem keep_of_current (key : String) (served : Served) :
    engine.keep engine.generation key served now =
      { engine with cache := engine.cache.set key served now } :=
  if_pos rfl

theorem generation_keep (key : String) (served : Served) :
    (engine.keep generation key served now).generation = engine.generation := by
  unfold keep
  split <;> rfl

theorem generation_computeServed (interpretation : Interpretation Float) :
    (engine.computeServed interpretation data).2.generation = engine.generation := by
  unfold computeServed
  split <;> rfl

theorem generation_rate (interpretation : Interpretation Float) :
    (engine.rate generation interpretation data now).2.generation = engine.generation := by
  unfold rate
  dsimp only
  split
  · split
    · rfl
    · have unchanged := generation_computeServed
        { engine with cache := (engine.cache.get (cacheKey interpretation.name data) now).2 }
        data interpretation
      split
      · next served computed outcome =>
          rw [outcome] at unchanged
          exact (generation_keep computed generation now _ served).trans unchanged
      · exact unchanged
  · exact generation_computeServed engine data interpretation

theorem generation_rateFound (found : Except (AssessmentError Float) (Interpretation Float)) :
    (engine.rateFound generation found data now).2.generation = engine.generation := by
  cases found with
  | ok interpretation => exact generation_rate engine generation data now interpretation
  | error error => rfl

/-- The catalog that the rating of several subjects began with is still there at each of them, so no
report is dropped. -/
theorem rateEach_cons (name : String) (records : List (PropertyData Float)) :
    engine.rateEach engine.generation name now (data :: records) =
      let (answer, next) := engine.rateFound engine.generation (engine.find name) data now
      let (answers, last) := next.rateEach next.generation name now records
      (answer :: answers, last) := by
  have unchanged := generation_rateFound engine engine.generation data now (engine.find name)
  rw [rateEach]
  dsimp only
  rw [unchanged]

theorem generation_rateEach (name : String) (records : List (PropertyData Float)) :
    (engine.rateEach engine.generation name now records).2.generation = engine.generation := by
  induction records generalizing engine with
  | nil => rfl
  | cons data records inductionHypothesis =>
      rw [rateEach_cons]
      exact (inductionHypothesis _).trans
        (generation_rateFound engine engine.generation data now (engine.find name))

end

/-- Two engines look up and compute the same. -/
structure RatesLike (engine other : Engine) : Prop where
  config : engine.config = other.config
  catalog : engine.catalog = other.catalog

namespace RatesLike

variable {engine other : Engine}

theorem find (alike : RatesLike engine other) (name : String) :
    engine.find name = other.find name := by
  unfold Engine.find
  rw [alike.catalog]

theorem findById (alike : RatesLike engine other) (id : InterpretationId) :
    engine.findById id = other.findById id := by
  unfold Engine.findById
  rw [alike.catalog]

theorem recompute (alike : RatesLike engine other)
    (found : Except (AssessmentError Float) (Interpretation Float)) (data : PropertyData Float) :
    engine.recompute found data = other.recompute found data := by
  unfold Engine.recompute compute
  rw [alike.config, alike.catalog]

end RatesLike

/-- Two engines differ at most in their caches and counters. -/
structure Agrees (engine other : Engine) : Prop extends RatesLike engine other where
  supply : engine.supply = other.supply
  loadedAt : engine.loadedAt = other.loadedAt

namespace Agrees

variable {engine other third : Engine}

theorem refl (engine : Engine) : Agrees engine engine :=
  ⟨⟨rfl, rfl⟩, rfl, rfl⟩

theorem trans (first : Agrees engine other) (second : Agrees other third) :
    Agrees engine third where
  config := first.config.trans second.config
  catalog := first.catalog.trans second.catalog
  supply := first.supply.trans second.supply
  loadedAt := first.loadedAt.trans second.loadedAt

theorem reload (agrees : Agrees engine other) (now : Nat) :
    Agrees (engine.reload now).2 (other.reload now).2 := by
  cases loaded : load other.supply with
  | ok catalog =>
      rw [reload_of_ok loaded, reload_of_ok (agrees.supply ▸ loaded)]
      exact ⟨⟨agrees.config, rfl⟩, agrees.supply, rfl⟩
  | error error =>
      rw [reload_of_error loaded, reload_of_error (agrees.supply ▸ loaded)]
      exact ⟨⟨agrees.config, agrees.catalog⟩, agrees.supply, agrees.loadedAt⟩

theorem refresh (agrees : Agrees engine other) (now : Nat) :
    Agrees (engine.refresh now) (other.refresh now) := by
  have sameStale : engine.isStale now = other.isStale now := by
    unfold isStale
    rw [agrees.config, agrees.loadedAt]
  have reloaded := agrees.reload now
  unfold Engine.refresh
  rw [sameStale]
  split
  · exact ⟨⟨reloaded.config, reloaded.catalog⟩, reloaded.supply, rfl⟩
  · exact agrees

end Agrees

end FuzzyRating.Engine
