import FuzzyRating.Proofs.Assessment.Subject
import FuzzyRating.Proofs.Cache.Entries
import FuzzyRating.Proofs.Cache.Key
import FuzzyRating.Proofs.Catalog.Build
import FuzzyRating.Proofs.Engine.Run

/-!
The cache of an engine cannot be noticed: whatever an engine is asked to do, and whenever, it gives
the answers that it would give if it kept no results.
-/

namespace FuzzyRating.Engine

variable {engine : Engine}

/-! ## What the cache holds -/

/-- A result was made for some interpretation and data with this key, and for whatever has this key
it is what computing gives now. -/
structure Recomputes (engine : Engine) (key : String) (served : Served) : Prop where
  made : ∃ name data, isCacheable data = true ∧ cacheKey name data = key
  same : ∀ name data, isCacheable data = true → cacheKey name data = key →
    engine.recompute (engine.find name) data = .ok served.report

/-- The catalog can be looked up by name, and all results are right for it. -/
structure Sound (engine : Engine) : Prop where
  names : engine.catalog.interpretationNames.Nodup
  entries : engine.cache.All engine.Recomputes

theorem find_of_mem {interpretation : Interpretation Float}
    (names : engine.catalog.interpretationNames.Nodup)
    (member : interpretation ∈ engine.catalog.interpretations) :
    engine.find interpretation.name = .ok interpretation := by
  unfold find
  rw [(Catalog.interpretation?_eq_some_iff names).mpr ⟨member, rfl⟩]

theorem mem_of_find {name : String} {interpretation : Interpretation Float}
    (found : engine.find name = .ok interpretation) :
    interpretation ∈ engine.catalog.interpretations := by
  unfold find at found
  split at found
  · next inCatalog =>
      cases found
      exact List.mem_of_find?_eq_some inCatalog
  · cases found

theorem mem_of_findById {id : InterpretationId} {interpretation : Interpretation Float}
    (found : engine.findById id = .ok interpretation) :
    interpretation ∈ engine.catalog.interpretations := by
  unfold findById at found
  split at found
  · next inCatalog =>
      cases found
      exact List.mem_of_find?_eq_some inCatalog
  · cases found

/-- A computed report is right for every name and data with the same key. -/
theorem recomputes_of_compute (names : engine.catalog.interpretationNames.Nodup)
    {interpretation : Interpretation Float} {data : PropertyData Float} {served : Served}
    (member : interpretation ∈ engine.catalog.interpretations)
    (cacheable : isCacheable data = true)
    (computed : engine.compute interpretation data = .ok served.report) :
    engine.Recomputes (cacheKey interpretation.name data) served where
  made := ⟨interpretation.name, data, cacheable, rfl⟩
  same name other otherCacheable sameKey := by
    obtain ⟨rfl, sameValues⟩ := cacheKey_inj otherCacheable cacheable sameKey
    rw [find_of_mem names member]
    change interpretation.report engine.config engine.catalog other = _
    rw [Interpretation.report_congr sameValues]
    exact computed

theorem Recomputes.of_ratesLike {other : Engine} {key : String} {served : Served}
    (recomputes : engine.Recomputes key served) (alike : RatesLike other engine) :
    other.Recomputes key served where
  made := recomputes.made
  same name data cacheable sameKey := by
    rw [alike.find, alike.recompute]
    exact recomputes.same name data cacheable sameKey

theorem Sound.of_ratesLike {other : Engine} (sound : Sound engine) (alike : RatesLike other engine)
    (entries : other.cache.All engine.Recomputes) :
    Sound other where
  names := by
    rw [alike.catalog]
    exact sound.names
  entries := fun entry member => (entries entry member).of_ratesLike alike

/-! ## Rating -/

/-- Rating gives what computing gives, and changes nothing but the cache and the counter. -/
structure Rated (engine : Engine) (expected : Except (AssessmentError Float) (Report Float))
    (outcome : Answer × Engine) : Prop where
  answer : outcome.1.map Served.report = expected
  agrees : Agrees outcome.2 engine
  sound : Sound outcome.2

theorem computeServed_rated (sound : Sound engine) (interpretation : Interpretation Float)
    (data : PropertyData Float) :
    Rated engine (engine.compute interpretation data)
      (engine.computeServed interpretation data) := by
  unfold computeServed
  cases computed : engine.compute interpretation data with
  | ok report =>
      have agrees : Agrees { engine with computed := engine.computed + 1 } engine :=
        ⟨⟨rfl, rfl⟩, rfl, rfl⟩
      exact ⟨rfl, agrees, sound.of_ratesLike agrees.toRatesLike sound.entries⟩
  | error error => exact ⟨rfl, Agrees.refl engine, sound⟩

theorem rate_of_hit {interpretation : Interpretation Float} {data : PropertyData Float} {now : Nat}
    {served : Served} (cacheable : isCacheable data = true)
    (hit : (engine.cache.get (cacheKey interpretation.name data) now).1 = some served) :
    engine.rate engine.generation interpretation data now = (.ok served, { engine with
      cache := (engine.cache.get (cacheKey interpretation.name data) now).2 }) := by
  unfold rate
  rw [if_pos cacheable]
  dsimp only
  rw [hit]

theorem rate_of_miss {interpretation : Interpretation Float} {data : PropertyData Float}
    {now : Nat} (cacheable : isCacheable data = true)
    (miss : (engine.cache.get (cacheKey interpretation.name data) now).1 = none) :
    engine.rate engine.generation interpretation data now =
      match engine.compute interpretation data with
      | .ok report => (.ok ⟨engine.computed, report⟩, { engine with
          cache := (engine.cache.get (cacheKey interpretation.name data) now).2.set
            (cacheKey interpretation.name data) ⟨engine.computed, report⟩ now
          computed := engine.computed + 1 })
      | .error error => (.error error, { engine with
          cache := (engine.cache.get (cacheKey interpretation.name data) now).2 }) := by
  have sameCompute (cache : Cache Served) :
      { engine with cache }.compute interpretation data = engine.compute interpretation data :=
    rfl
  unfold rate
  rw [if_pos cacheable]
  dsimp only
  rw [miss]
  dsimp only
  unfold computeServed
  rw [sameCompute]
  cases engine.compute interpretation data with
  | ok report => exact congrArg (Prod.mk _) (keep_of_current _ now _ _)
  | error error => rfl

theorem rate_rated (sound : Sound engine) {interpretation : Interpretation Float}
    (member : interpretation ∈ engine.catalog.interpretations) (data : PropertyData Float)
    (now : Nat) :
    Rated engine (engine.compute interpretation data)
      (engine.rate engine.generation interpretation data now) := by
  by_cases cacheable : isCacheable data = true
  · have lookedUp := sound.entries.get (cacheKey interpretation.name data) now
    have agrees (cache : Cache Served) (computed : Nat) :
        Agrees { engine with cache, computed } engine :=
      ⟨⟨rfl, rfl⟩, rfl, rfl⟩
    cases hit : (engine.cache.get (cacheKey interpretation.name data) now).1 with
    | some served =>
        have computed := (sound.entries.of_get hit).same interpretation.name data cacheable rfl
        rw [find_of_mem sound.names member] at computed
        rw [rate_of_hit cacheable hit]
        exact ⟨computed.symm, agrees _ _, sound.of_ratesLike (agrees _ _).toRatesLike lookedUp⟩
    | none =>
        rw [rate_of_miss cacheable hit]
        cases computed : engine.compute interpretation data with
        | ok report =>
            have right : engine.Recomputes (cacheKey interpretation.name data)
                ⟨engine.computed, report⟩ :=
              recomputes_of_compute sound.names member cacheable computed
            exact ⟨rfl, agrees _ _,
              sound.of_ratesLike (agrees _ _).toRatesLike (lookedUp.set right now)⟩
        | error error =>
            exact ⟨rfl, agrees _ _, sound.of_ratesLike (agrees _ _).toRatesLike lookedUp⟩
  · unfold rate
    rw [if_neg cacheable]
    exact computeServed_rated sound interpretation data

theorem rateFound_rated (sound : Sound engine)
    (found : Except (AssessmentError Float) (Interpretation Float))
    (inCatalog : ∀ interpretation, found = .ok interpretation →
      interpretation ∈ engine.catalog.interpretations)
    (data : PropertyData Float) (now : Nat) :
    Rated engine (engine.recompute found data)
      (engine.rateFound engine.generation found data now) := by
  cases found with
  | ok interpretation => exact rate_rated sound (inCatalog interpretation rfl) data now
  | error error => exact ⟨rfl, Agrees.refl engine, sound⟩

theorem rateEach_rated (sound : Sound engine) (name : String) (now : Nat)
    (records : List (PropertyData Float)) :
    (engine.rateEach engine.generation name now records).1.map (·.map Served.report) =
        records.map (engine.recompute (engine.find name)) ∧
      Agrees (engine.rateEach engine.generation name now records).2 engine ∧
      Sound (engine.rateEach engine.generation name now records).2 := by
  induction records generalizing engine with
  | nil => exact ⟨rfl, Agrees.refl engine, sound⟩
  | cons data records inductionHypothesis =>
      have first := rateFound_rated sound (engine.find name) (fun _ => mem_of_find) data now
      obtain ⟨answers, agrees, restSound⟩ := inductionHypothesis first.sound
      have sameRating : (engine.rateFound engine.generation (engine.find name) data now).2.recompute
          ((engine.rateFound engine.generation (engine.find name) data now).2.find name) =
            engine.recompute (engine.find name) := by
        funext other
        rw [first.agrees.find, first.agrees.recompute]
      rw [sameRating] at answers
      rw [rateEach_cons]
      refine ⟨?_, agrees.trans first.agrees, restSound⟩
      exact List.cons_eq_cons.mpr ⟨first.answer, answers⟩

/-! ## Loading -/

theorem Sound.of_load {supply : Supply} {catalog : Catalog Float}
    (loaded : load supply = .ok catalog) (catalogEq : engine.catalog = catalog)
    (nothing : engine.cache.entries = []) :
    Sound engine where
  names := by
    obtain ⟨data, _, built⟩ := bind_eq_ok_iff.mp loaded
    rw [catalogEq]
    exact (Catalog.build_checked built).names
  entries := by
    intro entry member
    rw [nothing] at member
    cases member

theorem Sound.reload (sound : Sound engine) (now : Nat) :
    Sound (engine.reload now).2 := by
  cases loaded : load engine.supply with
  | ok catalog =>
      rw [reload_of_ok loaded]
      exact Sound.of_load loaded rfl rfl
  | error error =>
      rw [reload_of_error loaded]
      exact sound.of_ratesLike ⟨rfl, rfl⟩ sound.entries

theorem Sound.refresh (sound : Sound engine) (now : Nat) :
    Sound (engine.refresh now) := by
  have reloaded := sound.reload now
  unfold Engine.refresh
  split
  · exact reloaded.of_ratesLike ⟨rfl, rfl⟩ reloaded.entries
  · exact sound

/-! ## Whole runs -/

/-- A request is answered as without a cache, and the results kept stay right. -/
theorem perform_transparent {reference : Engine} (sound : Sound engine)
    (agrees : Agrees engine reference) (now : Nat) (request : Request) :
    (engine.perform now request).1.map (·.map Served.report) =
        (reference.performUncached now request).1 ∧
      Agrees (engine.perform now request).2 (reference.performUncached now request).2 ∧
      Sound (engine.perform now request).2 := by
  have refreshed := sound.refresh now
  have refreshedAgrees := agrees.refresh now
  cases request with
  | evaluate name data =>
      have rated := rateFound_rated refreshed ((engine.refresh now).find name)
        (fun _ => mem_of_find) data now
      refine ⟨?_, rated.agrees.trans refreshedAgrees, rated.sound⟩
      have expected : (engine.refresh now).recompute ((engine.refresh now).find name) data =
          (reference.refresh now).recompute ((reference.refresh now).find name) data := by
        rw [refreshedAgrees.find, refreshedAgrees.recompute]
      exact List.cons_eq_cons.mpr ⟨rated.answer.trans expected, rfl⟩
  | evaluateById id data =>
      have rated := rateFound_rated refreshed ((engine.refresh now).findById id)
        (fun _ => mem_of_findById) data now
      refine ⟨?_, rated.agrees.trans refreshedAgrees, rated.sound⟩
      have expected : (engine.refresh now).recompute ((engine.refresh now).findById id) data =
          (reference.refresh now).recompute ((reference.refresh now).findById id) data := by
        rw [refreshedAgrees.findById, refreshedAgrees.recompute]
      exact List.cons_eq_cons.mpr ⟨rated.answer.trans expected, rfl⟩
  | evaluateBatch name records =>
      obtain ⟨answers, rated, ratedSound⟩ := rateEach_rated refreshed name now records
      refine ⟨answers.trans ?_, rated.trans refreshedAgrees, ratedSound⟩
      apply List.map_congr_left
      intro data _
      rw [refreshedAgrees.find, refreshedAgrees.recompute]
  | requiredProperties name => exact ⟨rfl, refreshedAgrees, refreshed⟩
  | ruleTree name => exact ⟨rfl, refreshedAgrees, refreshed⟩
  | interpretationNames => exact ⟨rfl, refreshedAgrees, refreshed⟩
  | reload => exact ⟨rfl, agrees.reload now, sound.reload now⟩
  | clearCache =>
      have cleared : Agrees engine.clearCache engine := ⟨⟨rfl, rfl⟩, rfl, rfl⟩
      exact ⟨rfl, cleared.trans agrees, sound.of_ratesLike cleared.toRatesLike Cache.All.clear⟩
  | pruneCache =>
      have pruned : Agrees (engine.pruneCache now).2 engine := ⟨⟨rfl, rfl⟩, rfl, rfl⟩
      exact ⟨rfl, pruned.trans agrees,
        sound.of_ratesLike pruned.toRatesLike (sound.entries.prune now)⟩
  | withSupply supply =>
      have changed : RatesLike (engine.withSupply supply) engine := ⟨rfl, rfl⟩
      exact ⟨rfl, ⟨⟨agrees.config, agrees.catalog⟩, rfl, agrees.loadedAt⟩,
        sound.of_ratesLike changed sound.entries⟩

theorem run_transparent {reference : Engine} (sound : Sound engine)
    (agrees : Agrees engine reference) (requests : List (Nat × Request)) :
    (engine.run requests).1.map (·.map (·.map Served.report)) =
        (reference.runUncached requests).1 ∧
      Agrees (engine.run requests).2 (reference.runUncached requests).2 ∧
      Sound (engine.run requests).2 := by
  induction requests generalizing engine reference with
  | nil => exact ⟨rfl, agrees, sound⟩
  | cons first requests inductionHypothesis =>
      obtain ⟨now, request⟩ := first
      obtain ⟨answers, performed, performedSound⟩ := perform_transparent sound agrees now request
      obtain ⟨later, ran, ranSound⟩ := inductionHypothesis performedSound performed
      exact ⟨List.cons_eq_cons.mpr ⟨answers, later⟩, ran, ranSound⟩

/-- An engine that is asked these things keeps what it has computed without anyone noticing. -/
structure Transparent (engine : Engine) (requests : List (Nat × Request)) : Prop where
  /-- Apart from their numbers, the answers are those that are computed without a cache. -/
  answers : (engine.run requests).1.map (·.map (·.map Served.report)) =
    (engine.runUncached requests).1
  catalog : (engine.run requests).2.catalog = (engine.runUncached requests).2.catalog
  /-- Each result kept is what computing gives on the catalog as it stands. -/
  entries : (engine.run requests).2.cache.All (engine.run requests).2.Recomputes
  /-- Loading that succeeds, asked for or due, puts the catalog loaded in place of the old one. -/
  loaded : ∀ now catalog, load (engine.run requests).2.supply = .ok catalog →
    ((engine.run requests).2.reload now).2.catalog = catalog ∧
      ((engine.run requests).2.isStale now = true →
        ((engine.run requests).2.refresh now).catalog = catalog)
  /-- Loading that fails, asked for or due, leaves the catalog and all results. -/
  failed : ∀ now error, load (engine.run requests).2.supply = .error error →
    ((engine.run requests).2.reload now).1 = .error error ∧
      ∀ after ∈ [((engine.run requests).2.reload now).2, (engine.run requests).2.refresh now],
        after.catalog = (engine.run requests).2.catalog ∧
          after.cache = (engine.run requests).2.cache
  /-- Nothing is loaded before it is due. -/
  fresh : ∀ now, (engine.run requests).2.isStale now = false →
    (engine.run requests).2.refresh now = (engine.run requests).2

/-- No run of an engine shows that it keeps results. -/
theorem transparent_of_create {supply : Supply} {config : Config Float} {now : Nat}
    (created : create supply config now = .ok engine) (requests : List (Nat × Request)) :
    engine.Transparent requests := by
  obtain ⟨catalog, loaded, engineEq⟩ := bind_eq_ok_iff.mp created
  have sound : Sound engine := by
    cases engineEq
    exact Sound.of_load loaded rfl rfl
  obtain ⟨answers, agrees, ranSound⟩ := run_transparent sound (Agrees.refl engine) requests
  constructor
  · exact answers
  · exact agrees.catalog
  · exact ranSound.entries
  · intro later next succeeds
    constructor
    · rw [reload_of_ok succeeds]
    · intro stale
      rw [refresh_of_ok stale succeeds]
  · intro later error fails
    refine ⟨by rw [reload_of_error fails], ?_⟩
    intro after member
    simp only [List.mem_cons, List.not_mem_nil, or_false] at member
    rcases member with rfl | rfl
    · rw [reload_of_error fails]
      exact ⟨rfl, rfl⟩
    · cases stale : (engine.run requests).2.isStale later with
      | true =>
          rw [refresh_of_error stale fails]
          exact ⟨rfl, rfl⟩
      | false =>
          rw [refresh_of_fresh stale]
          exact ⟨rfl, rfl⟩
  · exact fun later => refresh_of_fresh

/-- A site is rated twice by one catalog, and its slope when that catalog has grown old and can no
longer be read. -/
theorem transparent_site :
    ∃ engine, create (.ok Catalog.siteData) { Config.standard with catalogTtlSecs := some 1 } 0 =
        .ok engine ∧
      engine.Transparent
        [(1, .evaluate "Site" ⟨[("slope", .number 5)], List.nodup_singleton _⟩),
          (2, .evaluate "Site" ⟨[("slope", .number 5)], List.nodup_singleton _⟩),
          (3, .withSupply (.error (.unreadable "catalog.json" "not found"))),
          (2000, .evaluateBatch "Slope"
            [⟨[("slope", .number 5)], List.nodup_singleton _⟩, .empty]),
          (2001, .reload)] := by
  obtain ⟨catalog, slope, site, built, _⟩ := Catalog.exists_build_siteData
  have created (config : Config Float) :
      ∃ engine, create (.ok Catalog.siteData) config 0 = .ok engine := by
    refine ⟨_, bind_eq_ok_iff.mpr ⟨catalog, ?_, rfl⟩⟩
    exact bind_eq_ok_iff.mpr ⟨Catalog.siteData, rfl, built⟩
  obtain ⟨engine, engineCreated⟩ := created { Config.standard with catalogTtlSecs := some 1 }
  exact ⟨engine, engineCreated, transparent_of_create engineCreated _⟩

end FuzzyRating.Engine
