import FuzzyRating.Proofs.Engine.Transparency

/-!
What an engine that was just created answers first: what is looked up and computed in the catalog
that it was created from, however late it is asked.
-/

namespace FuzzyRating.Engine

variable {data : CatalogData Float} {config : Config Float} {created : Nat} {engine : Engine}

/-- An engine created from some data keeps their catalog, and no results yet. -/
structure CreatedFrom (engine : Engine) (data : CatalogData Float) (config : Config Float) :
    Prop where
  supply : engine.supply = .ok data
  config : engine.config = config
  catalog : Catalog.build data = .ok engine.catalog
  entries : engine.cache.entries = []

theorem createdFrom_of_create (creation : create (.ok data) config created = .ok engine) :
    CreatedFrom engine data config := by
  obtain ⟨catalog, loaded, engineEq⟩ := bind_eq_ok_iff.mp creation
  cases engineEq
  exact ⟨rfl, rfl, loaded, rfl⟩

namespace CreatedFrom

theorem loads (new : CreatedFrom engine data config) :
    load engine.supply = .ok engine.catalog := by
  rw [new.supply]
  exact new.catalog

theorem sound (new : CreatedFrom engine data config) :
    Sound engine :=
  Sound.of_load new.loads rfl new.entries

/-- Loading the catalog again, if it is due, gives the same one. -/
theorem refresh (new : CreatedFrom engine data config) (now : Nat) :
    RatesLike (engine.refresh now) engine := by
  by_cases stale : engine.isStale now = true
  · rw [refresh_of_ok stale new.loads]
    exact ⟨rfl, rfl⟩
  · rw [refresh_of_fresh (Bool.eq_false_iff.mpr stale)]
    exact ⟨rfl, rfl⟩

theorem evaluate (new : CreatedFrom engine data config)
    (name : String) (subject : PropertyData Float) (now : Nat) :
    (engine.evaluate name subject now).1.map Served.report =
      engine.recompute (engine.find name) subject := by
  have answered := (perform_transparent new.sound (Agrees.refl engine) now
    (.evaluate name subject)).1
  have alike := new.refresh now
  have expected : (engine.refresh now).recompute ((engine.refresh now).find name) subject =
      engine.recompute (engine.find name) subject := by
    rw [alike.find, alike.recompute]
  exact (List.cons_eq_cons.mp answered).1.trans expected

theorem evaluateBatch (new : CreatedFrom engine data config)
    (name : String) (subjects : List (PropertyData Float)) (now : Nat) :
    (engine.evaluateBatch name subjects now).1.map (·.map Served.report) =
      subjects.map (engine.recompute (engine.find name)) := by
  have answered := (perform_transparent new.sound (Agrees.refl engine) now
    (.evaluateBatch name subjects)).1
  have alike := new.refresh now
  refine answered.trans (List.map_congr_left fun subject _ => ?_)
  rw [alike.find, alike.recompute]

end CreatedFrom

end FuzzyRating.Engine
