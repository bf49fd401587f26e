import FuzzyRating.Catalog.Json
import FuzzyRating.File

/-!
Where catalogs come from.
-/

namespace FuzzyRating

inductive CatalogSource where
  /-- A text in JSON. -/
  | text (json : String)
  /-- A file in JSON. -/
  | file (path : String) (text : FileText)
  /-- Contents that need not be read. -/
  | contents (data : CatalogData Float)

namespace CatalogSource

def describe : CatalogSource → String
  | text _ => "<string>"
  | file path _ => path
  | contents _ => "<static>"

def path? : CatalogSource → Option String
  | file path _ => some path
  | _ => none

def load (source : CatalogSource) : Except (ConfigurationError Float) (CatalogData Float) :=
  match source with
  | text json => CatalogData.ofJson source.describe json
  | file path (.error failure) => .error (.unreadable path failure.text)
  | file _ (.ok json) => CatalogData.ofJson source.describe json
  | contents data => .ok data

end CatalogSource

end FuzzyRating
