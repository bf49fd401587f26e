import FuzzyRating.Assessment.Report
import FuzzyRating.Command.Output
import FuzzyRating.Rule.Outline
import FuzzyRating.Table

/-!
The tables that the program prints.
-/

namespace FuzzyRating

/-- A rating to three decimals. -/
def ratingText : Option Float → String
  | some rating => Layout.writeFixed 3 rating
  | none => RatingClass.notRated.label

def RatingClass.style : RatingClass → Style
  | notRated => .dimmed
  | slight => .green
  | moderate => .yellow
  | severe => .red
  | verySevere => .brightRed

def RatingClass.painted (rank : RatingClass) (colored : Bool) : String :=
  rank.style.paint colored rank.label

namespace Table

/-- The ratings of nodes in the order of their keys. Nodes of other interpretations have no name
here. -/
def ofNodes (roots : List (RuleTree Float)) (nodes : List (String × Option Float)) : Table where
  header := ["Node", "Name", "Kind", "Rating"]
  rows := nodes.map fun (key, rating) =>
    let (name, kind) :=
      match (Tree.preorderAll roots).find? (·.key == key) with
      | some node => (indentation node.depth ++ node.name, node.kind.name)
      | none => ("", "sub-rule")
    [key, name, kind, ratingText rating]

def ofValues (values : List (String × PropertyValue Float)) : Table where
  header := ["Property", "Value"]
  rows := values.map fun (name, value) => [name, value.display]

/-- The ratings of numbered subjects. -/
def ofRatings (colored : Bool)
    (results : List (Except (AssessmentError Float) (Report Float))) : Table where
  header := ["#", "Rating", "Class", "Error"]
  rows := results.mapIdx fun index result =>
    match result with
    | .ok report => [toString index, ratingText report.rating, report.rank.painted colored, ""]
    | .error error => [toString index, "", "", error.message]

def ofInterpretations (interpretations : List (Interpretation Float)) : Table where
  header := ["Interpretation", "Id", "Nodes", "Properties"]
  rows := interpretations.map fun interpretation =>
    [interpretation.name, interpretation.hash.hex,
      toString (Tree.preorderAll interpretation.roots).length,
      toString interpretation.required.length]

def ofProperties (properties : List (Property Float)) : Table where
  header := ["Property", "Id", "Unit", "Modifier"]
  rows := properties.map fun property =>
    [property.name, property.id, property.unitOfMeasure.getD "", property.modifier]

end Table

end FuzzyRating
