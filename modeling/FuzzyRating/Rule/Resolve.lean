import FuzzyRating.Arith
import FuzzyRating.Rule.Placement
import FuzzyRating.Text.Lower

/-!
From labels to kinds: what each node of a placed rule does, with its key, and whether it has as
many children as it takes. Faults of children come before those of their parent.
-/

namespace FuzzyRating

variable {num : Type} [Arith num]

/-- A text without blanks around it, unless nothing is left. -/
def solid? (text : String) : Option String :=
  match Text.trim text with
  | "" => none
  | text => some text

def Label.reference? (label : Label) : Option String :=
  label.refId.bind solid?

def unknownKind (kind : String) : RuleError :=
  .unknownKind kind (Text.suggestions (Text.lower kind) Keyword.accepted)

/-- The parameter of a hedge that takes one: absent, or a finite number that is not negative. -/
def Label.parameter (label : Label) : Except RuleError (Option num) :=
  match label.value.bind solid? with
  | none => .ok none
  | some text =>
      let refused := .error (.hedgeParameter label.name text)
      match Decimal.ofText? text.toList with
      | none => refused
      | some decimal =>
          let value : num := Arith.ofDecimal decimal
          if Arith.isFinite value && Arith.le Arith.zero value then .ok (some value) else refused

def Label.kindOf (label : Label) : Keyword → Except RuleError (NodeKind num)
  | .operator operator => .ok (.operator operator)
  | .hedge hedge =>
      if hedge.takesParam then do
        return .hedge hedge (← label.parameter)
      else
        .ok (.hedge hedge none)
  | .evaluation =>
      match label.reference? with
      | some refId => .ok (.evaluation refId)
      | none => .error (.missingReference label.name)

/-- What a node does: what it declares, or else what it refers to, or else what its name says. A
top-level node that says nothing heads the rule. -/
def Label.resolve (label : Label) (depth : Nat) : Except RuleError (NodeKind num) :=
  match label.nodeKind.bind solid? with
  | some declared =>
      match Keyword.resolve? declared with
      | some keyword => label.kindOf keyword
      | none => .error (unknownKind declared)
  | none =>
      match label.reference?, Keyword.resolve? label.name with
      | some refId, _ => .ok (.evaluation refId)
      | none, some (.operator operator) => label.kindOf (.operator operator)
      | none, some (.hedge hedge) => label.kindOf (.hedge hedge)
      | none, _ => if depth = 0 then .ok .root else .error (unknownKind label.name)

/-- How many children a node takes. -/
def NodeKind.arity : NodeKind num → Arity
  | root => .atLeastOne
  | operator op =>
      match op.fixedArity with
      | some count => .exactly count
      | none => .atLeastOne
  | hedge _ _ => .exactly 1
  | evaluation _ => .exactly 0

/-- The key of child number `index`, given the key of its parent if it has one. -/
def childKey : Option String → Nat → String
  | none, index => toString index
  | some key, index => key ++ "." ++ toString index

mutual

/-- Resolves a tree whose root has this key and depth. -/
def resolveTree (key : String) (depth : Nat) : Tree Label → Except RuleError (RuleTree num)
  | .node label children => do
      let children ← resolveForest (some key) (depth + 1) 0 children
      let kind ← label.resolve depth
      if kind.arity.admits children.length then
        return .node ⟨label.name, key, depth, kind⟩ children
      else
        throw (.arity label.name kind.arity children.length)

/-- Resolves trees that follow `index` others below the same parent. -/
def resolveForest (parent : Option String) (depth index : Nat) :
    List (Tree Label) → Except RuleError (List (RuleTree num))
  | [] => .ok []
  | tree :: trees => do
      let tree ← resolveTree (childKey parent index) depth tree
      let trees ← resolveForest parent depth (index + 1) trees
      return tree :: trees

end

/-- The forest that the nodes of a rule stand for. -/
def normalize (nodes : List RuleNode) : Except RuleError (List (RuleTree num)) := do
  if nodes.isEmpty then
    throw .empty
  resolveForest none 0 0 (← placeNodes nodes)

end FuzzyRating
