import Rulebook.Tree.Rule

/-!
# Packages

A package is what one rule file declares: per kind, the declarations in source order.
-/

namespace Rulebook

/-- An imported name; it may end in `.*`. -/
structure Import where
  location : Location
  target : String
  deriving DecidableEq, Repr, Inhabited

structure Global where
  location : Location
  type : String
  name : String
  deriving DecidableEq, Repr, Inhabited

/-- A function. Its body is the code between the braces. -/
structure Function where
  location : Location
  name : String
  returnType : Option String
  parameters : List Parameter
  body : String
  dialect : Option String
  deriving DecidableEq, Repr, Inhabited

/-- A slot of a fact template. -/
structure Slot where
  location : Location
  name : String
  type : String
  deriving DecidableEq, Repr, Inhabited

structure Template where
  location : Location
  name : String
  slots : List Slot
  deriving DecidableEq, Repr, Inhabited

/-- The declarations of a rule file. `attributes` are defaults for the rules of the file. -/
structure Package where
  location : Location := {}
  name : String := ""
  imports : List Import := []
  functionImports : List Import := []
  globals : List Global := []
  functions : List Function := []
  templates : List Template := []
  rules : List Entry := []
  attributes : Attributes := []
  deriving Repr

namespace Package

def ruleNames (p : Package) : List String := p.rules.map Entry.name

def queries (p : Package) : List Query :=
  p.rules.filterMap fun
    | .query q => some q
    | .rule _ => none

def rule? (p : Package) (name : String) : Option Entry := p.rules.find? (·.name = name)

end Package

end Rulebook
