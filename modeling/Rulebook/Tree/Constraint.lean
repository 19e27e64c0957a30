import Rulebook.Tree.Location

/-!
# Constraints of a pattern

A pattern constrains the fields of a fact. A field constraint is a list of restrictions joined by
connectives; a binding gives a field a name; a predicate is embedded code.
-/

namespace Rulebook

/-- Kinds of literal restriction values. A dotted name is an enumeration constant. -/
inductive LiteralType where
  | string | number | boolean | null | enum
  deriving DecidableEq, Repr, Inhabited

/-- The label of a literal kind. -/
def LiteralType.name : LiteralType → String
  | string => "string"
  | number => "number"
  | boolean => "boolean"
  | null => "null"
  | enum => "enum"

/-- Connectives between restrictions. -/
inductive Connective where
  | and | or
  deriving DecidableEq, Repr, Inhabited

def Connective.text : Connective → String
  | and => "&&"
  | or => "||"

/-- An entry of a restriction list. -/
inductive Restriction where
  | literal (location : Location) (operator text : String) (type : LiteralType)
  | reference (location : Location) (operator name : String)
  | returnValue (location : Location) (operator code : String)
  | connective (location : Location) (c : Connective)
  deriving DecidableEq, Repr, Inhabited

def Restriction.location : Restriction → Location
  | literal l .. | reference l .. | returnValue l .. | connective l _ => l

/-- An entry that joins its neighbours. -/
def Restriction.isConnective : Restriction → Bool
  | connective .. => true
  | _ => false

structure FieldConstraint where
  location : Location
  field : String
  restrictions : List Restriction
  deriving DecidableEq, Repr, Inhabited

/-- More than one restriction on the field. -/
def FieldConstraint.hasConnectives (c : FieldConstraint) : Bool :=
  c.restrictions.any Restriction.isConnective

/-- An entry of a constraint list. -/
inductive Constraint where
  | field (c : FieldConstraint)
  | binding (location : Location) (field name : String)
  | predicate (location : Location) (code : String) (field declaration : Option String)
  deriving DecidableEq, Repr, Inhabited

def Constraint.location : Constraint → Location
  | field c => c.location
  | binding l .. | predicate l .. => l

end Rulebook
