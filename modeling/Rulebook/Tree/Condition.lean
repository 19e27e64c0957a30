import Rulebook.Tree.Pattern

/-!
# Conditions

The left-hand side of a rule is a tree of conditions whose leaves are patterns and embedded code.
-/

namespace Rulebook

/-- How a group combines its operands. -/
inductive Grouping where
  | and | or | not | exists_ | forall_
  deriving DecidableEq, Repr, Inhabited

inductive Condition where
  | group (kind : Grouping) (location : Location) (operands : List Condition)
  | eval (location : Location) (code : String)
  | pattern (p : Pattern)
  deriving Repr

namespace Condition

def location : Condition → Location
  | group _ l _ | eval l _ => l
  | pattern p => p.location

def pattern? : Condition → Option Pattern
  | pattern p => some p
  | _ => none

def basePattern? (operands : List Condition) : Option Pattern := operands.head?.bind pattern?

/-- The patterns that a universal group demands of every match of its base. -/
def remainingPatterns (operands : List Condition) : List Pattern :=
  (operands.drop 1).filterMap pattern?

end Condition

/-- The top-level conditions of a rule or query, all of which have to hold. -/
structure Block where
  location : Location := {}
  elements : List Condition := []
  deriving Repr

def Block.condition (b : Block) : Condition := .group .and b.location b.elements

end Rulebook
