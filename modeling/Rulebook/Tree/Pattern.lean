import Rulebook.Tree.Constraint

/-!
# Patterns and their data sources

A pattern names a type of fact and constrains its fields. Facts come from working memory, or from
the source after `from`: an expression, or the accumulation or collection of another pattern's
matches.
-/

namespace Rulebook

/-- A step of an access chain. -/
inductive Access where
  /-- A field, an index, or both: the name of a bare index is empty. -/
  | field (location : Location) (name : String) (argument : Option String)
  | method (location : Location) (name arguments : String)
  deriving DecidableEq, Repr, Inhabited

def Access.location : Access → Location
  | field l .. | method l .. => l

/-- A name, called if it has arguments, and the chain of accesses after it. -/
structure Accessor where
  location : Location
  head : String
  arguments : Option String
  chain : List Access
  deriving DecidableEq, Repr, Inhabited

/-- A source given by an access chain. -/
structure Retrieval where
  location : Location
  accessor : Accessor
  text : String
  deriving DecidableEq, Repr, Inhabited

mutual

/-- A fact pattern. The parentheses are given by their offsets; a constraint list that was never
closed has no right one. -/
structure Pattern where
  location : Location
  objectType : String
  name : Option String := none
  constraints : List Constraint := []
  source : Source
  leftParen : Nat
  rightParen : Option Nat := none

/-- Where the facts of a pattern come from. -/
inductive Source where
  | workingMemory
  | retrieval (r : Retrieval)
  | accumulate (location : Location) (input : Pattern) (initCode actionCode resultCode : String)
  | collect (location : Location) (input : Pattern)

end

deriving instance DecidableEq for Pattern, Source
deriving instance Repr for Pattern, Source

/-- A pattern whose match has a name. -/
def Pattern.isBound (p : Pattern) : Bool := p.name.isSome

/-- Where the source stands, if one is written. -/
def Source.location? : Source → Option Location
  | workingMemory => none
  | retrieval r => some r.location
  | accumulate l .. | collect l _ => some l

end Rulebook
