import Rulebook.Text.Basic

/-!
# Paths

A path is a sequence of names from the root or from the working directory. Empty names and `.` say
nothing and are dropped when a path is read; `..` is kept, because what it means depends on the
files. A path that begins with exactly two slashes keeps both.
-/

namespace Rulebook

structure Path where
  /-- The slashes in front: none for a path from the working directory, else one or two. -/
  slashes : Nat := 0
  names : List String := []
  deriving DecidableEq, Repr, Inhabited

namespace Path

/-- The names of a path that say something. -/
def namesOf (text : String) : List String :=
  ((Text.pieces '/' text.toList).map String.ofList).filter fun name => name ≠ "" && name ≠ "."

/-- The slashes that a path keeps of those in front of its text. -/
def slashesOf (text : String) : Nat :=
  match (text.toList.takeWhile (· = '/')).length with
  | 0 => 0
  | 2 => 2
  | _ => 1

def ofString (text : String) : Path := ⟨slashesOf text, namesOf text⟩

def isAbsolute (p : Path) : Bool := 0 < p.slashes

/-- The text of a path; that of the working directory is a point. -/
def toString (p : Path) : String :=
  if !p.isAbsolute && p.names.isEmpty then "."
  else String.ofList (List.replicate p.slashes '/') ++ "/".intercalate p.names

instance : ToString Path := ⟨Path.toString⟩

/-- The path without its last name. -/
def parent (p : Path) : Path := { p with names := p.names.dropLast }

def below (p : Path) (names : List String) : Path := { p with names := p.names ++ names }

def namesPrecede : List String → List String → Bool
  | [], _ => true
  | _ :: _, [] => false
  | m :: ms, n :: ns => m < n || (m == n && namesPrecede ms ns)

def precedes (p q : Path) : Bool := namesPrecede p.names q.names

end Path

end Rulebook
