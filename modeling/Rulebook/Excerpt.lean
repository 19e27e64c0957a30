import Rulebook.Text.Basic

/-!
# Source excerpts

An excerpt is a place in a named source, with up to three lines of its text. The formatted excerpt
numbers the lines from two above the place and marks the place itself with carets.
-/

namespace Rulebook

structure Excerpt where
  sourceName : String
  line : Int
  column : Int
  snippet : Option String := none
  deriving DecidableEq, Repr, Inhabited

namespace Excerpt

/-- The number of the first line that an excerpt of a place shows. -/
def firstLine (line : Int) : Int := max 1 (line - 2)

/-- A text moved to the right end of a field. -/
def padLeft (width : Nat) (s : String) : String :=
  String.ofList (List.replicate (width - s.length) ' ') ++ s

def gutter (number : Int) : String := padLeft 4 (toString number) ++ " | "

def numbered (e : Excerpt) (number : Int) : List String → List String
  | [] => []
  | line :: rest =>
    let marked :=
      if number = e.line then
        [String.ofList (List.replicate ((gutter number).length + e.column).toNat ' ') ++ "^^^"]
      else []
    (gutter number ++ line) :: marked ++ numbered e (number + 1) rest

/-- The place, as `source:line:column`. -/
def place (e : Excerpt) : String :=
  e.sourceName ++ ":" ++ toString e.line ++ ":" ++ toString e.column

/-- The lines between the line feeds of a text. -/
def rowsOf (s : String) : List String := (Text.pieces '\n' s.toList).map String.ofList

/-- The place, followed by the numbered lines if there are any. -/
def format (e : Excerpt) : String :=
  match e.snippet with
  | none => e.place
  | some s =>
    if s = "" then e.place
    else "\n".intercalate (e.place :: numbered e (firstLine e.line) (rowsOf s))

end Excerpt

end Rulebook
