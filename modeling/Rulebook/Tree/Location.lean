import Rulebook.Text.Basic
import Rulebook.Token.Basic

/-!
# Locations of nodes

A node of the tree knows where it begins (offset, line and column) and where it ends (offset). It is
located at a token when the token is read, and closed when its last token has been read.
-/

namespace Rulebook

/-- Where a node stands in its source. `stop` is exclusive. -/
structure Location where
  start : Option Nat := none
  stop : Option Nat := none
  line : Option Nat := none
  column : Option Nat := none
  deriving DecidableEq, Repr, Inhabited

namespace Location

def ofToken (t : Token) : Location :=
  { start := some t.start, line := some t.line, column := some t.column }

/-- A location that begins where another one does. -/
def beginningOf (l : Location) : Location := { l with stop := none }

/-- A location that ends at an offset, but not before its start. -/
def closeAt (l : Location) (stop : Option Nat) : Location :=
  match stop with
  | none => { l with stop := l.start }
  | some b => { l with stop := some (max b (l.start.getD 0)) }

@[simp] theorem start_closeAt (l : Location) (stop : Option Nat) :
    (l.closeAt stop).start = l.start := by
  cases stop <;> rfl

/-- Both ends are known. -/
def isComplete (l : Location) : Bool := l.start.isSome && l.stop.isSome

def span (l : Location) (text : String) : String :=
  Text.span text (l.start.map Int.ofNat) (l.stop.map Int.ofNat)

end Location

end Rulebook
