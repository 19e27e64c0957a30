import Rulebook.Parser.Unit
import Rulebook.Settings.Basic
import Rulebook.Token.Scan

/-!
# Parsing a text

The package of a text, its diagnostics in the order of detection, and the events on the way.
-/

namespace Rulebook

/-- What a text gives: a package, as complete as its errors allow. -/
structure ParseResult where
  package : Package
  errors : List Diagnostic
  sourceName : String
  events : List Event
  deriving Repr

namespace ParseResult

def hasErrors (r : ParseResult) : Bool := !r.errors.isEmpty

end ParseResult

def Parser.State.ofText (frames : Nat) (settings : Settings) (sourceName text : String) :
    Parser.State :=
  { cursor := .ofTokens (scan text settings.hashComments) text
    collector := { sourceName, maxErrors := settings.maxErrors }
    stack := .ofFrames frames }

def Failure.message : Failure → String
  | .recognition e => e.report
  | .tooManyDigits digits => Text.tooManyDigits (some digits)
  | .nestingTooDeep => "maximum recursion depth exceeded"
  | .cursor f => f.message

/-- A parse that was given up, with the events until then. -/
structure Abandoned where
  failure : Failure
  events : List Event
  deriving Repr

/-- Parses a text on a stack with a number of frames. It is given up only for an integer with too
many digits. -/
def parse (frames : Nat) (settings : Settings) (sourceName text : String) :
    Except Abandoned ParseResult :=
  match Parser.compilationUnit (.ofText frames settings sourceName text) with
  | .error failure s => .error ⟨failure, s.events.reverse⟩
  | .ok package s =>
    let errors := s.collector.errors
    .ok
      { package, errors, sourceName
        events := (Event.parsed sourceName package.rules.length errors.length :: s.events).reverse }

end Rulebook
