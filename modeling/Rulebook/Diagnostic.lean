import Rulebook.ParseError
import Rulebook.Text.Basic

/-!
# Diagnostics

A diagnostic is a recorded parse error: where it is, what it says, and in which rule.
-/

namespace Rulebook

/-- A recorded parse error. Without an offending token it is placed at the start of the text. -/
structure Diagnostic where
  kind : ErrorKind
  sourceName : String
  line : Int
  column : Int
  offset : Option Nat := none
  tokenText : String := ""
  message : String
  ruleName : Option String := none
  deriving DecidableEq, Repr, Inhabited

namespace Diagnostic

def ofToken (kind : ErrorKind) (sourceName message : String) (token : Option Token)
    (ruleName : Option String) : Diagnostic :=
  match token with
  | none =>
    { kind, sourceName, message, ruleName, line := 1, column := 0 }
  | some t =>
    { kind, sourceName, message, ruleName, line := t.line, column := t.column,
      offset := some t.start, tokenText := if t.kind = .endOfInput then "" else t.text }

/-- The diagnostic as `source:line:column: message`, with the rule if it has a name. -/
def format (d : Diagnostic) : String :=
  let text := d.sourceName ++ ":" ++ toString d.line ++ ":" ++ toString d.column ++ ": " ++
    d.message
  match d.ruleName with
  | none => text
  | some r => if r = "" then text else text ++ " in rule '" ++ r ++ "'"

/-- The lines of a text from two above line `line` to that line; a negative line counts from the
end. -/
def nearbyLines (text : String) (line : Int) : List String :=
  let lines := Text.lines text
  (lines.take (Text.resolve lines.length line)).drop (Excerpt.firstLine line - 1).toNat

/-- The place of a diagnostic, with the lines around it if the source text is given. -/
def excerpt (d : Diagnostic) (source : Option String) : Excerpt :=
  ⟨d.sourceName, d.line, d.column,
    source.map fun text => "\n".intercalate (nearbyLines text d.line)⟩

end Diagnostic

end Rulebook
