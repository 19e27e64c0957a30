/-!
# Trace events

What a run remarks on besides its diagnostics. Each event has a level, the component that emits it
and a wording; a threshold selects the events that are shown.
-/

namespace Rulebook

inductive Level where
  | debug | info | warning | error | critical
  deriving DecidableEq, Repr, Inhabited

namespace Level

/-- The levels in rising order. -/
def all : List Level := [debug, info, warning, error, critical]

def name : Level → String
  | debug => "DEBUG"
  | info => "INFO"
  | warning => "WARNING"
  | error => "ERROR"
  | critical => "CRITICAL"

def rank : Level → Nat
  | debug => 10
  | info => 20
  | warning => 30
  | error => 40
  | critical => 50

/-- The level with a given label. -/
def ofName? (s : String) : Option Level := all.find? (·.name == s)

end Level

/-- Something worth a remark. -/
inductive Event where
  /-- An error was dropped while an earlier one was being recovered from. -/
  | suppressed (message : String)
  /-- A trial of an alternative failed. -/
  | trialFailed (alternative message : String)
  /-- Tokens were skipped after an error. -/
  | resynchronised (source : String) (line column skipped : Nat)
  /-- A rule was read. -/
  | ruleRead (name : String) (line : Nat)
  /-- A statement was dropped for its nesting. -/
  | nestingTooDeep (source : String) (line column : Nat)
  /-- A text was parsed. -/
  | parsed (source : String) (rules errors : Nat)
  /-- A file has errors. -/
  | fileErrors (path : String) (errors : Nat)
  /-- A file was left out. -/
  | fileSkipped (path message : String)
  deriving DecidableEq, Repr

namespace Event

def level : Event → Level
  | nestingTooDeep .. | fileSkipped .. => .warning
  | fileErrors .. => .info
  | _ => .debug

def component : Event → String
  | suppressed .. => "rulelang.core.diagnostics"
  | trialFailed .. => "rulelang.core.parser_impl.speculation"
  | resynchronised .. => "rulelang.core.parser_impl.base"
  | ruleRead .. => "rulelang.core.parser_impl.rule"
  | nestingTooDeep .. => "rulelang.core.parser_impl.package"
  | parsed .. => "rulelang.core.parser_impl"
  | fileErrors .. | fileSkipped .. => "rulelang.core.parser"

def message : Event → String
  | suppressed m => "Suppressed cascading error: " ++ m
  | trialFailed alternative m => "Speculation failed: " ++ alternative ++ ": " ++ m
  | resynchronised source line column skipped =>
    source ++ ": resynchronised at " ++ toString line ++ ":" ++ toString column ++
      " after skipping " ++ toString skipped ++ " token(s)"
  | ruleRead name line => "Parsed rule '" ++ name ++ "' at line " ++ toString line
  | nestingTooDeep source line column =>
    source ++ ":" ++ toString line ++ ":" ++ toString column ++
      ": nesting too deep, skipping statement"
  | parsed source rules errors =>
    source ++ ": " ++ toString rules ++ " rule(s), " ++ toString errors ++ " error(s)"
  | fileErrors path errors => path ++ ": " ++ toString errors ++ " parse error(s)"
  | fileSkipped path m => "Skipping " ++ path ++ ": " ++ m

def line (e : Event) : String := e.level.name ++ " " ++ e.component ++ ": " ++ e.message

def shown (threshold : Level) (events : List Event) : List String :=
  (events.filter fun e => threshold.rank ≤ e.level.rank).map line

end Event

end Rulebook
