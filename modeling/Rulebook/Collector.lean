import Rulebook.Diagnostic

/-!
# Collecting diagnostics

The collector records errors without stopping the parse. After a recognition error it is
recovering: further recognition errors are dropped until a token matches the grammar again, so
that one broken construct gives one diagnostic. Remarks are recorded even then. A cap bounds the
number of recorded diagnostics; what is not recorded is counted.
-/

namespace Rulebook

/-- The diagnostics of one parse. -/
structure Collector where
  sourceName : String
  maxErrors : Option Nat := none
  errors : List Diagnostic := []
  recovering : Bool := false
  suppressed : Nat := 0
  deriving DecidableEq, Repr, Inhabited

namespace Collector

/-- The cap is reached. -/
def isFull (c : Collector) : Bool :=
  match c.maxErrors with
  | none => false
  | some n => n ≤ c.errors.length

/-- Records a complaint unless the cap is reached. -/
def add (c : Collector) (kind : ErrorKind) (message : String) (token : Option Token)
    (ruleName : Option String) : Collector :=
  if c.isFull then { c with suppressed := c.suppressed + 1 }
  else { c with errors := c.errors ++ [.ofToken kind c.sourceName message token ruleName] }

/-- Records a recognition error unless an earlier one is still being recovered from. -/
def report (c : Collector) (e : ParseError) (ruleName : Option String) : Collector :=
  if c.recovering then { c with suppressed := c.suppressed + 1 }
  else { c with recovering := true }.add e.kind e.message e.token? ruleName

/-- Records a remark that is no recognition error. -/
def remark (c : Collector) (message : String) (token : Option Token) (ruleName : Option String) :
    Collector :=
  c.add .general message token ruleName

/-- A token matched the grammar: the next recognition error is recorded again. -/
def tokenMatched (c : Collector) : Collector := { c with recovering := false }

/-- Something was recorded. -/
def hasErrors (c : Collector) : Bool := !c.errors.isEmpty

end Collector

end Rulebook
