import Rulebook.Parser.Declaration
import Rulebook.Parser.Rule

/-!
# Compilation units

A rule file is a package declaration, attributes that hold for its rules, and statements. No error
ends the parse: a broken statement is reported and reading goes on at the next one.
-/

namespace Rulebook.Parser

/-- One statement, which its first token tells. An import of a function is told from an import of a
name that begins with `function` by trying it. -/
def statement : Parser Unit := do
  let token ← current
  match token.kind with
  | .keyword .import_ =>
    if ← trial "function import" functionImport then let _ ← functionImport
    else let _ ← importStatement
  | .keyword .global => let _ ← globalStatement
  | .keyword .function => let _ ← functionStatement
  | .keyword .template => let _ ← templateStatement
  | .keyword .rule => let _ ← ruleStatement
  | .keyword .query => let _ ← queryStatement
  | .keyword .package => packageStatement true
  | _ => fail (.noViableAlternative "statement" token)

/-- Drops a statement that nests too deep: whatever it left behind is cleared. -/
def dropDeepStatement : Parser Unit := do
  modify fun s => { s with cursor := s.cursor.resetTrivia, trials := 0 }
  let token ← current
  note (.nestingTooDeep (← get).collector.sourceName token.line token.column)
  remark "nesting too deep" token
  modify fun s => { s with ruleName := none }
  recover statementStart

def statementOrRecovery : Parser Unit := fun s =>
  match statement s with
  | .ok () t => .ok () t
  | .error (.recognition e) t => (do report e; recover statementStart : Parser Unit) t
  | .error .nestingTooDeep t => dropDeepStatement t
  | .error f t => .error f t

def headOrRecovery (p : Parser Unit) : Parser Unit := do
  match ← attempt p with
  | .ok () => pure ()
  | .error e =>
    report e
    recover (statementStart ++ attributeKinds)

def packageAttribute : Parser Unit := do
  let a ← ruleAttribute
  modify fun s =>
    { s with package := { s.package with attributes := s.package.attributes.put a } }
  skip .comma

/-- The package declaration and the attributes that hold for the rules. -/
def unitHead : Parser Unit := do
  if ← nextIsKeyword .package then headOrRecovery (packageStatement false)
  repeatWhile () (fun _ => nextIs attributeKinds) fun _ => headOrRecovery packageAttribute

/-- The statements up to the end of input, and how many there are. -/
def statements : Parser Nat :=
  repeatWhile 0 (fun _ => do return !(← nextIs [.endOfInput])) fun n => do
    statementOrRecovery
    return n + 1

def locatePackage (change : Location → Location) : Parser Unit :=
  modify fun s => { s with package := { s.package with location := change s.package.location } }

/-- Ends a unit of `n` statements, which are too few if there are none, with the last token. -/
def closeUnit (n : Nat) : Parser Package := do
  if n = 0 then report (.earlyExit "compilation unit" (← current))
  let stop ← lastStop
  locatePackage (·.closeAt stop)
  return (← get).package

/-- A whole rule file. -/
def compilationUnit : Parser Package := do
  let first ← current
  locatePackage fun l => { Location.ofToken first with stop := l.stop }
  unitHead
  closeUnit (← statements)

end Rulebook.Parser
