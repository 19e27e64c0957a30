import Rulebook.Parser.Restriction

/-!
# Patterns

The constraint list of a pattern is a place of recovery: after an error the rest of the list is
skipped, and the constraints before the error are kept.
-/

namespace Rulebook.Parser

def predicate (token : Token) (field declaration : Option String) : Parser Constraint := do
  let code ← parenCode
  checkSemicolon code token
  return .predicate (← close (.ofToken token)) code field declaration

/-- The name and the colon of a binding, if the next tokens are these. -/
def bindingName : Parser (Option String) := do
  let token ← current
  if token.isName && (← peek 1).kind = .symbol .colon then
    let _ ← advance
    let _ ← advance
    return some token.text
  else return none

/-- What follows a field: a predicate, restrictions, or nothing if the field is bound. -/
def fieldConstraint (token fieldToken : Token) (field : String) (declaration : Option String) :
    Parser (List Constraint) := do
  if ← nextIsSymbol .arrow then
    let _ ← advance
    return [← predicate token (some field) declaration]
  else if ← nextIs operatorKinds then
    let found ← restrictions
    return [.field ⟨← close (.ofToken fieldToken), field, found⟩]
  else if declaration.isSome then return []
  else fail (.mismatchedSet (operatorKinds ++ [.symbol .arrow]) (← current))

def fieldHead : Parser (Option String × Token × String) := do
  let declaration ← bindingName
  let fieldToken ← current
  let field ← dottedName
  return (declaration, fieldToken, field)

def fieldBinding (token : Token) (field : String) :
    Option String → Parser (List Constraint)
  | none => return []
  | some name => do return [.binding (← close (.ofToken token)) field name]

/-- A field, its binding before it, and what follows it. The binding is kept even if the rest of
the constraint fails. -/
def boundField (found : List Constraint) (token : Token) : Parser (Harvest (List Constraint)) := do
  match ← attempt fieldHead with
  | .error e => return { found, failure := some e }
  | .ok (declaration, fieldToken, field) =>
    let binding ← fieldBinding token field declaration
    harvest (found ++ binding) (fieldConstraint token fieldToken field declaration) (· ++ ·)

def evalPredicate (token : Token) : Parser Constraint := do
  let _ ← advance
  predicate token none none

/-- One constraint after those already found: code in parentheses, with or without `eval`, or a
field. -/
def constraint (found : List Constraint) : Parser (Harvest (List Constraint)) := do
  let token ← current
  if token.kind = .symbol .lparen then
    harvest found (predicate token none none) fun found c => found ++ [c]
  else if token.kind = .keyword .eval && (← peek 1).kind = .symbol .lparen then
    harvest found (evalPredicate token) fun found c => found ++ [c]
  else boundField found token

/-- Constraints separated by commas, up to the first failure. -/
def constraints : Parser (Harvest (List Constraint)) := do
  if ← nextIsSymbol .rparen then return { found := [] }
  else
    let first ← constraint []
    repeatWhile first (fun h => do return h.failure.isNone && (← nextIsSymbol .comma)) fun h => do
      let _ ← advance
      constraint h.found

/-- Skips the rest of a broken constraint list, up to its closing parenthesis or to what follows the
pattern. -/
def recoverParen (e : ParseError) : Parser (Option Nat) := do
  recoverFrom e patternFollow
  if ← nextIsSymbol .rparen then return some (← advance).start else return none

/-- Where the closing parenthesis of a constraint list is, unless the list is broken or the
parenthesis is not there. -/
def rightParen (failure : Option ParseError) : Parser (Option Nat) := do
  match ← failure.elim (attempt (symbol .rparen)) fun e => pure (.error e) with
  | .ok token => return some token.start
  | .error e => recoverParen e

/-- A pattern without a data source. -/
def factPattern : Parser Pattern := do
  let start ← current
  let name ← bindingName
  let objectType ← dottedName
  let leftParen := (← symbol .lparen).start
  let body ← constraints
  let rightParen ← rightParen body.failure
  return ⟨← close (.ofToken start), objectType, name, body.found, .workingMemory, leftParen,
    rightParen⟩

end Rulebook.Parser
