import Rulebook.Parser.Source

/-!
# Conditions

Loosest first: `or`, `and`, then single conditions. A group node is made only for a second operand,
so a single operand stands for itself, and parentheses make no node. Groups hold conditions again,
so reading them is given the productions for what is within.
-/

namespace Rulebook.Parser

/-- The spellings of disjunction. -/
def orKinds : List TokenKind := [.keyword .or, .symbol .doublePipe]

/-- The spellings of conjunction. -/
def andKinds : List TokenKind := [.keyword .and, .symbol .doubleAmper]

/-- A group over operands, from the start of the first to the end of the last; a single operand
stands for itself. -/
def join (kind : Grouping) (first : Condition) (others : List Condition) : Condition :=
  match others.getLast? with
  | none => first
  | some last =>
    .group kind { first.location with stop := last.location.stop } (first :: others)

def infixGroup (kind : Grouping) (connectives : List TokenKind) (operand : Parser Condition) :
    Parser Condition := do
  let first ← operand
  let others ← repeatWhile [] (fun _ => nextIs connectives) fun others => do
    let _ ← advance
    return others ++ [← operand]
  return join kind first others

def disjunction (single : Parser Condition) : Parser Condition :=
  infixGroup .or orKinds (infixGroup .and andKinds single)

/-- A connective and its operands, up to the closing parenthesis. -/
def prefixGroup (single : Parser Condition) : Parser Condition := do
  let connective ← advance
  let operands ← repeatWhile []
    (fun _ => do return !(← nextIs [.symbol .rparen, .endOfInput]))
    fun operands => do return operands ++ [← single]
  match operands with
  | [] => fail (.earlyExit ("prefix '" ++ connective.text ++ "'") (← current))
  | first :: others =>
    let _ ← symbol .rparen
    return join (if connective.kind = .keyword .or then .or else .and) first others

/-- Conditions in parentheses: a disjunction, or a connective and its operands. -/
def parenthesised (single : Parser Condition) : Parser Condition := do
  let _ ← symbol .lparen
  if ← nextIs [.keyword .or, .keyword .and] then prefixGroup (nested .prefixed single)
  else
    let condition ← disjunction (nested .group single)
    let _ ← symbol .rparen
    return condition

def operand (single : Parser Condition) : Parser Condition := do
  if ← nextIsSymbol .lparen then parenthesised single else .pattern <$> sourcedPattern

def unaryGroup (k : Keyword) (kind : Grouping) (single : Parser Condition) : Parser Condition := do
  let token ← keyword k
  let condition ← nested .operand (operand single)
  return .group kind (← close (.ofToken token)) [condition]

def evalCondition : Parser Condition := do
  let token ← keyword .eval
  let code ← parenCode
  checkSemicolon code token
  return .eval (← close (.ofToken token)) code

/-- A universal condition: a base pattern and at least one more. -/
def forallCondition : Parser Condition := do
  let token ← keyword .forall_
  let _ ← symbol .lparen
  let base ← factPattern
  let patterns ← repeatWhile [base]
    (fun _ => do return !(← nextIs [.symbol .rparen, .endOfInput]))
    fun patterns => do
      skip .comma
      return patterns ++ [← factPattern]
  if patterns.length < 2 then fail (.earlyExit "forall" (← current))
  let _ ← symbol .rparen
  return .group .forall_ (← close (.ofToken token)) (patterns.map .pattern)

def singleCondition (single : Parser Condition) : Parser Condition := do
  let token ← current
  let condition ←
    if token.kind = .keyword .exists_ then unaryGroup .exists_ .exists_ single
    else if token.kind = .keyword .not then unaryGroup .not .not single
    else if token.kind = .keyword .eval then evalCondition
    else if token.kind = .keyword .forall_ then forallCondition
    else if token.kind = .symbol .lparen then parenthesised single
    else if token.isName then .pattern <$> sourcedPattern
    else fail (.noViableAlternative "conditional element" token)
  skip .semicolon
  return condition

def conditionWithin : Nat → Parser Condition
  | 0 => throw .nestingTooDeep
  | levels + 1 => singleCondition (conditionWithin levels)

/-- A single condition, possibly followed by a semicolon. -/
def condition : Parser Condition := do conditionWithin (← levels)

def conditions : Parser Condition := disjunction condition

/-- Where a block begins and ends: with its first and its last element, or else at the token before
it. -/
def blockLocation (anchor : Option Token) (elements : List Condition) : Location :=
  match elements.head?, elements.getLast? with
  | some first, some last => { first.location with stop := last.location.stop }
  | _, _ =>
    match anchor with
    | none => {}
    | some t =>
      { start := some t.stop, stop := some t.stop, line := some t.line, column := some t.column }

/-- Reads further conditions of a block. A broken one is reported and left out. -/
def blockElement (elements : List Condition) : Parser (List Condition) := do
  match ← attempt conditions with
  | .ok c => return elements ++ [c]
  | .error e => do
    recoverFrom e conditionFollow
    return elements

/-- The conditions of a rule or query, up to `then`, `end` or the next statement. Each is a place of
recovery. `anchor` is the token before the block. -/
def block (anchor : Option Token) : Parser Block := do
  let elements ← repeatWhile []
    (fun _ => do return !(← nextIs (.endOfInput :: conditionFollow))) blockElement
  return ⟨blockLocation anchor elements, elements⟩

end Rulebook.Parser
