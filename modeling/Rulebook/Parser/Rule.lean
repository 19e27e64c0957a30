import Rulebook.Parser.Condition

/-!
# Rules and queries

A rule or query is a place of recovery: after an error the rest of it is skipped up to the next
statement, and what was read of it enters the package.
-/

namespace Rulebook.Parser

def integer (text : String) : Parser Int := do
  let (negative, digits) := Text.minusOf text.toList
  if Text.digitLimit < digits.length then throw (.tooManyDigits digits.length)
  let n : Nat := digits.foldl (fun n d => 10 * n + (d.toNat - '0'.toNat)) 0
  return if negative then -n else n

def attributeValue (token : Token) : Parser AttributeValue := do
  if token.kind ∈ [.keyword .salience, .keyword .duration] then
    let value ← expect (.literal .int)
    return .number (← integer value.text)
  else if token.kind ∈
      [.keyword .noLoop, .keyword .autoFocus, .keyword .lockOnActive, .keyword .enabled] then
    match ← accept (.literal .bool) with
    | none => return .flag true
    | some value => return .flag (value.text = "true")
  else if token.kind ∈ attributeKinds then
    let value ← expect (.literal .string)
    return .text value.stringValue
  else fail (.mismatchedSet attributeKinds token)

def ruleAttribute : Parser Attribute := do
  let token ← advance
  let value ← attributeValue token
  return ⟨← close (.ofToken token), token.text, value⟩

def underName {α : Type} (name : String) (p : Parser α) : Parser α := do
  modify fun s => { s with ruleName := some name }
  ensuring p fun s => { s with ruleName := none }

/-- The word `attributes` and its colon, which may be left out together. -/
def attributesHead : Parser Unit := do
  if ← nextIsKeyword .attributes then
    let _ ← advance
    let _ ← symbol .colon

def addAttribute (h : Harvest Rule) : Parser (Harvest Rule) := do
  let h ← harvest h.found ruleAttribute fun rule a =>
    { rule with attributes := rule.attributes.put a }
  if h.failure.isNone then skip .comma
  return h

/-- The attributes before the conditions of a rule, up to the first failure. -/
def ruleAttributes (rule : Rule) : Parser (Harvest Rule) := do
  match ← attempt attributesHead with
  | .error e => return { found := rule, failure := some e }
  | .ok () =>
    repeatWhile { found := rule }
      (fun h => do return h.failure.isNone && (← nextIs attributeKinds)) addAttribute

def conditionBlock : Parser Block := do
  let anchor ← advance
  skip .colon
  block (some anchor)

def ruleConditions (rule : Rule) : Parser (Harvest Rule) := do
  if ← nextIsKeyword .when_ then
    harvest rule conditionBlock fun rule b => { rule with conditions := some b }
  else return { found := rule }

/-- The number of characters that are dropped at the beginning of a consequence: blanks and tabs, a
carriage return, a line feed. -/
def leadingBlanks (cs : List Char) : Nat :=
  let blanks := cs.takeWhile fun c => c == ' ' || c == '\t'
  let n := blanks.length
  let n := if (cs.drop n).head? = some '\r' then n + 1 else n
  if (cs.drop n).head? = some '\n' then n + 1 else n

def consequenceOf (opening : Token) (text : String) : Consequence :=
  let cs := text.toList
  let n := leadingBlanks cs
  let onNextLine := (cs.take n).contains '\n'
  { text := String.ofList (cs.drop n)
    location :=
      { start := some (opening.stop + n)
        stop := some (opening.stop + cs.length)
        line := some (if onNextLine then opening.line + 1 else opening.line)
        column := some (if onNextLine then 0 else opening.column + opening.text.length + n) } }

/-- All that stands before the next `end`, verbatim. There is no nesting. -/
def consequenceText : Parser String :=
  withTrivia do
    repeatWhile "" (fun _ => do return !(← nextIs [.keyword .end_, .endOfInput]))
      fun text => do return text ++ (← advance).text

def consequence : Parser Consequence := do
  let opening ← keyword .then_
  return consequenceOf opening (← consequenceText)

/-- The `end` of a rule or query, possibly followed by a semicolon. -/
def closing : Parser Unit := do
  let _ ← keyword .end_
  skip .semicolon

/-- The consequence up to its `end`. It is kept even if the `end` is missing. -/
def ruleConsequence (rule : Rule) : Parser (Harvest Rule) := do
  let captured ← harvest rule consequence fun rule c => { rule with consequence := c }
  captured.andThen fun rule => harvest rule closing fun rule _ => rule

def ruleBody (rule : Rule) : Parser (Harvest Rule) := do
  let h ← ruleAttributes rule
  let h ← h.andThen ruleConditions
  h.andThen ruleConsequence

/-- Reads the body of a rule or query under its name, recovers if it is broken, and closes the
location of what was read. -/
def recovering {α : Type} (name : String) (body : Parser (Harvest α)) (locate : α → Location → α)
    (location : Location) : Parser α :=
  underName name do
    let h ← body
    match h.failure with
    | some e => recoverFrom e ruleFollow
    | none => pure ()
    return locate h.found (← close location)

/-- A rule. The attributes of the package are its first attributes, so those written on the rule
replace them. -/
def ruleStatement : Parser Rule := do
  let token ← keyword .rule
  let name ← title
  let location := Location.ofToken token
  let attributes := (← get).package.attributes
  let rule ← recovering name (ruleBody { location, name, attributes })
    (fun rule location => { rule with location }) location
  if ← inTrial then return rule
  declare fun p => { p with rules := p.rules ++ [.rule rule] }
  note (.ruleRead name token.line)
  return rule

def queryParameters : Parser (List Parameter) := do
  if ← nextIsSymbol .lparen then parameters else return []

def queryBlock : Parser Block := do block (← get).cursor.previous

/-- What follows the name of a query: parameters if there are any, conditions, `end`. -/
def queryBody (query : Query) : Parser (Harvest Query) := do
  let h ← harvest query queryParameters fun query ps => { query with parameters := ps }
  let h ← h.andThen fun query =>
    harvest query queryBlock fun query b => { query with conditions := some b }
  h.andThen fun query => harvest query closing fun query _ => query

def queryStatement : Parser Query := do
  let token ← keyword .query
  let name ← title
  let location := Location.ofToken token
  let query ← recovering name (queryBody { location, name })
    (fun query location => { query with location }) location
  declare fun p => { p with rules := p.rules ++ [.query query] }
  return query

end Rulebook.Parser
