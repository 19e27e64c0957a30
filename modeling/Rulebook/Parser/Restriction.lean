import Rulebook.Parser.Chunk
import Rulebook.Parser.Name

/-!
# Restrictions

A restriction is an operator and a value. `in (a, b)` stands for equality with one of the values,
and becomes several restrictions joined by connectives.
-/

namespace Rulebook.Parser

def comparisonKinds : List TokenKind :=
  [.symbol .equal, .symbol .notEqual, .symbol .greater, .symbol .greaterEqual, .symbol .less,
   .symbol .lessEqual]

/-- Operators that may follow `not`. -/
def negatableKinds : List TokenKind :=
  [.keyword .contains, .keyword .excludes, .keyword .matches_, .keyword .soundslike,
   .keyword .memberOf]

/-- What a restriction may begin with. -/
def operatorKinds : List TokenKind :=
  comparisonKinds ++ negatableKinds ++ [.keyword .not, .keyword .in_]

def connective? : TokenKind → Option Connective
  | .symbol .amper | .symbol .doubleAmper | .keyword .and => some .and
  | .symbol .pipe | .symbol .doublePipe | .keyword .or => some .or
  | _ => none

def literalType : Literal → LiteralType
  | .string => .string
  | .int | .float => .number
  | .bool => .boolean
  | .null => .null

/-- The value side of a restriction; `token` locates the restriction. A literal, code in
parentheses, a dotted enumeration constant, or a variable. -/
def restrictionValue (operator : String) (token : Token) : Parser Restriction := do
  let value ← current
  match value.kind with
  | .literal l =>
    let _ ← advance
    let text := if l = .string then value.stringValue else value.text
    return .literal (← close (.ofToken token)) operator text (literalType l)
  | .symbol .lparen =>
    let code ← parenCode
    checkSemicolon code value
    return .returnValue (← close (.ofToken token)) operator code
  | _ =>
    if value.isName then
      if (← peek 1).kind = .symbol .dot then
        let text ← dottedName
        return .literal (← close (.ofToken token)) operator text .enum
      else
        let _ ← advance
        return .reference (← close (.ofToken token)) operator value.text
    else fail (.noViableAlternative "restriction value" value)

def connectiveAt (c : Connective) (token : Token) : Restriction :=
  .connective { Location.ofToken token with stop := some token.stop } c

/-- A list of values in parentheses, each compared by `operator`; the connectives between them are
located at the commas. -/
def valueList (operator : String) (c : Connective) : Parser (List Restriction) := do
  let _ ← symbol .lparen
  let first ← restrictionValue operator (← current)
  let found ← repeatWhile [first] (fun _ => nextIsSymbol .comma) fun found => do
    let comma ← advance
    let next ← restrictionValue operator (← current)
    return found ++ [connectiveAt c comma, next]
  let _ ← symbol .rparen
  return found

/-- An operator and its value; a value list gives several restrictions. -/
def restriction : Parser (List Restriction) := do
  let token ← current
  if token.kind ∈ comparisonKinds ++ negatableKinds then
    let _ ← advance
    return [← restrictionValue token.text token]
  else if token.kind = .keyword .in_ then
    let _ ← advance
    valueList "==" .or
  else if token.kind = .keyword .not then
    let _ ← advance
    let operator ← current
    if operator.kind = .keyword .in_ then
      let _ ← advance
      valueList "!=" .and
    else if operator.kind ∈ negatableKinds then
      let _ ← advance
      return [← restrictionValue ("not " ++ operator.text) token]
    else fail (.mismatchedSet (negatableKinds ++ [.keyword .in_]) operator)
  else fail (.mismatchedSet operatorKinds token)

def connectedRestriction : Parser (List Restriction) := do
  let _ ← advance
  restriction

/-- A connective and the restriction after it, if there is one; else the list ends before the
connective. -/
def joinedRestriction : List Restriction × Bool → Parser (List Restriction × Bool)
  | (found, _) => do
    match connective? (← current).kind with
    | none => return (found, false)
    | some c =>
      if ← trial "restriction connective" connectedRestriction then
        let token ← advance
        return (found ++ connectiveAt c token :: (← restriction), true)
      else return (found, false)

/-- Restrictions joined by connectives. A connective belongs to the list only if a restriction
follows it. -/
def restrictions : Parser (List Restriction) := do
  let first ← restriction
  let (found, _) ← repeatWhile (first, true)
    (fun (_, open_) => do return open_ && (connective? (← current).kind).isSome) joinedRestriction
  return found

end Rulebook.Parser
