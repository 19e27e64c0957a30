import Rulebook.Parser.Basic

/-!
# Names and types

Dotted names, types with generic arguments and array suffixes, import targets, and parameter lists.
No keyword is reserved, so each may be a part of a name.
-/

namespace Rulebook.Parser

def dottedName : Parser String := do
  let first ← name
  repeatWhile first.text (fun _ => nextIsSymbol .dot) fun text => do
    let _ ← advance
    let part ← name
    return text ++ "." ++ part.text

/-- Takes one token of generic arguments. The text so far goes with the number of pairs that are
open. -/
def genericRound : String × Nat → Parser (String × Nat)
  | (text, depth) => do
    let token ← current
    if token.kind = .endOfInput then fail (.mismatchedToken (.symbol .greater) token)
    let depth :=
      if token.kind = .symbol .less then depth + 1
      else if token.kind = .symbol .greater then depth - 1
      else depth
    let _ ← advance
    return (text ++ token.text, depth)

/-- Generic arguments: all tokens from `<` up to the `>` that balances it, written together. -/
def genericArguments : Parser String := do
  let opening ← advance
  let (text, _) ← repeatWhile (opening.text, 1) (fun (_, depth) => return depth ≠ 0) genericRound
  return text

/-- Appends a `[]` for each pair of brackets. -/
def arraySuffixes {α : Type} (first : α) (grow : α → α) : Parser α :=
  repeatWhile first (fun _ => nextIsSymbol .lbracket) fun a => do
    let _ ← advance
    let _ ← symbol .rbracket
    return grow a

/-- A type: a dotted name, generic arguments, array suffixes. -/
def typeName : Parser String := do
  let base ← dottedName
  let text ← if ← nextIsSymbol .less then (base ++ ·) <$> genericArguments else pure base
  arraySuffixes text (· ++ "[]")

/-- The name of a rule, query or template: a string or a name. -/
def title : Parser String := do
  let token ← current
  if token.kind = .literal .string then
    let _ ← advance
    return token.stringValue
  else if token.isName then
    let _ ← advance
    return token.text
  else fail (.mismatchedSet [.literal .string, .identifier] token)

/-- A dot and what follows it in an import target; nothing follows `*`. -/
def importPart : String × Bool → Parser (String × Bool)
  | (text, _) => do
    let _ ← advance
    let token ← current
    if token.kind = .misc ∧ token.text = "*" then
      let _ ← advance
      return (text ++ ".*", true)
    else
      let part ← name
      return (text ++ "." ++ part.text, false)

/-- An import target: a dotted name that may end in `.*`. -/
def importTarget : Parser String := do
  let first ← name
  let (text, _) ← repeatWhile (first.text, false)
    (fun (_, closed) => do return !closed && (← nextIsSymbol .dot)) importPart
  return text

/-- How far the pairs of brackets reach from the `n`-th token ahead; at most `fuel` pairs. -/
def afterBrackets : Nat → Nat → Parser Nat
  | 0, n => return n
  | fuel + 1, n => do
    if (← peek n).kind = .symbol .lbracket then
      if (← peek (n + 1)).kind = .symbol .rbracket then afterBrackets fuel (n + 2) else return n
    else return n

/-- The parameter has no type: its name and array suffixes end at a comma or parenthesis. -/
def isUntyped : Parser Bool := do
  if (← current).isName then
    let n ← afterBrackets ((← get).cursor.remaining + 1) 1
    return (← peek n).kind ∈ [TokenKind.symbol .comma, .symbol .rparen]
  else return false

/-- A parameter. Array suffixes after the name belong to its type, which is `Object` if none is
written. -/
def parameter : Parser Parameter := do
  let type ← if ← isUntyped then pure none else some <$> typeName
  let name ← name
  let type ← arraySuffixes type fun t => some (t.getD "Object" ++ "[]")
  return ⟨type, name.text⟩

def parameterList : Parser (List Parameter) := do
  let first ← parameter
  repeatWhile [first] (fun _ => nextIsSymbol .comma) fun ps => do
    let _ ← advance
    return ps ++ [← parameter]

def parameters : Parser (List Parameter) := do
  let _ ← symbol .lparen
  let found ← if ← nextIsSymbol .rparen then pure [] else parameterList
  let _ ← symbol .rparen
  return found

end Rulebook.Parser
