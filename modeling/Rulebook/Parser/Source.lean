import Rulebook.Parser.Pattern

/-!
# Data sources

A pattern may draw its facts from an accumulation, a collection or an expression. `accumulate` and
`collect` are no reserved words: each form is tried first, and otherwise the words begin an
expression. Accumulations and collections hold patterns with sources of their own, so reading them
is given the production for the patterns within.
-/

namespace Rulebook.Parser

/-- An index in brackets: it goes to the field before it unless that has one already. -/
def Access.index (chain : List Access) (bracket : Token) (argument : String) (stop : Option Nat) :
    List Access :=
  match chain.getLast? with
  | some (.field l name none) => chain.dropLast ++ [.field (l.closeAt stop) name (some argument)]
  | _ => chain ++ [.field ((Location.ofToken bracket).closeAt stop) "" (some argument)]

/-- The code in parentheses, if there is any. -/
def arguments? : Parser (Option String) := do
  if ← nextIsSymbol .lparen then some <$> parenCode else return none

def Access.ofMember (location : Location) (name : String) : Option String → Access
  | some arguments => .method location name arguments
  | none => .field location name none

def indexAccess (chain : List Access) (bracket : Token) : Parser (List Access) := do
  let argument ← withoutDelimiters <$> squareChunk
  return Access.index chain bracket argument (← lastStop)

def memberAccess (chain : List Access) : Parser (List Access) := do
  let _ ← advance
  let member ← current
  let name ← name
  let arguments ← arguments?
  return chain ++ [Access.ofMember (← close (.ofToken member)) name.text arguments]

def access (chain : List Access) : Parser (List Access) := do
  let token ← current
  if token.kind = .symbol .lbracket then indexAccess chain token else memberAccess chain

/-- A source given by a name, its call, and a chain of accesses. -/
def retrieval : Parser Retrieval := do
  let start ← current
  let head ← name
  let arguments ← arguments?
  let chain ← repeatWhile [] (fun _ => nextIs [.symbol .dot, .symbol .lbracket]) access
  let location ← close (.ofToken start)
  let text := (← get).cursor.text (location.start.getD 0) (location.stop.getD 0)
  return ⟨location, ⟨location, head.text, arguments, chain⟩, text⟩

/-- What follows the opening parenthesis of an accumulation; `token` locates it. -/
def accumulateBody (pattern : Parser Pattern) (token : Token) : Parser Source := do
  let input ← nested .source pattern
  skip .comma
  let _ ← keyword .init
  let initCode ← parenCode
  skip .comma
  let _ ← keyword .action
  let actionCode ← parenCode
  skip .comma
  let _ ← keyword .result
  let resultCode ← parenCode
  let _ ← symbol .rparen
  return .accumulate (← close (.ofToken token)) input initCode actionCode resultCode

/-- An accumulation over the matches of a pattern. -/
def accumulate (pattern : Parser Pattern) : Parser Source := do
  let token ← keyword .accumulate
  let _ ← symbol .lparen
  accumulateBody pattern token

/-- What follows the opening parenthesis of a collection; `token` locates it. -/
def collectBody (pattern : Parser Pattern) (token : Token) : Parser Source := do
  let input ← nested .source pattern
  let _ ← symbol .rparen
  return .collect (← close (.ofToken token)) input

def collect (pattern : Parser Pattern) : Parser Source := do
  let token ← keyword .collect
  let _ ← symbol .lparen
  collectBody pattern token

def fromSource (pattern : Parser Pattern) : Parser Source := do
  let _ ← keyword .from_
  if ← nextIsKeyword .accumulate then
    if ← trial "accumulate" (accumulate pattern) then accumulate pattern
    else .retrieval <$> retrieval
  else if ← nextIsKeyword .collect then
    if ← trial "collect" (collect pattern) then collect pattern
    else .retrieval <$> retrieval
  else .retrieval <$> retrieval

def laterStop (a b : Option Nat) : Option Nat :=
  match a, b with
  | some m, some n => some (max m n)
  | some m, none => some m
  | none, b => b

def attachSource (p : Pattern) (source : Source) : Pattern :=
  { p with
    source
    location :=
      { p.location with stop := laterStop p.location.stop (source.location?.bind (·.stop)) } }

/-- A pattern and the source it may draw on, for a number of levels of sources within sources. -/
def patternWithin : Nat → Parser Pattern
  | 0 => throw .nestingTooDeep
  | levels + 1 => do
    let p ← factPattern
    if ← nextIsKeyword .from_ then
      return attachSource p (← fromSource (patternWithin levels))
    else return p

def sourcedPattern : Parser Pattern := do patternWithin (← levels)

end Rulebook.Parser
