import Rulebook.Collector
import Rulebook.Cursor
import Rulebook.Text.Integer
import Rulebook.Trace
import Rulebook.Tree.Package

/-!
# Productions and their state

A production reads tokens from the cursor and builds a part of the tree. It ends with a value or
with a failure; either way the state goes on from where it stopped, so that recovery can skip what
is broken. During a trial nothing is reported and nothing enters the package, and the cursor returns
to its place afterwards.

Repetitions are bounded by the tokens that remain, because each round consumes one. A production
that leads back to itself takes frames of a stack for that, and how many frames the stack has is up
to the machine: the source nests too deep where there are too few. Productions that do not lead back
to themselves are not counted.
-/

namespace Rulebook

/-- Why a production stopped. -/
inductive Failure where
  /-- The tokens do not match the grammar. -/
  | recognition (e : ParseError)
  /-- An integer has more digits than `Text.digitLimit`. -/
  | tooManyDigits (digits : Nat)
  /-- The source nests deeper than the stack has frames for. -/
  | nestingTooDeep
  /-- The cursor could not do what was asked of it. -/
  | cursor (f : Cursor.Fault)
  deriving DecidableEq, Repr

/-- The stack of a parse: how many frames it has, and how many of them are left. -/
structure Parser.Stack where
  frames : Nat
  room : Nat
  room_le : room ≤ frames
  deriving DecidableEq, Repr

def Parser.Stack.ofFrames (frames : Nat) : Stack := ⟨frames, frames, Nat.le_refl _⟩

structure Parser.State where
  cursor : Cursor
  collector : Collector
  stack : Stack
  package : Package := {}
  trials : Nat := 0
  ruleName : Option String := none
  lastRecovery : Option Nat := none
  events : List Event := []

/-- A production. -/
abbrev Parser := EStateM Failure Parser.State

namespace Parser

/-- Fails because the tokens do not match the grammar. -/
def fail {α : Type} (e : ParseError) : Parser α := throw (.recognition e)

/-! ### Looking and consuming -/

def current : Parser Token := do return (← get).cursor.current

def peek (n : Nat) : Parser Token := do return (← get).cursor.lookahead (n + 1)

def nextIs (kinds : List TokenKind) : Parser Bool := do return (← current).kind ∈ kinds

def nextIsSymbol (s : Symbol) : Parser Bool := do return (← current).kind = .symbol s

def nextIsKeyword (k : Keyword) : Parser Bool := do return (← current).kind = .keyword k

/-- Consumes the next token. Outside trials this ends the suppression of errors. -/
def advance : Parser Token := do
  let token ← current
  modify fun s =>
    { s with
      cursor := s.cursor.consume
      collector := if s.trials = 0 then s.collector.tokenMatched else s.collector }
  return token

def expect (kind : TokenKind) : Parser Token := do
  let token ← current
  if token.kind = kind then advance else fail (.mismatchedToken kind token)

def symbol (s : Symbol) : Parser Token := expect (.symbol s)

def keyword (k : Keyword) : Parser Token := expect (.keyword k)

def accept (kind : TokenKind) : Parser (Option Token) := do
  if (← current).kind = kind then return some (← advance) else return none

def skip (s : Symbol) : Parser Unit := do
  let _ ← accept (.symbol s)

/-- Consumes a name: an identifier or any keyword. -/
def name : Parser Token := do
  let token ← current
  if token.isName then advance else fail (.mismatchedToken .identifier token)

/-- Where the most recently consumed token ends. -/
def lastStop : Parser (Option Nat) := do return (← get).cursor.previous.map (·.stop)

/-- Closes a location at the most recently consumed token. -/
def close (l : Location) : Parser Location := do return l.closeAt (← lastStop)

/-! ### Repetition -/

/-- Repeats `body` as long as `more` holds, for at most the given number of rounds. -/
def rounds {α : Type} (more : α → Parser Bool) (body : α → Parser α) : Nat → α → Parser α
  | 0, a => return a
  | n + 1, a => do
    if ← more a then rounds more body n (← body a) else return a

/-- Repeats `body` as long as `more` holds. Each round has to consume a token, so that the rounds
are bounded by the tokens that remain. -/
def repeatWhile {α : Type} (first : α) (more : α → Parser Bool) (body : α → Parser α) :
    Parser α := do
  rounds more body ((← get).cursor.remaining + 1) first

/-! ### Productions within productions -/

/-- How a production leads back to itself. -/
inductive Nesting where
  /-- The operand of `exists` or `not`. -/
  | operand
  /-- A condition in parentheses. -/
  | group
  /-- An operand of a connective that stands in front. -/
  | prefixed
  /-- The pattern of an accumulation or a collection. -/
  | source
  /-- Embedded code within embedded code. -/
  | code
  deriving DecidableEq, Repr

/-- The frames that it takes, one for each production on the way. -/
def Nesting.frames : Nesting → Nat
  | code => 1
  | operand | prefixed => 2
  | group | source => 4

def Stack.take (k : Stack) (n : Nesting) : Stack where
  frames := k.frames
  room := k.room - n.frames
  room_le := Nat.le_trans (Nat.sub_le ..) k.room_le

/-- Runs a production within another. The frames that this takes are free again however it ends. -/
def nested {α : Type} (n : Nesting) (p : Parser α) : Parser α := fun s =>
  if n.frames ≤ s.stack.room then
    match p { s with stack := s.stack.take n } with
    | .ok a t => .ok a { t with stack := s.stack }
    | .error f t => .error f { t with stack := s.stack }
  else .error .nestingTooDeep s

/-- How many levels of nesting the stack could have at most: each takes a frame. -/
def levels : Parser Nat := do return (← get).stack.frames + 1

/-! ### Failures -/

/-- Runs a production; a failure to recognise becomes a value. -/
def attempt {α : Type} (p : Parser α) : Parser (Except ParseError α) := fun s =>
  match p s with
  | .ok a t => .ok (.ok a) t
  | .error (.recognition e) t => .ok (.error e) t
  | .error f t => .error f t

/-- Runs a production and changes the state however it ends. -/
def ensuring {α : Type} (p : Parser α) (after : State → State) : Parser α := fun s =>
  match p s with
  | .ok a t => .ok a (after t)
  | .error f t => .error f (after t)

/-- What a production built, and the failure that stopped it, if any. What was built before a
failure is kept. -/
structure Harvest (α : Type) where
  found : α
  failure : Option ParseError := none

/-- Goes on with what was built, unless a failure stopped it. -/
def Harvest.andThen {α : Type} (h : Harvest α) (next : α → Parser (Harvest α)) :
    Parser (Harvest α) :=
  match h.failure with
  | none => next h.found
  | some _ => return h

/-- What was built with what a production gave added to it; its failure stops the harvest. -/
def Harvest.ofResult {α β : Type} (found : α) (add : α → β → α) : Except ParseError β → Harvest α
  | .ok b => { found := add found b }
  | .error e => { found, failure := some e }

/-- Adds what a production gives to what was built. -/
def harvest {α β : Type} (found : α) (p : Parser β) (add : α → β → α) : Parser (Harvest α) :=
  Harvest.ofResult found add <$> attempt p

/-! ### Visibility of trivia -/

/-- Sets the visibility of trivia and saves the one before. -/
def pushTrivia (visible : Bool) : Parser Unit :=
  modify fun s => { s with cursor := s.cursor.pushTrivia visible }

/-- Restores the visibility of trivia saved last. -/
def popTrivia : Parser Unit := do
  match (← get).cursor.popTrivia? with
  | .error f => throw (.cursor f)
  | .ok cursor => modify fun s => { s with cursor }

/-- Runs a production with trivia visible. The visibility before it is restored however it ends; a
fault in that takes the place of its outcome. -/
def withTrivia {α : Type} (p : Parser α) : Parser α := do
  pushTrivia true
  fun s =>
    match p s with
    | .ok a t => (do popTrivia; return a : Parser α) t
    | .error f t => (do popTrivia; throw f : Parser α) t

/-! ### Reports and recovery -/

def note (e : Event) : Parser Unit := modify fun s => { s with events := e :: s.events }

def inTrial : Parser Bool := do return 0 < (← get).trials

def report (e : ParseError) : Parser Unit := do
  if ← inTrial then return
  if (← get).collector.recovering then note (.suppressed e.message)
  modify fun s => { s with collector := s.collector.report e s.ruleName }

/-- Reports a remark about a token. Trials are silent. -/
def remark (message : String) (token : Token) : Parser Unit := do
  if ← inTrial then return
  modify fun s => { s with collector := s.collector.remark message token s.ruleName }

/-- Skips tokens up to one of the given kinds. A second recovery at the same place first consumes a
token, so that recovery always makes progress. -/
def recover (kinds : List TokenKind) : Parser Unit := do
  modify fun s =>
    if s.lastRecovery = some s.cursor.index then { s with cursor := s.cursor.consume } else s
  modify fun s => { s with lastRecovery := some s.cursor.index }
  let s ← get
  let (cursor, skipped) := s.cursor.skipUntil kinds 0
  set { s with cursor }
  if 0 < skipped then
    let token ← current
    note (.resynchronised s.collector.sourceName token.line token.column skipped)

/-- Reports a failure and skips to one of the given kinds. During a trial the failure goes on. -/
def recoverFrom (e : ParseError) (kinds : List TokenKind) : Parser Unit := do
  if ← inTrial then fail e
  report e
  recover kinds

/-! ### Trials -/

/-- Whether a production would succeed here. The cursor returns to its place, however the trial
ends. Trials may nest. -/
def trial {α : Type} (alternative : String) (p : Parser α) : Parser Bool := fun s =>
  let restore (t : State) : State :=
    { t with trials := t.trials - 1, cursor := t.cursor.rewind s.cursor.index }
  match p { s with trials := s.trials + 1 } with
  | .ok _ t => .ok true (restore t)
  | .error (.recognition e) t =>
    .ok false (restore { t with events := .trialFailed alternative e.message :: t.events })
  | .error f t => .error f (restore t)

def declare (change : Package → Package) : Parser Unit := do
  if ← inTrial then return
  modify fun s => { s with package := change s.package }

/-! ### Sets of kinds -/

def statementStart : List TokenKind :=
  [.keyword .package, .keyword .import_, .keyword .global, .keyword .function, .keyword .template,
   .keyword .rule, .keyword .query]

/-- Where reading goes on after an error in a rule or query. -/
def ruleFollow : List TokenKind := statementStart

/-- Where reading goes on after an error in a condition. -/
def conditionFollow : List TokenKind := statementStart ++ [.keyword .then_, .keyword .end_]

/-- Where reading goes on after an error in a constraint list. -/
def patternFollow : List TokenKind := conditionFollow ++ [.symbol .rparen]

def attributeKinds : List TokenKind :=
  [.keyword .salience, .keyword .noLoop, .keyword .autoFocus, .keyword .agendaGroup,
   .keyword .activationGroup, .keyword .ruleflowGroup, .keyword .duration, .keyword .dialect,
   .keyword .lockOnActive, .keyword .enabled, .keyword .dateEffective, .keyword .dateExpires]

end Parser

end Rulebook
