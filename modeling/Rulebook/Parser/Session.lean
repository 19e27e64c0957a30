import Rulebook.Parser.Production

/-!
# Sessions

A session runs single productions and cursor movements over one text and shows the state between
them. It keeps the nodes that the productions gave, so that one can be closed again later; a node
that has entered the package is then closed there.
-/

namespace Rulebook

namespace Node

def relocate (location : Location) : Node → Node
  | package p => package { p with location }
  | import_ i => import_ { i with location }
  | functionImport i => functionImport { i with location }
  | global g => global { g with location }
  | function f => function { f with location }
  | template t => template { t with location }
  | slot s => slot { s with location }
  | entry (.rule r) => entry (.rule { r with location })
  | entry (.query q) => entry (.query { q with location })
  | .attribute a => .attribute { a with location }
  | condition (.group kind _ operands) => condition (.group kind location operands)
  | condition (.eval _ code) => condition (.eval location code)
  | condition (.pattern p) => condition (.pattern { p with location })
  | source .workingMemory => source .workingMemory
  | source (.retrieval r) => source (.retrieval { r with location })
  | source (.accumulate _ input i a r) => source (.accumulate location input i a r)
  | source (.collect _ input) => source (.collect location input)
  | accessor a => accessor { a with location }
  | access (.field _ name argument) => access (.field location name argument)
  | access (.method _ name arguments) => access (.method location name arguments)
  | constraint (.field c) => constraint (.field { c with location })
  | constraint (.binding _ field name) => constraint (.binding location field name)
  | constraint (.predicate _ code field d) => constraint (.predicate location code field d)
  | restriction (.literal _ o t type) => restriction (.literal location o t type)
  | restriction (.reference _ o name) => restriction (.reference location o name)
  | restriction (.returnValue _ o code) => restriction (.returnValue location o code)
  | restriction (.connective _ c) => restriction (.connective location c)

end Node

namespace Session

/-- Where a node is kept: in the package, in one of its lists, or on its own. -/
inductive Handle where
  | package
  | import_ (index : Nat)
  | functionImport (index : Nat)
  | global (index : Nat)
  | function (index : Nat)
  | template (index : Nat)
  | entry (index : Nat)
  | detached (n : Node)

structure State where
  parser : Parser.State
  handles : List Handle := []

def State.ofParser (parser : Parser.State) : State := { parser }

/-- The handle of a node that was just read. Outside trials declarations have entered the package
at the end of their lists. -/
def handleOf (s : Parser.State) (n : Node) : Handle :=
  match n with
  | .package _ => .package
  | _ =>
    if 0 < s.trials then .detached n
    else match n with
      | .import_ _ => .import_ (s.package.imports.length - 1)
      | .functionImport _ => .functionImport (s.package.functionImports.length - 1)
      | .global _ => .global (s.package.globals.length - 1)
      | .function _ => .function (s.package.functions.length - 1)
      | .template _ => .template (s.package.templates.length - 1)
      | .entry _ => .entry (s.package.rules.length - 1)
      | n => .detached n

def Handle.node? (p : Package) : Handle → Option Node
  | .package => some (.package p)
  | .import_ i => p.imports[i]?.map .import_
  | .functionImport i => p.functionImports[i]?.map .functionImport
  | .global i => p.globals[i]?.map .global
  | .function i => p.functions[i]?.map .function
  | .template i => p.templates[i]?.map .template
  | .entry i => p.rules[i]?.map .entry
  | .detached n => some n

def Handle.put (s : State) (at_ : Nat) : Handle → Node → State
  | .package, .package p => { s with parser := { s.parser with package := p } }
  | .import_ i, .import_ x => change fun p => { p with imports := p.imports.set i x }
  | .functionImport i, .functionImport x =>
    change fun p => { p with functionImports := p.functionImports.set i x }
  | .global i, .global x => change fun p => { p with globals := p.globals.set i x }
  | .function i, .function x => change fun p => { p with functions := p.functions.set i x }
  | .template i, .template x => change fun p => { p with templates := p.templates.set i x }
  | .entry i, .entry x => change fun p => { p with rules := p.rules.set i x }
  | _, n => { s with handles := s.handles.set at_ (.detached n) }
where
  /-- Changes the package of the session. -/
  change (f : Package → Package) : State :=
    { s with parser := { s.parser with package := f s.parser.package } }

inductive Step where
  | call (p : Production)
  | block (anchored : Bool)
  | speculate (p : Production)
  | trial (steps : List Step)
  | current
  | peek (n : Nat)
  | advance
  | expect (kind : TokenKind)
  | accept (kind : TokenKind)
  | nextIs (kinds : List TokenKind)
  | nextIsName
  | recover (kinds : List TokenKind)
  | remark (message : String)
  | report (decision : String)
  | enterRule (name : Option String)
  | push (visible : Bool)
  | pop
  | close (index : Nat)
  deriving Inhabited

/-- What a step gives. -/
inductive Result where
  | outcome (o : Outcome)
  | token (t : Option Token)
  | flag (b : Bool)
  | trial (ok : Bool) (inner : List Result)
  | failure (f : Failure)

/-- A step in progress. -/
abbrev Running := EStateM Failure State

/-- Runs a production within a session. -/
def lift {α : Type} (p : Parser α) : Running α := fun s =>
  match p s.parser with
  | .ok a t => .ok a { s with parser := t }
  | .error f t => .error f { s with parser := t }

/-- A step that gives nothing. -/
def quiet (p : Parser Unit) : Running Result := do
  lift p
  return .outcome .nothing

/-- Closes the node that the `index`-th call gave at the most recently consumed token. -/
def closeNode (index : Nat) : Running Result := do
  let s ← get
  match s.handles[index]? with
  | none => return .outcome .nothing
  | some h =>
    match h.node? s.parser.package with
    | none => return .outcome .nothing
    | some n =>
      let n := n.relocate (n.location.closeAt (s.parser.cursor.previous.map (·.stop)))
      set (h.put s index n)
      return .outcome (.node n)

mutual

def step : Step → Running Result
  | .call p => do
    let o ← lift p.run
    match o with
    | .node n => modify fun s => { s with handles := s.handles ++ [handleOf s.parser n] }
    | _ => pure ()
    return .outcome o
  | .block anchored => do
    let s ← get
    let b ← lift (Parser.block (if anchored then s.parser.cursor.previous else none))
    return .outcome (.node (.condition b.condition))
  | .speculate p => .flag <$> lift (Parser.trial "" p.run)
  | .trial steps => fun s =>
    let restore (t : State) : State :=
      { t with
        parser :=
          { t.parser with
            trials := s.parser.trials
            cursor := t.parser.cursor.rewind s.parser.cursor.index } }
    match stepsUntilFailure steps
        { s with parser := { s.parser with trials := s.parser.trials + 1 } } with
    | (inner, none, t) => .ok (.trial true inner) (restore t)
    | (inner, some (.recognition _), t) => .ok (.trial false inner) (restore t)
    | (_, some f, t) => .error f (restore t)
  | .current => .token <$> some <$> lift Parser.current
  | .peek n => .token <$> some <$> lift (Parser.peek n)
  | .advance => .token <$> some <$> lift Parser.advance
  | .expect kind => .token <$> some <$> lift (Parser.expect kind)
  | .accept kind => .token <$> lift (Parser.accept kind)
  | .nextIs kinds => .flag <$> lift (Parser.nextIs kinds)
  | .nextIsName => do return .flag (← lift Parser.current).isName
  | .recover kinds => quiet (Parser.recover kinds)
  | .remark message => quiet do Parser.remark message (← Parser.current)
  | .report decision =>
    quiet do Parser.report (.noViableAlternative decision (← Parser.current))
  | .enterRule name => quiet (modify fun s => { s with ruleName := name })
  | .push visible => quiet (Parser.pushTrivia visible)
  | .pop => quiet Parser.popTrivia
  | .close index => closeNode index

def stepsUntilFailure : List Step → State → List Result × Option Failure × State
  | [], s => ([], none, s)
  | first :: rest, s =>
    match step first s with
    | .error f t => ([], some f, t)
    | .ok r t =>
      let (rs, f, u) := stepsUntilFailure rest t
      (r :: rs, f, u)

end

def run (first : Step) (s : State) : Result × State :=
  match step first s with
  | .ok r t => (r, t)
  | .error f t => (.failure f, t)

end Session

end Rulebook
