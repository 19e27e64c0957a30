import Rulebook.Parser.Unit
import Rulebook.Proofs.Deeper

/-!
# How productions are put together

Every production of the grammar is put together from a few primitives. They look at the cursor, the
package and the count of trials, and at nothing else of the state; they read tokens, report,
recover, note events and change the package. The stack matters for how deep they may be put
together, and for nothing else. So what is shown of the primitives and of the ways to put them
together is shown of a whole file by one induction.
-/

namespace Rulebook.Parser

set_option synthInstance.maxSize 100000

/-- A production made of primitives. -/
class inductive Composed : {α : Type} → Parser α → Prop where
  | done {α : Type} (a : α) : Composed (pure a)
  | stop {α : Type} (f : Failure) : Composed (throw f : Parser α)
  | look {α : Type} (view : Cursor → α) : Composed fun s => .ok (view s.cursor) s
  | byLevels {α : Type} (f : Nat → Parser α) (h : ∀ n, Composed (f n))
      (hf : ∀ {m n}, m ≤ n → Extends (f m) (f n)) : Composed (levels >>= f)
  | lookUp {α : Type} (view : Package → α) : Composed fun s => .ok (view s.package) s
  | inTrial : Composed inTrial
  | advance : Composed advance
  | bind {α β : Type} (p : Parser α) (f : α → Parser β) (h : Composed p)
      (h' : ∀ a, Composed (f a)) : Composed (p >>= f)
  | attempt {α : Type} (p : Parser α) (h : Composed p) : Composed (attempt p)
  | nested {α : Type} (n : Nesting) (p : Parser α) (h : Composed p) : Composed (nested n p)
  | withTrivia {α : Type} (p : Parser α) (h : Composed p) : Composed (withTrivia p)
  | underName {α : Type} (name : String) (p : Parser α) (h : Composed p) :
      Composed (underName name p)
  | note (e : Event) : Composed (note e)
  | report (e : ParseError) : Composed (report e)
  | remark (message : String) (token : Token) : Composed (remark message token)
  | recover (e : ParseError) (kinds : List TokenKind) : Composed (do report e; recover kinds)
  | change (f : Package → Package) : Composed fun s => .ok () (s.declared f)
  | trial {α : Type} (alternative : String) (p : Parser α) [Orderly p] (h : Composed p) :
      Composed (trial alternative p)
  | statementOrRecovery (h : Composed statement) : Composed statementOrRecovery

attribute [instance] Composed.done Composed.stop Composed.inTrial Composed.advance Composed.note
  Composed.report Composed.remark Composed.recover

namespace Composed

variable {α β : Type}

instance (p : Parser α) (f : α → Parser β) [h : Composed p] [h' : ∀ a, Composed (f a)] :
    Composed (p >>= f) :=
  .bind p f h h'

instance (p : Parser α) [h : Composed p] : Composed (Parser.attempt p) := .attempt p h

instance (n : Nesting) (p : Parser α) [h : Composed p] : Composed (Parser.nested n p) :=
  .nested n p h

instance (p : Parser α) [h : Composed p] : Composed (Parser.withTrivia p) := .withTrivia p h

instance (alternative : String) (p : Parser α) [Orderly p] [h : Composed p] :
    Composed (Parser.trial alternative p) :=
  .trial alternative p h

instance (e : ParseError) : Composed (fail e : Parser α) := .stop _

instance map (p : Parser α) (f : α → β) [Composed p] : Composed (f <$> p) := by
  rw [map_eq_bind]; infer_instance

instance (c : Prop) [Decidable c] (p q : Parser α) [Composed p] [Composed q] :
    Composed (if c then p else q) := by
  split <;> infer_instance

instance (o : Option α) (p : Parser β) (f : α → Parser β) [hp : Composed p]
    [hf : ∀ a, Composed (f a)] : Composed (o.elim p f) := by
  cases o with
  | none => exact hp
  | some a => exact hf a

theorem byCursor (f : Cursor → Parser α) [∀ c, Composed (f c)] :
    Composed (get >>= fun s => f s.cursor) :=
  .bind (fun s => .ok s.cursor s) f (.look id) fun _ => inferInstance

theorem byPackage (f : Package → Parser α) [∀ p, Composed (f p)] :
    Composed (get >>= fun s => f s.package) :=
  .bind (fun s => .ok s.package s) f (.lookUp id) fun _ => inferInstance

/-! ### Primitives -/

instance : Composed current := .look (·.current)

instance (n : Nat) : Composed (peek n) := .look (·.lookahead (n + 1))

instance (kinds : List TokenKind) : Composed (nextIs kinds) := by unfold nextIs; infer_instance

instance (s : Symbol) : Composed (nextIsSymbol s) := by unfold nextIsSymbol; infer_instance

instance (k : Keyword) : Composed (nextIsKeyword k) := by unfold nextIsKeyword; infer_instance

instance (kind : TokenKind) : Composed (expect kind) := by unfold expect; infer_instance

instance (s : Symbol) : Composed (symbol s) := by unfold symbol; infer_instance

instance (k : Keyword) : Composed (keyword k) := by unfold keyword; infer_instance

instance (kind : TokenKind) : Composed (accept kind) := by unfold accept; infer_instance

instance (s : Symbol) : Composed (skip s) := by unfold skip; infer_instance

instance : Composed name := by unfold name; infer_instance

instance : Composed lastStop := .look fun c : Cursor => c.previous.map Token.stop

instance (l : Location) : Composed (close l) := by unfold close; infer_instance

instance rounds (more : α → Parser Bool) (body : α → Parser α) [∀ a, Composed (more a)]
    [∀ a, Composed (body a)] (n : Nat) (a : α) : Composed (rounds more body n a) := by
  induction n generalizing a with
  | zero => unfold Parser.rounds; infer_instance
  | succ n ih => unfold Parser.rounds; infer_instance

instance repeatWhile (first : α) (more : α → Parser Bool) (body : α → Parser α)
    [∀ a, Composed (more a)] [∀ a, Composed (body a)] : Composed (repeatWhile first more body) :=
  byCursor fun c => Parser.rounds more body (c.remaining + 1) first

instance (h : Harvest α) (next : α → Parser (Harvest α)) [∀ a, Composed (next a)] :
    Composed (h.andThen next) := by
  unfold Harvest.andThen; split <;> infer_instance

instance harvest (found : α) (p : Parser β) (add : α → β → α) [Composed p] :
    Composed (harvest found p add) := by
  unfold Parser.harvest; infer_instance

instance (e : ParseError) (kinds : List TokenKind) : Composed (recoverFrom e kinds) := by
  unfold recoverFrom; infer_instance

instance (change : Package → Package) : Composed (declare change) := by
  unfold declare
  refine .bind _ _ .inTrial fun running => ?_
  split
  · exact .done ()
  · exact .change change

/-! ### Names, types and code -/

instance : Composed dottedName := by unfold dottedName; infer_instance

instance (x : String × Nat) : Composed (genericRound x) := by unfold genericRound; infer_instance

instance : Composed genericArguments := by unfold genericArguments; infer_instance

instance (first : α) (grow : α → α) : Composed (arraySuffixes first grow) := by
  unfold arraySuffixes; infer_instance

instance : Composed typeName := by unfold typeName; infer_instance

instance : Composed title := by unfold title; infer_instance

instance (x : String × Bool) : Composed (importPart x) := by unfold importPart; infer_instance

instance : Composed importTarget := by unfold importTarget; infer_instance

instance afterBrackets (fuel n : Nat) : Composed (afterBrackets fuel n) := by
  induction fuel generalizing n with
  | zero => unfold Parser.afterBrackets; infer_instance
  | succ fuel ih => unfold Parser.afterBrackets; infer_instance

instance : Composed isUntyped := by
  unfold isUntyped
  refine .bind _ _ inferInstance fun token => ?_
  split
  · exact byCursor fun c => do
      let n ← Parser.afterBrackets (c.remaining + 1) 1
      return decide ((← peek n).kind ∈ [TokenKind.symbol .comma, .symbol .rparen])
  · infer_instance

instance : Composed parameter := by unfold parameter; infer_instance

instance : Composed parameterList := by unfold parameterList; infer_instance

instance : Composed parameters := by unfold parameters; infer_instance

instance (opening closing : Symbol) (stops : List Symbol) (inner : Parser String) [Composed inner]
    (x : String × Bool) : Composed (chunkPart opening closing stops inner x) := by
  unfold chunkPart; infer_instance

instance chunkWithin (opening closing : Symbol) (stops : List Symbol) (levels : Nat) :
    Composed (chunkWithin opening closing stops levels) := by
  induction levels with
  | zero => unfold Parser.chunkWithin; infer_instance
  | succ levels ih => unfold Parser.chunkWithin; infer_instance

instance (opening closing : Symbol) (stops : List Symbol) :
    Composed (chunk opening closing stops) :=
  .byLevels _ (chunkWithin opening closing stops) (Extends.chunkWithin opening closing stops)

instance : Composed parenChunk := by unfold parenChunk; infer_instance

instance : Composed curlyChunk := by unfold curlyChunk; infer_instance

instance : Composed squareChunk := by unfold squareChunk; infer_instance

instance : Composed parenCode := by unfold parenCode; infer_instance

instance (code : String) (token : Token) : Composed (checkSemicolon code token) := by
  unfold checkSemicolon; infer_instance

/-! ### Patterns -/

instance (operator : String) (token : Token) : Composed (restrictionValue operator token) := by
  unfold restrictionValue
  refine .bind _ _ inferInstance fun value => ?_
  dsimp only
  split <;> infer_instance

instance (operator : String) (c : Connective) : Composed (valueList operator c) := by
  unfold valueList; infer_instance

instance : Composed restriction := by unfold restriction; infer_instance

instance : Composed connectedRestriction := by unfold connectedRestriction; infer_instance

instance (x : List Restriction × Bool) : Composed (joinedRestriction x) := by
  unfold joinedRestriction
  refine .bind _ _ inferInstance fun token => ?_
  split <;> infer_instance

instance : Composed restrictions := by unfold restrictions; infer_instance

instance (token : Token) (field declaration : Option String) :
    Composed (predicate token field declaration) := by
  unfold predicate; infer_instance

instance : Composed bindingName := by unfold bindingName; infer_instance

instance (token fieldToken : Token) (field : String) (declaration : Option String) :
    Composed (fieldConstraint token fieldToken field declaration) := by
  unfold fieldConstraint; infer_instance

instance : Composed fieldHead := by unfold fieldHead; infer_instance

instance (token : Token) (field : String) (declaration : Option String) :
    Composed (fieldBinding token field declaration) := by
  cases declaration <;> unfold fieldBinding <;> infer_instance

instance (found : List Constraint) (token : Token) : Composed (boundField found token) := by
  unfold boundField
  refine .bind _ _ inferInstance fun head => ?_
  cases head <;> infer_instance

instance (token : Token) : Composed (evalPredicate token) := by
  unfold evalPredicate; infer_instance

instance (found : List Constraint) : Composed (constraint found) := by
  unfold constraint; infer_instance

instance : Composed constraints := by unfold constraints; infer_instance

instance (e : ParseError) : Composed (recoverParen e) := by unfold recoverParen; infer_instance

instance (failure : Option ParseError) : Composed (rightParen failure) := by
  unfold rightParen
  refine .bind _ _ inferInstance fun closed => ?_
  cases closed <;> infer_instance

instance : Composed factPattern := by unfold factPattern; infer_instance

/-! ### Sources -/

instance : Composed arguments? := by unfold arguments?; infer_instance

instance (chain : List Access) (bracket : Token) : Composed (indexAccess chain bracket) := by
  unfold indexAccess; infer_instance

instance (chain : List Access) : Composed (memberAccess chain) := by
  unfold memberAccess; infer_instance

instance (chain : List Access) : Composed (access chain) := by unfold access; infer_instance

instance : Composed retrieval := by
  unfold retrieval
  refine .bind _ _ inferInstance fun start => .bind _ _ inferInstance fun head =>
    .bind _ _ inferInstance fun arguments => .bind _ _ inferInstance fun chain =>
      .bind _ _ inferInstance fun location => ?_
  exact byCursor fun c => (pure ⟨location, ⟨location, head.text, arguments, chain⟩,
    c.text (location.start.getD 0) (location.stop.getD 0)⟩ : Parser Retrieval)

section Within

variable (pattern : Parser Pattern) [Orderly pattern] [Composed pattern]

instance (token : Token) : Composed (accumulateBody pattern token) := by
  unfold accumulateBody; infer_instance

instance : Composed (accumulate pattern) := by unfold accumulate; infer_instance

instance (token : Token) : Composed (collectBody pattern token) := by
  unfold collectBody; infer_instance

instance : Composed (collect pattern) := by unfold collect; infer_instance

instance : Composed (fromSource pattern) := by unfold fromSource; infer_instance

end Within

instance patternWithin (levels : Nat) : Composed (patternWithin levels) := by
  induction levels with
  | zero => unfold Parser.patternWithin; infer_instance
  | succ levels ih => unfold Parser.patternWithin; infer_instance

instance : Composed sourcedPattern := .byLevels _ patternWithin Extends.patternWithin

/-! ### Conditions -/

instance (kind : Grouping) (connectives : List TokenKind) (operand : Parser Condition)
    [Composed operand] : Composed (infixGroup kind connectives operand) := by
  unfold infixGroup; infer_instance

section Single

variable (single : Parser Condition) [Composed single]

instance : Composed (disjunction single) := by unfold disjunction; infer_instance

instance : Composed (prefixGroup single) := by
  unfold prefixGroup
  refine .bind _ _ inferInstance fun connective => .bind _ _ inferInstance fun operands => ?_
  cases operands <;> infer_instance

instance : Composed (parenthesised single) := by unfold parenthesised; infer_instance

instance : Composed (operand single) := by unfold operand; infer_instance

instance (k : Keyword) (kind : Grouping) : Composed (unaryGroup k kind single) := by
  unfold unaryGroup; infer_instance

instance : Composed evalCondition := by unfold evalCondition; infer_instance

instance : Composed forallCondition := by unfold forallCondition; infer_instance

instance : Composed (singleCondition single) := by unfold singleCondition; infer_instance

end Single

instance conditionWithin (levels : Nat) : Composed (conditionWithin levels) := by
  induction levels with
  | zero => unfold Parser.conditionWithin; infer_instance
  | succ levels ih => unfold Parser.conditionWithin; infer_instance

instance : Composed condition := .byLevels _ conditionWithin Extends.conditionWithin

instance : Composed conditions := by unfold conditions; infer_instance

instance (elements : List Condition) : Composed (blockElement elements) := by
  unfold blockElement
  refine .bind _ _ inferInstance fun r => ?_
  cases r <;> infer_instance

instance (anchor : Option Token) : Composed (block anchor) := by unfold block; infer_instance

/-! ### Rules and queries -/

instance (text : String) : Composed (integer text) := by unfold integer; infer_instance

instance (token : Token) : Composed (attributeValue token) := by
  unfold attributeValue
  split
  · infer_instance
  · split
    · refine .bind _ _ inferInstance fun flag => ?_
      cases flag <;> infer_instance
    · infer_instance

instance : Composed ruleAttribute := by unfold ruleAttribute; infer_instance

instance (h : Harvest Rule) : Composed (addAttribute h) := by unfold addAttribute; infer_instance

instance : Composed attributesHead := by unfold attributesHead; infer_instance

instance (rule : Rule) : Composed (ruleAttributes rule) := by
  unfold ruleAttributes
  refine .bind _ _ inferInstance fun head => ?_
  rcases head with e | ⟨⟩ <;> dsimp only <;> infer_instance

instance : Composed conditionBlock := by unfold conditionBlock; infer_instance

instance (rule : Rule) : Composed (ruleConditions rule) := by
  unfold ruleConditions; infer_instance

instance : Composed consequenceText := by unfold consequenceText; infer_instance

instance : Composed consequence := by unfold consequence; infer_instance

instance : Composed closing := by unfold closing; infer_instance

instance (rule : Rule) : Composed (ruleConsequence rule) := by
  unfold ruleConsequence; infer_instance

instance (rule : Rule) : Composed (ruleBody rule) := by unfold ruleBody; infer_instance

instance recovering (name : String) (body : Parser (Harvest α)) (locate : α → Location → α)
    (location : Location) [Composed body] : Composed (recovering name body locate location) := by
  unfold Parser.recovering
  refine .underName _ _ (.bind _ _ inferInstance fun h => ?_)
  cases h.failure <;> infer_instance

instance : Composed ruleStatement := by
  unfold ruleStatement
  refine .bind _ _ inferInstance fun token => .bind _ _ inferInstance fun name => ?_
  exact byPackage fun p => do
    let rule ← Parser.recovering name
      (ruleBody { location := .ofToken token, name, attributes := p.attributes })
      (fun rule location => { rule with location }) (.ofToken token)
    if ← Parser.inTrial then return rule
    declare fun p => { p with rules := p.rules ++ [.rule rule] }
    Parser.note (.ruleRead name token.line)
    return rule

instance : Composed queryParameters := by unfold queryParameters; infer_instance

instance : Composed queryBlock := byCursor fun c => block c.previous

instance (query : Query) : Composed (queryBody query) := by unfold queryBody; infer_instance

instance : Composed queryStatement := by unfold queryStatement; infer_instance

/-! ### Declarations and statements -/

instance (duplicate : Bool) : Composed (packageStatement duplicate) := by
  unfold packageStatement
  refine .bind _ _ inferInstance fun token => .bind _ _ inferInstance fun name =>
    .bind _ _ inferInstance fun _ => ?_
  split
  · infer_instance
  · exact .change fun p => { p with name }

instance : Composed importStatement := by unfold importStatement; infer_instance

instance : Composed functionImport := by unfold functionImport; infer_instance

instance : Composed globalStatement := by unfold globalStatement; infer_instance

instance : Composed returnType? := by unfold returnType?; infer_instance

instance : Composed functionStatement := by
  unfold functionStatement
  refine .bind _ _ inferInstance fun token => .bind _ _ inferInstance fun returnType =>
    .bind _ _ inferInstance fun name => .bind _ _ inferInstance fun parameters =>
      .bind _ _ inferInstance fun body => ?_
  exact byPackage fun p => do
    let node : Function :=
      ⟨← close (.ofToken token), name.text, returnType, parameters, withoutDelimiters body,
        dialectOf p.attributes⟩
    declare fun p => { p with functions := p.functions ++ [node] }
    return node

instance : Composed slot := by unfold slot; infer_instance

instance : Composed templateStatement := by unfold templateStatement; infer_instance

instance : Composed statement := by
  unfold statement
  refine .bind _ _ inferInstance fun token => ?_
  split <;> infer_instance

/-! ### Files -/

instance : Composed Parser.statementOrRecovery := .statementOrRecovery inferInstance

instance (p : Parser Unit) [Composed p] : Composed (headOrRecovery p) := by
  unfold headOrRecovery
  refine .bind _ _ inferInstance fun r => ?_
  cases r <;> infer_instance

instance : Composed packageAttribute := by
  unfold packageAttribute
  refine .bind _ _ inferInstance fun a => .bind _ _ ?_ fun _ => inferInstance
  exact .change fun p => { p with attributes := p.attributes.put a }

instance : Composed unitHead := by unfold unitHead; infer_instance

instance : Composed statements := by unfold statements; infer_instance

instance (change : Location → Location) : Composed (locatePackage change) :=
  .change fun p => { p with location := change p.location }

instance (n : Nat) : Composed (closeUnit n) := by
  unfold closeUnit
  have hreturn : Composed (do return (← get).package : Parser Package) := byPackage pure
  have hclose : Composed (do
      let stop ← lastStop
      locatePackage (·.closeAt stop)
      return (← get).package : Parser Package) := inferInstance
  split <;> infer_instance

instance : Composed compilationUnit := by unfold compilationUnit; infer_instance

end Composed

/-! ### Invariants -/

/-- A property of states that the primitives keep. -/
structure StateInvariant (I : State → Prop) : Prop where
  advanced : ∀ {s}, I s → I s.advanced
  showing : ∀ {s}, I s → I s.showing
  popTrivia : ∀ {s}, I s → I (after popTrivia s)
  relabelled : ∀ {s} name events, I s → I { s with ruleName := name, events := events }
  stacked : ∀ {s} stack, I s → I { s with stack }
  declared : ∀ {s} f, I s → I (s.declared f)
  report : ∀ {s} e, I s → I (after (report e) s)
  remark : ∀ {s} message token, I s → I (after (remark message token) s)
  recover : ∀ {s} e kinds, I s → I (after (do Parser.report e; Parser.recover kinds) s)
  dropDeepStatement : ∀ {s}, I s → I (after dropDeepStatement s)

/-- What the primitives keep is kept by every production. -/
theorem StateInvariant.composed {I : State → Prop} (hI : StateInvariant I) {α : Type} {p : Parser α}
    (hp : Composed p) {s : State} (hs : I s) : I (after p s) := by
  induction hp generalizing s with
  | done a => exact hs
  | stop f => exact hs
  | look view => exact hs
  | lookUp view => exact hs
  | byLevels f _ _ ih => exact ih (s.stack.frames + 1) hs
  | inTrial => exact hs
  | advance => exact hI.advanced hs
  | bind p f _ _ ihp ihf => exact after_bind (P := I) (ihp hs) fun h => ihf _ h
  | attempt p _ ih =>
    rw [after_attempt]
    exact ih hs
  | nested n p _ ih =>
    rw [after_nested]
    split
    · exact hI.stacked s.stack (ih (hI.stacked (s.stack.take n) hs))
    · exact hs
  | withTrivia p _ ih =>
    rw [after_withTrivia]
    exact hI.popTrivia (ih (hI.showing hs))
  | underName name p _ ih =>
    rw [after_underName]
    exact hI.relabelled none _ (ih (hI.relabelled (some name) s.events hs))
  | note e => exact hI.relabelled s.ruleName (e :: s.events) hs
  | report e => exact hI.report e hs
  | remark message token => exact hI.remark message token hs
  | recover e kinds => exact hI.recover e kinds hs
  | change f => exact hI.declared f hs
  | trial alternative p _ _ =>
    rw [Orderly.after_trial]
    exact hI.relabelled _ _ hs
  | statementOrRecovery _ ih =>
    have hp := ih hs
    unfold after at hp
    unfold after statementOrRecovery
    cases hps : statement s with
    | ok a t =>
      rw [hps] at hp
      exact hp
    | error f t =>
      rw [hps] at hp
      cases f with
      | recognition e => exact hI.recover e statementStart hp
      | nestingTooDeep => exact hI.dropDeepStatement hp
      | _ => exact hp

end Rulebook.Parser
