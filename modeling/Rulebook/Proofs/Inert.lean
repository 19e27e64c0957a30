import Rulebook.Proofs.OrderlyGrammar

/-!
# Productions that declare nothing

Only declarations, the attributes at the head of a unit and the location of the unit change the
package. Every production below them is inert: it leaves the package as it is, however it ends.
-/

namespace Rulebook.Parser

set_option synthInstance.maxSize 100000

variable {α β : Type}

/-- A production that leaves the package as it is. -/
class Inert (p : Parser α) : Prop where
  package : ∀ s : State, (after p s).package = s.package

namespace Inert

theorem package_ok (p : Parser α) [Inert p] {s t : State} {a : α} (h : p s = .ok a t) :
    t.package = s.package :=
  after_of_ok h ▸ package s

theorem package_error (p : Parser α) [Inert p] {s t : State} {f : Failure} (h : p s = .error f t) :
    t.package = s.package :=
  after_of_error h ▸ package s

theorem of_eq {p : Parser α} {next : State → State} {a : State → α}
    (h : ∀ s, p s = .ok (a s) (next s)) (hnext : ∀ s, (next s).package = s.package) : Inert p where
  package s := by rw [after_of_ok (h s), hnext]

/-! ### Combinators -/

instance (a : α) : Inert (pure a : Parser α) := of_eq (fun _ => rfl) fun _ => rfl

instance : Inert (get : Parser State) := of_eq (fun _ => rfl) fun _ => rfl

instance (f : Failure) : Inert (throw f : Parser α) := ⟨fun _ => rfl⟩

instance (e : ParseError) : Inert (fail e : Parser α) := ⟨fun _ => rfl⟩

instance bind (p : Parser α) (f : α → Parser β) [Inert p] [∀ a, Inert (f a)] :
    Inert (p >>= f) where
  package s := by
    cases hp : p s with
    | ok a t => rw [after_bind_of_ok hp, package, package_ok p hp]
    | error e t => rw [after_of_error (bind_of_error hp), package_error p hp]

instance map (p : Parser α) (f : α → β) [Inert p] : Inert (f <$> p) := by
  rw [map_eq_bind]; infer_instance

instance (c : Prop) [Decidable c] (p q : Parser α) [Inert p] [Inert q] :
    Inert (if c then p else q) := by
  split <;> infer_instance

instance (o : Option α) (p : Parser β) (f : α → Parser β) [hp : Inert p]
    [hf : ∀ a, Inert (f a)] : Inert (o.elim p f) := by
  cases o with
  | none => exact hp
  | some a => exact hf a

instance rounds (more : α → Parser Bool) (body : α → Parser α) [∀ a, Inert (more a)]
    [∀ a, Inert (body a)] (n : Nat) (a : α) : Inert (rounds more body n a) := by
  induction n generalizing a with
  | zero => unfold Parser.rounds; infer_instance
  | succ n ih => unfold Parser.rounds; infer_instance

instance repeatWhile (first : α) (more : α → Parser Bool) (body : α → Parser α)
    [∀ a, Inert (more a)] [∀ a, Inert (body a)] : Inert (repeatWhile first more body) := by
  unfold Parser.repeatWhile; infer_instance

instance attempt (p : Parser α) [Inert p] : Inert (attempt p) where
  package s := by rw [after_attempt, package]

instance (h : Harvest α) (next : α → Parser (Harvest α)) [∀ a, Inert (next a)] :
    Inert (h.andThen next) := by
  unfold Harvest.andThen; split <;> infer_instance

instance harvest (found : α) (p : Parser β) (add : α → β → α) [Inert p] :
    Inert (harvest found p add) := by
  unfold Parser.harvest; infer_instance

instance : Inert levels := by unfold levels; infer_instance

instance nested (n : Nesting) (p : Parser α) [Inert p] : Inert (nested n p) where
  package s := by
    rw [after_nested]
    split
    · exact package (s.within n)
    · rfl

instance withTrivia (p : Parser α) [Orderly p] [Inert p] : Inert (withTrivia p) where
  package s := by
    rw [Orderly.after_withTrivia]
    exact package s.showing

/-! ### Primitives -/

instance : Inert current := by unfold current; infer_instance

instance (n : Nat) : Inert (peek n) := by unfold peek; infer_instance

instance (kinds : List TokenKind) : Inert (nextIs kinds) := by unfold nextIs; infer_instance

instance (s : Symbol) : Inert (nextIsSymbol s) := by unfold nextIsSymbol; infer_instance

instance (k : Keyword) : Inert (nextIsKeyword k) := by unfold nextIsKeyword; infer_instance

instance : Inert lastStop := by unfold lastStop; infer_instance

instance (l : Location) : Inert (close l) := by unfold close; infer_instance

instance : Inert advance := of_eq advance_eq fun _ => rfl

instance (kind : TokenKind) : Inert (expect kind) := by unfold expect; infer_instance

instance (s : Symbol) : Inert (symbol s) := by unfold symbol; infer_instance

instance (k : Keyword) : Inert (keyword k) := by unfold keyword; infer_instance

instance (kind : TokenKind) : Inert (accept kind) := by unfold accept; infer_instance

instance (s : Symbol) : Inert (skip s) := by unfold skip; infer_instance

instance : Inert name := by unfold name; infer_instance

instance (e : Event) : Inert (note e) := of_eq (note_eq e) fun _ => rfl

instance : Inert inTrial := by unfold inTrial; infer_instance

instance (e : ParseError) : Inert (report e) := of_eq (report_eq e) fun s => by split <;> rfl

instance (message : String) (token : Token) : Inert (remark message token) :=
  of_eq (remark_eq message token) fun s => by split <;> rfl

instance (kinds : List TokenKind) : Inert (recover kinds) := of_eq (recover_eq kinds) fun _ => rfl

instance (e : ParseError) (kinds : List TokenKind) : Inert (recoverFrom e kinds) := by
  unfold recoverFrom; infer_instance

instance trial (alternative : String) (p : Parser α) [Orderly p] : Inert (trial alternative p) where
  package s := by rw [Orderly.after_trial]

instance underName (name : String) (p : Parser α) [Inert p] : Inert (underName name p) where
  package s := by
    rw [after_underName]
    exact package (s.named name)

instance recovering (name : String) (body : Parser (Harvest α)) (locate : α → Location → α)
    (location : Location) [Inert body] : Inert (recovering name body locate location) := by
  unfold Parser.recovering
  refine @underName _ _ _ (@bind _ _ _ _ _ fun h => ?_)
  cases h.failure <;> infer_instance

/-! ### Names, types and code -/

instance : Inert dottedName := by unfold dottedName; infer_instance

instance (x : String × Nat) : Inert (genericRound x) := by unfold genericRound; infer_instance

instance : Inert genericArguments := by unfold genericArguments; infer_instance

instance (first : α) (grow : α → α) : Inert (arraySuffixes first grow) := by
  unfold arraySuffixes; infer_instance

instance : Inert typeName := by unfold typeName; infer_instance

instance : Inert title := by unfold title; infer_instance

instance (x : String × Bool) : Inert (importPart x) := by unfold importPart; infer_instance

instance : Inert importTarget := by unfold importTarget; infer_instance

instance afterBrackets (fuel n : Nat) : Inert (afterBrackets fuel n) := by
  induction fuel generalizing n with
  | zero => unfold Parser.afterBrackets; infer_instance
  | succ fuel ih => unfold Parser.afterBrackets; infer_instance

instance : Inert isUntyped := by unfold isUntyped; infer_instance

instance : Inert parameter := by unfold parameter; infer_instance

instance : Inert parameterList := by unfold parameterList; infer_instance

instance : Inert parameters := by unfold parameters; infer_instance

instance (opening closing : Symbol) (stops : List Symbol) (inner : Parser String) [Inert inner]
    (x : String × Bool) : Inert (chunkPart opening closing stops inner x) := by
  unfold chunkPart; infer_instance

instance chunkWithin (opening closing : Symbol) (stops : List Symbol) (levels : Nat) :
    Inert (chunkWithin opening closing stops levels) := by
  induction levels with
  | zero => unfold Parser.chunkWithin; infer_instance
  | succ levels ih => unfold Parser.chunkWithin; infer_instance

instance (opening closing : Symbol) (stops : List Symbol) :
    Inert (chunk opening closing stops) := by
  unfold chunk; infer_instance

instance : Inert curlyChunk := by unfold curlyChunk; infer_instance

instance : Inert squareChunk := by unfold squareChunk; infer_instance

instance : Inert parenCode := by unfold parenCode parenChunk; infer_instance

instance (code : String) (token : Token) : Inert (checkSemicolon code token) := by
  unfold checkSemicolon; infer_instance

/-! ### Patterns -/

instance (operator : String) (token : Token) : Inert (restrictionValue operator token) := by
  unfold restrictionValue
  refine @bind _ _ _ _ _ fun value => ?_
  dsimp only
  split <;> infer_instance

instance (operator : String) (c : Connective) : Inert (valueList operator c) := by
  unfold valueList; infer_instance

instance : Inert restriction := by unfold restriction; infer_instance

instance (x : List Restriction × Bool) : Inert (joinedRestriction x) := by
  unfold joinedRestriction
  refine @bind _ _ _ _ _ fun token => ?_
  split <;> infer_instance

instance : Inert restrictions := by unfold restrictions; infer_instance

instance (token : Token) (field declaration : Option String) :
    Inert (predicate token field declaration) := by
  unfold predicate; infer_instance

instance : Inert bindingName := by unfold bindingName; infer_instance

instance (token fieldToken : Token) (field : String) (declaration : Option String) :
    Inert (fieldConstraint token fieldToken field declaration) := by
  unfold fieldConstraint; infer_instance

instance : Inert fieldHead := by unfold fieldHead; infer_instance

instance (token : Token) (field : String) (declaration : Option String) :
    Inert (fieldBinding token field declaration) := by
  cases declaration <;> unfold fieldBinding <;> infer_instance

instance (found : List Constraint) (token : Token) : Inert (boundField found token) := by
  unfold boundField
  refine @bind _ _ _ _ _ fun head => ?_
  cases head <;> infer_instance

instance (token : Token) : Inert (evalPredicate token) := by unfold evalPredicate; infer_instance

instance (found : List Constraint) : Inert (constraint found) := by
  unfold constraint; infer_instance

instance : Inert constraints := by unfold constraints; infer_instance

instance (e : ParseError) : Inert (recoverParen e) := by unfold recoverParen; infer_instance

instance (failure : Option ParseError) : Inert (rightParen failure) := by
  unfold rightParen
  refine @bind _ _ _ _ _ fun closed => ?_
  cases closed <;> infer_instance

instance : Inert factPattern := by unfold factPattern; infer_instance

/-! ### Sources -/

instance : Inert arguments? := by unfold arguments?; infer_instance

instance (chain : List Access) (bracket : Token) : Inert (indexAccess chain bracket) := by
  unfold indexAccess; infer_instance

instance (chain : List Access) : Inert (memberAccess chain) := by
  unfold memberAccess; infer_instance

instance (chain : List Access) : Inert (access chain) := by unfold access; infer_instance

instance : Inert retrieval := by unfold retrieval; infer_instance

section Within

variable (pattern : Parser Pattern) [Orderly pattern] [Inert pattern]

instance (token : Token) : Inert (accumulateBody pattern token) := by
  unfold accumulateBody; infer_instance

instance : Inert (accumulate pattern) := by unfold accumulate; infer_instance

instance (token : Token) : Inert (collectBody pattern token) := by
  unfold collectBody; infer_instance

instance : Inert (collect pattern) := by unfold collect; infer_instance

instance : Inert (fromSource pattern) := by unfold fromSource; infer_instance

end Within

instance patternWithin (levels : Nat) : Inert (patternWithin levels) := by
  induction levels with
  | zero => unfold Parser.patternWithin; infer_instance
  | succ levels ih => unfold Parser.patternWithin; infer_instance

instance : Inert sourcedPattern := by unfold sourcedPattern; infer_instance

/-! ### Conditions -/

instance (kind : Grouping) (connectives : List TokenKind) (operand : Parser Condition)
    [Inert operand] : Inert (infixGroup kind connectives operand) := by
  unfold infixGroup; infer_instance

section Single

variable (single : Parser Condition) [Inert single]

instance : Inert (disjunction single) := by unfold disjunction; infer_instance

instance : Inert (prefixGroup single) := by
  unfold prefixGroup
  refine @bind _ _ _ _ _ fun connective => @bind _ _ _ _ _ fun operands => ?_
  cases operands <;> infer_instance

instance : Inert (parenthesised single) := by unfold parenthesised; infer_instance

instance : Inert (operand single) := by unfold operand; infer_instance

instance (k : Keyword) (kind : Grouping) : Inert (unaryGroup k kind single) := by
  unfold unaryGroup; infer_instance

instance : Inert evalCondition := by unfold evalCondition; infer_instance

instance : Inert forallCondition := by unfold forallCondition; infer_instance

instance : Inert (singleCondition single) := by unfold singleCondition; infer_instance

end Single

instance conditionWithin (levels : Nat) : Inert (conditionWithin levels) := by
  induction levels with
  | zero => unfold Parser.conditionWithin; infer_instance
  | succ levels ih => unfold Parser.conditionWithin; infer_instance

instance : Inert conditions := by unfold conditions condition; infer_instance

instance (elements : List Condition) : Inert (blockElement elements) := by
  unfold blockElement
  refine @bind _ _ _ _ _ fun r => ?_
  cases r <;> infer_instance

instance (anchor : Option Token) : Inert (block anchor) := by unfold block; infer_instance

/-! ### Rules and queries -/

instance (text : String) : Inert (integer text) := by
  unfold integer; infer_instance

instance (token : Token) : Inert (attributeValue token) := by
  unfold attributeValue
  split
  · infer_instance
  · split
    · refine @bind _ _ _ _ _ fun value => ?_
      cases value <;> infer_instance
    · infer_instance

instance : Inert ruleAttribute := by unfold ruleAttribute; infer_instance

instance (h : Harvest Rule) : Inert (addAttribute h) := by unfold addAttribute; infer_instance

instance : Inert attributesHead := by unfold attributesHead; infer_instance

instance (rule : Rule) : Inert (ruleAttributes rule) := by
  unfold ruleAttributes
  refine @bind _ _ _ _ _ fun head => ?_
  rcases head with e | ⟨⟩ <;> dsimp only <;> infer_instance

instance : Inert conditionBlock := by unfold conditionBlock; infer_instance

instance (rule : Rule) : Inert (ruleConditions rule) := by unfold ruleConditions; infer_instance

instance : Inert consequenceText := by unfold consequenceText; infer_instance

instance : Inert consequence := by unfold consequence; infer_instance

instance : Inert closing := by unfold closing; infer_instance

instance (rule : Rule) : Inert (ruleConsequence rule) := by unfold ruleConsequence; infer_instance

instance (rule : Rule) : Inert (ruleBody rule) := by unfold ruleBody; infer_instance

instance : Inert queryParameters := by unfold queryParameters; infer_instance

instance : Inert queryBlock := by unfold queryBlock; infer_instance

instance (query : Query) : Inert (queryBody query) := by unfold queryBody; infer_instance

/-! ### Parts of declarations -/

instance : Inert returnType? := by unfold returnType?; infer_instance

instance : Inert slot := by unfold slot; infer_instance

end Inert

end Rulebook.Parser
