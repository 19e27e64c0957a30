import Rulebook.Proofs.LocalityRules

/-!
# Productions that keep the name of the rule

The name of the rule that is read is set where its body begins and forgotten where that ends. The
productions that a body is made of leave it as it is, however they end, so whatever they report
bears that name.
-/

namespace Rulebook.Parser

set_option synthInstance.maxSize 100000

variable {α β : Type}

class KeepsName (p : Parser α) : Prop where
  ruleName : ∀ s : State, (after p s).ruleName = s.ruleName

namespace KeepsName

theorem ruleName_ok (p : Parser α) [KeepsName p] {s t : State} {a : α} (h : p s = .ok a t) :
    t.ruleName = s.ruleName :=
  after_of_ok h ▸ ruleName s

theorem ruleName_error (p : Parser α) [KeepsName p] {s t : State} {f : Failure}
    (h : p s = .error f t) : t.ruleName = s.ruleName :=
  after_of_error h ▸ ruleName s

theorem of_eq {p : Parser α} {next : State → State} {a : State → α}
    (h : ∀ s, p s = .ok (a s) (next s)) (hnext : ∀ s, (next s).ruleName = s.ruleName) :
    KeepsName p where
  ruleName s := by rw [after_of_ok (h s), hnext]

/-! ### Combinators -/

instance (a : α) : KeepsName (pure a : Parser α) := of_eq (fun _ => rfl) fun _ => rfl

instance : KeepsName (get : Parser State) := of_eq (fun _ => rfl) fun _ => rfl

instance (f : Failure) : KeepsName (throw f : Parser α) := ⟨fun _ => rfl⟩

instance (e : ParseError) : KeepsName (fail e : Parser α) := ⟨fun _ => rfl⟩

instance bind (p : Parser α) (f : α → Parser β) [KeepsName p] [∀ a, KeepsName (f a)] :
    KeepsName (p >>= f) where
  ruleName s := by
    cases hp : p s with
    | ok a t => rw [after_bind_of_ok hp, ruleName, ruleName_ok p hp]
    | error e t => rw [after_of_error (bind_of_error hp), ruleName_error p hp]

instance map (p : Parser α) (f : α → β) [KeepsName p] : KeepsName (f <$> p) := by
  rw [map_eq_bind]; infer_instance

instance (c : Prop) [Decidable c] (p q : Parser α) [KeepsName p] [KeepsName q] :
    KeepsName (if c then p else q) := by
  split <;> infer_instance

instance (o : Option α) (p : Parser β) (f : α → Parser β) [hp : KeepsName p]
    [hf : ∀ a, KeepsName (f a)] : KeepsName (o.elim p f) := by
  cases o with
  | none => exact hp
  | some a => exact hf a

instance rounds (more : α → Parser Bool) (body : α → Parser α) [∀ a, KeepsName (more a)]
    [∀ a, KeepsName (body a)] (n : Nat) (a : α) : KeepsName (rounds more body n a) := by
  induction n generalizing a with
  | zero => unfold Parser.rounds; infer_instance
  | succ n ih => unfold Parser.rounds; infer_instance

instance repeatWhile (first : α) (more : α → Parser Bool) (body : α → Parser α)
    [∀ a, KeepsName (more a)] [∀ a, KeepsName (body a)] :
    KeepsName (repeatWhile first more body) := by
  unfold Parser.repeatWhile; infer_instance

instance attempt (p : Parser α) [KeepsName p] : KeepsName (attempt p) where
  ruleName s := by rw [after_attempt, ruleName]

instance harvest (found : α) (p : Parser β) (add : α → β → α) [KeepsName p] :
    KeepsName (harvest found p add) := by
  unfold Parser.harvest; infer_instance

instance : KeepsName levels := by unfold levels; infer_instance

instance nested (n : Nesting) (p : Parser α) [KeepsName p] : KeepsName (nested n p) where
  ruleName s := by
    rw [after_nested]
    split
    · exact ruleName (s.within n)
    · rfl

instance withTrivia (p : Parser α) [Orderly p] [KeepsName p] : KeepsName (withTrivia p) where
  ruleName s := by
    rw [Orderly.after_withTrivia]
    exact ruleName s.showing

/-! ### Primitives -/

instance : KeepsName current := by unfold current; infer_instance

instance (n : Nat) : KeepsName (peek n) := by unfold peek; infer_instance

instance (kinds : List TokenKind) : KeepsName (nextIs kinds) := by unfold nextIs; infer_instance

instance (s : Symbol) : KeepsName (nextIsSymbol s) := by unfold nextIsSymbol; infer_instance

instance (k : Keyword) : KeepsName (nextIsKeyword k) := by unfold nextIsKeyword; infer_instance

instance : KeepsName lastStop := by unfold lastStop; infer_instance

instance (l : Location) : KeepsName (close l) := by unfold close; infer_instance

instance : KeepsName advance := of_eq advance_eq fun _ => rfl

instance (kind : TokenKind) : KeepsName (expect kind) := by unfold expect; infer_instance

instance (s : Symbol) : KeepsName (symbol s) := by unfold symbol; infer_instance

instance (k : Keyword) : KeepsName (keyword k) := by unfold keyword; infer_instance

instance (kind : TokenKind) : KeepsName (accept kind) := by unfold accept; infer_instance

instance (s : Symbol) : KeepsName (skip s) := by unfold skip; infer_instance

instance : KeepsName name := by unfold name; infer_instance

instance : KeepsName inTrial := by unfold inTrial; infer_instance

instance (e : ParseError) : KeepsName (report e) :=
  of_eq (report_eq e) fun s => by split <;> rfl

instance (message : String) (token : Token) : KeepsName (remark message token) :=
  of_eq (remark_eq message token) fun s => by split <;> rfl

instance (kinds : List TokenKind) : KeepsName (recover kinds) :=
  of_eq (recover_eq kinds) fun _ => rfl

instance (e : ParseError) (kinds : List TokenKind) : KeepsName (recoverFrom e kinds) := by
  unfold recoverFrom; infer_instance

instance trial (alternative : String) (p : Parser α) [KeepsName p] :
    KeepsName (trial alternative p) where
  ruleName s := by
    cases h : p s.trying with
    | ok a t =>
      have hp := ruleName_ok p h
      rw [after_of_ok (trial_of_passed h)]
      exact hp
    | error f t =>
      have hp := ruleName_error p h
      cases f with
      | recognition e =>
        rw [after_of_ok (trial_of_recognition h)]
        exact hp
      | _ =>
        rw [after_of_error (trial_of_failure h (by simp))]
        exact hp

/-! ### Names and code -/

instance : KeepsName dottedName := by unfold dottedName; infer_instance

instance : KeepsName title := by unfold title; infer_instance

instance (opening closing : Symbol) (stops : List Symbol) (inner : Parser String) [KeepsName inner]
    (x : String × Bool) : KeepsName (chunkPart opening closing stops inner x) := by
  unfold chunkPart; infer_instance

instance chunkWithin (opening closing : Symbol) (stops : List Symbol) (levels : Nat) :
    KeepsName (chunkWithin opening closing stops levels) := by
  induction levels with
  | zero => unfold Parser.chunkWithin; infer_instance
  | succ levels ih => unfold Parser.chunkWithin; infer_instance

instance (opening closing : Symbol) (stops : List Symbol) :
    KeepsName (chunk opening closing stops) := by
  unfold chunk; infer_instance

instance : KeepsName squareChunk := by unfold squareChunk; infer_instance

instance : KeepsName parenCode := by unfold parenCode parenChunk; infer_instance

instance (code : String) (token : Token) : KeepsName (checkSemicolon code token) := by
  unfold checkSemicolon; infer_instance

/-! ### Patterns -/

instance (operator : String) (token : Token) : KeepsName (restrictionValue operator token) := by
  unfold restrictionValue
  refine @bind _ _ _ _ _ fun value => ?_
  dsimp only
  split <;> infer_instance

instance (operator : String) (c : Connective) : KeepsName (valueList operator c) := by
  unfold valueList; infer_instance

instance : KeepsName restriction := by unfold restriction; infer_instance

instance : KeepsName connectedRestriction := by unfold connectedRestriction; infer_instance

instance (x : List Restriction × Bool) : KeepsName (joinedRestriction x) := by
  unfold joinedRestriction
  refine @bind _ _ _ _ _ fun token => ?_
  split <;> infer_instance

instance : KeepsName restrictions := by unfold restrictions; infer_instance

instance (token : Token) (field declaration : Option String) :
    KeepsName (predicate token field declaration) := by
  unfold predicate; infer_instance

instance : KeepsName bindingName := by unfold bindingName; infer_instance

instance (token fieldToken : Token) (field : String) (declaration : Option String) :
    KeepsName (fieldConstraint token fieldToken field declaration) := by
  unfold fieldConstraint; infer_instance

instance : KeepsName fieldHead := by unfold fieldHead; infer_instance

instance (token : Token) (field : String) (declaration : Option String) :
    KeepsName (fieldBinding token field declaration) := by
  cases declaration <;> unfold fieldBinding <;> infer_instance

instance (found : List Constraint) (token : Token) : KeepsName (boundField found token) := by
  unfold boundField
  refine @bind _ _ _ _ _ fun head => ?_
  cases head <;> infer_instance

instance (token : Token) : KeepsName (evalPredicate token) := by
  unfold evalPredicate; infer_instance

instance (found : List Constraint) : KeepsName (constraint found) := by
  unfold constraint; infer_instance

instance : KeepsName constraints := by unfold constraints; infer_instance

instance : KeepsName Recurs.someConstraints := by
  unfold Recurs.someConstraints Recurs.commaFollows Recurs.nextConstraint; infer_instance

instance (e : ParseError) : KeepsName (recoverParen e) := by unfold recoverParen; infer_instance

instance (failure : Option ParseError) : KeepsName (rightParen failure) := by
  unfold rightParen
  refine @bind _ _ _ _ _ fun closed => ?_
  cases closed <;> infer_instance

instance : KeepsName factPattern := by unfold factPattern; infer_instance

/-! ### Sources -/

instance : KeepsName arguments? := by unfold arguments?; infer_instance

instance (chain : List Access) (bracket : Token) : KeepsName (indexAccess chain bracket) := by
  unfold indexAccess; infer_instance

instance (chain : List Access) : KeepsName (memberAccess chain) := by
  unfold memberAccess; infer_instance

instance (chain : List Access) : KeepsName (access chain) := by unfold access; infer_instance

instance : KeepsName retrieval := by unfold retrieval; infer_instance

section Within

variable (pattern : Parser Pattern) [KeepsName pattern]

instance : KeepsName (accumulate pattern) := by unfold accumulate accumulateBody; infer_instance

instance : KeepsName (collect pattern) := by unfold collect collectBody; infer_instance

instance : KeepsName (fromSource pattern) := by unfold fromSource; infer_instance

end Within

instance patternWithin (levels : Nat) : KeepsName (patternWithin levels) := by
  induction levels with
  | zero => unfold Parser.patternWithin; infer_instance
  | succ levels ih => unfold Parser.patternWithin; infer_instance

instance : KeepsName sourcedPattern := by unfold sourcedPattern; infer_instance

/-! ### Conditions -/

instance (kind : Grouping) (connectives : List TokenKind) (operand : Parser Condition)
    [KeepsName operand] : KeepsName (infixGroup kind connectives operand) := by
  unfold infixGroup; infer_instance

section Single

variable (single : Parser Condition) [KeepsName single]

instance : KeepsName (disjunction single) := by unfold disjunction; infer_instance

instance : KeepsName (prefixGroup single) := by
  unfold prefixGroup
  refine @bind _ _ _ _ _ fun connective => @bind _ _ _ _ _ fun operands => ?_
  cases operands <;> infer_instance

instance : KeepsName (parenthesised single) := by unfold parenthesised; infer_instance

instance : KeepsName (operand single) := by unfold operand; infer_instance

instance (k : Keyword) (kind : Grouping) : KeepsName (unaryGroup k kind single) := by
  unfold unaryGroup; infer_instance

instance : KeepsName evalCondition := by unfold evalCondition; infer_instance

instance : KeepsName forallCondition := by unfold forallCondition; infer_instance

instance : KeepsName (singleCondition single) := by unfold singleCondition; infer_instance

end Single

instance conditionWithin (levels : Nat) : KeepsName (conditionWithin levels) := by
  induction levels with
  | zero => unfold Parser.conditionWithin; infer_instance
  | succ levels ih => unfold Parser.conditionWithin; infer_instance

instance : KeepsName conditions := by unfold conditions condition; infer_instance

/-! ### Attributes -/

instance (text : String) : KeepsName (integer text) := by unfold integer; infer_instance

instance (token : Token) : KeepsName (attributeValue token) := by
  unfold attributeValue
  split
  · infer_instance
  · split
    · refine @bind _ _ _ _ _ fun value => ?_
      cases value <;> infer_instance
    · infer_instance

instance : KeepsName ruleAttribute := by unfold ruleAttribute; infer_instance

instance (h : Harvest Rule) : KeepsName (addAttribute h) := by unfold addAttribute; infer_instance

instance : KeepsName attributesHead := by unfold attributesHead; infer_instance

instance (rule : Rule) : KeepsName (ruleAttributes rule) := by
  unfold ruleAttributes
  refine @bind _ _ _ _ _ fun head => ?_
  rcases head with e | ⟨⟩ <;> dsimp only <;> infer_instance

end KeepsName

end Rulebook.Parser
