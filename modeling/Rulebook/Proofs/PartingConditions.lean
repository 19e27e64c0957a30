import Rulebook.Proofs.PartingGrammar

/-!
# Patterns before different closing words

A pattern treats the closing words alike, and so does the source it may draw on. Sources nest; at
the last level reading is given up, but never behind the closing word, because the words and the
parentheses that lead there stand before it.
-/

namespace Rulebook.Parser

set_option synthInstance.maxSize 100000

variable {α β : Type} {k o : Nat} {s t u : State}

/-! ### Fact patterns -/

theorem exchanges_recoverParen (e e' : ParseError) :
    Exchanges (· = ·) (recoverParen e) (recoverParen e') :=
  (Exchanges.recoverFrom (R := fun _ _ => True) e e' patternFollow).bind (fun _ => trivial) fun _ =>
    exchanges

theorem exchanges_rightParen {e e' : Option ParseError} (h : e.isSome = e'.isSome) :
    Exchanges (· = ·) (rightParen e) (rightParen e') := by
  have hsymbol : Exchanges AlikeResult
      (e.elim (attempt (symbol .rparen)) fun e => pure (.error e))
      (e'.elim (attempt (symbol .rparen)) fun e => pure (.error e)) := by
    cases e with
    | none =>
      cases e' with
      | none => exact .attempt _
      | some e' => cases h
    | some e =>
      cases e' with
      | none => cases h
      | some e' => exact .pure (.error e e')
  refine .result_bind (fun r => ?_) hsymbol (fun a => .pure rfl) exchanges_recoverParen
  cases r <;> infer_instance

theorem exchanges_patternBody (start : Token) (name : Option String) (objectType : String) :
    Exchanges (· = ·)
      (do
        let leftParen := (← symbol .lparen).start
        let body ← constraints
        let rightParen ← rightParen body.failure
        return (⟨← close (.ofToken start), objectType, name, body.found, .workingMemory, leftParen,
          rightParen⟩ : Pattern))
      (do
        let leftParen := (← symbol .lparen).start
        let body ← constraints
        let rightParen ← rightParen body.failure
        return ⟨← close (.ofToken start), objectType, name, body.found, .workingMemory, leftParen,
          rightParen⟩) := by
  refine (exchanges (p := symbol .lparen)).bind (fun _ => rfl) fun {leftParen _} hab => ?_
  subst hab
  refine exchanges_constraints.bind .refl fun {body body'} hbody => ?_
  rw [hbody.found]
  exact (exchanges_rightParen hbody.failure).bind (fun _ => rfl) fun hab => hab ▸ exchanges

instance Impartial.patternBody (start : Token) (name : Option String) (objectType : String) :
    Impartial (do
      let leftParen := (← symbol .lparen).start
      let body ← constraints
      let rightParen ← rightParen body.failure
      return (⟨← close (.ofToken start), objectType, name, body.found, .workingMemory, leftParen,
        rightParen⟩ : Pattern)) :=
  ⟨exchanges_patternBody start name objectType⟩

instance : Grabs factPattern := by
  unfold factPattern
  exact .of_current fun _ _ => .bindingName_bind _

instance : Impartial factPattern :=
  ⟨.current_grabs (inferInstanceAs (Grabs factPattern)) fun _ => exchanges⟩

/-! ### Accesses -/

namespace Impartial

instance : Impartial arguments? := by unfold arguments?; infer_instance

instance (chain : List Access) (bracket : Token) : Impartial (indexAccess chain bracket) := by
  unfold indexAccess; infer_instance

end Impartial

instance (chain : List Access) : Impartial (memberAccess chain) := by
  unfold memberAccess; infer_instance

instance (chain : List Access) : Impartial (access chain) := by
  have hbracket : ∀ a : Token, a.kind ∈ closingWords → a.kind ≠ .symbol .lbracket := fun a ha =>
    ne_of_closingWords ha (by simp [closingWords])
  refine ⟨.current (fun a => exchanges) fun a b ha hb => ?_⟩
  rw [if_neg (hbracket a ha), if_neg (hbracket b hb)]
  exact exchanges

/-! ### Retrievals -/

def retrievalParts : Parser (Token × Option String × List Access) := do
  let head ← name
  let arguments ← arguments?
  let chain ← repeatWhile [] (fun _ => nextIs [.symbol .dot, .symbol .lbracket]) access
  return (head, arguments, chain)

def retrievalOf (start : Token) (parts : Token × Option String × List Access) :
    Parser Retrieval := do
  let location ← close (.ofToken start)
  let text := (← get).cursor.text (location.start.getD 0) (location.stop.getD 0)
  return ⟨location, ⟨location, parts.1.text, parts.2.1, parts.2.2⟩, text⟩

theorem retrieval_eq :
    retrieval = current >>= fun start => retrievalParts >>= retrievalOf start := by
  simp only [retrieval, retrievalParts, retrievalOf, bind_assoc, pure_bind]

instance : Orderly retrievalParts := by
  unfold retrievalParts; infer_instance

instance : Impartial retrievalParts := by
  have hnext : Impartial (nextIs [.symbol .dot, .symbol .lbracket]) := Impartial.nextIs (by decide)
  have hloop := Impartial.repeatWhile Repetition.accesses.rolls
  unfold retrievalParts
  infer_instance

instance : Grabs retrievalParts := by
  have hnext : Impartial (nextIs [.symbol .dot, .symbol .lbracket]) := Impartial.nextIs (by decide)
  have hloop := Impartial.repeatWhile Repetition.accesses.rolls
  unfold retrievalParts
  infer_instance

theorem retrievalOf_eq (start : Token) (parts : Token × Option String × List Access) (s : State) :
    let location := (Location.ofToken start).closeAt (s.cursor.previous.map (·.stop))
    retrievalOf start parts s = .ok ⟨location, ⟨location, parts.1.text, parts.2.1, parts.2.2⟩,
      s.cursor.text (location.start.getD 0) (location.stop.getD 0)⟩ s :=
  rfl

/-- The text of a retrieval ends before the closing word. -/
theorem stop_le_of_parting (h : s.Parting k o t) {start : Token} (hstart : start.start ≤ o) :
    ((Location.ofToken start).closeAt (s.cursor.previous.map (·.stop))).stop.getD 0 ≤ o := by
  cases hprevious : s.cursor.previous with
  | none => exact hstart
  | some token => exact Nat.max_le.2 ⟨h.cursor.stop_previous token hprevious, hstart⟩

theorem recognition_retrieval {start : Token} {f : Failure} (hs : s.cursor.ClosedAt k)
    (hlt : k < s.cursor.index) (htrials : 0 < s.trials)
    (h : (retrievalParts >>= retrievalOf start) s = .error f u) : ∃ e, f = .recognition e := by
  cases hparts : retrievalParts s with
  | ok parts v =>
    rw [bind_of_ok hparts, retrievalOf_eq] at h
    cases h
  | error g v =>
    rw [bind_of_error hparts] at h
    cases h
    exact (exchanges (p := retrievalParts)).recognition hs hlt htrials hparts

instance (start : Token) (parts : Token × Option String × List Access) :
    Orderly (retrievalOf start parts) := by
  unfold retrievalOf; infer_instance

instance : Grabs retrieval := by
  rw [retrieval_eq]
  exact .of_current fun _ _ => .of_bind inferInstance fun _ _ _ herror => by
    rw [retrievalOf_eq] at herror
    cases herror

instance : Impartial retrieval where
  exchanges := {
    inStep := fun {k o s t} hst => by
      have hgrabs : ∀ hseek, Outruns k s (retrieval s) := fun hseek =>
        Grabs.outruns ⟨hst.cursor.first, hseek⟩
      rw [retrieval_eq] at hgrabs ⊢
      refine .step (current_eq s) (current_eq t) ?_
      rcases hst.cursor.current with ⟨heq, hlt⟩ | ⟨hseek, -⟩
      · rw [← heq]
        have hstart : s.cursor.current.start ≤ o := hst.cursor.starts _ hlt
        refine .bind ((exchanges (p := retrievalParts)).inStep hst)
          (fun {parts _ u v} hab huv _ => ?_)
          fun _ _ _ _ _ herror => ?_
        · subst hab
          refine .ok (retrievalOf_eq ..) (retrievalOf_eq ..) ?_ huv
          rw [huv.cursor.text_eq (stop_le_of_parting huv hstart), huv.cursor.previous_eq]
        · rw [retrievalOf_eq] at herror
          cases herror
      · exact .outrun (hgrabs hseek)
    recognition := fun {k s f u} hs hlt htrials herror => by
      rw [retrieval_eq] at herror
      exact recognition_retrieval hs hlt htrials herror }

/-! ### Sources within sources -/

section Sources

variable (pattern : Parser Pattern) [Orderly pattern] [KeepsStep pattern] (token : Token)

instance : KeepsStep (accumulateBody pattern token) := by
  have hinit : Impartial (keyword .init) := Impartial.keyword (by decide)
  have haction : Impartial (keyword .action) := Impartial.keyword (by decide)
  have hresult : Impartial (keyword .result) := Impartial.keyword (by decide)
  unfold accumulateBody
  infer_instance

instance : Halts (accumulateBody pattern token) := by
  unfold accumulateBody; infer_instance

instance : KeepsStep (collectBody pattern token) := by
  unfold collectBody; infer_instance

instance : Halts (collectBody pattern token) := by
  unfold collectBody; infer_instance

instance : Impartial (accumulate pattern) := by
  have hword : Impartial (keyword .accumulate) := Impartial.keyword (by decide)
  have hhalts : Halts (keyword .accumulate) := Halts.expect rfl (by decide)
  unfold accumulate
  infer_instance

instance : Halts (accumulate pattern) := by
  unfold accumulate; infer_instance

instance : Impartial (collect pattern) := by
  have hword : Impartial (keyword .collect) := Impartial.keyword (by decide)
  have hhalts : Halts (keyword .collect) := Halts.expect rfl (by decide)
  unfold collect
  infer_instance

instance : Halts (collect pattern) := by
  unfold collect; infer_instance

instance : Concurs (accumulate pattern) := .of_halts _

instance : Concurs (collect pattern) := .of_halts _

instance : Impartial (fromSource pattern) := by
  have hfrom : Impartial (keyword .from_) := Impartial.keyword (by decide)
  have haccumulate : Impartial (nextIsKeyword .accumulate) := Impartial.nextIsKeyword (by decide)
  have hcollect : Impartial (nextIsKeyword .collect) := Impartial.nextIsKeyword (by decide)
  unfold fromSource
  infer_instance

end Sources

instance (levels : Nat) : KeepsStep (patternWithin levels) := by
  induction levels with
  | zero => exact ⟨fun hst => .error rfl rfl (.other (by simp)) hst⟩
  | succ levels ih =>
    have hfrom : Impartial (nextIsKeyword .from_) := Impartial.nextIsKeyword (by decide)
    unfold patternWithin
    infer_instance

instance : Impartial sourcedPattern := by
  have hfrom : Impartial (nextIsKeyword .from_) := Impartial.nextIsKeyword (by decide)
  refine .byLevels fun n => ?_
  unfold patternWithin
  infer_instance

instance : Grabs sourcedPattern := by
  have hfrom : Impartial (nextIsKeyword .from_) := Impartial.nextIsKeyword (by decide)
  refine .byLevels fun n => ?_
  unfold patternWithin
  infer_instance

end Rulebook.Parser

/-!
## Conditions before different closing words, read in step

Conditions are not tried, so they are compared outside of trials only. Where a condition would begin
with the closing word it is read as a pattern, and so the reading goes past the word.
-/

namespace Rulebook.Parser

set_option synthInstance.maxSize 100000

variable {α β : Type} {k o : Nat} {s t u : State}

/-- A production to which the closing words are alike outside of trials. -/
class FairOutside (p : Parser α) : Prop where
  inStep : ∀ {k o s t}, s.trials = 0 → s.Parting k o t → InStep k o (· = ·) s (p s) (p t)

/-- Outside of trials it does not matter how what follows fails behind the closing word. -/
theorem InStep.bind_outside {R : α → α → Prop} {R' : β → β → Prop} {p q : Parser α}
    {f g : α → Parser β} [Orderly p] (horderly : ∀ a, Orderly (f a)) (htrials : s.trials = 0)
    (h : InStep k o R s (p s) (q t))
    (hf : ∀ {a b u v}, R a b → u.trials = 0 → u.Parting k o v → InStep k o R' u (f a u) (g b v)) :
    InStep k o R' s ((p >>= f) s) ((q >>= g) t) := by
  have hstays : ∀ {a u}, p s = .ok a u → u.trials = 0 := fun hu =>
    (Orderly.evolves_ok p hu).trials.trans htrials
  exact h.bind (fun hab huv hu => hf hab (hstays hu) huv) fun hu _ hpos =>
    absurd (hstays hu) (Nat.ne_of_gt hpos)

namespace FairOutside

instance (priority := low) keepsStep (p : Parser α) [KeepsStep p] : FairOutside p :=
  ⟨fun _ => KeepsStep.inStep⟩

instance (priority := low) bind (p : Parser α) (f : α → Parser β) [Orderly p] [∀ a, Orderly (f a)]
    [FairOutside p] [∀ a, FairOutside (f a)] : FairOutside (p >>= f) where
  inStep {k o s t} htrials hst := by
    refine (inStep htrials hst).bind_outside inferInstance htrials fun {a b u v} hab hu huv => ?_
    subst hab
    exact inStep hu huv

instance (priority := low) map (p : Parser α) (f : α → β) [Orderly p] [FairOutside p] :
    FairOutside (f <$> p) := by
  rw [map_eq_bind]; infer_instance

instance (priority := low) ite (c : Prop) [Decidable c] (p q : Parser α) [FairOutside p]
    [FairOutside q] : FairOutside (if c then p else q) := by
  split <;> infer_instance

/-- Going on by the next token: where it is a closing word, it is taken. -/
theorem current_grabs {f : Token → Parser α} (hgrabs : Grabs (current >>= f))
    (h : ∀ a, FairOutside (f a)) : FairOutside (current >>= f) where
  inStep {k o s t} htrials hst := by
    rcases hst.cursor.current with ⟨heq, -⟩ | ⟨hseek, -⟩
    · refine .step (current_eq s) (current_eq t) ?_
      rw [heq]
      exact (h _).inStep htrials hst
    · exact .outrun (hgrabs.outruns ⟨hst.cursor.first, hseek⟩)

theorem byLevels {f : Nat → Parser α} (h : ∀ n, FairOutside (f n)) :
    FairOutside (levels >>= f) where
  inStep {_ _ s t} htrials hst := by
    refine .step (levels_eq s) (levels_eq t) ?_
    rw [← hst.stack]
    exact (h _).inStep htrials hst

instance nested (n : Nesting) (p : Parser α) [FairOutside p] : FairOutside (nested n p) where
  inStep {_ _ s t} htrials hst :=
    hst.nested n (inStep (p := p) (s := s.within n) (t := t.within n) htrials (hst.within n))

theorem rounds {more : α → Parser Bool} {body : α → Parser α} [∀ a, Orderly (more a)]
    [∀ a, Orderly (body a)] [∀ a, Impartial (more a)] [∀ a, FairOutside (body a)] (n : Nat)
    (a : α) : FairOutside (rounds more body n a) := by
  induction n generalizing a with
  | zero => exact inferInstanceAs (FairOutside (pure a))
  | succ n ih => unfold Parser.rounds; infer_instance

/-- The bound on the rounds does not matter, so it need not be the same in both texts. -/
theorem repeatWhile {more : α → Parser Bool} {body : α → Parser α} (hrolls : Rolls more body)
    (first : α) [∀ a, Orderly (more a)] [∀ a, Orderly (body a)] [∀ a, Impartial (more a)]
    [∀ a, FairOutside (body a)] : FairOutside (repeatWhile first more body) where
  inStep {k o s t} htrials hst := by
    rw [hrolls.repeatWhile_eq (Nat.le_max_left (s.cursor.remaining + 1) (t.cursor.remaining + 1)),
      hrolls.repeatWhile_eq (Nat.le_max_right (s.cursor.remaining + 1) (t.cursor.remaining + 1))]
    exact (rounds _ first).inStep htrials hst

end FairOutside

/-! ### Conditions -/

def closeOperands (connective : Token) : List Condition → Parser Condition
  | [] => do fail (.earlyExit ("prefix '" ++ connective.text ++ "'") (← current))
  | first :: others => do
    let _ ← symbol .rparen
    return join (if connective.kind = .keyword .or then .or else .and) first others

theorem prefixGroup_eq_join (single : Parser Condition) : prefixGroup single = (do
    let connective ← advance
    let operands ← repeatWhile [] unclosed (anotherOperand single)
    closeOperands connective operands) :=
  rfl

instance (connective : Token) (operands : List Condition) :
    Orderly (closeOperands connective operands) := by
  cases operands <;> unfold closeOperands <;> infer_instance

instance (connective : Token) (operands : List Condition) :
    Impartial (closeOperands connective operands) := by
  cases operands <;> unfold closeOperands <;> infer_instance

instance (a : α) : Orderly (unclosed a) := by unfold unclosed; infer_instance

/-- Neither closing word ends what is in parentheses. -/
instance (a : α) : Impartial (unclosed a) := by
  have hnext : Impartial (nextIs [.symbol .rparen, .endOfInput]) := Impartial.nextIs (by decide)
  unfold unclosed
  infer_instance

instance : Impartial evalCondition := by
  have hword : Impartial (keyword .eval) := Impartial.keyword (by decide)
  unfold evalCondition
  infer_instance

instance : Impartial forallCondition := by
  have hword : Impartial (keyword .forall_) := Impartial.keyword (by decide)
  have horderly : ∀ patterns, Orderly (anotherPattern patterns) := fun patterns => by
    unfold anotherPattern; infer_instance
  have hpattern : ∀ patterns, Impartial (anotherPattern patterns) := fun patterns => by
    unfold anotherPattern; infer_instance
  have hloop := Impartial.repeatWhile Repetition.forall_.rolls
  rw [forallCondition_eq]
  infer_instance

section Single

variable (single : Parser Condition) [Orderly single] [FairOutside single]

theorem fair_infixGroup (kind : Grouping) {connectives : List TokenKind}
    (hkinds : connectives ∈ [orKinds, andKinds]) :
    FairOutside (infixGroup kind connectives single) := by
  have hnext : Impartial (nextIs connectives) := Impartial.nextIs (by
    revert connectives
    decide)
  have hloop := FairOutside.repeatWhile (Repetition.infix_ hkinds single).rolls
  unfold infixGroup
  infer_instance

instance : FairOutside (disjunction single) := by
  have hand : FairOutside (infixGroup .and andKinds single) := fair_infixGroup _ .and (by simp)
  exact fair_infixGroup _ .or (by simp)

variable [Eager single]

instance : FairOutside (prefixGroup single) := by
  have horderly : ∀ operands, Orderly (anotherOperand single operands) := fun operands => by
    unfold anotherOperand; infer_instance
  have hoperand : ∀ operands, FairOutside (anotherOperand single operands) := fun operands => by
    unfold anotherOperand; infer_instance
  have hloop := FairOutside.repeatWhile (strides_operands single).rolls
  rw [prefixGroup_eq_join]
  infer_instance

instance : FairOutside (parenthesised single) := by
  have hnext : Impartial (nextIs [.keyword .or, .keyword .and]) := Impartial.nextIs (by decide)
  unfold parenthesised
  infer_instance

instance : FairOutside (operand single) := by unfold operand; infer_instance

theorem fair_unaryGroup {k : Keyword} (hk : .keyword k ∉ closingWords) (kind : Grouping) :
    FairOutside (unaryGroup k kind single) := by
  have hword : Impartial (keyword k) := Impartial.keyword hk
  unfold unaryGroup
  infer_instance

instance : Grabs (singleCondition single) := by
  unfold singleCondition
  refine .of_current fun a ha => ?_
  rw [if_neg (ne_of_closingWords ha (by decide)), if_neg (ne_of_closingWords ha (by decide)),
    if_neg (ne_of_closingWords ha (by decide)), if_neg (ne_of_closingWords ha (by decide)),
    if_neg (ne_of_closingWords ha (by decide)), if_pos (isName_of_closingWords ha)]
  exact .bind _ _

instance : FairOutside (singleCondition single) := by
  have hexists := fair_unaryGroup single (k := .exists_) (by decide) .exists_
  have hnot := fair_unaryGroup single (k := .not) (by decide) .not
  exact .current_grabs (inferInstanceAs (Grabs (singleCondition single))) fun a => inferInstance

end Single

instance fair_conditionWithin (levels : Nat) : FairOutside (conditionWithin levels) := by
  induction levels with
  | zero => exact ⟨fun _ hst => .error rfl rfl (.other (by simp)) hst⟩
  | succ levels ih => unfold conditionWithin; infer_instance

instance : FairOutside conditions := by
  have hcondition : FairOutside condition := .byLevels fair_conditionWithin
  unfold conditions
  infer_instance

/-! ### The block of conditions -/

instance (elements : List Condition) : FairOutside (blockElement elements) where
  inStep {k o s t} htrials hst := by
    have hconditions := (FairOutside.inStep (p := conditions) htrials hst).attempt
    refine hconditions.bind_outside (fun r => ?_) htrials fun {r r' u v} hab _ huv => ?_
    · cases r <;> infer_instance
    · cases hab with
      | ok c => exact .ok rfl rfl rfl huv
      | error e e' =>
        have hrecover := Exchanges.recoverFrom (R := fun _ _ => True) e e' conditionFollow
        exact (hrecover.bind (fun _ => trivial) fun _ => .pure rfl).inStep huv

/-- Both closing words end the conditions. -/
instance (elements : List Condition) : Impartial (elementFollows elements) := by
  have hnext : Impartial (nextIs (.endOfInput :: conditionFollow)) := Impartial.nextIs (by decide)
  unfold elementFollows
  infer_instance

def blockElements : Parser (List Condition) := repeatWhile [] elementFollows blockElement

/-- The conditions of a block are the same before either closing word. -/
instance : FairOutside blockElements := by
  have horderly : ∀ elements, Orderly (elementFollows elements) := fun elements => by
    unfold elementFollows; infer_instance
  exact .repeatWhile Repetition.block.rolls []

end Rulebook.Parser
