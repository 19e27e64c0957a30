import Rulebook.Proofs.TwinUnit

/-!
# Repetitions come to their end

Every round after which a repetition of the grammar may go on has moved the cursor, whether it read
what it was to read, failed and was recovered from, or was dropped because it nests too deep. So a
repetition comes to its end by itself: that its rounds are bounded by the tokens that remain never
ends it, and a file is read just as it would be without bounds.
-/

namespace Rulebook

/-- A cursor over the same tokens, at the same place or further on. -/
structure Cursor.Precedes (c d : Cursor) : Prop where
  front : d.front = c.front
  index : c.index ≤ d.index

namespace Cursor.Precedes

variable {c d e : Cursor}

theorem trans (h : c.Precedes d) (h' : d.Precedes e) : c.Precedes e :=
  ⟨h'.front.trans h.front, Nat.le_trans h.index h'.index⟩

theorem length_rest_le (h : c.Precedes d) : d.rest.length ≤ c.rest.length :=
  (rest_suffix h.front h.index).length_le

end Cursor.Precedes

namespace Parser

variable {α β : Type} {s t u : State}

theorem State.Evolves.precedes (h : s.Evolves t) : s.cursor.Precedes t.cursor := ⟨h.front, h.index⟩

theorem precedes_recovered (kinds : List TokenKind) (s : State) :
    s.cursor.Precedes (s.recovered kinds).cursor := by
  obtain ⟨hcursor, hindex⟩ := Orderly.recovered_eq_rewind kinds s
  exact ⟨by rw [hcursor]; rfl, hindex⟩

/-! ### Repetitions without a bound -/

/-- What a repetition comes to that no bound is set to. -/
inductive Ends (more : α → Parser Bool) (body : α → Parser α) :
    α → State → EStateM.Result Failure State α → Prop where
  | unasked {a : α} {s t : State} {f : Failure} (h : more a s = .error f t) :
      Ends more body a s (.error f t)
  | stopped {a : α} {s t : State} (h : more a s = .ok false t) : Ends more body a s (.ok a t)
  | broken {a : α} {s t u : State} {f : Failure} (h : more a s = .ok true t)
      (hbody : body a t = .error f u) : Ends more body a s (.error f u)
  | round {a b : α} {s t u : State} {r : EStateM.Result Failure State α} (h : more a s = .ok true t)
      (hbody : body a t = .ok b u) (hrest : Ends more body b u r) : Ends more body a s r

/-- Every round after which the repetition may go on moves the cursor. -/
def Advances (more : α → Parser Bool) (body : α → Parser α) : Prop :=
  ∀ {a b : α} {s t u : State}, more a s = .ok true t → body a t = .ok b u →
    s.cursor.index < u.cursor.index

namespace Rolls

variable {more : α → Parser Bool} {body : α → Parser α}

theorem ends_rounds (h : Rolls more body) {n : Nat} {a : α} {s : State}
    (hn : s.cursor.rest.length < n) : Ends more body a s (rounds more body n a s) := by
  induction n generalizing a s with
  | zero => exact absurd hn (Nat.not_lt_zero _)
  | succ n ih =>
    obtain ⟨c, hc⟩ := h.asks a s
    rw [Turns.rounds_succ hc]
    cases c with
    | false => exact .stopped hc
    | true =>
      rw [if_pos rfl]
      cases hbody : body a s with
      | error f u =>
        rw [bind_of_error hbody]
        exact .broken hc hbody
      | ok b u =>
        rw [bind_of_ok hbody]
        refine .round hc hbody ?_
        rcases h.gains hc hbody with hlt | hstop
        · exact ih (by omega)
        · have hdone : rounds more body n b u = .ok b u := by
            cases n with
            | zero => rfl
            | succ n => exact Turns.rounds_succ hstop n
          rw [hdone]
          exact .stopped hstop

theorem ends (h : Rolls more body) (a : α) (s : State) :
    Ends more body a s (repeatWhile a more body s) :=
  h.ends_rounds (Nat.lt_succ_of_le (Nat.le_of_eq s.cursor.length_rest))

/-- A repetition that has a result has come to where it does not go on. -/
theorem done (h : Rolls more body) (hmore : ∀ {a b s t}, more a s = .ok b t → t = s) {a b : α}
    (hrepeat : repeatWhile a more body s = .ok b t) : more b t = .ok false t := by
  have hends := h.ends a s
  rw [hrepeat] at hends
  clear hrepeat
  generalize hr : EStateM.Result.ok b t = r at hends
  induction hends with
  | unasked | broken => cases hr
  | stopped hstop =>
    obtain ⟨rfl, rfl⟩ := EStateM.Result.ok.inj hr
    obtain rfl := hmore hstop
    exact hstop
  | round _ _ _ ih => exact ih hr

end Rolls

/-- A repetition whose rounds take a token each. -/
structure Strides (more : α → Parser Bool) (body : α → Parser α) : Prop where
  asks : ∀ a s, ∃ c, more a s = .ok c s
  precedes : ∀ {a b s u}, body a s = .ok b u → s.cursor.Precedes u.cursor
  takes : ∀ {a b s u}, more a s = .ok true s → body a s = .ok b u →
    u.cursor.rest.length < s.cursor.rest.length

namespace Strides

variable {more : α → Parser Bool} {body : α → Parser α}

theorem of_eager [∀ a, Eager (body a)] [∀ a, Orderly (body a)]
    (h : ∀ a s, ∃ c, more a s = .ok c s) : Strides more body where
  asks := h
  precedes {a _ _ _} hbody := (Orderly.evolves_ok (body a) hbody).precedes
  takes {a _ _ _} _ hbody :=
    (Orderly.evolves_ok (body a) hbody).length_rest_lt (Eager.takes (body a) hbody)

theorem rolls (h : Strides more body) : Rolls more body where
  asks := h.asks
  gains hmore hbody := .inl (h.takes hmore hbody)

theorem advances (h : Strides more body) : Advances more body := by
  intro a b s t u hmore hbody
  obtain ⟨c, hc⟩ := h.asks a s
  obtain ⟨rfl, rfl⟩ := EStateM.Result.ok.inj (hc.symm.trans hmore)
  exact Cursor.index_lt_of_rest (h.precedes hbody).front (h.takes hc hbody)

end Strides

/-! ### Recovery in any state -/

theorem resumed_eq (e : ParseError) (kinds : List TokenKind) (s : State) :
    (do report e; recover kinds : Parser Unit) s =
      .ok () ((if 0 < s.trials then s else s.reported e).recovered kinds) :=
  (bind_of_ok (report_eq e s)).trans (recover_eq kinds _)

theorem precedes_resumed {e : ParseError} {kinds : List TokenKind}
    (h : (do report e; recover kinds : Parser Unit) s = .ok () t) : s.cursor.Precedes t.cursor := by
  have hsame : (if 0 < s.trials then s else s.reported e).cursor = s.cursor := by split <;> rfl
  rw [resumed_eq] at h
  cases h
  rw [← hsame]
  exact precedes_recovered kinds _

theorem length_rest_resumed {e : ParseError} {kinds : List TokenKind}
    (hk : s.cursor.current.kind ≠ .endOfInput) (hkinds : s.cursor.current.kind ∉ kinds)
    (h : (do report e; recover kinds : Parser Unit) s = .ok () t) :
    t.cursor.rest.length < s.cursor.rest.length := by
  have hsame : (if 0 < s.trials then s else s.reported e).cursor = s.cursor := by split <;> rfl
  rw [resumed_eq] at h
  cases h
  rw [← hsame] at hk hkinds ⊢
  obtain ⟨hcursor, hindex⟩ := Orderly.recovered_eq_rewind kinds
    (if 0 < s.trials then s else s.reported e)
  exact Cursor.length_rest_lt (by rw [hcursor]; rfl) (by rw [hcursor]; rfl) hindex
    (length_shown_recovered hk hkinds)

theorem precedes_dropDeepStatement (h : dropDeepStatement s = .ok () t) :
    s.cursor.Precedes t.cursor := by
  let P (t : State) : Prop := s.cursor.Precedes t.cursor
  rw [← after_of_ok h]
  unfold dropDeepStatement
  refine after_bind (P := P) (p := modify _) ⟨rfl, Nat.le_refl _⟩ fun h => ?_
  refine after_bind (P := P) (p := current) h fun h => ?_
  refine after_bind (P := P) (p := get) h fun h => ?_
  refine after_bind (P := P) (p := note _) h fun h => ?_
  refine after_bind (P := P) (h.trans (Orderly.from_ _).evolves.precedes) fun h => ?_
  refine after_bind (P := P) (p := modify _) h fun {_ u} h => ?_
  rw [after_of_ok (recover_eq _ u)]
  exact h.trans (precedes_recovered _ u)

/-! ### Statements and the attributes of a package -/

theorem precedes_statementOrRecovery_of_error {f : Failure} (hst : statement s = .error f u)
    (h : statementOrRecovery s = .ok () t) : u.cursor.Precedes t.cursor := by
  cases f with
  | recognition e =>
    rw [statementOrRecovery_resumes hst] at h
    exact precedes_resumed h
  | tooManyDigits n =>
    rw [statementOrRecovery_of_digits hst] at h
    cases h
  | nestingTooDeep =>
    rw [statementOrRecovery_of_nesting hst] at h
    exact precedes_dropDeepStatement h
  | cursor f => exact (Orderly.expected hst).elim

/-- Whether it reads a statement, recovers from its failure or drops it, a round takes a token. -/
theorem length_rest_statementOrRecovery (hk : s.cursor.current.kind ≠ .endOfInput)
    (h : statementOrRecovery s = .ok () t) : t.cursor.rest.length < s.cursor.rest.length := by
  cases hst : statement s with
  | ok a u =>
    rw [statementOrRecovery_of_ok hst] at h
    cases h
    exact (Orderly.evolves_ok statement hst).length_rest_lt (Eager.takes statement hst)
  | error f u =>
    rcases statement_of_error hst with ⟨n, rfl⟩ | hlt | ⟨rfl, hkinds, e, rfl⟩
    · rw [statementOrRecovery_of_digits hst] at h
      cases h
    · exact Nat.lt_of_le_of_lt (precedes_statementOrRecovery_of_error hst h).length_rest_le
        ((Orderly.evolves_error statement hst).length_rest_lt hlt)
    · rw [statementOrRecovery_resumes hst] at h
      exact length_rest_resumed hk hkinds h

theorem precedes_statementOrRecovery (h : statementOrRecovery s = .ok () t) :
    s.cursor.Precedes t.cursor := by
  cases hst : statement s with
  | ok a u =>
    rw [statementOrRecovery_of_ok hst] at h
    cases h
    exact (Orderly.evolves_ok statement hst).precedes
  | error f u =>
    exact (Orderly.evolves_error statement hst).precedes.trans
      (precedes_statementOrRecovery_of_error hst h)

theorem strides_statements : Strides unfinished anotherStatement where
  asks _ s := ⟨_, rfl⟩
  precedes hbody := by
    obtain ⟨_, v, hv, hrest⟩ := bind_eq_ok.1 hbody
    cases hrest
    exact precedes_statementOrRecovery hv
  takes hmore hbody := by
    obtain ⟨_, v, hv, hrest⟩ := bind_eq_ok.1 hbody
    cases hrest
    exact length_rest_statementOrRecovery (by simpa using kind_of_nextIsNot hmore) hv

/-- A further attribute of the package. -/
def anotherAttribute (_ : Unit) : Parser Unit := headOrRecovery packageAttribute

/-- A round goes on behind the attribute it read, or behind the keyword of one that is broken. -/
theorem anotherAttribute_of_ok {a b : Unit} (h : anotherAttribute a s = .ok b u) :
    ∃ v, s.Evolves v ∧ v.cursor.Precedes u.cursor ∧
      (s.cursor.current.kind ≠ .endOfInput → v.cursor.shown.length < s.cursor.shown.length) := by
  unfold anotherAttribute at h
  cases hp : packageAttribute s with
  | ok c v =>
    rw [headOrRecovery_of_ok hp] at h
    cases h
    obtain ⟨d, w, hw, hrest⟩ := bind_eq_ok.1 hp
    obtain ⟨_, x, hx, hskip⟩ := bind_eq_ok.1 hrest
    cases hx
    exact ⟨w, Orderly.evolves_ok ruleAttribute hw,
      (Orderly.evolves_ok (skip .comma) hskip).precedes,
      fun hne => (eager_ruleAttribute hne).takes hw⟩
  | error f v =>
    cases f with
    | recognition e =>
      obtain rfl : v = s.advanced := packageAttribute_of_recognition hp
      unfold headOrRecovery at h
      rw [bind_of_ok (attempt_of_recognition hp)] at h
      exact ⟨s.advanced, Orderly.evolves_advanced s, precedes_resumed h,
        fun hne => (EagerFrom.advance hne).takes (advance_eq s)⟩
    | _ =>
      rw [headOrRecovery_of_error hp (by simp)] at h
      cases h

theorem strides_attributes : Strides (fun _ => nextIs attributeKinds) anotherAttribute where
  asks _ s := ⟨_, rfl⟩
  precedes hbody := by
    obtain ⟨v, hsv, hvu, -⟩ := anotherAttribute_of_ok hbody
    exact hsv.precedes.trans hvu
  takes {a b s u} hmore hbody := by
    have hne : s.cursor.current.kind ≠ .endOfInput := fun heq =>
      absurd (heq ▸ (kind_of_nextIs hmore).2) (by decide)
    obtain ⟨v, hsv, hvu, hlt⟩ := anotherAttribute_of_ok hbody
    exact Nat.lt_of_le_of_lt hvu.length_rest_le (hsv.length_rest_lt (hlt hne))

/-! ### The repetitions of the grammar -/

/-- Neither a closing parenthesis nor the end of the input is ahead. -/
def unclosed {α : Type} (_ : α) : Parser Bool := do
  return !(← nextIs [.symbol .rparen, .endOfInput])

/-- A further pattern of a universal condition. -/
def anotherPattern (patterns : List Pattern) : Parser (List Pattern) := do
  skip .comma
  return patterns ++ [← factPattern]

/-- A further operand of a connective that stands before its operands. -/
def anotherOperand (single : Parser Condition) (operands : List Condition) :
    Parser (List Condition) := do
  return operands ++ [← single]

/-- A further condition of a rule or query is ahead. -/
def elementFollows (_ : List Condition) : Parser Bool := do
  return !(← nextIs (.endOfInput :: conditionFollow))

theorem strides_operands (single : Parser Condition) [Orderly single] [Eager single] :
    Strides unclosed (anotherOperand single) := by
  unfold anotherOperand
  exact .of_eager fun _ s => ⟨_, rfl⟩

theorem strides_patterns : Strides unclosed anotherPattern := by
  unfold anotherPattern
  exact .of_eager fun _ s => ⟨_, rfl⟩

theorem strides_block : Strides elementFollows blockElement where
  asks _ s := ⟨_, rfl⟩
  precedes {a _ _ _} hbody := (Orderly.evolves_ok (blockElement a) hbody).precedes
  takes {a b s u} hmore hbody := by
    have hnext := kind_of_nextIsNot hmore
    rw [List.mem_cons, not_or] at hnext
    exact (Orderly.evolves_ok (blockElement a) hbody).length_rest_lt
      (length_shown_blockElement hnext.1 hnext.2 hbody)

theorem forallCondition_eq : forallCondition = (do
    let token ← keyword .forall_
    let _ ← symbol .lparen
    let base ← factPattern
    let patterns ← repeatWhile [base] unclosed anotherPattern
    if patterns.length < 2 then fail (.earlyExit "forall" (← current))
    let _ ← symbol .rparen
    return .group .forall_ (← close (.ofToken token)) (patterns.map .pattern)) :=
  rfl

theorem eager_chunkPart (opening closing : Symbol) (stops : List Symbol) (inner : Parser String)
    [Eager inner] [Orderly inner] (x : String × Bool) :
    Eager (chunkPart opening closing stops inner x) := by
  obtain ⟨text, isOpen⟩ := x
  refine .of_current fun s => ?_
  split
  · exact .bind_left (Eager.from_ (p := inner) s)
  · split
    · next h => exact .bind_left (.advance (by rw [h]; simp))
    · split
      · exact .of_fail _ s
      · next h => exact .bind_left (.advance fun heq => h (.inl heq))

/-- The repetitions of the grammar: what asks for a further round, and the round. -/
inductive Repetition : {α : Type} → (α → Parser Bool) → (α → Parser α) → Prop where
  | dottedName : Repetition (fun _ => nextIsSymbol .dot) fun text => do
      let _ ← advance
      let part ← name
      return text ++ "." ++ part.text
  | importTarget :
      Repetition (fun (_, closed) => do return !closed && (← nextIsSymbol .dot)) importPart
  | genericArguments : Repetition (fun (_, depth) => return depth ≠ 0) genericRound
  | arraySuffixes {α : Type} (grow : α → α) : Repetition (fun _ =>
      nextIsSymbol .lbracket) fun a => do
      let _ ← advance
      let _ ← symbol .rbracket
      return grow a
  | parameterList : Repetition (fun _ => nextIsSymbol .comma) fun ps => do
      let _ ← advance
      return ps ++ [← parameter]
  | chunk (opening closing : Symbol) (stops : List Symbol) (levels : Nat) :
      Repetition (fun (_, isOpen) => return isOpen)
        (chunkPart opening closing stops (nested .code (chunkWithin opening closing stops levels)))
  | valueList (operator : String) (c : Connective) :
      Repetition (fun _ => nextIsSymbol .comma) fun found => do
        let comma ← advance
        let next ← restrictionValue operator (← current)
        return found ++ [connectiveAt c comma, next]
  | restrictions : Repetition
      (fun (_, open_) => do return open_ && (connective? (← current).kind).isSome) joinedRestriction
  | constraints : Repetition
      (fun h : Harvest (List Constraint) => do
        return h.failure.isNone && (← nextIsSymbol .comma)) fun h => do
      let _ ← advance
      constraint h.found
  | accesses : Repetition (fun _ => nextIs [.symbol .dot, .symbol .lbracket]) access
  | infix_ {connectives : List TokenKind} (hkinds : connectives ∈ [orKinds, andKinds])
      (operand : Parser Condition) [Orderly operand] :
      Repetition (fun _ => nextIs connectives) fun others => do
        let _ ← advance
        return others ++ [← operand]
  | prefix_ (levels : Nat) :
      Repetition unclosed (anotherOperand (nested .prefixed (conditionWithin levels)))
  | forall_ : Repetition unclosed anotherPattern
  | block : Repetition elementFollows blockElement
  | ruleAttributes : Repetition
      (fun h : Harvest Rule => do return h.failure.isNone && (← nextIs attributeKinds)) addAttribute
  | consequence : Repetition (fun _ => do return !(← nextIs [.keyword .end_, .endOfInput]))
      fun text => do return text ++ (← advance).text
  | template : Repetition
      (fun _ => do
        let token ← current
        return token.kind ≠ .keyword .end_ && token.isName)
      fun slots => do return slots ++ [← slot]
  | packageAttributes : Repetition (fun _ => nextIs attributeKinds) anotherAttribute
  | statements : Repetition unfinished anotherStatement

theorem Repetition.rolls {more : α → Parser Bool} {body : α → Parser α} (h : Repetition more body) :
    Rolls more body := by
  cases h with
  | dottedName => exact .of_symbol fun _ => rfl
  | importTarget => exact .of_eager fun _ s => ⟨_, rfl⟩
  | genericArguments => exact .of_eager fun _ s => ⟨_, rfl⟩
  | arraySuffixes grow => exact .of_symbol fun _ => rfl
  | parameterList => exact .of_symbol fun _ => rfl
  | chunk opening closing stops levels =>
    have hpart := eager_chunkPart opening closing stops
      (nested .code (chunkWithin opening closing stops levels))
    exact .of_eager fun _ s => ⟨_, rfl⟩
  | valueList operator c => exact .of_symbol fun _ => rfl
  | restrictions => exact rolls_joinedRestriction
  | constraints => exact rolls_constraints
  | accesses => exact .of_eager fun _ s => ⟨_, rfl⟩
  | infix_ hkinds operand =>
    have hend : ∀ kinds ∈ [orKinds, andKinds], TokenKind.endOfInput ∉ kinds := by decide
    exact .of_advance (fun _ => rfl) (fun _ _ => ⟨_, rfl⟩) fun _ s hmore heq =>
      hend _ hkinds (heq ▸ (kind_of_nextIs hmore).2)
  | prefix_ levels => exact (strides_operands (nested .prefixed (conditionWithin levels))).rolls
  | forall_ => exact strides_patterns.rolls
  | block => exact rolls_blockElement
  | ruleAttributes => exact rolls_addAttribute
  | consequence =>
    refine .of_advance (fun _ => rfl) (fun _ _ => ⟨_, rfl⟩) fun _ s hmore heq => ?_
    have hk : (!decide (s.cursor.current.kind ∈ [TokenKind.keyword .end_, .endOfInput])) = true :=
      (EStateM.Result.ok.inj hmore).1
    rw [heq] at hk
    exact absurd hk (by decide)
  | template => exact .of_eager fun _ s => ⟨_, rfl⟩
  | packageAttributes => exact strides_attributes.rolls
  | statements => exact strides_statements.rolls

/-! ### Whole files -/

/-- What comes of two parts of a parse one after the other. -/
inductive Then (P : State → EStateM.Result Failure State α → Prop)
    (Q : α → State → EStateM.Result Failure State β → Prop) :
    State → EStateM.Result Failure State β → Prop where
  | broken {s t : State} {f : Failure} (h : P s (.error f t)) : Then P Q s (.error f t)
  | resumed {s t : State} {a : α} {r : EStateM.Result Failure State β} (h : P s (.ok a t))
      (hrest : Q a t r) : Then P Q s r

theorem Then.of_bind {P : State → EStateM.Result Failure State α → Prop}
    {Q : α → State → EStateM.Result Failure State β → Prop} {p : Parser α} {f : α → Parser β}
    (hp : ∀ s, P s (p s)) (hf : ∀ a s, Q a s (f a s)) (s : State) : Then P Q s ((p >>= f) s) := by
  cases h : p s with
  | ok a t =>
    rw [bind_of_ok h]
    exact .resumed (h ▸ hp s) (hf a t)
  | error e t =>
    rw [bind_of_error h]
    exact .broken (h ▸ hp s)

/-- The part of a file before the attributes of its package. -/
def unitStart : Parser Unit := do
  let first ← current
  locatePackage fun l => { Location.ofToken first with stop := l.stop }
  if ← nextIsKeyword .package then headOrRecovery (packageStatement false)

theorem compilationUnit_eq_loops : compilationUnit = unitStart >>= fun _ =>
    repeatWhile () (fun _ => nextIs attributeKinds) anotherAttribute >>= fun _ =>
      repeatWhile 0 unfinished anotherStatement >>= closeUnit := by
  unfold compilationUnit unitHead unitStart
  simp only [bind_assoc]
  congr
  funext first
  congr
  funext _
  congr
  funext b
  cases b <;> simp only [if_true, Bool.false_eq_true, if_false, bind_assoc, pure_bind] <;> rfl

/-- What comes of a whole file if no bound is set to its attributes and its statements. -/
def UnitEnds : State → EStateM.Result Failure State Package → Prop :=
  Then (fun s r => unitStart s = r) fun _ =>
    Then (Ends (fun _ => nextIs attributeKinds) anotherAttribute ()) fun _ =>
      Then (Ends unfinished anotherStatement 0) fun n s r => closeUnit n s = r

theorem compilationUnit_ends (s : State) : UnitEnds s (compilationUnit s) := by
  rw [compilationUnit_eq_loops]
  exact .of_bind (fun _ => rfl)
    (fun _ => .of_bind (strides_attributes.rolls.ends ()) fun _ =>
      .of_bind (strides_statements.rolls.ends 0) fun _ _ => rfl) s

/-- Parsing gets on, in any state over any tokens. Each round of the attributes of a package, of the
statements, of the conditions of a rule or query, of a universal condition and of a connective
before its operands that does not end the repetition moves the cursor on. No bound ever ends a
repetition, so a whole file is read as it would be without bounds, and that comes to an end. -/
theorem parsing_gets_on :
    (Advances (fun _ => nextIs attributeKinds) anotherAttribute ∧
      Advances unfinished anotherStatement ∧ Advances elementFollows blockElement ∧
      Advances unclosed anotherPattern ∧
      ∀ levels, Advances unclosed (anotherOperand (nested .prefixed (conditionWithin levels)))) ∧
    (∀ {α : Type} {more : α → Parser Bool} {body : α → Parser α}, Repetition more body →
      ∀ a s, Ends more body a s (repeatWhile a more body s)) ∧
    ∀ s, UnitEnds s (compilationUnit s) :=
  ⟨⟨strides_attributes.advances, strides_statements.advances, strides_block.advances,
      strides_patterns.advances,
      fun levels => (strides_operands (nested .prefixed (conditionWithin levels))).advances⟩,
    fun h => h.rolls.ends, compilationUnit_ends⟩

/-- A statement that begins with no keyword is skipped. -/
theorem parsing_gets_on_stray :
    let s := State.ofText 900 {} "stray" "oops rule R when then end"
    (∃ n t, anotherStatement 0 s = .ok n t ∧ s.cursor.index < t.cursor.index) ∧
      UnitEnds s (compilationUnit s) := by
  intro s
  obtain ⟨⟨-, hstatements, -⟩, -, hunit⟩ := parsing_gets_on
  refine ⟨?_, hunit s⟩
  cases h : anotherStatement 0 s with
  | ok n t =>
    have hmore : unfinished 0 s = .ok true s := by
      have hk : s.cursor.current.kind ≠ .endOfInput := by decide +kernel
      show EStateM.Result.ok (!decide (s.cursor.current.kind ∈ [.endOfInput])) s = _
      rw [decide_eq_false (by simpa using hk)]
      rfl
    exact ⟨n, t, rfl, hstatements hmore h⟩
  | error f t =>
    have hok : (match anotherStatement 0 s with
        | .ok _ _ => true
        | .error _ _ => false) = true := by
      decide +kernel
    rw [h] at hok
    cases hok

end Parser

end Rulebook
