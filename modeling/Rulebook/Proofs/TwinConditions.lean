import Rulebook.Proofs.TwinSources

/-!
# Conditions in two readings

Where the second text ends in a list that runs up to a closing parenthesis, the list ends in the
second reading alone, and then the parenthesis is missing.
-/

namespace Rulebook.Parser

set_option synthInstance.maxSize 100000

variable {T : Readings} {l : Likeness} {s t : State}

/-! ### Groups -/

theorem Twin.fail {α : Type} {R : α → α → Prop} {K : α → State → Prop} {e e' : ParseError}
    (h : e.Like T.likeness e') : Twin T R (Parser.fail e) (Parser.fail e') K :=
  fun _ _ hst => .error rfl rfl (.recognition (.inr h)) hst

theorem location_like {c d : Condition} (h : c.Like l d) :
    c.location.Like l d.location := by
  cases h with
  | group kind h => exact h
  | eval h => exact h
  | pattern h =>
    cases h with
    | mk location => exact location

theorem extent_like {c c' d d' : Condition} (h : c.Like l d)
    (h' : c'.Like l d') :
    Location.Like l { c.location with stop := c'.location.stop }
      { d.location with stop := d'.location.stop } :=
  ⟨(location_like h).start, (location_like h').stop, (location_like h).line,
    (location_like h).column⟩

theorem join_like (kind : Grouping) {c d : Condition} (h : c.Like l d)
    {cs ds : List Condition} (hs : List.Forall₂ (Condition.Like l) cs ds) :
    (join kind c cs).Like l (join kind d ds) := by
  unfold join
  rcases List.eq_nil_or_concat cs with rfl | ⟨cs, c', rfl⟩
  · cases hs
    exact h
  · rw [List.concat_eq_append] at hs ⊢
    obtain ⟨ds, d', rfl, hinit, hlast⟩ := forall₂_concat hs
    rw [List.getLast?_concat, List.getLast?_concat]
    exact .group kind (extent_like h hlast) (.cons h hs)

section Single

variable {single : Parser Condition}

theorem Twin.infixGroup [Orderly single] (kind : Grouping) {connectives : List TokenKind}
    (hkinds : ∀ k ∈ .endOfInput :: T.borders, k ∉ connectives)
    (h : Twin T (Condition.Like T.likeness) single single) :
    Twin T (Condition.Like T.likeness) (infixGroup kind connectives single)
      (infixGroup kind connectives single) := by
  have hrolls : Rolls (fun _ : List Condition => nextIs connectives)
      (fun others => do
        let _ ← advance
        return others ++ [← single]) :=
    .of_advance (fun _ => rfl) (fun _ _ => ⟨_, rfl⟩) fun _ s hmore heq =>
      hkinds _ List.mem_cons_self (heq ▸ (kind_of_nextIs hmore).2)
  unfold Parser.infixGroup
  refine .bind h fun hfirst => .bind (R := List.Forall₂ (Condition.Like T.likeness)) ?_
    fun hothers => .pure (join_like kind hfirst hothers)
  exact .repeatWhile hrolls hrolls (fun _ => .nextIs hkinds)
    (fun hcs => .bind .advance fun _ => .bind h fun hc =>
      .pure (List.rel_append hcs (.cons hc .nil)))
    (fun _ _ _ hno => hno.elim) .nil

theorem Twin.disjunction [T.BetweenStatements] [Orderly single]
    (h : Twin T (Condition.Like T.likeness) single single) :
    Twin T (Condition.Like T.likeness) (disjunction single) (disjunction single) :=
  .infixGroup .or (T.apartFromStatements (by decide))
    (.infixGroup .and (T.apartFromStatements (by decide)) h)

theorem Twin.operandList {α : Type} {R : α → α → Prop} {body : List α → Parser (List α)}
    [∀ as, Eager (body as)] [∀ as, Orderly (body as)]
    (h : ∀ {as bs}, List.Forall₂ R as bs → Twin T (List.Forall₂ R) (body as) (body bs))
    {as bs : List α} (hab : List.Forall₂ R as bs) :
    Twin T (List.Forall₂ R)
      (Parser.repeatWhile as (fun _ => do return !(← nextIs [.symbol .rparen, .endOfInput])) body)
      (Parser.repeatWhile bs (fun _ => do return !(← nextIs [.symbol .rparen, .endOfInput])) body)
      (fun _ => State.AtEnd) := by
  have hrolls : Rolls (fun _ : List α => do
      return !(← nextIs [.symbol .rparen, .endOfInput])) body := .of_eager fun _ s => ⟨_, rfl⟩
  refine .repeatWhile hrolls hrolls (fun _ => .nextIsNot_end (by decide))
    (fun hcs => (h hcs).weaken.live) (fun _ u hu hend => ?_) hab
  show EStateM.Result.ok (!decide _) u = _
  rw [show u.cursor.current.kind = .endOfInput from
    congrArg Token.kind (Cursor.current_of_ahead_eq_nil hu.hidden hend)]
  rfl

variable [Eager single] [Orderly single]

theorem LiveTwin.prefixGroup (h : Twin T (Condition.Like T.likeness) single single) :
    LiveTwin T (Condition.Like T.likeness) (prefixGroup single) (prefixGroup single) := by
  have hbody : ∀ {cs ds : List Condition}, List.Forall₂ (Condition.Like T.likeness) cs ds →
      Twin T (List.Forall₂ (Condition.Like T.likeness)) (do return cs ++ [← single])
        (do return ds ++ [← single]) :=
    fun hcs => .bind h fun hc => .pure (List.rel_append hcs (.cons hc .nil))
  unfold Parser.prefixGroup
  refine .bind_cases .advance
    (fun a => @Orderly.bind _ _ _ _ _ fun operands => by cases operands <;> infer_instance)
    fun {a b} hab => .bind_cases (.operandList hbody .nil)
      (fun operands => by cases operands <;> infer_instance) (fun {cs ds} hcs => ?_)
      fun ds u hu hend => ?_
  · cases hcs with
    | nil =>
      refine .failAt fun hcd => ?_
      rw [hab.text]
      exact .earlyExit _ hcd
    | cons hfirst hothers =>
      refine .bind (.symbol _) fun _ => .pure ?_
      rw [hab.kind]
      exact join_like _ hfirst hothers
  · cases ds with
    | nil => exact doomed_of_eager hu hend
    | cons => exact doomed_of_eager hu hend

theorem Twin.parenthesised [T.BetweenStatements]
    (h : Twin T (Condition.Like T.likeness) single single) :
    Twin T (Condition.Like T.likeness) (parenthesised single) (parenthesised single) := by
  unfold Parser.parenthesised
  refine .bind (.symbol _) fun _ => ?_
  exact (Tests.nextIs (T.apartFromStatements (by decide))).choose
    (.prefixGroup (h.nested .prefixed))
    (.bind (.disjunction (h.nested .group)) fun hc => .bind (.symbol _) fun _ => .pure hc)

theorem Twin.operand [T.BetweenStatements]
    (h : Twin T (Condition.Like T.likeness) single single) :
    Twin T (Condition.Like T.likeness) (operand single) (operand single) := by
  unfold Parser.operand
  exact (Tests.nextIsSymbol (T.symbol_notMem_borders _)).choose (Twin.parenthesised h).live
    (.map .sourcedPattern (fun hp => .pattern hp) fun _ _ hno => hno)

theorem Twin.unaryGroup [T.BetweenStatements] (k : Keyword) (kind : Grouping)
    (h : Twin T (Condition.Like T.likeness) single single) :
    Twin T (Condition.Like T.likeness) (unaryGroup k kind single) (unaryGroup k kind single) := by
  unfold Parser.unaryGroup
  exact .bind (.keyword k) fun hab => .bind ((Twin.operand h).nested .operand) fun hc =>
    .bind (.closeToken hab)
    fun hl => .pure (.group kind hl (.cons hc .nil))

end Single

/-! ### Single conditions -/

theorem Twin.evalCondition :
    Twin T (Condition.Like T.likeness) evalCondition evalCondition := by
  unfold Parser.evalCondition
  exact .bind (.keyword _) fun hab => .bind .parenCode fun hcode =>
    .bind (.checkSemicolon hcode hab) fun _ => .bind (.closeToken hab) fun hl =>
      .pure (.eval hl hcode)

theorem patterns_like {ps qs : List Pattern} (h : List.Forall₂ (Pattern.Like T.likeness) ps qs) :
    List.Forall₂ (Condition.Like T.likeness) (ps.map .pattern) (qs.map .pattern) :=
  List.forall₂_map_left_iff.2 (List.forall₂_map_right_iff.2 (h.imp fun _ _ hp => .pattern hp))

theorem Twin.forallCondition :
    Twin T (Condition.Like T.likeness) forallCondition forallCondition := by
  have hbody : ∀ {ps qs : List Pattern}, List.Forall₂ (Pattern.Like T.likeness) ps qs →
      Twin T (List.Forall₂ (Pattern.Like T.likeness))
        (do
          Parser.skip .comma
          return ps ++ [← Parser.factPattern])
        (do
          Parser.skip .comma
          return qs ++ [← Parser.factPattern]) :=
    fun hps => .skip_bind (.bind .factPattern fun hp => .pure (List.rel_append hps (.cons hp .nil)))
  unfold Parser.forallCondition
  refine .bind (.keyword _) fun hab => .bind (.symbol _) fun _ =>
    .bind .factPattern fun hbase =>
    .bind_astray (.operandList hbody (.cons hbase .nil)) (fun {ps qs} hps => ?_) fun qs u hu hend =>
      ?_
  · refine .ite (by rw [hps.length_eq]) (.failAt fun hcd => .earlyExit _ hcd) ?_
    exact .bind (.symbol _) fun _ => .bind (.closeToken hab) fun hl =>
      .pure (.group .forall_ hl (patterns_like hps))
  · exact doomed_of_eager hu hend

section Single

variable {single : Parser Condition} [Eager single] [Orderly single]

theorem Twin.singleCondition [T.BetweenStatements]
    (h : Twin T (Condition.Like T.likeness) single single) :
    Twin T (Condition.Like T.likeness) (singleCondition single) (singleCondition single) := by
  have hpattern : Twin T (Condition.Like T.likeness) (Condition.pattern <$> Parser.sourcedPattern)
      (Condition.pattern <$> Parser.sourcedPattern) :=
    .map .sourcedPattern (fun hp => .pattern hp) fun _ _ hno => hno
  have hthen : ∀ {p : Parser Condition}, Twin T (Condition.Like T.likeness) p p →
      Twin T (Condition.Like T.likeness) (do let c ← p; Parser.skip .semicolon; return c)
        (do let c ← p; Parser.skip .semicolon; return c) :=
    fun hp => .bind hp fun hc => .bind (.skip (T.notMem_borders (by decide))) fun _ => .pure hc
  refine .of_live ?_
  unfold Parser.singleCondition
  refine .current fun {a b} hab => Twin.live ?_
  dsimp only
  rw [hab.kind, hab.isName]
  exact .ite Iff.rfl (hthen (.unaryGroup _ _ h))
    (.ite Iff.rfl (hthen (.unaryGroup _ _ h))
    (.ite Iff.rfl (hthen .evalCondition) (.ite Iff.rfl (hthen .forallCondition)
    (.ite Iff.rfl (hthen (.parenthesised h)) (.ite Iff.rfl (hthen hpattern)
    (.fail (.noViableAlternative _ hab)))))))

end Single

theorem Twin.conditionWithin [T.BetweenStatements] (levels : Nat) :
    Twin T (Condition.Like T.likeness) (conditionWithin levels) (conditionWithin levels) := by
  induction levels with
  | zero => exact fun s t hst => .error rfl rfl (.other (by simp)) hst
  | succ levels ih => exact .singleCondition ih

theorem Twin.conditions [T.BetweenStatements] :
    Twin T (Condition.Like T.likeness) conditions conditions :=
  .disjunction (.byLevels .conditionWithin)

/-! ### Blocks -/

theorem blockLocation_like {p q : Option Token}
    (h : Option.Rel (fun a b => l.offset a.stop b.stop ∧ l.line a.line b.line ∧
      l.column a.column b.column)
      p q) {cs ds : List Condition} (hs : List.Forall₂ (Condition.Like l) cs ds) :
    (blockLocation p cs).Like l (blockLocation q ds) := by
  unfold blockLocation
  cases hs with
  | nil =>
    cases h with
    | none => exact ⟨.none, .none, .none, .none⟩
    | some hab =>
      obtain ⟨hstop, hline, hcolumn⟩ := hab
      exact ⟨.some hstop, .some hstop, .some hline, .some hcolumn⟩
  | @cons c d cs ds hfirst hs =>
    rcases List.eq_nil_or_concat cs with rfl | ⟨cs, c', rfl⟩
    · cases hs
      exact extent_like hfirst hfirst
    · rw [List.concat_eq_append] at hs ⊢
      obtain ⟨ds, d', rfl, hinit, hlast⟩ := forall₂_concat hs
      rw [← List.cons_append, ← List.cons_append, List.getLast?_concat, List.getLast?_concat]
      exact extent_like hfirst hlast

theorem Twin.blockElement [T.BetweenStatements] {cs ds : List Condition}
    (hs : List.Forall₂ (Condition.Like T.likeness) cs ds) :
    Twin T (List.Forall₂ (Condition.Like T.likeness)) (blockElement cs) (blockElement ds) := by
  unfold Parser.blockElement
  refine .bind_cases (.attempt .conditions) (fun r => ?_) (fun {r r'} hr => ?_) fun r u hu hk => ?_
  · cases r <;> infer_instance
  · cases hr with
    | ok hc => exact .pure (List.rel_append hs (.cons hc .nil))
    | error he => exact .bind (.recoverFrom he _) fun _ => .pure hs
  · cases r with
    | ok c => exact hk.elim
    | error e =>
      have hrecover : Doomed (fun _ _ => False) (Parser.recoverFrom e conditionFollow u) :=
        doomed_recoverFrom hu hk
      exact hrecover.bind fun _ _ _ hno => hno.elim

/-- A round takes a token: conditions do, and a token that begins none is skipped. -/
theorem length_shown_blockElement {a b : List Condition} {s u : State}
    (hend : s.cursor.current.kind ≠ .endOfInput)
    (hfollow : s.cursor.current.kind ∉ conditionFollow) (h : Parser.blockElement a s = .ok b u) :
    u.cursor.shown.length < s.cursor.shown.length := by
  unfold Parser.blockElement at h
  cases hc : Parser.conditions s with
  | ok c v =>
    rw [bind_of_ok (attempt_of_ok hc)] at h
    cases h
    exact Eager.takes Parser.conditions hc
  | error f v =>
    have hv := Orderly.evolves_error Parser.conditions hc
    cases f with
    | recognition e =>
      rw [bind_of_ok (attempt_of_recognition hc)] at h
      obtain ⟨_, w, hw, hrest⟩ := bind_eq_ok.1 h
      cases hrest
      have hvw := Orderly.evolves_ok _ hw
      rw [recoverFrom_eq] at hw
      split at hw
      · cases hw
      cases hw
      rcases Nat.lt_or_ge v.cursor.shown.length s.cursor.shown.length with hlt | hge
      · exact Nat.lt_of_le_of_lt hvw.length_shown_le hlt
      · have hshown : v.cursor.shown = s.cursor.shown := hv.shown_suffix.eq_of_length_le hge
        have hlast : v.cursor.last = s.cursor.last := by rw [hv.cursor]; rfl
        have hcurrent : v.cursor.current = s.cursor.current := by
          rw [Cursor.current_eq_head, Cursor.current_eq_head, hshown, hlast]
        rw [← hshown]
        exact length_shown_recovered (s := v.reported e) (hcurrent ▸ hend) (hcurrent ▸ hfollow)
    | _ =>
      rw [bind_of_error (attempt_of_error hc (by simp))] at h
      cases h

theorem kind_of_nextIsNot {kinds : List TokenKind} {s t : State}
    (h : (do return !(← nextIs kinds) : Parser Bool) s = .ok true t) :
    s.cursor.current.kind ∉ kinds := by
  have hk : (!decide (s.cursor.current.kind ∈ kinds)) = true := (EStateM.Result.ok.inj h).1
  rwa [Bool.not_eq_true', decide_eq_false_iff_not] at hk

theorem rolls_blockElement : Rolls
    (fun _ : List Condition => do return !(← nextIs (.endOfInput :: conditionFollow)))
    Parser.blockElement where
  asks _ s := ⟨_, rfl⟩
  gains {a b s u} hmore h := by
    have hnext := kind_of_nextIsNot hmore
    rw [List.mem_cons, not_or] at hnext
    exact .inl ((Orderly.evolves_ok (Parser.blockElement a) h).length_rest_lt
      (length_shown_blockElement hnext.1 hnext.2 h))

theorem Twin.blockElements [T.BetweenStatements] :
    Twin T (List.Forall₂ (Condition.Like T.likeness))
      (Parser.repeatWhile []
        (fun _ => do return !(← Parser.nextIs (.endOfInput :: conditionFollow)))
        Parser.blockElement)
      (Parser.repeatWhile []
        (fun _ => do return !(← Parser.nextIs (.endOfInput :: conditionFollow)))
        Parser.blockElement) := by
  have hend : ∀ k ∈ .endOfInput :: T.borders, k ∈ .endOfInput :: conditionFollow := fun k hk =>
    have hall : ∀ k ∈ .endOfInput :: fenceKinds, k ∈ .endOfInput :: conditionFollow := by decide
    hall k (List.cons_subset_cons _ Readings.BetweenStatements.fence hk)
  exact .repeatWhile rolls_blockElement rolls_blockElement
    (fun _ => .nextIsNot hend) (fun hcs => (Twin.blockElement hcs).live)
    (fun _ _ _ hno => hno.elim) .nil

theorem Twin.block [T.BetweenStatements] {p q : Option Token}
    (h : Option.Rel (Token.Like T.likeness) p q) :
    Twin T (Block.Like T.likeness) (block p) (block q) := by
  have hanchor :
      Option.Rel (fun a b => T.likeness.offset a.stop b.stop ∧ T.likeness.line a.line b.line ∧
      T.likeness.column a.column b.column) p q := by
    cases h with
    | none => exact .none
    | some hab => exact .some ⟨hab.stop, hab.line, hab.column⟩
  unfold Parser.block
  exact .bind (R := List.Forall₂ (Condition.Like T.likeness)) .blockElements
    fun hcs => .pure ⟨blockLocation_like hanchor hcs, hcs⟩

end Rulebook.Parser
