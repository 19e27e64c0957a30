import Rulebook.Proofs.Level
import Rulebook.Proofs.TwinNames

/-!
# Patterns in two readings

A constraint list ends at the first failure, and a list of restrictions ends before a connective
that no restriction follows, or at the end of the text. So the second reading may be astray for a
while before it reports an error: with a failure in hand, or in front of neither a comma nor a
closing parenthesis, where no pair of parentheses that is open is closed any more.
-/

namespace Rulebook.Parser

set_option synthInstance.maxSize 100000

variable {T : Readings} {s t : State}

/-! ### Restrictions -/

theorem Twin.restrictionValue (operator : String) {a b : Token} (hab : a.Like T.likeness b) :
    Twin T (Restriction.Like T.likeness) (restrictionValue operator a)
      (restrictionValue operator b) := by
  refine .of_live ?_
  unfold Parser.restrictionValue
  refine .current fun {c d} hcd => ?_
  rw [hcd.kind]
  split
  · next l hk =>
    refine .bind .advance fun _ => .bind (.closeToken hab) fun hl => .pure ?_
    rw [hcd.stringValue, hcd.text]
    exact .literal hl ..
  · exact (Twin.bind .parenCode fun hcode => .bind (.checkSemicolon hcode hcd) fun _ =>
      .bind (.closeToken hab) fun hl => .pure (.returnValue hl operator hcode)).live
  · refine .ite (by rw [hcd.isName]) (.peek fun hsymbol => .ite (hsymbol .dot (by decide)) ?_ ?_)
      (.fail (.noViableAlternative _ hcd))
    · refine (Twin.bind .dottedName ?_).live
      rintro text - rfl
      exact .bind (.closeToken hab) fun hl => .pure (.literal hl ..)
    · refine .bind .advance fun _ => .bind (.closeToken hab) fun hl => .pure ?_
      rw [hcd.text]
      exact .reference hl ..

theorem connectiveAt_like (c : Connective) {a b : Token} (h : a.Like T.likeness b) :
    (connectiveAt c a).Like T.likeness (connectiveAt c b) :=
  .connective ⟨.some h.start, .some h.stop, .some h.line, .some h.column⟩ c

theorem Twin.valueList (operator : String) (c : Connective) :
    Twin T (List.Forall₂ (Restriction.Like T.likeness)) (valueList operator c)
      (valueList operator c) := by
  unfold Parser.valueList
  refine .bind (.symbol _) fun _ => .of_live (.current fun hab => (Twin.live ?_))
  refine .bind (.restrictionValue operator hab) fun hfirst => .bind_astray ?_
    (fun hfound => .bind (.symbol _) fun _ => .pure hfound) fun _ u hu hend =>
      doomed_of_eager hu hend
  refine .repeatSymbol_end (fun _ => rfl) (fun _ => rfl)
    (fun {found found' comma comma'} hfound hcomma => .of_live (.current fun hcd => (Twin.live ?_)))
    (.cons hfirst .nil)
  exact .bind (.restrictionValue operator hcd) fun hnext =>
    .pure (List.rel_append hfound (.cons (connectiveAt_like c hcomma) (.cons hnext .nil)))

theorem Twin.restriction :
    Twin T (List.Forall₂ (Restriction.Like T.likeness)) restriction restriction := by
  have hsingle : ∀ {operator : String} {a b : Token}, a.Like T.likeness b →
      Twin T (List.Forall₂ (Restriction.Like T.likeness))
        (do return [← Parser.restrictionValue operator a])
        (do return [← Parser.restrictionValue operator b]) :=
    fun hab => .bind (.restrictionValue _ hab) fun h => .pure (.cons h .nil)
  refine .of_live ?_
  unfold Parser.restriction
  refine .current fun {a b} hab => .ite (by rw [hab.kind]) ?_
    (.ite (by rw [hab.kind]) (.bind .advance fun _ => .valueList ..)
      (.ite (by rw [hab.kind]) (.bind .advance fun _ => .of_live (.current fun {c d} hcd =>
        .ite (by rw [hcd.kind]) (.bind .advance fun _ => .valueList ..)
          (.ite (by rw [hcd.kind]) ?_ (.fail (.mismatchedSet _ hcd)))))
        (.fail (.mismatchedSet _ hab))))
  · rw [hab.text]
    exact .bind .advance fun _ => hsingle hab
  · rw [hcd.text]
    exact .bind .advance fun _ => hsingle hab

theorem LiveTwin.connectedRestriction :
    LiveTwin T (List.Forall₂ (Restriction.Like T.likeness)) connectedRestriction
      connectedRestriction :=
  .bind .advance fun _ => .restriction

/-- In front of neither a comma nor a closing parenthesis, where no pair of parentheses that is open
is closed any more. -/
structure State.Halted (t : State) : Prop where
  comma : t.cursor.current.kind ≠ .symbol .comma
  rparen : t.cursor.current.kind ≠ .symbol .rparen
  spent : t.Spent

theorem State.AtEnd.halted (h : t.AtEnd) (ht : t.cursor.triviaVisible = false) : t.Halted :=
  ⟨by rw [h.kind ht]; simp, by rw [h.kind ht]; simp, h.spent⟩

theorem State.Spent.halted (h : t.Spent) (hc : (connective? t.cursor.current.kind).isSome = true) :
    t.Halted := by
  refine ⟨fun heq => ?_, fun heq => ?_, h⟩ <;> rw [heq] at hc <;> cases hc

structure SameJoined (T : Readings) (x y : List Restriction × Bool) : Prop where
  found : List.Forall₂ (Restriction.Like T.likeness) x.1 y.1
  more : x.2 = y.2

theorem LiveTwin.joinedRestriction {x y : List Restriction × Bool} (h : SameJoined T x y) :
    LiveTwin T (SameJoined T) (joinedRestriction x) (joinedRestriction y)
      fun z u => (z.2 = false ∨ u.AtEnd) ∧ u.Halted := by
  obtain ⟨found, more⟩ := x
  obtain ⟨found', more'⟩ := y
  intro s t hst hlive
  refine Agree.step (current_eq s) (current_eq t) ?_
  rw [hlive.kind]
  cases hc : connective? t.cursor.current.kind with
  | none => exact .ok rfl rfl ⟨h.found, rfl⟩ hst
  | some c =>
    have htrial := Agree.trial (J := t.Spent) "restriction connective" hst
      (LiveTwin.connectedRestriction hst.trying hlive) id fun _ _ _ hq hspent =>
        (Level.connectedRestriction (s := t.trying) ⟨hst.second_hidden, Nat.succ_pos _⟩ hc).error hq
          0 hspent
    refine htrial.bind (fun {b b' u v} hb huv hx hy => ?_) ?_
    · subst hb
      cases b with
      | false => exact .ok rfl rfl ⟨h.found, rfl⟩ huv
      | true =>
        have hlive' : T.Live u v := by
          unfold Readings.Live
          rw [Orderly.trial_of_ok hx, Orderly.trial_of_ok hy]
          exact hlive
        exact LiveTwin.bind .advance (fun hcd => .bind .restriction fun hrs =>
          .pure ⟨List.rel_append h.found (.cons (connectiveAt_like c hcd) hrs), rfl⟩) huv hlive'
    · rintro _ v hv ⟨rfl, hcursor, hspent⟩
      have hspent' : v.Spent := by
        unfold State.Spent
        rw [hcursor]
        exact hspent
      exact .inr ⟨hv, .inl rfl, hspent'.halted (by rw [hcursor, hc]; rfl)⟩

theorem rolls_joinedRestriction :
    Rolls (fun (_, open_) => do return open_ && (connective? (← current).kind).isSome)
      joinedRestriction where
  asks _ s := ⟨_, rfl⟩
  gains {x y s u} hmore hbody := by
    have hstop : ∀ (found : List Restriction) (v : State), (fun (_, open_) => do
        return open_ && (connective? (← current).kind).isSome :
          List Restriction × Bool → Parser Bool) (found, false) v = .ok false v := fun _ _ => rfl
    obtain ⟨found, more⟩ := x
    unfold joinedRestriction at hbody
    dsimp only at hbody
    rw [bind_of_ok (current_eq s)] at hbody
    cases hc : connective? s.cursor.current.kind with
    | none =>
      rw [hc] at hbody
      cases hbody
      exact .inr (hstop found s)
    | some c =>
      rw [hc] at hbody
      obtain ⟨b, v, htrial, hbody⟩ := bind_eq_ok.1 hbody
      cases b with
      | false =>
        cases hbody
        exact .inr (hstop found _)
      | true =>
        have hcursor : v.cursor = s.cursor := by rw [Orderly.trial_of_ok htrial]
        have hend : v.cursor.current.kind ≠ .endOfInput := by
          intro heq
          rw [← hcursor, heq] at hc
          cases hc
        refine .inl ?_
        rw [← hcursor]
        exact (Orderly.evolves_ok _ hbody).length_rest_lt
          ((EagerFrom.bind_left (.advance hend)).takes hbody)

theorem Twin.restrictions :
    Twin T (List.Forall₂ (Restriction.Like T.likeness)) restrictions restrictions
      fun _ u => u.Halted := by
  unfold Parser.restrictions
  refine .bind .restriction fun hfirst => .bind_astray (R := SameJoined T)
    (K := fun z u => (z.2 = false ∨ u.AtEnd) ∧ u.Halted) ?_ (fun h => .pure h.found) ?_
  · refine .repeatWhile rolls_joinedRestriction rolls_joinedRestriction (fun {x y} h => ?_)
      .joinedRestriction (fun x u hu hx => ?_) ⟨hfirst, rfl⟩
    · obtain ⟨found, more⟩ := x
      obtain ⟨found', more'⟩ := y
      obtain rfl : more = more' := h.more
      refine .of_current (f := fun t => more && (connective? t.kind).isSome)
        (g := fun t => more && (connective? t.kind).isSome) (fun _ => rfl) (fun _ => rfl)
        (fun a b hab => by rw [hab.kind]) (fun b hb => ?_) fun t a _ ht hend =>
          .inr ⟨.inr hend, hend.halted ht.hidden⟩
      rw [hb]
      exact Bool.and_false more
    · obtain ⟨found, more⟩ := x
      rcases hx.1 with hmore | hend
      · obtain rfl : more = false := hmore
        rfl
      · show EStateM.Result.ok (more && (connective? u.cursor.current.kind).isSome) u = _
        rw [hend.kind hu.hidden]
        exact congrArg (EStateM.Result.ok · u) (Bool.and_false more)
  · rintro ⟨found, more⟩ u hu ⟨-, hhalted⟩
    exact .inr ⟨hu, hhalted⟩

/-! ### Constraints -/

theorem Twin.predicate {a b : Token} (hab : a.Like T.likeness b)
    (field declaration : Option String) :
    Twin T (Constraint.Like T.likeness) (predicate a field declaration)
      (predicate b field declaration) := by
  unfold Parser.predicate
  exact .bind .parenCode fun hcode => .bind (.checkSemicolon hcode hab) fun _ =>
    .bind (.closeToken hab) fun hl => .pure (.predicate hl hcode field declaration)

theorem LiveTwin.bindingName : LiveTwin T (· = ·) bindingName bindingName := by
  intro s t hst hlive
  have hsymbol := hst.symbol_lookahead (n := 1)
    (fun hcut => List.length_pos_iff.2 (hst.ahead_ne_nil hcut hlive))
    (T.notMem_borders (k := .symbol .colon) (by decide))
  refine Agree.step (current_eq s) (current_eq t) (Agree.step (peek_eq 1 s) (peek_eq 1 t) ?_)
  simp only [hlive.isName, hlive.text, hsymbol]
  split
  · next h =>
    rw [Bool.and_eq_true, decide_eq_true_eq] at h
    have hadvanced := hst.advanced hlive
    have hcolon : t.advanced.cursor.current = t.cursor.lookahead 2 :=
      Cursor.current_consume hst.second_hidden (Eager.ne_endOfInput_of_isName h.1)
    have hlive' := hadvanced.live_of_kind (by rw [hcolon, h.2]; simp)
    exact Agree.step (advance_eq s) (advance_eq t)
      (Agree.step (advance_eq s.advanced) (advance_eq t.advanced)
        (.ok rfl rfl rfl (hadvanced.advanced hlive')))
  · exact .ok rfl rfl rfl hst

theorem Twin.fieldConstraint {a b c d : Token} (hab : a.Like T.likeness b)
    (hcd : c.Like T.likeness d) (field : String) (declaration : Option String) :
    Twin T (List.Forall₂ (Constraint.Like T.likeness)) (fieldConstraint a c field declaration)
      (fieldConstraint b d field declaration) fun _ u => u.Halted := by
  unfold Parser.fieldConstraint
  refine (Tests.nextIsSymbol (T.notMem_borders (by decide))).choose ?_
    ((Tests.nextIs (T.apart (by decide))).choose ?_
    (.ite Iff.rfl (.pure .nil) (.failAt fun h => .mismatchedSet _ h)))
  · exact .bind .advance fun _ => .bind (.predicate hab _ _) fun h => .pure (.cons h .nil)
  · refine (Twin.bind_astray .restrictions (fun hfound => .bind (.closeToken hcd) fun hl =>
      .pure (.cons (.field hl _ hfound) .nil)) fun found u hu hk => ?_).live
    exact .inr ⟨hu, hk⟩

/-- A binding and the field after it. -/
structure SameHead (T : Readings) (x y : Option String × Token × String) : Prop where
  declaration : x.1 = y.1
  token : x.2.1.Like T.likeness y.2.1
  field : x.2.2 = y.2.2

theorem Twin.fieldHead : Twin T (SameHead T) fieldHead fieldHead := by
  refine .of_live ?_
  unfold Parser.fieldHead
  refine .bind .bindingName ?_
  rintro declaration - rfl
  exact .of_live (.current fun hab => (Twin.bind .dottedName fun h => .pure ⟨rfl, hab, h⟩).live)

theorem Twin.fieldBinding {a b : Token} (hab : a.Like T.likeness b) (field : String)
    (declaration : Option String) :
    Twin T (List.Forall₂ (Constraint.Like T.likeness)) (fieldBinding a field declaration)
      (fieldBinding b field declaration) := by
  cases declaration with
  | none => exact .pure .nil
  | some name => exact .bind (.closeToken hab) fun hl => .pure (.cons (.binding hl _ _) .nil)

abbrev SameConstraints (T : Readings) :
    Harvest (List Constraint) → Harvest (List Constraint) → Prop :=
  SameHarvest T (List.Forall₂ (Constraint.Like T.likeness))

theorem Twin.boundField {found found' : List Constraint}
    (hfound : List.Forall₂ (Constraint.Like T.likeness) found found') {a b : Token}
    (hab : a.Like T.likeness b) :
    Twin T (SameConstraints T) (boundField found a) (boundField found' b)
      (HarvestAstray State.Halted) := by
  unfold Parser.boundField
  refine .bind_cases (Twin.attempt .fieldHead) (fun x => ?_) (fun {x y} h => ?_)
    fun x u hu hk => ?_
  · rcases x with e | ⟨declaration, token, field⟩ <;> infer_instance
  · cases h with
    | error he => exact .pure ⟨hfound, .some he⟩
    | @ok x y h =>
      obtain ⟨declaration, token, field⟩ := x
      obtain ⟨declaration', token', field'⟩ := y
      obtain ⟨rfl, htoken, rfl⟩ := h
      exact .bind (.fieldBinding hab _ _) fun hbinding =>
        .harvest (.fieldConstraint hab htoken _ _) (List.rel_append hfound hbinding)
          fun h => List.rel_append (List.rel_append hfound hbinding) h
  · cases x with
    | ok x => exact hk.elim
    | error e => exact .inr ⟨hu, hk⟩

theorem LiveTwin.evalPredicate {a b : Token} (hab : a.Like T.likeness b) :
    LiveTwin T (Constraint.Like T.likeness) (evalPredicate a) (evalPredicate b) := by
  unfold Parser.evalPredicate
  exact .bind .advance fun _ => .predicate hab _ _

theorem doomed_constraint {J : State → Prop} {found : List Constraint} (ht : t.Steady)
    (hend : t.AtEnd) : Doomed (HarvestAstray J) (constraint found t) := by
  have hhead : Doomed (fun _ _ => False) (fieldHead t) := doomed_of_eager ht hend
  unfold constraint
  rw [bind_of_ok (current_eq t), hend.kind ht.hidden, if_neg (by simp), bind_of_ok (peek_eq 1 t),
    if_neg (by simp)]
  unfold boundField
  refine (doomed_attempt hhead).bind_cases (fun x => ?_) fun x u hu hk => ?_
  · rcases x with e | ⟨declaration, token, field⟩ <;> infer_instance
  · cases x with
    | ok x => exact hk.elim
    | error e => exact .inr ⟨hu, hk⟩

theorem Twin.constraint {found found' : List Constraint}
    (hfound : List.Forall₂ (Constraint.Like T.likeness) found found') :
    Twin T (SameConstraints T) (constraint found) (constraint found')
      (HarvestAstray State.Halted) := by
  have hone : ∀ {c d : Constraint}, c.Like T.likeness d →
      List.Forall₂ (Constraint.Like T.likeness) (found ++ [c]) (found' ++ [d]) :=
    fun h => List.rel_append hfound (.cons h .nil)
  intro s t hst
  rcases hst.live_or_cut with hlive | ⟨hcut, hend, -⟩
  · have hall : LiveTwin T (SameConstraints T) (Parser.constraint found)
        (Parser.constraint found') (HarvestAstray State.Halted) := by
      unfold Parser.constraint
      refine .current fun {a b} hab => .ite (by rw [hab.kind])
        (Twin.harvest (Twin.predicate hab none none).weaken hfound hone).live
        (.peek fun hsymbol => .ite (by simp only [hab.kind, hsymbol .lparen (by decide)])
          (Twin.harvest (Twin.of_live (.evalPredicate hab)).weaken hfound hone).live
          (Twin.boundField hfound hab).live)
    exact hall hst hlive
  · exact .astray hcut (doomed_constraint (hst.steady hcut) hend)

/-- Where the second reading is astray, no further constraint is read. -/
theorem HarvestAstray.stop {α : Type} {h : Harvest α} (hh : HarvestAstray State.Halted h t) :
    (do return h.failure.isNone && (← nextIsSymbol .comma) : Parser Bool) t = .ok false t := by
  obtain ⟨found, failure⟩ := h
  cases failure with
  | some e => rfl
  | none =>
    have hhalted : t.Halted := hh
    show EStateM.Result.ok (true && decide (t.cursor.current.kind = .symbol .comma)) t = _
    rw [decide_eq_false hhalted.comma]
    rfl

theorem rolls_constraints : Rolls
    (fun h : Harvest (List Constraint) => do return h.failure.isNone && (← nextIsSymbol .comma))
    (fun h => advance >>= fun _ => Parser.constraint h.found) :=
  .of_advance (fun _ => rfl) (fun _ _ => ⟨_, rfl⟩) fun h s hmore => by
    have hk : (h.failure.isNone && decide (s.cursor.current.kind = .symbol .comma)) = true :=
      (EStateM.Result.ok.inj hmore).1
    rw [Bool.and_eq_true, decide_eq_true_eq] at hk
    rw [hk.2]
    simp

theorem Twin.constraints :
    Twin T (SameConstraints T) constraints constraints (HarvestAstray State.Halted) := by
  have hstop : ∀ (h : Harvest (List Constraint)) (u : State), u.Steady →
      HarvestAstray State.Halted h u → Doomed (HarvestAstray State.Halted)
        (Parser.repeatWhile h (fun h => do return h.failure.isNone && (← nextIsSymbol .comma))
          (fun h => advance >>= fun _ => Parser.constraint h.found) u) :=
    fun _ _ hu hh => doomed_repeatWhile hu hh hh.stop
  unfold Parser.constraints
  refine (Tests.nextIsSymbol_end _).ite (Twin.pure ⟨.nil, .none⟩).live
    (.bind_astray (.constraint .nil) (fun hfirst => ?_) hstop) fun t ht hend =>
      (doomed_constraint ht hend).bind hstop
  · refine .repeatWhile rolls_constraints rolls_constraints (fun {h h'} hh => ?_)
      (fun {h h'} hh => .bind .advance fun _ => .constraint hh.found) (fun _ _ _ hh => hh.stop)
      hfirst
    have hnone : h.failure.isNone = h'.failure.isNone := by
      obtain ⟨found, failure⟩ := h
      obtain ⟨found', failure'⟩ := h'
      cases hh.failure <;> rfl
    refine ((Tests.nextIsSymbol_end .comma).and hnone).mono fun t ht hend => ?_
    unfold HarvestAstray
    split
    · exact hend.spent
    · exact hend.halted ht.hidden

/-! ### Fact patterns -/

theorem Twin.recoverParen {e e' : ParseError} (h : SameError T e e') :
    Twin T (Option.Rel T.likeness.offset) (recoverParen e) (recoverParen e') := by
  unfold Parser.recoverParen
  exact .bind (.recoverFrom h _) fun hcut => ((Tests.nextIsSymbol_end _).of_uncut hcut).choose
    (.bind .advance fun hab => .pure (.some hab.start)) (.pure .none)

theorem doomed_recoverParen {K : Option Nat → State → Prop} {e : ParseError} (ht : t.Steady)
    (hspent : t.Spent) : Doomed K (recoverParen e t) := by
  have hrecover : Doomed (fun _ _ => False) (recoverFrom e patternFollow t) :=
    doomed_recoverFrom ht hspent
  exact hrecover.bind fun _ _ _ hno => hno.elim

theorem Twin.rightParen {f f' : Option ParseError} (h : Option.Rel (SameError T) f f') :
    Twin T (Option.Rel T.likeness.offset) (rightParen f) (rightParen f') := by
  cases h with
  | some he => exact Twin.recoverParen he
  | none =>
    refine .bind_cases (.attempt (.symbol .rparen)) (fun r => ?_) (fun {r r'} hr => ?_)
      fun r u hu hk => ?_
    · cases r <;> infer_instance
    · cases hr with
      | ok hab => exact .pure (.some hab.start)
      | error he => exact .recoverParen he
    · cases r with
      | ok b => exact hk.elim
      | error e => exact doomed_recoverParen hu hk

/-- Where the second reading is astray behind a constraint list, the closing parenthesis is
missing. -/
theorem doomed_rightParen {K : Option Nat → State → Prop} {α : Type} {h : Harvest α}
    (ht : t.Steady) (hh : HarvestAstray State.Halted h t) :
    Doomed K (rightParen h.failure t) := by
  obtain ⟨found, failure⟩ := h
  cases failure with
  | some e => exact doomed_recoverParen ht hh
  | none =>
    obtain ⟨-, hk, hspent⟩ : t.Halted := hh
    have hsymbol : symbol .rparen t =
        .error (.recognition (.mismatchedToken (.symbol .rparen) t.cursor.current)) t := by
      unfold symbol
      rw [expect_eq, if_neg hk]
    have heq : rightParen none t =
        recoverParen (.mismatchedToken (.symbol .rparen) t.cursor.current) t :=
      bind_of_ok (attempt_of_recognition hsymbol)
    rw [heq]
    exact doomed_recoverParen ht hspent

theorem Twin.factPattern : Twin T (Pattern.Like T.likeness) factPattern factPattern := by
  refine .of_live ?_
  unfold Parser.factPattern
  refine .current fun {a b} hab => .bind .bindingName ?_
  rintro name - rfl
  refine .bind .dottedName ?_
  rintro objectType - rfl
  refine .bind (.symbol _) fun hleft => .bind_astray .constraints (fun hbody => ?_)
    fun h u hu hh => ?_
  · exact .bind (.rightParen hbody.failure) fun hright => .bind (.closeToken hab) fun hl =>
      .pure (.mk hl rfl rfl hbody.found .workingMemory hleft.start hright)
  · exact (doomed_rightParen (K := fun _ _ => False) hu hh).bind fun _ _ _ hno => hno.elim

end Rulebook.Parser
