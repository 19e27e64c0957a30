import Rulebook.Proofs.ScannedText
import Rulebook.Proofs.Totality
import Rulebook.Proofs.TwinNames
import Rulebook.Proofs.TwinRules

/-!
# Compilation units in two readings

The keyword that begins a declaration cannot end a statement, so there is a token after it in both
readings. Import targets read no further than such tokens, so that the trial of a function import
gives the same answer in both.

Between two statements the second reading is at the end of its text or the next tokens are alike. A
statement that goes astray records an error when it is recovered from.
-/

namespace Rulebook.Parser

variable {frames : Nat}

set_option synthInstance.maxSize 100000

variable {α β : Type} {T : Readings} {s t : State}

/-! ### Declarations -/

section Declarations

variable [T.BetweenStatements]

/-- A keyword that cannot end a statement, and what follows it. -/
theorem Agree.opening {cut : Prop} {R : α → α → Prop} {K : α → State → Prop} {k : Keyword}
    (hk : TokenKind.keyword k ∉ closerKinds) {f g : Token → Parser α} (hst : T.Abreast s t)
    (hlive : T.Live s t)
    (h : ∀ {a b : Token} {u v : State}, a.Like T.likeness b → T.Abreast u v → T.Live u v →
      Agree T cut R K (f a u) (g b v)) :
    Agree T cut R K ((keyword k >>= f) s) ((keyword k >>= g) t) := by
  unfold Parser.keyword
  refine (Agree.expect_live (K := fun _ _ => False) _ hst hlive).sure fun {a b u v} hab huv hx hy =>
    ?_
  obtain ⟨-, -, rfl⟩ := expect_of_ok hx
  obtain ⟨hb, hkind, rfl⟩ := expect_of_ok hy
  refine h hab huv (hst.live_advanced hlive ?_)
  rw [← hb, hkind, List.mem_cons, not_or]
  exact ⟨by simp, hk⟩

/-! ### Packages -/

omit [T.BetweenStatements] in
theorem named_like (hname : ∀ n, T.likeness.name n n) (name : String) {p q : Package}
    (h : p.Like T.likeness q) : Package.Like T.likeness { p with name } { q with name } :=
  { h with name := hname name }

theorem LiveTwin.packageStatement {duplicate : Bool}
    (hname : duplicate = false → ∀ n, T.likeness.name n n) :
    LiveTwin T (fun _ _ => True) (packageStatement duplicate) (packageStatement duplicate) := by
  intro s t hst hlive
  unfold Parser.packageStatement
  refine .opening (by decide) hst hlive fun {a b u v} hab huv hlive' => ?_
  refine (Agree.dottedName huv hlive').sure fun {name _ w x} hname' hwx _ _ => ?_
  subst hname'
  refine (Agree.skip (T.symbol_notMem_borders .semicolon) hwx).sure fun _ hyz _ _ => ?_
  cases duplicate with
  | true => exact Twin.report (.inr (.failedPredicate _ hab)) hyz
  | false =>
    exact .ok rfl rfl trivial { hyz with package := named_like (hname rfl) name hyz.package }

/-! ### Imports -/

theorem Agree.importStatement (hst : T.Abreast s t) (hlive : T.Live s t) :
    Agree T False (Import.Like T.likeness) (fun _ _ => False) (importStatement s)
      (importStatement t) := by
  unfold Parser.importStatement
  refine .opening (by decide) hst hlive fun {a b u v} hab huv hlive' => ?_
  refine (Agree.importTarget huv hlive').sure fun {target _ w x} htarget hwx _ _ => ?_
  subst htarget
  refine (Agree.skip (T.symbol_notMem_borders .semicolon) hwx).sure fun _ hyz _ _ => ?_
  refine (Agree.close (K := fun _ _ => False) hyz (.ofToken hab) rfl).sure
    fun {l m i j} hl hij _ _ => ?_
  have hnode : Import.Like T.likeness ⟨l, target⟩ ⟨m, target⟩ := ⟨hl, rfl⟩
  refine Agree.sure (.declare (K := fun _ _ => False) hij fun {p q} h => ?_)
    fun _ hkl _ _ => .ok rfl rfl hnode hkl
  exact { h with imports := h.imports.append hnode }

theorem Agree.functionImport (hst : T.Abreast s t) (hlive : T.Live s t) :
    Agree T False (Import.Like T.likeness) (fun _ _ => False) (functionImport s)
      (functionImport t) := by
  unfold Parser.functionImport
  refine .opening (by decide) hst hlive fun {a b u v} hab huv hlive' => ?_
  refine .opening (by decide) huv hlive' fun {_ _ u' v'} _ huv' hlive'' => ?_
  refine (Agree.importTarget huv' hlive'').sure fun {target _ w x} htarget hwx _ _ => ?_
  subst htarget
  refine (Agree.skip (T.symbol_notMem_borders .semicolon) hwx).sure fun _ hyz _ _ => ?_
  refine (Agree.close (K := fun _ _ => False) hyz (.ofToken hab) rfl).sure
    fun {l m i j} hl hij _ _ => ?_
  have hnode : Import.Like T.likeness ⟨l, target⟩ ⟨m, target⟩ := ⟨hl, rfl⟩
  refine Agree.sure (.declare (K := fun _ _ => False) hij fun {p q} h => ?_)
    fun _ hkl _ _ => .ok rfl rfl hnode hkl
  exact { h with functionImports := h.functionImports.append hnode }

theorem Agree.trialImport (hst : T.Abreast s t) (hlive : T.Live s t) :
    Agree T T.cut (· = ·) (fun _ _ => False)
      (Parser.trial "function import" Parser.functionImport s)
      (Parser.trial "function import" Parser.functionImport t) :=
  (Agree.trial "function import" (c := False) (J := False) hst
    (Agree.functionImport hst.trying hlive) False.elim fun hno => hno.elim).mono id
      (fun _ _ h => h) fun _ _ hno => hno.2.2

/-! ### Globals and functions -/

theorem LiveTwin.globalStatement :
    LiveTwin T (Global.Like T.likeness) globalStatement globalStatement := by
  unfold Parser.globalStatement
  refine .bind (.keyword _) fun hab => .bind .typeName ?_
  rintro type _ rfl
  refine .bind .name fun {n m} hname => .bind (.skip (T.symbol_notMem_borders _)) fun _ =>
    .bind (.closeToken hab) fun {l l'} hl => ?_
  have hnode : Global.Like T.likeness ⟨l, type, n.text⟩ ⟨l', type, m.text⟩ := ⟨hl, rfl, hname.text⟩
  exact .bind (.declare fun h => { h with globals := h.globals.append hnode }) fun _ => .pure hnode

theorem LiveTwin.returnType? : LiveTwin T (· = ·) returnType? returnType? := by
  intro s t hst hlive
  have hsymbol := hst.symbol_lookahead (n := 1)
    (fun hcut => List.length_pos_iff.2 (hst.ahead_ne_nil hcut hlive))
    (T.symbol_notMem_borders .lparen)
  refine Agree.step (current_eq s) (current_eq t) (Agree.step (peek_eq 1 s) (peek_eq 1 t) ?_)
  simp only [hlive.isName, hsymbol]
  split
  · exact .ok rfl rfl rfl hst
  · exact Twin.map .typeName (fun h => congrArg some h) (fun _ _ hno => hno) hst

theorem LiveTwin.functionStatement :
    LiveTwin T (Function.Like T.likeness) functionStatement functionStatement := by
  intro s t hst hlive
  unfold Parser.functionStatement
  refine .opening (by decide) hst hlive fun {a b u v} hab huv hlive' => ?_
  refine (LiveTwin.returnType? huv hlive').seq fun {returnType _ w x} htype hwx _ _ => ?_
  subst htype
  refine Twin.bind .name (fun {n m} hname => .bind .parameters ?_) hwx
  rintro parameters _ rfl
  refine .bind .curlyChunk fun {c d} hbody => fun y z hyz => ?_
  refine Agree.step (a := y) (b := z) rfl rfl ?_
  refine Twin.bind (.closeToken hab) (fun {l l'} hl => ?_) hyz
  have hnode : Function.Like T.likeness
      ⟨l, n.text, returnType, parameters, withoutDelimiters c, dialectOf y.package.attributes⟩
      ⟨l', m.text, returnType, parameters, withoutDelimiters d, dialectOf z.package.attributes⟩ :=
    ⟨hl, hname.text, rfl, rfl, hbody, T.dialect hyz.package.attributes⟩
  exact .bind (.declare fun h => { h with functions := h.functions.append hnode }) fun _ =>
    .pure hnode

/-! ### Templates -/

theorem Twin.slot : Twin T (Slot.Like T.likeness) slot slot := by
  refine .of_live ?_
  unfold Parser.slot
  refine .current fun hab => Twin.live (.bind .typeName ?_)
  rintro type _ rfl
  exact .bind .name fun hname => .bind (.skip (T.symbol_notMem_borders _)) fun _ =>
      .bind (.closeToken hab) fun hl =>
    .pure ⟨hl, hname.text, rfl⟩

/-- Where the second text ends in a template, the word that follows may be the type of a slot in the
first reading. In the second one the `end` of the template is missing then. -/
theorem Twin.slots {as bs : List Slot} (h : List.Forall₂ (Slot.Like T.likeness) as bs) :
    Twin T (List.Forall₂ (Slot.Like T.likeness))
      (Parser.repeatWhile as (fun _ => do
        let token ← Parser.current
        return token.kind ≠ .keyword .end_ && token.isName)
          fun slots => do return slots ++ [← Parser.slot])
      (Parser.repeatWhile bs (fun _ => do
        let token ← Parser.current
        return token.kind ≠ .keyword .end_ && token.isName)
          fun slots => do return slots ++ [← Parser.slot])
      fun _ => State.AtEnd := by
  have hrolls : Rolls (fun _ : List Slot => do
      let token ← Parser.current
      return token.kind ≠ .keyword .end_ && token.isName)
      (fun slots => do return slots ++ [← Parser.slot]) := .of_eager fun _ s => ⟨_, rfl⟩
  have hname : ∀ b : Token, b.kind = .endOfInput →
      (decide (b.kind ≠ .keyword .end_) && b.isName) = false := by
    intro b hb
    rw [Bool.and_eq_false_iff]
    exact .inr (Bool.eq_false_iff.2 fun h => Eager.ne_endOfInput_of_isName h hb)
  refine .repeatWhile hrolls hrolls (fun _ => ?_) (fun hs => ?_) (fun _ u hu hend => ?_) h
  · exact .of_current (f := fun t => decide (t.kind ≠ .keyword .end_) && t.isName)
      (g := fun t => decide (t.kind ≠ .keyword .end_) && t.isName) (fun _ => rfl) (fun _ => rfl)
      (fun _ _ hab => by rw [hab.kind, hab.isName]) hname fun _ _ _ _ hend => .inr hend
  · exact (Twin.bind .slot fun hslot => .pure (List.rel_append hs (.cons hslot .nil))).weaken.live
  · exact congrArg (EStateM.Result.ok · u)
      (hname _ (congrArg Token.kind (Cursor.current_of_ahead_eq_nil hu.hidden hend)))

theorem LiveTwin.templateStatement :
    LiveTwin T (Template.Like T.likeness) templateStatement templateStatement := by
  unfold Parser.templateStatement
  refine .bind (.keyword _) fun {a b} hab => .bind (.of_live .title) ?_
  rintro title _ rfl
  refine .bind (.skip (T.symbol_notMem_borders _)) fun _ =>
    .bind_astray (.slots .nil) (fun {as bs} hs => ?_)
    fun bs u hu hend => doomed_of_eager hu hend
  have hempty : as.isEmpty = bs.isEmpty := by cases hs <;> rfl
  refine .ite (by rw [hempty]) (.failAt fun hcd => .earlyExit _ hcd) ?_
  refine .bind (.keyword _) fun _ => .bind (.skip (T.symbol_notMem_borders _)) fun _ =>
    .bind (.closeToken hab)
    fun {l l'} hl => ?_
  have hnode : Template.Like T.likeness ⟨l, title, as⟩ ⟨l', title, bs⟩ := ⟨hl, rfl, hs⟩
  exact .bind (.declare fun h => { h with templates := h.templates.append hnode }) fun _ =>
    .pure hnode

end Declarations

/-! ### Statements -/

theorem LiveTwin.importChoice [T.BetweenStatements] : LiveTwin T (fun _ _ => True)
    (do if ← trial "function import" functionImport then let _ ← functionImport
        else let _ ← importStatement)
    (do if ← trial "function import" functionImport then let _ ← functionImport
        else let _ ← importStatement) := by
  intro s t hst hlive
  refine (Agree.trialImport hst hlive).seq fun {c d u v} hcd huv hx hy => ?_
  subst hcd
  have hlive' : T.Live u v := by
    rw [Orderly.trial_of_ok hx, Orderly.trial_of_ok hy]
    exact hlive
  cases c with
  | true => exact (Agree.functionImport huv hlive').sure fun _ hwx _ _ => .ok rfl rfl trivial hwx
  | false => exact (Agree.importStatement huv hlive').sure fun _ hwx _ _ => .ok rfl rfl trivial hwx

theorem LiveTwin.statement [T.BetweenStatements] :
    LiveTwin T (fun _ _ => True) statement statement := by
  have hthen : ∀ {γ : Type} {R : γ → γ → Prop} {p : Parser γ}, LiveTwin T R p p →
      LiveTwin T (fun _ _ => True) (do let _ ← p) (do let _ ← p) :=
    fun h => .bind h fun _ => .pure trivial
  unfold Parser.statement
  refine .current fun {a b} hab => ?_
  rw [hab.kind]
  generalize b.kind = kind
  split
  · exact .importChoice
  · exact hthen .globalStatement
  · exact hthen .functionStatement
  · exact hthen .templateStatement
  · exact hthen .ruleStatement
  · exact hthen .queryStatement
  · exact .packageStatement fun h => by cases h
  · exact .fail (.noViableAlternative _ hab)

/-! ### Recovery between statements -/

theorem dead_dropped (ht : Idle t) (hsteady : t.Steady) : t.dropped.Dead := by
  let event := Event.nestingTooDeep t.collector.sourceName t.cursor.current.line
    t.cursor.current.column
  let u := (t.noted event).remarked "nesting too deep" t.cursor.current
  have hu : u.Dead := dead_remarked (t := t.noted event)
    ⟨hsteady.hidden, hsteady.uncapped, hsteady.honest⟩ _ _
  exact (Orderly.evolves_recovered statementStart (s := { u with ruleName := none })
    ht.trials).dead hu

/-- What is wrong with a statement is recorded, unless the parse is given up. -/
theorem doomed_statementOrRecovery (ht : Idle t) (hsteady : t.Steady)
    (h : ∀ {a u}, statement t = .ok a u → u.Dead) :
    Doomed (fun _ _ => False) (statementOrRecovery t) := by
  cases hstatement : statement t with
  | ok a u =>
    rw [statementOrRecovery_of_ok hstatement]
    exact .inl (h hstatement)
  | error f u =>
    have htu := Orderly.evolves_error _ hstatement
    have hu := ht.evolves htu
    cases f with
    | recognition e =>
      rw [statementOrRecovery_of_recognition hstatement hu.trials]
      exact .inl ((Orderly.evolves_recovered _ (s := u.reported e) hu.trials).dead
        (dead_reported (htu.steady hsteady) e))
    | tooManyDigits n =>
      rw [statementOrRecovery_of_digits hstatement]
      exact .inr (.inr (by simp))
    | nestingTooDeep =>
      rw [statementOrRecovery_of_nesting hstatement, dropDeepStatement_eq hu]
      exact .inl (dead_dropped hu (htu.steady hsteady))
    | cursor f => exact (Orderly.expected hstatement).elim

theorem dropped_abreast (hst : T.Abreast s t) (hcut : ¬T.cut) : T.Abreast s.dropped t.dropped := by
  have hlive : T.Live s t := hst.live_or_cut.resolve_right fun hc => hcut hc.1
  have hremarked := hst.remark hcut hlive "nesting too deep"
  refine Readings.Abreast.recover ?_ hcut statementStart
  exact { hremarked with ruleName := rfl }

theorem Agree.statementOrRecovery [T.BetweenStatements] (hs : Idle s) (ht : Idle t)
    (hst : T.Abreast s t) (hlive : T.Live s t) :
    Agree T T.cut (fun _ _ => True) (fun _ _ => False) (statementOrRecovery s)
      (statementOrRecovery t) := by
  by_cases hcut : T.cut
  · cases LiveTwin.statement hst hlive with
    | ok hx hy _ huv =>
      exact .ok (statementOrRecovery_of_ok hx) (statementOrRecovery_of_ok hy) trivial huv
    | error hx hy hfg huv =>
      refine .astray hcut (doomed_statementOrRecovery ht (hst.steady hcut) fun h => ?_)
      rw [hy] at h
      cases h
    | astray _ hy =>
      refine .astray hcut (doomed_statementOrRecovery ht (hst.steady hcut) fun h => ?_)
      rw [h] at hy
      exact hy.resolve_right fun hno => hno.2
  · cases LiveTwin.statement hst hlive with
    | ok hx hy _ huv =>
      exact .ok (statementOrRecovery_of_ok hx) (statementOrRecovery_of_ok hy) trivial huv
    | error hx hy hfg huv =>
      have hu := hs.evolves (Orderly.evolves_error _ hx)
      have hv := ht.evolves (Orderly.evolves_error _ hy)
      cases hfg with
      | recognition he =>
        exact .ok (statementOrRecovery_of_recognition hx hu.trials)
          (statementOrRecovery_of_recognition hy hv.trials) trivial
          ((huv.report hcut (he.resolve_left hcut)).recover hcut statementStart)
      | other hne =>
        rename_i f u v
        cases f with
        | recognition e => exact absurd rfl (hne e)
        | tooManyDigits n =>
          exact .error (statementOrRecovery_of_digits hx) (statementOrRecovery_of_digits hy)
            (.other hne) huv
        | nestingTooDeep =>
          exact .ok ((statementOrRecovery_of_nesting hx).trans (dropDeepStatement_eq hu))
            ((statementOrRecovery_of_nesting hy).trans (dropDeepStatement_eq hv)) trivial
            (dropped_abreast huv hcut)
        | cursor f => exact (Orderly.expected hy).elim
    | astray h => exact absurd h hcut

/-! ### Repetitions between statements -/

/-- A repetition of productions that start and end between statements and take a token each. -/
structure Turns (more : α → Parser Bool) (body : α → Parser α) : Prop where
  asks : ∀ a s, ∃ c, more a s = .ok c s
  settles : ∀ a {s}, Idle s → Settles (body a) s
  gains : ∀ {a b : α} {s u : State}, Idle s → more a s = .ok true s → body a s = .ok b u →
    u.cursor.ahead.length < s.cursor.ahead.length

namespace Turns

variable {more : α → Parser Bool} {body : α → Parser α}

theorem idle (h : Turns more body) {a b : α} {u : State} (hs : Idle s)
    (hbody : body a s = .ok b u) : Idle u :=
  hs.evolves ((h.settles a hs).evolves_ok hbody)

theorem rounds_succ {c : Bool} {a : α} (hmore : more a s = .ok c s) (n : Nat) :
    rounds more body (n + 1) a s =
      (if c then (body a >>= fun b => rounds more body n b) else pure a : Parser α) s :=
  bind_of_ok hmore

theorem done (h : Turns more body) {n : Nat} {a b : α} (hs : Idle s)
    (hn : s.cursor.ahead.length < n) (hrounds : rounds more body n a s = .ok b t) :
    more b t = .ok false t := by
  induction n generalizing a s with
  | zero => exact absurd hn (Nat.not_lt_zero _)
  | succ n ih =>
    obtain ⟨c, hc⟩ := h.asks a s
    rw [rounds_succ hc] at hrounds
    cases c with
    | false => cases hrounds; exact hc
    | true =>
      obtain ⟨d, u, hu, hrest⟩ := bind_eq_ok.1 hrounds
      have hlt := h.gains hs hc hu
      exact ih (h.idle hs hu) (by omega) hrest

/-- The number of rounds does not matter once it is large enough. -/
theorem rounds_eq (h : Turns more body) {n m : Nat} {a : α} (hs : Idle s)
    (hn : s.cursor.ahead.length < n) (hm : s.cursor.ahead.length < m) :
    rounds more body n a s = rounds more body m a s := by
  induction n generalizing m a s with
  | zero => exact absurd hn (Nat.not_lt_zero _)
  | succ n ih =>
    obtain ⟨m, rfl⟩ : ∃ k, m = k + 1 := ⟨m - 1, by omega⟩
    obtain ⟨c, hc⟩ := h.asks a s
    rw [rounds_succ hc, rounds_succ hc]
    cases c with
    | false => rfl
    | true =>
      rw [if_pos rfl, if_pos rfl]
      cases hbody : body a s with
      | error f u => rw [bind_of_error hbody, bind_of_error hbody]
      | ok b u =>
        rw [bind_of_ok hbody, bind_of_ok hbody]
        have hlt := h.gains hs hc hbody
        exact ih (h.idle hs hbody) (by omega) (by omega)

end Turns

/-- What a repetition comes to after some of its rounds. -/
def Reaches (more : α → Parser Bool) (body : α → Parser α) (a : α) (s : State) (b : α) (t : State) :
    Prop :=
  ∃ k, ∀ n, rounds more body (n + k) a s = rounds more body n b t

theorem Reaches.trans {more : α → Parser Bool} {body : α → Parser α} {a b c : α} {s t u : State}
    (h : Reaches more body a s b t) (h' : Reaches more body b t c u) :
    Reaches more body a s c u := by
  obtain ⟨j, hj⟩ := h
  obtain ⟨k, hk⟩ := h'
  refine ⟨k + j, fun n => ?_⟩
  rw [← Nat.add_assoc, hj, hk]

variable {R : α → α → Prop} {more more' : α → Parser Bool} {body body' : α → Parser α}

/-- Whenever the second reading asks for a further round, so does the first, and they agree
on it. -/
def Alongside (T : Readings) (R : α → α → Prop) (more more' : α → Parser Bool)
    (body body' : α → Parser α) : Prop :=
  ∀ ⦃a b : α⦄ ⦃s t : State⦄, R a b → T.Abreast s t → Idle s → Idle t → more' b t = .ok true t →
    more a s = .ok true s ∧ Agree T T.cut R (fun _ _ => False) (body a s) (body' b t)

/-- The first reading goes along with the second one for as many rounds as that takes. -/
theorem Turns.alongside (h : Turns more body) (h' : Turns more' body')
    (hround : Alongside T R more more' body body') (n : Nat) {a b : α} (hab : R a b)
    (hst : T.Abreast s t) (hs : Idle s) (ht : Idle t) :
    (T.cut ∧ Doomed (fun _ _ => False) (rounds more' body' n b t)) ∨
    (∃ a' b' u v, rounds more' body' n b t = .ok b' v ∧ R a' b' ∧ T.Abreast u v ∧ Idle u ∧ Idle v ∧
      Reaches more body a s a' u) ∨
    ∃ f g u v k, rounds more' body' n b t = .error g v ∧ SameFailure T f g ∧ T.Abreast u v ∧
      ∀ n, rounds more body (n + k) a s = .error f u := by
  induction n generalizing a b s t with
  | zero => exact .inr (.inl ⟨a, b, s, t, rfl, hab, hst, hs, ht, 0, fun _ => rfl⟩)
  | succ n ih =>
    obtain ⟨c, hc⟩ := h'.asks b t
    rw [rounds_succ hc]
    cases c with
    | false => exact .inr (.inl ⟨a, b, s, t, rfl, hab, hst, hs, ht, 0, fun _ => rfl⟩)
    | true =>
      obtain ⟨hmore, hbody⟩ := hround hab hst hs ht hc
      rw [if_pos rfl]
      cases hbody with
      | @ok a' b' u v hx hy hab' huv =>
        have hstep : ∀ k, rounds more body (k + 1) a s = rounds more body k a' u := fun k => by
          rw [rounds_succ hmore, if_pos rfl, bind_of_ok hx]
        rw [bind_of_ok hy]
        rcases ih hab' huv (h.idle hs hx) (h'.idle ht hy) with hdoomed |
            ⟨a'', b'', u', v', hrounds, hab'', huv', hu', hv', k, hk⟩ |
            ⟨f, g, u', v', k, hrounds, hfg, huv', hk⟩
        · exact .inl hdoomed
        · exact .inr (.inl ⟨a'', b'', u', v', hrounds, hab'', huv', hu', hv', k + 1,
            fun n => (hstep (n + k)).trans (hk n)⟩)
        · exact .inr (.inr ⟨f, g, u', v', k + 1, hrounds, hfg, huv',
            fun n => (hstep (n + k)).trans (hk n)⟩)
      | @error f g u v hx hy hfg huv =>
        refine .inr (.inr ⟨f, g, u, v, 1, bind_of_error hy, hfg, huv, fun k => ?_⟩)
        rw [rounds_succ hmore, if_pos rfl, bind_of_error hx]
      | astray hcut hy =>
        refine .inl ⟨hcut, ?_⟩
        cases hb : body' b t with
        | error g v =>
          rw [hb] at hy
          rw [bind_of_error hb]
          exact hy
        | ok b' v =>
          rw [hb] at hy
          rw [bind_of_ok hb]
          have hdead : v.Dead := hy.resolve_right fun hno => hno.2
          have hsettles := @rounds_settles _ _ more' body'
            (fun {a s} _ => by
              obtain ⟨c, hc⟩ := h'.asks a s
              exact .of_ok hc (.refl s))
            (fun {a s} => h'.settles a) n b' (h'.idle ht hb)
          cases hrest : rounds more' body' n b' v with
          | ok d w => exact .inl ((hsettles.evolves_ok hrest).dead hdead)
          | error f w => exact .inl ((hsettles.evolves_error hrest).dead hdead)

/-- Two repetitions that stop together agree. -/
theorem Turns.agree (h : Turns more body) (h' : Turns more' body')
    (hround : Alongside T R more more' body body')
    (hstop : ∀ {a b s t}, R a b → T.Abreast s t → more' b t = .ok false t → more a s = .ok false s)
    {a b : α} (hab : R a b) (hst : T.Abreast s t) (hs : Idle s) (ht : Idle t) :
    Agree T T.cut R (fun _ _ => False) (repeatWhile a more body s)
      (repeatWhile b more' body' t) := by
  have hfirst : ∀ k, repeatWhile a more body s =
      rounds more body (s.cursor.remaining + 1 + k) a s := fun k =>
    h.rounds_eq hs (Nat.lt_succ_of_le s.cursor.length_ahead_le_remaining)
      (Nat.lt_of_lt_of_le (Nat.lt_succ_of_le s.cursor.length_ahead_le_remaining)
        (Nat.le_add_right _ _))
  have hsecond : repeatWhile b more' body' t = rounds more' body' (t.cursor.remaining + 1) b t :=
    rfl
  rw [hsecond]
  rcases h.alongside h' hround (t.cursor.remaining + 1) hab hst hs ht with ⟨hcut, hdoomed⟩ |
      ⟨a', b', u, v, hrounds, hab', huv, hu, hv, k, hk⟩ | ⟨f, g, u, v, k, hrounds, hfg, huv, hk⟩
  · exact .astray hcut hdoomed
  · refine .ok ?_ hrounds hab' huv
    have hlast := h'.done ht (Nat.lt_succ_of_le t.cursor.length_ahead_le_remaining) hrounds
    rw [hfirst k, hk, rounds_succ (hstop hab' huv hlast)]
    rfl
  · exact .error ((hfirst k).trans (hk _)) hrounds hfg huv

/-! ### Statements -/

/-- Tokens are ahead. -/
def unfinished (_ : Nat) : Parser Bool := do return !(← nextIs [.endOfInput])

/-- One more statement. -/
def anotherStatement (n : Nat) : Parser Nat := do
  statementOrRecovery
  return n + 1

theorem turns_statements : Turns unfinished anotherStatement where
  asks _ s := ⟨_, rfl⟩
  settles n {s} hs := (statementOrRecovery_settles hs).bind fun {_ u} _ => .of_ok rfl (.refl u)
  gains {n m s u} hs hmore hbody := by
    obtain ⟨_, v, hv, hrest⟩ := bind_eq_ok.1 hbody
    cases hrest
    have hk : (!decide (s.cursor.current.kind ∈ [TokenKind.endOfInput])) = true :=
      (EStateM.Result.ok.inj hmore).1
    exact length_ahead_statementOrRecovery hs (by simpa using hk) hv

/-! ### The head of a unit -/

theorem headOrRecovery_of_ok {p : Parser Unit} (h : p s = .ok () t) :
    headOrRecovery p s = .ok () t := by
  unfold headOrRecovery
  exact bind_of_ok (attempt_of_ok h)

theorem headOrRecovery_of_error {p : Parser Unit} {f : Failure} (h : p s = .error f t)
    (hf : ∀ e, f ≠ .recognition e) : headOrRecovery p s = .error f t := by
  unfold headOrRecovery
  exact bind_of_error (attempt_of_error h hf)

theorem Agree.headOrRecovery {p : Parser Unit} (hp : ∀ {s}, Idle s → OrderlyFrom p s) (hs : Idle s)
    (ht : Idle t) (hst : T.Abreast s t)
    (h : Agree T T.cut (fun _ _ => True) (fun _ _ => False) (p s) (p t)) :
    Agree T T.cut (fun _ _ => True) (fun _ _ => False) (headOrRecovery p s)
      (headOrRecovery p t) := by
  have hreported : ∀ {e u}, T.cut → p t = .error (.recognition e) u →
      Doomed (fun _ _ => False) (Parser.headOrRecovery p t) := by
    intro e u hcut hy
    have htu := (hp ht).evolves_error hy
    have hu := (ht.evolves htu).trials
    rw [headOrRecovery_of_recognition hy hu]
    exact .inl ((Orderly.evolves_recovered _ (s := u.reported e) hu).dead
      (dead_reported (htu.steady (hst.steady hcut)) e))
  cases h with
  | ok hx hy _ huv => exact .ok (headOrRecovery_of_ok hx) (headOrRecovery_of_ok hy) trivial huv
  | error hx hy hfg huv =>
    cases hfg with
    | recognition he =>
      by_cases hcut : T.cut
      · exact .astray hcut (hreported hcut hy)
      · exact .ok (headOrRecovery_of_recognition hx (hs.evolves ((hp hs).evolves_error hx)).trials)
          (headOrRecovery_of_recognition hy (ht.evolves ((hp ht).evolves_error hy)).trials) trivial
          ((huv.report hcut (he.resolve_left hcut)).recover hcut _)
    | other hne =>
      exact .error (headOrRecovery_of_error hx hne) (headOrRecovery_of_error hy hne)
        (.other hne) huv
  | astray hcut hy =>
    refine .astray hcut ?_
    cases hq : p t with
    | ok a u =>
      rw [hq] at hy
      rw [headOrRecovery_of_ok hq]
      exact hy
    | error f u =>
      cases f with
      | recognition e => exact hreported hcut hq
      | _ =>
        rw [headOrRecovery_of_error hq (by simp)]
        exact .inr (.inr (by simp))

theorem Agree.packageAttribute [T.BetweenStatements]
    (hput : ∀ {as bs : Attributes} {a b : Attribute},
      T.likeness.defaults as bs → a.Like T.likeness b → T.likeness.defaults (as.put a) (bs.put b))
    (hst : T.Abreast s t) (hlive : T.Live s t) :
    Agree T T.cut (fun _ _ => True) (fun _ _ => False) (packageAttribute s)
      (packageAttribute t) := by
  unfold Parser.packageAttribute
  refine (Agree.ruleAttribute hst hlive).sure fun {a b u v} hab huv _ _ => ?_
  refine Agree.step (a := ()) (b := ())
    (u := u.declared fun p => { p with attributes := p.attributes.put a })
    (v := v.declared fun p => { p with attributes := p.attributes.put b }) rfl rfl ?_
  exact (Agree.skip (T.symbol_notMem_borders .comma) (huv.declared { huv.package with
    attributes := hput huv.package.attributes hab })).weaken

theorem attributeValue_of_recognition {token : Token} {e : ParseError}
    (h : attributeValue token s = .error (.recognition e) t) : t = s := by
  have hexpect : ∀ {kind : TokenKind} {f : Failure} {u : State},
      Parser.expect kind s = .error f u → u = s := by
    intro kind f u h
    rw [expect_eq] at h
    split at h <;> cases h
    rfl
  unfold attributeValue at h
  split at h
  · cases hvalue : Parser.expect (.literal .int) s with
    | error f u =>
      rw [bind_of_error hvalue] at h
      cases h
      exact hexpect hvalue
    | ok value u =>
      rw [bind_of_ok hvalue] at h
      obtain ⟨hlong, hshort⟩ := Orderly.integer_eq value u
      rcases Nat.lt_or_ge Text.digitLimit value.digits.length with hlt | hle
      · rw [bind_of_error (hlong hlt)] at h
        cases h
      · obtain ⟨n, hn⟩ := hshort hle
        rw [bind_of_ok hn] at h
        cases h
  · split at h
    · by_cases hk : s.cursor.current.kind = .literal .bool
      · have haccept : accept (.literal .bool) s = .ok (some s.cursor.current) s.advanced := by
          unfold accept
          rw [bind_of_ok (current_eq s), if_pos hk]
          rfl
        rw [bind_of_ok haccept] at h
        cases h
      · rw [bind_of_ok (accept_of_ne hk)] at h
        cases h
    · split at h
      · cases hvalue : Parser.expect (.literal .string) s with
        | error f u =>
          rw [bind_of_error hvalue] at h
          cases h
          exact hexpect hvalue
        | ok value u =>
          rw [bind_of_ok hvalue] at h
          cases h
      · cases h
        rfl

theorem skip_eq_ok (k : Symbol) (s : State) : ∃ t, skip k s = .ok () t := by
  by_cases hk : s.cursor.current.kind = .symbol k
  · refine ⟨s.advanced, (bind_of_ok (a := some s.cursor.current) ?_).trans rfl⟩
    unfold accept
    rw [bind_of_ok (current_eq s), if_pos hk]
    rfl
  · exact ⟨s, (bind_of_ok (accept_of_ne hk)).trans rfl⟩

theorem packageAttribute_of_recognition {e : ParseError}
    (h : packageAttribute s = .error (.recognition e) t) : t = s.advanced := by
  unfold packageAttribute at h
  cases hattribute : ruleAttribute s with
  | ok a u =>
    rw [bind_of_ok hattribute] at h
    obtain ⟨v, hv⟩ := skip_eq_ok .comma
      { u with package := { u.package with attributes := u.package.attributes.put a } }
    cases hv.symm.trans h
  | error f u =>
    rw [bind_of_error hattribute] at h
    cases h
    unfold ruleAttribute at hattribute
    rw [bind_of_ok (advance_eq s)] at hattribute
    cases hvalue : attributeValue s.cursor.current s.advanced with
    | ok value u =>
      rw [bind_of_ok hvalue] at hattribute
      cases hattribute
    | error f u =>
      rw [bind_of_error hvalue] at hattribute
      cases hattribute
      exact attributeValue_of_recognition hvalue

theorem turns_attributes : Turns (fun _ : Unit => nextIs attributeKinds)
    fun _ => headOrRecovery packageAttribute where
  asks _ s := ⟨_, rfl⟩
  settles _ {s} hs := headOrRecovery_settles hs (packageAttribute_from hs)
  gains {a b s u} hs hmore hbody := by
    have hne : s.cursor.current.kind ≠ .endOfInput := fun heq =>
      absurd (heq ▸ (kind_of_nextIs hmore).2) (by decide)
    cases hp : packageAttribute s with
    | ok c v =>
      rw [headOrRecovery_of_ok hp] at hbody
      cases hbody
      obtain ⟨d, w, hw, hrest⟩ := bind_eq_ok.1 hp
      obtain ⟨_, x, hx, hskip⟩ := bind_eq_ok.1 hrest
      cases hx
      have hlt : w.cursor.ahead.length < s.cursor.ahead.length :=
        (eager_ruleAttribute hne).shortens hs.hidden hw
      exact Nat.lt_of_le_of_lt (Orderly.evolves_ok _ hskip).length_ahead_le hlt
    | error f v =>
      cases f with
      | recognition e =>
        obtain rfl : v = s.advanced := packageAttribute_of_recognition hp
        have hadvanced := hs.evolves (Orderly.evolves_advanced s)
        rw [headOrRecovery_of_recognition hp hadvanced.trials] at hbody
        cases hbody
        have hlt := (EagerFrom.advance hne).shortens hs.hidden (advance_eq s)
        exact Nat.lt_of_le_of_lt (Orderly.evolves_recovered _ (s := s.advanced.reported e)
          hadvanced.trials).length_ahead_le hlt
      | _ =>
        rw [headOrRecovery_of_error hp (by simp)] at hbody
        cases hbody

/-- A sequence of productions that start and end between statements. -/
theorem Agree.bind_idle {p q : Parser α} {f g : α → Parser β} {R' : β → β → Prop} (hs : Idle s)
    (ht : Idle t) (hp : OrderlyFrom p s) (hq : OrderlyFrom q t)
    (hg : ∀ b {v}, Idle v → OrderlyFrom (g b) v)
    (h : Agree T T.cut R (fun _ _ => False) (p s) (q t))
    (hf : ∀ {a b u v}, R a b → T.Abreast u v → Idle u → Idle v →
      Agree T T.cut R' (fun _ _ => False) (f a u) (g b v)) :
    Agree T T.cut R' (fun _ _ => False) ((p >>= f) s) ((q >>= g) t) := by
  cases h with
  | ok hx hy hab huv =>
    rw [bind_of_ok hx, bind_of_ok hy]
    exact hf hab huv (hs.evolves (hp.evolves_ok hx)) (ht.evolves (hq.evolves_ok hy))
  | error hx hy hfg huv => exact .error (bind_of_error hx) (bind_of_error hy) hfg huv
  | astray hcut hy =>
    refine .astray hcut ?_
    cases hb : q t with
    | error f v =>
      rw [hb] at hy
      rw [bind_of_error hb]
      exact hy
    | ok b v =>
      rw [hb] at hy
      rw [bind_of_ok hb]
      have hdead : v.Dead := hy.resolve_right fun hno => hno.2
      have hrest := hg b (ht.evolves (hq.evolves_ok hb))
      cases hc : g b v with
      | ok c w => exact .inl ((hrest.evolves_ok hc).dead hdead)
      | error f w => exact .inl ((hrest.evolves_error hc).dead hdead)

section Head

variable [T.BetweenStatements]
  (hput : ∀ {as bs : Attributes} {a b : Attribute}, T.likeness.defaults as bs →
  a.Like T.likeness b → T.likeness.defaults (as.put a) (bs.put b))

include hput

theorem Agree.attributes (hs : Idle s) (ht : Idle t) (hst : T.Abreast s t) :
    Agree T T.cut (fun _ _ => True) (fun _ _ => False)
      (Parser.repeatWhile () (fun _ => nextIs attributeKinds)
        (fun _ => Parser.headOrRecovery Parser.packageAttribute) s)
      (Parser.repeatWhile () (fun _ => nextIs attributeKinds)
        (fun _ => Parser.headOrRecovery Parser.packageAttribute) t) := by
  refine turns_attributes.agree turns_attributes (fun _ _ u v _ huv hu hv hmore => ?_)
    (fun {_ _ u v} _ huv hmore => ?_) trivial hst hs ht
  · have hk := (kind_of_nextIs hmore).2
    have hlive : T.Live u v := huv.live_of_kind fun heq => absurd (heq ▸ hk) (by decide)
    refine ⟨?_, .headOrRecovery packageAttribute_from hu hv huv (.packageAttribute hput huv hlive)⟩
    show EStateM.Result.ok (decide (u.cursor.current.kind ∈ attributeKinds)) u = _
    rw [hlive.kind, decide_eq_true hk]
  · have hk : v.cursor.current.kind ∉ attributeKinds :=
      of_decide_eq_false (EStateM.Result.ok.inj hmore).1
    show EStateM.Result.ok (decide (u.cursor.current.kind ∈ attributeKinds)) u = _
    rcases huv.live_or_cut with hlive | ⟨-, -, hfence⟩
    · rw [hlive.kind, decide_eq_false hk]
    · rw [decide_eq_false fun hmem => ?_]
      have hdisjoint : ∀ k ∈ fenceKinds, k ∉ attributeKinds := by decide
      exact hdisjoint _ (Readings.BetweenStatements.fence hfence) hmem

theorem Agree.unitHead (hname : ∀ n, T.likeness.name n n) (hs : Idle s) (ht : Idle t)
    (hst : T.Abreast s t) :
    Agree T T.cut (fun _ _ => True) (fun _ _ => False) (unitHead s) (unitHead t) := by
  unfold Parser.unitHead
  rcases Tests.nextIsKeyword (k := .package) (T.notMem_borders (by decide)) hst with
    ⟨c, hx, hy, hlive⟩ | ⟨-, -, hno⟩
  · refine Agree.step hx hy ?_
    cases c with
    | false => exact .attributes hput hs ht hst
    | true =>
      have hsettles : ∀ {s}, Idle s → Settles (Parser.headOrRecovery (packageStatement false)) s :=
        fun hs => headOrRecovery_settles hs (packageStatement_from hs false)
      refine .bind_idle hs ht (hsettles hs).toOrderlyFrom (hsettles ht).toOrderlyFrom
        (fun _ v hv => ?_) (.headOrRecovery (packageStatement_from · false) hs ht hst
          (LiveTwin.packageStatement (fun _ => hname) hst (hlive rfl)))
        fun _ huv hu hv => .attributes hput hu hv huv
      refine OrderlyFrom.bind (.of_ok (p := get) rfl (.refl v)) fun h => ?_
      cases h
      exact (rounds_settles (fun {_ s} _ => .of_ok (nextIs_eq attributeKinds s) (.refl s))
        (fun hs => headOrRecovery_settles hs (packageAttribute_from hs)) _ () hv).toOrderlyFrom
  · exact hno.elim

end Head

/-! ### The statements of a unit -/

def Counts (k m n : Nat) : Prop := m = k + n

theorem alongside_statements [T.BetweenStatements] (k : Nat) : Alongside T (Counts k)
    unfinished unfinished anotherStatement anotherStatement := by
  intro m n s t hmn hst hs ht hmore
  have hk : (!decide (t.cursor.current.kind ∈ [TokenKind.endOfInput])) = true :=
    (EStateM.Result.ok.inj hmore).1
  have hlive : T.Live s t := hst.live_of_kind (by simpa using hk)
  refine ⟨?_, ?_⟩
  · show EStateM.Result.ok (!decide (s.cursor.current.kind ∈ [TokenKind.endOfInput])) s = _
    rw [hlive.kind, hk]
  · have hbody := Agree.statementOrRecovery hs ht hst hlive
    cases hbody with
    | ok hx hy _ huv =>
      exact .ok ((bind_of_ok hx).trans rfl) ((bind_of_ok hy).trans rfl)
        (by rw [Counts, hmn, Nat.add_assoc]) huv
    | error hx hy hfg huv => exact .error (bind_of_error hx) (bind_of_error hy) hfg huv
    | astray hcut hy =>
      refine .astray hcut (hy.bind fun _ _ _ hno => hno.elim)

theorem Agree.statements [T.BetweenStatements] (hcut : ¬T.cut) {k : Nat} (hst : T.Abreast s t)
    (hs : Idle s) (ht : Idle t) :
    Agree T T.cut (Counts k) (fun _ _ => False)
      (Parser.repeatWhile k unfinished anotherStatement s) (Parser.statements t) := by
  refine turns_statements.agree turns_statements (alongside_statements k)
    (fun {m n u v} _ huv hmore => ?_) (by rfl) hst hs ht
  have hlive : T.Live u v := huv.live_or_cut.resolve_right fun hc => hcut hc.1
  have hk : (!decide (v.cursor.current.kind ∈ [TokenKind.endOfInput])) = false :=
    (EStateM.Result.ok.inj hmore).1
  show EStateM.Result.ok (!decide (u.cursor.current.kind ∈ [TokenKind.endOfInput])) u = _
  rw [hlive.kind, hk]

/-! ### Whole units -/

theorem ended_abreast (hcut : ¬T.cut) (n : Nat) (hst : T.Abreast s t) :
    T.Abreast (s.ended n) (t.ended n) := by
  have hlive : T.Live s t := hst.live_or_cut.resolve_right fun hc => hcut hc.1
  have hlocated : ∀ {u v : State} {f g : Location → Location}, T.Abreast u v →
      T.Abreast (u.declared fun p => { p with location := f p.location })
        (v.declared fun p => { p with location := g p.location }) :=
    fun huv => huv.declared { huv.package with }
  unfold State.ended
  rw [hst.trials]
  split
  · exact hlocated (f := (·.closeAt _)) (g := (·.closeAt _)) (hst.report hcut (.earlyExit _ hlive))
  · exact hlocated (f := (·.closeAt _)) (g := (·.closeAt _)) hst

def State.begun (s : State) : State := s.declared fun p =>
  { p with location := { Location.ofToken s.cursor.current with stop := p.location.stop } }

theorem compilationUnit_eq (s : State) :
    compilationUnit s = (do unitHead; closeUnit (← statements)) s.begun :=
  rfl

theorem Idle.begun (hs : Idle s) : Idle s.begun := hs.evolves (Orderly.evolves_declared _ hs.trials)

theorem begun_abreast (hst : T.Abreast s t) : T.Abreast s.begun t.begun :=
  hst.declared { hst.package with }

theorem Agree.compilationUnit [T.BetweenStatements] (hcut : ¬T.cut)
    (hput : ∀ {as bs : Attributes} {a b : Attribute},
      T.likeness.defaults as bs → a.Like T.likeness b → T.likeness.defaults (as.put a) (bs.put b))
    (hname : ∀ n, T.likeness.name n n) (hs : Idle s) (ht : Idle t) (hst : T.Abreast s t) :
    Agree T T.cut (fun p q => p.Like T.likeness q) (fun _ _ => False) (compilationUnit s)
      (compilationUnit t) := by
  have hclose : ∀ n {s}, Idle s → OrderlyFrom (closeUnit n) s := fun n {s} hs =>
    .of_ok (closeUnit_eq n s) (evolves_ended n hs.trials)
  rw [compilationUnit_eq, compilationUnit_eq]
  refine .bind_idle hs.begun ht.begun (unitHead_settles hs.begun).toOrderlyFrom
    (unitHead_settles ht.begun).toOrderlyFrom (fun _ v hv => ?_)
    (.unitHead hput hname hs.begun ht.begun (begun_abreast hst)) fun {_ _ u v} _ huv hu hv => ?_
  · exact (statements_settles hv).1.toOrderlyFrom.bind fun h =>
      hclose _ (hv.evolves ((statements_settles hv).1.evolves_ok h))
  · refine .bind_idle hu hv (statements_settles hu).1.toOrderlyFrom
      (statements_settles hv).1.toOrderlyFrom (fun n _ h => hclose n h)
      (.statements hcut (k := 0) huv hu hv) fun {m n w x} hmn hwx _ _ => ?_
    obtain rfl : m = n := hmn.trans (Nat.zero_add n)
    exact .ok (closeUnit_eq m w) (closeUnit_eq m x) (ended_abreast hcut m hwx).package
      (ended_abreast hcut m hwx)

/-! ### The beginning of a text -/

theorem rest_ofText (frames : Nat) (settings : Settings) (sourceName text : String) :
    (State.ofText frames settings sourceName text).cursor.rest =
    tokens settings.hashComments text := by
  show (Cursor.ofTokens _ text).rest = _
  rw [ofTokens_eq]
  rfl

theorem index_ofText (frames : Nat) (settings : Settings) (sourceName text : String) :
    (State.ofText frames settings sourceName text).cursor.index = 0 := by
  show (Cursor.ofTokens _ text).index = _
  rw [ofTokens_eq]

theorem previous_ofText (frames : Nat) (settings : Settings) (sourceName text : String) :
    (State.ofText frames settings sourceName text).cursor.previous = none := by
  unfold Cursor.previous
  rw [index_ofText]
  rfl

theorem abreast_ofText (frames : Nat) {settings : Settings} (hmax : settings.maxErrors = none)
    (sourceName : String) {a b : String}
    (hfirst : T.first = .ofTokens (scan a settings.hashComments) a)
    (hsecond : T.second = .ofTokens (scan b settings.hashComments) b)
    (hleft : T.leftAfter (tokens settings.hashComments a) (tokens settings.hashComments b))
    (hpackage : Package.Like T.likeness {} {}) :
    T.Abreast (.ofText frames settings sourceName a) (.ofText frames settings sourceName b) where
  first := by rw [hfirst]; rfl
  second := by rw [hsecond]; rfl
  first_le := by rw [index_ofText]; exact Nat.zero_le _
  second_le := by rw [index_ofText]; exact Nat.zero_le _
  left := by rw [rest_ofText, rest_ofText]; exact T.left_of_after hleft
  after _ := by rw [rest_ofText, rest_ofText]; exact hleft
  previous := by rw [previous_ofText, previous_ofText]; exact .inl .none
  trials := rfl
  stack := rfl
  ruleName := rfl
  package := hpackage
  recovered := .none _ _
  reported := ⟨rfl, hmax, hmax, rfl, .nil⟩
  clean _ := by
    refine ⟨rfl, fun _ h => ?_, rfl⟩
    rcases h with h | h <;> cases h

end Rulebook.Parser
