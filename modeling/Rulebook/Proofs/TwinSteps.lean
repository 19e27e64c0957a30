import Rulebook.Proofs.Twins

/-!
# Twin primitives

Failures as values, reports and recovery, trials, declarations and embedded code, each as its own
twin. Where a failure becomes a value the second reading may be astray with the failure in hand; it
is reported before anything else is read.
-/

namespace Rulebook.Parser

variable {α β : Type} {T : Readings} {R : α → α → Prop} {R' : β → β → Prop}
  {K : α → State → Prop} {s t : State}

/-! ### Failures as values -/

def SameError (T : Readings) (e e' : ParseError) : Prop := T.cut ∨ e.Like T.likeness e'

inductive SameResult (T : Readings) (R : α → α → Prop) :
    Except ParseError α → Except ParseError α → Prop where
  | ok {a b : α} (h : R a b) : SameResult T R (.ok a) (.ok b)
  | error {e e' : ParseError} (h : SameError T e e') : SameResult T R (.error e) (.error e')

def ResultAstray (K : α → State → Prop) : Except ParseError α → State → Prop
  | .ok b, t => K b t
  | .error _, t => t.Spent

theorem doomed_attempt {q : Parser α} (h : Doomed K (q t)) :
    Doomed (ResultAstray K) (attempt q t) := by
  cases hq : q t with
  | ok b u =>
    rw [hq] at h
    rw [attempt_of_ok hq]
    exact h
  | error f u =>
    rw [hq] at h
    cases f with
    | recognition e =>
      rw [attempt_of_recognition hq]
      rcases h with hdead | hspent | hne
      · exact .inl hdead
      · exact .inr hspent
      · exact absurd rfl (hne e)
    | _ =>
      rw [attempt_of_error hq (by simp)]
      exact h

theorem Agree.attempt {cut : Prop} {p q : Parser α} (h : Agree T cut R K (p s) (q t)) :
    Agree T cut (SameResult T R) (ResultAstray K) (attempt p s) (attempt q t) := by
  cases h with
  | ok hx hy hab huv => exact .ok (attempt_of_ok hx) (attempt_of_ok hy) (.ok hab) huv
  | error hx hy hfg huv =>
    cases hfg with
    | recognition h =>
      exact .ok (attempt_of_recognition hx) (attempt_of_recognition hy) (.error h) huv
    | other h => exact .error (attempt_of_error hx h) (attempt_of_error hy h) (.other h) huv
  | astray hcut hy => exact .astray hcut (doomed_attempt hy)

theorem Twin.attempt {p q : Parser α} (h : Twin T R p q K) :
    Twin T (SameResult T R) (attempt p) (attempt q) (ResultAstray K) :=
  fun _ _ hst => (h hst).attempt

/-- What two readings built, and the errors that stopped them. -/
structure SameHarvest (T : Readings) (R : α → α → Prop) (h h' : Harvest α) : Prop where
  found : R h.found h'.found
  failure : Option.Rel (SameError T) h.failure h'.failure

def HarvestAstray (J : State → Prop) (h : Harvest α) (t : State) : Prop :=
  match h.failure with
  | some _ => t.Spent
  | none => J t

theorem doomed_harvest {q : Parser β} {J : State → Prop} {found : α} {add : α → β → α}
    (h : Doomed (fun _ => J) (q t)) : Doomed (HarvestAstray J) (harvest found q add t) := by
  unfold Parser.harvest
  rw [map_eq_bind]
  refine (doomed_attempt h).bind fun b u hu hb => .inr ⟨hu, ?_⟩
  cases b <;> exact hb

theorem Agree.harvest {cut : Prop} {p q : Parser β} {J : State → Prop} {found found' : α}
    {add add' : α → β → α} (h : Agree T cut R' (fun _ => J) (p s) (q t)) (hfound : R found found')
    (hadd : ∀ {c d}, R' c d → R (add found c) (add' found' d)) :
    Agree T cut (SameHarvest T R) (HarvestAstray J) (harvest found p add s)
      (harvest found' q add' t) := by
  refine h.attempt.map (fun {a b} hab => ?_) fun b u hb => ?_
  · cases hab with
    | ok hcd => exact ⟨hadd hcd, .none⟩
    | error he => exact ⟨hfound, .some he⟩
  · cases b <;> exact hb

theorem Twin.harvest {p q : Parser β} {J : State → Prop} {found found' : α} {add add' : α → β → α}
    (h : Twin T R' p q fun _ => J) (hfound : R found found')
    (hadd : ∀ {c d}, R' c d → R (add found c) (add' found' d)) :
    Twin T (SameHarvest T R) (harvest found p add) (harvest found' q add') (HarvestAstray J) :=
  fun _ _ hst => (h hst).harvest hfound hadd

theorem Twin.andThen {h h' : Harvest α} {next next' : α → Parser (Harvest α)} {J : State → Prop}
    (hh : SameHarvest T R h h')
    (hnext : ∀ {a b}, R a b → Twin T (SameHarvest T R) (next a) (next' b) (HarvestAstray J)) :
    Twin T (SameHarvest T R) (h.andThen next) (h'.andThen next') (HarvestAstray J) := by
  obtain ⟨found, failure⟩ := h
  obtain ⟨found', failure'⟩ := h'
  obtain ⟨hfound, hfailure⟩ := hh
  cases hfailure with
  | none => exact hnext hfound
  | some he => exact .pure ⟨hfound, .some he⟩

theorem doomed_andThen {h : Harvest α} {next : α → Parser (Harvest α)} {J : State → Prop}
    (ht : t.Steady) (hh : HarvestAstray (fun _ => False) h t) :
    Doomed (HarvestAstray J) (h.andThen next t) := by
  obtain ⟨found, failure⟩ := h
  cases failure with
  | none => exact hh.elim
  | some e => exact .inr ⟨ht, hh⟩

/-! ### Locations -/

theorem closeAt_like {p q : Option Token} (h : T.Previous p q) {l l' : Location}
    (hl : l.Like T.likeness l') (hsome : l.start.isSome = true) :
    (l.closeAt (p.map (·.stop))).Like T.likeness (l'.closeAt (q.map (·.stop))) := by
  obtain ⟨hstart, hstop, hline, hcolumn⟩ := hl
  cases hm : l.start with
  | none => rw [hm] at hsome; cases hsome
  | some m =>
    cases hn : l'.start with
    | none => rw [hm, hn] at hstart; cases hstart
    | some n =>
      have hmn : T.likeness.offset m n := by
        rw [hm, hn] at hstart
        cases hstart with
        | some h => exact h
      rcases h with hrel | ⟨rfl, hearly⟩
      · cases hrel with
        | none =>
          refine ⟨hstart, ?_, hline, hcolumn⟩
          show Option.Rel _ l.start l'.start
          exact hstart
        | some hab =>
          refine ⟨hstart, ?_, hline, hcolumn⟩
          show Option.Rel _ (some (max _ (l.start.getD 0))) (some (max _ (l'.start.getD 0)))
          rw [hm, hn]
          exact .some (T.offset_max hab.stop hmn)
      · cases p with
        | none =>
          refine ⟨hstart, ?_, hline, hcolumn⟩
          show Option.Rel _ l.start l'.start
          exact hstart
        | some a =>
          refine ⟨hstart, ?_, hline, hcolumn⟩
          show Option.Rel _ (some (max a.stop (l.start.getD 0))) l'.start
          rw [hm, hn, Option.getD_some]
          exact .some (T.max_of_early (hearly a rfl) hmn)

def SameStop (T : Readings) (m n : Option Nat) : Prop :=
  ∀ ⦃l l' : Location⦄, l.Like T.likeness l' → l.start.isSome = true →
    (l.closeAt m).Like T.likeness (l'.closeAt n)

theorem Twin.lastStop : Twin T (SameStop T) lastStop lastStop :=
  fun _ _ hst => .ok rfl rfl (fun _ _ hl hsome => closeAt_like hst.previous hl hsome) hst

theorem Agree.close {cut : Prop} {K : Location → State → Prop} (hst : T.Abreast s t)
    {l l' : Location} (hl : l.Like T.likeness l') (hsome : l.start.isSome = true) :
    Agree T cut (Location.Like T.likeness) K (close l s) (close l' t) :=
  .ok rfl rfl (closeAt_like hst.previous hl hsome) hst

theorem Twin.close {l l' : Location} (hl : l.Like T.likeness l') (hsome : l.start.isSome = true) :
    Twin T (Location.Like T.likeness) (close l) (close l') :=
  fun _ _ hst => .close hst hl hsome

theorem Twin.closeToken {a b : Token} (h : a.Like T.likeness b) :
    Twin T (Location.Like T.likeness) (Parser.close (.ofToken a)) (Parser.close (.ofToken b)) :=
  .close (.ofToken h) rfl

/-! ### Reports and recovery -/

theorem Twin.report {e e' : ParseError} (h : SameError T e e') :
    Twin T (fun _ _ => True) (report e) (report e') := by
  intro s t hst
  rw [report_eq, report_eq, hst.trials]
  split
  · exact .ok rfl rfl trivial hst
  · by_cases hcut : T.cut
    · exact .astray hcut (.inl (dead_reported (hst.steady hcut) e'))
    · exact .ok rfl rfl trivial (hst.report hcut (h.resolve_left hcut))

theorem Twin.recoverFrom {e e' : ParseError} (h : SameError T e e') (kinds : List TokenKind) :
    Twin T (fun _ _ => ¬T.cut) (recoverFrom e kinds) (recoverFrom e' kinds) := by
  intro s t hst
  rw [recoverFrom_eq, recoverFrom_eq, hst.trials]
  split
  · exact .error rfl rfl (.recognition h) hst
  · next htrials =>
    by_cases hcut : T.cut
    · have hevolves := Orderly.evolves_recovered kinds (s := t.reported e')
        (Nat.eq_zero_of_not_pos htrials)
      exact .astray hcut (.inl (hevolves.dead (dead_reported (hst.steady hcut) e')))
    · exact .ok rfl rfl hcut ((hst.report hcut (h.resolve_left hcut)).recover hcut kinds)

/-- A failure that is left of a reading astray is reported, or fails the trial. -/
theorem doomed_recoverFrom {K : Unit → State → Prop} {e : ParseError} {kinds : List TokenKind}
    (ht : t.Steady) (hspent : t.Spent) : Doomed K (recoverFrom e kinds t) := by
  rw [recoverFrom_eq]
  split
  · exact .inr (.inl ⟨ht, hspent⟩)
  · next htrials =>
    have hevolves := Orderly.evolves_recovered kinds (s := t.reported e)
      (Nat.eq_zero_of_not_pos htrials)
    exact .inl (hevolves.dead (dead_reported ht e))

theorem Twin.checkSemicolon {c d : String} {a b : Token} (hcd : T.likeness.code c d)
    (hab : a.Like T.likeness b) :
    Twin T (fun _ _ => True) (checkSemicolon c a) (checkSemicolon d b) := by
  intro s t hst
  have hremark : ∀ {c : String} {a : Token} {s : State}, Parser.checkSemicolon c a s =
      .ok () (if endsInSemicolon c = true ∧ s.trials = 0 then
        s.remarked "trailing semi-colon not allowed" a else s) := by
    intro c a s
    unfold Parser.checkSemicolon
    by_cases hc : endsInSemicolon c = true
    · rw [if_pos hc, remark_eq]
      by_cases htrials : s.trials = 0
      · rw [if_neg (by omega), if_pos ⟨hc, htrials⟩]
      · rw [if_pos (by omega), if_neg fun h => htrials h.2]
    · rw [if_neg hc, if_neg fun h => hc h.1]
      rfl
  rw [hremark, hremark]
  by_cases htrials : t.trials = 0
  · have htrials' : s.trials = 0 := hst.trials.trans htrials
    simp only [htrials, htrials', and_true]
    cases hkeep : T.likeness.keep .general with
    | true =>
      rw [T.semicolon hkeep hcd]
      split
      · by_cases hcut : T.cut
        · exact .astray hcut (.inl (dead_remarked (hst.steady hcut) _ b))
        · exact .ok rfl rfl trivial (hst.remark hcut hab _)
      · exact .ok rfl rfl trivial hst
    | false =>
      by_cases hd : endsInSemicolon d = true
      · by_cases hcut : T.cut
        · rw [if_pos hd]
          exact .astray hcut (.inl (dead_remarked (hst.steady hcut) _ b))
        · refine .ok rfl rfl trivial ?_
          rw [if_pos hd]
          split
          · exact hst.remark hcut hab _
          · exact { hst with
              reported := Readings.Abreast.reported_add_second hst.reported hkeep _ _ _
              clean := fun h => absurd h hcut }
      · refine .ok rfl rfl trivial ?_
        rw [if_neg hd]
        split
        · exact { hst with
            reported := Readings.Abreast.reported_add_first hst.reported hkeep _ _ _ }
        · exact hst
  · have htrials' : s.trials ≠ 0 := fun h => htrials (hst.trials.symm.trans h)
    rw [if_neg fun h => htrials' h.2, if_neg fun h => htrials h.2]
    exact .ok rfl rfl trivial hst

/-! ### Declarations -/

theorem Agree.declare {cut : Prop} {K : Unit → State → Prop} (hst : T.Abreast s t)
    {f g : Package → Package}
    (h : ∀ {p q : Package}, p.Like T.likeness q → (f p).Like T.likeness (g q)) :
    Agree T cut (fun _ _ => True) K (declare f s) (declare g t) := by
  rw [declare_eq, declare_eq, hst.trials]
  split
  · exact .ok rfl rfl trivial hst
  · exact .ok rfl rfl trivial (hst.declared (h hst.package))

theorem Twin.declare {f g : Package → Package}
    (h : ∀ {p q : Package}, p.Like T.likeness q → (f p).Like T.likeness (g q)) :
    Twin T (fun _ _ => True) (declare f) (declare g) :=
  fun _ _ hst => .declare hst h

theorem Twin.note (e e' : Event) : Twin T (fun _ _ => True) (note e) (note e') :=
  fun _ _ hst => .ok rfl rfl trivial { hst with }

theorem Twin.inTrial : Twin T (· = ·) inTrial inTrial := by
  intro s t hst
  refine .ok rfl rfl ?_ hst
  show decide (0 < s.trials) = decide (0 < t.trials)
  rw [hst.trials]

theorem Agree.underName {cut : Prop} (name : String) {p q : Parser α}
    (h : Agree T cut R (fun _ _ => False) (p (s.named name)) (q (t.named name))) :
    Agree T cut R (fun _ _ => False) (underName name p s) (underName name q t) := by
  rw [underName_eq, underName_eq]
  cases h with
  | ok hx hy hab huv =>
    exact .ok (ensuring_of_ok hx) (ensuring_of_ok hy) hab { huv with ruleName := rfl }
  | error hx hy hfg huv =>
    exact .error (ensuring_of_error hx) (ensuring_of_error hy) hfg { huv with ruleName := rfl }
  | astray hcut hy =>
    refine .astray hcut ?_
    cases hq : q (t.named name) with
    | ok b u =>
      rw [hq] at hy
      rw [ensuring_of_ok hq]
      exact hy.imp_right fun hno => hno.2.elim
    | error f u =>
      rw [hq] at hy
      rw [ensuring_of_error hq]
      exact hy.imp_right
        (.imp_left fun ⟨hu, hspent⟩ => ⟨⟨hu.hidden, hu.uncapped, hu.honest⟩, hspent⟩)

/-! ### Trials -/

/-- A trial that may go astray. Nothing is recorded in a trial, so it has failed then, and the
second reading is where it was. -/
theorem Agree.trial {p q : Parser α} [Orderly p] [Orderly q] {c J : Prop} (alternative : String)
    (hst : T.Abreast s t) (h : Agree T c R (fun _ _ => False) (p s.trying) (q t.trying))
    (hc : c → T.cut) (hJ : c → ∀ e u, q t.trying = .error (.recognition e) u → u.Spent → J) :
    Agree T T.cut (· = ·) (fun b u => b = false ∧ u.cursor = t.cursor ∧ J)
      (Parser.trial alternative p s) (Parser.trial alternative q t) := by
  have hback : ∀ {u v : State}, s.trying.Evolves u → t.trying.Evolves v → u.ruleName = v.ruleName →
      T.Abreast (s.restored u) (t.restored v) := by
    intro u v hu hv hname
    rw [Orderly.restored_eq hu, Orderly.restored_eq hv]
    exact { hst with ruleName := hname }
  cases h with
  | ok hx hy hab huv =>
    exact .ok (trial_of_passed hx) (trial_of_passed hy) rfl
      (hback (Orderly.evolves_ok p hx) (Orderly.evolves_ok q hy) huv.ruleName)
  | error hx hy hfg huv =>
    have hu := Orderly.evolves_error p hx
    have hv := Orderly.evolves_error q hy
    cases hfg with
    | recognition he =>
      exact .ok (trial_of_recognition hx) (trial_of_recognition hy) rfl
        (hback (hu.trans (Orderly.evolves_noted _ _)) (hv.trans (Orderly.evolves_noted _ _))
          huv.ruleName)
    | other hne =>
      exact .error (trial_of_failure hx hne) (trial_of_failure hy hne) (.other hne)
        (hback hu hv huv.ruleName)
  | astray hcut hy =>
    have hclean := (hst.clean (hc hcut)).1
    have hsilent : ∀ {v : State}, t.trying.Evolves v → ¬v.Dead := by
      intro v hv hdead
      exact hdead ((congrArg Collector.errors (hv.silent (Nat.succ_pos _)).1).trans hclean)
    refine .astray (hc hcut) ?_
    cases hq : q t.trying with
    | ok b v =>
      rw [hq] at hy
      rcases hy with hdead | ⟨-, hno⟩
      · exact absurd hdead (hsilent (Orderly.evolves_ok q hq))
      · exact hno.elim
    | error f v =>
      have hv := Orderly.evolves_error q hq
      rw [hq] at hy
      cases f with
      | recognition e =>
        rw [trial_of_recognition hq, Orderly.restored_eq (hv.trans (Orderly.evolves_noted _ _))]
        rcases hy with hdead | ⟨-, hspent⟩ | hne
        · exact absurd hdead (hsilent hv)
        · obtain ⟨hhidden, huncapped, hhonest⟩ := hst.steady (hc hcut)
          exact .inr ⟨⟨hhidden, huncapped, hhonest⟩, rfl, rfl, hJ hcut e v hq hspent⟩
        · exact absurd rfl (hne e)
      | _ =>
        rw [trial_of_failure hq (by simp)]
        exact .inr (.inr (by simp))

end Rulebook.Parser
