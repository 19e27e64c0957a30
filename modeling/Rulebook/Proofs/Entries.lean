import Rulebook.Proofs.Tiling

/-!
# How the rules and queries of a file were read

A rule or query is in the package of a file because its statement was read to its end somewhere in
the file, between statements, and what was reported by then is reported at the end. So what is shown
of single rules and queries is shown of those of whole files.
-/

namespace Rulebook.Parser

set_option synthInstance.maxSize 100000

variable {α β : Type} {s t u : State} {e : Entry}

inductive EntryRead : Entry → State → State → Prop where
  | rule {r : Rule} {s t : State} (h : ruleStatement s = .ok r t) : EntryRead (.rule r) s t
  | query {q : Query} {s t : State} (h : queryStatement s = .ok q t) : EntryRead (.query q) s t

/-- Each rule and query of the package at the second state was read between statements, on the way
from the first one. -/
def Recorded (s t : State) : Prop :=
  ∀ e ∈ t.package.rules, ∃ u v, Idle u ∧ s.Evolves u ∧ EntryRead e u v ∧ v.Evolves t

namespace Recorded

theorem mono (h : Recorded s t) (htu : t.Evolves u) (hrules : u.package.rules = t.package.rules) :
    Recorded s u := fun e he => by
  obtain ⟨v, w, hidle, hsv, hread, hwt⟩ := h e (hrules ▸ he)
  exact ⟨v, w, hidle, hsv, hread, hwt.trans htu⟩

theorem add (h : Recorded s t) (ht : Idle t) (hst : s.Evolves t) (htu : t.Evolves u)
    (hread : EntryRead e t u) (hrules : u.package.rules = t.package.rules ++ [e]) :
    Recorded s u := by
  intro e' he'
  rw [hrules] at he'
  rcases List.mem_append.1 he' with he' | he'
  · obtain ⟨v, w, hidle, hsv, hread, hwt⟩ := h e' he'
    exact ⟨v, w, hidle, hsv, hread, hwt.trans htu⟩
  · rw [List.mem_singleton.1 he']
    exact ⟨t, u, ht, hst, hread, .refl u⟩

end Recorded

/-! ### Statements that fail -/

def FailsUndeclared (p : Parser α) : Prop :=
  ∀ ⦃s t : State⦄ ⦃f : Failure⦄, p s = .error f t → t.package = s.package

namespace FailsUndeclared

theorem of_inert (p : Parser α) [Inert p] : FailsUndeclared p :=
  fun _ _ _ h => Inert.package_error p h

theorem bind (p : Parser α) [Inert p] {f : α → Parser β} (hf : ∀ a, FailsUndeclared (f a)) :
    FailsUndeclared (p >>= f) := by
  intro s t g h
  rcases hp : p s with ⟨a, u⟩ | ⟨g', u⟩
  · rw [bind_of_ok hp] at h
    exact (hf a h).trans (Inert.package_ok p hp)
  · rw [bind_of_error hp] at h
    cases h
    exact Inert.package_error p hp

theorem ite {c : Prop} [Decidable c] {p q : Parser α} (hp : FailsUndeclared p)
    (hq : FailsUndeclared q) : FailsUndeclared (if c then p else q) := by
  split
  · exact hp
  · exact hq

theorem declare {change : Package → Package} {f : Unit → Parser α}
    (hf : ∀ s, ∃ a t, f () s = .ok a t) : FailsUndeclared (declare change >>= f) := by
  intro s t g h
  rw [bind_of_ok (declare_eq change s)] at h
  obtain ⟨a, u, hu⟩ := hf (if 0 < s.trials then s else s.declared change)
  rw [hu] at h
  cases h

theorem andThen {p : Parser α} (hp : FailsUndeclared p) :
    FailsUndeclared (p >>= fun _ => Pure.pure ()) := by
  intro s t f h
  rcases h' : p s with ⟨a, u⟩ | ⟨g, u⟩
  · rw [bind_of_ok h'] at h
    cases h
  · rw [bind_of_error h'] at h
    cases h
    exact hp h'

theorem pure_ok (a : α) (s : State) : ∃ b t, (Pure.pure a : Parser α) s = .ok b t := ⟨a, s, rfl⟩

theorem importStatement : FailsUndeclared importStatement :=
  bind _ fun _ => bind _ fun _ => bind _ fun _ => bind _ fun _ => declare (pure_ok _)

theorem functionImport : FailsUndeclared functionImport :=
  bind _ fun _ => bind _ fun _ => bind _ fun _ => bind _ fun _ => bind _ fun _ =>
    declare (pure_ok _)

theorem globalStatement : FailsUndeclared globalStatement :=
  bind _ fun _ => bind _ fun _ => bind _ fun _ => bind _ fun _ => bind _ fun _ =>
    declare (pure_ok _)

theorem functionStatement : FailsUndeclared functionStatement :=
  bind _ fun _ => bind _ fun _ => bind _ fun _ => bind _ fun _ => bind _ fun _ => bind _ fun _ =>
    bind _ fun _ => declare (pure_ok _)

theorem templateStatement : FailsUndeclared templateStatement := by
  unfold Parser.templateStatement
  refine bind _ fun _ => bind _ fun _ => bind _ fun _ => bind _ fun slots => ite ?_ ?_
  · refine bind _ fun token => ?_
    rw [fail_bind]
    exact of_inert _
  · exact bind _ fun _ => bind _ fun _ => bind _ fun _ => declare (pure_ok _)

theorem ruleStatement : FailsUndeclared ruleStatement := by
  refine bind _ fun _ => bind _ fun _ => bind _ fun _ => bind _ fun rule => bind _ fun _ => ?_
  exact ite (of_inert _) (declare fun s => ⟨rule, _, rfl⟩)

theorem queryStatement : FailsUndeclared queryStatement :=
  bind _ fun _ => bind _ fun _ => bind _ fun _ => declare (pure_ok _)

theorem packageStatement : FailsUndeclared (packageStatement true) :=
  bind _ fun _ => bind _ fun _ => bind _ fun _ => of_inert (report _)

theorem statement : FailsUndeclared statement := by
  unfold Parser.statement
  refine bind _ fun token => ?_
  split
  · exact bind _ fun b => ite functionImport.andThen importStatement.andThen
  · exact globalStatement.andThen
  · exact functionStatement.andThen
  · exact templateStatement.andThen
  · exact ruleStatement.andThen
  · exact queryStatement.andThen
  · exact packageStatement
  · exact of_inert _

end FailsUndeclared

/-! ### Statements that are read -/

theorem rules_of_ruleStatement (hs : s.trials = 0) {r : Rule} (h : ruleStatement s = .ok r t) :
    t.package.rules = s.package.rules ++ [.rule r] := by
  obtain ⟨token, u, hu, h⟩ := bind_eq_ok.1 h
  obtain ⟨name, v, hv, h⟩ := bind_eq_ok.1 h
  obtain ⟨now, _, hnow, h⟩ := bind_eq_ok.1 h
  cases hnow
  obtain ⟨rule, w, hw, h⟩ := bind_eq_ok.1 h
  have hsw :=
    (Orderly.evolves_ok _ hu).trans ((Orderly.evolves_ok _ hv).trans (Orderly.evolves_ok _ hw))
  have hpackage :=
    (Inert.package_ok _ hw).trans ((Inert.package_ok _ hv).trans (Inert.package_ok _ hu))
  obtain ⟨trying, _, htrying, h⟩ := bind_eq_ok.1 h
  cases htrying
  rw [hsw.trials, hs, if_neg (by simp), bind_of_ok (declare_eq _ w), hsw.trials, hs,
    if_neg (Nat.lt_irrefl 0)] at h
  cases h
  show w.package.rules ++ [Entry.rule _] = _
  rw [hpackage]

theorem rules_of_queryStatement (hs : s.trials = 0) {q : Query} (h : queryStatement s = .ok q t) :
    t.package.rules = s.package.rules ++ [.query q] := by
  obtain ⟨token, u, hu, h⟩ := bind_eq_ok.1 h
  obtain ⟨name, v, hv, h⟩ := bind_eq_ok.1 h
  obtain ⟨query, w, hw, h⟩ := bind_eq_ok.1 h
  have hsw :=
    (Orderly.evolves_ok _ hu).trans ((Orderly.evolves_ok _ hv).trans (Orderly.evolves_ok _ hw))
  have hpackage :=
    (Inert.package_ok _ hw).trans ((Inert.package_ok _ hv).trans (Inert.package_ok _ hu))
  rw [bind_of_ok (declare_eq _ w), hsw.trials, hs, if_neg (Nat.lt_irrefl 0)] at h
  cases h
  show w.package.rules ++ [Entry.query _] = _
  rw [hpackage]

theorem rules_of_keeps {p : Parser α} {a : α}
    (h : ∀ rules, Keeps (fun package => package.rules = rules) p s) (hp : p s = .ok a t) :
    t.package.rules = s.package.rules := by
  have hkept := h s.package.rules rfl
  rwa [after_of_ok hp] at hkept

section Keeps

variable {rules : List Entry}

theorem keeps_rules_declare {change : Package → Package} {a : α}
    (h : ∀ p, (change p).rules = p.rules) :
    Keeps (fun package => package.rules = rules) (do declare change; return a : Parser α) s :=
  .bind_of (.declare fun p hp => (h p).trans hp) fun _ => .of_inert _

theorem importStatement_keeps_rules :
    Keeps (fun package => package.rules = rules) importStatement s :=
  .bind fun _ => .bind fun _ => .bind fun _ => .bind fun _ => keeps_rules_declare fun _ => rfl

theorem functionImport_keeps_rules :
    Keeps (fun package => package.rules = rules) functionImport s :=
  .bind fun _ => .bind fun _ => .bind fun _ => .bind fun _ => .bind fun _ =>
    keeps_rules_declare fun _ => rfl

theorem globalStatement_keeps_rules :
    Keeps (fun package => package.rules = rules) globalStatement s :=
  .bind fun _ => .bind fun _ => .bind fun _ => .bind fun _ => .bind fun _ =>
    keeps_rules_declare fun _ => rfl

theorem functionStatement_keeps_rules :
    Keeps (fun package => package.rules = rules) functionStatement s :=
  .bind fun _ => .bind fun _ => .bind fun _ => .bind fun _ => .bind fun _ => .bind fun _ =>
    .bind fun _ => keeps_rules_declare fun _ => rfl

theorem templateStatement_keeps_rules :
    Keeps (fun package => package.rules = rules) templateStatement s := by
  unfold templateStatement
  refine .bind fun _ => .bind fun _ => .bind fun _ => .bind fun {slots t} _ => ?_
  dsimp only
  split
  · exact .bind fun _ => .bind fun h => by cases h
  · exact .bind fun _ => .bind fun _ => .bind fun _ => keeps_rules_declare fun _ => rfl

theorem packageAttribute_keeps_rules :
    Keeps (fun package => package.rules = rules) packageAttribute s :=
  .bind fun _ => .bind_of (fun hp => hp) fun _ => .of_inert _

end Keeps

theorem statement_entry (hs : s.trials = 0) (h : statement s = .ok () t) :
    (∃ e, EntryRead e s t ∧ t.package.rules = s.package.rules ++ [e]) ∨
      t.package.rules = s.package.rules := by
  have hread : ∀ {α : Type} {p : Parser α} {s : State}, (p >>= fun _ => pure ()) s = .ok () t →
      ∃ a, p s = .ok a t := fun h => by
    obtain ⟨a, u, hu, h⟩ := bind_eq_ok.1 h
    obtain ⟨-, rfl⟩ := pure_ok h
    exact ⟨a, hu⟩
  unfold statement at h
  rw [bind_of_ok (current_eq s)] at h
  obtain ⟨p, hp, h⟩ : ∃ p : Parser Unit, p = _ ∧ p s = .ok () t := ⟨_, rfl, h⟩
  split at hp <;> subst hp
  · obtain ⟨b, u, hu, h⟩ := bind_eq_ok.1 h
    rw [← (trial_ok hu).2]
    split at h
    · exact .inr (rules_of_keeps (fun _ => functionImport_keeps_rules) (hread h).choose_spec)
    · exact .inr (rules_of_keeps (fun _ => importStatement_keeps_rules) (hread h).choose_spec)
  · exact .inr (rules_of_keeps (fun _ => globalStatement_keeps_rules) (hread h).choose_spec)
  · exact .inr (rules_of_keeps (fun _ => functionStatement_keeps_rules) (hread h).choose_spec)
  · exact .inr (rules_of_keeps (fun _ => templateStatement_keeps_rules) (hread h).choose_spec)
  · obtain ⟨r, hr⟩ := hread h
    exact .inl ⟨.rule r, .rule hr, rules_of_ruleStatement hs hr⟩
  · obtain ⟨q, hq⟩ := hread h
    exact .inl ⟨.query q, .query hq, rules_of_queryStatement hs hq⟩
  · exact .inr (rules_of_keeps (fun _ => .packageStatement (fun _ h => h) true) h)
  · cases h

/-! ### Whole files -/

theorem statementOrRecovery_recorded (ht : Idle t) (hst : s.Evolves t) (h : Recorded s t)
    (hstep : statementOrRecovery t = .ok () u) : Recorded s u := by
  have htu := (statementOrRecovery_settles ht).evolves_ok hstep
  cases hp : statement t with
  | ok a v =>
    rw [statementOrRecovery_of_ok hp] at hstep
    cases hstep
    rcases statement_entry ht.trials hp with ⟨e, hread, hrules⟩ | hrules
    · exact h.add ht hst htu hread hrules
    · exact h.mono htu hrules
  | error f v =>
    have hv := ht.evolves (Orderly.evolves_error _ hp)
    have hpackage := FailsUndeclared.statement hp
    cases f with
    | recognition e =>
      rw [statementOrRecovery_of_recognition hp hv.trials] at hstep
      cases hstep
      exact h.mono htu (congrArg Package.rules hpackage)
    | nestingTooDeep =>
      rw [statementOrRecovery_of_nesting hp, dropDeepStatement_eq hv] at hstep
      cases hstep
      exact h.mono htu (congrArg Package.rules hpackage)
    | tooManyDigits n =>
      rw [statementOrRecovery_of_digits hp] at hstep
      cases hstep
    | cursor f => exact (Orderly.expected hp).elim

theorem statements_recorded (ht : Idle t) (hst : s.Evolves t) (h : Recorded s t) {n : Nat}
    (hstatements : statements t = .ok n u) : Recorded s u := by
  refine (repeatWhile_invariant (I := fun u _ => Idle u ∧ s.Evolves u ∧ Recorded s u)
    (fun h => by cases h; rfl) (fun {_ _ v w} _ hv hbody => ?_) ⟨ht, hst, h⟩ hstatements).2.2
  obtain ⟨hidle, hsv, hrecorded⟩ := hv
  obtain ⟨_, x, hx, hbody⟩ := bind_eq_ok.1 hbody
  obtain ⟨-, rfl⟩ := pure_ok hbody
  have hstep := (statementOrRecovery_settles hidle).evolves_ok hx
  exact ⟨hidle.evolves hstep, hsv.trans hstep, statementOrRecovery_recorded hidle hsv hrecorded hx⟩

theorem unitHead_rules (hs : Idle s) (h : unitHead s = .ok () t) :
    t.package.rules = s.package.rules := by
  obtain ⟨isPackage, _, hlook, h⟩ := bind_eq_ok.1 h
  cases hlook
  have hattributes : ∀ {t u : State}, Idle t → repeatWhile () (fun _ => nextIs attributeKinds)
      (fun _ => headOrRecovery packageAttribute) t = .ok () u →
      u.package.rules = t.package.rules := by
    intro t u ht hu
    refine (repeatWhile_invariant (I := fun u _ => Idle u ∧ u.package.rules = t.package.rules)
      (fun h => by cases h; rfl) (fun {_ _ v w} _ hv hbody => ?_) ⟨ht, rfl⟩ hu).2
    have hsettles := headOrRecovery_settles hv.1 (packageAttribute_from hv.1)
    exact ⟨hv.1.evolves (hsettles.evolves_ok hbody),
      (rules_of_keeps (fun _ => .headOrRecovery packageAttribute_keeps_rules) hbody).trans hv.2⟩
  split at h
  · obtain ⟨_, u, hu, h⟩ := bind_eq_ok.1 h
    have hsettles := headOrRecovery_settles hs (packageStatement_from hs false)
    exact (hattributes (hs.evolves (hsettles.evolves_ok hu)) h).trans
      (rules_of_keeps (fun _ => .headOrRecovery (.packageStatement (fun _ h => h) false)) hu)
  · exact hattributes hs h

/-- Each rule and query of a file was read between statements. -/
theorem compilationUnit_recorded (hs : Idle s) (hrules : s.package.rules = []) {p : Package}
    (h : compilationUnit s = .ok p t) : p.rules = t.package.rules ∧ Recorded s t := by
  let start := s.declared fun p =>
    { p with location := { Location.ofToken s.cursor.current with stop := p.location.stop } }
  have hstart := Orderly.evolves_declared (s := s) (fun p =>
    { p with location := { Location.ofToken s.cursor.current with stop := p.location.stop } })
      hs.trials
  have hidle : Idle start := hs.evolves hstart
  change (do unitHead; closeUnit (← statements) : Parser Package) start = _ at h
  obtain ⟨_, u, hu, h⟩ := bind_eq_ok.1 h
  obtain ⟨n, v, hv, h⟩ := bind_eq_ok.1 h
  have hhead := (unitHead_settles hidle).evolves_ok hu
  have hbegin : Recorded s u := fun e he => by
    have hnone : u.package.rules = [] := (unitHead_rules hidle hu).trans hrules
    rw [hnone] at he
    cases he
  have hend := statements_recorded (hidle.evolves hhead) (hstart.trans hhead) hbegin hv
  have hvidle : Idle v := by
    refine (repeatWhile_invariant (I := fun u _ => Idle u) (fun h => by cases h; rfl)
      (fun {_ _ v w} _ hv hbody => ?_) (hidle.evolves hhead) hv)
    obtain ⟨_, x, hx, hbody⟩ := bind_eq_ok.1 hbody
    obtain ⟨-, rfl⟩ := pure_ok hbody
    exact hv.evolves ((statementOrRecovery_settles hv).evolves_ok hx)
  rw [closeUnit_eq] at h
  cases h
  exact ⟨rfl, hend.mono (evolves_ended n hvidle.trials) (by rw [package_ended])⟩

/-! ### The conditions of rules and queries -/

theorem State.Evolves.named (h : s.Evolves t) (name : Option String) :
    State.Evolves { s with ruleName := name } { t with ruleName := name } :=
  ⟨h.cursor, h.index, h.trials, h.stack, h.silent, h.collector, .inl rfl⟩

theorem State.Evolves.unnamed (h : s.Evolves t) : s.Evolves { t with ruleName := none } :=
  ⟨h.cursor, h.index, h.trials, h.stack, h.silent, h.collector, .inr rfl⟩

theorem State.Evolves.of_unnamed (h : State.Evolves { s with ruleName := none } t) : s.Evolves t :=
  ⟨h.cursor, h.index, h.trials, h.stack, h.silent, h.collector, .inr (h.ruleName.elim id id)⟩

/-- Whatever becomes of a rule or query, its body was read first, and what made that fail was
reported. -/
theorem recovering_cases {name : String} {body : Parser (Harvest α)} {locate : α → Location → α}
    {location : Location} {x : α} (h : recovering name body locate location s = .ok x t) :
    ∃ r u v l, body (s.named name) = .ok r u ∧
      (r.failure = none ∧ v = u ∨ ∃ e, r.failure = some e ∧ recoverFrom e ruleFollow u = .ok () v) ∧
      x = locate r.found l ∧ l.start = location.start ∧ t = { v with ruleName := none } := by
  obtain ⟨_, _, hname, h⟩ := bind_eq_ok.1 h
  cases hname
  obtain ⟨w, hw, rfl⟩ := ensuring_ok h
  obtain ⟨r, u, hu, hw⟩ := bind_eq_ok.1 hw
  cases hfailure : r.failure with
  | none =>
    rw [hfailure] at hw
    cases hw
    exact ⟨r, _, _, _, hu, .inl ⟨hfailure, rfl⟩, rfl, Location.start_closeAt _ _, rfl⟩
  | some e =>
    rw [hfailure] at hw
    obtain ⟨_, v, hv, hw⟩ := bind_eq_ok.1 hw
    cases hw
    exact ⟨r, u, _, _, hu, .inr ⟨e, hfailure, hv⟩, rfl,
      Location.start_closeAt _ _, rfl⟩

theorem body_of_recovering {name : String} {body : Parser (Harvest α)} {locate : α → Location → α}
    {location : Location} {x : α} (h : recovering name body locate location s = .ok x t) :
    ∃ r u l, body (s.named name) = .ok r u ∧ x = locate r.found l ∧ u.Evolves t := by
  obtain ⟨r, u, v, l, hu, hv, rfl, -, rfl⟩ := recovering_cases h
  refine ⟨r, u, l, hu, rfl, ?_⟩
  rcases hv with ⟨-, rfl⟩ | ⟨e, -, hv⟩
  · exact (State.Evolves.refl _).unnamed
  · exact (Orderly.evolves_ok (recoverFrom e ruleFollow) hv).unnamed

def BlockRead (b : Block) (s t : State) : Prop :=
  ∃ anchor u v, s.Evolves u ∧ block anchor u = .ok b v ∧ v.Evolves t

theorem BlockRead.mono {b : Block} (h : BlockRead b t u) (hst : s.Evolves t) {v : State}
    (huv : u.Evolves v) : BlockRead b s v := by
  obtain ⟨anchor, x, y, htx, hblock, hyu⟩ := h
  exact ⟨anchor, x, y, hst.trans htx, hblock, hyu.trans huv⟩

section Bodies

variable {rule : Rule} {query : Query} {b : Block}

theorem addAttribute_found {h r : Harvest Rule} (hadd : addAttribute h s = .ok r t) :
    ∃ attributes, r.found = { h.found with attributes } := by
  obtain ⟨h', u, hu, hadd⟩ := bind_eq_ok.1 hadd
  have hfound : r.found = h'.found := by
    split at hadd
    · obtain ⟨_, v, -, hadd⟩ := bind_eq_ok.1 hadd
      rw [(pure_ok hadd).1]
    · rw [(pure_ok hadd).1]
  rw [hfound]
  rcases harvest_ok hu with ⟨a, -, rfl⟩ | ⟨e, -, rfl⟩ <;> exact ⟨_, rfl⟩

theorem ruleAttributes_found {r : Harvest Rule} (h : ruleAttributes rule s = .ok r t) :
    ∃ attributes, r.found = { rule with attributes } := by
  obtain ⟨head, u, hu, h⟩ := bind_eq_ok.1 h
  cases head with
  | error e =>
    obtain ⟨rfl, -⟩ := pure_ok h
    exact ⟨_, rfl⟩
  | ok head =>
    refine repeatWhile_invariant (I := fun _ r => ∃ attributes, r.found = { rule with attributes })
      (fun {_ _ _ _} hmore => ?_) (fun {_ _ _ _} _ hr hbody => ?_) ⟨_, rfl⟩ h
    · obtain ⟨_, _, hlook, hmore⟩ := bind_eq_ok.1 hmore
      cases hlook
      exact (pure_ok hmore).2
    · obtain ⟨attributes, hattributes⟩ := hr
      obtain ⟨more, hmore⟩ := addAttribute_found hbody
      exact ⟨more, by rw [hmore, hattributes]⟩

theorem ruleConditions_found {r : Harvest Rule} (h : ruleConditions rule s = .ok r t) :
    ∃ conditions, r.found = { rule with conditions } := by
  obtain ⟨_, _, hlook, h⟩ := bind_eq_ok.1 h
  cases hlook
  split at h
  · rcases harvest_ok h with ⟨b, -, rfl⟩ | ⟨e, -, rfl⟩ <;> exact ⟨_, rfl⟩
  · obtain ⟨rfl, -⟩ := pure_ok h
    exact ⟨_, rfl⟩

theorem ruleConditions_block (hnone : rule.conditions = none) {r : Harvest Rule}
    (h : ruleConditions rule s = .ok r t) (hb : r.found.conditions = some b) :
    s.cursor.current.kind = .keyword .when_ ∧ conditionBlock s = .ok b t := by
  obtain ⟨_, _, hlook, h⟩ := bind_eq_ok.1 h
  cases hlook
  split at h
  · next hwhen =>
    rcases harvest_ok h with ⟨b', hb', rfl⟩ | ⟨e, -, rfl⟩
    · cases hb
      exact ⟨of_decide_eq_true hwhen, hb'⟩
    · rw [hnone] at hb
      cases hb
  · obtain ⟨rfl, -⟩ := pure_ok h
    rw [hnone] at hb
    cases hb

theorem BlockRead.of_conditionBlock (h : conditionBlock s = .ok b t) : BlockRead b s t := by
  obtain ⟨anchor, u, hu, h⟩ := bind_eq_ok.1 h
  obtain ⟨_, v, hv, h⟩ := bind_eq_ok.1 h
  exact ⟨some anchor, v, t, (Orderly.evolves_ok _ hu).trans (Orderly.evolves_ok _ hv), h, .refl t⟩

theorem ruleConsequence_conditions {r : Harvest Rule} (h : ruleConsequence rule s = .ok r t) :
    r.found.conditions = rule.conditions := by
  obtain ⟨x, u, hu, h⟩ := bind_eq_ok.1 h
  have hx : x.found.conditions = rule.conditions := by
    rcases harvest_ok hu with ⟨c, -, rfl⟩ | ⟨e, -, rfl⟩ <;> rfl
  rcases andThen_ok h with h | ⟨rfl, -⟩
  · rcases harvest_ok h with ⟨_, -, rfl⟩ | ⟨e, -, rfl⟩ <;> exact hx
  · exact hx

theorem ruleBody_block (hnone : rule.conditions = none) {r : Harvest Rule}
    (h : ruleBody rule s = .ok r t) (hb : r.found.conditions = some b) :
    ∃ u v, s.Evolves u ∧ u.cursor.current.kind = .keyword .when_ ∧ conditionBlock u = .ok b v ∧
      v.Evolves t := by
  obtain ⟨x, u, hu, h⟩ := bind_eq_ok.1 h
  obtain ⟨y, v, hv, h⟩ := bind_eq_ok.1 h
  have hsu := Orderly.evolves_ok _ hu
  have hvt := Orderly.evolves_ok _ h
  have hx : x.found.conditions = none := by
    obtain ⟨attributes, hx⟩ := ruleAttributes_found hu
    rw [hx]
    exact hnone
  have hy : y.found.conditions = some b := by
    rcases andThen_ok h with h | ⟨rfl, -⟩
    · rw [← ruleConsequence_conditions h]
      exact hb
    · exact hb
  rcases andThen_ok hv with hv | ⟨rfl, -⟩
  · obtain ⟨hwhen, hblock⟩ := ruleConditions_block hx hv hy
    exact ⟨u, v, hsu, hwhen, hblock, hvt⟩
  · rw [hx] at hy
    cases hy

theorem queryBody_block (hnone : query.conditions = none) {r : Harvest Query}
    (h : queryBody query s = .ok r t) (hb : r.found.conditions = some b) :
    ∃ ps u v, queryParameters s = .ok ps u ∧ queryBlock u = .ok b v ∧ v.Evolves t ∧
      r.found = { query with parameters := ps, conditions := some b } := by
  obtain ⟨x, u, hu, h⟩ := bind_eq_ok.1 h
  obtain ⟨y, v, hv, h⟩ := bind_eq_ok.1 h
  have hvt := Orderly.evolves_ok _ h
  have hy : r.found = y.found := by
    rcases andThen_ok h with h | ⟨rfl, -⟩
    · rcases harvest_ok h with ⟨_, -, rfl⟩ | ⟨e, -, rfl⟩ <;> rfl
    · rfl
  rw [hy] at hb ⊢
  rcases harvest_ok hu with ⟨ps, hps, rfl⟩ | ⟨e, -, rfl⟩
  · rcases harvest_ok (show harvest _ _ _ u = .ok y v from hv) with ⟨b', hb', rfl⟩ | ⟨e, -, rfl⟩
    · cases hb
      exact ⟨ps, u, v, hps, hb', hvt, rfl⟩
    · exact absurd (hnone.symm.trans hb) (by simp)
  · obtain ⟨rfl, -⟩ := pure_ok hv
    exact absurd (hnone.symm.trans hb) (by simp)

theorem BlockRead.of_queryBlock (h : queryBlock s = .ok b t) : BlockRead b s t := by
  obtain ⟨now, _, hnow, h⟩ := bind_eq_ok.1 h
  cases hnow
  exact ⟨_, s, t, .refl s, h, .refl t⟩

end Bodies

/-- A rule is read by recovery from its body, which begins behind its name. -/
theorem ruleStatement_ok {r : Rule} (h : ruleStatement s = .ok r t) :
    ∃ begun u w, begun.conditions = none ∧ begun.consequence = {} ∧
      begun.location = .ofToken s.cursor.current ∧ s.Evolves u ∧
      recovering begun.name (ruleBody begun) (fun rule location => { rule with location })
        begun.location u = .ok r w ∧ w.Evolves t := by
  obtain ⟨token, u, hu, h⟩ := bind_eq_ok.1 h
  obtain ⟨name, v, hv, h⟩ := bind_eq_ok.1 h
  obtain ⟨now, _, hnow, h⟩ := bind_eq_ok.1 h
  cases hnow
  obtain ⟨rule, w, hw, h⟩ := bind_eq_ok.1 h
  refine ⟨{ location := .ofToken token, name, attributes := v.package.attributes }, v, w, rfl, rfl,
    congrArg Location.ofToken (expect_of_ok hu).1,
      (Orderly.evolves_ok _ hu).trans (Orderly.evolves_ok _ hv), ?_⟩
  obtain ⟨trying, _, htrying, h⟩ := bind_eq_ok.1 h
  cases htrying
  split at h
  · obtain ⟨rfl, rfl⟩ := pure_ok h
    exact ⟨hw, .refl _⟩
  · obtain ⟨_, x, hx, h⟩ := bind_eq_ok.1 h
    obtain ⟨_, y, hy, h⟩ := bind_eq_ok.1 h
    obtain ⟨rfl, rfl⟩ := pure_ok h
    exact ⟨hw, (Orderly.evolves_ok _ hx).trans (Orderly.evolves_ok _ hy)⟩

theorem queryStatement_ok {q : Query} (h : queryStatement s = .ok q t) :
    ∃ begun u w, begun.conditions = none ∧ s.Evolves u ∧
      recovering begun.name (queryBody begun) (fun query location => { query with location })
        begun.location u = .ok q w ∧ w.Evolves t := by
  obtain ⟨token, u, hu, h⟩ := bind_eq_ok.1 h
  obtain ⟨name, v, hv, h⟩ := bind_eq_ok.1 h
  obtain ⟨query, w, hw, h⟩ := bind_eq_ok.1 h
  obtain ⟨_, x, hx, h⟩ := bind_eq_ok.1 h
  obtain ⟨rfl, rfl⟩ := pure_ok h
  exact ⟨{ location := .ofToken token, name }, v, w, rfl,
    (Orderly.evolves_ok _ hu).trans (Orderly.evolves_ok _ hv), hw, Orderly.evolves_ok _ hx⟩

theorem EntryRead.block (h : EntryRead e s t) {b : Block} (hb : e.block? = some b) :
    ∃ name, BlockRead b { s with ruleName := some name } t := by
  cases h with
  | rule h =>
    obtain ⟨begun, u, w, hnone, -, -, hsu, hw, hwt⟩ := ruleStatement_ok h
    obtain ⟨x, v, l, hbody, rfl, hvw⟩ := body_of_recovering hw
    obtain ⟨y, z, huy, -, hblock, hzv⟩ := ruleBody_block hnone hbody hb
    exact ⟨begun.name, (BlockRead.of_conditionBlock hblock).mono ((hsu.named _).trans huy)
      (hzv.trans (hvw.trans hwt))⟩
  | query h =>
    obtain ⟨begun, u, w, hnone, hsu, hw, hwt⟩ := queryStatement_ok h
    obtain ⟨x, v, l, hbody, rfl, hvw⟩ := body_of_recovering hw
    obtain ⟨ps, y, z, hps, hblock, hzv, -⟩ := queryBody_block hnone hbody hb
    exact ⟨begun.name, (BlockRead.of_queryBlock hblock).mono
      ((hsu.named _).trans (Orderly.evolves_ok _ hps)) (hzv.trans (hvw.trans hwt))⟩

end Rulebook.Parser
