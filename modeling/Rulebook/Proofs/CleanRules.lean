import Rulebook.Proofs.Closings
import Rulebook.Proofs.Entries
import Rulebook.Proofs.Sequel
import Rulebook.Proofs.Tiling
import Rulebook.Proofs.WrittenDeclarations

/-!
# Rules read without complaint

A rule of which nothing was complained is one whose parts were all read. Its conditions are then
what the elements of the block gave, and its consequence what stands behind them.
-/

namespace Rulebook

variable {frames : Nat}

open Lexeme

theorem Package.Adds.rules {p q : Package} {k : Keyword} {l : Location} (h : p.Adds k l q) :
    p.rules <+: q.rules := by
  cases h with
  | rule r => exact List.prefix_append ..
  | query q => exact List.prefix_append ..
  | _ => exact List.prefix_rfl

namespace Parser

variable {α β : Type} {I : State → Prop} {Q : α → Prop} {s t u : State} {l more : List Piece}
  {hashComments : Bool} {text : String}

/-! ### Statements -/

theorem rounds_rules {n k m : Nat} (hs : Idle s) (hover : s.cursor.Over text)
    (h : rounds unfinished anotherStatement n k s = .ok m t) (hclean : t.collector.received = 0) :
    s.collector.received = 0 ∧ s.package.rules <+: t.package.rules := by
  let J (v : State) (_ : Nat) : Prop := Idle v ∧ v.cursor.Over text ∧
    (v.collector.received = 0 → s.collector.received = 0 ∧ s.package.rules <+: v.package.rules)
  have hinvariant : J t m := by
    refine rounds_invariant (I := J) (fun h => by cases h; rfl) (fun {_ _ v w} _ hv hbody => ?_)
      ⟨hs, hover, fun hzero => ⟨hzero, List.prefix_rfl⟩⟩ h
    obtain ⟨hidle, hstays, hbefore⟩ := hv
    obtain ⟨_, x, hx, hbody⟩ := bind_eq_ok.1 hbody
    obtain ⟨-, rfl⟩ := pure_ok hbody
    have hvx := (statementOrRecovery_settles hidle).evolves_ok hx
    refine ⟨hidle.evolves hvx, (State.Onward.of_evolves hstays hvx).stays, fun hclean => ?_⟩
    have hle := hvx.collector.received_le
    obtain ⟨hzero, hrules⟩ := hbefore (by omega)
    refine ⟨hzero, hrules.trans ?_⟩
    rcases statement_declares hstays hidle.trials (statementOrRecovery_clean hidle hx hclean) with
      ⟨i, l, -, hadds, -⟩ | hpackage
    · exact hadds.rules
    · have := received_packageStatement hidle.trials hpackage
      omega
  exact hinvariant.2.2 hclean

theorem unfinished_of_fence (n : Nat) (h : s.cursor.current.kind ∈ fenceKinds) :
    unfinished n s = .ok true s := by
  have hend : s.cursor.current.kind ≠ .endOfInput := fun heq =>
    absurd (heq ▸ h) (by decide)
  exact congrArg (EStateM.Result.ok · s) (by simp [hend])

theorem first_of_statements {n : Nat} (hkind : s.cursor.current.kind ∈ fenceKinds)
    (h : statements s = .ok n t) :
    ∃ u, statementOrRecovery s = .ok () u ∧
      rounds unfinished anotherStatement s.cursor.remaining 1 u = .ok n t := by
  change rounds unfinished anotherStatement (s.cursor.remaining + 1) 0 s = .ok n t at h
  rw [Turns.rounds_succ (unfinished_of_fence 0 hkind), if_pos rfl] at h
  obtain ⟨_, u, hfirst, hrest⟩ := bind_eq_ok.1 h
  obtain ⟨_, _, hu, hcount⟩ := bind_eq_ok.1 hfirst
  obtain ⟨rfl, rfl⟩ := pure_ok hcount
  exact ⟨_, hu, hrest⟩

theorem exists_first_statement {settings : Settings} {sourceName : String} {x : ParseResult}
    (hvalid : settings.Valid) (h : parse frames settings sourceName text = .ok x)
    (hclean : x.errors = [])
    (hkind : (State.ofText frames settings sourceName text).cursor.current.kind ∈ fenceKinds) :
    ∃ t, statement (State.ofText frames settings sourceName text).begun = .ok () t ∧
      t.collector.received = 0 ∧ t.package.rules <+: x.package.rules := by
  let start := (State.ofText frames settings sourceName text).begun
  have hidle : Idle start := (idle_ofText frames settings sourceName text).begun
  have hstays : start.cursor.Over text := Cursor.over_ofTokens settings.hashComments text
  obtain ⟨t, hunit, -, hreceived⟩ := exists_clean_unit hvalid h hclean
  obtain ⟨u, n, v, hhead, hstatements, hpackage, rfl⟩ := compilationUnit_eq_ok hunit
  rw [unitHead_of_fence (s := start) hkind] at hhead
  cases hhead
  have hv := ((statements_settles hidle).1.evolves_ok hstatements).trials.trans hidle.trials
  have hvclean : v.collector.received = 0 :=
    Nat.eq_zero_of_le_zero (hreceived ▸ (evolves_ended n hv).collector.received_le)
  obtain ⟨w, hw, hrest⟩ := first_of_statements (s := start) hkind hstatements
  have hstw := (statementOrRecovery_settles hidle).evolves_ok hw
  obtain ⟨hwclean, hrules⟩ := rounds_rules (hidle.evolves hstw)
    (State.Onward.of_evolves hstays hstw).stays hrest hvclean
  refine ⟨w, statementOrRecovery_clean hidle hw hwclean, hwclean, ?_⟩
  rw [hpackage, package_ended]
  exact hrules

/-! ### The parts of a rule -/

/-- The rest of a run that begins with what is written. -/
theorem Parses.of_bind_ok [Lasting I] {p : Parser α} {f : α → Parser β} {b : β}
    (hp : Parses I p l more Q) (hs : I s) (hface : s.Faces (l ++ more))
    (h : (p >>= f) s = .ok b u) : ∃ a t, f a t = .ok b u ∧ Q a ∧ t.Faces more ∧ s.Calm t ∧ I t := by
  obtain ⟨a, t, ha, hQ, ht, hst⟩ := hp hs hface
  rw [bind_of_ok ha] at h
  exact ⟨a, t, h, hQ, ht, hst, Lasting.calm hs hst⟩

/-- A rule or query without complaint is one whose body did not fail. -/
theorem recovering_clean {name : String} {body : Parser (Harvest α)} [Orderly body]
    {locate : α → Location → α} {location : Location} {x : α} (htrials : s.trials = 0)
    (h : recovering name body locate location s = .ok x t) (hclean : t.collector.received = 0) :
    ∃ r u l, body (s.named name) = .ok r u ∧ r.failure = none ∧ x = locate r.found l ∧
      l.start = location.start ∧ t = { u with ruleName := none } := by
  obtain ⟨r, u, v, l, hu, hv, hx, hl, rfl⟩ := recovering_cases h
  rcases hv with ⟨hnone, rfl⟩ | ⟨e, -, hv⟩
  · exact ⟨r, _, l, hu, hnone, hx, hl, rfl⟩
  · have htu : u.trials = 0 := (Orderly.evolves_ok body hu).trials.trans htrials
    rw [recoverFrom_eq, htu, if_neg (Nat.lt_irrefl 0)] at hv
    cases hv
    have hreported : (u.collector.report e u.ruleName).received = 0 := hclean
    rw [Collector.received_report] at hreported
    omega

/-- A part of what did not fail was read. -/
theorem harvest_clean {found : α} {p : Parser β} {add : α → β → α} {next : α → Parser (Harvest α)}
    {y r : Harvest α} (hy : harvest found p add s = .ok y u) (h : y.andThen next u = .ok r t)
    (hr : r.failure = none) : ∃ b, p s = .ok b u ∧ next (add found b) u = .ok r t := by
  rcases harvest_ok hy with ⟨b, hb, rfl⟩ | ⟨e, -, rfl⟩
  · exact ⟨b, hb, h⟩
  · obtain ⟨rfl, -⟩ := pure_ok h
    cases hr

theorem parses_ruleAttributes [Lasting I] (rule : Rule) (hmore : nextKind more = .keyword .when_) :
    Parses I (ruleAttributes rule) [] more (· = { found := rule }) := by
  have hhead : Parses I (attempt attributesHead) [] more (· = .ok ()) := by
    intro s _ hface
    have hlook : attributesHead s = .ok () s := by
      unfold attributesHead
      rw [bind_of_ok (a := false) (t := s)]
      · rfl
      · show EStateM.Result.ok (decide (s.cursor.current.kind = _)) s = _
        rw [hface.kind, List.nil_append, hmore]
        rfl
    exact ⟨_, s, attempt_of_ok hlook, rfl, hface, .refl s⟩
  refine hhead.after fun r hr => ?_
  subst hr
  refine Parses.repeatWhile_stop ((Parses.nextIs attributeKinds).after fun b hb => .pure ?_)
  rw [hb, List.nil_append, hmore]
  rfl

def afterColon (l : List Piece) : List Piece :=
  if nextKind l = .symbol .colon then (solid l).tail else l

theorem afterColon_of_ne (h : nextKind l ≠ .symbol .colon) : afterColon l = l := if_neg h

theorem parses_colon (hface : s.Faces l) :
    ∃ t, skip .colon s = .ok () t ∧ t.Faces (afterColon l) ∧ s.Calm t := by
  by_cases hcolon : nextKind l = .symbol .colon
  · have haccept : accept (.symbol .colon) s = .ok (some s.cursor.current) s.advanced :=
      accept_of_eq (hface.kind.trans hcolon)
    cases hsolid : solid l with
    | nil =>
      rw [nextKind, hsolid] at hcolon
      cases hcolon
    | cons x xs =>
      have hx := isTrivia_of_solid hsolid
      have hkind : x.1 = .symbol .colon := by
        rw [nextKind, hsolid] at hcolon
        exact hcolon
      have hface : s.Faces (x :: xs) :=
        ⟨hface.hidden, by rw [hface.rest, hsolid, solid_cons_of_not_trivia hx]⟩
      refine ⟨_, bind_of_ok haccept, ?_, .advanced s⟩
      rw [afterColon, if_pos hcolon, hsolid]
      exact hface.advanced hx (by rw [hkind]; simp)
  · rw [afterColon_of_ne hcolon]
    have haccept : accept (.symbol .colon) s = .ok none s :=
      accept_of_ne (by rw [hface.kind]; exact hcolon)
    exact ⟨s, bind_of_ok haccept, hface, .refl s⟩

/-- The parts of a rule without attributes that did not fail. -/
theorem ruleBody_clean {rule : Rule} {r : Harvest Rule} [Lasting I] (hs : I s)
    (hface : s.Faces (.keyword .when_ :: more)) (h : ruleBody rule s = .ok r t)
    (hr : r.failure = none) :
    ∃ anchor v es w found x, s.Calm v ∧ v.Faces (afterColon more) ∧ blockElements v = .ok es w ∧
      consequence w = .ok found x ∧ w.Evolves t ∧
      r.found.conditions = some ⟨blockLocation (some anchor) es, es⟩ ∧
      r.found.consequence = found := by
  obtain ⟨_, a, h, rfl, hface, hsa, ha⟩ :=
    (parses_ruleAttributes (I := I) rule rfl).of_bind_ok hs hface h
  obtain ⟨y, b, hy, h⟩ := bind_eq_ok.1 h
  have hwhen : nextIsKeyword .when_ a = .ok true a := by
    show EStateM.Result.ok (decide (a.cursor.current.kind = _)) a = _
    rw [hface.kind]
    rfl
  change ruleConditions rule a = .ok y b at hy
  unfold ruleConditions at hy
  rw [bind_of_ok hwhen, if_pos rfl] at hy
  obtain ⟨block, hblock, h⟩ := harvest_clean hy h hr
  obtain ⟨anchor, c, hblock, -, hface, hac, hc⟩ :=
    (Parses.advance (I := I) (x := .keyword .when_) rfl (by simp [Piece.keyword])).of_bind_ok ha
      hface hblock
  obtain ⟨d, hcolon, hface, hcd⟩ := parses_colon hface
  rw [bind_of_ok hcolon] at hblock
  obtain ⟨es, w, helements, hblock⟩ := bind_eq_ok.1 hblock
  obtain ⟨rfl, rfl⟩ := pure_ok hblock
  obtain ⟨z, x, hz, h⟩ := bind_eq_ok.1 h
  obtain ⟨found, hfound, h⟩ := harvest_clean hz h hr
  have hxt := Orderly.evolves_ok _ h
  rcases harvest_ok h with ⟨_, -, rfl⟩ | ⟨e, -, rfl⟩
  · exact ⟨anchor, d, es, _, found, x, (hsa.trans hac).trans hcd, hface, helements, hfound,
      (Orderly.evolves_ok consequence hfound).trans hxt, rfl, rfl⟩
  · cases hr

theorem ruleStatement_of_statement (hk : s.cursor.current.kind = .keyword .rule)
    (h : statement s = .ok () t) : ∃ rule, ruleStatement s = .ok rule t := by
  unfold statement at h
  rw [bind_of_ok (current_eq s)] at h
  simp only [hk] at h
  obtain ⟨rule, u, hrule, h⟩ := bind_eq_ok.1 h
  obtain ⟨-, rfl⟩ := pure_ok h
  exact ⟨rule, hrule⟩

/-- A rule without attributes of which nothing was complained is in the package, with what was read
of it. -/
theorem ruleStatement_clean {n : Name} {rule : Rule} {stack : Stack}
    (hs : s.Untroubled stack hashComments text)
    (hface : s.Faces (.keyword .rule :: .blank :: n.piece :: .blank :: .keyword .when_ :: more))
    (h : ruleStatement s = .ok rule t) (hclean : t.collector.received = 0) :
    t.package.rules = s.package.rules ++ [.rule rule] ∧
    ∃ anchor v es w found x, v.Untroubled stack hashComments text ∧ v.Faces (afterColon more) ∧
      blockElements v = .ok es w ∧ consequence w = .ok found x ∧ w.collector.received = 0 ∧
      rule.conditions = some ⟨blockLocation (some anchor) es, es⟩ ∧ rule.consequence = found := by
  obtain ⟨token, a, h, -, hface, hsa, ha⟩ :=
    (Parses.keyword (I := State.Untroubled stack hashComments text) .rule).of_bind_ok hs hface h
  obtain ⟨name, b, h, -, hface, hab, hb⟩ :=
    (parses_title (I := State.Untroubled stack hashComments text) n).blank.of_bind_ok ha hface h
  obtain ⟨now, _, hnow, h⟩ := bind_eq_ok.1 h
  cases hnow
  obtain ⟨r, w, hw, h⟩ := bind_eq_ok.1 h
  have htrials : w.trials = 0 := (Orderly.evolves_ok _ hw).trials.trans hb.trials
  have hpackage : w.package = s.package := by
    rw [Inert.package_ok _ hw, (hsa.trans hab).package]
  obtain ⟨trying, _, htrying, h⟩ := bind_eq_ok.1 h
  cases htrying
  rw [htrials, if_neg (by simp)] at h
  obtain ⟨_, x, hx, h⟩ := bind_eq_ok.1 h
  obtain ⟨_, y, hy, h⟩ := bind_eq_ok.1 h
  rw [declare_eq, htrials, if_neg (Nat.lt_irrefl 0)] at hx
  cases hx
  cases hy
  obtain ⟨rfl, rfl⟩ := pure_ok h
  refine ⟨congrArg (fun p : Package => p.rules ++ [Entry.rule rule]) hpackage, ?_⟩
  obtain ⟨body, u, l, hbody, hfailure, rfl, -, rfl⟩ := recovering_clean hb.trials hw hclean
  have hbegun : State.Untroubled stack hashComments text { b with ruleName := some name } :=
    ⟨hb.cursor, hb.trials, hb.package, hb.lastRecovery, hb.recovering, hb.received, hb.stack⟩
  obtain ⟨anchor, v, es, w, found, x, hbv, hface, helements, hfound, hwu, hconditions,
      hconsequence⟩ :=
    ruleBody_clean hbegun ⟨hface.hidden, hface.rest⟩ hbody hfailure
  have hle := hwu.collector.received_le
  have hzero : u.collector.received = 0 := hclean
  exact ⟨anchor, v, es, w, found, x, Lasting.calm hbegun hbv, hface, helements, hfound, by omega,
    hconditions, hconsequence⟩

end Parser

end Rulebook
