import Rulebook.Parse
import Rulebook.Proofs.Unreported

/-!
# Where reading goes on after a broken rule

A rule or query that breaks off is given up to the next statement. Recovery passes over a token
before it looks for that statement if it began at the same place the last time, and an unclosed
pattern recovers at the token that also ends the rule. So the statement after a broken rule is read
just if the last recovery did not begin where the rule breaks off; and it did not if the error is
the first one in the rule.
-/

namespace Rulebook

variable {frames : Nat}

open Rulebook.Parser

theorem Cursor.skipUntil_of_mem {kinds : List TokenKind} {c : Cursor} (n : Nat)
    (h : c.current.kind ∈ kinds) : c.skipUntil kinds n = (c, n) := by
  by_cases hend : c.current.kind = .endOfInput
  · rw [Cursor.skipUntil, if_pos hend]
  · rw [Cursor.skipUntil, if_neg hend, if_pos h]

namespace Parser

variable {α : Type} {s t u : State}

/-! ### The place of the last recovery -/

theorem index_popTrivia (s : State) : (after popTrivia s).cursor.index = s.cursor.index := by
  have heq := popTrivia_eq s
  cases hpop : s.cursor.popTrivia? with
  | error f =>
    rw [hpop] at heq
    rw [after_of_error heq]
  | ok c =>
    rw [hpop] at heq
    rw [after_of_ok heq]
    unfold Cursor.popTrivia? at hpop
    split at hpop <;> cases hpop
    rfl

/-- The last recovery did not begin further on than the cursor stands. -/
def State.Recent (s : State) : Prop := ∀ k ∈ s.lastRecovery, k ≤ s.cursor.index

namespace State.Recent

theorem of_le (h : s.Recent) (hlast : t.lastRecovery = s.lastRecovery)
    (hindex : s.cursor.index ≤ t.cursor.index) : t.Recent := by
  intro k hk
  rw [hlast] at hk
  exact Nat.le_trans (h k hk) hindex

theorem same (h : s.Recent) (hlast : t.lastRecovery = s.lastRecovery)
    (hindex : t.cursor.index = s.cursor.index) : t.Recent :=
  h.of_le hlast (Nat.le_of_eq hindex.symm)

theorem recovered (s : State) (kinds : List TokenKind) : (s.recovered kinds).Recent := by
  intro k hk
  have hstart : s.recoveryStart.index = k := Option.some.inj hk
  rw [← hstart]
  exact (s.recoveryStart.skipUntil_eq_rewind kinds 0).2

theorem recover (s : State) (e : ParseError) (kinds : List TokenKind) :
    (after (do report e; recover kinds) s).Recent := by
  rw [after_of_ok ((bind_of_ok (report_eq e s)).trans (recover_eq kinds _))]
  exact .recovered _ kinds

theorem reported (h : s.Recent) (e : ParseError) : (after (report e) s).Recent := by
  rw [after_of_ok (report_eq e s)]
  split
  · exact h
  · exact h.same rfl rfl

theorem remarked (h : s.Recent) (message : String) (token : Token) :
    (after (remark message token) s).Recent := by
  rw [after_of_ok (remark_eq message token s)]
  split
  · exact h
  · exact h.same rfl rfl

theorem popTrivia (h : s.Recent) : (after popTrivia s).Recent := by
  obtain ⟨cursor, heq⟩ := after_popTrivia s
  refine h.same ?_ (index_popTrivia s)
  rw [heq]

theorem dropDeepStatement (h : s.Recent) : (after dropDeepStatement s).Recent := by
  unfold Parser.dropDeepStatement
  refine after_bind (P := Recent) (p := modify _) (h.same rfl rfl) fun h => ?_
  refine after_bind (P := Recent) (p := current) h fun h => ?_
  refine after_bind (P := Recent) (p := get) h fun h => ?_
  refine after_bind (P := Recent) (p := note _) (h.same rfl rfl) fun h => ?_
  refine after_bind (P := Recent) (h.remarked _ _) fun h => ?_
  refine after_bind (P := Recent) (p := modify _) (h.same rfl rfl) fun {_ t} _ => ?_
  rw [after_of_ok (recover_eq statementStart t)]
  exact .recovered t statementStart

theorem invariant : StateInvariant State.Recent where
  advanced {s} h := h.of_le rfl s.cursor.index_le_consume
  showing h := h.same rfl rfl
  popTrivia := popTrivia
  relabelled _ _ h := h.same rfl rfl
  stacked _ h := h.same rfl rfl
  declared _ h := h.same rfl rfl
  report e h := h.reported e
  remark message token h := h.remarked message token
  recover {s} e kinds _ := recover s e kinds
  dropDeepStatement := dropDeepStatement

end State.Recent

/-- No production leaves the place of the last recovery in front of the cursor. -/
theorem Composed.recent {p : Parser α} (hp : Composed p) (hs : s.Recent) : (after p s).Recent :=
  State.Recent.invariant.composed hp hs

/-! ### Broken rules and queries -/

/-- A rule or query begun in `s` breaks off in `t`: its keyword and its name are read, and its body
stops there with an error. -/
inductive BreaksOff (s t : State) : {α : Type} → Parser α → Prop
  | rule {u v : State} {token : Token} {name : String} {h : Harvest Rule} {e : ParseError}
      (htoken : keyword .rule s = .ok token u) (hname : title u = .ok name v)
      (hbody : ruleBody { location := .ofToken token, name, attributes := v.package.attributes }
        (v.named name) = .ok h t)
      (hfailure : h.failure = some e) : BreaksOff s t ruleStatement
  | query {u v : State} {token : Token} {name : String} {h : Harvest Query} {e : ParseError}
      (htoken : keyword .query s = .ok token u) (hname : title u = .ok name v)
      (hbody : queryBody { location := .ofToken token, name } (v.named name) = .ok h t)
      (hfailure : h.failure = some e) : BreaksOff s t queryStatement

def State.resumed (e : ParseError) (t : State) : State :=
  { (t.reported e).recovered ruleFollow with ruleName := none }

theorem recovering_of_failure {name : String} {body : Parser (Harvest α)}
    (locate : α → Location → α) (location : Location) {h : Harvest α} {e : ParseError}
    (ht : t.trials = 0) (hbody : body (s.named name) = .ok h t) (hfailure : h.failure = some e) :
    recovering name body locate location s =
      .ok (locate h.found (location.closeAt ((t.resumed e).cursor.previous.map (·.stop))))
        (t.resumed e) := by
  have hrecover : recoverFrom e ruleFollow t = .ok () ((t.reported e).recovered ruleFollow) := by
    rw [recoverFrom_eq, if_neg (by omega)]
  unfold recovering
  rw [underName_eq]
  refine ensuring_of_ok (t := (t.reported e).recovered ruleFollow) ?_
  refine (bind_of_ok hbody).trans ?_
  rw [hfailure]
  exact (bind_of_ok hrecover).trans rfl

theorem pure_apply (a : α) (s : State) : (pure a : Parser α) s = .ok a s := rfl

/-- A rule or query that breaks off is given up as a whole, and the cursor stands where the recovery
in it ends. -/
theorem BreaksOff.resumed {p : Parser α} (h : BreaksOff s t p) (hs : s.trials = 0) :
    ∃ e a u, p s = .ok a u ∧ u.cursor = ((t.reported e).recovered ruleFollow).cursor := by
  cases h with
  | @rule u v token name h e htoken hname hbody hfailure =>
    have htrials : t.trials = v.trials := (Orderly.evolves_ok _ hbody).trials
    have ht : t.trials = 0 := by
      rw [htrials, (Orderly.evolves_ok _ hname).trials, (Orderly.evolves_ok _ htoken).trials, hs]
    have hrun := recovering_of_failure (fun (rule : Rule) location => { rule with location })
      (.ofToken token) ht hbody hfailure
    have hidle : (t.resumed e).trials = 0 := ht
    have htrial : inTrial (t.resumed e) = .ok false (t.resumed e) := by
      refine congrArg (EStateM.Result.ok · (t.resumed e)) (decide_eq_false ?_)
      omega
    have hopened : ruleStatement s = _ := (bind_of_ok htoken).trans ((bind_of_ok hname).trans
      ((bind_of_ok (p := get) rfl).trans ((bind_of_ok hrun).trans (bind_of_ok htrial))))
    rw [if_neg Bool.false_ne_true] at hopened
    have hentered := hopened.trans (bind_of_ok (declare_of_idle _ hidle))
    have hnoted := hentered.trans (bind_of_ok (note_eq _ _))
    exact ⟨e, _, _, hnoted.trans (pure_apply _ _), rfl⟩
  | @query u v token name h e htoken hname hbody hfailure =>
    have htrials : t.trials = v.trials := (Orderly.evolves_ok _ hbody).trials
    have ht : t.trials = 0 := by
      rw [htrials, (Orderly.evolves_ok _ hname).trials, (Orderly.evolves_ok _ htoken).trials, hs]
    have hrun := recovering_of_failure (fun (query : Query) location => { query with location })
      (.ofToken token) ht hbody hfailure
    have hidle : (t.resumed e).trials = 0 := ht
    have hquery : queryStatement s = _ := (bind_of_ok htoken).trans ((bind_of_ok hname).trans
      ((bind_of_ok hrun).trans ((bind_of_ok (declare_of_idle _ hidle)).trans (pure_apply _ _))))
    exact ⟨e, _, _, hquery, rfl⟩

theorem cursor_recovered_iff {kinds : List TokenKind} (hnext : s.cursor.current.kind ∈ kinds)
    (hlive : s.cursor.current.kind ≠ .endOfInput) :
    (s.recovered kinds).cursor = s.cursor ↔ s.lastRecovery ≠ some s.cursor.index := by
  show (s.recoveryStart.skipUntil kinds 0).1 = s.cursor ↔ _
  unfold State.recoveryStart
  constructor
  · intro hkept hhere
    rw [if_pos hhere] at hkept
    have hpassed := Cursor.index_lt_consume hlive
    have hskipped := (s.cursor.consume.skipUntil_eq_rewind kinds 0).2
    rw [hkept] at hskipped
    omega
  · intro hfresh
    rw [if_neg hfresh, Cursor.skipUntil_of_mem 0 hnext]

theorem cursor_recovered_of_here {kinds : List TokenKind}
    (hhere : s.lastRecovery = some s.cursor.index) :
    (s.recovered kinds).cursor = (s.cursor.consume.skipUntil kinds 0).1 := by
  have hstart : s.recoveryStart = s.cursor.consume := if_pos hhere
  show (s.recoveryStart.skipUntil kinds 0).1 = _
  rw [hstart]

theorem ne_endOfInput_of_statementStart {k : TokenKind} (h : k ∈ statementStart) :
    k ≠ .endOfInput := by
  rintro rfl
  revert h
  decide

theorem ok_of_run' {p : Parser α} {a : α} (h : p.run' s = some a) : p s = .ok a (after p s) := by
  unfold EStateM.run' EStateM.run at h
  unfold after
  cases hp : p s with
  | ok b t =>
    rw [hp] at h
    cases h
    rfl
  | error f t =>
    rw [hp] at h
    cases h

theorem breaksOff_rule (token : Token) (name : String)
    (htoken : (keyword .rule).run' s = some token)
    (hname : title.run' (after (keyword .rule) s) = some name) {body : Parser (Harvest Rule)}
    {v : State} (hv : v = after title (after (keyword .rule) s))
    (hrule : body =
      ruleBody { location := .ofToken token, name, attributes := v.package.attributes })
    (hbroken : (body.run' (v.named name)).map (·.failure.isSome) = some true) :
    BreaksOff s (after body (v.named name)) ruleStatement := by
  obtain ⟨h, hbody, hsome⟩ := Option.map_eq_some_iff.1 hbroken
  obtain ⟨e, hfailure⟩ := Option.isSome_iff_exists.1 hsome
  subst hv
  subst hrule
  exact .rule (ok_of_run' htoken) (ok_of_run' hname) (ok_of_run' hbody) hfailure

/-- A rule or query that breaks off before a statement keyword is complete, and the keyword is the
next token just if the last recovery did not begin there. Else it is passed over, and what follows
it up to the next statement. -/
theorem BreaksOff.resumes {p : Parser α} (h : BreaksOff s t p) (hs : s.trials = 0)
    (hnext : t.cursor.current.kind ∈ statementStart) :
    ∃ a u, p s = .ok a u ∧ (u.cursor = t.cursor ↔ t.lastRecovery ≠ some t.cursor.index) ∧
      (t.lastRecovery = some t.cursor.index →
        u.cursor = (t.cursor.consume.skipUntil statementStart 0).1) := by
  obtain ⟨e, a, u, hrun, hcursor⟩ := h.resumed hs
  refine ⟨a, u, hrun, ?_, ?_⟩
  · rw [hcursor]
    exact cursor_recovered_iff (s := t.reported e) hnext (ne_endOfInput_of_statementStart hnext)
  · intro hhere
    rw [hcursor]
    exact cursor_recovered_of_here (s := t.reported e) hhere

/-- What is missing in a pattern is passed over before the rule breaks off, so `rule` is kept. -/
theorem resumes_after_skipped_operator :
    ∃ s t a u, BreaksOff s t ruleStatement ∧ s.trials = 0 ∧
      t.cursor.current.kind ∈ statementStart ∧ t.lastRecovery ≠ some t.cursor.index ∧
      ruleStatement s = .ok a u ∧ u.cursor = t.cursor := by
  have h := breaksOff_rule (s := .ofText 900 {} "orders" "rule A when P(x > > rule B when then end")
    ⟨.keyword .rule, "rule", 1, 0, 0, 4⟩ "A" (by decide +kernel)
    (by decide +kernel) rfl rfl (by decide +kernel)
  obtain ⟨a, u, hrun, hiff, -⟩ := h.resumes rfl (by decide +kernel)
  exact ⟨_, _, a, u, h, rfl, by decide +kernel, by decide +kernel, hrun, hiff.2 (by decide +kernel)⟩

/-- An unclosed pattern recovers at the token where the rule breaks off, so `rule` is lost, and the
rule that it begins. -/
theorem swallows_after_unclosed_pattern :
    ∃ s t a u, s = State.ofText 900 {} "orders" "rule A when P(x > 1 rule B when then end" ∧
      BreaksOff s t ruleStatement ∧ t.cursor.current.text = "rule" ∧
      t.cursor.current.kind ∈ statementStart ∧ ruleStatement s = .ok a u ∧
      u.cursor.current.kind = .endOfInput ∧
      (parse 900 {} "orders" "rule A when P(x > 1 rule B when then end").toOption.map
        (·.package.ruleNames) = some ["A"] := by
  have h := breaksOff_rule (s := .ofText 900 {} "orders" "rule A when P(x > 1 rule B when then end")
    ⟨.keyword .rule, "rule", 1, 0, 0, 4⟩ "A" (by decide +kernel)
    (by decide +kernel) rfl rfl (by decide +kernel)
  obtain ⟨e, a, u, hrun, hcursor⟩ := h.resumed rfl
  have hlost : (after ruleStatement
      (State.ofText 900 {} "orders"
        "rule A when P(x > 1 rule B when then end")).cursor.current.kind =
        .endOfInput := by decide +kernel
  rw [after_of_ok hrun] at hlost
  exact ⟨_, _, a, u, rfl, h, by decide +kernel, by decide +kernel, hrun, hlost,
    by decide +kernel⟩

theorem heard_of_body {β : Type} {k : Keyword} {u v : State} {token : Token} {name : String}
    {body : Parser β} [Orderly body] [Composed body] {b : β}
    (hs : s.trials = 0) (htoken : keyword k s = .ok token u) (hname : title u = .ok name v)
    (hbody : body (v.named name) = .ok b t) : s.Heard t ∧ s.cursor.index < t.cursor.index := by
  have hu : s.Heard u := by
    rw [← after_of_ok htoken]
    exact Composed.heard inferInstance hs
  have hv : u.Heard v := by
    rw [← after_of_ok hname]
    exact Composed.heard inferInstance hu.trials
  have hnamed : v.Heard (v.named name) := .of_eq hv.trials rfl rfl rfl
  have ht : (v.named name).Heard t := by
    rw [← after_of_ok hbody]
    exact Composed.heard inferInstance hnamed.trials
  refine ⟨((hu.trans hv).trans hnamed).trans ht, ?_⟩
  obtain ⟨rfl, hkind, rfl⟩ := expect_of_ok htoken
  have hlive : s.cursor.current.kind ≠ .endOfInput := by
    rw [hkind]
    intro hend
    cases hend
  have htaken : s.cursor.index < s.advanced.cursor.index := Cursor.index_lt_consume hlive
  have hnamed := (Orderly.evolves_ok _ hname).index
  have hread := (Orderly.evolves_ok _ hbody).index
  exact Nat.lt_of_lt_of_le htaken (Nat.le_trans hnamed hread)

theorem BreaksOff.heard {p : Parser α} (h : BreaksOff s t p) (hs : s.trials = 0) :
    s.Heard t ∧ s.cursor.index < t.cursor.index := by
  cases h with
  | @rule u v token name h e htoken hname hbody hfailure =>
    exact heard_of_body hs htoken hname hbody
  | @query u v token name h e htoken hname hbody hfailure =>
    exact heard_of_body hs htoken hname hbody

/-- Wherever a file has been read to, the first error in a rule or query does not cost the statement
after it. -/
theorem BreaksOff.resumes_first {β : Type} {settings : Settings} {sourceName text : String}
    {p : Parser α} (h : BreaksOff s t p) (hs : s.trials = 0) (read : Parser β) [Composed read]
    (hread : s = after read (.ofText frames settings sourceName text))
    (hfirst : t.collector.received = s.collector.received)
    (hnext : t.cursor.current.kind ∈ statementStart) :
    ∃ a u, p s = .ok a u ∧
    u.cursor = t.cursor := by
  have hrecent : s.Recent := by
    rw [hread]
    apply Composed.recent inferInstance
    intro k hk
    cases hk
  obtain ⟨hheard, hindex⟩ := h.heard hs
  have hfresh : t.lastRecovery ≠ some t.cursor.index := by
    rw [hheard.lastRecovery hfirst]
    intro hhere
    have hle := hrecent _ hhere
    omega
  obtain ⟨e, a, u, hrun, hcursor⟩ := h.resumed hs
  refine ⟨a, u, hrun, ?_⟩
  rw [hcursor]
  exact (cursor_recovered_iff (s := t.reported e) hnext
    (ne_endOfInput_of_statementStart hnext)).2 hfresh

end Parser

end Rulebook
