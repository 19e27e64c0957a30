import Rulebook.Proofs.Unreported

/-!
# Room on the stack

A parse on a machine with more frames does the same as one with fewer, unless that gives up for want
of frames. In a statement giving up is not the end of the parse, but it is complained of.
-/

namespace Rulebook

open Rulebook.Parser

variable {frames frames' : Nat}

theorem Collector.congruence_eq : Collector.Congruence (· = ·) where
  report h _ _ := by rw [h]
  remark h _ _ _ := by rw [h]
  tokenMatched h := by rw [h]

namespace Parser

variable {α β : Type} {n : Nat} {s t u : State} {p : Parser α}

/-- A stack has as many frames as another one and as many of them left, or more. -/
structure Stack.Le (k l : Stack) : Prop where
  frames : k.frames ≤ l.frames
  room : k.room ≤ l.room

theorem Stack.Le.take {k l : Stack} (h : k.Le l) (n : Nesting) : (k.take n).Le (l.take n) :=
  ⟨h.frames, Nat.sub_le_sub_right h.room n.frames⟩

/-- The second state has more room on its stack, and differs from the first one in its events at
most besides. -/
abbrev State.Cramped : State → State → Prop := State.Besides (· = ·) Stack.Le

theorem received_le_invariant (n : Nat) : StateInvariant fun s => n ≤ s.collector.received := by
  have hreport : ∀ {s : State} (e : ParseError), n ≤ s.collector.received →
      n ≤ (after (report e) s).collector.received := fun {s} e h => by
    rw [after_of_ok (report_eq e s)]
    split
    · exact h
    · exact Nat.le_trans h (Nat.le_of_lt (received_reported s e))
  refine
    { advanced := fun {s} h => ?_
      showing := id
      popTrivia := fun {s} h => ?_
      relabelled := fun _ _ h => h
      stacked := fun _ h => h
      declared := fun _ h => h
      report := fun e h => hreport e h
      remark := fun {s} message token h => ?_
      recover := fun e kinds h => ?_
      dropDeepStatement := fun {s} h => ?_ }
  · exact Nat.le_trans h (Orderly.evolves_advanced s).collector.received_le
  · obtain ⟨cursor, heq⟩ := after_popTrivia s
    rwa [heq]
  · rw [after_of_ok (remark_eq message token s)]
    split
    · exact h
    · exact Nat.le_trans h (Nat.le_of_lt (received_remarked s message token))
  · refine after_bind (P := fun t => n ≤ t.collector.received) (hreport e h) fun {_ t} h => ?_
    rwa [after_of_ok (recover_eq kinds t)]
  · rw [after_dropDeepStatement]
    exact Nat.le_trans h (Nat.le_of_lt (received_dropped s.cleared))

/-- A run that is given up, or complains. -/
def GivesUp (p : Parser α) (s : State) : Prop :=
  (∃ f t, p s = .error f t ∧ ∀ e, f ≠ .recognition e) ∨
    s.collector.received < (after p s).collector.received

namespace GivesUp

theorem bind_left {f : α → Parser β} (hf : ∀ a, Composed (f a)) (h : GivesUp p s) :
    GivesUp (p >>= f) s := by
  rcases h with ⟨e, t, ht, he⟩ | hlt
  · exact .inl ⟨e, t, bind_of_error ht, he⟩
  · refine .inr (after_bind (P := fun t => s.collector.received < t.collector.received) hlt ?_)
    exact fun h => (received_le_invariant _).composed (hf _) h

theorem bind_right {f : α → Parser β} {a : α} (hp : Composed p) (hu : p s = .ok a u)
    (h : GivesUp (f a) u) : GivesUp (p >>= f) s := by
  rcases h with ⟨e, t, ht, he⟩ | hlt
  · exact .inl ⟨e, t, (bind_of_ok hu).trans ht, he⟩
  · have hle := (received_le_invariant s.collector.received).composed hp (Nat.le_refl _)
    rw [after_of_ok hu] at hle
    refine .inr ?_
    rw [after_bind_of_ok hu]
    exact Nat.lt_of_le_of_lt hle hlt

theorem attempt (h : GivesUp p s) : GivesUp (attempt p) s := by
  rcases h with ⟨e, t, ht, he⟩ | hlt
  · exact .inl ⟨e, t, attempt_of_error ht he, he⟩
  · exact .inr (by rwa [after_attempt])

theorem nested {n : Nesting} (hroom : n.frames ≤ s.stack.room) (h : GivesUp p (s.within n)) :
    GivesUp (nested n p) s := by
  rcases h with ⟨e, t, ht, he⟩ | hlt
  · exact .inl ⟨e, s.unwound t, nested_of_error hroom ht, he⟩
  · exact .inr (by rwa [after_nested, if_pos hroom])

theorem underName {name : String} (h : GivesUp p (s.named name)) :
    GivesUp (underName name p) s := by
  rcases h with ⟨e, t, ht, he⟩ | hlt
  · exact .inl ⟨e, _, (underName_eq name p s).trans (ensuring_of_error ht), he⟩
  · exact .inr (by rwa [after_underName])

theorem withTrivia (h : GivesUp p s.showing) : GivesUp (withTrivia p) s := by
  rcases h with ⟨e, t, ht, he⟩ | hlt
  · rw [GivesUp, withTrivia_eq, ht]
    have hpop : (∃ u, popTrivia t = .ok () u) ∨ ∃ f u, popTrivia t = .error (.cursor f) u := by
      rw [popTrivia_eq]
      split
      · exact .inr ⟨_, _, rfl⟩
      · exact .inl ⟨_, rfl⟩
    rcases hpop with ⟨u, hu⟩ | ⟨f, u, hu⟩
    · exact .inl ⟨e, u, bind_of_ok hu, he⟩
    · exact .inl ⟨_, u, bind_of_error hu, by simp⟩
  · obtain ⟨cursor, heq⟩ := after_popTrivia (after p s.showing)
    exact .inr (by rwa [after_withTrivia, heq])

theorem trial {alternative : String} [Orderly p] (h : GivesUp p s.trying) :
    GivesUp (trial alternative p) s := by
  rcases h with ⟨e, t, ht, he⟩ | hlt
  · refine .inl ⟨e, s.restored t, ?_, he⟩
    rw [trial_eq, ht]
    cases e with
    | recognition e => exact absurd rfl (he e)
    | _ => rfl
  · have hsilent := ((Orderly.from_ (p := p) s.trying).evolves.silent (Nat.succ_pos _)).1
    rw [hsilent] at hlt
    exact absurd hlt (Nat.lt_irrefl _)

theorem statementOrRecovery (h : GivesUp statement s) : GivesUp statementOrRecovery s := by
  cases hs : statement s with
  | ok a t =>
    rcases h with ⟨f, u, hu, -⟩ | hlt
    · rw [hs] at hu
      cases hu
    · rw [GivesUp, after, Parser.statementOrRecovery, hs]
      exact .inr (by rwa [after_of_ok hs] at hlt)
  | error f t =>
    have hle := (received_le_invariant s.collector.received).composed (p := statement) inferInstance
      (Nat.le_refl _)
    rw [after_of_error hs] at hle
    cases f with
    | recognition e =>
      rcases h with ⟨f, u, hu, hf⟩ | hlt
      · rw [hs] at hu
        cases hu
        exact absurd rfl (hf e)
      · rw [after_of_error hs] at hlt
        rw [GivesUp, after, statementOrRecovery_resumes hs]
        exact .inr ((received_le_invariant _).recover e statementStart hlt)
    | nestingTooDeep =>
      rw [GivesUp, after, statementOrRecovery_of_nesting hs]
      refine .inr (Nat.lt_of_le_of_lt hle ?_)
      have hdropped := received_dropped t.cleared
      rw [← after_dropDeepStatement] at hdropped
      exact hdropped
    | tooManyDigits n =>
      exact .inl ⟨.tooManyDigits n, t, by simp [Parser.statementOrRecovery, hs], by simp⟩
    | cursor f => exact .inl ⟨.cursor f, t, by simp [Parser.statementOrRecovery, hs], by simp⟩

end GivesUp

theorem GivesUp.or_sameEnd_bind {f : α → Parser β} (hp : Composed p) (hf : ∀ a, Composed (f a))
    (h : GivesUp p s ∨ SameEnd (· = ·) Stack.Le (p s) (p t))
    (hnext : ∀ a {u v : State}, u.Cramped v →
      GivesUp (f a) u ∨ SameEnd (· = ·) Stack.Le (f a u) (f a v)) :
    GivesUp (p >>= f) s ∨ SameEnd (· = ·) Stack.Le ((p >>= f) s) ((p >>= f) t) := by
  rcases h with hup | hsame
  · exact .inl (hup.bind_left hf)
  · generalize hx : p s = x at hsame
    generalize hy : p t = y at hsame
    cases hsame with
    | ok huv =>
      rcases hnext _ huv with hup | hsame
      · exact .inl (hup.bind_right hp hx)
      · exact .inr (by rwa [bind_of_ok hx, bind_of_ok hy])
    | error huv => exact .inr (by rw [bind_of_error hx, bind_of_error hy]; exact .error huv)

/-- With more room there are more levels, and what is read within fewer is read within more. -/
theorem GivesUp.or_sameEnd_byLevels {f : Nat → Parser α}
    (hf : ∀ {m n}, m ≤ n → Extends (f m) (f n)) (hframes : s.stack.frames ≤ t.stack.frames)
    (h : GivesUp (f (s.stack.frames + 1)) s ∨
      SameEnd (· = ·) Stack.Le (f (s.stack.frames + 1) s) (f (s.stack.frames + 1) t)) :
    GivesUp (levels >>= f) s ∨
      SameEnd (· = ·) Stack.Le ((levels >>= f) s) ((levels >>= f) t) := by
  rcases h with hup | hsame
  · exact .inl hup
  · rw [bind_of_ok (levels_eq t)]
    rcases hf (Nat.succ_le_succ hframes) t with ⟨v, hv⟩ | heq
    · rw [hv] at hsame
      generalize hu : f (s.stack.frames + 1) s = x at hsame
      cases hsame with
      | error => exact .inl (.inl ⟨_, _, hu, by simp⟩)
    · exact .inr (heq ▸ hsame)

/-- Productions take the same course with more room, unless they are given up or complain with
less. -/
theorem Composed.cramped (hp : Composed p) (h : s.Cramped t) :
    GivesUp p s ∨ SameEnd (· = ·) Stack.Le (p s) (p t) := by
  induction hp generalizing s t with
  | done a => exact .inr (.ok h)
  | stop f => exact .inr (.error h)
  | look view =>
    refine .inr ?_
    show SameEnd _ _ (.ok (view s.cursor) s) (.ok (view t.cursor) t)
    rw [h.cursor]
    exact .ok h
  | lookUp view =>
    refine .inr ?_
    show SameEnd _ _ (.ok (view s.package) s) (.ok (view t.package) t)
    rw [h.package]
    exact .ok h
  | byLevels f _ hf ih =>
    exact GivesUp.or_sameEnd_byLevels hf h.stack.frames (ih (s.stack.frames + 1) h)
  | inTrial =>
    refine .inr ?_
    show SameEnd _ _ (.ok (decide (0 < s.trials)) s) (.ok (decide (0 < t.trials)) t)
    rw [h.trials]
    exact .ok h
  | advance => exact .inr (.advance Collector.congruence_eq h)
  | bind p f hp hf ihp ihf =>
    exact GivesUp.or_sameEnd_bind hp hf (ihp h) fun a {u v} huv => ihf a huv
  | attempt p _ ih => exact (ih h).imp .attempt .attempt
  | nested n p _ ih =>
    by_cases hroom : n.frames ≤ s.stack.room
    · have hroom' : n.frames ≤ t.stack.room := Nat.le_trans hroom h.stack.room
      have hwithin : (s.within n).Cramped (t.within n) := { h with stack := h.stack.take n }
      exact (ih hwithin).imp (.nested hroom) (.nested ⟨fun _ => hroom', fun _ => hroom⟩ h)
    · exact .inl (.inl ⟨_, s, nested_of_deep p (Nat.lt_of_not_le hroom), by simp⟩)
  | withTrivia p _ ih =>
    have hshowing : s.showing.Cramped t.showing :=
      { h with cursor := congrArg (Cursor.pushTrivia · true) h.cursor }
    exact (ih hshowing).imp .withTrivia .withTrivia
  | underName name p _ ih =>
    have hnamed : (s.named name).Cramped (t.named name) := { h with ruleName := rfl }
    exact (ih hnamed).imp .underName (.underName name)
  | note e => exact .inr (.ok { h with })
  | report e => exact .inr (.report Collector.congruence_eq e h)
  | remark message token => exact .inr (.remark Collector.congruence_eq message token h)
  | recover e kinds =>
    exact .inr ((SameEnd.report Collector.congruence_eq e h).bind fun h => .recover kinds h)
  | change f => exact .inr (.ok { h with package := congrArg f h.package })
  | trial alternative p _ ih =>
    have htrying : s.trying.Cramped t.trying := { h with trials := congrArg (· + 1) h.trials }
    exact (ih htrying).imp .trial (.trial alternative h)
  | statementOrRecovery _ ih =>
    exact (ih h).imp .statementOrRecovery (.statementOrRecovery Collector.congruence_eq)

/-- What is read without complaint is read alike with more room. -/
theorem State.Cramped.exists_ok [Composed p] (h : s.Cramped t) {a : α} (hu : p s = .ok a u)
    (hclean : u.collector.received = s.collector.received) :
    ∃ v, p t = .ok a v ∧ u.Cramped v := by
  have hp : Composed p := inferInstance
  rcases hp.cramped h with (⟨f, v, hv, -⟩ | hlt) | hsame
  · rw [hu] at hv
    cases hv
  · rw [after_of_ok hu] at hlt
    omega
  · rw [hu] at hsame
    generalize p t = y at hsame
    cases hsame with
    | ok huv => exact ⟨_, rfl, huv⟩

theorem cramped_ofText (h : frames ≤ frames') (settings : Settings) (sourceName text : String) :
    (State.ofText frames settings sourceName text).Cramped
    (.ofText frames' settings sourceName text) :=
  ⟨rfl, rfl, ⟨h, h⟩, rfl, rfl, rfl, rfl⟩

end Parser

theorem parse_of_frames_le {settings : Settings} (hvalid : settings.Valid)
    (hframes : frames ≤ frames') {sourceName text : String} {r : ParseResult}
    (h : parse frames settings sourceName text = .ok r) (hclean : r.errors = []) :
    ∃ r', parse frames' settings sourceName text = .ok r' ∧ r'.package = r.package ∧
      r'.errors = [] := by
  obtain ⟨t, hunit, hst, hreceived⟩ := exists_clean_unit hvalid h hclean
  obtain ⟨v, hv, hcramped⟩ :=
    (cramped_ofText hframes settings sourceName text).exists_ok hunit hreceived
  have herrors : t.collector.errors = [] := List.length_eq_zero_iff.1 (by
    unfold Collector.received at hreceived
    omega)
  refine ⟨⟨r.package, v.collector.errors, sourceName,
    (Event.parsed sourceName r.package.rules.length v.collector.errors.length :: v.events).reverse⟩,
    ?_, rfl, ?_⟩
  · unfold parse
    rw [hv]
  · show v.collector.errors = []
    rw [← hcramped.collector]
    exact herrors

end Rulebook
