import Rulebook.Parse
import Rulebook.Proofs.Composed
import Rulebook.Proofs.Totality

/-!
# Diagnostics are not read

No production reads the diagnostics that were collected before it. So two parses that differ in
them, and in the events noted on the way, take the same course: they give the same results at the
same places, with the same package. Whatever reporting keeps of the two lists of diagnostics holds
at the end.
-/

namespace Rulebook

variable {frames : Nat}

/-- What is reported to two collectors keeps a relation between them. -/
structure Collector.Congruence (R : Collector → Collector → Prop) : Prop where
  report : ∀ {c d}, R c d → ∀ e ruleName, R (c.report e ruleName) (d.report e ruleName)
  remark : ∀ {c d}, R c d → ∀ message token ruleName,
    R (c.remark message token ruleName) (d.remark message token ruleName)
  tokenMatched : ∀ {c d}, R c d → R c.tokenMatched d.tokenMatched

namespace Parser

variable {α β : Type} {R : Collector → Collector → Prop} {S : Stack → Stack → Prop} {s t : State}

/-- Two states that differ in their diagnostics, their events and their stacks at most. -/
structure State.Besides (R : Collector → Collector → Prop) (S : Stack → Stack → Prop)
    (s t : State) : Prop where
  cursor : s.cursor = t.cursor
  collector : R s.collector t.collector
  stack : S s.stack t.stack
  package : s.package = t.package
  trials : s.trials = t.trials
  ruleName : s.ruleName = t.ruleName
  lastRecovery : s.lastRecovery = t.lastRecovery

abbrev State.Beside (R : Collector → Collector → Prop) : State → State → Prop :=
  State.Besides R (· = ·)

inductive SameEnd (R : Collector → Collector → Prop) (S : Stack → Stack → Prop) :
    EStateM.Result Failure State α → EStateM.Result Failure State α → Prop where
  | ok {a : α} {s t : State} (h : s.Besides R S t) : SameEnd R S (.ok a s) (.ok a t)
  | error {f : Failure} {s t : State} (h : s.Besides R S t) : SameEnd R S (.error f s) (.error f t)

namespace SameEnd

theorem bind {p : Parser α} {f : α → Parser β} (hp : SameEnd R S (p s) (p t))
    (hf : ∀ {a u v}, State.Besides R S u v → SameEnd R S (f a u) (f a v)) :
    SameEnd R S ((p >>= f) s) ((p >>= f) t) := by
  generalize hx : p s = x at hp
  generalize hy : p t = y at hp
  cases hp with
  | ok h =>
    rw [bind_of_ok hx, bind_of_ok hy]
    exact hf h
  | error h =>
    rw [bind_of_error hx, bind_of_error hy]
    exact .error h

theorem advance (hR : Collector.Congruence R) (h : s.Besides R S t) :
    SameEnd R S (advance s) (advance t) := by
  rw [advance_eq, advance_eq, h.cursor]
  refine .ok { h with cursor := congrArg Cursor.consume h.cursor, collector := ?_ }
  show R (if s.trials = 0 then _ else _) (if t.trials = 0 then _ else _)
  rw [h.trials]
  split
  · exact hR.tokenMatched h.collector
  · exact h.collector

theorem attempt {p : Parser α} (hp : SameEnd R S (p s) (p t)) :
    SameEnd R S (attempt p s) (attempt p t) := by
  unfold Parser.attempt
  generalize p s = x at hp
  generalize p t = y at hp
  cases hp with
  | ok h => exact .ok h
  | @error f u v h =>
    cases f with
    | recognition e => exact .ok h
    | _ => exact .error h

theorem underName (name : String) {p : Parser α}
    (hp : SameEnd R S (p (s.named name)) (p (t.named name))) :
    SameEnd R S (underName name p s) (underName name p t) := by
  rw [underName_eq, underName_eq]
  unfold ensuring
  generalize p (s.named name) = x at hp
  generalize p (t.named name) = y at hp
  cases hp with
  | ok h => exact .ok { h with ruleName := rfl }
  | error h => exact .error { h with ruleName := rfl }

theorem withTrivia {p : Parser α} (hp : SameEnd R S (p s.showing) (p t.showing)) :
    SameEnd R S (withTrivia p s) (withTrivia p t) := by
  have hpop : ∀ {u v : State}, u.Besides R S v → SameEnd R S (popTrivia u) (popTrivia v) := by
    intro u v h
    rw [popTrivia_eq, popTrivia_eq, ← h.cursor]
    split
    · exact .error h
    · exact .ok { h with cursor := rfl }
  rw [withTrivia_eq, withTrivia_eq]
  generalize p s.showing = x at hp
  generalize p t.showing = y at hp
  cases hp with
  | ok h => exact bind (hpop h) fun h => .ok h
  | error h => exact bind (hpop h) fun h => .error h

theorem nested {n : Nesting} {p : Parser α}
    (hroom : n.frames ≤ s.stack.room ↔ n.frames ≤ t.stack.room) (h : s.Besides R S t)
    (hp : SameEnd R S (p (s.within n)) (p (t.within n))) :
    SameEnd R S (nested n p s) (nested n p t) := by
  by_cases hs : n.frames ≤ s.stack.room
  · have ht := hroom.1 hs
    generalize hx : p (s.within n) = x at hp
    generalize hy : p (t.within n) = y at hp
    cases hp with
    | ok huv =>
      rw [nested_of_ok hs hx, nested_of_ok ht hy]
      exact .ok { huv with stack := h.stack }
    | error huv =>
      rw [nested_of_error hs hx, nested_of_error ht hy]
      exact .error { huv with stack := h.stack }
  · rw [nested_of_deep p (Nat.lt_of_not_le hs),
      nested_of_deep p (Nat.lt_of_not_le fun ht => hs (hroom.2 ht))]
    exact .error h

theorem recover (kinds : List TokenKind) (h : s.Besides R S t) :
    SameEnd R S (recover kinds s) (recover kinds t) := by
  have hstart : s.recoveryStart = t.recoveryStart := by
    unfold State.recoveryStart
    rw [h.cursor, h.lastRecovery]
  rw [recover_eq, recover_eq]
  unfold State.recovered
  rw [hstart]
  exact .ok { h with cursor := rfl, lastRecovery := rfl }

theorem trial (alternative : String) {p : Parser α} (h : s.Besides R S t)
    (hp : SameEnd R S (p s.trying) (p t.trying)) :
    SameEnd R S (trial alternative p s) (trial alternative p t) := by
  have hback : ∀ {u v : State}, u.Besides R S v → (s.restored u).Besides R S (t.restored v) := by
    intro u v huv
    refine { huv with cursor := ?_, trials := ?_ }
    · show u.cursor.rewind s.cursor.index = v.cursor.rewind t.cursor.index
      rw [huv.cursor, h.cursor]
    · show u.trials - 1 = v.trials - 1
      rw [huv.trials]
  rw [trial_eq, trial_eq]
  generalize p s.trying = x at hp
  generalize p t.trying = y at hp
  cases hp with
  | ok h => exact .ok (hback h)
  | @error f u v h =>
    cases f with
    | recognition e =>
      exact .ok (hback (u := u.noted _) (v := v.noted _) { h with })
    | _ => exact .error (hback h)

theorem report (hR : Collector.Congruence R) (e : ParseError) (h : s.Besides R S t) :
    SameEnd R S (report e s) (report e t) := by
  rw [report_eq, report_eq, h.trials]
  split
  · exact .ok h
  · refine .ok { h with collector := ?_ }
    show R (s.collector.report e s.ruleName) (t.collector.report e t.ruleName)
    rw [h.ruleName]
    exact hR.report h.collector e t.ruleName

theorem remark (hR : Collector.Congruence R) (message : String) (token : Token)
    (h : s.Besides R S t) : SameEnd R S (remark message token s) (remark message token t) := by
  rw [remark_eq, remark_eq, h.trials]
  split
  · exact .ok h
  · refine .ok { h with collector := ?_ }
    show R (s.collector.remark message token s.ruleName)
      (t.collector.remark message token t.ruleName)
    rw [h.ruleName]
    exact hR.remark h.collector message token t.ruleName

theorem dropDeepStatement (hR : Collector.Congruence R) (h : s.Besides R S t) :
    SameEnd R S (dropDeepStatement s) (dropDeepStatement t) := by
  have hreset : State.Besides R S { s with cursor := s.cursor.resetTrivia, trials := 0 }
      { t with cursor := t.cursor.resetTrivia, trials := 0 } :=
    { h with cursor := congrArg Cursor.resetTrivia h.cursor, trials := rfl }
  refine bind (p := modify _) (.ok hreset) fun {_ u v} h => ?_
  rw [bind_of_ok (current_eq u), bind_of_ok (current_eq v), h.cursor]
  rw [bind_of_ok (p := get) (s := u) rfl, bind_of_ok (p := get) (s := v) rfl,
    bind_of_ok (note_eq _ u), bind_of_ok (note_eq _ v)]
  refine bind (remark hR _ _ { h with }) fun h => ?_
  exact bind (p := modify _) (.ok { h with ruleName := rfl }) fun h => recover _ h

theorem statementOrRecovery (hR : Collector.Congruence R)
    (hp : SameEnd R S (statement s) (statement t)) :
    SameEnd R S (statementOrRecovery s) (statementOrRecovery t) := by
  unfold Parser.statementOrRecovery
  generalize statement s = x at hp
  generalize statement t = y at hp
  cases hp with
  | ok h => exact .ok h
  | @error f u v h =>
    cases f with
    | recognition e => exact bind (report hR e h) fun h => recover _ h
    | nestingTooDeep => exact dropDeepStatement hR h
    | _ => exact .error h

end SameEnd

/-- Productions take the same course from states that differ in their diagnostics. -/
theorem Composed.sameEnd {p : Parser α} (hp : Composed p) (hR : Collector.Congruence R)
    (h : s.Beside R t) : SameEnd R (· = ·) (p s) (p t) := by
  induction hp generalizing s t with
  | done a => exact .ok h
  | stop f => exact .error h
  | look view =>
    show SameEnd R _ (.ok (view s.cursor) s) (.ok (view t.cursor) t)
    rw [h.cursor]
    exact .ok h
  | lookUp view =>
    show SameEnd R _ (.ok (view s.package) s) (.ok (view t.package) t)
    rw [h.package]
    exact .ok h
  | byLevels f _ _ ih =>
    rw [bind_of_ok (levels_eq s), bind_of_ok (levels_eq t), ← h.stack]
    exact ih (s.stack.frames + 1) h
  | inTrial =>
    show SameEnd R _ (.ok (decide (0 < s.trials)) s) (.ok (decide (0 < t.trials)) t)
    rw [h.trials]
    exact .ok h
  | advance => exact .advance hR h
  | bind p f _ _ ihp ihf => exact (ihp h).bind fun h => ihf _ h
  | attempt p _ ih => exact .attempt (ih h)
  | nested n p _ ih =>
    have hwithin : (s.within n).Beside R (t.within n) :=
      { h with stack := congrArg (·.take n) h.stack }
    exact .nested (by rw [h.stack]) h (ih hwithin)
  | withTrivia p _ ih =>
    have hshowing : s.showing.Beside R t.showing :=
      { h with cursor := congrArg (Cursor.pushTrivia · true) h.cursor }
    exact .withTrivia (ih hshowing)
  | underName name p _ ih => exact .underName name (ih { h with ruleName := rfl })
  | note e => exact .ok { h with }
  | report e => exact .report hR e h
  | remark message token => exact .remark hR message token h
  | recover e kinds => exact (SameEnd.report hR e h).bind fun h => .recover kinds h
  | change f => exact .ok { h with package := congrArg f h.package }
  | trial alternative p _ ih =>
    have htrying : s.trying.Beside R t.trying := { h with trials := congrArg (· + 1) h.trials }
    exact .trial alternative h (ih htrying)
  | statementOrRecovery _ ih => exact .statementOrRecovery hR (ih h)

theorem State.Beside.exists_ok {p : Parser α} [Composed p] (hR : Collector.Congruence R)
    (h : s.Beside R t) {a : α} {u : State} (hp : p s = .ok a u) :
    ∃ v, p t = .ok a v ∧ u.Beside R v := by
  have hend := Composed.sameEnd (p := p) inferInstance hR h
  rw [hp] at hend
  generalize p t = y at hend
  cases hend with
  | ok h => exact ⟨_, rfl, h⟩

theorem State.Beside.exists_ok_first {p : Parser α} [Composed p] (hR : Collector.Congruence R)
    (h : s.Beside R t) {a : α} {v : State} (hp : p t = .ok a v) :
    ∃ u, p s = .ok a u ∧ u.Beside R v := by
  have hend := Composed.sameEnd (p := p) inferInstance hR h
  rw [hp] at hend
  generalize p s = x at hend
  cases hend with
  | ok h => exact ⟨_, rfl, h⟩

end Parser

/-!
## A cap keeps the first diagnostics

A cap on the number of diagnostics does not touch what a parse remembers of its errors, so a capped
parse takes the course of one without a cap. It records the same diagnostics up to the cap.
-/

open Rulebook.Parser

/-- The second collector has the first diagnostics of the first one, up to a cap of `n`. -/
structure Collector.Truncates (n : Nat) (c d : Collector) : Prop where
  uncapped : c.maxErrors = none
  capped : d.maxErrors = some n
  sourceName : d.sourceName = c.sourceName
  recovering : d.recovering = c.recovering
  errors : d.errors = c.errors.take n

namespace Collector.Truncates

variable {n : Nat} {c d : Collector}

theorem add (h : Truncates n c d) (kind : ErrorKind) (message : String) (token : Option Token)
    (ruleName : Option String) :
    Truncates n (c.add kind message token ruleName) (d.add kind message token ruleName) := by
  have hopen : c.isFull = false := by
    unfold isFull
    rw [h.uncapped]
  have hc : c.add kind message token ruleName =
      { c with errors := c.errors ++ [.ofToken kind c.sourceName message token ruleName] } :=
    if_neg (by simp [hopen])
  by_cases hlt : c.errors.length < n
  · have hkept : d.errors = c.errors := by
      rw [h.errors, List.take_of_length_le (by omega)]
    have hd : d.isFull = false := by
      unfold isFull
      rw [h.capped, hkept]
      simp only [decide_eq_false_iff_not]
      omega
    have hadd : d.add kind message token ruleName =
        { d with errors := d.errors ++ [.ofToken kind d.sourceName message token ruleName] } :=
      if_neg (by simp [hd])
    rw [hc, hadd]
    refine ⟨h.uncapped, h.capped, h.sourceName, h.recovering, ?_⟩
    show d.errors ++ [_] = (c.errors ++ [_]).take n
    rw [hkept, h.sourceName, List.take_of_length_le]
    rw [List.length_append, List.length_singleton]
    omega
  · have hd : d.isFull = true := by
      unfold isFull
      rw [h.capped, h.errors]
      simp only [List.length_take, decide_eq_true_eq]
      omega
    have hadd : d.add kind message token ruleName = { d with suppressed := d.suppressed + 1 } :=
      if_pos hd
    rw [hc, hadd]
    refine ⟨h.uncapped, h.capped, h.sourceName, h.recovering, ?_⟩
    show d.errors = (c.errors ++ [_]).take n
    rw [h.errors, List.take_append_of_le_length (by omega)]

theorem report (h : Truncates n c d) (e : ParseError) (ruleName : Option String) :
    Truncates n (c.report e ruleName) (d.report e ruleName) := by
  unfold Collector.report
  rw [h.recovering]
  split
  · exact { h with recovering := rfl }
  · exact add (c := { c with recovering := true }) (d := { d with recovering := true })
      { h with recovering := rfl } _ _ _ _

end Collector.Truncates

theorem Collector.congruence_truncates (n : Nat) : Collector.Congruence (Truncates n) where
  report h e ruleName := h.report e ruleName
  remark h message token ruleName := h.add _ message token ruleName
  tokenMatched h := { h with recovering := rfl }

/-- With a cap or without one, a parse takes the same course. -/
theorem sameEnd_capped (frames : Nat) (settings : Settings) (n : Nat) (sourceName text : String) :
    SameEnd (Collector.Truncates n) (· = ·)
      (compilationUnit (.ofText frames { settings with maxErrors := none } sourceName text))
      (compilationUnit (.ofText frames { settings with maxErrors := some n } sourceName text)) :=
  Composed.sameEnd inferInstance (Collector.congruence_truncates n)
    ⟨rfl, ⟨rfl, rfl, rfl, rfl, List.take_nil.symm⟩, rfl, rfl, rfl, rfl, rfl⟩

/-- A cap of `n` leaves the package as it is, and the first `n` diagnostics; a parse that is given
up without a cap is given up with one. -/
theorem parse_capped (settings : Settings) (n : Nat) (sourceName text : String) :
    (∃ result capped,
      parse frames { settings with maxErrors := none } sourceName text = .ok result ∧
      parse frames { settings with maxErrors := some n } sourceName text = .ok capped ∧
      capped.package = result.package ∧ capped.errors = result.errors.take n ∧
      capped.errors.length = min n result.errors.length) ∨
    ∃ abandoned capped,
      parse frames { settings with maxErrors := none } sourceName text = .error abandoned ∧
      parse frames { settings with maxErrors := some n } sourceName text = .error capped ∧
      capped.failure = abandoned.failure := by
  have hsame := sameEnd_capped frames settings n sourceName text
  unfold parse
  generalize compilationUnit (.ofText frames { settings with maxErrors := none } sourceName text) =
    x at *
  generalize compilationUnit (.ofText frames { settings with
    maxErrors := some n } sourceName text) = y at *
  cases hsame with
  | ok h =>
    refine .inl ⟨_, _, rfl, rfl, rfl, h.collector.errors, ?_⟩
    show List.length _ = min n (List.length _)
    rw [h.collector.errors, List.length_take]
  | error h => exact .inr ⟨_, _, rfl, rfl, rfl⟩

section Capped

variable {settings : Settings} {sourceName text : String} {q r : ParseResult}

def Settings.recorded (settings : Settings) (errors : List Diagnostic) : List Diagnostic :=
  (settings.maxErrors.map errors.take).getD errors

theorem Settings.Valid.eq_nil_of_recorded {errors : List Diagnostic} (h : settings.Valid)
    (hnone : settings.recorded errors = []) : errors = [] := by
  unfold recorded at hnone
  cases hmax : settings.maxErrors with
  | none => rwa [hmax] at hnone
  | some n =>
    rw [hmax] at hnone
    exact (List.take_eq_nil_iff.1 hnone).resolve_left fun hzero => h (hzero ▸ hmax)

theorem Settings.Valid.recorded_singleton (h : settings.Valid) (d : Diagnostic) :
    settings.recorded [d] = [d] := by
  unfold recorded
  cases hmax : settings.maxErrors with
  | none => rfl
  | some n =>
    obtain ⟨n, rfl⟩ := Nat.exists_eq_succ_of_ne_zero fun hzero => h (hzero ▸ hmax)
    exact congrArg (d :: ·) List.take_nil

variable (settings sourceName text) in
theorem parse_recorded :
    (∃ q r, parse frames { settings with maxErrors := none } sourceName text = .ok q ∧
      parse frames settings sourceName text = .ok r ∧ r.package = q.package ∧
        r.errors = settings.recorded q.errors) ∨
    ∃ f g, parse frames { settings with maxErrors := none } sourceName text = .error f ∧
      parse frames settings sourceName text = .error g := by
  unfold Settings.recorded
  cases hmax : settings.maxErrors with
  | none =>
    rw [show { settings with maxErrors := none } = settings by rw [← hmax]]
    cases hparse : parse frames settings sourceName text with
    | ok r => exact .inl ⟨r, r, rfl, rfl, rfl, rfl⟩
    | error f => exact .inr ⟨f, f, rfl, rfl⟩
  | some n =>
    have hsame := sameEnd_capped frames settings n sourceName text
    rw [show { settings with maxErrors := some n } = settings by rw [← hmax]] at hsame
    unfold parse
    generalize compilationUnit (.ofText frames { settings with
      maxErrors := none } sourceName text) = x at *
    generalize compilationUnit (.ofText frames settings sourceName text) = y at *
    cases hsame with
    | ok h => exact .inl ⟨_, _, rfl, rfl, rfl, h.collector.errors⟩
    | error h => exact .inr ⟨_, _, rfl, rfl⟩

theorem exists_uncapped (h : parse frames settings sourceName text = .ok r) :
    ∃ q, parse frames { settings with maxErrors := none } sourceName text = .ok q ∧
      r.package = q.package ∧
      r.errors = settings.recorded q.errors := by
  rcases parse_recorded settings sourceName text with ⟨q, r', hq, hr, hsame⟩ | ⟨f, g, -, hr⟩
  · obtain rfl := Except.ok.inj (h.symm.trans hr)
    exact ⟨q, hq, hsame⟩
  · cases h.symm.trans hr

theorem exists_capped
    (h : parse frames { settings with maxErrors := none } sourceName text = .ok q) :
    ∃ r, parse frames settings sourceName text = .ok r ∧ r.package = q.package ∧
      r.errors = settings.recorded q.errors := by
  rcases parse_recorded settings sourceName text with ⟨q', r, hq, hr, hsame⟩ | ⟨f, g, hq, -⟩
  · obtain rfl := Except.ok.inj (h.symm.trans hq)
    exact ⟨r, hr, hsame⟩
  · cases h.symm.trans hq

end Capped

/-!
## Diagnostics in front

A parse that has some diagnostics already goes on as one that has none.
-/

structure Collector.Follows (before : List Diagnostic) (c d : Collector) : Prop where
  first_uncapped : c.maxErrors = none
  second_uncapped : d.maxErrors = none
  sourceName : d.sourceName = c.sourceName
  recovering : d.recovering = c.recovering
  errors : c.errors = before ++ d.errors

namespace Collector.Follows

variable {before : List Diagnostic} {c d : Collector}

theorem add (h : Follows before c d) (kind : ErrorKind) (message : String) (token : Option Token)
    (ruleName : Option String) :
    Follows before (c.add kind message token ruleName) (d.add kind message token ruleName) := by
  have hopen : ∀ {c : Collector}, c.maxErrors = none → ¬c.isFull = true := fun {c} hc => by
    unfold isFull
    rw [hc]
    exact Bool.false_ne_true
  unfold Collector.add
  rw [if_neg (hopen h.first_uncapped), if_neg (hopen h.second_uncapped)]
  refine { h with errors := ?_ }
  show c.errors ++ [_] = before ++ (d.errors ++ [_])
  rw [h.errors, h.sourceName, List.append_assoc]

theorem report (h : Follows before c d) (e : ParseError) (ruleName : Option String) :
    Follows before (c.report e ruleName) (d.report e ruleName) := by
  unfold Collector.report
  rw [h.recovering]
  split
  · exact { h with recovering := rfl }
  · exact add (c := { c with recovering := true }) (d := { d with recovering := true })
      { h with recovering := rfl } _ _ _ _

end Collector.Follows

theorem Collector.congruence_follows (before : List Diagnostic) :
    Collector.Congruence (Follows before) where
  report h e ruleName := h.report e ruleName
  remark h message token ruleName := h.add _ message token ruleName
  tokenMatched h := { h with recovering := rfl }

end Rulebook
