import Rulebook.Parse
import Rulebook.Proofs.Composed
import Rulebook.Proofs.Progress
import Rulebook.Proofs.ScannedText
import Rulebook.Settings.Basic

/-!
# Parsing never gives up

Between statements a parse is idle: trivia is hidden and nothing is saved, no trial runs and no rule
has the word. Every production starts from there and comes back to it, with an error reported at
the boundary that catches it, so that a file is read to its end. Only an integer with too many
digits, which no boundary catches, ends a parse before.
-/

namespace Rulebook

variable {frames : Nat}

open Rulebook.Parser

/-- The settings are such as a configuration admits: a cap admits an error. -/
def Settings.Valid (settings : Settings) : Prop := settings.maxErrors ≠ some 0

theorem Settings.valid_of_ofValue {v : Value} {settings : Settings}
    (h : Settings.ofValue v = .ok settings) : settings.Valid := by
  have hcap : ∀ {v : Value} {m : Option Nat}, v.cap = .ok m → m ≠ some 0 := by
    intro v m h
    unfold Value.cap at h
    split at h
    · cases h; simp
    · cases hn : v.integer with
      | error c => rw [hn] at h; cases h
      | ok n =>
        rw [hn] at h
        change (if 1 ≤ n then Except.ok (some n.toNat) else Except.error Complaint.tooSmall) =
          _ at h
        split at h
        · cases h; simp; omega
        · cases h
  cases v with
  | table t =>
    simp only [ofValue, ofTable, Checked.both_eq_ok_iff] at h
    obtain ⟨_, _, ⟨_, _, ⟨_, _, ⟨f, _, hmax, -, rfl⟩, -, rfl⟩, -, rfl⟩, -, rfl⟩ := h
    unfold pick at hmax
    split at hmax
    · cases hmax; simp [Valid]
    · next v _ =>
      unfold single at hmax
      cases hv : v.cap with
      | ok m => simp only [hv] at hmax; cases hmax; exact hcap hv
      | error c => simp only [hv] at hmax; cases hmax
  | _ => cases h

namespace Parser

variable {α β : Type} {s t : State}

/-- Between two statements. -/
structure Idle (s : State) : Prop where
  hidden : s.cursor.triviaVisible = false
  saved : s.cursor.saved = []
  trials : s.trials = 0
  ruleName : s.ruleName = none

theorem Idle.evolves (hs : Idle s) (h : s.Evolves t) : Idle t where
  hidden := h.triviaVisible.trans hs.hidden
  saved := h.saved.trans hs.saved
  trials := h.trials.trans hs.trials
  ruleName := by
    rcases h.ruleName with heq | heq
    · rw [heq, hs.ruleName]
    · exact heq

/-- From this state a production can only fail for an integer that is too long. -/
structure Settles (p : Parser α) (s : State) : Prop extends OrderlyFrom p s where
  long : ∀ {t : State} {f : Failure}, p s = .error f t → ∃ n, f = .tooManyDigits n

namespace Settles

theorem of_ok {p : Parser α} {a : α} (h : p s = .ok a t) (hst : s.Evolves t) : Settles p s where
  toOrderlyFrom := .of_ok h hst
  long h' := by rw [h] at h'; cases h'

theorem bind {p : Parser α} {f : α → Parser β} (hp : Settles p s)
    (hf : ∀ {a t}, p s = .ok a t → Settles (f a) t) : Settles (p >>= f) s where
  toOrderlyFrom := hp.toOrderlyFrom.bind fun h => (hf h).toOrderlyFrom
  long {u e} h := by
    cases hps : p s with
    | ok a t => rw [bind_of_ok hps] at h; exact (hf hps).long h
    | error e t => rw [bind_of_error hps] at h; cases h; exact hp.long hps

end Settles

/-! ### Boundaries -/

theorem headOrRecovery_of_recognition {p : Parser Unit} {e : ParseError}
    (h : p s = .error (.recognition e) t) (ht : t.trials = 0) :
    headOrRecovery p s =
      .ok () ((t.reported e).recovered (statementStart ++ attributeKinds)) := by
  unfold headOrRecovery
  refine (bind_of_ok (attempt_of_recognition h)).trans ?_
  refine (bind_of_ok (report_eq e t)).trans ?_
  rw [if_neg (by omega)]
  exact recover_eq _ _

theorem headOrRecovery_settles (hs : Idle s) {p : Parser Unit} [Shallow p] (hp : OrderlyFrom p s) :
    Settles (headOrRecovery p) s := by
  cases h : p s with
  | ok a t =>
    have heq : headOrRecovery p s = .ok () t := by
      unfold headOrRecovery
      rw [bind_of_ok (attempt_of_ok h)]
      rfl
    exact .of_ok heq (hp.evolves_ok h)
  | error f t =>
    have hst := hp.evolves_error h
    have ht := (hs.evolves hst).trials
    cases f with
    | recognition e =>
      exact .of_ok (headOrRecovery_of_recognition h ht)
        (hst.trans ((Orderly.evolves_reported e ht).trans
          (Orderly.evolves_recovered _ (s := t.reported e) ht)))
    | tooManyDigits n =>
      have heq : headOrRecovery p s = .error (.tooManyDigits n) t := by
        unfold headOrRecovery
        exact bind_of_error (attempt_of_error h (by simp))
      exact ⟨.of_error heq hst (hp.expected h), fun h' => ⟨n, by rw [heq] at h'; cases h'; rfl⟩⟩
    | nestingTooDeep => exact absurd rfl (Shallow.ne_nestingTooDeep h)
    | cursor f => exact (hp.expected h).elim

theorem packageStatement_from (hs : Idle s) (duplicate : Bool) :
    OrderlyFrom (packageStatement duplicate) s := by
  cases duplicate with
  | true => exact Orderly.from_ s
  | false =>
    unfold packageStatement
    simp only [Bool.false_eq_true, if_false]
    refine (Orderly.from_ s).bind fun {_ t} h => (Orderly.from_ t).bind fun {name u} h' =>
      (Orderly.from_ u).bind fun {_ v} h'' => ?_
    have hv := ((Orderly.evolves_ok _ h).trans (Orderly.evolves_ok _ h')).trans
      (Orderly.evolves_ok _ h'')
    exact .of_ok rfl (Orderly.evolves_declared (fun p => { p with name }) (hs.evolves hv).trials)

theorem packageAttribute_from (hs : Idle s) : OrderlyFrom packageAttribute s := by
  unfold packageAttribute
  refine (Orderly.from_ s).bind fun {a t} h => OrderlyFrom.bind ?_ fun _ => Orderly.from_ _
  exact .of_ok rfl (Orderly.evolves_declared (fun p => { p with attributes := p.attributes.put a })
    (hs.evolves (Orderly.evolves_ok _ h)).trials)

theorem rounds_settles {more : α → Parser Bool} {body : α → Parser α}
    (hmore : ∀ {a s}, Idle s → Settles (more a) s) (hbody : ∀ {a s}, Idle s → Settles (body a) s)
    (n : Nat) (a : α) (hs : Idle s) : Settles (rounds more body n a) s := by
  induction n generalizing a s with
  | zero => exact .of_ok rfl (.refl s)
  | succ n ih =>
    refine (hmore hs).bind fun {b t} h => ?_
    have ht := hs.evolves ((hmore hs).evolves_ok h)
    split
    · exact (hbody ht).bind fun h' => ih _ (ht.evolves ((hbody ht).evolves_ok h'))
    · exact .of_ok rfl (.refl t)

/-! ### Statements -/

def State.dropped (s : State) : State :=
  let event := Event.nestingTooDeep s.collector.sourceName s.cursor.current.line
    s.cursor.current.column
  State.recovered statementStart
    { (s.noted event).remarked "nesting too deep" s.cursor.current with ruleName := none }

def State.cleared (s : State) : State := { s with cursor := s.cursor.resetTrivia, trials := 0 }

theorem dropDeepStatement_eq_dropped (s : State) :
    dropDeepStatement s = .ok () s.cleared.dropped := by
  let event := Event.nestingTooDeep s.cleared.collector.sourceName s.cleared.cursor.current.line
    s.cleared.cursor.current.column
  unfold dropDeepStatement
  refine (bind_of_ok (p := modify _) (t := s.cleared) rfl).trans ?_
  refine (bind_of_ok (current_eq _)).trans ((bind_of_ok (p := get) rfl).trans ?_)
  refine (bind_of_ok (note_eq event _)).trans ((bind_of_ok (remark_eq _ _ _)).trans ?_)
  rw [if_neg (show ¬0 < (s.cleared.noted event).trials from Nat.lt_irrefl 0)]
  exact (bind_of_ok (p := modify _) rfl).trans (recover_eq _ _)

theorem Idle.cleared_eq (hs : Idle s) : s.cleared = s := by
  have hcursor : s.cursor.resetTrivia = s.cursor := by
    unfold Cursor.resetTrivia
    rw [← hs.hidden, ← hs.saved]
  unfold State.cleared
  rw [hcursor, ← hs.trials]

theorem dropDeepStatement_eq (hs : Idle s) : dropDeepStatement s = .ok () s.dropped := by
  rw [dropDeepStatement_eq_dropped, hs.cleared_eq]

theorem evolves_dropped (hs : Idle s) : s.Evolves s.dropped := by
  unfold State.dropped
  refine State.Evolves.trans ?_ (Orderly.evolves_recovered _ hs.trials)
  exact ⟨rfl, Nat.le_refl _, rfl, rfl, fun hpos => absurd hs.trials (Nat.ne_of_gt hpos),
    Collector.extends_remark .., .inr rfl⟩

theorem statementOrRecovery_resumes {e : ParseError}
    (h : statement s = .error (.recognition e) t) :
    statementOrRecovery s = (do report e; recover statementStart : Parser Unit) t := by
  unfold statementOrRecovery
  simp only [h]

theorem statementOrRecovery_of_recognition {e : ParseError}
    (h : statement s = .error (.recognition e) t) (ht : t.trials = 0) :
    statementOrRecovery s = .ok () ((t.reported e).recovered statementStart) := by
  rw [statementOrRecovery_resumes h]
  refine (bind_of_ok (report_eq e t)).trans ?_
  rw [if_neg (by omega)]
  exact recover_eq _ _

theorem statementOrRecovery_of_nesting (h : statement s = .error .nestingTooDeep t) :
    statementOrRecovery s = dropDeepStatement t := by
  unfold statementOrRecovery
  simp only [h]

theorem statementOrRecovery_of_digits {n : Nat} (h : statement s = .error (.tooManyDigits n) t) :
    statementOrRecovery s = .error (.tooManyDigits n) t := by
  unfold statementOrRecovery
  simp only [h]

theorem statementOrRecovery_of_error {f : Failure} (ht : Idle t) (h : statement s = .error f t) :
    (∃ u, statementOrRecovery s = .ok () u ∧ t.Evolves u) ∨
      ∃ n, f = .tooManyDigits n ∧ statementOrRecovery s = .error f t := by
  cases f with
  | recognition e =>
    exact .inl ⟨_, statementOrRecovery_of_recognition h ht.trials,
      (Orderly.evolves_reported e ht.trials).trans
        (Orderly.evolves_recovered _ (s := t.reported e) ht.trials)⟩
  | tooManyDigits n => exact .inr ⟨n, rfl, statementOrRecovery_of_digits h⟩
  | nestingTooDeep =>
    exact .inl ⟨t.dropped, (statementOrRecovery_of_nesting h).trans (dropDeepStatement_eq ht),
      evolves_dropped ht⟩
  | cursor f => exact (Orderly.expected h).elim

theorem statementOrRecovery_of_ok {a : Unit} (h : statement s = .ok a t) :
    statementOrRecovery s = .ok () t := by
  unfold statementOrRecovery
  simp only [h]

theorem statementOrRecovery_settles (hs : Idle s) : Settles statementOrRecovery s := by
  cases h : statement s with
  | ok a t => exact .of_ok (statementOrRecovery_of_ok h) (Orderly.evolves_ok _ h)
  | error f t =>
    have hst := Orderly.evolves_error _ h
    rcases statementOrRecovery_of_error (hs.evolves hst) h with ⟨u, hu, htu⟩ | ⟨n, rfl, heq⟩
    · exact .of_ok hu (hst.trans htu)
    · exact ⟨.of_error heq hst (Orderly.expected h), fun h' =>
        ⟨n, by rw [heq] at h'; cases h'; rfl⟩⟩

theorem length_ahead_statementOrRecovery (hs : Idle s) (hk : s.cursor.current.kind ≠ .endOfInput)
    (h : statementOrRecovery s = .ok () t) : t.cursor.ahead.length < s.cursor.ahead.length := by
  cases hst : statement s with
  | ok a u =>
    rw [statementOrRecovery_of_ok hst] at h
    cases h
    exact Eager.shortens statement hs.hidden hst
  | error f u =>
    have hu := hs.evolves (Orderly.evolves_error _ hst)
    rcases statement_of_error hst with ⟨n, rfl⟩ | hlt | ⟨heq, hkinds, e, rfl⟩
    · rw [statementOrRecovery_of_digits hst] at h; cases h
    · rcases statementOrRecovery_of_error hu hst with ⟨v, hv, huv⟩ | ⟨n, -, herr⟩
      · rw [hv] at h
        cases h
        rw [Cursor.shown_of_hidden hs.hidden, Cursor.shown_of_hidden hu.hidden] at hlt
        exact Nat.lt_of_le_of_lt huv.length_ahead_le hlt
      · rw [herr] at h; cases h
    · rw [statementOrRecovery_of_recognition hst hu.trials] at h
      cases h
      subst heq
      have hlt := length_shown_recovered (s := u.reported e) hk hkinds
      have hrecovered := hu.evolves ((Orderly.evolves_reported e hu.trials).trans
        (Orderly.evolves_recovered statementStart (s := u.reported e) hu.trials))
      rwa [Cursor.shown_of_hidden hrecovered.hidden,
        Cursor.shown_of_hidden (c := (u.reported e).cursor) hu.hidden] at hlt

theorem rounds_statements {n k m : Nat} (hs : Idle s) (hn : s.cursor.ahead.length < n)
    (h : rounds (fun _ => do return !(← nextIs [.endOfInput])) (fun n => do
      statementOrRecovery
      return n + 1) n k s = .ok m t) : t.cursor.current.kind = .endOfInput := by
  induction n generalizing k s with
  | zero => exact absurd hn (Nat.not_lt_zero _)
  | succ n ih =>
    unfold rounds at h
    have hmore : (do return !(← nextIs [.endOfInput]) : Parser Bool) s =
        .ok (!decide (s.cursor.current.kind ∈ [.endOfInput])) s := rfl
    rw [bind_of_ok hmore] at h
    by_cases hk : s.cursor.current.kind = .endOfInput
    · rw [if_neg (by simp [hk])] at h
      cases h
      exact hk
    · rw [if_pos (by simp [hk])] at h
      cases hbody : statementOrRecovery s with
      | ok a u =>
        have hround : (do statementOrRecovery; return k + 1 : Parser Nat) s = .ok (k + 1) u :=
          (bind_of_ok hbody).trans rfl
        rw [bind_of_ok hround] at h
        have hlt := length_ahead_statementOrRecovery hs hk hbody
        exact ih (hs.evolves ((statementOrRecovery_settles hs).evolves_ok hbody)) (by omega) h
      | error f u =>
        have hround : (do statementOrRecovery; return k + 1 : Parser Nat) s = .error f u :=
          bind_of_error hbody
        rw [bind_of_error hround] at h
        cases h

/-! ### Whole files -/

theorem unitHead_settles (hs : Idle s) : Settles unitHead s := by
  unfold unitHead
  refine Settles.bind (.of_ok (t := s) rfl (.refl s)) fun {b t} h => ?_
  have ht : Idle t := by cases h; exact hs
  have hattributes : ∀ {t}, Idle t → Settles (repeatWhile () (fun _ => nextIs attributeKinds)
      fun _ => headOrRecovery packageAttribute) t := fun {t} ht =>
    .bind (.of_ok (p := get) rfl (.refl t)) fun h => by
      cases h
      exact rounds_settles (fun {_ s} _ => .of_ok (nextIs_eq attributeKinds s) (.refl s))
        (fun hs => headOrRecovery_settles hs (packageAttribute_from hs)) _ () ht
  split
  · refine (headOrRecovery_settles ht (packageStatement_from ht false)).bind fun h => ?_
    exact hattributes
      (ht.evolves ((headOrRecovery_settles ht (packageStatement_from ht false)).evolves_ok h))
  · exact hattributes ht

theorem statements_settles (hs : Idle s) :
    Settles statements s ∧ ∀ {m t}, statements s = .ok m t →
    t.cursor.current.kind = .endOfInput := by
  have heq : statements s = rounds (fun _ => do return !(← nextIs [.endOfInput])) (fun n => do
      statementOrRecovery
      return n + 1) (s.cursor.remaining + 1) 0 s := rfl
  refine ⟨?_, fun {m t} h => ?_⟩
  · unfold statements
    refine .bind (.of_ok (p := get) rfl (.refl s)) fun h => ?_
    cases h
    refine rounds_settles (fun {_ s} _ => .of_ok (t := s) rfl (.refl s)) (fun hs => ?_) _ 0 hs
    exact (statementOrRecovery_settles hs).bind fun {_ t} _ => .of_ok rfl (.refl t)
  · rw [heq] at h
    exact rounds_statements hs (Nat.lt_succ_of_le s.cursor.length_ahead_le_remaining) h

theorem locatePackage_eq (change : Location → Location) (s : State) :
    locatePackage change s =
      .ok () (s.declared fun p => { p with location := change p.location }) :=
  rfl

def State.ended (n : Nat) (s : State) : State :=
  State.declared
    (fun p => { p with location := p.location.closeAt (s.cursor.previous.map (·.stop)) })
    (if n = 0 ∧ s.trials = 0 then s.reported (.earlyExit "compilation unit" s.cursor.current)
      else s)

theorem closeUnit_eq (n : Nat) (s : State) :
    closeUnit n s = .ok (s.ended n).package (s.ended n) := by
  unfold closeUnit State.ended
  split
  · refine (bind_of_ok (current_eq s)).trans ((bind_of_ok (report_eq _ s)).trans ?_)
    by_cases hs : s.trials = 0
    · rw [if_neg (by omega), if_pos ⟨‹_›, hs⟩]; rfl
    · rw [if_pos (by omega), if_neg (by simp [hs])]; rfl
  · next hn => rw [if_neg (by simp [hn])]; rfl

theorem cursor_ended (n : Nat) (s : State) : (s.ended n).cursor = s.cursor := by
  unfold State.ended
  split <;> rfl

theorem evolves_ended (n : Nat) (hs : s.trials = 0) : s.Evolves (s.ended n) := by
  unfold State.ended
  split
  · exact (Orderly.evolves_reported _ hs).trans
      (Orderly.evolves_declared _ (s := s.reported _) hs)
  · exact Orderly.evolves_declared _ hs

theorem compilationUnit_settles (hs : Idle s) : Settles compilationUnit s ∧
    ∀ {p t}, compilationUnit s = .ok p t → t.cursor.current.kind = .endOfInput := by
  let start := s.declared fun p =>
    { p with location := { Location.ofToken s.cursor.current with stop := p.location.stop } }
  have hstart := hs.evolves (t := start) (Orderly.evolves_declared _ hs.trials)
  have hhead := unitHead_settles hstart
  refine ⟨?_, fun {p v} h => ?_⟩
  · unfold compilationUnit
    refine .bind (.of_ok (current_eq s) (.refl s)) fun h => ?_
    cases h
    refine .bind (.of_ok (locatePackage_eq _ s) (Orderly.evolves_declared _ hs.trials)) fun h => ?_
    cases h
    refine hhead.bind fun {_ t} h => ?_
    have ht := hstart.evolves (hhead.evolves_ok h)
    refine (statements_settles ht).1.bind fun {n u} h' => ?_
    exact .of_ok (closeUnit_eq n u)
      (evolves_ended n (ht.evolves ((statements_settles ht).1.evolves_ok h')).trials)
  · change (do unitHead; closeUnit (← statements) : Parser Package) start = _ at h
    obtain ⟨_, t, ht, h⟩ := bind_eq_ok.1 h
    obtain ⟨n, u, hu, h⟩ := bind_eq_ok.1 h
    rw [closeUnit_eq] at h
    cases h
    rw [cursor_ended]
    exact (statements_settles (hstart.evolves (hhead.evolves_ok ht))).2 hu

end Parser

namespace Parser

/-- The state after a whole text: it has been read to its end, nothing is left over from
a production, and if any error or remark was among the calls to its collector, something
is recorded. -/
structure AtRest (s : State) : Prop extends Idle s where
  atEnd : s.cursor.current.kind = .endOfInput
  passed : ∀ t ∈ s.cursor.rest, t.isTrivia = true
  recorded : ∃ calls : List Collector.Call,
    s.collector = Collector.told
      { sourceName := s.collector.sourceName, maxErrors := s.collector.maxErrors } calls ∧
      ((∃ call ∈ calls, call.isComplaint = true) → s.collector.errors ≠ [])

theorem told_invariant (c : Collector) :
    StateInvariant fun s => ∃ calls, s.collector = c.told calls where
  advanced {s} h := by
    rcases Nat.eq_zero_or_pos s.trials with hzero | hpos
    · rw [show s.advanced.collector = s.collector.tokenMatched from if_pos hzero]
      exact Collector.exists_told_tell h .tokenMatched
    · rw [show s.advanced.collector = s.collector from if_neg (Nat.ne_of_gt hpos)]
      exact h
  showing h := h
  popTrivia {s} h := by
    obtain ⟨cursor, heq⟩ := after_popTrivia s
    rwa [heq]
  relabelled _ _ h := h
  stacked _ h := h
  declared _ h := h
  report {s} e h := by
    rw [after_of_ok (report_eq e s)]
    split
    · exact h
    · exact Collector.exists_told_tell h (.report e s.ruleName)
  remark {s} message token h := by
    rw [after_of_ok (remark_eq message token s)]
    split
    · exact h
    · exact Collector.exists_told_tell h (.remark message (some token) s.ruleName)
  recover {s} e kinds h := by
    refine after_bind (P := fun t => ∃ calls, t.collector = c.told calls) ?_ fun {_ t} h => ?_
    · rw [after_of_ok (report_eq e s)]
      split
      · exact h
      · exact Collector.exists_told_tell h (.report e s.ruleName)
    · rwa [after_of_ok (recover_eq kinds t)]
  dropDeepStatement {s} h := by
    rw [after_of_ok (dropDeepStatement_eq_dropped s)]
    exact Collector.exists_told_tell h
      (.remark "nesting too deep" (some s.cleared.cursor.current) s.ruleName)

end Parser

theorem idle_ofText (frames : Nat) (settings : Settings) (sourceName text : String) :
    Idle (.ofText frames settings sourceName text) := by
  refine ⟨hidden_scan text, ?_, rfl, rfl⟩
  show (Cursor.ofTokens _ text).saved = _
  rw [ofTokens_eq]

theorem front_ofText (frames : Nat) (settings : Settings) (sourceName text : String) :
    (State.ofText frames settings sourceName text).cursor.front.toList =
    tokens settings.hashComments text := by
  show (Cursor.ofTokens _ text).front.toList = _
  rw [ofTokens_eq]

theorem received_eq_zero {settings : Settings} (hvalid : settings.Valid)
    {sourceName text : String} {t : State}
    (hst : (State.ofText frames settings sourceName text).Evolves t)
    (hclean : t.collector.errors = []) : t.collector.received = 0 := by
  have hhonest : t.collector.Honest := hst.collector.honest fun _ h => by
    rcases h with h | h
    · exact absurd h Bool.false_ne_true
    · exact absurd h (Nat.lt_irrefl 0)
  have hcap : t.collector.maxErrors ≠ some 0 := by
    rw [hst.collector.maxErrors]
    exact hvalid
  refine Nat.eq_zero_of_not_pos fun hpos => hhonest hcap (.inr ?_) hclean
  simpa only [Collector.received, hclean, List.length_nil, Nat.zero_add] using hpos

section Parsed

variable {settings : Settings} {sourceName text : String} {r : ParseResult}

theorem exists_unit (h : parse frames settings sourceName text = .ok r) :
    ∃ t, compilationUnit (.ofText frames settings sourceName text) = .ok r.package t ∧
      (State.ofText frames settings sourceName text).Evolves t ∧ r.errors = t.collector.errors ∧
      r.sourceName = sourceName := by
  unfold parse at h
  cases hunit : compilationUnit (.ofText frames settings sourceName text) with
  | error f t => rw [hunit] at h; cases h
  | ok package t =>
    rw [hunit] at h
    cases h
    exact ⟨t, rfl, (compilationUnit_settles (idle_ofText ..)).1.evolves_ok hunit, rfl, rfl⟩

theorem exists_clean_unit (hvalid : settings.Valid)
    (h : parse frames settings sourceName text = .ok r) (hclean : r.errors = []) :
    ∃ t, compilationUnit (.ofText frames settings sourceName text) = .ok r.package t ∧
      (State.ofText frames settings sourceName text).Evolves t ∧ t.collector.received = 0 := by
  obtain ⟨t, hunit, hst, herrors, -⟩ := exists_unit h
  exact ⟨t, hunit, hst, received_eq_zero hvalid hst (herrors.symm.trans hclean)⟩

end Parsed

/-- The calls that were made while a text was read. If one of them was an error or a remark,
something is recorded. -/
theorem exists_calls {settings : Settings} (hvalid : settings.Valid) {sourceName text : String}
    {p : Package} {t : State}
    (h : compilationUnit (.ofText frames settings sourceName text) = .ok p t)
    (hst : (State.ofText frames settings sourceName text).Evolves t) :
    ∃ calls : List Collector.Call, t.collector = Collector.told
        { sourceName := t.collector.sourceName, maxErrors := t.collector.maxErrors } calls ∧
      ((∃ call ∈ calls, call.isComplaint = true) → t.collector.errors ≠ []) := by
  have htold := (told_invariant { sourceName, maxErrors := settings.maxErrors }).composed
    (p := compilationUnit) inferInstance (s := .ofText frames settings sourceName text) ⟨[], rfl⟩
  rw [after_of_ok h] at htold
  obtain ⟨calls, hcalls⟩ := htold
  refine ⟨calls, ?_, fun ⟨call, hmem, hcomplaint⟩ hnil => ?_⟩
  · rw [hst.collector.sourceName, hst.collector.maxErrors]
    exact hcalls
  · have hzero := received_eq_zero hvalid hst hnil
    rw [hcalls, Collector.received_told] at hzero
    have hpos := List.countP_pos_iff.2 ⟨call, hmem, hcomplaint⟩
    omega

theorem ahead_of_unit {settings : Settings} {sourceName text : String} {p : Package} {t : State}
    (h : compilationUnit (.ofText frames settings sourceName text) = .ok p t) :
    t.cursor.ahead = [] := by
  obtain ⟨hsettles, hend⟩ := compilationUnit_settles (idle_ofText frames settings sourceName text)
  have hst := hsettles.evolves_ok h
  exact Cursor.ahead_eq_nil_of_end ((idle_ofText ..).evolves hst).hidden
    (hst.front ▸ (faithful_scan text).plain) (hend h)

/-- A text is always parsed, to the end and into a clean state, unless an attribute in it has an
integer with too many digits. -/
theorem parse_settles (settings : Settings) (h : settings.Valid) (sourceName text : String) :
    (∃ package t,
      compilationUnit (.ofText frames settings sourceName text) = .ok package t ∧ AtRest t ∧
      ∃ result, parse frames settings sourceName text = .ok result ∧ result.package = package ∧
        result.errors = t.collector.errors) ∨
    ∃ n events, parse frames settings sourceName text = .error ⟨.tooManyDigits n, events⟩ ∧
      LongInteger (scan text settings.hashComments) n := by
  have hidle := idle_ofText frames settings sourceName text
  obtain ⟨hsettles, hend⟩ := compilationUnit_settles hidle
  unfold parse
  cases hunit : compilationUnit (.ofText frames settings sourceName text) with
  | ok package t =>
    have hst := hsettles.evolves_ok hunit
    refine .inl ⟨package, t, rfl, { hidle.evolves hst with
      atEnd := hend hunit
      passed := isTrivia_of_visible_eq_nil (ahead_of_unit hunit)
      recorded := exists_calls h hunit hst }, ?_⟩
    exact ⟨_, rfl, rfl, rfl⟩
  | error f t =>
    obtain ⟨n, rfl⟩ := hsettles.long hunit
    have hlong : LongInteger (State.ofText frames settings sourceName text).cursor.front.toList n :=
      hsettles.expected hunit
    rw [front_ofText] at hlong
    exact .inr ⟨n, t.events.reverse, rfl, @scan_eq settings.hashComments text ▸ hlong.append _⟩

theorem parse_settles_default :
    (∃ package t,
      compilationUnit (.ofText 900 {} "orders" "rule R when Person(") = .ok package t ∧ AtRest t ∧
      ∃ result, parse 900 {} "orders" "rule R when Person(" = .ok result ∧
        result.package = package ∧ result.errors = t.collector.errors) ∨
    ∃ n events, parse 900 {} "orders" "rule R when Person(" = .error ⟨.tooManyDigits n, events⟩ ∧
      LongInteger (scan "rule R when Person(" true) n :=
  parse_settles {} (by simp [Settings.Valid]) "orders" "rule R when Person("

end Rulebook
