import Rulebook.Parser.Production

/-!
# What the primitives do

One equation for each primitive of the productions: its outcome and the state it leaves. Later
proofs use these equations and the rules for sequences, and do not open the primitives again.
-/

namespace Rulebook.Parser

variable {α β : Type}

/-! ### Sequences -/

/-- The state that a production ends in, however it ends. -/
def after (p : Parser α) (s : State) : State :=
  match p s with
  | .ok _ t => t
  | .error _ t => t

theorem after_of_ok {p : Parser α} {s t : State} {a : α} (h : p s = .ok a t) : after p s = t := by
  simp [after, h]

theorem after_of_error {p : Parser α} {s t : State} {f : Failure} (h : p s = .error f t) :
    after p s = t := by
  simp [after, h]

theorem bind_of_ok {p : Parser α} {f : α → Parser β} {s t : State} {a : α} (h : p s = .ok a t) :
    (p >>= f) s = f a t := by
  show EStateM.bind p f s = _
  simp [EStateM.bind, h]

theorem bind_of_error {p : Parser α} {f : α → Parser β} {s t : State} {e : Failure}
    (h : p s = .error e t) : (p >>= f) s = .error e t := by
  show EStateM.bind p f s = _
  simp [EStateM.bind, h]

theorem after_bind_of_ok {p : Parser α} {f : α → Parser β} {s t : State} {a : α}
    (h : p s = .ok a t) : after (p >>= f) s = after (f a) t := by
  unfold after
  rw [bind_of_ok h]

/-- What holds after the first of two productions, and is kept by the second, holds after both. -/
theorem after_bind {P : State → Prop} {p : Parser α} {f : α → Parser β} {s : State}
    (hp : P (after p s)) (hf : ∀ {a t}, P t → P (after (f a) t)) : P (after (p >>= f) s) := by
  cases h : p s with
  | ok a t =>
    rw [after_of_ok h] at hp
    rw [after_bind_of_ok h]
    exact hf hp
  | error e t =>
    rw [after_of_error h] at hp
    rw [after_of_error (bind_of_error h)]
    exact hp

theorem after_bind_of_after {p : Parser α} {f : α → Parser β} {s : State}
    (hf : ∀ a t, after (f a) t = t) : after (p >>= f) s = after p s := by
  cases h : p s with
  | ok a t => rw [after_bind_of_ok h, after_of_ok h, hf]
  | error e t => rw [after_of_error (bind_of_error h), after_of_error h]

/-- Sequences that have the same beginning go on in the same way. -/
theorem bind_eq_of_eq {p q : Parser α} (f : α → Parser β) {s t : State} (h : p s = q t) :
    (p >>= f) s = (q >>= f) t := by
  cases hq : q t with
  | ok a u => rw [bind_of_ok (h.trans hq), bind_of_ok hq]
  | error e u => rw [bind_of_error (h.trans hq), bind_of_error hq]

theorem bind_eq_ok {p : Parser α} {f : α → Parser β} {s u : State} {b : β} :
    (p >>= f) s = .ok b u ↔ ∃ a t, p s = .ok a t ∧ f a t = .ok b u := by
  cases h : p s with
  | ok a t =>
    rw [bind_of_ok h]
    exact ⟨fun hf => ⟨a, t, rfl, hf⟩, fun ⟨_, _, heq, hf⟩ => by cases heq; exact hf⟩
  | error e t =>
    rw [bind_of_error h]
    exact ⟨fun h => (by cases h), fun ⟨_, _, h, _⟩ => (by cases h)⟩

theorem map_of_ok {p : Parser α} {f : α → β} {s t : State} {a : α} (h : p s = .ok a t) :
    (f <$> p) s = .ok (f a) t := by
  show EStateM.map f p s = _
  simp [EStateM.map, h]

theorem map_of_error {p : Parser α} {f : α → β} {s t : State} {e : Failure}
    (h : p s = .error e t) : (f <$> p) s = .error e t := by
  show EStateM.map f p s = _
  simp [EStateM.map, h]

theorem map_eq_bind (f : α → β) (p : Parser α) : f <$> p = p >>= fun a => pure (f a) := by
  funext s
  cases h : p s with
  | ok a t => rw [map_of_ok h, bind_of_ok h]; rfl
  | error e t => rw [map_of_error h, bind_of_error h]

theorem fail_bind (e : ParseError) (f : α → Parser β) : (fail e >>= f) = fail e := rfl

/-! ### Looking and consuming -/

theorem current_eq (s : State) : current s = .ok s.cursor.current s := rfl

theorem peek_eq (n : Nat) (s : State) : peek n s = .ok (s.cursor.lookahead (n + 1)) s := rfl

theorem nextIs_eq (kinds : List TokenKind) (s : State) :
    nextIs kinds s = .ok (s.cursor.current.kind ∈ kinds) s := rfl

theorem kind_of_nextIs {kinds : List TokenKind} {s t : State} (h : nextIs kinds s = .ok true t) :
    s = t ∧ s.cursor.current.kind ∈ kinds := by
  rw [nextIs_eq] at h
  simp only [EStateM.Result.ok.injEq, decide_eq_true_eq] at h
  exact ⟨h.2, h.1⟩

theorem kind_of_nextIsSymbol {k : Symbol} {s t : State} (h : nextIsSymbol k s = .ok true t) :
    s = t ∧ s.cursor.current.kind = .symbol k := by
  change EStateM.Result.ok (decide (s.cursor.current.kind = .symbol k)) s = _ at h
  simp only [EStateM.Result.ok.injEq, decide_eq_true_eq] at h
  exact ⟨h.2, h.1⟩

def State.advanced (s : State) : State :=
  { s with
    cursor := s.cursor.consume
    collector := if s.trials = 0 then s.collector.tokenMatched else s.collector }

theorem advance_eq (s : State) : advance s = .ok s.cursor.current s.advanced := rfl

theorem expect_eq (kind : TokenKind) (s : State) :
    expect kind s =
      if s.cursor.current.kind = kind then .ok s.cursor.current s.advanced
      else .error (.recognition (.mismatchedToken kind s.cursor.current)) s := by
  show (if _ then _ else _ : Parser Token) s = _
  split <;> rfl

theorem expect_of_ok {kind : TokenKind} {s t : State} {a : Token} (h : expect kind s = .ok a t) :
    a = s.cursor.current ∧ a.kind = kind ∧ t = s.advanced := by
  rw [expect_eq] at h
  split at h
  · next hk => cases h; exact ⟨rfl, hk, rfl⟩
  · cases h

theorem name_eq (s : State) :
    name s =
      if s.cursor.current.isName then .ok s.cursor.current s.advanced
      else .error (.recognition (.mismatchedToken .identifier s.cursor.current)) s := by
  show (if _ then _ else _ : Parser Token) s = _
  split <;> rfl

/-! ### Failures as values -/

theorem attempt_of_ok {p : Parser α} {s t : State} {a : α} (h : p s = .ok a t) :
    attempt p s = .ok (.ok a) t := by
  simp [attempt, h]

theorem attempt_of_recognition {p : Parser α} {s t : State} {e : ParseError}
    (h : p s = .error (.recognition e) t) : attempt p s = .ok (.error e) t := by
  simp [attempt, h]

theorem attempt_of_error {p : Parser α} {s t : State} {f : Failure} (h : p s = .error f t)
    (hf : ∀ e, f ≠ .recognition e) : attempt p s = .error f t := by
  cases f with
  | recognition e => exact absurd rfl (hf e)
  | _ => simp [attempt, h]

/-- A failure that is taken for a value leaves the state as it is. -/
theorem after_attempt (p : Parser α) (s : State) : after (attempt p) s = after p s := by
  cases h : p s with
  | ok a t => rw [after_of_ok h, after_of_ok (attempt_of_ok h)]
  | error f t =>
    rw [after_of_error h]
    cases f with
    | recognition e => exact after_of_ok (attempt_of_recognition h)
    | _ => exact after_of_error (attempt_of_error h (by simp))

theorem ensuring_of_ok {p : Parser α} {change : State → State} {s t : State} {a : α}
    (h : p s = .ok a t) : ensuring p change s = .ok a (change t) := by
  simp [ensuring, h]

theorem ensuring_of_error {p : Parser α} {change : State → State} {s t : State} {f : Failure}
    (h : p s = .error f t) : ensuring p change s = .error f (change t) := by
  simp [ensuring, h]

def State.named (name : String) (s : State) : State := { s with ruleName := some name }

theorem underName_eq (name : String) (p : Parser α) (s : State) :
    underName name p s = ensuring p (fun s => { s with ruleName := none }) (s.named name) := rfl

theorem after_underName (name : String) (p : Parser α) (s : State) :
    after (underName name p) s = { after p (s.named name) with ruleName := none } := by
  have heq := underName_eq name p s
  cases h : p (s.named name) with
  | ok a t => rw [after_of_ok h, after_of_ok (heq.trans (ensuring_of_ok h))]
  | error f t => rw [after_of_error h, after_of_error (heq.trans (ensuring_of_error h))]

/-! ### Productions within productions -/

def State.within (n : Nesting) (s : State) : State := { s with stack := s.stack.take n }

def State.unwound (s t : State) : State := { t with stack := s.stack }

theorem levels_eq (s : State) : levels s = .ok (s.stack.frames + 1) s := rfl

section Nested

variable {n : Nesting} {p : Parser α} {s t : State}

theorem nested_of_deep (p : Parser α) (h : s.stack.room < n.frames) :
    nested n p s = .error .nestingTooDeep s :=
  if_neg (Nat.not_le.2 h)

theorem nested_of_ok {a : α} (hroom : n.frames ≤ s.stack.room) (h : p (s.within n) = .ok a t) :
    nested n p s = .ok a (s.unwound t) := by
  have heq : nested n p s = match p (s.within n) with
      | .ok a t => .ok a (s.unwound t)
      | .error f t => .error f (s.unwound t) := if_pos hroom
  rw [heq, h]

theorem nested_of_error {f : Failure} (hroom : n.frames ≤ s.stack.room)
    (h : p (s.within n) = .error f t) : nested n p s = .error f (s.unwound t) := by
  have heq : nested n p s = match p (s.within n) with
      | .ok a t => .ok a (s.unwound t)
      | .error f t => .error f (s.unwound t) := if_pos hroom
  rw [heq, h]

theorem after_nested (n : Nesting) (p : Parser α) (s : State) :
    after (nested n p) s =
      if n.frames ≤ s.stack.room then s.unwound (after p (s.within n)) else s := by
  split
  · next hroom =>
    cases h : p (s.within n) with
    | ok a t => rw [after_of_ok h, after_of_ok (nested_of_ok hroom h)]
    | error f t => rw [after_of_error h, after_of_error (nested_of_error hroom h)]
  · next hroom => exact after_of_error (nested_of_deep p (Nat.lt_of_not_le hroom))

theorem nested_eq_ok {a : α} :
    nested n p s = .ok a t ↔
      n.frames ≤ s.stack.room ∧ ∃ u, p (s.within n) = .ok a u ∧ t = s.unwound u := by
  by_cases hroom : n.frames ≤ s.stack.room
  · cases h : p (s.within n) with
    | ok b u =>
      rw [nested_of_ok hroom h]
      constructor
      · rintro ⟨⟩
        exact ⟨hroom, u, rfl, rfl⟩
      · rintro ⟨-, _, ⟨⟩, rfl⟩
        rfl
    | error f u =>
      rw [nested_of_error hroom h]
      constructor
      · rintro ⟨⟩
      · rintro ⟨-, _, ⟨⟩, -⟩
  · rw [nested_of_deep p (Nat.lt_of_not_le hroom)]
    constructor
    · rintro ⟨⟩
    · exact fun h => absurd h.1 hroom

end Nested

/-! ### Trivia -/

def State.showing (s : State) : State := { s with cursor := s.cursor.pushTrivia true }

def State.hidingAs (s t : State) : State := { t with cursor := s.cursor.rewind t.cursor.index }

theorem withTrivia_eq (p : Parser α) (s : State) : withTrivia p s =
    match p s.showing with
    | .ok a t => (do popTrivia; return a : Parser α) t
    | .error f t => (do popTrivia; throw f : Parser α) t :=
  rfl

theorem after_withTrivia (p : Parser α) (s : State) :
    after (withTrivia p) s = after popTrivia (after p s.showing) := by
  have heq := withTrivia_eq p s
  unfold after
  cases h : p s.showing with
  | ok a t =>
    rw [heq, h]
    exact after_bind_of_after fun _ _ => rfl
  | error f t =>
    rw [heq, h]
    exact after_bind_of_after fun _ _ => rfl

theorem popTrivia_eq (s : State) : popTrivia s = match s.cursor.popTrivia? with
    | .error f => .error (.cursor f) s
    | .ok cursor => .ok () { s with cursor } := by
  unfold popTrivia
  refine (bind_of_ok (p := get) rfl).trans ?_
  split <;> next hc => simp only [hc]; rfl

theorem after_popTrivia (s : State) : ∃ cursor, after popTrivia s = { s with cursor } := by
  have heq := popTrivia_eq s
  split at heq
  · exact ⟨s.cursor, after_of_error heq⟩
  · exact ⟨_, after_of_ok heq⟩

/-! ### Reports and declarations -/

def State.noted (e : Event) (s : State) : State := { s with events := e :: s.events }

theorem note_eq (e : Event) (s : State) : note e s = .ok () (s.noted e) := rfl

theorem unlessTrial_eq (p : Parser Unit) (s : State) :
    (inTrial >>= fun running => if running then pure () else p) s =
      if 0 < s.trials then .ok () s else p s := by
  refine (bind_of_ok (p := inTrial) rfl).trans ?_
  by_cases hs : 0 < s.trials
  · rw [if_pos hs, if_pos (decide_eq_true hs)]; rfl
  · rw [if_neg hs, if_neg (by simpa using hs)]

def State.reported (e : ParseError) (s : State) : State :=
  { s with
    collector := s.collector.report e s.ruleName
    events := if s.collector.recovering then .suppressed e.message :: s.events else s.events }

theorem report_eq (e : ParseError) (s : State) :
    report e s = .ok () (if 0 < s.trials then s else s.reported e) := by
  refine (unlessTrial_eq _ s).trans ?_
  split
  · rfl
  · refine (bind_of_ok (p := get) rfl).trans ?_
    unfold State.reported
    split <;> rfl

def State.remarked (message : String) (token : Token) (s : State) : State :=
  { s with collector := s.collector.remark message token s.ruleName }

theorem remark_eq (message : String) (token : Token) (s : State) :
    remark message token s = .ok () (if 0 < s.trials then s else s.remarked message token) := by
  refine (unlessTrial_eq _ s).trans ?_
  split <;> rfl

def State.declared (change : Package → Package) (s : State) : State :=
  { s with package := change s.package }

theorem declare_eq (change : Package → Package) (s : State) :
    declare change s = .ok () (if 0 < s.trials then s else s.declared change) := by
  refine (unlessTrial_eq _ s).trans ?_
  split <;> rfl

theorem declare_of_idle (change : Package → Package) {s : State} (hs : s.trials = 0) :
    declare change s = .ok () (s.declared change) := by
  rw [declare_eq, if_neg (by omega)]

/-! ### Recovery -/

def State.recoveryStart (s : State) : Cursor :=
  if s.lastRecovery = some s.cursor.index then s.cursor.consume else s.cursor

def State.recovered (kinds : List TokenKind) (s : State) : State :=
  let (cursor, skipped) := s.recoveryStart.skipUntil kinds 0
  { s with
    cursor
    lastRecovery := some s.recoveryStart.index
    events :=
      if 0 < skipped then
        .resynchronised s.collector.sourceName cursor.current.line cursor.current.column skipped ::
          s.events
      else s.events }

theorem recover_eq (kinds : List TokenKind) (s : State) :
    recover kinds s = .ok () (s.recovered kinds) := by
  have hstart : (modify fun s : State =>
      if s.lastRecovery = some s.cursor.index then { s with cursor := s.cursor.consume } else s :
        Parser Unit) s = .ok () { s with cursor := s.recoveryStart } := by
    show EStateM.Result.ok () (ite ..) = _
    unfold State.recoveryStart
    split <;> rfl
  unfold recover
  refine (bind_of_ok hstart).trans ((bind_of_ok (p := modify _) rfl).trans ?_)
  refine (bind_of_ok (p := get) rfl).trans ?_
  unfold State.recovered
  dsimp only
  refine (bind_of_ok (p := set _) rfl).trans ?_
  split
  · rfl
  · rfl

theorem recoverFrom_eq (e : ParseError) (kinds : List TokenKind) (s : State) :
    recoverFrom e kinds s =
      if 0 < s.trials then .error (.recognition e) s
      else .ok () ((s.reported e).recovered kinds) := by
  refine (bind_of_ok (p := inTrial) rfl).trans ?_
  by_cases hs : 0 < s.trials
  · rw [if_pos hs, if_pos (decide_eq_true hs)]; rfl
  · rw [if_neg hs, if_neg (by simpa using hs)]
    refine (bind_of_ok (report_eq e s)).trans ?_
    rw [if_neg hs]
    exact recover_eq kinds (s.reported e)

/-! ### Trials -/

/-- The state in which a trial runs. -/
def State.trying (s : State) : State := { s with trials := s.trials + 1 }

/-- The state `t` at the end of a trial begun in `s`. -/
def State.restored (s t : State) : State :=
  { t with trials := t.trials - 1, cursor := t.cursor.rewind s.cursor.index }

theorem trial_eq (alternative : String) (p : Parser α) (s : State) :
    trial alternative p s =
      match p s.trying with
      | .ok _ t => .ok true (s.restored t)
      | .error (.recognition e) t =>
        .ok false (s.restored (t.noted (.trialFailed alternative e.message)))
      | .error f t => .error f (s.restored t) :=
  rfl

theorem trial_of_passed {alternative : String} {p : Parser α} {s t : State} {a : α}
    (h : p s.trying = .ok a t) : trial alternative p s = .ok true (s.restored t) := by
  rw [trial_eq, h]

theorem trial_of_recognition {alternative : String} {p : Parser α} {s t : State} {e : ParseError}
    (h : p s.trying = .error (.recognition e) t) :
    trial alternative p s =
      .ok false (s.restored (t.noted (.trialFailed alternative e.message))) := by
  rw [trial_eq, h]

theorem trial_of_failure {alternative : String} {p : Parser α} {s t : State} {f : Failure}
    (h : p s.trying = .error f t) (hf : ∀ e, f ≠ .recognition e) :
    trial alternative p s = .error f (s.restored t) := by
  rw [trial_eq, h]
  cases f with
  | recognition e => exact absurd rfl (hf e)
  | _ => rfl

end Rulebook.Parser
