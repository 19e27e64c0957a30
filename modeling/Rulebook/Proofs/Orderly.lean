import Rulebook.Proofs.Course

/-!
# Orderly combinators

`Orderly` is closed under every way in which productions are put together, so a production made of
orderly ones is orderly by its shape. Reporting and recovery are orderly because trials are silent:
outside trials they may do what they do.
-/

namespace Rulebook.Parser.Orderly

variable {α β : Type}

instance (a : α) : Orderly (pure a : Parser α) where
  from_ s := .of_ok rfl (.refl s)

instance : Orderly (get : Parser State) where
  from_ s := .of_ok rfl (.refl s)

instance (e : ParseError) : Orderly (fail e : Parser α) where
  from_ s := .of_error rfl (.refl s) trivial

instance : Orderly (throw .nestingTooDeep : Parser α) where
  from_ s := .of_error rfl (.refl s) trivial

instance bind (p : Parser α) (f : α → Parser β) [Orderly p] [∀ a, Orderly (f a)] :
    Orderly (p >>= f) where
  from_ s := (from_ s).bind fun _ => from_ _

instance map (p : Parser α) (f : α → β) [Orderly p] : Orderly (f <$> p) := by
  rw [map_eq_bind]; infer_instance

instance (c : Prop) [Decidable c] (p q : Parser α) [Orderly p] [Orderly q] :
    Orderly (if c then p else q) := by
  split <;> infer_instance

instance (o : Option α) (p : Parser β) (f : α → Parser β) [hp : Orderly p]
    [hf : ∀ a, Orderly (f a)] : Orderly (o.elim p f) := by
  cases o with
  | none => exact hp
  | some a => exact hf a

/-! ### Looking and consuming -/

instance : Orderly current := by unfold current; infer_instance

instance (n : Nat) : Orderly (peek n) := by unfold peek; infer_instance

instance (kinds : List TokenKind) : Orderly (nextIs kinds) := by unfold nextIs; infer_instance

instance (s : Symbol) : Orderly (nextIsSymbol s) := by unfold nextIsSymbol; infer_instance

instance (k : Keyword) : Orderly (nextIsKeyword k) := by unfold nextIsKeyword; infer_instance

instance : Orderly lastStop := by unfold lastStop; infer_instance

instance (l : Location) : Orderly (close l) := by unfold close; infer_instance

theorem evolves_advanced (s : State) : s.Evolves s.advanced := by
  refine ⟨s.cursor.consume_eq_rewind, s.cursor.index_le_consume, rfl, rfl, fun hs => ?_, ?_,
    .inl rfl⟩
  · exact ⟨if_neg (Nat.ne_of_gt hs), rfl, rfl⟩
  · show s.collector.Extends (if s.trials = 0 then _ else _)
    split
    · exact s.collector.extends_tokenMatched
    · exact .refl _

instance : Orderly advance where
  from_ s := .of_ok (advance_eq s) (evolves_advanced s)

instance (kind : TokenKind) : Orderly (expect kind) := by unfold expect; infer_instance

instance (s : Symbol) : Orderly (symbol s) := by unfold symbol; infer_instance

instance (k : Keyword) : Orderly (keyword k) := by unfold keyword; infer_instance

instance (kind : TokenKind) : Orderly (accept kind) := by unfold accept; infer_instance

instance (s : Symbol) : Orderly (skip s) := by unfold skip; infer_instance

instance : Orderly name := by unfold name; infer_instance

/-! ### Repetition -/

instance rounds (more : α → Parser Bool) (body : α → Parser α) [∀ a, Orderly (more a)]
    [∀ a, Orderly (body a)] (n : Nat) (a : α) : Orderly (rounds more body n a) := by
  induction n generalizing a with
  | zero => unfold Parser.rounds; infer_instance
  | succ n ih => unfold Parser.rounds; infer_instance

instance repeatWhile (first : α) (more : α → Parser Bool) (body : α → Parser α)
    [∀ a, Orderly (more a)] [∀ a, Orderly (body a)] : Orderly (repeatWhile first more body) := by
  unfold Parser.repeatWhile; infer_instance

/-! ### Failures as values -/

instance attempt (p : Parser α) [Orderly p] : Orderly (attempt p) where
  from_ s := by
    cases h : p s with
    | ok a t => exact .of_ok (attempt_of_ok h) (evolves_ok p h)
    | error f t =>
      cases f with
      | recognition e => exact .of_ok (attempt_of_recognition h) (evolves_error p h)
      | _ => exact .of_error (attempt_of_error h (by simp)) (evolves_error p h) (expected h)

instance (h : Harvest α) (next : α → Parser (Harvest α)) [∀ a, Orderly (next a)] :
    Orderly (h.andThen next) := by
  unfold Harvest.andThen; split <;> infer_instance

instance harvest (found : α) (p : Parser β) (add : α → β → α) [Orderly p] :
    Orderly (harvest found p add) := by
  unfold Parser.harvest; infer_instance

/-! ### Productions within productions -/

instance : Orderly levels := by unfold levels; infer_instance

/-- What a production took off the stack is there again at its end. -/
theorem evolves_unwound {n : Nesting} {s t : State} (h : (s.within n).Evolves t) :
    s.Evolves (s.unwound t) :=
  ⟨h.cursor, h.index, h.trials, rfl, h.silent, h.collector, h.ruleName⟩

instance nested (n : Nesting) (p : Parser α) [Orderly p] : Orderly (nested n p) where
  from_ s := by
    by_cases hroom : n.frames ≤ s.stack.room
    · cases h : p (s.within n) with
      | ok a t => exact .of_ok (nested_of_ok hroom h) (evolves_unwound (evolves_ok p h))
      | error f t =>
        exact .of_error (nested_of_error hroom h) (evolves_unwound (evolves_error p h))
          ((from_ (s.within n)).expected h)
    · exact .of_error (nested_of_deep p (Nat.lt_of_not_le hroom)) (.refl s) trivial

/-! ### Trivia -/

theorem popTrivia_of_evolves {s t : State} (h : s.showing.Evolves t) :
    popTrivia t = .ok () (s.hidingAs t) := by
  have hc : t.cursor.popTrivia? = .ok (s.cursor.rewind t.cursor.index) := by
    rw [h.cursor]; rfl
  unfold popTrivia
  refine (bind_of_ok (p := get) rfl).trans ?_
  simp only [hc]
  rfl

/-- Making trivia visible for a production leaves no trace: what was saved is there to restore. -/
theorem withTrivia_of_ok {p : Parser α} [Orderly p] {s t : State} {a : α}
    (h : p s.showing = .ok a t) : Parser.withTrivia p s = .ok a (s.hidingAs t) := by
  rw [withTrivia_eq, h]
  exact bind_of_ok (popTrivia_of_evolves (evolves_ok p h))

theorem withTrivia_of_error {p : Parser α} [Orderly p] {s t : State} {f : Failure}
    (h : p s.showing = .error f t) : Parser.withTrivia p s = .error f (s.hidingAs t) := by
  rw [withTrivia_eq, h]
  exact bind_of_ok (popTrivia_of_evolves (evolves_error p h))

theorem after_withTrivia (p : Parser α) [Orderly p] (s : State) :
    after (Parser.withTrivia p) s = s.hidingAs (after p s.showing) := by
  cases h : p s.showing with
  | ok a t => rw [after_of_ok h, after_of_ok (withTrivia_of_ok h)]
  | error f t => rw [after_of_error h, after_of_error (withTrivia_of_error h)]

theorem evolves_hidingAs {s t : State} (h : s.showing.Evolves t) : s.Evolves (s.hidingAs t) :=
  ⟨rfl, h.index, h.trials, h.stack, h.silent, h.collector, h.ruleName⟩

instance withTrivia (p : Parser α) [Orderly p] : Orderly (withTrivia p) where
  from_ s := by
    cases h : p s.showing with
    | ok a t => exact .of_ok (withTrivia_of_ok h) (evolves_hidingAs (evolves_ok p h))
    | error f t =>
      exact .of_error (withTrivia_of_error h) (evolves_hidingAs (evolves_error p h))
        ((from_ s.showing).expected h)

/-! ### Reports and declarations -/

theorem evolves_noted (e : Event) (s : State) : s.Evolves (s.noted e) :=
  ⟨rfl, Nat.le_refl _, rfl, rfl, fun _ => ⟨rfl, rfl, rfl⟩, .refl _, .inl rfl⟩

instance (e : Event) : Orderly (note e) where
  from_ s := .of_ok rfl (evolves_noted e s)

instance : Orderly inTrial := by unfold inTrial; infer_instance

theorem evolves_unless {s t : State} (h : s.trials = 0 → s.Evolves t) :
    s.Evolves (if 0 < s.trials then s else t) := by
  split
  · exact .refl s
  · next hs => exact h (Nat.eq_zero_of_not_pos hs)

theorem evolves_reported (e : ParseError) {s : State} (hs : s.trials = 0) :
    s.Evolves (s.reported e) :=
  ⟨rfl, Nat.le_refl _, rfl, rfl, fun hpos => absurd hs (Nat.ne_of_gt hpos),
    Collector.extends_report .., .inl rfl⟩

instance (e : ParseError) : Orderly (report e) where
  from_ s := .of_ok (report_eq e s) (evolves_unless (evolves_reported e))

instance (message : String) (token : Token) : Orderly (remark message token) where
  from_ s := .of_ok (remark_eq message token s) (evolves_unless fun hs =>
    ⟨rfl, Nat.le_refl _, rfl, rfl, fun hpos => absurd hs (Nat.ne_of_gt hpos),
      Collector.extends_remark .., .inl rfl⟩)

theorem evolves_declared (change : Package → Package) {s : State} (hs : s.trials = 0) :
    s.Evolves (s.declared change) :=
  ⟨rfl, Nat.le_refl _, rfl, rfl, fun hpos => absurd hs (Nat.ne_of_gt hpos), .refl _, .inl rfl⟩

instance (change : Package → Package) : Orderly (declare change) where
  from_ s := .of_ok (declare_eq change s) (evolves_unless (evolves_declared change))

/-! ### Recovery -/

theorem recoveryStart_eq_rewind (s : State) :
    s.recoveryStart = s.cursor.rewind s.recoveryStart.index ∧
      s.cursor.index ≤ s.recoveryStart.index := by
  unfold State.recoveryStart
  split
  · exact ⟨s.cursor.consume_eq_rewind, s.cursor.index_le_consume⟩
  · exact ⟨rfl, Nat.le_refl _⟩

theorem recovered_eq_rewind (kinds : List TokenKind) (s : State) :
    (s.recovered kinds).cursor = s.cursor.rewind (s.recovered kinds).cursor.index ∧
      s.cursor.index ≤ (s.recovered kinds).cursor.index := by
  obtain ⟨hstart, hle⟩ := recoveryStart_eq_rewind s
  obtain ⟨hskip, hle'⟩ := s.recoveryStart.skipUntil_eq_rewind kinds 0
  refine ⟨?_, Nat.le_trans hle hle'⟩
  show (s.recoveryStart.skipUntil kinds 0).1 = s.cursor.rewind _
  rw [hskip]
  exact (congrArg (Cursor.rewind · _) hstart).trans rfl

theorem evolves_recovered (kinds : List TokenKind) {s : State} (hs : s.trials = 0) :
    s.Evolves (s.recovered kinds) := by
  obtain ⟨hcursor, hindex⟩ := recovered_eq_rewind kinds s
  exact ⟨hcursor, hindex, rfl, rfl, fun hpos => absurd hs (Nat.ne_of_gt hpos), .refl _, .inl rfl⟩

instance (e : ParseError) (kinds : List TokenKind) : Orderly (recoverFrom e kinds) where
  from_ s := by
    have heq := recoverFrom_eq e kinds s
    by_cases hs : 0 < s.trials
    · rw [if_pos hs] at heq
      exact .of_error heq (.refl s) trivial
    · rw [if_neg hs] at heq
      have hzero := Nat.eq_zero_of_not_pos hs
      exact .of_ok heq ((evolves_reported e hzero).trans
        (evolves_recovered kinds (s := s.reported e) hzero))

/-! ### Trials -/

/-- What an orderly production did under one more trial is undone by giving back the place and the
count. -/
theorem restored_eq {s t : State} (h : s.trying.Evolves t) :
    s.restored t = { s with ruleName := t.ruleName, events := t.events } := by
  obtain ⟨hcollector, hpackage, hlast⟩ := h.silent (Nat.succ_pos s.trials)
  have hcursor : t.cursor.rewind s.cursor.index = s.cursor := by rw [h.cursor]; rfl
  have htrials : t.trials - 1 = s.trials := by rw [h.trials]; rfl
  have hstack : t.stack = s.stack := h.stack
  unfold State.restored
  rw [hcursor, htrials, hcollector, hpackage, hlast]
  simp only [← hstack]
  rfl

section Trial

variable {alternative : String} {p : Parser α} {s t : State}

theorem trial_of_ok [Orderly p] {answer : Bool} (h : trial alternative p s = .ok answer t) :
    t = { s with ruleName := t.ruleName, events := t.events } := by
  rw [trial_eq] at h
  cases hp : p s.trying with
  | ok a u =>
    simp only [hp] at h
    cases h
    exact restored_eq (evolves_ok p hp)
  | error f u =>
    cases f with
    | recognition e =>
      simp only [hp] at h
      cases h
      exact restored_eq ((evolves_error p hp).trans (evolves_noted _ u))
    | _ => simp [hp] at h

theorem trial_of_error [Orderly p] {f : Failure} (h : trial alternative p s = .error f t) :
    (∀ e, f ≠ .recognition e) ∧ t = { s with ruleName := t.ruleName, events := t.events } := by
  rw [trial_eq] at h
  cases hp : p s.trying with
  | ok a u => simp [hp] at h
  | error g u =>
    cases g with
    | recognition e => simp [hp] at h
    | _ =>
      simp only [hp] at h
      cases h
      exact ⟨by simp, restored_eq (evolves_error p hp)⟩

/-- However a trial ends, it may have changed the name that errors are reported under and the
events, but nothing else. -/
theorem after_trial (alternative : String) (p : Parser α) [Orderly p] (s : State) :
    after (trial alternative p) s =
      { s with
        ruleName := (after (trial alternative p) s).ruleName
        events := (after (trial alternative p) s).events } := by
  cases h : trial alternative p s with
  | ok a t =>
    rw [after_of_ok h]
    exact trial_of_ok h
  | error f t =>
    rw [after_of_error h]
    exact (trial_of_error h).2

theorem failure_of_trial {f : Failure} (h : trial alternative p s = .error f t) :
    ∃ u, p s.trying = .error f u := by
  rw [trial_eq] at h
  cases hp : p s.trying with
  | ok a u => simp [hp] at h
  | error g u =>
    cases g with
    | recognition e => simp [hp] at h
    | _ => simp only [hp] at h; cases h; exact ⟨u, rfl⟩

end Trial

theorem evolves_of_named {s t : State}
    (h : t = { s with ruleName := t.ruleName, events := t.events })
    (hname : t.ruleName = s.ruleName ∨ t.ruleName = none) : s.Evolves t := by
  rw [h]
  exact ⟨rfl, Nat.le_refl _, rfl, rfl, fun _ => ⟨rfl, rfl, rfl⟩, .refl _, hname⟩

instance trial (alternative : String) (p : Parser α) [Orderly p] :
    Orderly (trial alternative p) where
  from_ s := by
    have heq := trial_eq alternative p s
    cases h : p s.trying with
    | ok a t =>
      rw [h] at heq
      exact .of_ok heq (evolves_of_named (trial_of_ok heq) (evolves_ok p h).ruleName)
    | error f t =>
      rw [h] at heq
      have ht := (evolves_error p h).ruleName
      cases f with
      | recognition e => exact .of_ok heq (evolves_of_named (trial_of_ok heq) ht)
      | _ =>
        exact .of_error heq (evolves_of_named (trial_of_error heq).2 ht)
          ((from_ s.trying).expected h)

/-! ### Rules and queries -/

instance underName (name : String) (p : Parser α) [Orderly p] : Orderly (underName name p) where
  from_ s := by
    unfold Parser.underName
    have hname : ∀ {t : State}, State.Evolves { s with ruleName := some name } t →
        s.Evolves { t with ruleName := none } := fun ht =>
      ⟨ht.cursor, ht.index, ht.trials, ht.stack, ht.silent, ht.collector, .inr rfl⟩
    cases h : p { s with ruleName := some name } with
    | ok a t =>
      exact .of_ok ((bind_of_ok (p := modify _) rfl).trans (ensuring_of_ok h))
        (hname (evolves_ok p h))
    | error f t =>
      exact .of_error ((bind_of_ok (p := modify _) rfl).trans (ensuring_of_error h))
        (hname (evolves_error p h)) ((from_ { s with ruleName := some name }).expected h)

instance recovering (name : String) (body : Parser (Harvest α)) (locate : α → Location → α)
    (location : Location) [Orderly body] : Orderly (recovering name body locate location) := by
  unfold Parser.recovering
  refine @underName _ _ _ (@bind _ _ _ _ _ fun h => ?_)
  cases h.failure <;> infer_instance

end Rulebook.Parser.Orderly
