import Rulebook.Proofs.Eager

/-!
# Disciplines

A discipline is a relation between the states before and after a production that holds over each
token that is taken and over sequences, so that productions keep to it by their shape. A production
that keeps to it and fails to recognise fails at the token that is next.
-/

namespace Rulebook

/-- Errors of the grammar. No two of them are recorded for one token. -/
def ErrorKind.isSyntactic : ErrorKind → Bool
  | mismatchedToken | noViableAlternative | mismatchedSet | earlyExit => true
  | failedPredicate | general => false

structure ParseError.Points (e : ParseError) (c : Cursor) : Prop where
  token : e.token? = some c.current
  syntactic : e.kind.isSyntactic = true

namespace Parser

set_option synthInstance.maxSize 100000

variable {α β : Type} {s t u : State}

def State.left (s : State) : Nat := s.cursor.ahead.length

theorem State.Evolves.left_le (h : s.Evolves t) : t.left ≤ s.left := h.length_ahead_le

/-- Nothing was reported, and a token was taken if one matched. -/
def State.Hushed (s t : State) : Prop :=
  t.collector = s.collector ∨ t.collector = s.collector.tokenMatched ∧ t.left < s.left

theorem State.Hushed.refl (s : State) : s.Hushed s := .inl rfl

theorem hushed_advanced (hs : s.cursor.triviaVisible = false)
    (hk : s.cursor.current.kind ≠ .endOfInput) : s.Hushed s.advanced := by
  have hlt : s.advanced.left < s.left := (EagerFrom.advance hk).shortens hs (advance_eq s)
  show (if s.trials = 0 then _ else _) = _ ∨ (if s.trials = 0 then _ else _) = _ ∧ _
  split
  · exact .inr ⟨rfl, hlt⟩
  · exact .inl rfl

/-- What is asked of the state before a production, and what then relates the state after it. The
stack has no part in it. -/
structure Discipline where
  before : State → Prop
  during : State → State → Prop
  hidden : ∀ {s}, before s → s.cursor.triviaVisible = false
  hushed : ∀ {s t}, before s → s.Evolves t → s.Hushed t → during s t
  trans : ∀ {s t u}, s.Evolves t → t.Evolves u → during s t → during t u → during s u
  stable : ∀ {s t}, before s → s.Evolves t → during s t → before t
  within : ∀ {s} n, before s → before (s.within n)
  unwound : ∀ {s t} n, during (s.within n) t → during s (s.unwound t)

/-- Nothing is reported. -/
def silence : Discipline where
  before s := s.cursor.triviaVisible = false
  during := State.Hushed
  hidden := id
  hushed _ _ := id
  trans hst htu h h' := by
    have hle := hst.left_le
    have hle' := htu.left_le
    rcases h with h | ⟨h, hlt⟩
    · rcases h' with h' | ⟨h', hlt'⟩
      · exact .inl (h'.trans h)
      · exact .inr ⟨h ▸ h', by omega⟩
    · rcases h' with h' | ⟨h', hlt'⟩
      · exact .inr ⟨h'.trans h, by omega⟩
      · refine .inr ⟨?_, by omega⟩
        rw [h', h]
        rfl
  stable hs hst _ := hst.triviaVisible.trans hs
  within _ := id
  unwound _ := id

variable {D : Discipline}

theorem Discipline.refl (hs : D.before s) : D.during s s := D.hushed hs (.refl s) (.refl s)

structure SustainsFrom (D : Discipline) (p : Parser α) (s : State) : Prop where
  evolves : s.Evolves (after p s)
  during : D.during s (after p s)
  points : ∀ {e t}, p s = .error (.recognition e) t → e.Points t.cursor

/-- A production keeps to a discipline. -/
class Sustains (D : Discipline) (p : Parser α) : Prop where
  from_ : ∀ {s : State}, D.before s → SustainsFrom D p s

namespace SustainsFrom

theorem of_ok {p : Parser α} {a : α} (h : p s = .ok a t) (hst : s.Evolves t) (hr : D.during s t) :
    SustainsFrom D p s where
  evolves := after_of_ok h ▸ hst
  during := after_of_ok h ▸ hr
  points h' := by rw [h] at h'; cases h'

theorem of_error {p : Parser α} {f : Failure} (h : p s = .error f t)
    (hst : s.Evolves t) (hr : D.during s t)
    (hf : ∀ e, f = .recognition e → e.Points t.cursor) : SustainsFrom D p s where
  evolves := after_of_error h ▸ hst
  during := after_of_error h ▸ hr
  points h' := by rw [h] at h'; cases h'; exact hf _ rfl

theorem evolves_ok {p : Parser α} {a : α} (hp : SustainsFrom D p s) (h : p s = .ok a t) :
    s.Evolves t :=
  after_of_ok h ▸ hp.evolves

theorem evolves_error {p : Parser α} {f : Failure} (hp : SustainsFrom D p s)
    (h : p s = .error f t) : s.Evolves t :=
  after_of_error h ▸ hp.evolves

theorem during_ok {p : Parser α} {a : α} (hp : SustainsFrom D p s) (h : p s = .ok a t) :
    D.during s t :=
  after_of_ok h ▸ hp.during

theorem during_error {p : Parser α} {f : Failure} (hp : SustainsFrom D p s)
    (h : p s = .error f t) : D.during s t :=
  after_of_error h ▸ hp.during

theorem before_ok {p : Parser α} {a : α} (hp : SustainsFrom D p s) (hs : D.before s)
    (h : p s = .ok a t) : D.before t :=
  D.stable hs (hp.evolves_ok h) (hp.during_ok h)

theorem look {p : Parser α} {a : α} (hs : D.before s) (h : p s = .ok a s) : SustainsFrom D p s :=
  .of_ok h (.refl s) (D.refl hs)

theorem pure (a : α) (hs : D.before s) : SustainsFrom D (pure a : Parser α) s := look hs rfl

theorem bind {p : Parser α} {f : α → Parser β} (hs : D.before s) (hp : SustainsFrom D p s)
    (hf : ∀ {a t}, D.before t → p s = .ok a t → SustainsFrom D (f a) t) :
    SustainsFrom D (p >>= f) s := by
  cases h : p s with
  | ok a t =>
    have hst := hp.evolves_ok h
    have ht := hf (hp.before_ok hs h) h
    have hafter : after (p >>= f) s = after (f a) t := by
      unfold after
      rw [bind_of_ok h]
    refine ⟨hafter ▸ hst.trans ht.evolves, ?_, fun h' => ?_⟩
    · rw [hafter]
      exact D.trans hst ht.evolves (hp.during_ok h) ht.during
    · rw [bind_of_ok h] at h'
      exact ht.points h'
  | error e t =>
    have heq := after_of_error h
    refine of_error (bind_of_error h) (heq ▸ hp.evolves) (heq ▸ hp.during) fun e' he => ?_
    subst he
    exact hp.points h

theorem fail {e : ParseError} (hs : D.before s) (h : e.Points s.cursor) :
    SustainsFrom D (fail e : Parser α) s :=
  .of_error rfl (.refl s) (D.refl hs) fun _ heq => by cases heq; exact h

theorem advance (hs : D.before s) (hk : s.cursor.current.kind ≠ .endOfInput) :
    SustainsFrom D advance s :=
  .of_ok (advance_eq s) (Orderly.evolves_advanced s)
    (D.hushed hs (Orderly.evolves_advanced s) (hushed_advanced (D.hidden hs) hk))

theorem advance_bind {f : Token → Parser β} (hs : D.before s)
    (hk : s.cursor.current.kind ≠ .endOfInput)
    (hf : D.before s.advanced → SustainsFrom D (f s.cursor.current) s.advanced) :
    SustainsFrom D (Parser.advance >>= f) s :=
  (advance hs hk).bind hs fun ht h => by
    cases h
    exact hf ht

/-- A repetition whose rounds keep to a discipline where they are begun. -/
theorem rounds {more : α → Parser Bool} {body : α → Parser α} {n : Nat} {a : α}
    (hs : D.before s) (hmore : ∀ a s, ∃ b, more a s = .ok b s)
    (hbody : ∀ {a s}, D.before s → more a s = .ok true s → SustainsFrom D (body a) s) :
    SustainsFrom D (rounds more body n a) s := by
  induction n generalizing a s with
  | zero => exact pure a hs
  | succ n ih =>
    obtain ⟨b, hb⟩ := hmore a s
    unfold Parser.rounds
    refine (look hs hb).bind hs fun _ h => ?_
    obtain ⟨rfl, rfl⟩ := EStateM.Result.ok.inj (hb.symm.trans h)
    cases b with
    | false => exact pure a hs
    | true => exact (hbody hs hb).bind hs fun ht _ => ih ht

theorem repeatWhile {more : α → Parser Bool} {body : α → Parser α} {a : α}
    (hs : D.before s) (hmore : ∀ a s, ∃ b, more a s = .ok b s)
    (hbody : ∀ {a s}, D.before s → more a s = .ok true s → SustainsFrom D (body a) s) :
    SustainsFrom D (repeatWhile a more body) s := by
  unfold Parser.repeatWhile
  refine bind hs (look hs (p := get) rfl) fun _ h => ?_
  cases h
  exact rounds hs hmore hbody

end SustainsFrom

namespace Sustains

theorem of_look {p : Parser α} {a : State → α} (h : ∀ s, p s = .ok (a s) s) : Sustains D p where
  from_ {s} hs := .look hs (h s)

instance (a : α) : Sustains D (pure a : Parser α) := of_look fun _ => rfl

instance : Sustains D (get : Parser State) := of_look fun _ => rfl

instance : Sustains D current := of_look current_eq

instance (n : Nat) : Sustains D (peek n) := of_look (peek_eq n)

instance (kinds : List TokenKind) : Sustains D (nextIs kinds) := of_look (nextIs_eq kinds)

instance (k : Symbol) : Sustains D (nextIsSymbol k) := of_look fun _ => rfl

instance (k : Keyword) : Sustains D (nextIsKeyword k) := of_look fun _ => rfl

instance : Sustains D lastStop := of_look fun _ => rfl

instance (l : Location) : Sustains D (close l) := of_look fun _ => rfl

instance : Sustains D inTrial := of_look fun _ => rfl

instance : Sustains D levels := of_look levels_eq

instance (n : Nesting) (p : Parser α) [Sustains D p] : Sustains D (nested n p) where
  from_ {s} hs := by
    by_cases hroom : n.frames ≤ s.stack.room
    · have hp := from_ (p := p) (D.within n hs)
      cases h : p (s.within n) with
      | ok a t =>
        exact .of_ok (nested_of_ok hroom h) (Orderly.evolves_unwound (hp.evolves_ok h))
          (D.unwound n (hp.during_ok h))
      | error f t =>
        refine .of_error (nested_of_error hroom h) (Orderly.evolves_unwound (hp.evolves_error h))
          (D.unwound n (hp.during_error h)) fun e he => ?_
        subst he
        have hpoints := hp.points h
        exact ⟨hpoints.token, hpoints.syntactic⟩
    · exact .of_error (nested_of_deep p (Nat.lt_of_not_le hroom)) (.refl s) (D.refl hs)
        fun e he => by cases he

theorem seq {p : Parser α} {f : α → Parser β} (hp : Sustains D p) (hf : ∀ a, Sustains D (f a)) :
    Sustains D (p >>= f) where
  from_ hs := (hp.from_ hs).bind hs fun ht _ => (hf _).from_ ht

instance bind (p : Parser α) (f : α → Parser β) [hp : Sustains D p] [hf : ∀ a, Sustains D (f a)] :
    Sustains D (p >>= f) :=
  seq hp hf

instance map (p : Parser α) (f : α → β) [Sustains D p] : Sustains D (f <$> p) := by
  rw [map_eq_bind]; infer_instance

instance (c : Prop) [Decidable c] (p q : Parser α) [Sustains D p] [Sustains D q] :
    Sustains D (if c then p else q) := by
  split <;> infer_instance

theorem of_current {f : Token → Parser β}
    (h : ∀ {s : State}, D.before s → SustainsFrom D (f s.cursor.current) s) :
    Sustains D (current >>= f) where
  from_ hs := (from_ hs).bind hs fun _ h' => by cases h'; exact h hs

theorem ifKind {kind : TokenKind} (hkind : kind ≠ .endOfInput) (f : Token → Parser β) (q : Parser β)
    [∀ a, Sustains D (f a)] [Sustains D q] :
    Sustains D ((do return decide ((← current).kind = kind) : Parser Bool) >>= fun b =>
      if b = true then advance >>= f else q) where
  from_ {s} hs := by
    refine SustainsFrom.bind hs (.look (a := decide (s.cursor.current.kind = kind)) hs rfl)
      fun {b t} _ h => ?_
    obtain ⟨rfl, rfl⟩ := EStateM.Result.ok.inj h
    split
    · next hb => exact .advance_bind hs (of_decide_eq_true hb ▸ hkind) from_
    · exact from_ hs

instance ifSymbol (k : Symbol) (f : Token → Parser β) (q : Parser β) [∀ a, Sustains D (f a)]
    [Sustains D q] :
    Sustains D (nextIsSymbol k >>= fun b => if b = true then advance >>= f else q) :=
  ifKind (show TokenKind.symbol k ≠ .endOfInput by simp) f q

instance ifKeyword (k : Keyword) (f : Token → Parser β) (q : Parser β) [∀ a, Sustains D (f a)]
    [Sustains D q] :
    Sustains D (nextIsKeyword k >>= fun b => if b = true then advance >>= f else q) :=
  ifKind (show TokenKind.keyword k ≠ .endOfInput by simp) f q

theorem repeatKinds {kinds : List TokenKind} (hkinds : TokenKind.endOfInput ∉ kinds) (first : α)
    (body : α → Token → Parser α) [∀ a t, Sustains D (body a t)] :
    Sustains D (Parser.repeatWhile first (fun _ => nextIs kinds) fun a => advance >>= body a) where
  from_ hs := .repeatWhile hs (fun _ _ => ⟨_, rfl⟩) fun hs h =>
    .advance_bind hs (fun heq => hkinds (heq ▸ (kind_of_nextIs h).2)) from_

/-- A token is taken in each round as long as it is a given symbol. -/
instance repeatSymbol (k : Symbol) (first : α) (body : α → Token → Parser α)
    [∀ a t, Sustains D (body a t)] :
    Sustains D (Parser.repeatWhile first (fun _ => nextIsSymbol k) fun a => advance >>=
      body a) where
  from_ hs := .repeatWhile hs (fun _ _ => ⟨_, rfl⟩) fun hs h => by
    have hk := (kind_of_nextIsSymbol h).2
    exact .advance_bind hs (by rw [hk]; simp) from_

/-- A repetition of what keeps to a discipline anywhere. -/
instance repeatWhile (first : α) (more : α → Parser Bool) (body : α → Parser α)
    [∀ a, Sustains D (more a)] [∀ a, Sustains D (body a)] :
    Sustains D (Parser.repeatWhile first more body) := by
  have hrounds : ∀ n a, Sustains D (Parser.rounds more body n a) := fun n => by
    induction n with
    | zero => unfold Parser.rounds; infer_instance
    | succ n ih => unfold Parser.rounds; infer_instance
  unfold Parser.repeatWhile
  infer_instance

end Sustains

/-! ### Failures as values -/

def Pending (e? : Option ParseError) (s : State) : Prop := ∀ e ∈ e?, e.Points s.cursor

structure HarvestsFrom (D : Discipline) (p : Parser (Harvest α)) (s : State) : Prop extends
    SustainsFrom D p s where
  pending : ∀ {h t}, p s = .ok h t → Pending h.failure t

theorem attempt_from {p : Parser α} (hp : SustainsFrom D p s) :
    SustainsFrom D (attempt p) s ∧
      ∀ {e t}, attempt p s = .ok (.error e) t → e.Points t.cursor := by
  cases h : p s with
  | ok a t =>
    have heq := attempt_of_ok h
    refine ⟨.of_ok heq (hp.evolves_ok h) (hp.during_ok h), fun h' => ?_⟩
    rw [heq] at h'
    cases h'
  | error f t =>
    have hafter := after_of_error h
    have hst : s.Evolves t := hafter ▸ hp.evolves
    have hr : D.during s t := hafter ▸ hp.during
    cases f with
    | recognition e =>
      have heq := attempt_of_recognition h
      refine ⟨.of_ok heq hst hr, fun h' => ?_⟩
      rw [heq] at h'
      cases h'
      exact hp.points h
    | _ =>
      have heq := attempt_of_error h (by simp)
      refine ⟨.of_error heq hst hr (fun e he => by cases he), fun h' => ?_⟩
      rw [heq] at h'
      cases h'

namespace HarvestsFrom

theorem pure (h : Harvest α) (hs : D.before s) (hpending : Pending h.failure s) :
    HarvestsFrom D (pure h : Parser (Harvest α)) s where
  toSustainsFrom := .pure h hs
  pending h' := by cases h'; exact hpending

theorem bind {p : Parser β} {f : β → Parser (Harvest α)} (hs : D.before s)
    (hp : SustainsFrom D p s)
    (hf : ∀ {b t}, D.before t → p s = .ok b t → HarvestsFrom D (f b) t) :
    HarvestsFrom D (p >>= f) s where
  toSustainsFrom := hp.bind hs fun ht h => (hf ht h).toSustainsFrom
  pending h := by
    obtain ⟨b, t, hb, h⟩ := bind_eq_ok.1 h
    exact (hf (hp.before_ok hs hb) hb).pending h

theorem harvest {p : Parser β} (found : α) (add : α → β → α) (hs : D.before s)
    (hp : SustainsFrom D p s) : HarvestsFrom D (harvest found p add) s := by
  obtain ⟨hattempt, hpoints⟩ := attempt_from hp
  unfold Parser.harvest
  rw [map_eq_bind]
  refine bind hs hattempt fun {r t} ht h => pure _ ht fun e he => ?_
  cases r with
  | ok b => cases he
  | error e' =>
    obtain rfl := Option.some.inj he
    exact hpoints h

theorem andThen {h : Harvest α} {next : α → Parser (Harvest α)} (hs : D.before s)
    (hpending : Pending h.failure s) (hnext : HarvestsFrom D (next h.found) s) :
    HarvestsFrom D (h.andThen next) s := by
  unfold Harvest.andThen
  split
  · exact hnext
  · exact pure h hs hpending

/-- A repetition over what was found, which ends with the first failure. -/
theorem rounds {more : Harvest α → Parser Bool} {body : Harvest α → Parser (Harvest α)} {n : Nat}
    {h : Harvest α} (hs : D.before s) (hpending : Pending h.failure s)
    (hmore : ∀ h s, ∃ b, more h s = .ok b s)
    (hbody : ∀ {h s}, D.before s → more h s = .ok true s → HarvestsFrom D (body h) s) :
    HarvestsFrom D (rounds more body n h) s := by
  induction n generalizing h s with
  | zero => exact pure h hs hpending
  | succ n ih =>
    obtain ⟨b, hb⟩ := hmore h s
    unfold Parser.rounds
    refine bind hs (.look hs hb) fun _ h' => ?_
    obtain ⟨rfl, rfl⟩ := EStateM.Result.ok.inj (hb.symm.trans h')
    cases b with
    | false => exact pure h hs hpending
    | true =>
      have hround := hbody hs hb
      exact bind hs hround.toSustainsFrom fun ht h' => ih ht (hround.pending h')

theorem repeatWhile {more : Harvest α → Parser Bool} {body : Harvest α → Parser (Harvest α)}
    {h : Harvest α} (hs : D.before s) (hpending : Pending h.failure s)
    (hmore : ∀ h s, ∃ b, more h s = .ok b s)
    (hbody : ∀ {h s}, D.before s → more h s = .ok true s → HarvestsFrom D (body h) s) :
    HarvestsFrom D (repeatWhile h more body) s := by
  unfold Parser.repeatWhile
  refine bind hs (.look hs (p := get) rfl) fun _ h => ?_
  cases h
  exact rounds hs hpending hmore hbody

end HarvestsFrom

end Parser

end Rulebook
