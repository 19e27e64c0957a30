import Rulebook.Proofs.Abreast
import Rulebook.Proofs.Level
import Rulebook.Proofs.Onward

/-!
# Where patterns end

A pattern that is read without diagnostics ends with a parenthesis, a bracket or a name. So its text
does not end with a string, which might go on behind it.
-/

namespace Rulebook.Parser

variable {α β : Type} {s t : State}

/-- The token that was consumed last is no string. -/
def State.Plain (s : State) : Prop := ∀ t ∈ s.cursor.previous, t.kind ≠ .literal .string

/-- A state outside of trials in which an error that is reported is recorded. -/
structure State.Open (s : State) : Prop extends s.Steady where
  trials : s.trials = 0

theorem State.Evolves.opens (h : s.Evolves t) (hs : s.Open) : t.Open :=
  ⟨h.steady hs.toSteady, h.trials.trans hs.trials⟩

/-- Where this succeeds and nothing is reported, the last token that was consumed is no string. -/
def EndsPlain (p : Parser α) : Prop :=
  ∀ ⦃s t : State⦄ ⦃a : α⦄, s.Open → p s = .ok a t → ¬t.Dead → t.Plain

/-- The same, if the last token was no string before. -/
def StaysPlain (p : Parser α) : Prop :=
  ∀ ⦃s t : State⦄ ⦃a : α⦄, s.Open → s.Plain → p s = .ok a t → ¬t.Dead → t.Plain

theorem EndsPlain.stays {p : Parser α} (h : EndsPlain p) : StaysPlain p :=
  fun _ _ _ hs _ hp hdead => h hs hp hdead

theorem StaysPlain.of_still (p : Parser α) [Level.Still p] : StaysPlain p := by
  intro s t a _ hs hp _
  obtain ⟨b, u, hu, hcursor⟩ := Level.Still.ok (p := p) s
  rw [hu] at hp
  cases hp
  unfold State.Plain
  rw [hcursor]
  exact hs

/-! ### Sequences -/

theorem EndsPlain.bind (p : Parser α) [Orderly p] {f : α → Parser β} (hf : ∀ a, EndsPlain (f a)) :
    EndsPlain (p >>= f) := by
  intro s u b hs h hdead
  obtain ⟨a, t, ht, hu⟩ := bind_eq_ok.1 h
  exact hf a ((Orderly.evolves_ok p ht).opens hs) hu hdead

theorem EndsPlain.bind_stays {p : Parser α} [Orderly p] {f : α → Parser β} (hp : EndsPlain p)
    [∀ a, Orderly (f a)] (hf : ∀ a, StaysPlain (f a)) : EndsPlain (p >>= f) := by
  intro s u b hs h hdead
  obtain ⟨a, t, ht, hu⟩ := bind_eq_ok.1 h
  have htu := Orderly.evolves_ok (f a) hu
  have halive : ¬t.Dead := fun hno => hdead (htu.dead hno)
  exact hf a ((Orderly.evolves_ok p ht).opens hs) (hp hs ht halive) hu hdead

theorem StaysPlain.bind {p : Parser α} [Orderly p] {f : α → Parser β} (hp : StaysPlain p)
    [∀ a, Orderly (f a)] (hf : ∀ a, StaysPlain (f a)) : StaysPlain (p >>= f) := by
  intro s u b hs hlast h hdead
  obtain ⟨a, t, ht, hu⟩ := bind_eq_ok.1 h
  have htu := Orderly.evolves_ok (f a) hu
  have halive : ¬t.Dead := fun hno => hdead (htu.dead hno)
  exact hf a ((Orderly.evolves_ok p ht).opens hs) (hp hs hlast ht halive) hu hdead

theorem EndsPlain.bind_still {p : Parser α} [Orderly p] {f : α → Parser β} (hp : EndsPlain p)
    [∀ a, Orderly (f a)] [∀ a, Level.Still (f a)] : EndsPlain (p >>= f) :=
  hp.bind_stays fun a => .of_still (f a)

instance : Level.Still (get : Parser State) := ⟨fun s => ⟨s, s, rfl, rfl⟩⟩

instance : Level.Still lastStop := ⟨fun s => ⟨_, s, rfl, rfl⟩⟩

instance (kinds : List TokenKind) : Level.Still (nextIs kinds) := ⟨fun s => ⟨_, s, rfl, rfl⟩⟩

instance (k : Symbol) : Level.Still (nextIsSymbol k) := ⟨fun s => ⟨_, s, rfl, rfl⟩⟩

instance (k : Keyword) : Level.Still (nextIsKeyword k) := ⟨fun s => ⟨_, s, rfl, rfl⟩⟩

theorem StaysPlain.rounds {more : α → Parser Bool} {body : α → Parser α} [∀ a, Orderly (more a)]
    [∀ a, Orderly (body a)] [∀ a, Level.Still (more a)] (hbody : ∀ a, StaysPlain (body a)) (n : Nat)
    (a : α) : StaysPlain (rounds more body n a) := by
  induction n generalizing a with
  | zero => exact .of_still (pure a)
  | succ n ih =>
    unfold Parser.rounds
    refine (StaysPlain.of_still (more a)).bind fun c => ?_
    split
    · exact (hbody a).bind ih
    · exact .of_still _

theorem StaysPlain.repeatWhile {first : α} {more : α → Parser Bool} {body : α → Parser α}
    [∀ a, Orderly (more a)] [∀ a, Orderly (body a)] [∀ a, Level.Still (more a)]
    (hbody : ∀ a, StaysPlain (body a)) : StaysPlain (repeatWhile first more body) := by
  intro s t a hs hlast h
  exact StaysPlain.rounds hbody _ _ hs hlast h

/-! ### Tokens -/

theorem plain_advanced (hs : s.cursor.current.kind ≠ .endOfInput)
    (hk : s.cursor.current.kind ≠ .literal .string) (hhidden : s.cursor.triviaVisible = false) :
    s.advanced.Plain := by
  intro t ht
  rw [show s.advanced.cursor.previous = _ from Cursor.previous_consume hhidden hs] at ht
  cases ht
  exact hk

theorem EndsPlain.expect {kind : TokenKind} (hkind : kind ≠ .endOfInput)
    (hstring : kind ≠ .literal .string) : EndsPlain (expect kind) := by
  intro s t a hs h _
  obtain ⟨rfl, hk, rfl⟩ := expect_of_ok h
  exact plain_advanced (hk ▸ hkind) (hk ▸ hstring) hs.hidden

theorem EndsPlain.symbol (k : Symbol) : EndsPlain (symbol k) := .expect (by simp) (by simp)

theorem EndsPlain.name : EndsPlain name := by
  intro s t a hs h _
  rw [name_eq] at h
  split at h
  · next hname =>
    cases h
    refine plain_advanced (fun hno => ?_) (fun hno => ?_) hs.hidden
    all_goals
      unfold Token.isName at hname
      rw [hno] at hname
      cases hname
  · cases h

theorem previous_of_chunk {opening closing : Symbol} {stops : List Symbol} {text : String}
    (h : chunk opening closing stops s = .ok text t) :
    ∃ u, t.cursor.previous = some u ∧ u.kind = .symbol closing := by
  obtain ⟨-, inner, u, r, henclosed, -, rfl⟩ := enclosed_of_chunk h
  have hu := closing_of_enclosed henclosed
  exact ⟨u, Cursor.previous_of_rest (append_of_enclosed henclosed).symm
    (by unfold Token.isTrivia; rw [hu]; rfl), hu⟩

theorem EndsPlain.chunk {opening closing : Symbol} {stops : List Symbol} :
    EndsPlain (chunk opening closing stops) := by
  intro s t text _ h _
  obtain ⟨u, hprevious, hu⟩ := previous_of_chunk h
  intro v hv
  rw [hprevious] at hv
  cases hv
  rw [hu]
  simp

/-! ### Patterns and sources -/

theorem EndsPlain.parenCode : EndsPlain parenCode := by
  unfold Parser.parenCode parenChunk
  rw [map_eq_bind]
  exact EndsPlain.chunk.bind_still

theorem dead_recoverParen {e : ParseError} {s t : State} {a : Option Nat} (hs : s.Open)
    (h : recoverParen e s = .ok a t) : t.Dead := by
  unfold recoverParen at h
  obtain ⟨x, u, hu, h⟩ := bind_eq_ok.1 h
  rw [recoverFrom_eq, if_neg (by rw [hs.trials]; exact Nat.lt_irrefl 0)] at hu
  cases hu
  have hevolves := Orderly.evolves_recovered patternFollow (s := s.reported e) hs.trials
  exact (Orderly.evolves_ok (nextIsSymbol .rparen >>= _) h).dead
    (hevolves.dead (dead_reported hs.toSteady e))

theorem EndsPlain.rightParen (failure : Option ParseError) : EndsPlain (rightParen failure) := by
  intro s u a hs h hdead
  unfold Parser.rightParen at h
  cases failure with
  | some e => exact absurd (dead_recoverParen hs h) hdead
  | none =>
    obtain ⟨x, t, ht, h⟩ := bind_eq_ok.1 h
    have hst := Orderly.evolves_ok (attempt (Parser.symbol .rparen)) ht
    cases x with
    | error e => exact absurd (dead_recoverParen (hst.opens hs) h) hdead
    | ok token =>
      cases h
      rcases attempt_ok ht with ⟨_, -, hsymbol⟩ | ⟨_, he, -⟩
      · exact EndsPlain.symbol .rparen hs hsymbol hdead
      · cases he

theorem EndsPlain.factPattern : EndsPlain factPattern := by
  unfold Parser.factPattern
  refine .bind _ fun start => .bind _ fun name => .bind _ fun objectType => .bind _ fun left =>
    .bind _ fun body => ?_
  exact (EndsPlain.rightParen _).bind_still

theorem StaysPlain.arguments? : StaysPlain arguments? := by
  unfold Parser.arguments?
  refine (StaysPlain.of_still (nextIsSymbol .lparen)).bind fun c => ?_
  split
  · rw [map_eq_bind]
    exact EndsPlain.parenCode.bind_still.stays
  · exact .of_still _

theorem EndsPlain.indexAccess (chain : List Access) (bracket : Token) :
    EndsPlain (indexAccess chain bracket) := by
  unfold Parser.indexAccess squareChunk
  rw [map_eq_bind]
  exact EndsPlain.chunk.bind_still.bind_still

theorem EndsPlain.memberAccess (chain : List Access) : EndsPlain (memberAccess chain) := by
  unfold Parser.memberAccess
  refine .bind _ fun _ => .bind _ fun _ => EndsPlain.name.bind_stays fun _ => ?_
  exact StaysPlain.arguments?.bind fun _ => .of_still _

theorem EndsPlain.access (chain : List Access) : EndsPlain (access chain) := by
  unfold Parser.access
  refine .bind _ fun token => ?_
  split
  · exact .indexAccess chain token
  · exact .memberAccess chain

theorem EndsPlain.retrieval : EndsPlain retrieval := by
  unfold Parser.retrieval
  refine .bind _ fun _ => EndsPlain.name.bind_stays fun _ => StaysPlain.arguments?.bind fun _ => ?_
  refine (StaysPlain.repeatWhile fun chain => (EndsPlain.access chain).stays).bind fun _ => ?_
  exact .of_still _

section Within

variable (pattern : Parser Pattern) [Orderly pattern]

theorem EndsPlain.accumulate : EndsPlain (accumulate pattern) := by
  unfold Parser.accumulate accumulateBody
  refine .bind _ fun token => .bind _ fun _ => .bind _ fun input => .bind _ fun _ =>
      .bind _ fun _ =>
    .bind _ fun init => .bind _ fun _ => .bind _ fun _ => .bind _ fun action => .bind _ fun _ =>
    .bind _ fun _ => .bind _ fun result => ?_
  exact (EndsPlain.symbol .rparen).bind_still

theorem EndsPlain.collect : EndsPlain (collect pattern) := by
  unfold Parser.collect collectBody
  refine .bind _ fun token => .bind _ fun _ => .bind _ fun input => ?_
  exact (EndsPlain.symbol .rparen).bind_still

theorem EndsPlain.fromSource : EndsPlain (fromSource pattern) := by
  have hretrieval : EndsPlain (Source.retrieval <$> Parser.retrieval) := by
    rw [map_eq_bind]
    exact EndsPlain.retrieval.bind_still
  unfold Parser.fromSource
  refine .bind _ fun _ => .bind _ fun accumulates => ?_
  split
  · refine .bind _ fun succeeds => ?_
    split
    · exact .accumulate pattern
    · exact hretrieval
  · refine .bind _ fun collects => ?_
    split
    · refine .bind _ fun succeeds => ?_
      split
      · exact .collect pattern
      · exact hretrieval
    · exact hretrieval

end Within

theorem EndsPlain.patternWithin (levels : Nat) : EndsPlain (patternWithin levels) := by
  cases levels with
  | zero => exact fun s t a _ h => by cases h
  | succ levels =>
    unfold Parser.patternWithin
    refine EndsPlain.factPattern.bind_stays fun p => ?_
    refine (StaysPlain.of_still (nextIsKeyword .from_)).bind fun c => ?_
    split
    · exact (EndsPlain.fromSource _).bind_still.stays
    · exact .of_still _

theorem EndsPlain.sourcedPattern : EndsPlain sourcedPattern := fun s _ _ hs h =>
  EndsPlain.patternWithin (s.stack.frames + 1) hs h

end Rulebook.Parser
