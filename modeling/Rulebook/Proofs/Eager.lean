import Rulebook.Proofs.OrderlyGrammar

/-!
# Productions that take a token

An eager production succeeds only by taking a token, whether trivia is hidden or not. So it cannot
succeed at the end of the input, its success moves the cursor on, and the rounds of a repetition of
it are bounded by the tokens ahead. A production is eager if one of the productions it runs in
sequence is.
-/

namespace Rulebook.Parser

set_option synthInstance.maxSize 100000

variable {α β : Type}

theorem State.Evolves.length_ahead_le {s t : State} (h : s.Evolves t) :
    t.cursor.ahead.length ≤ s.cursor.ahead.length :=
  Cursor.length_ahead_le h.front h.index

theorem State.Evolves.shown_suffix {s t : State} (h : s.Evolves t) :
    t.cursor.shown <:+ s.cursor.shown :=
  Cursor.shown_suffix h.front h.triviaVisible h.index

theorem State.Evolves.length_shown_le {s t : State} (h : s.Evolves t) :
    t.cursor.shown.length ≤ s.cursor.shown.length :=
  h.shown_suffix.length_le

theorem State.Evolves.length_rest_lt {s t : State} (h : s.Evolves t)
    (hlt : t.cursor.shown.length < s.cursor.shown.length) :
    t.cursor.rest.length < s.cursor.rest.length :=
  Cursor.length_rest_lt h.front h.triviaVisible h.index hlt

structure EagerFrom (p : Parser α) (s : State) : Prop where
  takes : ∀ {a t}, p s = .ok a t → t.cursor.shown.length < s.cursor.shown.length

/-- Success takes a token. -/
class Eager (p : Parser α) : Prop where
  from_ : ∀ s : State, EagerFrom p s

namespace EagerFrom

theorem bind_left {p : Parser α} {f : α → Parser β} {s : State} (hp : EagerFrom p s)
    [∀ a, Orderly (f a)] : EagerFrom (p >>= f) s where
  takes {b u} h := by
    cases hps : p s with
    | ok a t =>
      rw [bind_of_ok hps] at h
      exact Nat.lt_of_le_of_lt (Orderly.evolves_ok (f a) h).length_shown_le (hp.takes hps)
    | error e t => rw [bind_of_error hps] at h; cases h

theorem bind_right {p : Parser α} {f : α → Parser β} {s : State} [Orderly p]
    (hf : ∀ {a t}, p s = .ok a t → EagerFrom (f a) t) : EagerFrom (p >>= f) s where
  takes {b u} h := by
    cases hps : p s with
    | ok a t =>
      rw [bind_of_ok hps] at h
      exact Nat.lt_of_lt_of_le ((hf hps).takes h) (Orderly.evolves_ok p hps).length_shown_le
    | error e t => rw [bind_of_error hps] at h; cases h

theorem of_fail (e : ParseError) (s : State) : EagerFrom (fail e : Parser α) s where
  takes h := by cases h

theorem advance {s : State} (hk : s.cursor.current.kind ≠ .endOfInput) :
    EagerFrom Parser.advance s where
  takes h := by
    cases h
    show s.cursor.consume.shown.length < s.cursor.shown.length
    rw [Cursor.shown_consume hk, List.length_cons]
    exact Nat.lt_succ_self _

/-- While trivia is hidden, fewer tokens are ahead after success. -/
theorem shortens {p : Parser α} [Orderly p] {s t : State} {a : α} (hp : EagerFrom p s)
    (hs : s.cursor.triviaVisible = false) (h : p s = .ok a t) :
    t.cursor.ahead.length < s.cursor.ahead.length := by
  have hlt := hp.takes h
  rwa [Cursor.shown_of_hidden hs,
    Cursor.shown_of_hidden ((Orderly.evolves_ok p h).triviaVisible.trans hs)] at hlt

end EagerFrom

namespace Eager

theorem takes (p : Parser α) [Eager p] {s t : State} {a : α} (h : p s = .ok a t) :
    t.cursor.shown.length < s.cursor.shown.length :=
  (from_ s).takes h

theorem shortens (p : Parser α) [Eager p] [Orderly p] {s t : State} {a : α}
    (hs : s.cursor.triviaVisible = false) (h : p s = .ok a t) :
    t.cursor.ahead.length < s.cursor.ahead.length :=
  (from_ s).shortens hs h

/-! ### Combinators -/

instance (e : ParseError) : Eager (fail e : Parser α) where
  from_ _ := .of_fail e _

instance (f : Failure) : Eager (throw f : Parser α) where
  from_ _ := ⟨fun h => by cases h⟩

instance bind_left (p : Parser α) (f : α → Parser β) [Eager p] [∀ a, Orderly (f a)] :
    Eager (p >>= f) where
  from_ s := .bind_left (from_ s)

instance bind_right (p : Parser α) (f : α → Parser β) [Orderly p] [∀ a, Eager (f a)] :
    Eager (p >>= f) where
  from_ _ := .bind_right fun _ => from_ _

instance map (p : Parser α) (f : α → β) [Eager p] : Eager (f <$> p) := by
  rw [map_eq_bind]; infer_instance

instance (c : Prop) [Decidable c] (p q : Parser α) [Eager p] [Eager q] :
    Eager (if c then p else q) := by
  split <;> infer_instance

instance nested (n : Nesting) (p : Parser α) [Eager p] : Eager (nested n p) where
  from_ s := by
    refine ⟨fun {a t} h => ?_⟩
    obtain ⟨-, u, hu, rfl⟩ := nested_eq_ok.1 h
    have htakes := (from_ (p := p) (s.within n)).takes hu
    exact htakes

/-- A production that looks at the next token first. -/
theorem of_current {f : Token → Parser β}
    (h : ∀ s : State, EagerFrom (f s.cursor.current) s) : Eager (current >>= f) where
  from_ s := ⟨fun hok => (h s).takes ((bind_of_ok (p := current) rfl).symm.trans hok)⟩

theorem expect {kind : TokenKind} (hk : kind ≠ .endOfInput) : Eager (expect kind) where
  from_ s := by
    refine ⟨fun {a t} h => ?_⟩
    obtain ⟨rfl, hkind, rfl⟩ := expect_of_ok h
    exact (EagerFrom.advance (hkind ▸ hk)).takes (advance_eq s)

instance (l : Literal) : Eager (Parser.expect (.literal l)) := expect (by simp)

instance (s : Symbol) : Eager (symbol s) := expect (by simp)

instance (k : Keyword) : Eager (keyword k) := expect (by simp)

theorem ne_endOfInput_of_isName {t : Token} (h : t.isName = true) : t.kind ≠ .endOfInput := by
  intro heq
  simp [Token.isName, heq, TokenKind.isName] at h

instance : Eager name := of_current fun s => by
  split
  · next h => exact .advance (ne_endOfInput_of_isName h)
  · exact .of_fail _ s

/-! ### The grammar -/

instance : Eager dottedName := by unfold dottedName; infer_instance

instance : Eager typeName := by unfold typeName; infer_instance

instance : Eager title := of_current fun s => by
  split
  · next h => exact .bind_left (.advance (by rw [h]; simp))
  · split
    · next h => exact .bind_left (.advance (ne_endOfInput_of_isName h))
    · exact .of_fail _ s

instance : Eager importTarget := by unfold importTarget; infer_instance

instance : Eager parameter := by unfold parameter; infer_instance

instance chunkWithin (opening closing : Symbol) (stops : List Symbol) (levels : Nat) :
    Eager (chunkWithin opening closing stops levels) := by
  cases levels <;> unfold Parser.chunkWithin <;> infer_instance

instance (opening closing : Symbol) (stops : List Symbol) :
    Eager (chunk opening closing stops) := by
  unfold chunk; infer_instance

instance : Eager parenCode := by unfold parenCode parenChunk; infer_instance

instance : Eager squareChunk := by unfold squareChunk; infer_instance

instance (operator : String) (token : Token) : Eager (restrictionValue operator token) :=
  of_current fun s => by
    split
    · next l h => exact .bind_left (.advance (by rw [h]; simp))
    · exact .bind_left (from_ (p := parenCode) s)
    · split
      · next h =>
        refine .bind_right fun {a t} hpeek => ?_
        obtain rfl : s = t := by cases hpeek; rfl
        split
        · exact .bind_left (from_ (p := dottedName) s)
        · exact .bind_left (.advance (ne_endOfInput_of_isName h))
      · exact .of_fail _ s

instance (operator : String) (c : Connective) : Eager (valueList operator c) := by
  unfold valueList; infer_instance

instance : Eager restriction := by
  unfold restriction
  infer_instance

instance (token : Token) (field declaration : Option String) :
    Eager (predicate token field declaration) := by
  unfold predicate; infer_instance

instance (token : Token) : Eager (evalPredicate token) := by
  unfold evalPredicate; infer_instance

instance : Eager fieldHead := by unfold fieldHead; infer_instance

instance : Eager factPattern := by
  unfold factPattern; infer_instance

instance patternWithin (levels : Nat) : Eager (patternWithin levels) := by
  cases levels <;> unfold Parser.patternWithin <;> infer_instance

instance : Eager sourcedPattern := by unfold sourcedPattern; infer_instance

instance (kind : Grouping) (connectives : List TokenKind) (operand : Parser Condition)
    [Eager operand] [Orderly operand] : Eager (infixGroup kind connectives operand) := by
  unfold infixGroup; infer_instance

section Single

variable (single : Parser Condition) [Orderly single]

instance : Eager (parenthesised single) := by unfold parenthesised; infer_instance

instance (k : Keyword) (kind : Grouping) : Eager (unaryGroup k kind single) := by
  unfold unaryGroup; infer_instance

instance : Eager evalCondition := by unfold evalCondition; infer_instance

instance : Eager forallCondition := by unfold forallCondition; infer_instance

instance : Eager (singleCondition single) := by unfold singleCondition; infer_instance

end Single

instance conditionWithin (levels : Nat) : Eager (conditionWithin levels) := by
  cases levels <;> unfold Parser.conditionWithin <;> infer_instance

instance : Eager condition := by unfold condition; infer_instance

instance : Eager conditions := by unfold conditions disjunction; infer_instance

instance : Eager consequence := by unfold consequence; infer_instance

instance : Eager slot := by unfold slot; infer_instance

end Eager

theorem length_shown_recovered {s : State} {kinds : List TokenKind}
    (hk : s.cursor.current.kind ≠ .endOfInput) (hkinds : s.cursor.current.kind ∉ kinds) :
    (s.recovered kinds).cursor.shown.length < s.cursor.shown.length := by
  have hskip : ∀ {c : Cursor}, c = s.cursor.consume.rewind c.index →
      s.cursor.consume.index ≤ c.index → c.shown.length < s.cursor.shown.length := by
    intro c hc hle
    have hsuffix : c.shown <:+ s.cursor.consume.shown :=
      Cursor.shown_suffix (by rw [hc]; rfl) (by rw [hc]; rfl) hle
    rw [Cursor.shown_consume hk]
    exact Nat.lt_succ_of_le hsuffix.length_le
  show (s.recoveryStart.skipUntil kinds 0).1.shown.length < _
  unfold State.recoveryStart
  split
  · obtain ⟨heq, hle⟩ := s.cursor.consume.skipUntil_eq_rewind kinds 0
    exact hskip heq hle
  · obtain ⟨heq, hle⟩ := s.cursor.consume.skipUntil_eq_rewind kinds 1
    rw [Cursor.skipUntil, if_neg hk, if_neg hkinds]
    exact hskip heq hle

end Rulebook.Parser
