import Rulebook.Proofs.Discipline
import Rulebook.Proofs.Enclosed

/-!
# Productions that report nothing

A quiet production leaves the diagnostics alone, but for taking note that a token matched. That ends
the suppression of errors, so it may happen only where a token is taken: at the end of the input
nothing matches. Quiet productions keep to every discipline.
-/

namespace Rulebook.Parser

set_option synthInstance.maxSize 100000

variable {D : Discipline} {α β : Type} {s t : State}

theorem SustainsFrom.quiet_ok {p : Parser α} {a : α} (hs : D.before s) (h : p s = .ok a t)
    (hst : s.Evolves t) (hush : s.Hushed t) : SustainsFrom D p s :=
  .of_ok h hst (D.hushed hs hst hush)

theorem SustainsFrom.quiet_error {p : Parser α} {f : Failure} (hs : D.before s)
    (h : p s = .error f t) (hst : s.Evolves t) (hush : s.Hushed t)
    (hf : ∀ e, f = .recognition e → e.Points t.cursor) : SustainsFrom D p s :=
  .of_error h hst (D.hushed hs hst hush) hf

namespace Sustains

theorem expect {kind : TokenKind} (hk : kind ≠ .endOfInput) : Sustains D (expect kind) :=
  of_current fun hs => by
    split
    · next h => exact .advance hs (h ▸ hk)
    · exact .fail hs ⟨rfl, rfl⟩

instance (l : Literal) : Sustains D (Parser.expect (.literal l)) := expect (by simp)

instance (k : Symbol) : Sustains D (symbol k) := expect (by simp)

instance (k : Keyword) : Sustains D (keyword k) := expect (by simp)

theorem accept {kind : TokenKind} (hk : kind ≠ .endOfInput) : Sustains D (accept kind) :=
  of_current fun hs => by
    split
    · next h => exact .advance_bind hs (h ▸ hk) (.pure _)
    · exact .pure _ hs

instance (l : Literal) : Sustains D (Parser.accept (.literal l)) := accept (by simp)

instance (k : Symbol) : Sustains D (skip k) := by
  unfold skip
  have : Sustains D (Parser.accept (.symbol k)) := accept (by simp)
  infer_instance

instance : Sustains D name := of_current fun hs => by
  split
  · next h => exact .advance hs (Eager.ne_endOfInput_of_isName h)
  · exact .fail hs ⟨rfl, rfl⟩

instance (change : Package → Package) : Sustains D (declare change) where
  from_ {s} hs := .quiet_ok hs (declare_eq change s) (Orderly.evolves_ok _ (declare_eq change s))
    (.inl (by split <;> rfl))

instance (e : Event) : Sustains D (note e) where
  from_ {s} hs := .quiet_ok hs (note_eq e s) (Orderly.evolves_noted e s) (.inl rfl)

/-- A trial is silent, and gives an answer where what is tried does not match. -/
instance trial (alternative : String) (p : Parser α) [Orderly p] :
    Sustains D (trial alternative p) where
  from_ {s} hs := by
    cases h : Parser.trial alternative p s with
    | ok a t =>
      exact .quiet_ok hs h (Orderly.evolves_ok _ h) (.inl (by rw [Orderly.trial_of_ok h]))
    | error f t =>
      obtain ⟨hf, ht⟩ := Orderly.trial_of_error h
      exact .quiet_error hs h (Orderly.evolves_error _ h) (.inl (by rw [ht])) fun e heq =>
        absurd heq (hf e)

/-! ### Names and types -/

instance : Sustains D dottedName := by unfold dottedName; infer_instance

instance (x : String × Nat) : Sustains D (genericRound x) := by
  obtain ⟨text, depth⟩ := x
  refine of_current fun hs => ?_
  dsimp only
  split
  · refine SustainsFrom.bind hs (.fail (α := PUnit) hs ⟨rfl, rfl⟩) fun _ h => ?_
    cases h
  · next hk => exact .advance_bind hs hk (.pure _)

instance (first : α) (grow : α → α) : Sustains D (arraySuffixes first grow) := by
  unfold arraySuffixes; infer_instance

theorem genericArguments (hs : D.before s) (hk : s.cursor.current.kind = .symbol .less) :
    SustainsFrom D genericArguments s :=
  .advance_bind hs (by rw [hk]; simp) from_

instance : Sustains D typeName := by
  unfold typeName
  refine seq inferInstance fun base => ⟨fun hs => (from_ hs).bind hs fun {b t} _ h => ?_⟩
  split
  · next hb =>
    obtain ⟨rfl, hk⟩ := kind_of_nextIsSymbol (hb ▸ h)
    rw [map_eq_bind]
    exact SustainsFrom.bind hs ((genericArguments hs hk).bind hs fun ht _ => .pure _ ht)
      fun ht _ => from_ ht
  · cases h
    exact from_ hs

instance : Sustains D title := of_current fun hs => by
  split
  · next h => exact .advance_bind hs (by rw [h]; simp) (.pure _)
  · split
    · next h => exact .advance_bind hs (Eager.ne_endOfInput_of_isName h) (.pure _)
    · exact .fail hs ⟨rfl, rfl⟩

theorem importPart {x : String × Bool} (hs : D.before s)
    (hk : s.cursor.current.kind ≠ .endOfInput) : SustainsFrom D (importPart x) s := by
  obtain ⟨text, closed⟩ := x
  refine .advance_bind hs hk (of_current fun ht => ?_).from_
  split
  · next hstar => exact .advance_bind ht (by rw [hstar.1]; simp) (.pure _)
  · exact from_ ht

instance : Sustains D importTarget := by
  unfold importTarget
  refine seq inferInstance fun first => seq ⟨fun hs => ?_⟩ fun x => inferInstance
  refine .repeatWhile hs (fun _ _ => ⟨_, rfl⟩) fun {x s} hs h => importPart hs fun hk => ?_
  have hmore : (!x.2 && decide (s.cursor.current.kind = .symbol .dot)) = true := by
    change EStateM.Result.ok _ s = _ at h
    exact (EStateM.Result.ok.inj h).1
  rw [hk] at hmore
  simp at hmore

instance afterBrackets (fuel n : Nat) : Sustains D (afterBrackets fuel n) := by
  induction fuel generalizing n with
  | zero => unfold Parser.afterBrackets; infer_instance
  | succ fuel ih => unfold Parser.afterBrackets; infer_instance

instance : Sustains D isUntyped := by unfold isUntyped; infer_instance

instance : Sustains D parameter := by unfold parameter; infer_instance

instance : Sustains D parameterList := by unfold parameterList; infer_instance

instance : Sustains D parameters := by unfold parameters; infer_instance

/-! ### Embedded code -/

theorem hushed_moved (h : s.Hushed t) (n : Nat) : s.Hushed (t.moved n) := by
  have hle : (t.moved n).left ≤ t.left :=
    Cursor.length_ahead_le (c := t.cursor) (d := (t.moved n).cursor) rfl (Nat.le_add_right _ _)
  rcases h with h | ⟨h, hlt⟩
  · exact .inl h
  · exact .inr ⟨h, by omega⟩

/-- Where code ends before a token that is no trivia, that token is the next one also where trivia
is hidden. -/
theorem current_moved {inner left : List Token} (hs : s.cursor.triviaVisible = false)
    (h : s.cursor.rest = inner ++ left) (hleft : ∀ t ∈ left.head?, t.isTrivia = false) :
    (s.moved inner.length).cursor.current = left.headD s.cursor.last := by
  have hrest : (s.moved inner.length).cursor.rest = left := Cursor.rest_moved (c := s.cursor) h
  rw [Cursor.current_of_hidden (c := (s.moved inner.length).cursor) hs, Cursor.ahead, hrest]
  cases left with
  | nil => rfl
  | cons t ts => rw [visible_cons_of_not_trivia (hleft t rfl)]; rfl

instance (opening closing : Symbol) (stops : List Symbol) :
    Sustains D (chunk opening closing stops) where
  from_ {s} hs := by
    by_cases hk : s.cursor.current.kind = .symbol opening
    · have hhidden : s.advanced.cursor.triviaVisible = false :=
        (Cursor.triviaVisible_consume _).trans (D.hidden hs)
      have hmoved : ∀ n, s.Hushed (s.advanced.moved n) :=
        hushed_moved (hushed_advanced (D.hidden hs) (by rw [hk]; simp))
      have heq := @chunk_eq _ closing stops _ hk
      have happend := @enclosed_append opening closing stops s.stack.room 1 s.advanced.cursor.rest
      have hends := @enclosed_ends opening closing stops s.stack.room 1 s.advanced.cursor.rest
      generalize enclosed opening closing stops s.stack.room 1 s.advanced.cursor.rest =
        e at heq happend hends
      obtain ⟨inner, verdict, left⟩ := e
      have hnext := current_moved hhidden happend.symm hends.solid
      cases verdict with
      | closed => exact .quiet_ok hs heq (Orderly.evolves_ok _ heq) (hmoved _)
      | deep =>
        exact .quiet_error hs heq (Orderly.evolves_error _ heq) (hmoved _) fun e he => by cases he
      | _ =>
        refine .quiet_error hs heq (Orderly.evolves_error _ heq) (hmoved _) fun e he => ?_
        cases he
        exact ⟨congrArg some hnext.symm, rfl⟩
    · exact .of_error (chunk_of_ne hk) (.refl s) (D.refl hs) fun e he => by
        cases he; exact ⟨rfl, rfl⟩

instance : Sustains D parenChunk := by unfold parenChunk; infer_instance

instance : Sustains D curlyChunk := by unfold curlyChunk; infer_instance

instance : Sustains D squareChunk := by unfold squareChunk; infer_instance

instance : Sustains D parenCode := by unfold parenCode; infer_instance

/-! ### Parts of patterns and sources -/

instance : Sustains D bindingName := of_current fun {s} hs => by
  refine SustainsFrom.bind hs (.look hs (peek_eq 1 s)) fun _ h => ?_
  cases h
  split
  · next h =>
    obtain ⟨hname, hcolon⟩ := Bool.and_eq_true_iff.1 h
    have hk := Eager.ne_endOfInput_of_isName hname
    have hnext : s.advanced.cursor.current = s.cursor.lookahead 2 :=
      Cursor.current_consume (D.hidden hs) hk
    refine .advance_bind hs hk fun ht => .advance_bind ht ?_ (.pure _)
    rw [hnext, of_decide_eq_true hcolon]
    simp
  · exact .pure _ hs

instance : Sustains D fieldHead := by unfold fieldHead; infer_instance

instance (token : Token) (field : String) (declaration : Option String) :
    Sustains D (fieldBinding token field declaration) := by
  cases declaration <;> unfold fieldBinding <;> infer_instance

instance : Sustains D arguments? := by unfold arguments?; infer_instance

instance (chain : List Access) (bracket : Token) : Sustains D (indexAccess chain bracket) := by
  unfold indexAccess; infer_instance

theorem access {chain : List Access} (hs : D.before s)
    (hk : s.cursor.current.kind ∈ [TokenKind.symbol .dot, .symbol .lbracket]) :
    SustainsFrom D (access chain) s := by
  refine SustainsFrom.bind hs (.look hs (current_eq s)) fun _ h => ?_
  cases h
  split
  · exact from_ hs
  · refine .advance_bind hs (fun heq => ?_) from_
    rw [heq] at hk
    exact absurd hk (by decide)

instance : Sustains D retrieval := by
  unfold retrieval
  have hchain :
      Sustains D (Parser.repeatWhile [] (fun _ => nextIs [.symbol .dot, .symbol .lbracket])
      Parser.access) :=
    ⟨fun hs => .repeatWhile hs (fun _ _ => ⟨_, rfl⟩) fun hs h => access hs (kind_of_nextIs h).2⟩
  infer_instance

/-! ### Parts of rules -/

instance (text : String) : Sustains D (integer text) where
  from_ {s} hs := by
    unfold integer
    dsimp only
    split
    · exact .of_error rfl (.refl s) (D.refl hs) fun e he => by cases he
    · exact .pure _ hs

theorem attributeValue {token : Token} (hk : token.kind ∈ attributeKinds) :
    Sustains D (attributeValue token) := by
  unfold Parser.attributeValue
  rw [if_pos hk]
  split
  · infer_instance
  · split
    · exact seq inferInstance fun value => by cases value <;> infer_instance
    · infer_instance

theorem ruleAttribute (hs : D.before s) (hk : s.cursor.current.kind ∈ attributeKinds) :
    SustainsFrom D ruleAttribute s := by
  have := attributeValue (D := D) hk
  refine .advance_bind hs (fun heq => ?_) from_
  rw [heq] at hk
  exact absurd hk (by decide)

instance : Sustains D attributesHead := by unfold attributesHead; infer_instance

instance : Sustains D consequence where
  from_ {s} hs := (from_ (p := keyword .then_) hs).bind hs fun {opening t} ht h => by
    obtain ⟨rfl, hk, rfl⟩ := expect_of_ok h
    have heq := consequenceText_eq (matched_advanced s)
    exact SustainsFrom.bind ht (.quiet_ok ht heq (Orderly.evolves_ok _ heq) (.inl rfl))
      fun hu _ => .pure _ hu

instance : Sustains D closing := by unfold closing; infer_instance

instance : Sustains D queryParameters := by unfold queryParameters; infer_instance

/-! ### Declarations -/

instance : Sustains D importStatement := by unfold importStatement; infer_instance

instance : Sustains D functionImport := by unfold functionImport; infer_instance

instance : Sustains D globalStatement := by unfold globalStatement; infer_instance

instance : Sustains D returnType? := by unfold returnType?; infer_instance

instance : Sustains D functionStatement := by unfold functionStatement; infer_instance

instance : Sustains D slot := by unfold slot; infer_instance

instance : Sustains D templateStatement := by
  unfold templateStatement
  refine seq inferInstance fun token => seq inferInstance fun name => seq inferInstance fun _ =>
    seq inferInstance fun slots => ?_
  split
  · exact of_current fun hs => by
      rw [fail_bind]
      exact .fail hs ⟨rfl, rfl⟩
  · infer_instance

end Sustains

end Rulebook.Parser
