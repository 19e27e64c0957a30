import Rulebook.Proofs.Tokenwise
import Rulebook.Proofs.WrittenRestrictions

/-!
# What productions accept

The tokens that a production takes where it succeeds, and those behind which it gives up, because
parentheses nest too deep. Both are followed through sequences and repetitions, so what is read as a
restriction is written like one, and code is given up only where a value may begin.
-/

namespace Rulebook.Parser

variable {α β : Type} {room : Nat} {text operator : String} {token x : Token}
  {ts us notes notes' : List Token}
  {r : Restriction} {s t : State} {Q B R C : List Token → Prop}

/-! ### Acceptance -/

structure State.Poised (room : Nat) (s : State) : Prop where
  hidden : s.cursor.triviaVisible = false
  room : s.stack.room = room

theorem State.Poised.advanced (hs : s.Poised room) : s.advanced.Poised room where
  hidden := (Cursor.triviaVisible_consume _).trans hs.hidden
  room := hs.room

/-- Where a production succeeds, `Q` holds of the tokens that it takes. Where it fails, it does not
recognise what is ahead, or parentheses nest too deep behind tokens of which `B` holds. -/
structure AcceptsFrom (room : Nat) (Q B : List Token → Prop) (p : Parser α) (s : State) : Prop where
  ruleName : (after p s).ruleName = s.ruleName
  ok : ∀ {a t}, p s = .ok a t → t.Poised room ∧ ∃ ts, Q ts ∧ s.cursor.ahead = ts ++ t.cursor.ahead
  error : ∀ {f t}, p s = .error f t → (∃ e, f = .recognition e) ∨ f = .nestingTooDeep ∧
    ∃ ts us, B ts ∧ s.cursor.ahead = ts ++ us ∧ ¬Delimiter.paren.WithinLimit room us

/-- A production that neither moves nor fails, nor changes the name of the rule. -/
class Quiet (p : Parser α) : Prop where
  ok : ∀ s, ∃ a t, p s = .ok a t ∧ t.cursor = s.cursor ∧ t.stack = s.stack ∧ t.ruleName = s.ruleName

namespace Quiet

instance (a : α) : Quiet (pure a : Parser α) := ⟨fun s => ⟨a, s, rfl, rfl, rfl, rfl⟩⟩

instance (l : Location) : Quiet (close l) := ⟨fun s => ⟨_, s, rfl, rfl, rfl, rfl⟩⟩

instance (message : String) (token : Token) : Quiet (remark message token) where
  ok s := by
    refine ⟨_, _, remark_eq message token s, ?_⟩
    split <;> exact ⟨rfl, rfl, rfl⟩

instance (code : String) (token : Token) : Quiet (checkSemicolon code token) where
  ok s := by
    unfold checkSemicolon
    split <;> exact ok s

instance (p : Parser α) (f : α → Parser β) [Quiet p] [∀ a, Quiet (f a)] : Quiet (p >>= f) where
  ok s := by
    obtain ⟨a, t, ht, hcursor, hstack, hname⟩ := ok (p := p) s
    obtain ⟨b, u, hu, hcursor', hstack', hname'⟩ := ok (p := f a) t
    exact ⟨b, u, (bind_of_ok ht).trans hu, hcursor'.trans hcursor, hstack'.trans hstack,
      hname'.trans hname⟩

end Quiet

namespace AcceptsFrom

variable {p : Parser α} {f : α → Parser β}

theorem of_ok {a : α} (h : p s = .ok a t) (hname : t.ruleName = s.ruleName)
    (ht : t.Poised room) (hts : Q ts) (hahead : s.cursor.ahead = ts ++ t.cursor.ahead) :
    AcceptsFrom room Q B p s where
  ruleName := by rw [after_of_ok h, hname]
  ok h' := by
    rw [h] at h'
    cases h'
    exact ⟨ht, ts, hts, hahead⟩
  error h' := by
    rw [h] at h'
    cases h'

theorem of_recognition {e : ParseError} (h : p s = .error (.recognition e) t)
    (hname : t.ruleName = s.ruleName) : AcceptsFrom room Q B p s where
  ruleName := by rw [after_of_error h, hname]
  ok h' := by
    rw [h] at h'
    cases h'
  error h' := by
    rw [h] at h'
    cases h'
    exact .inl ⟨e, rfl⟩

theorem of_deep (h : p s = .error .nestingTooDeep t) (hname : t.ruleName = s.ruleName) (hnil : B [])
    (hlimit : ¬Delimiter.paren.WithinLimit room s.cursor.ahead) : AcceptsFrom room Q B p s where
  ruleName := by rw [after_of_error h, hname]
  ok h' := by
    rw [h] at h'
    cases h'
  error h' := by
    rw [h] at h'
    cases h'
    exact .inr ⟨rfl, [], _, hnil, rfl, hlimit⟩

theorem pure (hs : s.Poised room) (hnil : Q []) (a : α) :
    AcceptsFrom room Q B (pure a : Parser α) s :=
  of_ok rfl rfl hs hnil rfl

theorem fail (e : ParseError) : AcceptsFrom room Q B (fail e : Parser α) s := of_recognition rfl rfl

theorem mono (h : AcceptsFrom room Q B p s) (hQ : ∀ {ts}, Q ts → R ts) (hB : ∀ {ts}, B ts → C ts) :
    AcceptsFrom room R C p s where
  ruleName := h.ruleName
  ok hp := by
    obtain ⟨ht, ts, hts, hahead⟩ := h.ok hp
    exact ⟨ht, ts, hQ hts, hahead⟩
  error hp := (h.error hp).imp_right fun ⟨hdeep, ts, us, hts, hrest⟩ =>
    ⟨hdeep, ts, us, hB hts, hrest⟩

theorem of_eq {q : Parser α} (h : p s = q t) (hname : s.ruleName = t.ruleName)
    (hcursor : s.cursor = t.cursor) (hq : AcceptsFrom room Q B q t) : AcceptsFrom room Q B p s where
  ruleName := by
    rw [hname, ← hq.ruleName]
    unfold after
    rw [h]
  ok h' := by
    rw [hcursor]
    exact hq.ok (h.symm.trans h')
  error h' := by
    rw [hcursor]
    exact hq.error (h.symm.trans h')

theorem bind (hp : AcceptsFrom room Q B p s) (hB : ∀ ts, B ts → C ts)
    (hf : ∀ {a t ts}, p s = .ok a t → Q ts → s.cursor.ahead = ts ++ t.cursor.ahead →
      t.Poised room →
      AcceptsFrom room (fun us => R (ts ++ us)) (fun us => C (ts ++ us)) (f a) t) :
    AcceptsFrom room R C (p >>= f) s := by
  cases h : p s with
  | ok a t =>
    obtain ⟨ht, ts, hts, hahead⟩ := hp.ok h
    have hrest := hf h hts hahead ht
    refine ⟨?_, fun h' => ?_, fun h' => ?_⟩
    · rw [after_bind_of_ok h, hrest.ruleName, ← hp.ruleName, after_of_ok h]
    · rw [bind_of_ok h] at h'
      obtain ⟨hu, us, hus, heq⟩ := hrest.ok h'
      exact ⟨hu, _, hus, by rw [hahead, heq, List.append_assoc]⟩
    · rw [bind_of_ok h] at h'
      refine (hrest.error h').imp_right fun ⟨hdeep, us, vs, hus, heq, hlimit⟩ => ?_
      exact ⟨hdeep, _, vs, hus, by rw [hahead, heq, List.append_assoc], hlimit⟩
  | error e t =>
    have herror := bind_of_error (f := f) h
    refine ⟨?_, fun h' => ?_, fun h' => ?_⟩
    · rw [after_of_error herror, ← after_of_error h, hp.ruleName]
    · rw [herror] at h'
      cases h'
    · rw [herror] at h'
      cases h'
      refine (hp.error h).imp_right fun ⟨hdeep, us, vs, hus, heq, hlimit⟩ => ?_
      exact ⟨hdeep, us, vs, hB us hus, heq, hlimit⟩

theorem quiet [Quiet p] (hs : s.Poised room) (hnil : Q []) : AcceptsFrom room Q B p s := by
  obtain ⟨a, t, ht, hcursor, hstack, hname⟩ := Quiet.ok (p := p) s
  have hpoised : t.Poised room := ⟨hcursor ▸ hs.hidden, hstack ▸ hs.room⟩
  exact of_ok ht hname hpoised hnil (by rw [hcursor]; rfl)

theorem andQuiet [∀ a, Quiet (f a)] (hp : AcceptsFrom room Q B p s) :
    AcceptsFrom room Q B (p >>= f) s :=
  hp.bind (fun _ => id) fun _ hts _ ht => quiet ht (by rwa [List.append_nil])

theorem current {f : Token → Parser β} (h : AcceptsFrom room Q B (f s.cursor.current) s) :
    AcceptsFrom room Q B (Parser.current >>= f) s :=
  of_eq (bind_of_ok (current_eq s)) rfl rfl h

theorem peek {f : Token → Parser β} (n : Nat) (h : ∀ a, AcceptsFrom room Q B (f a) s) :
    AcceptsFrom room Q B (Parser.peek n >>= f) s :=
  of_eq (bind_of_ok (peek_eq n s)) rfl rfl (h _)

section Taking

variable {f : Token → Parser β}

/-- Taking the next token. -/
theorem advance (hs : s.Poised room) (hk : s.cursor.current.kind ≠ .endOfInput)
    (h : s.advanced.Poised room → AcceptsFrom room (fun us => R (s.cursor.current :: us))
      (fun us => C (s.cursor.current :: us)) (f s.cursor.current) s.advanced) :
    AcceptsFrom room R C (Parser.advance >>= f) s := by
  have hfirst : AcceptsFrom room (· = [s.cursor.current]) (fun _ => False) Parser.advance s :=
    of_ok (advance_eq s) rfl hs.advanced rfl (Cursor.ahead_consume hs.hidden hk)
  refine hfirst.bind (fun _ => False.elim) fun hadvance hts _ ht => ?_
  cases hadvance
  subst hts
  exact h ht

theorem expect {kind : TokenKind} (hs : s.Poised room) (hk : kind ≠ .endOfInput)
    (h : s.cursor.current.kind = kind → s.advanced.Poised room →
      AcceptsFrom room (fun us => R (s.cursor.current :: us)) (fun us => C (s.cursor.current :: us))
        (f s.cursor.current) s.advanced) : AcceptsFrom room R C (Parser.expect kind >>= f) s := by
  by_cases hkind : s.cursor.current.kind = kind
  · refine of_eq (q := Parser.advance >>= f) (bind_eq_of_eq f ?_) rfl rfl
      (.advance hs (hkind ▸ hk) (h hkind))
    rw [expect_eq, if_pos hkind, advance_eq]
  · exact of_recognition (bind_of_error ((expect_eq kind s).trans (if_neg hkind))) rfl

theorem name (hs : s.Poised room)
    (h : s.cursor.current.isName = true → s.advanced.Poised room →
      AcceptsFrom room (fun us => R (s.cursor.current :: us)) (fun us => C (s.cursor.current :: us))
        (f s.cursor.current) s.advanced) : AcceptsFrom room R C (Parser.name >>= f) s := by
  by_cases hname : s.cursor.current.isName = true
  · refine of_eq (q := Parser.advance >>= f) (bind_eq_of_eq f ?_) rfl rfl
      (.advance hs (Eager.ne_endOfInput_of_isName hname) (h hname))
    rw [name_eq, if_pos hname, advance_eq]
  · exact of_recognition (bind_of_error ((name_eq s).trans (if_neg hname))) rfl

end Taking

section Repetition

variable {I : List Token → Prop} {more : α → Parser Bool} {body : α → Parser α}

theorem rounds (hmore : ∀ a s, ∃ c, more a s = .ok c s)
    (hbody : ∀ {a s ts}, I ts → s.Poised room → more a s = .ok true s →
      AcceptsFrom room (fun us => I (ts ++ us)) (fun us => C (ts ++ us)) (body a) s)
    (hts : I ts) (hs : s.Poised room) (n : Nat) (a : α) :
    AcceptsFrom room (fun us => I (ts ++ us)) (fun us => C (ts ++ us))
      (rounds more body n a) s := by
  induction n generalizing a s ts with
  | zero => exact pure hs (by rwa [List.append_nil]) a
  | succ n ih =>
    obtain ⟨c, hc⟩ := hmore a s
    refine of_eq (bind_of_ok hc) rfl rfl ?_
    cases c with
    | false => exact pure hs (by rwa [List.append_nil]) a
    | true =>
      refine (hbody hts hs hc).bind (fun _ => id) fun {b t us} _ hus _ ht => ?_
      have hrest := ih hus ht b
      simp only [List.append_assoc] at hrest
      exact hrest

/-- What holds of no tokens and is kept by each round holds of all that a repetition takes. -/
theorem repeatWhile (hmore : ∀ a s, ∃ c, more a s = .ok c s)
    (hbody : ∀ {a s ts}, I ts → s.Poised room → more a s = .ok true s →
      AcceptsFrom room (fun us => I (ts ++ us)) (fun us => C (ts ++ us)) (body a) s)
    (hnil : I []) (hs : s.Poised room) (a : α) :
    AcceptsFrom room I C (repeatWhile a more body) s := by
  have hrounds := rounds (C := C) hmore hbody hnil hs (s.cursor.remaining + 1) a
  exact of_eq (bind_of_ok rfl) rfl rfl hrounds

end Repetition

end AcceptsFrom

/-! ### Values -/

def ValueTokens (room : Nat) (text operator : String) (token : Token) (ts : List Token) : Prop :=
  ∃ r notes, WrittenValue room text operator token ts r notes

theorem ValueTokens.ne_nil (h : ValueTokens room text operator token ts) : ts ≠ [] := by
  obtain ⟨r, notes, h⟩ := h
  cases h <;> exact List.cons_ne_nil _ _

def DottedTokens (ts : List Token) : Prop := ∃ first parts, ts = dottedTokens first parts ∧
  first.isName = true ∧ ∀ p ∈ parts, p.1.kind = .symbol .dot ∧ p.2.isName = true

theorem DottedTokens.snoc {dot name : Token} (h : DottedTokens ts) (hdot : dot.kind = .symbol .dot)
    (hname : name.isName = true) : DottedTokens (ts ++ [dot, name]) := by
  obtain ⟨first, parts, rfl, hfirst, hparts⟩ := h
  refine ⟨first, parts ++ [(dot, name)], by simp [dottedTokens], hfirst, ?_⟩
  exact List.forall_mem_append.2 ⟨hparts, List.forall_mem_singleton.2 ⟨hdot, hname⟩⟩

theorem accepts_dottedName (hs : s.Poised room) :
    AcceptsFrom room DottedTokens B dottedName s := by
  refine .name hs fun hfirst hs' => ?_
  refine .repeatWhile (I := fun us => DottedTokens (s.cursor.current :: us)) (fun _ _ => ⟨_, rfl⟩)
    (fun {name v ts} hts hv hmore => ?_)
    ⟨_, [], rfl, hfirst, fun _ hp => absurd hp List.not_mem_nil⟩ hs' _
  have hdot := (kind_of_nextIsSymbol hmore).2
  exact .advance hv (by rw [hdot]; simp) fun hv' => .name hv' fun hname hv'' =>
    .pure hv'' (hts.snoc hdot hname) _

theorem not_withinLimit_of_deep (hs : s.Poised room)
    (hopening : s.cursor.current.kind = .symbol .lparen)
    (h : (enclosed .lparen .rparen [] s.stack.room 1 s.advanced.cursor.rest).verdict = .deep) :
    ¬Delimiter.paren.WithinLimit room s.cursor.ahead := fun hlimit => by
  rw [Cursor.ahead_consume hs.hidden (by rw [hopening]; simp), ← hs.room] at hlimit
  have hvisible := @enclosed_visible .lparen .rparen [] s.stack.room 1 s.advanced.cursor.rest
  exact (captured (d := .paren) hopening _).not_deep hlimit
    ((congrArg (·.verdict) hvisible).trans h)

variable (text) in
theorem accepts_chunk (hs : s.Poised room)
    (hopening : s.cursor.current.kind = .symbol .lparen) :
    AcceptsFrom room (ValueTokens room text operator token) (· = []) parenChunk s := by
  have hahead := Cursor.ahead_consume hs.hidden (by rw [hopening]; simp)
  have hchunk : parenChunk s = _ := chunk_eq hopening
  have hdeep := not_withinLimit_of_deep hs hopening
  have hvisible := @enclosed_visible .lparen .rparen [] s.stack.room 1 s.advanced.cursor.rest
  have hcaptured : Captured .paren s.stack.room s.cursor.current s.advanced.cursor.rest
    (enclosed .lparen .rparen [] s.stack.room 1 s.advanced.cursor.rest) := captured hopening _
  generalize enclosed .lparen .rparen [] s.stack.room 1 s.advanced.cursor.rest = e
    at hchunk hdeep hvisible hcaptured
  unfold Enclosure.result at hchunk
  cases hverdict : e.verdict with
  | closed =>
    obtain ⟨closing, r, hleft, hkind, -⟩ := hcaptured.closesAt hverdict
    have hclosing : closing.isTrivia = false := by rw [Token.isTrivia, hkind]; rfl
    rw [hverdict, hleft, visible_cons_of_not_trivia hclosing] at hvisible
    have hrest : s.advanced.cursor.rest = (e.inner ++ [closing]) ++ r := by
      rw [hcaptured.rest_eq, hleft, List.append_assoc]
      rfl
    have hmoved := Cursor.rest_moved hrest
    rw [List.length_append, List.length_singleton] at hmoved
    rw [hverdict] at hchunk
    have hcode := enclosed_of_next hvisible []
    rw [hs.room] at hcode
    refine .of_ok hchunk rfl ⟨hs.advanced.hidden, hs.room⟩ ⟨_, _, .code hopening hcode rfl⟩ ?_
    show _ = _ ++ visible (Cursor.rest (s.advanced.cursor.rewind _))
    rw [hmoved, hahead]
    show s.cursor.current :: visible s.advanced.cursor.rest = _
    rw [hrest]
    simp [visible_append, visible_cons_of_not_trivia hclosing]
  | deep =>
    rw [hverdict] at hchunk
    exact .of_deep hchunk rfl rfl (hdeep hverdict)
  | stopped | ended =>
    rw [hverdict] at hchunk
    exact .of_recognition hchunk rfl

variable (text) in
theorem accepts_code (hs : s.Poised room)
    (hopening : s.cursor.current.kind = .symbol .lparen) :
    AcceptsFrom room (ValueTokens room text operator token) (· = []) parenCode s := by
  unfold parenCode
  rw [map_eq_bind]
  exact (accepts_chunk text hs hopening).andQuiet

variable (text) in
theorem accepts_value (hs : s.Poised room) :
    AcceptsFrom room (ValueTokens room text operator token) (· = [])
      (restrictionValue operator token) s := by
  unfold restrictionValue
  refine .current ?_
  split
  · next l hkind =>
    exact .advance hs (by rw [hkind]; simp) fun hs' => .quiet hs' ⟨_, _, .literal hkind⟩
  · next hkind => exact (accepts_code text hs hkind).andQuiet
  · split
    · next hname =>
      refine .peek 1 fun dot => ?_
      split
      · refine (accepts_dottedName hs).bind (B := fun _ => False) (fun _ => False.elim)
          fun _ hts _ ht => ?_
        obtain ⟨first, parts, rfl, hfirst, hparts⟩ := hts
        refine .quiet ht ?_
        rw [List.append_nil]
        by_cases hne : parts = []
        · subst hne
          exact ⟨_, _, .reference hfirst⟩
        · exact ⟨_, _, .constant hfirst hne hparts⟩
      · exact .advance hs (Eager.ne_endOfInput_of_isName hname) fun hs' =>
          .quiet hs' ⟨_, _, .reference hname⟩
    · exact .fail _

/-! ### Restrictions -/

inductive LeadsToValue (room : Nat) (text operator : String) : List Token → Prop where
  | first {opening : Token} (hopening : opening.kind = .symbol .lparen) :
      LeadsToValue room text operator [opening]
  | further {opening token comma : Token} {ts us notes notes' : List Token} {first : Restriction}
      {others : List (Token × Restriction)} (hopening : opening.kind = .symbol .lparen)
      (htoken : ts.head? = some token)
      (hfirst : WrittenValue room text operator token ts first notes)
      (hothers : WrittenValues room text operator others us notes')
      (hcomma : comma.kind = .symbol .comma) :
      LeadsToValue room text operator (opening :: (ts ++ (us ++ [comma])))

inductive BeforeValue (room : Nat) (text : String) : List Token → Prop where
  | compared {operator : Token} (hoperator : operator.kind ∈ comparisonKinds ++ negatableKinds) :
      BeforeValue room text [operator]
  | negated {word operator : Token} (hword : word.kind = .keyword .not)
      (hoperator : operator.kind ∈ negatableKinds) : BeforeValue room text [word, operator]
  | oneOf {word : Token} {ts : List Token} (hword : word.kind = .keyword .in_)
      (h : LeadsToValue room text "==" ts) : BeforeValue room text (word :: ts)
  | noneOf {word in_ : Token} {ts : List Token} (hword : word.kind = .keyword .not)
      (hin : in_.kind = .keyword .in_) (h : LeadsToValue room text "!=" ts) :
      BeforeValue room text (word :: in_ :: ts)

theorem head?_of_ahead (hs : s.Poised room) (hahead : s.cursor.ahead = ts ++ us)
    (hne : ts ≠ []) : ts.head? = some s.cursor.current := by
  obtain ⟨x, ts, rfl⟩ := List.exists_cons_of_ne_nil hne
  rw [current_of_ahead hs.hidden hahead]
  rfl

theorem values_snoc {others : List (Token × Restriction)} {comma first : Token}
    (h : WrittenValues room text operator others us notes) (hcomma : comma.kind = .symbol .comma)
    (hfirst : ts.head? = some first) (hvalue : WrittenValue room text operator first ts r notes') :
    ∃ notes, WrittenValues room text operator (others ++ [(comma, r)])
      (us ++ comma :: ts) notes := by
  induction h with
  | nil =>
    have hlast := WrittenValues.cons hcomma hfirst hvalue .nil
    rw [List.append_nil] at hlast
    exact ⟨_, hlast⟩
  | cons hcomma' hfirst' hvalue' _ ih =>
    obtain ⟨notes, hall⟩ := ih
    have hcons := WrittenValues.cons hcomma' hfirst' hvalue' hall
    rw [← List.append_assoc] at hcons
    exact ⟨_, hcons⟩

variable (text) in
theorem accepts_valueList (c : Connective) (hs : s.Poised room) :
    AcceptsFrom room (fun ts => ∃ o notes, WrittenList room text operator c o ts notes)
      (LeadsToValue room text operator) (valueList operator c) s := by
  refine .expect hs (by simp) fun hopening hs' => .current ?_
  refine (accepts_value text hs').bind (fun ts hts => hts ▸ .first hopening)
    fun {first u ts} _ hts hahead hu => ?_
  have htoken := head?_of_ahead hs' hahead hts.ne_nil
  obtain ⟨r, notes, hfirst⟩ := hts
  have hloop :
      AcceptsFrom room (fun us => ∃ others notes, WrittenValues room text operator others us notes)
      (fun us => LeadsToValue room text operator (s.cursor.current :: (ts ++ us)))
      (repeatWhile [first] (fun _ => nextIsSymbol .comma) fun found => do
        let comma ← advance
        let next ← restrictionValue operator (← Parser.current)
        return found ++ [connectiveAt c comma, next]) u := by
    -- each round adds a comma and a value to the values that were taken before it
    refine .repeatWhile (fun _ _ => ⟨_, rfl⟩) (fun {found v us} hus hv hmore => ?_)
      ⟨[], [], .nil⟩ hu _
    obtain ⟨others, notes', hothers⟩ := hus
    have hcomma := (kind_of_nextIsSymbol hmore).2
    refine .advance hv (by rw [hcomma]; simp) fun hv' => .current ?_
    refine (accepts_value text hv').bind
      (fun ts hts => hts ▸ .further hopening htoken hfirst hothers hcomma)
      fun {r w vs} _ hvs hahead hw => .pure hw ?_ _
    have hnext := head?_of_ahead hv' hahead hvs.ne_nil
    obtain ⟨r, notes, hvalue⟩ := hvs
    obtain ⟨notes, hall⟩ := values_snoc hothers hcomma hnext hvalue
    rw [List.append_nil]
    exact ⟨_, _, hall⟩
  refine hloop.bind (fun _ => id) fun {found v us} _ hus _ hv => ?_
  obtain ⟨others, notes', hothers⟩ := hus
  exact .expect hv (by simp) fun hclosing hv' =>
    .pure hv' ⟨_, _, .mk hopening htoken hfirst hothers hclosing⟩ _

variable (text) in
theorem accepts_restriction (hs : s.Poised room) :
    AcceptsFrom room (fun ts => ∃ o notes, Operand.Written room text o ts notes)
      (BeforeValue room text) restriction s := by
  have hend : TokenKind.endOfInput ∉ comparisonKinds ++ negatableKinds := by decide
  unfold restriction
  refine .current ?_
  split
  · next hkind =>
    refine .advance hs (fun hno => hend (hno ▸ hkind)) fun hs' => ?_
    exact ((accepts_value text hs').mono (fun ⟨r, notes, hvalue⟩ => ⟨_, _, .compared hkind hvalue⟩)
      fun hts => hts ▸ .compared hkind).andQuiet
  split
  · next hkind =>
    refine .advance hs (by rw [hkind]; simp) fun hs' => ?_
    exact (accepts_valueList text .or hs').mono (fun ⟨o, notes, h⟩ => ⟨o, notes, .oneOf hkind h⟩)
      (.oneOf hkind)
  split
  · next hkind =>
    refine .advance hs (by rw [hkind]; simp) fun hs' => .current ?_
    split
    · next hin =>
      refine .advance hs' (by rw [hin]; simp) fun hs'' => ?_
      exact (accepts_valueList text .and hs'').mono
        (fun ⟨o, notes, h⟩ => ⟨o, notes, .noneOf hkind hin h⟩) (.noneOf hkind hin)
    split
    · next hoperator =>
      refine .advance hs' (fun hno => hend (hno ▸ List.mem_append_right _ hoperator)) fun hs'' => ?_
      exact ((accepts_value text hs'').mono
        (fun ⟨r, notes, hvalue⟩ => ⟨_, _, .negated hkind hoperator hvalue⟩)
        fun hts => hts ▸ .negated hkind hoperator).andQuiet
    · exact .fail _
  · exact .fail _

end Rulebook.Parser
