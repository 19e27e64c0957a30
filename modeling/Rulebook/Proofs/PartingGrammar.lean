import Rulebook.Proofs.Parting

/-!
# The grammar of conditions before different closing words

Every production of conditions treats the closing words alike. Where one begins with the closing
word it fails in both texts or takes the word, which is a name like any other.

A trial that goes past the closing word fails in both texts, because what is tried ends with a
symbol; or what is tried is a name, which the word is in both texts. So trials give the same answer.
-/

namespace Rulebook.Parser

set_option synthInstance.maxSize 100000

variable {α β : Type} {k o : Nat} {s t u v : State}

/-! ### Trials -/

instance (message : String) (token : Token) : Level.Still (remark message token) where
  ok s := by
    refine ⟨_, _, remark_eq message token s, ?_⟩
    split <;> rfl

instance (code : String) (token : Token) : Level.Still (checkSemicolon code token) where
  ok s := by
    unfold checkSemicolon
    split
    · exact Level.Still.ok s
    · exact ⟨(), s, rfl, rfl⟩

/-- A production that does not go past the closing word where it succeeds. -/
class Halts (p : Parser α) : Prop where
  index_le : ∀ {k s a u}, s.cursor.ClosedAt k → p s = .ok a u → u.cursor.index ≤ k

namespace Halts

theorem expect {kind : TokenKind} (htrivia : kind.isTrivia = false)
    (hkind : kind ∉ TokenKind.endOfInput :: closingWords) : Halts (expect kind) where
  index_le {k s a u} hs h := by
    obtain ⟨rfl, heq, rfl⟩ := expect_of_ok h
    have hlt : s.cursor.seek s.cursor.index < k :=
      Nat.lt_of_not_le fun hle => hs.kind_ne hle htrivia hkind heq
    show s.cursor.consume.index ≤ k
    rw [Cursor.consume_eq fun hend => hkind (by rw [← heq, hend]; exact List.mem_cons_self)]
    exact hlt

instance (c : Symbol) : Halts (symbol c) := expect rfl (by simp [closingWords])

instance (opening closing : Symbol) (stops : List Symbol) :
    Halts (chunk opening closing stops) where
  index_le hs h := by
    obtain ⟨t, hprevious, hkind⟩ := previous_of_chunk h
    exact ((Orderly.evolves_ok _ h).closedAt hs).index_le_of_previous hprevious hkind

instance (priority := low) bind (p : Parser α) (f : α → Parser β) [Orderly p] [∀ a, Halts (f a)] :
    Halts (p >>= f) where
  index_le hs h := by
    obtain ⟨a, t, ht, hu⟩ := bind_eq_ok.1 h
    exact index_le ((Orderly.evolves_ok p ht).closedAt hs) hu

instance bind_still (p : Parser α) (f : α → Parser β) [Halts p] [∀ a, Level.Still (f a)] :
    Halts (p >>= f) where
  index_le hs h := by
    obtain ⟨a, t, ht, hu⟩ := bind_eq_ok.1 h
    obtain ⟨b, v, hv, hcursor⟩ := Level.Still.ok (p := f a) t
    rw [hv] at hu
    cases hu
    rw [hcursor]
    exact index_le hs ht

instance map (p : Parser α) (f : α → β) [Halts p] : Halts (f <$> p) := by
  rw [map_eq_bind]; infer_instance

end Halts

/-! ### Productions within productions -/

/-- A production that goes in step with itself up to the closing words. It may fail behind them as
it likes. -/
class KeepsStep (p : Parser α) : Prop where
  inStep : ∀ {k o s t}, s.Parting k o t → InStep k o (· = ·) s (p s) (p t)

namespace KeepsStep

instance (priority := low) impartial (p : Parser α) [Impartial p] : KeepsStep p :=
  ⟨exchanges.inStep⟩

instance (priority := low) bind (p : Parser α) (f : α → Parser β) [Orderly p] [∀ a, Orderly (f a)]
    [KeepsStep p] [∀ a, Impartial (f a)] : KeepsStep (p >>= f) where
  inStep {k o s t} hst := by
    refine .bind (inStep hst) (fun {a b u v} hab huv _ => ?_) fun {a u} hu hlt htrials _ _ => ?_
    · subst hab
      exact (exchanges (p := f a)).inStep huv
    · exact (exchanges (p := f a)).recognition ((Orderly.evolves_ok p hu).closedAt hst.cursor.first)
        hlt htrials

end KeepsStep

theorem State.Parting.within (n : Nesting) (h : s.Parting k o t) :
    (s.within n).Parting k o (t.within n) :=
  ⟨h.cursor, h.trials, h.received, congrArg (·.take n) h.stack⟩

/-- The frames that are taken are the same in both texts. -/
theorem State.Parting.nested {R : α → α → Prop} {p q : Parser α} (hst : s.Parting k o t)
    (n : Nesting) (h : InStep k o R (s.within n) (p (s.within n)) (q (t.within n))) :
    InStep k o R s (Parser.nested n p s) (Parser.nested n q t) := by
  by_cases hroom : n.frames ≤ s.stack.room
  · have hroom' : n.frames ≤ t.stack.room := hst.stack ▸ hroom
    have hunwound : ∀ {u v : State}, u.Parting k o v → (s.unwound u).Parting k o (t.unwound v) :=
      fun huv => ⟨huv.cursor, huv.trials, huv.received, hst.stack⟩
    cases h with
    | ok hx hy hab huv =>
      exact .ok (nested_of_ok hroom hx) (nested_of_ok hroom' hy) hab (hunwound huv)
    | error hx hy hfg huv =>
      exact .error (nested_of_error hroom hx) (nested_of_error hroom' hy) hfg (hunwound huv)
    | outrun hx =>
      refine .outrun ?_
      cases hr : p (s.within n) with
      | ok a u =>
        rw [hr] at hx
        rw [nested_of_ok hroom hr]
        exact hx
      | error f u =>
        rw [hr] at hx
        rw [nested_of_error hroom hr]
        cases f <;> exact hx
  · have hroom' : ¬n.frames ≤ t.stack.room := hst.stack ▸ hroom
    exact .error (nested_of_deep p (Nat.lt_of_not_le hroom))
      (nested_of_deep q (Nat.lt_of_not_le hroom')) (.other (by simp)) hst

instance (n : Nesting) (p : Parser α) [KeepsStep p] : KeepsStep (nested n p) where
  inStep hst := hst.nested n (KeepsStep.inStep (hst.within n))

/-- What follows a word or a symbol that stands before the closing word. -/
instance (priority := low) Impartial.bind_halts (p : Parser α) (f : α → Parser β) [Orderly p]
    [∀ a, Orderly (f a)] [Impartial p] [Halts p] [∀ a, KeepsStep (f a)] : Impartial (p >>= f) where
  exchanges := {
    inStep := fun {k o s t} hst => by
      refine .bind (exchanges.inStep hst) (fun {a b u v} hab huv _ => ?_) fun {a u} hu hlt _ => ?_
      · subst hab
        exact KeepsStep.inStep huv
      · exact absurd (Halts.index_le hst.cursor.first hu) (Nat.not_le.2 hlt)
    recognition := fun {k s f u} hs hlt htrials herror => by
      cases hp : p s with
      | ok a v =>
        have hle := Nat.le_trans (Orderly.evolves_ok p hp).index (Halts.index_le hs hp)
        exact absurd hle (Nat.not_le.2 hlt)
      | error g v =>
        rw [bind_of_error hp] at herror
        cases herror
        exact (exchanges (p := p)).recognition hs hlt htrials hp }

/-- A production that succeeds in both texts or in neither, in a trial. -/
class Concurs (p : Parser α) : Prop where
  succeeds : ∀ {k o s t a u}, s.Parting k o t → 0 < s.trials → p s = .ok a u → ∃ b v, p t = .ok b v

theorem Concurs.of_halts (p : Parser α) [Orderly p] [Impartial p] [Halts p] : Concurs p where
  succeeds {k o s t a u} hst htrials h := by
    have hstep := (exchanges (p := p)).inStep hst
    rw [h] at hstep
    cases hstep with
    | ok hx hy => exact ⟨_, _, hy⟩
    | error hx => cases hx
    | outrun hx =>
      have hlt := lt_index_of_outruns_ok (Orderly.evolves_ok p h) htrials hx
      exact absurd (Halts.index_le hst.cursor.first h) (Nat.not_le.2 hlt)

/-- In a trial, what succeeds in one text alone has gone past the closing word where it fails. -/
theorem Concurs.of_failures (p : Parser α) [Orderly p] [Impartial p]
    (hfails : ∀ {k s f u}, s.cursor.ClosedAt k → s.cursor.index ≤ k → p s = .error f u →
      u.cursor.index ≤ k) : Concurs p where
  succeeds {k o s t a u} hst htrials h := by
    cases hy : p t with
    | ok b v => exact ⟨b, v, rfl⟩
    | error g v =>
      have hle := hfails hst.cursor.second (hst.cursor.index ▸ hst.cursor.index_le) hy
      have hback := (exchanges (p := p)).inStep hst.symm
      rw [hy, h] at hback
      cases hback with
      | ok hx => cases hx
      | error _ hy => cases hy
      | outrun hx =>
        have hsilent := ((Orderly.evolves_error p hy).silent (hst.trials ▸ htrials)).1
        cases g with
        | recognition e =>
          rcases hx with hx | hx
          · exact absurd hle (Nat.not_le.2 hx)
          · rw [hsilent] at hx
            exact absurd hx (Nat.lt_irrefl _)
        | _ => exact absurd (hst.trials.trans hx) (Nat.ne_of_gt htrials)

theorem Concurs.of_total {p : Parser α} (h : ∀ s, ∃ a t, p s = .ok a t) : Concurs p where
  succeeds _ _ _ := h _

instance Concurs.bind_still (p : Parser α) (f : α → Parser β) [Concurs p] [∀ a, Level.Still (f a)] :
    Concurs (p >>= f) where
  succeeds hst htrials h := by
    obtain ⟨a, _, ha, -⟩ := bind_eq_ok.1 h
    obtain ⟨b, v, hb⟩ := succeeds hst htrials ha
    obtain ⟨c, w, hc, -⟩ := Level.Still.ok (p := f b) v
    exact ⟨c, w, (bind_of_ok hb).trans hc⟩

instance (c : Prop) [Decidable c] (p q : Parser α) [Concurs p] [Concurs q] :
    Concurs (if c then p else q) := by
  split <;> infer_instance

instance (e : ParseError) : Concurs (fail e : Parser α) where
  succeeds _ _ h := by cases h

theorem Concurs.current {f : Token → Parser α} (h : ∀ a, Concurs (f a))
    (hword : ∀ {k s a}, s.AtWord k → a.kind ∈ closingWords → ∃ b u, f a s = .ok b u) :
    Concurs (current >>= f) where
  succeeds {k o s t a u} hst htrials hx := by
    rcases hst.cursor.current with ⟨heq, -⟩ | ⟨hseek, -⟩
    · change f s.cursor.current s = _ at hx
      show ∃ b v, f t.cursor.current t = .ok b v
      rw [← heq]
      exact (h _).succeeds hst htrials hx
    · exact hword (hst.atWord hseek) (hst.atWord hseek).current

/-- Going on by whether a symbol is the token after the next one. -/
theorem Concurs.peek {p q : Parser α} (hp : Concurs p) (c : Symbol) (hq : Concurs q) :
    Concurs (do if (← peek 1).kind = .symbol c then p else q) where
  succeeds {k o s t a u} hst htrials hx := by
    have hiff := hst.cursor.symbol_lookahead c
    change (if (s.cursor.lookahead 2).kind = .symbol c then p else q) s = _ at hx
    show ∃ b v, (if (t.cursor.lookahead 2).kind = .symbol c then p else q) t = .ok b v
    by_cases hc : (t.cursor.lookahead 2).kind = .symbol c
    · rw [if_pos (hiff.2 hc)] at hx
      rw [if_pos hc]
      exact hp.succeeds hst htrials hx
    · rw [if_neg (mt hiff.1 hc)] at hx
      rw [if_neg hc]
      exact hq.succeeds hst htrials hx

theorem State.Parting.trying (h : s.Parting k o t) : s.trying.Parting k o t.trying :=
  ⟨h.cursor, congrArg (· + 1) h.trials, h.received, h.stack⟩

instance Impartial.trial (alternative : String) (p : Parser α) [Orderly p] [Impartial p]
    [Concurs p] : Impartial (trial alternative p) where
  exchanges := {
    inStep := fun {k o s t} hst => by
      have hrestored : ∀ {u v : State}, s.trying.Evolves u → t.trying.Evolves v →
          (s.restored u).Parting k o (t.restored v) := fun hu hv => by
        rw [Orderly.restored_eq hu, Orderly.restored_eq hv]
        exact ⟨hst.cursor, hst.trials, hst.received, hst.stack⟩
      have hs : 0 < s.trying.trials := Nat.succ_pos _
      have ht : 0 < t.trying.trials := Nat.succ_pos _
      cases hx : p s.trying with
      | ok a u =>
        obtain ⟨b, v, hy⟩ := Concurs.succeeds hst.trying hs hx
        exact .ok (trial_of_passed hx) (trial_of_passed hy) rfl
          (hrestored (Orderly.evolves_ok p hx) (Orderly.evolves_ok p hy))
      | error f u =>
        cases hy : p t.trying with
        | ok b v =>
          obtain ⟨a, w, ha⟩ := Concurs.succeeds hst.trying.symm ht hy
          rw [hx] at ha
          cases ha
        | error g v =>
          have hu := Orderly.evolves_error p hx
          have hv := Orderly.evolves_error p hy
          have hstep := (exchanges (p := p)).inStep hst.trying
          have hback := (exchanges (p := p)).inStep hst.trying.symm
          rw [hx, hy] at hstep
          rw [hx, hy] at hback
          cases Failure.SameSort.of_inStep hs ht hstep hback with
          | recognition e e' =>
            exact .ok (trial_of_recognition hx) (trial_of_recognition hy) rfl
              (hrestored (hu.trans (Orderly.evolves_noted _ u))
                (hv.trans (Orderly.evolves_noted _ v)))
          | other hf =>
            exact .error (trial_of_failure hx hf) (trial_of_failure hy hf) (.other hf)
              (hrestored hu hv)
    recognition := fun {k s f u} hs hlt htrials herror => by
      obtain ⟨v, hv⟩ := Orderly.failure_of_trial herror
      exact (exchanges (p := p)).recognition (s := s.trying) hs hlt (Nat.succ_pos _) hv }

/-! ### Closing words -/

theorem ne_of_closingWords {a : Token} (h : a.kind ∈ closingWords) {kind : TokenKind}
    (hkind : kind ∉ closingWords) : a.kind ≠ kind :=
  fun heq => hkind (heq ▸ h)

theorem notMem_of_closingWords {a : Token} (h : a.kind ∈ closingWords) {kinds : List TokenKind}
    (hkinds : ∀ kind ∈ closingWords, kind ∉ kinds) : a.kind ∉ kinds :=
  hkinds _ h

namespace Impartial

/-! ### Names -/

instance : Impartial dottedName := by
  have hrolls := Repetition.dottedName.rolls
  have hloop := Impartial.repeatWhile hrolls
  unfold dottedName
  infer_instance

/-! ### Embedded code -/

/-- Code within code begins with an opening delimiter, so before the closing word. -/
instance (opening closing : Symbol) (stops : List Symbol) (inner : Parser String) [Orderly inner]
    [KeepsStep inner] (x : String × Bool) :
    Impartial (chunkPart opening closing stops inner x) where
  exchanges := {
    inStep := fun {k o s t} hst => by
      obtain ⟨text, isOpen⟩ := x
      rcases hst.cursor.current with ⟨heq, hlt⟩ | ⟨hseek, hword, -⟩
      · have hnext := parting_advanced hst hlt
        by_cases hopening : s.cursor.current.kind = .symbol opening
        · have hread : KeepsStep (inner >>= fun code => return (text ++ code, true)) :=
            inferInstance
          rw [chunkPart_of_opening hopening, chunkPart_of_opening (heq ▸ hopening)]
          exact hread.inStep hst
        by_cases hclosing : s.cursor.current.kind = .symbol closing
        · exact .ok (chunkPart_of_closing hopening hclosing)
            (chunkPart_of_closing (heq ▸ hopening) (heq ▸ hclosing)) (by rw [heq]) hnext
        by_cases hend : s.cursor.current.kind = .endOfInput ∨
            s.cursor.current.kind ∈ stops.map TokenKind.symbol
        · exact .error (chunkPart_of_end hopening hclosing hend)
            (chunkPart_of_end (heq ▸ hopening) (heq ▸ hclosing) (heq ▸ hend)) (.recognition _ _) hst
        · exact .ok (chunkPart_of_other hopening hclosing hend)
            (chunkPart_of_other (heq ▸ hopening) (heq ▸ hclosing) (heq ▸ hend)) (by rw [heq]) hnext
      · have hsymbol : ∀ c, s.cursor.current.kind ≠ .symbol c := fun c =>
          ne_of_closingWords hword (by simp [closingWords])
        rw [chunkPart_of_other (hsymbol _) (hsymbol _) (not_or.2
          ⟨ne_of_closingWords hword (by simp [closingWords]),
            notMem_of_closingWords hword (by simp [closingWords])⟩)]
        exact .outrun (.inl (Cursor.Parting.lt_index_consume hst.cursor.first hseek))
    recognition := fun {k s f u} hs hlt _ herror => by
      obtain ⟨text, isOpen⟩ := x
      have hopening : s.cursor.current.kind ≠ .symbol opening :=
        hs.symbol_ne (Nat.le_of_lt (hs.lt_seek hlt)) opening
      have hclosing : s.cursor.current.kind ≠ .symbol closing :=
        hs.symbol_ne (Nat.le_of_lt (hs.lt_seek hlt)) closing
      by_cases hend : s.cursor.current.kind = .endOfInput ∨
          s.cursor.current.kind ∈ stops.map TokenKind.symbol
      · rw [chunkPart_of_end hopening hclosing hend] at herror
        cases herror
        exact ⟨_, rfl⟩
      · rw [chunkPart_of_other hopening hclosing hend] at herror
        cases herror }

theorem chunkWithin_succ (opening closing : Symbol) (stops : List Symbol) (levels : Nat)
    [KeepsStep (chunkWithin opening closing stops levels)] :
    Impartial (chunkWithin opening closing stops (levels + 1)) := by
  have hloop := Impartial.repeatWhile (Repetition.chunk opening closing stops levels).rolls
  unfold chunkWithin
  infer_instance

instance (opening closing : Symbol) (stops : List Symbol) (levels : Nat) :
    KeepsStep (chunkWithin opening closing stops levels) := by
  induction levels with
  | zero => exact ⟨fun hst => .error rfl rfl (.other (by simp)) hst⟩
  | succ levels ih =>
    have := chunkWithin_succ opening closing stops levels
    infer_instance

instance (opening closing : Symbol) (stops : List Symbol) :
    Impartial (chunk opening closing stops) :=
  .byLevels fun levels => chunkWithin_succ opening closing stops levels

instance : Impartial parenChunk := by unfold parenChunk; infer_instance

instance : Impartial squareChunk := by unfold squareChunk; infer_instance

instance : Impartial parenCode := by unfold parenCode; infer_instance

instance (code : String) (token : Token) : Impartial (checkSemicolon code token) := by
  unfold checkSemicolon; infer_instance

/-! ### Restrictions -/

end Impartial

instance : Grabs dottedName := by
  have hloop := Impartial.repeatWhile Repetition.dottedName.rolls
  unfold dottedName
  infer_instance

instance (operator : String) (token : Token) : Grabs (restrictionValue operator token) := by
  unfold restrictionValue
  refine .of_current fun value hvalue => ?_
  have hname := isName_of_closingWords hvalue
  dsimp only
  split
  · next h => rw [h] at hvalue; simp [closingWords] at hvalue
  · next h => rw [h] at hvalue; simp [closingWords] at hvalue
  · rw [if_pos hname]
    refine .of_peek fun next hnext => ?_
    rw [if_neg (hnext _)]
    infer_instance

namespace Impartial

instance (operator : String) (token : Token) : Impartial (restrictionValue operator token) := by
  refine ⟨.current_grabs (inferInstanceAs (Grabs (restrictionValue operator token))) fun value =>
    ?_⟩
  dsimp only
  split
  · exact exchanges
  · exact exchanges
  · refine .ite .rfl ?_ (.fail _ _)
    exact .peek fun a b h => .ite (h .dot) exchanges exchanges

instance (operator : String) (c : Connective) : Impartial (valueList operator c) := by
  have hloop := Impartial.repeatWhile (Repetition.valueList operator c).rolls
  unfold valueList
  infer_instance

/-- A value follows an operator, or operators after `not`; a closing word is no operator. -/
instance : Impartial restriction := by
  have hnegated : ∀ (token : Token), Impartial (do
      let operator ← current
      if operator.kind = .keyword .in_ then
        let _ ← advance
        valueList "!=" .and
      else if operator.kind ∈ negatableKinds then
        let _ ← advance
        return [← restrictionValue ("not " ++ operator.text) token]
      else fail (.mismatchedSet (negatableKinds ++ [.keyword .in_]) operator)) := by
    intro token
    refine ⟨.current (fun a => exchanges) fun a b ha hb => ?_⟩
    have hne : ∀ a : Token, a.kind ∈ closingWords →
        a.kind ≠ .keyword .in_ ∧ a.kind ∉ negatableKinds := fun a ha =>
      ⟨ne_of_closingWords ha (by decide), notMem_of_closingWords ha (by decide)⟩
    rw [if_neg (hne a ha).1, if_neg (hne a ha).2, if_neg (hne b hb).1, if_neg (hne b hb).2]
    exact .fail _ _
  refine ⟨.current (fun a => ?_) fun a b ha hb => ?_⟩
  · exact exchanges
  · have hne : ∀ a : Token, a.kind ∈ closingWords → a.kind ∉ comparisonKinds ++ negatableKinds ∧
        a.kind ≠ .keyword .in_ ∧ a.kind ≠ .keyword .not := fun a ha =>
      ⟨notMem_of_closingWords ha (by decide), ne_of_closingWords ha (by decide),
        ne_of_closingWords ha (by decide)⟩
    rw [if_neg (hne a ha).1, if_neg (hne a ha).2.1, if_neg (hne a ha).2.2, if_neg (hne b hb).1,
      if_neg (hne b hb).2.1, if_neg (hne b hb).2.2]
    exact .fail _ _

instance : Impartial connectedRestriction := by unfold connectedRestriction; infer_instance

end Impartial

namespace Halts

instance : Halts parenCode := by unfold parenCode parenChunk; infer_instance

instance (operator : String) (c : Connective) : Halts (valueList operator c) := by
  unfold valueList; infer_instance

end Halts

namespace Concurs

/-- A further part of a name is behind a dot, and so before the closing word; where it is missing
the name ends there. -/
theorem index_le_of_dots {text : String} {n : Nat} {f : Failure} (hs : s.cursor.ClosedAt k)
    (h : rounds (fun _ => nextIsSymbol .dot) (fun text => do
      let _ ← advance
      let part ← name
      return text ++ "." ++ part.text) n text s = .error f u) : u.cursor.index ≤ k := by
  induction n generalizing text s with
  | zero => cases h
  | succ n ih =>
    have hmore : nextIsSymbol .dot s = .ok (decide (s.cursor.current.kind = .symbol .dot)) s := rfl
    unfold rounds at h
    rw [bind_of_ok hmore] at h
    split at h
    · next hdot =>
      have hkind : s.cursor.current.kind = .symbol .dot := of_decide_eq_true hdot
      have hlt : s.cursor.seek s.cursor.index < k :=
        Nat.lt_of_not_le fun hle => hs.symbol_ne hle .dot hkind
      have hadvanced : s.advanced.cursor.index ≤ k := by
        show s.cursor.consume.index ≤ k
        rw [Cursor.consume_eq (by rw [hkind]; simp)]
        exact hlt
      rw [bind_assoc, bind_of_ok (advance_eq s)] at h
      cases hname : name s.advanced with
      | error g v =>
        rw [bind_assoc, bind_of_error hname] at h
        rw [name_eq] at hname
        split at hname
        · cases hname
        · cases hname
          cases h
          exact hadvanced
      | ok part v =>
        rw [bind_assoc, bind_of_ok hname] at h
        exact ih ((Orderly.evolves_ok name hname).closedAt
          ((Orderly.evolves_ok advance (advance_eq s)).closedAt hs)) h
    · cases h

instance : Concurs dottedName := by
  refine .of_failures _ fun {k s f u} hs hle h => ?_
  unfold dottedName at h
  cases hname : name s with
  | error g v =>
    rw [bind_of_error hname] at h
    rw [name_eq] at hname
    split at hname
    · cases hname
    · cases hname
      cases h
      exact hle
  | ok first v =>
    rw [bind_of_ok hname] at h
    exact index_le_of_dots ((Orderly.evolves_ok name hname).closedAt hs) h

instance : Concurs parenCode := .of_halts _

instance (operator : String) (c : Connective) : Concurs (valueList operator c) := .of_halts _

instance (operator : String) (token : Token) : Concurs (restrictionValue operator token) := by
  unfold restrictionValue
  refine .current (fun value => ?_) fun {k s value} hs hvalue => ?_
  · dsimp only
    split
    · exact .of_total fun s => ⟨_, _, rfl⟩
    · infer_instance
    · have hmember : Concurs (do
          let text ← dottedName
          return .literal (← close (.ofToken token)) operator text .enum : Parser Restriction) :=
        inferInstance
      have hplain : Concurs (do
          let _ ← advance
          return .reference (← close (.ofToken token)) operator value.text : Parser Restriction) :=
        .of_total fun s => ⟨_, _, rfl⟩
      have hname := hmember.peek .dot hplain
      infer_instance
  · have hvariable : ∃ a u, (do
        if (← Parser.peek 1).kind = .symbol .dot then
          let text ← dottedName
          return .literal (← close (.ofToken token)) operator text .enum
        else
          let _ ← advance
          return .reference (← close (.ofToken token)) operator value.text : Parser Restriction) s =
        .ok a u := by
      rw [bind_of_ok (peek_eq 1 s), if_neg (hs.symbol_lookahead _)]
      exact ⟨_, _, rfl⟩
    have hname := isName_of_closingWords hvalue
    simp only [closingWords, List.mem_cons, List.not_mem_nil, or_false] at hvalue
    rcases hvalue with hvalue | hvalue <;> simpa only [hvalue, hname, if_true] using hvariable

/-- What is behind an operator is read in both texts or in neither. -/
theorem advance_bind {f : Token → Parser α} [∀ a, Concurs (f a)] {a : α} (hst : s.Parting k o t)
    (hlt : s.cursor.seek s.cursor.index < k) (hcurrent : s.cursor.current = t.cursor.current)
    (htrials : 0 < s.trials) (h : (advance >>= f) s = .ok a u) :
    ∃ b v, (advance >>= f) t = .ok b v := by
  rw [bind_of_ok (advance_eq s)] at h
  rw [bind_of_ok (advance_eq t), ← hcurrent]
  exact succeeds (Impartial.parting_advanced hst hlt) htrials h

end Concurs

theorem operator_ne {c : Cursor} (h : c.ClosedAt k) {i : Nat} (hi : k ≤ i) :
    (c.tokenAt i).kind ∉ operatorKinds := by
  have hkinds : ∀ kind ∈ operatorKinds,
      kind.isTrivia = false ∧ kind ∉ TokenKind.endOfInput :: closingWords := by decide
  exact fun hmem => h.kind_ne hi (hkinds _ hmem).1 (hkinds _ hmem).2 rfl

theorem kind_of_restriction {a : List Restriction} (h : restriction s = .ok a u) :
    s.cursor.current.kind ∈ operatorKinds := by
  change (if s.cursor.current.kind ∈ _ then _ else _ : Parser _) s = _ at h
  simp only [operatorKinds, List.mem_append, List.mem_cons, List.not_mem_nil, or_false]
  split at h
  · next hkind => exact .inl (List.mem_append.1 hkind)
  · split at h
    · next hkind => exact .inr (.inr hkind)
    · split at h
      · next hkind => exact .inr (.inl hkind)
      · cases h

namespace Concurs

instance : Concurs restriction where
  succeeds {k o s t a u} hst htrials h := by
    rcases hst.cursor.current with ⟨heq, hlt⟩ | ⟨hseek, -⟩
    · change (if s.cursor.current.kind ∈ _ then _ else _ : Parser _) s = _ at h
      show ∃ b v, (if t.cursor.current.kind ∈ _ then _ else _ : Parser _) t = .ok b v
      rw [← heq]
      split at h
      · next hkind =>
        rw [if_pos hkind]
        exact advance_bind hst hlt heq htrials h
      next hkind =>
      rw [if_neg hkind]
      split at h
      · next hin =>
        rw [if_pos hin]
        exact advance_bind hst hlt heq htrials h
      next hin =>
      rw [if_neg hin]
      split at h
      · next hnot =>
        rw [if_pos hnot, bind_of_ok (advance_eq t)]
        rw [bind_of_ok (advance_eq s)] at h
        have hnext := Impartial.parting_advanced hst hlt
        change (if s.advanced.cursor.current.kind = _ then _ else _ : Parser _) s.advanced = _ at h
        show ∃ b v, (if t.advanced.cursor.current.kind = _ then _ else _ : Parser _) t.advanced =
          .ok b v
        rcases hnext.cursor.current with ⟨heq', hlt'⟩ | ⟨-, hword, -⟩
        · rw [← heq']
          split at h
          · next hin =>
            rw [if_pos hin]
            exact advance_bind hnext hlt' heq' htrials h
          next hin =>
          rw [if_neg hin]
          split at h
          · next hkind =>
            rw [if_pos hkind]
            exact advance_bind hnext hlt' heq' htrials h
          · cases h
        · rw [if_neg (ne_of_closingWords hword (by decide)),
            if_neg (notMem_of_closingWords hword (by decide))] at h
          cases h
      · cases h
    · have hkind := kind_of_restriction h
      exact absurd hkind (operator_ne hst.cursor.first (Nat.le_of_eq hseek.symm))

instance : Concurs connectedRestriction where
  succeeds {k o s t a u} hst htrials h := by
    rcases hst.cursor.current with ⟨heq, hlt⟩ | ⟨hseek, -⟩
    · exact advance_bind hst hlt heq htrials h
    · have hpast : k < s.advanced.cursor.index :=
        Cursor.Parting.lt_index_consume hst.cursor.first hseek
      have hclosed : s.advanced.cursor.ClosedAt k :=
        (Orderly.evolves_ok advance (advance_eq s)).closedAt hst.cursor.first
      have hkind := kind_of_restriction (s := s.advanced) h
      exact absurd hkind (operator_ne hclosed (Nat.le_of_lt (hclosed.lt_seek hpast)))

end Concurs

namespace Impartial

instance (x : List Restriction × Bool) : Impartial (joinedRestriction x) := by
  obtain ⟨found, more⟩ := x
  have hwords : ∀ kind ∈ closingWords, connective? kind = none := by decide
  unfold joinedRestriction
  refine ⟨.current (fun a => ?_) fun a b ha hb => ?_⟩
  · split <;> exact exchanges
  · rw [hwords _ ha, hwords _ hb]
    exact exchanges

instance : Impartial restrictions := by
  have hmore : ∀ x : List Restriction × Bool, Impartial
      (match x with
      | (_, open_) => do return open_ && (connective? (← current).kind).isSome) := by
    rintro ⟨found, more⟩
    have hwords : ∀ kind ∈ closingWords, connective? kind = none := by decide
    refine ⟨.current (fun a => exchanges) fun a b ha hb => .pure ?_⟩
    rw [hwords _ ha, hwords _ hb]
  have hloop := Impartial.repeatWhile Repetition.restrictions.rolls
  unfold restrictions
  infer_instance

/-! ### Constraints -/

instance (token : Token) (field declaration : Option String) :
    Impartial (predicate token field declaration) := by
  unfold predicate; infer_instance

end Impartial

theorem bindingName_of_word (hs : s.AtWord k) : bindingName s = .ok none s := by
  have hcolon : decide ((s.cursor.lookahead 2).kind = .symbol .colon) = false :=
    decide_eq_false (hs.symbol_lookahead .colon)
  show (if (s.cursor.current.isName && decide ((s.cursor.lookahead 2).kind = .symbol .colon)) = true
    then _ else _ : Parser _) s = _
  rw [hcolon, Bool.and_false, if_neg Bool.false_ne_true]
  rfl

theorem Grabs.bindingName_bind (f : Option String → Parser α) [Grabs (f none)] :
    Grabs (bindingName >>= f) where
  outruns hs := by
    rw [bind_of_ok (bindingName_of_word hs)]
    exact Grabs.outruns hs

namespace Impartial

instance : Impartial bindingName := by
  refine ⟨.current_word (fun a => ?_) fun {k o s t} hst hs ht => ?_⟩
  · refine .peek fun b c hbc => .ite ?_ exchanges exchanges
    rw [decide_eq_decide.2 (hbc .colon)]
  · exact .ok (bindingName_of_word hs) (bindingName_of_word ht) rfl hst

instance (token fieldToken : Token) (field : String) (declaration : Option String) :
    Impartial (fieldConstraint token fieldToken field declaration) := by
  have hnext : Impartial (Parser.nextIs operatorKinds) := nextIs (by decide)
  unfold fieldConstraint
  infer_instance

instance : Impartial fieldHead := by
  unfold fieldHead; infer_instance

instance (token : Token) (field : String) (declaration : Option String) :
    Impartial (fieldBinding token field declaration) := by
  cases declaration <;> unfold fieldBinding <;> infer_instance

end Impartial

instance : Grabs fieldHead := by
  unfold fieldHead
  have hfield : Grabs (do
      let fieldToken ← current
      let field ← dottedName
      return (none, fieldToken, field) : Parser (Option String × Token × String)) :=
    .of_current fun _ _ => inferInstance
  exact .bindingName_bind _

section BoundField

variable (found : List Constraint) (token : Token) (head : Option String × Token × String)

theorem exchanges_fieldBody : Exchanges AlikeHarvest
    (do
      let binding ← fieldBinding token head.2.2 head.1
      harvest (found ++ binding) (fieldConstraint token head.2.1 head.2.2 head.1) (· ++ ·))
    (do
      let binding ← fieldBinding token head.2.2 head.1
      harvest (found ++ binding) (fieldConstraint token head.2.1 head.2.2 head.1) (· ++ ·)) :=
  (exchanges (p := fieldBinding token head.2.2 head.1)).bind (fun _ => rfl) fun hab =>
    hab ▸ .harvest _ _ _

theorem exchanges_boundField :
    Exchanges AlikeHarvest (boundField found token) (boundField found token) := by
  refine .result_bind (fun r => ?_) (.attempt fieldHead) (exchanges_fieldBody found token)
    fun e e' => .pure ⟨rfl, rfl⟩
  cases r <;> infer_instance

instance : Grabs (boundField found token) := by
  refine .bind_of (fun r => ?_) (R := AlikeHarvest) fun r => ?_
  · cases r <;> infer_instance
  · cases r with
    | ok head => exact exchanges_fieldBody found token head
    | error e => exact .pure (.refl _)

end BoundField

instance (token : Token) : Impartial (evalPredicate token) := by
  unfold evalPredicate; infer_instance

instance (found : List Constraint) : Grabs (constraint found) := by
  unfold constraint
  refine .of_current fun a ha => ?_
  rw [if_neg (ne_of_closingWords ha (by decide))]
  refine .of_peek fun b hb => ?_
  rw [decide_eq_false (ne_of_closingWords ha (by decide)), Bool.false_and,
    if_neg Bool.false_ne_true]
  infer_instance

theorem exchanges_constraint (found : List Constraint) :
    Exchanges AlikeHarvest (constraint found) (constraint found) := by
  refine .current_grabs (inferInstanceAs (Grabs (constraint found))) fun token => ?_
  refine .ite .rfl (.harvest _ _ _) (.peek fun a b hab => .ite ?_ (.harvest _ _ _)
    (exchanges_boundField _ _))
  rw [decide_eq_decide.2 (hab .lparen)]

theorem exchanges_constraints : Exchanges AlikeHarvest constraints constraints := by
  have hrolls := Repetition.constraints.rolls
  unfold constraints
  refine (exchanges (p := nextIsSymbol .rparen)).bind (fun _ => rfl) fun {a b} hab => ?_
  subst hab
  refine .ite .rfl (.pure (.refl _)) ?_
  refine (exchanges_constraint []).bind .refl fun hab => ?_
  refine .repeatWhile hrolls hrolls .refl (fun {a b} hab => ?_) (fun {a b} hab => ?_) hab
  · refine (exchanges (p := nextIsSymbol .comma)).bind (fun _ => rfl) fun {c d} hcd => .pure ?_
    rw [hcd, ← Option.not_isSome, ← Option.not_isSome, hab.failure]
  · refine (exchanges (p := advance)).bind (fun _ => rfl) fun _ => ?_
    rw [hab.found]
    exact exchanges_constraint b.found

end Rulebook.Parser
