import Rulebook.Proofs.Abreast
import Rulebook.Proofs.Eager

/-!
# Rules for twins

How twins are put together, and the primitives as their own twins. A production that takes a token
has nothing to take where the second text is cut off, so it only has to be compared where the next
tokens are alike.
-/

namespace Rulebook.Parser

variable {α β : Type} {T : Readings} {R : α → α → Prop} {R' : β → β → Prop}
  {K : α → State → Prop} {K' : β → State → Prop}

theorem doomed_of_eager {q : Parser α} [Eager q] [Orderly q] {t : State} (ht : t.Steady)
    (hend : t.AtEnd) : Doomed K (q t) := by
  cases h : q t with
  | ok b u =>
    have hlt := Eager.shortens q ht.hidden h
    rw [show t.cursor.ahead = [] from hend] at hlt
    exact absurd hlt (Nat.not_lt_zero _)
  | error f u =>
    have htu := Orderly.evolves_error q h
    have hle := htu.length_ahead_le
    rw [show t.cursor.ahead = [] from hend] at hle
    exact .inr (.inl ⟨htu.steady ht,
      State.AtEnd.spent (List.length_eq_zero_iff.1 (Nat.le_zero.1 hle))⟩)

/-! ### Sequences -/

theorem Twin.live {p q : Parser α} (h : Twin T R p q K) : LiveTwin T R p q K :=
  fun _ _ hst _ => h hst

theorem Twin.of_live {p q : Parser α} [Eager q] [Orderly q] (h : LiveTwin T R p q K) :
    Twin T R p q K := by
  intro s t hst
  rcases hst.live_or_cut with hlive | ⟨hcut, hend, -⟩
  · exact h hst hlive
  · exact .astray hcut (doomed_of_eager (hst.steady hcut) hend)

theorem Twin.mono {R' : α → α → Prop} {K' : α → State → Prop} {p q : Parser α}
    (h : Twin T R p q K) (hR : ∀ a b, R a b → R' a b) (hK : ∀ b u, K b u → K' b u) :
    Twin T R' p q K' :=
  fun _ _ hst => (h hst).mono id hR hK

theorem Twin.weaken {p q : Parser α} (h : Twin T R p q) : Twin T R p q K :=
  h.mono (fun _ _ hab => hab) fun _ _ hno => hno.elim

theorem Twin.pure {a b : α} (hab : R a b) : Twin T R (pure a) (pure b) K :=
  fun _ _ hst => .ok rfl rfl hab hst

theorem Twin.bind_astray {p q : Parser α} {f g : α → Parser β} (h : Twin T R p q K)
    [∀ b, Orderly (g b)] (hf : ∀ {a b}, R a b → Twin T R' (f a) (g b) K')
    (hk : ∀ b u, u.Steady → K b u → Doomed K' (g b u)) : Twin T R' (p >>= f) (q >>= g) K' :=
  fun _ _ hst => (h hst).bind (fun hab huv _ _ => hf hab huv) hk

theorem Agree.bind_cases {cut : Prop} {p q : Parser α} {f g : α → Parser β} {s t : State}
    (h : Agree T cut R K (p s) (q t)) (hg : ∀ b, Orderly (g b))
    (hf : ∀ {a b u v}, R a b → T.Abreast u v → p s = .ok a u → q t = .ok b v →
      Agree T cut R' K' (f a u) (g b v))
    (hk : ∀ b v, v.Steady → K b v → Doomed K' (g b v)) :
    Agree T cut R' K' ((p >>= f) s) ((q >>= g) t) :=
  h.bind hf hk

theorem Twin.bind_cases {p q : Parser α} {f g : α → Parser β} (h : Twin T R p q K)
    (hg : ∀ b, Orderly (g b)) (hf : ∀ {a b}, R a b → Twin T R' (f a) (g b) K')
    (hk : ∀ b u, u.Steady → K b u → Doomed K' (g b u)) : Twin T R' (p >>= f) (q >>= g) K' :=
  h.bind_astray hf hk

theorem Twin.bind {p q : Parser α} {f g : α → Parser β} (h : Twin T R p q)
    [∀ b, Orderly (g b)] (hf : ∀ {a b}, R a b → Twin T R' (f a) (g b) K') :
    Twin T R' (p >>= f) (q >>= g) K' :=
  h.bind_astray hf fun _ _ _ hno => hno.elim

theorem LiveTwin.bind {p q : Parser α} {f g : α → Parser β} (h : LiveTwin T R p q)
    [∀ b, Orderly (g b)] (hf : ∀ {a b}, R a b → Twin T R' (f a) (g b) K') :
    LiveTwin T R' (p >>= f) (q >>= g) K' :=
  fun _ _ hst hlive => (h hst hlive).bind (fun hab huv _ _ => hf hab huv) fun _ _ _ hno => hno.elim

theorem LiveTwin.bind_cases {p q : Parser α} {f g : α → Parser β} (h : LiveTwin T R p q)
    (hg : ∀ b, Orderly (g b)) (hf : ∀ {a b}, R a b → Twin T R' (f a) (g b) K') :
    LiveTwin T R' (p >>= f) (q >>= g) K' :=
  h.bind hf

theorem Agree.map {cut : Prop} {p q : Parser α} {f g : α → β} {s t : State}
    (h : Agree T cut R K (p s) (q t)) (hf : ∀ {a b}, R a b → R' (f a) (g b))
    (hk : ∀ b u, K b u → K' (g b) u) : Agree T cut R' K' ((f <$> p) s) ((g <$> q) t) := by
  rw [map_eq_bind, map_eq_bind]
  exact h.bind (fun hab huv _ _ => .ok rfl rfl (hf hab) huv) fun b u hu hb => .inr ⟨hu, hk b u hb⟩

theorem Twin.map {p q : Parser α} {f g : α → β} (h : Twin T R p q K)
    (hf : ∀ {a b}, R a b → R' (f a) (g b)) (hk : ∀ b u, K b u → K' (g b) u) :
    Twin T R' (f <$> p) (g <$> q) K' :=
  fun _ _ hst => (h hst).map hf hk

theorem Twin.nested (n : Nesting) {p q : Parser α} (h : Twin T R p q) :
    Twin T R (nested n p) (nested n q) := fun s t hst => by
  by_cases hroom : n.frames ≤ s.stack.room
  · have hroom' : n.frames ≤ t.stack.room := hst.stack ▸ hroom
    have hwithin : T.Abreast (s.within n) (t.within n) :=
      { hst with stack := congrArg (Stack.take · n) hst.stack }
    cases h hwithin with
    | ok hx hy hab huv =>
      exact .ok (nested_of_ok hroom hx) (nested_of_ok hroom' hy) hab { huv with stack := hst.stack }
    | error hx hy hfg huv =>
      exact .error (nested_of_error hroom hx) (nested_of_error hroom' hy) hfg
        { huv with stack := hst.stack }
    | astray hcut hy =>
      refine .astray hcut ?_
      cases hq : q (t.within n) with
      | ok b u =>
        rw [hq] at hy
        rw [nested_of_ok hroom' hq]
        exact hy.imp_right fun h => h.2.elim
      | error f u =>
        rw [hq] at hy
        rw [nested_of_error hroom' hq]
        refine hy.imp_right (.imp_left fun ⟨hu, hspent⟩ => ?_)
        exact ⟨⟨hu.hidden, hu.uncapped, hu.honest⟩, hspent⟩
  · have hroom' : ¬n.frames ≤ t.stack.room := hst.stack ▸ hroom
    exact .error (nested_of_deep p (Nat.lt_of_not_le hroom))
      (nested_of_deep q (Nat.lt_of_not_le hroom')) (.other (by simp)) hst

theorem Twin.byLevels {f g : Nat → Parser α} (h : ∀ n, Twin T R (f n) (g n)) :
    Twin T R (levels >>= f) (levels >>= g) := fun s t hst => by
  rw [bind_of_ok (levels_eq s), bind_of_ok (levels_eq t), ← hst.stack]
  exact h (s.stack.frames + 1) hst

/-- A sequence whose first part does not go astray. -/
theorem Agree.sure {cut : Prop} {p q : Parser α} {f g : α → Parser β} {s t : State}
    (h : Agree T False R K (p s) (q t))
    (hf : ∀ {a b u v}, R a b → T.Abreast u v → p s = .ok a u → q t = .ok b v →
      Agree T cut R' K' (f a u) (g b v)) : Agree T cut R' K' ((p >>= f) s) ((q >>= g) t) := by
  cases h with
  | ok hx hy hab hst =>
    rw [bind_of_ok hx, bind_of_ok hy]
    exact hf hab hst hx hy
  | error hx hy hfg hst => exact .error (bind_of_error hx) (bind_of_error hy) hfg hst
  | astray hno => exact hno.elim

/-- What does not go astray agrees in any case. -/
theorem Agree.weaken {cut : Prop} {K' : α → State → Prop} {x y : EStateM.Result Failure State α}
    (h : Agree T False R K x y) : Agree T cut R K' x y := by
  cases h with
  | ok hx hy hab hst => exact .ok hx hy hab hst
  | error hx hy hfg hst => exact .error hx hy hfg hst
  | astray hno => exact hno.elim

theorem Twin.ite {c d : Prop} [Decidable c] [Decidable d] {p q p' q' : Parser α} (hcd : c ↔ d)
    (h : Twin T R p q K) (h' : Twin T R p' q' K) :
    Twin T R (if c then p else p') (if d then q else q') K := by
  by_cases hd : d
  · rw [if_pos hd, if_pos (hcd.2 hd)]; exact h
  · rw [if_neg hd, if_neg fun hc => hd (hcd.1 hc)]; exact h'

theorem LiveTwin.ite {c d : Prop} [Decidable c] [Decidable d] {p q p' q' : Parser α} (hcd : c ↔ d)
    (h : LiveTwin T R p q K) (h' : LiveTwin T R p' q' K) :
    LiveTwin T R (if c then p else p') (if d then q else q') K := by
  by_cases hd : d
  · rw [if_pos hd, if_pos (hcd.2 hd)]; exact h
  · rw [if_neg hd, if_neg fun hc => hd (hcd.1 hc)]; exact h'

/-! ### Looking and consuming -/

theorem LiveTwin.current {f g : Token → Parser β}
    (h : ∀ {a b : Token}, a.Like T.likeness b → LiveTwin T R' (f a) (g b) K') :
    LiveTwin T R' (current >>= f) (current >>= g) K' :=
  fun _ _ hst hlive => h hlive hst hlive

/-- The token after the next one is a given symbol in both readings or in none, unless it may follow
where the second text is cut off. -/
theorem LiveTwin.peek {f g : Token → Parser β}
    (h : ∀ {a b : Token},
      (∀ k, .symbol k ∉ borderKinds → (a.kind = .symbol k ↔ b.kind = .symbol k)) →
      LiveTwin T R' (f a) (g b) K') :
    LiveTwin T R' (peek 1 >>= f) (peek 1 >>= g) K' := by
  intro s t hst hlive
  refine h
    (fun k hk => hst.symbol_lookahead (fun hcut => ?_) fun hmem => hk (T.borders_subset hmem))
    hst hlive
  exact List.length_pos_iff.2 (hst.ahead_ne_nil hcut hlive)

theorem LiveTwin.advance : LiveTwin T (Token.Like T.likeness) advance advance :=
  fun _ _ hst hlive => .ok rfl rfl hlive (hst.advanced hlive)

theorem LiveTwin.fail {e e' : ParseError} (h : e.Like T.likeness e') :
    LiveTwin T R (fail e) (fail e') K :=
  fun _ _ hst _ => .error rfl rfl (.recognition (.inr h)) hst

theorem Twin.failAt {e e' : Token → ParseError}
    (h : ∀ {a b : Token}, a.Like T.likeness b → (e a).Like T.likeness (e' b)) :
    Twin T R (current >>= fun a => Parser.fail (e a))
      (current >>= fun b => Parser.fail (e' b)) K := by
  intro s t hst
  rcases hst.live_or_cut with hlive | ⟨hcut, -, -⟩
  · exact .error rfl rfl (.recognition (.inr (h hlive))) hst
  · exact .error rfl rfl (.recognition (.inl hcut)) hst

theorem Agree.expect_live {cut : Prop} {K : Token → State → Prop} (kind : TokenKind) {s t : State}
    (hst : T.Abreast s t) (hlive : T.Live s t) :
    Agree T cut (Token.Like T.likeness) K (Parser.expect kind s) (Parser.expect kind t) := by
  rw [expect_eq, expect_eq, hlive.kind]
  split
  · exact .ok rfl rfl hlive (hst.advanced hlive)
  · exact .error rfl rfl (.recognition (.inr (.mismatchedToken kind hlive))) hst

theorem LiveTwin.expect (kind : TokenKind) :
    LiveTwin T (Token.Like T.likeness) (expect kind) (expect kind) :=
  fun _ _ hst hlive => .expect_live kind hst hlive

theorem LiveTwin.keyword (k : Keyword) :
    LiveTwin T (Token.Like T.likeness) (keyword k) (keyword k) :=
  .expect _

/-- A kind of token that neither follows where the second text is cut off nor is its end. -/
theorem Agree.expect {kind : TokenKind} (hkind : kind ∉ .endOfInput :: T.borders) {s t : State}
    (hst : T.Abreast s t) :
    Agree T False (Token.Like T.likeness) (fun _ _ => False) (expect kind s) (expect kind t) := by
  rcases hst.live_or_cut with hlive | ⟨hcut, hend, hfence⟩
  · exact .expect_live kind hst hlive
  · rw [List.mem_cons, not_or] at hkind
    have hs : s.cursor.current.kind ≠ kind := fun heq => hkind.2 (heq ▸ hfence)
    have ht : t.cursor.current.kind ≠ kind := by
      rw [hst.kind_of_atEnd hend]
      exact Ne.symm hkind.1
    rw [expect_eq, expect_eq, if_neg hs, if_neg ht]
    exact .error rfl rfl (.recognition (.inl hcut)) hst

theorem Twin.symbol (k : Symbol) : Twin T (Token.Like T.likeness) (symbol k) (symbol k) :=
  .of_live (.expect _)

theorem Twin.keyword (k : Keyword) : Twin T (Token.Like T.likeness) (keyword k) (keyword k) :=
  .of_live (.keyword k)

theorem LiveTwin.name : LiveTwin T (Token.Like T.likeness) name name :=
  .current fun hab => .ite (by rw [hab.isName]) .advance (.fail (.mismatchedToken .identifier hab))

theorem Twin.name : Twin T (Token.Like T.likeness) name name :=
  .of_live .name

/-! ### Tests -/

/-- Two tests give the same answer, which is yes only if the next tokens are alike; or the second
one is no, where the second text is cut off, and the state is one of `K`. -/
def Tests (T : Readings) (K : State → Prop) (m m' : Parser Bool) : Prop :=
  ∀ ⦃s t : State⦄, T.Abreast s t →
    (∃ c, m s = .ok c s ∧ m' t = .ok c t ∧ (c = true → T.Live s t)) ∨
      T.cut ∧ m' t = .ok false t ∧ K t

namespace Tests

variable {m m' : Parser Bool} {f g : Token → Bool}

/-- A test of the next token that the end of the text fails. -/
theorem of_current {K : State → Prop} (hm : ∀ s, m s = .ok (f s.cursor.current) s)
    (hm' : ∀ s, m' s = .ok (g s.cursor.current) s)
    (hlive : ∀ a b : Token, a.Like T.likeness b → f a = g b)
    (hend : ∀ b : Token, b.kind = .endOfInput → g b = false)
    (hcut : ∀ (t : State) (a : Token), a.kind ∈ T.borders → t.Steady → t.AtEnd →
      f a = false ∨ K t) :
    Tests T K m m' := by
  intro s t hst
  rcases hst.live_or_cut with hlive' | ⟨hc, hend', hfence⟩
  · refine .inl ⟨f s.cursor.current, hm s, ?_, fun _ => hlive'⟩
    rw [hlive _ _ hlive']
    exact hm' t
  · have hno : m' t = .ok false t := by
      rw [hm' t, hend _ (hst.kind_of_atEnd hend')]
    rcases hcut t _ hfence (hst.steady hc) hend' with hf | hk
    · refine .inl ⟨false, ?_, hno, fun h => (by cases h)⟩
      rw [hm s, hf]
    · exact .inr ⟨hc, hno, hk⟩

theorem nextIs {kinds : List TokenKind} (h : ∀ k ∈ .endOfInput :: T.borders, k ∉ kinds) :
    Tests T (fun _ => False) (nextIs kinds) (nextIs kinds) :=
  of_current (f := fun t => decide (t.kind ∈ kinds)) (g := fun t => decide (t.kind ∈ kinds))
    (fun _ => rfl) (fun _ => rfl) (fun _ _ hab => by rw [hab.kind])
    (fun b hb => decide_eq_false (hb ▸ h _ List.mem_cons_self))
    fun _ a ha _ _ => .inl (decide_eq_false (h _ (List.mem_cons_of_mem _ ha)))

theorem nextIsSymbol {k : Symbol} (hk : .symbol k ∉ T.borders) :
    Tests T (fun _ => False) (nextIsSymbol k) (nextIsSymbol k) :=
  of_current (f := fun t => decide (t.kind = .symbol k)) (g := fun t => decide (t.kind = .symbol k))
    (fun _ => rfl) (fun _ => rfl) (fun _ _ hab => by rw [hab.kind])
    (fun b hb => decide_eq_false (by rw [hb]; simp))
    fun _ a ha _ _ => .inl (decide_eq_false fun heq => hk (heq ▸ ha))

/-- A test for a symbol that may follow where the second text is cut off. -/
theorem nextIsSymbol_end (k : Symbol) :
    Tests T State.AtEnd (Parser.nextIsSymbol k) (Parser.nextIsSymbol k) :=
  of_current (f := fun t => decide (t.kind = .symbol k)) (g := fun t => decide (t.kind = .symbol k))
    (fun _ => rfl) (fun _ => rfl) (fun _ _ hab => by rw [hab.kind])
    (fun b hb => decide_eq_false (by rw [hb]; simp)) fun _ _ _ _ hend => .inr hend

theorem nextIsKeyword {k : Keyword} (hk : .keyword k ∉ T.borders) :
    Tests T (fun _ => False) (nextIsKeyword k) (nextIsKeyword k) :=
  of_current (f := fun t => decide (t.kind = .keyword k))
    (g := fun t => decide (t.kind = .keyword k))
    (fun _ => rfl) (fun _ => rfl) (fun _ _ hab => by rw [hab.kind])
    (fun b hb => decide_eq_false (by rw [hb]; simp))
    fun _ a ha _ _ => .inl (decide_eq_false fun heq => hk (heq ▸ ha))

theorem nextIsNot {kinds : List TokenKind} (h : ∀ k ∈ .endOfInput :: T.borders, k ∈ kinds) :
    Tests T (fun _ => False) (do return !(← Parser.nextIs kinds))
      (do return !(← Parser.nextIs kinds)) :=
  of_current (f := fun t => !decide (t.kind ∈ kinds)) (g := fun t => !decide (t.kind ∈ kinds))
    (fun _ => rfl) (fun _ => rfl) (fun _ _ hab => by rw [hab.kind])
    (fun b hb => by rw [decide_eq_true (hb ▸ h _ List.mem_cons_self)]; rfl)
    fun _ a ha _ _ => .inl (by rw [decide_eq_true (h _ (List.mem_cons_of_mem _ ha))]; rfl)

theorem nextIsNot_end {kinds : List TokenKind} (h : .endOfInput ∈ kinds) :
    Tests T State.AtEnd (do return !(← Parser.nextIs kinds))
      (do return !(← Parser.nextIs kinds)) :=
  of_current (f := fun t => !decide (t.kind ∈ kinds)) (g := fun t => !decide (t.kind ∈ kinds))
    (fun _ => rfl) (fun _ => rfl) (fun _ _ hab => by rw [hab.kind])
    (fun b hb => by rw [decide_eq_true (hb ▸ h)]; rfl)
    fun _ _ _ _ hend => .inr hend

theorem mono {K K' : State → Prop} (h : Tests T K m m') (hk : ∀ t, t.Steady → K t → K' t) :
    Tests T K' m m' := by
  intro s t hst
  rcases h hst with hsame | ⟨hcut, ht, hkt⟩
  · exact .inl hsame
  · exact .inr ⟨hcut, ht, hk t (hst.steady hcut) hkt⟩

theorem of_uncut {K : State → Prop} (h : Tests T K m m') (hcut : ¬T.cut) :
    Tests T (fun _ => False) m m' :=
  fun _ _ hst => .inl ((h hst).resolve_right fun hno => hcut hno.1)

theorem and {K : State → Prop} (h : Tests T K m m') {x y : Bool} (hxy : x = y) :
    Tests T K (do return x && (← m)) (do return y && (← m')) := by
  subst hxy
  intro s t hst
  rcases h hst with ⟨c, hs, ht, hlive⟩ | ⟨hcut, ht, hk⟩
  · refine .inl ⟨x && c, ?_, ?_, fun hc => hlive ?_⟩
    · rw [bind_of_ok hs]; rfl
    · rw [bind_of_ok ht]; rfl
    · cases x
      · cases hc
      · exact hc
  · refine .inr ⟨hcut, ?_, hk⟩
    rw [bind_of_ok ht, Bool.and_false]
    rfl

theorem ite {K₀ : State → Prop} {p p' q q' : Parser α} (h : Tests T K₀ m m')
    (hp : LiveTwin T R p p' K) (hq : Twin T R q q' K)
    (hk : ∀ t, t.Steady → K₀ t → Doomed K (q' t)) :
    Twin T R (m >>= fun c => if c then p else q) (m' >>= fun c => if c then p' else q') K := by
  intro s t hst
  rcases h hst with ⟨c, hs, ht, hlive⟩ | ⟨hcut, ht, hk'⟩
  · rw [bind_of_ok hs, bind_of_ok ht]
    cases c with
    | true => exact hp hst (hlive rfl)
    | false => exact hq hst
  · refine .astray hcut ?_
    rw [bind_of_ok ht]
    exact hk t (hst.steady hcut) hk'

/-- A choice by a test that cannot go astray. -/
theorem choose {p p' q q' : Parser α} (h : Tests T (fun _ => False) m m')
    (hp : LiveTwin T R p p' K) (hq : Twin T R q q' K) :
    Twin T R (m >>= fun c => if c then p else q) (m' >>= fun c => if c then p' else q') K :=
  h.ite hp hq fun _ _ hno => hno.elim

end Tests

/-! ### Optional tokens -/

theorem accept_of_ne {kind : TokenKind} {s : State} (h : s.cursor.current.kind ≠ kind) :
    accept kind s = .ok none s := by
  unfold accept
  refine (bind_of_ok (current_eq s)).trans ?_
  rw [if_neg h]
  rfl

theorem accept_of_eq {kind : TokenKind} {s : State} (h : s.cursor.current.kind = kind) :
    accept kind s = .ok (some s.cursor.current) s.advanced := by
  unfold accept
  refine (bind_of_ok (current_eq s)).trans ?_
  rw [if_pos h]
  rfl

theorem Agree.accept {kind : TokenKind} (hkind : kind ∉ .endOfInput :: T.borders) {s t : State}
    (hst : T.Abreast s t) :
    Agree T False (Option.Rel (Token.Like T.likeness)) (fun _ _ => False) (accept kind s)
      (accept kind t) := by
  rcases hst.live_or_cut with hlive | ⟨-, hend, hfence⟩
  · refine Agree.step (current_eq s) (current_eq t) ?_
    rw [hlive.kind]
    split
    · exact .ok rfl rfl (.some hlive) (hst.advanced hlive)
    · exact .ok rfl rfl .none hst
  · rw [List.mem_cons, not_or] at hkind
    have hs : s.cursor.current.kind ≠ kind := fun heq => hkind.2 (heq ▸ hfence)
    have ht : t.cursor.current.kind ≠ kind := fun heq =>
      hkind.1 (heq.symm.trans (hst.kind_of_atEnd hend))
    exact .ok (accept_of_ne hs) (accept_of_ne ht) .none hst

theorem Agree.skip {k : Symbol} (hk : .symbol k ∉ T.borders) {s t : State} (hst : T.Abreast s t) :
    Agree T False (fun _ _ => True) (fun _ _ => False) (skip k s) (skip k t) := by
  have hkind : TokenKind.symbol k ∉ .endOfInput :: T.borders := by
    rw [List.mem_cons, not_or]
    exact ⟨by simp, hk⟩
  exact (Agree.accept hkind hst).sure fun _ huv _ _ => .ok rfl rfl trivial huv

theorem Twin.skip {k : Symbol} (hk : .symbol k ∉ T.borders) :
    Twin T (fun _ _ => True) (skip k) (skip k) :=
  fun _ _ hst => (Agree.skip hk hst).weaken

/-- A symbol that may follow where the second text is cut off is skipped in the first reading
alone. -/
theorem Twin.skip_end (k : Symbol) :
    Twin T (fun _ _ => True) (Parser.skip k) (Parser.skip k) fun _ => State.AtEnd := by
  intro s t hst
  rcases hst.live_or_cut with hlive | ⟨hcut, hend, -⟩
  · by_cases hk : t.cursor.current.kind = .symbol k
    · exact .ok (bind_of_ok (accept_of_eq (hlive.kind.trans hk))) (bind_of_ok (accept_of_eq hk))
        trivial (hst.advanced hlive)
    · have hk' : s.cursor.current.kind ≠ .symbol k := fun heq => hk (hlive.kind.symm.trans heq)
      exact .ok (bind_of_ok (accept_of_ne hk')) (bind_of_ok (accept_of_ne hk)) trivial hst
  · refine .astray hcut ?_
    have hne : t.cursor.current.kind ≠ .symbol k := by
      rw [hst.kind_of_atEnd hend]
      simp
    rw [show Parser.skip k t = .ok () t from bind_of_ok (accept_of_ne hne)]
    exact .inr ⟨hst.steady hcut, hend⟩

/-- A symbol is skipped before a production that takes a token. -/
theorem Twin.skip_bind {k : Symbol} {p q : Parser α} [Eager q] [Orderly q] (h : Twin T R p q K) :
    Twin T R (Parser.skip k >>= fun _ => p) (Parser.skip k >>= fun _ => q) K :=
  .bind_astray (.skip_end k) (fun _ => h) fun _ _ hu hend => doomed_of_eager hu hend

/-! ### Repetition -/

/-- A repetition whose rounds take a token or are the last one. -/
structure Rolls (more : α → Parser Bool) (body : α → Parser α) : Prop where
  asks : ∀ a s, ∃ c, more a s = .ok c s
  gains : ∀ {a b : α} {s u : State}, more a s = .ok true s → body a s = .ok b u →
    u.cursor.rest.length < s.cursor.rest.length ∨ more b u = .ok false u

namespace Rolls

variable {more : α → Parser Bool} {body : α → Parser α}

theorem of_eager [∀ a, Eager (body a)] [∀ a, Orderly (body a)]
    (h : ∀ a s, ∃ c, more a s = .ok c s) : Rolls more body where
  asks := h
  gains {a _ _ _} _ hbody :=
    .inl ((Orderly.evolves_ok (body a) hbody).length_rest_lt (Eager.takes (body a) hbody))

/-- A repetition whose rounds begin with a token. -/
theorem of_advance {f : α → Token → Parser α} [∀ a t, Orderly (f a t)]
    (hbody : ∀ a, body a = advance >>= f a) (h : ∀ a s, ∃ c, more a s = .ok c s)
    (hk : ∀ a s, more a s = .ok true s → s.cursor.current.kind ≠ .endOfInput) :
    Rolls more body where
  asks := h
  gains {a b s u} hmore h := by
    rw [hbody] at h
    have htakes := (EagerFrom.bind_left (f := f a) (.advance (hk a s hmore))).takes h
    exact .inl ((Orderly.evolves_ok _ h).length_rest_lt htakes)

theorem rounds_eq (h : Rolls more body) {n m : Nat} {a : α} {s : State}
    (hn : s.cursor.rest.length < n) (hm : s.cursor.rest.length < m) :
    rounds more body n a s = rounds more body m a s := by
  induction n generalizing m a s with
  | zero => exact absurd hn (Nat.not_lt_zero _)
  | succ n ih =>
    obtain ⟨m, rfl⟩ : ∃ k, m = k + 1 := ⟨m - 1, by omega⟩
    obtain ⟨c, hc⟩ := h.asks a s
    have hrounds : ∀ k, rounds more body (k + 1) a s =
        (if c then (body a >>= fun b => rounds more body k b) else pure a : Parser α) s :=
      fun k => bind_of_ok hc
    rw [hrounds, hrounds]
    cases c with
    | false => rfl
    | true =>
      rw [if_pos rfl, if_pos rfl]
      cases hbody : body a s with
      | error f u => rw [bind_of_error hbody, bind_of_error hbody]
      | ok b u =>
        rw [bind_of_ok hbody, bind_of_ok hbody]
        rcases h.gains hc hbody with hlt | hstop
        · exact ih (by omega) (by omega)
        · have hdone : ∀ k, rounds more body k b u = .ok b u := by
            intro k
            cases k with
            | zero => rfl
            | succ k => exact bind_of_ok hstop
          rw [hdone, hdone]

end Rolls

/-- A repetition that is astray and stops. -/
theorem doomed_repeatWhile {more : α → Parser Bool} {body : α → Parser α} {a : α} {t : State}
    (ht : t.Steady) (hk : K a t) (h : more a t = .ok false t) :
    Doomed K (repeatWhile a more body t) := by
  have heq : repeatWhile a more body t = .ok a t := bind_of_ok h
  rw [heq]
  exact .inr ⟨ht, hk⟩

section Repeat

variable {more more' : α → Parser Bool} {body body' : α → Parser α}

/-- Both readings ask for the same answer and, if it is yes, agree on the round; or the second text
is at its end and stops there. -/
def Rounds (T : Readings) (cut : Prop) (R : α → α → Prop) (K : α → State → Prop)
    (more more' : α → Parser Bool) (body body' : α → Parser α) : Prop :=
  ∀ ⦃a b : α⦄ ⦃s t : State⦄, R a b → T.Abreast s t →
    (∃ c, more a s = .ok c s ∧ more' b t = .ok c t ∧
      (c = true → Agree T cut R K (body a s) (body' b t))) ∨
    (T.cut ∧ cut) ∧ more' b t = .ok false t ∧ K b t

theorem Agree.rounds {cut : Prop} [∀ a, Orderly (more' a)] [∀ a, Orderly (body' a)]
    (hround : Rounds T cut R K more more' body body')
    (hstop : ∀ b u, u.Steady → K b u → more' b u = .ok false u) (n : Nat) {a b : α} {s t : State}
    (hab : R a b) (hst : T.Abreast s t) :
    Agree T cut R K (rounds more body n a s) (rounds more' body' n b t) := by
  induction n generalizing a b s t with
  | zero => exact .ok rfl rfl hab hst
  | succ n ih =>
    unfold Parser.rounds
    rcases hround hab hst with ⟨c, hs, ht, hbody⟩ | ⟨⟨hc, hcut⟩, ht, hk⟩
    · rw [bind_of_ok hs, bind_of_ok ht]
      cases c with
      | false => exact .ok rfl rfl hab hst
      | true =>
        refine (hbody rfl).bind (fun hcd huv _ _ => ih hcd huv) fun d u hu hd => ?_
        have hdone : Parser.rounds more' body' n d u = .ok d u := by
          cases n with
          | zero => rfl
          | succ n => exact bind_of_ok (hstop d u hu hd)
        rw [hdone]
        exact .inr ⟨hu, hd⟩
    · refine .astray hcut ?_
      rw [bind_of_ok ht]
      exact .inr ⟨hst.steady hc, hk⟩

theorem Agree.repeatWhile {cut : Prop} [∀ a, Orderly (more' a)] [∀ a, Orderly (body a)]
    [∀ a, Orderly (body' a)] (hrolls : Rolls more body) (hrolls' : Rolls more' body')
    (hround : Rounds T cut R K more more' body body')
    (hstop : ∀ b u, u.Steady → K b u → more' b u = .ok false u) {a b : α} {s t : State}
    (hab : R a b) (hst : T.Abreast s t) :
    Agree T cut R K (repeatWhile a more body s) (repeatWhile b more' body' t) := by
  let n := max (s.cursor.remaining + 1) (t.cursor.remaining + 1)
  have hs : Parser.repeatWhile a more body s = Parser.rounds more body n a s :=
    hrolls.rounds_eq (Nat.lt_succ_of_le (Nat.le_of_eq s.cursor.length_rest))
      (Nat.lt_of_lt_of_le (Nat.lt_succ_of_le (Nat.le_of_eq s.cursor.length_rest))
        (Nat.le_max_left _ _))
  have ht : Parser.repeatWhile b more' body' t = Parser.rounds more' body' n b t :=
    hrolls'.rounds_eq (Nat.lt_succ_of_le (Nat.le_of_eq t.cursor.length_rest))
      (Nat.lt_of_lt_of_le (Nat.lt_succ_of_le (Nat.le_of_eq t.cursor.length_rest))
        (Nat.le_max_right _ _))
  rw [hs, ht]
  exact Agree.rounds (R := R) (K := K) hround hstop n hab hst

theorem Twin.repeatWhile [∀ a, Orderly (more' a)] [∀ a, Orderly (body a)] [∀ a, Orderly (body' a)]
    (hrolls : Rolls more body) (hrolls' : Rolls more' body')
    (hmore : ∀ {a b}, R a b → Tests T (K b) (more a) (more' b))
    (hbody : ∀ {a b}, R a b → LiveTwin T R (body a) (body' b) K)
    (hstop : ∀ b u, u.Steady → K b u → more' b u = .ok false u) {a b : α} (hab : R a b) :
    Twin T R (repeatWhile a more body) (repeatWhile b more' body') K := by
  refine fun s t hst => .repeatWhile hrolls hrolls' (fun c d u v hcd huv => ?_) hstop hab hst
  rcases hmore hcd huv with ⟨answer, hu, hv, hlive⟩ | ⟨hcut, hv, hk⟩
  · exact .inl ⟨answer, hu, hv, fun h => hbody hcd huv (hlive h)⟩
  · exact .inr ⟨⟨hcut, hcut⟩, hv, hk⟩

end Repeat

end Rulebook.Parser
