import Rulebook.Proofs.Alongside
import Rulebook.Proofs.Endings
import Rulebook.Proofs.Repetitions

/-!
# Conditions before different closing words

The conditions of a rule end at `then`, those of a query at `end`. Both words are names, and no test
of the grammar of conditions tells one from the other. So two texts that are the same up to such a
word are read in step, until the first reading goes past the word or complains.

Behind the word no token of either text belongs to conditions. A trial that goes past it fails in
both texts, or what is tried is read afterwards and goes past it, too.
-/

namespace Rulebook

def closingWords : List TokenKind := [.keyword .then_, .keyword .end_]

namespace Cursor

structure ClosedAt (c : Cursor) (k : Nat) : Prop where
  word : (c.tokenAt k).kind ∈ closingWords
  behind : ∀ i, k < i → (c.tokenAt i).isTrivia = true ∨
    (c.tokenAt i).kind ∈ TokenKind.endOfInput :: closingWords

namespace ClosedAt

variable {c : Cursor} {k i : Nat}

theorem lt (h : c.ClosedAt k) : k < c.front.size := by
  refine Nat.lt_of_not_le fun hle => ?_
  have hword := h.word
  rw [tokenAt_of_le hle, kind_last] at hword
  exact absurd hword (by decide)

theorem not_trivia (h : c.ClosedAt k) : (c.tokenAt k).isTrivia = false := by
  have hwords : ∀ kind ∈ closingWords, kind.isTrivia = false := by decide
  exact hwords _ h.word

theorem kind_ne (h : c.ClosedAt k) (hi : k ≤ i) {kind : TokenKind} (htrivia : kind.isTrivia = false)
    (hkind : kind ∉ TokenKind.endOfInput :: closingWords) : (c.tokenAt i).kind ≠ kind := by
  rintro rfl
  rcases Nat.eq_or_lt_of_le hi with rfl | hlt
  · exact hkind (List.mem_cons_of_mem _ h.word)
  · rcases h.behind i hlt with hi | hi
    · exact absurd (hi.symm.trans htrivia) (by decide)
    · exact hkind hi

theorem symbol_ne (h : c.ClosedAt k) (hi : k ≤ i) (s : Symbol) :
    (c.tokenAt i).kind ≠ .symbol s :=
  h.kind_ne hi rfl (by simp [closingWords])

theorem rewind (h : c.ClosedAt k) (i : Nat) : (c.rewind i).ClosedAt k := ⟨h.word, h.behind⟩

theorem pushTrivia (h : c.ClosedAt k) (visible : Bool) : (c.pushTrivia visible).ClosedAt k :=
  ⟨h.word, h.behind⟩

theorem skipTrivia_le (h : c.ClosedAt k) (hi : i ≤ k) : skipTrivia c.front i ≤ k := by
  fun_induction skipTrivia c.front i with
  | case1 i hlt htrivia ih =>
    refine ih (Nat.lt_of_le_of_ne hi ?_)
    rintro rfl
    have hword := h.not_trivia
    rw [tokenAt_of_lt hlt, htrivia] at hword
    cases hword
  | case2 => exact hi
  | case3 i hge => exact absurd (Nat.lt_of_le_of_lt hi h.lt) hge

theorem seek_le (h : c.ClosedAt k) (hi : i ≤ k) : c.seek i ≤ k := by
  unfold seek
  split
  · exact Nat.le_trans (Nat.min_le_left _ _) hi
  · exact h.skipTrivia_le hi

theorem lt_seek (h : c.ClosedAt k) (hi : k < i) : k < c.seek i := by
  by_cases hle : i ≤ c.front.size
  · exact Nat.lt_of_lt_of_le hi (le_seek hle)
  · rw [seek_of_le (Nat.le_of_not_le hle)]
    exact h.lt

theorem kind_lastBefore (h : c.ClosedAt k) {n : Nat} (hn : k < n) :
    ∃ t, c.lastBefore n = some t ∧ t.kind ∈ TokenKind.endOfInput :: closingWords := by
  induction n with
  | zero => exact absurd hn (Nat.not_lt_zero k)
  | succ n ih =>
    rw [lastBefore]
    split
    · next htrivia =>
      refine ih (Nat.lt_of_le_of_ne (Nat.le_of_lt_succ hn) ?_)
      rintro rfl
      rw [h.not_trivia] at htrivia
      cases htrivia
    · next hshown =>
      refine ⟨_, rfl, ?_⟩
      rcases Nat.eq_or_lt_of_le (Nat.le_of_lt_succ hn) with rfl | hlt
      · exact List.mem_cons_of_mem _ h.word
      · exact (h.behind n hlt).resolve_left hshown

/-- Where a symbol was consumed last, the closing word has not been passed. -/
theorem index_le_of_previous (h : c.ClosedAt k) {t : Token} {s : Symbol} (ht : c.previous = some t)
    (hkind : t.kind = .symbol s) : c.index ≤ k := by
  refine Nat.le_of_not_lt fun hlt => ?_
  obtain ⟨t', ht', hk⟩ := h.kind_lastBefore hlt
  rw [show c.lastBefore c.index = c.previous from rfl, ht] at ht'
  cases ht'
  rw [hkind] at hk
  exact absurd hk (by simp [closingWords])

end ClosedAt

/-- Two cursors at the same place before index `k`. Up to there they have the same tokens, and the
same source up to offset `o`; then each has a closing word. -/
structure Parting (k o : Nat) (c d : Cursor) : Prop where
  index : c.index = d.index
  index_le : c.index ≤ k
  triviaVisible : c.triviaVisible = d.triviaVisible
  tokens : ∀ i < k, c.tokenAt i = d.tokenAt i
  starts : ∀ i < k, (c.tokenAt i).start ≤ o
  stops : ∀ i < k, (c.tokenAt i).stop ≤ o
  source : c.source.toList.take o = d.source.toList.take o
  first : c.ClosedAt k
  second : d.ClosedAt k

namespace Parting

variable {c d : Cursor} {k o i : Nat}

theorem symm (h : Parting k o c d) : Parting k o d c where
  index := h.index.symm
  index_le := h.index ▸ h.index_le
  triviaVisible := h.triviaVisible.symm
  tokens i hi := (h.tokens i hi).symm
  starts i hi := h.tokens i hi ▸ h.starts i hi
  stops i hi := h.tokens i hi ▸ h.stops i hi
  source := h.source.symm
  first := h.second
  second := h.first

theorem alongside (h : Parting k o c d) : Alongside k c d where
  index := h.index
  index_le := h.index_le
  first_le := Nat.le_of_lt h.first.lt
  second_le := Nat.le_of_lt h.second.lt
  triviaVisible := h.triviaVisible
  tokens := h.tokens
  source i hi n hn := by
    have hle : n ≤ o := hn.elim (Nat.le_trans · (h.starts i hi)) (Nat.le_trans · (h.stops i hi))
    rw [← Nat.min_eq_left hle, ← List.take_take, ← List.take_take, h.source]

theorem seek_eq (h : Parting k o c d) (hi : i ≤ k) : c.seek i = d.seek i := by
  rcases h.alongside.seek_cases hi with ⟨-, heq⟩ | ⟨hc, hd⟩
  · exact heq.symm
  · exact (Nat.le_antisymm (h.first.seek_le hi) hc).trans (Nat.le_antisymm hd (h.second.seek_le hi))

theorem current (h : Parting k o c d) : c.current = d.current ∧ c.seek c.index < k ∨
    c.seek c.index = k ∧ c.current.kind ∈ closingWords ∧ d.current.kind ∈ closingWords := by
  have hseek := h.seek_eq h.index_le
  rw [h.index] at hseek
  unfold Cursor.current
  rw [h.index, ← hseek]
  rcases Nat.eq_or_lt_of_le (h.first.seek_le (h.index ▸ h.index_le)) with heq | hlt
  · rw [heq]
    exact .inr ⟨rfl, h.first.word, h.second.word⟩
  · exact .inl ⟨h.tokens _ hlt, hlt⟩

/-- The token after the next one is a given symbol in both or in none. -/
theorem symbol_lookahead (h : Parting k o c d) (s : Symbol) :
    (c.lookahead 2).kind = .symbol s ↔ (d.lookahead 2).kind = .symbol s := by
  have hseek := h.seek_eq h.index_le
  have hahead : ∀ e : Cursor, e.lookahead 2 = e.tokenAt (e.seek (e.seek e.index + 1)) :=
    fun _ => rfl
  rw [hahead, hahead, ← h.index, ← hseek]
  rcases Nat.eq_or_lt_of_le (h.first.seek_le h.index_le) with heq | hlt
  · rw [heq]
    have hc := h.first.symbol_ne (Nat.le_of_lt (h.first.lt_seek (Nat.lt_succ_self k))) s
    have hd := h.second.symbol_ne (Nat.le_of_lt (h.second.lt_seek (Nat.lt_succ_self k))) s
    exact iff_of_false hc hd
  · have hnext := h.seek_eq (i := c.seek c.index + 1) hlt
    rw [← hnext]
    rcases Nat.eq_or_lt_of_le (h.first.seek_le hlt) with heq | hlt'
    · rw [heq]
      exact iff_of_false (h.first.symbol_ne (Nat.le_refl k) s)
        (h.second.symbol_ne (Nat.le_refl k) s)
    · rw [h.tokens _ hlt']

theorem previous_eq (h : Parting k o c d) : c.previous = d.previous := h.alongside.previous_eq

theorem stop_lastBefore (h : Parting k o c d) {n : Nat} (hn : n ≤ k) :
    ∀ t ∈ c.lastBefore n, t.stop ≤ o := by
  induction n with
  | zero =>
    intro t ht
    cases ht
  | succ n ih =>
    rw [lastBefore]
    split
    · exact ih (Nat.le_of_succ_le hn)
    · intro t ht
      cases ht
      exact h.stops n hn

theorem stop_previous (h : Parting k o c d) : ∀ t ∈ c.previous, t.stop ≤ o :=
  h.stop_lastBefore h.index_le

theorem text_eq (h : Parting k o c d) {start stop : Nat} (hstop : stop ≤ o) :
    c.text start stop = d.text start stop := by
  have htake : c.source.toList.take stop = d.source.toList.take stop := by
    rw [← Nat.min_eq_left hstop, ← List.take_take, ← List.take_take, h.source]
  unfold text
  rw [Array.toList_extract, Array.toList_extract, List.extract_eq_drop_take',
    List.extract_eq_drop_take', htake]

theorem rewind (h : Parting k o c d) (hi : i ≤ k) : Parting k o (c.rewind i) (d.rewind i) :=
  { h with
    index := rfl, index_le := hi
    first := h.first.rewind i, second := h.second.rewind i }

theorem pushTrivia (h : Parting k o c d) (visible : Bool) :
    Parting k o (c.pushTrivia visible) (d.pushTrivia visible) :=
  { h with
    triviaVisible := rfl
    first := h.first.pushTrivia visible, second := h.second.pushTrivia visible }

theorem consume_eq (h : Parting k o c d) (hlt : c.seek c.index < k) :
    Parting k o c.consume d.consume := by
  have hseek := h.seek_eq h.index_le
  have hcurrent : c.current = d.current := by
    rcases h.current with ⟨heq, -⟩ | ⟨heq, -⟩
    · exact heq
    · omega
  unfold consume
  rw [hcurrent, ← h.index, ← hseek]
  split
  · exact h
  · exact h.rewind hlt

theorem lt_index_consume (h : c.ClosedAt k) (hword : c.seek c.index = k) : k < c.consume.index := by
  have hcurrent : c.current = c.tokenAt k := congrArg c.tokenAt hword
  have hend : c.current.kind ≠ .endOfInput := by
    rw [hcurrent]
    intro heq
    have hk := h.word
    rw [heq] at hk
    exact absurd hk (by decide)
  rw [Cursor.consume_eq hend]
  show k < c.seek c.index + 1
  omega

end Parting

end Cursor

namespace Parser

variable {α β : Type} {k o : Nat} {s t u v : State}

/-! ### Runs in step -/

/-- Two states at the same place before the closing words of two texts. -/
structure State.Parting (k o : Nat) (s t : State) : Prop where
  cursor : s.cursor.Parting k o t.cursor
  trials : s.trials = t.trials
  received : s.collector.received = t.collector.received
  stack : s.stack = t.stack

theorem State.Parting.symm (h : s.Parting k o t) : t.Parting k o s :=
  ⟨h.cursor.symm, h.trials.symm, h.received.symm, h.stack.symm⟩

def Outruns (k : Nat) (s : State) : EStateM.Result Failure State α → Prop
  | .ok _ u => k < u.cursor.index ∨ s.collector.received < u.collector.received
  | .error (.recognition _) u => k < u.cursor.index ∨ s.collector.received < u.collector.received
  | .error _ _ => s.trials = 0

inductive Failure.SameSort : Failure → Failure → Prop where
  | recognition (e e' : ParseError) : SameSort (.recognition e) (.recognition e')
  | other {f : Failure} (h : ∀ e, f ≠ .recognition e) : SameSort f f

/-- Two runs that began in step are in step still, or the first one, which began in `s`, went past
the closing word or complained. -/
inductive InStep (k o : Nat) (R : α → α → Prop) (s : State) (x y : EStateM.Result Failure State α) :
    Prop where
  | ok {a b : α} {u v : State} (hx : x = .ok a u) (hy : y = .ok b v) (hab : R a b)
      (h : u.Parting k o v)
  | error {f g : Failure} {u v : State} (hx : x = .error f u) (hy : y = .error g v)
      (hfg : Failure.SameSort f g) (h : u.Parting k o v)
  | outrun (hx : Outruns k s x)

/-- In a trial, two runs that are in step either way, and fail, fail in the same way. -/
theorem Failure.SameSort.of_inStep {R R' : α → α → Prop} {f g : Failure} (hs : 0 < s.trials)
    (ht : 0 < t.trials)
    (h : InStep k o R s (.error f u) (.error g v))
    (h' : InStep k o R' t (.error g v) (.error f u)) : Failure.SameSort f g := by
  cases h with
  | ok hx => cases hx
  | error hx hy hfg => cases hx; cases hy; exact hfg
  | outrun hx =>
    cases h' with
    | ok hx => cases hx
    | error hx hy hfg =>
      cases hx
      cases hy
      cases hfg with
      | recognition e e' => exact .recognition e' e
      | other hf => exact .other hf
    | outrun hy =>
      cases f with
      | recognition e =>
        cases g with
        | recognition e' => exact .recognition e e'
        | _ => exact absurd hy (Nat.ne_of_gt ht)
      | _ => exact absurd hx (Nat.ne_of_gt hs)

/-- Two productions that go in step up to the closing words. Past the word, the first one fails in a
trial only because it does not recognise something. -/
structure Exchanges (R : α → α → Prop) (p q : Parser α) : Prop where
  inStep : ∀ {k o s t}, s.Parting k o t → InStep k o R s (p s) (q t)
  recognition : ∀ {k s f u}, s.cursor.ClosedAt k → k < s.cursor.index → 0 < s.trials →
    p s = .error f u → ∃ e, f = .recognition e

/-- A production to which the closing words are alike. -/
class Impartial (p : Parser α) : Prop where
  exchanges : Exchanges (· = ·) p p

export Impartial (exchanges)

theorem State.Evolves.closedAt (h : s.Evolves u) (hs : s.cursor.ClosedAt k) :
    u.cursor.ClosedAt k := by
  rw [h.cursor]
  exact hs.rewind _

/-- In a trial, only the place tells that a run went too far. -/
theorem lt_index_of_outruns_ok (hevolves : s.Evolves u) (htrials : 0 < s.trials) {a : α}
    (h : Outruns k s (.ok a u : EStateM.Result Failure State α)) : k < u.cursor.index := by
  rcases h with h | h
  · exact h
  · rw [(hevolves.silent htrials).1] at h
    exact absurd h (Nat.lt_irrefl _)

theorem Outruns.trans {r : EStateM.Result Failure State β} (hevolves : s.Evolves u)
    (h : Outruns k u r) : Outruns k s r := by
  have hle := hevolves.received_le
  cases r with
  | ok b v => exact h.imp_right (Nat.lt_of_le_of_lt hle)
  | error f v =>
    cases f with
    | recognition e => exact h.imp_right (Nat.lt_of_le_of_lt hle)
    | _ => exact hevolves.trials.symm.trans h

/-- What comes after a run that went too far goes too far. -/
theorem Outruns.next {a : α} {f : Parser β} [Orderly f] (hevolves : s.Evolves u)
    (h : Outruns k s (.ok a u : EStateM.Result Failure State α))
    (hf : k < u.cursor.index → 0 < u.trials → ∀ {g v}, f u = .error g v → ∃ e, g = .recognition e) :
    Outruns k s (f u) := by
  have hlater : ∀ {v : State}, u.Evolves v →
      k < v.cursor.index ∨ s.collector.received < v.collector.received := fun huv =>
    h.imp (fun h => Nat.lt_of_lt_of_le h huv.index) fun h => Nat.lt_of_lt_of_le h huv.received_le
  cases hr : f u with
  | ok b v => exact hlater (Orderly.evolves_ok f hr)
  | error g v =>
    cases g with
    | recognition e => exact hlater (Orderly.evolves_error f hr)
    | _ =>
      refine Nat.eq_zero_of_not_pos fun htrials => ?_
      obtain ⟨e, he⟩ :=
        hf (lt_index_of_outruns_ok hevolves htrials h) (hevolves.trials ▸ htrials) hr
      cases he

theorem Outruns.bind {p : Parser α} {f : α → Parser β} [Orderly p] [∀ a, Orderly (f a)]
    (h : Outruns k s (p s)) (hf : ∀ {a u}, p s = .ok a u → k < u.cursor.index → 0 < u.trials →
      ∀ {g v}, f a u = .error g v → ∃ e, g = .recognition e) : Outruns k s ((p >>= f) s) := by
  cases hr : p s with
  | ok a u =>
    rw [hr] at h
    rw [bind_of_ok hr]
    exact .next (Orderly.evolves_ok p hr) h (hf hr)
  | error g u =>
    rw [hr] at h
    rw [bind_of_error hr]
    cases g <;> exact h

namespace InStep

variable {R : α → α → Prop} {R' : β → β → Prop}

theorem bind {p q : Parser α} {f g : α → Parser β} [Orderly p] [∀ a, Orderly (f a)]
    (h : InStep k o R s (p s) (q t))
    (hf : ∀ {a b u v}, R a b → u.Parting k o v → p s = .ok a u → InStep k o R' u (f a u) (g b v))
    (hpast : ∀ {a u}, p s = .ok a u → k < u.cursor.index → 0 < u.trials →
      ∀ {e v}, f a u = .error e v → ∃ e', e = .recognition e') :
    InStep k o R' s ((p >>= f) s) ((q >>= g) t) := by
  cases h with
  | ok hx hy hab huv =>
    rw [bind_of_ok hx, bind_of_ok hy]
    cases hf hab huv hx with
    | ok hx' hy' hcd h => exact .ok hx' hy' hcd h
    | error hx' hy' hfg h => exact .error hx' hy' hfg h
    | outrun hx' => exact .outrun (.trans (Orderly.evolves_ok p hx) hx')
  | error hx hy hfg huv => exact .error (bind_of_error hx) (bind_of_error hy) hfg huv
  | outrun hx => exact .outrun (.bind hx hpast)

theorem step {p q : Parser α} {f g : α → Parser β} {a b : α} (hx : p s = .ok a s)
    (hy : q t = .ok b t) (h : InStep k o R' s (f a s) (g b t)) :
    InStep k o R' s ((p >>= f) s) ((q >>= g) t) := by
  rw [bind_of_ok hx, bind_of_ok hy]
  exact h

end InStep

namespace Exchanges

variable {R : α → α → Prop} {R' : β → β → Prop}

theorem bind {p q : Parser α} {f g : α → Parser β} [Orderly p] [∀ a, Orderly (f a)]
    (h : Exchanges R p q) (hR : ∀ a, R a a) (hf : ∀ {a b}, R a b → Exchanges R' (f a) (g b)) :
    Exchanges R' (p >>= f) (q >>= g) where
  inStep {k o s t} hst :=
    .bind (h.inStep hst) (fun hab huv _ => (hf hab).inStep huv)
      fun {a u} hu hlt htrials _ _ herror =>
        (hf (hR a)).recognition ((Orderly.evolves_ok p hu).closedAt hst.cursor.first) hlt
          htrials herror
  recognition {k s e u} hs hlt htrials herror := by
    cases hp : p s with
    | ok a v =>
      rw [bind_of_ok hp] at herror
      have hsv := Orderly.evolves_ok p hp
      exact (hf (hR a)).recognition (hsv.closedAt hs) (Nat.lt_of_lt_of_le hlt hsv.index)
        (hsv.trials ▸ htrials) herror
    | error g v =>
      rw [bind_of_error hp] at herror
      cases herror
      exact h.recognition hs hlt htrials hp

theorem ite {c d : Prop} [Decidable c] [Decidable d] {p q p' q' : Parser α} (hcd : c ↔ d)
    (h : Exchanges R p q) (h' : Exchanges R p' q') :
    Exchanges R (if c then p else p') (if d then q else q') := by
  by_cases hd : d
  · rw [if_pos hd, if_pos (hcd.2 hd)]; exact h
  · rw [if_neg hd, if_neg fun hc => hd (hcd.1 hc)]; exact h'

theorem pure {a b : α} (hab : R a b) : Exchanges R (pure a) (pure b) where
  inStep hst := .ok rfl rfl hab hst
  recognition _ _ _ herror := by cases herror

theorem fail (e e' : ParseError) : Exchanges R (fail e) (fail e') where
  inStep hst := .error rfl rfl (.recognition e e') hst
  recognition _ _ _ herror := by cases herror; exact ⟨e, rfl⟩

theorem map {p q : Parser α} {f g : α → β} [Orderly p] (h : Exchanges R p q) (hR : ∀ a, R a a)
    (hf : ∀ {a b}, R a b → R' (f a) (g b)) : Exchanges R' (f <$> p) (g <$> q) := by
  rw [map_eq_bind, map_eq_bind]
  exact h.bind hR fun hab => .pure (hf hab)

end Exchanges

namespace Impartial

instance (a : α) : Impartial (pure a : Parser α) := ⟨.pure rfl⟩

instance (e : ParseError) : Impartial (fail e : Parser α) := ⟨.fail e e⟩

instance bind (p : Parser α) (f : α → Parser β) [Orderly p] [∀ a, Orderly (f a)] [Impartial p]
    [∀ a, Impartial (f a)] : Impartial (p >>= f) :=
  ⟨(exchanges (p := p)).bind (fun _ => rfl) fun {a _} hab => hab ▸ exchanges (p := f a)⟩

instance map (p : Parser α) (f : α → β) [Orderly p] [Impartial p] : Impartial (f <$> p) := by
  rw [map_eq_bind]; infer_instance

instance (c : Prop) [Decidable c] (p q : Parser α) [Impartial p] [Impartial q] :
    Impartial (if c then p else q) := by
  split <;> infer_instance

theorem of_look {p : Parser α} {view : Cursor → α} (hp : ∀ s, p s = .ok (view s.cursor) s)
    (hview : ∀ {k o c d}, Cursor.Parting k o c d → view c = view d) : Impartial p where
  exchanges := {
    inStep := fun {_ _ s t} hst => .ok (hp s) (hp t) (hview hst.cursor) hst
    recognition := fun {_ s _ _} _ _ _ herror => by rw [hp s] at herror; cases herror }

end Impartial

/-! ### At the closing word -/

structure State.AtWord (k : Nat) (s : State) : Prop where
  closed : s.cursor.ClosedAt k
  seek : s.cursor.seek s.cursor.index = k

theorem State.AtWord.current (h : s.AtWord k) : s.cursor.current.kind ∈ closingWords := by
  rw [show s.cursor.current = s.cursor.tokenAt k from congrArg s.cursor.tokenAt h.seek]
  exact h.closed.word

theorem State.AtWord.symbol_lookahead (h : s.AtWord k) (c : Symbol) :
    (s.cursor.lookahead 2).kind ≠ .symbol c := by
  show (s.cursor.tokenAt (s.cursor.seek (s.cursor.seek s.cursor.index + 1))).kind ≠ _
  rw [h.seek]
  exact h.closed.symbol_ne (Nat.le_of_lt (h.closed.lt_seek (Nat.lt_succ_self k))) c

theorem State.Parting.atWord (h : s.Parting k o t) (hseek : s.cursor.seek s.cursor.index = k) :
    t.AtWord k := by
  refine ⟨h.cursor.second, ?_⟩
  rw [← h.cursor.index, ← h.cursor.seek_eq h.cursor.index_le]
  exact hseek

/-- A production that takes the closing word. -/
class Grabs (p : Parser α) : Prop where
  outruns : ∀ {k s}, s.AtWord k → Outruns k s (p s)

namespace Grabs

instance : Grabs advance where
  outruns h := .inl (Cursor.Parting.lt_index_consume h.closed h.seek)

theorem of_bind {p : Parser α} {f : α → Parser β} [Orderly p] [Grabs p]
    (horderly : ∀ a, Orderly (f a))
    (hf : ∀ {a k s g u}, s.cursor.ClosedAt k → k < s.cursor.index → 0 < s.trials →
      f a s = .error g u → ∃ e, g = .recognition e) : Grabs (p >>= f) where
  outruns h := .bind (outruns h) fun hu hlt htrials _ _ =>
    hf ((Orderly.evolves_ok p hu).closedAt h.closed) hlt htrials

theorem bind_of {R : β → β → Prop} {p : Parser α} {f : α → Parser β} [Orderly p] [Grabs p]
    (horderly : ∀ a, Orderly (f a)) (hf : ∀ a, Exchanges R (f a) (f a)) : Grabs (p >>= f) :=
  .of_bind horderly fun {a _ _ _ _} => (hf a).recognition

instance bind (p : Parser α) (f : α → Parser β) [Orderly p] [∀ a, Orderly (f a)] [Grabs p]
    [∀ a, Impartial (f a)] : Grabs (p >>= f) :=
  bind_of (fun _ => inferInstance) fun _ => exchanges

instance map (p : Parser α) (f : α → β) [Orderly p] [Grabs p] : Grabs (f <$> p) := by
  rw [map_eq_bind]; infer_instance

theorem of_current {f : Token → Parser α} (h : ∀ a, a.kind ∈ closingWords → Grabs (f a)) :
    Grabs (current >>= f) where
  outruns hs := (h _ hs.current).outruns hs

/-- A production that goes on by whether a symbol is the token after the next one. -/
theorem byLevels {f : Nat → Parser α} (h : ∀ n, Grabs (f (n + 1))) : Grabs (levels >>= f) where
  outruns {_ s} hs := (h s.stack.frames).outruns hs

theorem of_peek {f : Token → Parser α} (h : ∀ a, (∀ c, a.kind ≠ .symbol c) → Grabs (f a)) :
    Grabs (peek 1 >>= f) where
  outruns hs := (h _ hs.symbol_lookahead).outruns hs

end Grabs

namespace Exchanges

variable {R : α → α → Prop} {f g : Token → Parser α}

/-- Going on by the next token, which may be the closing word. -/
theorem current_word (h : ∀ a, Exchanges R (f a) (g a))
    (hword : ∀ {k o s t}, s.Parting k o t → s.AtWord k → t.AtWord k →
      InStep k o R s (f s.cursor.current s) (g t.cursor.current t)) :
    Exchanges R (Parser.current >>= f) (Parser.current >>= g) where
  inStep {_ _ s t} hst := by
    refine .step (current_eq s) (current_eq t) ?_
    rcases hst.cursor.current with ⟨heq, -⟩ | ⟨hseek, -⟩
    · rw [heq]
      exact (h _).inStep hst
    · exact hword hst ⟨hst.cursor.first, hseek⟩ (hst.atWord hseek)
  recognition hs hlt htrials herror := (h _).recognition hs hlt htrials herror

theorem current (h : ∀ a, Exchanges R (f a) (g a))
    (hword : ∀ a b, a.kind ∈ closingWords → b.kind ∈ closingWords → Exchanges R (f a) (g b)) :
    Exchanges R (Parser.current >>= f) (Parser.current >>= g) :=
  .current_word h fun hst hs ht => (hword _ _ hs.current ht.current).inStep hst

/-- Going on by the next token: where it is a closing word, it is taken. -/
theorem current_grabs (hgrabs : Grabs (Parser.current >>= f)) (h : ∀ a, Exchanges R (f a) (g a)) :
    Exchanges R (Parser.current >>= f) (Parser.current >>= g) :=
  .current_word h fun _ hs _ => .outrun (hgrabs.outruns hs)

/-- Going on by whether a symbol is the token after the next one. -/
theorem peek (h : ∀ a b, (∀ c, a.kind = .symbol c ↔ b.kind = .symbol c) → Exchanges R (f a) (g b)) :
    Exchanges R (peek 1 >>= f) (peek 1 >>= g) where
  inStep {_ _ s t} hst :=
    .step (peek_eq 1 s) (peek_eq 1 t) ((h _ _ hst.cursor.symbol_lookahead).inStep hst)
  recognition hs hlt htrials herror := (h _ _ fun _ => .rfl).recognition hs hlt htrials herror

end Exchanges

namespace Impartial

instance (f : Token → Parser α) [∀ a, Impartial (f a)] [∀ a, Grabs (f a)] :
    Impartial (current >>= f) :=
  ⟨.current_grabs (.of_current fun _ _ => inferInstance) fun _ => exchanges⟩

instance (e : Token → ParseError) : Impartial (current >>= fun a => fail (e a) : Parser α) :=
  ⟨.current (fun _ => .fail _ _) fun _ _ _ _ => .fail _ _⟩

instance (e : Token → ParseError) (f : β → Parser α) :
    Impartial (current >>= fun a => fail (e a) >>= f) :=
  inferInstanceAs (Impartial (current >>= fun a => fail (e a)))

/-! ### Looking and consuming -/

theorem parting_advanced (h : s.Parting k o t) (hlt : s.cursor.seek s.cursor.index < k) :
    s.advanced.Parting k o t.advanced := by
  have hcollector : ∀ s : State, s.advanced.collector.received = s.collector.received := by
    intro s
    show (if s.trials = 0 then _ else _ : Collector).received = _
    split <;> rfl
  refine ⟨h.cursor.consume_eq hlt, h.trials, ?_, h.stack⟩
  rw [hcollector, hcollector, h.received]

instance : Impartial advance where
  exchanges := {
    inStep := fun {k o s t} hst => by
      rcases hst.cursor.current with ⟨heq, hlt⟩ | ⟨hseek, -⟩
      · exact .ok (advance_eq s) (advance_eq t) heq (parting_advanced hst hlt)
      · exact .outrun (Grabs.outruns ⟨hst.cursor.first, hseek⟩)
    recognition := fun _ _ _ herror => by cases herror }

/-- A test whether the next token is of one of some kinds, with both closing words among them or
none. -/
theorem nextIs {kinds : List TokenKind}
    (h : TokenKind.keyword .then_ ∈ kinds ↔ TokenKind.keyword .end_ ∈ kinds) :
    Impartial (nextIs kinds) := by
  have hwords : ∀ kind ∈ closingWords, (kind ∈ kinds ↔ .keyword .end_ ∈ kinds) :=
    List.forall_mem_cons.2 ⟨h, List.forall_mem_singleton.2 .rfl⟩
  unfold Parser.nextIs
  refine ⟨.current (fun a => .pure rfl) fun a b ha hb => .pure ?_⟩
  exact decide_eq_decide.2 ((hwords _ ha).trans (hwords _ hb).symm)

instance (c : Symbol) : Impartial (nextIsSymbol c) := by
  unfold nextIsSymbol
  refine ⟨.current (fun a => .pure rfl) fun a b ha hb => .pure ?_⟩
  have hwords : ∀ kind ∈ closingWords, kind ≠ .symbol c := by simp [closingWords]
  rw [decide_eq_false (hwords _ ha), decide_eq_false (hwords _ hb)]

theorem nextIsKeyword {w : Keyword} (hw : .keyword w ∉ closingWords) :
    Impartial (nextIsKeyword w) := by
  unfold Parser.nextIsKeyword
  refine ⟨.current (fun a => .pure rfl) fun a b ha hb => .pure ?_⟩
  have hwords : ∀ kind ∈ closingWords, kind ≠ .keyword w := fun kind hkind heq => hw (heq ▸ hkind)
  rw [decide_eq_false (hwords _ ha), decide_eq_false (hwords _ hb)]

theorem expect {kind : TokenKind} (hkind : kind ∉ closingWords) : Impartial (expect kind) := by
  have hwords : ∀ a : Token, a.kind ∈ closingWords → a.kind ≠ kind := fun a ha heq =>
    hkind (heq ▸ ha)
  unfold Parser.expect
  refine ⟨.current (fun a => exchanges) fun a b ha hb => ?_⟩
  rw [if_neg (hwords a ha), if_neg (hwords b hb)]
  exact .fail _ _

instance (c : Symbol) : Impartial (symbol c) := expect (by simp [closingWords])

theorem keyword {w : Keyword} (hw : .keyword w ∉ closingWords) : Impartial (keyword w) := expect hw

instance (c : Symbol) : Impartial (skip c) := by
  have hwords : ∀ a : Token, a.kind ∈ closingWords → a.kind ≠ .symbol c := by
    rintro a ha heq
    rw [heq] at ha
    simp [closingWords] at ha
  have haccept : Impartial (accept (.symbol c)) := by
    unfold accept
    refine ⟨.current (fun a => exchanges) fun a b ha hb => ?_⟩
    rw [if_neg (hwords a ha), if_neg (hwords b hb)]
    exact .pure rfl
  unfold skip
  infer_instance

/-- However many levels the stack could have, it could have one. -/
theorem byLevels {f : Nat → Parser α} (h : ∀ n, Impartial (f (n + 1))) :
    Impartial (levels >>= f) where
  exchanges := {
    inStep := fun {k o s t} hst => by
      refine .step (levels_eq s) (levels_eq t) ?_
      rw [← hst.stack]
      exact (h s.stack.frames).exchanges.inStep hst
    recognition := fun {k s e u} hs hlt htrials herror =>
      (h s.stack.frames).exchanges.recognition hs hlt htrials herror }

instance : Impartial lastStop :=
  @of_look _ _ (fun c => c.previous.map (·.stop)) (fun _ => rfl) fun h => by rw [h.previous_eq]

instance (l : Location) : Impartial (close l) := by unfold close; infer_instance

end Impartial

theorem isName_of_closingWords {a : Token} (h : a.kind ∈ closingWords) : a.isName = true := by
  have hnames : ∀ kind ∈ closingWords, kind.isName = true := by decide
  exact hnames _ h

instance : Grabs name := by
  unfold name
  refine .of_current fun a ha => ?_
  rw [if_pos (isName_of_closingWords ha)]
  infer_instance

instance : Impartial name := ⟨.current_grabs (inferInstanceAs (Grabs name)) fun _ => exchanges⟩

/-! ### Repetition -/

theorem Rolls.repeatWhile_eq {more : α → Parser Bool} {body : α → Parser α} (h : Rolls more body)
    {n : Nat} {a : α} (hn : s.cursor.remaining + 1 ≤ n) :
    repeatWhile a more body s = rounds more body n a s := by
  have hrest : s.cursor.rest.length < s.cursor.remaining + 1 :=
    Nat.lt_succ_of_le (Nat.le_of_eq s.cursor.length_rest)
  exact h.rounds_eq hrest (Nat.lt_of_lt_of_le hrest hn)

namespace Exchanges

variable {R : α → α → Prop} {more more' : α → Parser Bool} {body body' : α → Parser α}

theorem rounds [∀ a, Orderly (more a)] [∀ a, Orderly (body a)] (hR : ∀ a, R a a)
    (hmore : ∀ {a b}, R a b → Exchanges (· = ·) (more a) (more' b))
    (hbody : ∀ {a b}, R a b → Exchanges R (body a) (body' b)) (n : Nat) {a b : α} (hab : R a b) :
    Exchanges R (rounds more body n a) (rounds more' body' n b) := by
  induction n generalizing a b with
  | zero => exact .pure hab
  | succ n ih =>
    unfold Parser.rounds
    refine (hmore hab).bind (fun _ => rfl) fun {c d} hcd => ?_
    subst hcd
    cases c with
    | false => exact .pure hab
    | true => exact (hbody hab).bind hR ih

/-- The bound on the rounds does not matter, so it need not be the same in both. -/
theorem repeatWhile [∀ a, Orderly (more a)] [∀ a, Orderly (body a)] (hrolls : Rolls more body)
    (hrolls' : Rolls more' body') (hR : ∀ a, R a a)
    (hmore : ∀ {a b}, R a b → Exchanges (· = ·) (more a) (more' b))
    (hbody : ∀ {a b}, R a b → Exchanges R (body a) (body' b)) {a b : α} (hab : R a b) :
    Exchanges R (repeatWhile a more body) (repeatWhile b more' body') where
  inStep {k o s t} hst := by
    rw [hrolls.repeatWhile_eq (Nat.le_max_left (s.cursor.remaining + 1) (t.cursor.remaining + 1)),
      hrolls'.repeatWhile_eq (Nat.le_max_right (s.cursor.remaining + 1) (t.cursor.remaining + 1))]
    exact (rounds hR hmore hbody _ hab).inStep hst
  recognition {k s e u} hs hlt htrials herror := by
    have hrounds : Exchanges R (Parser.rounds more body (s.cursor.remaining + 1) a)
        (Parser.rounds more' body' (s.cursor.remaining + 1) b) := rounds hR hmore hbody _ hab
    exact hrounds.recognition hs hlt htrials herror

end Exchanges

theorem Impartial.repeatWhile {more : α → Parser Bool} {body : α → Parser α}
    (hrolls : Rolls more body) (first : α) [∀ a, Orderly (more a)] [∀ a, Orderly (body a)]
    [∀ a, Impartial (more a)] [∀ a, Impartial (body a)] : Impartial (repeatWhile first more body) :=
  ⟨.repeatWhile hrolls hrolls (fun _ => rfl) (fun {a _} h => h ▸ exchanges (p := more a))
    (fun {a _} h => h ▸ exchanges (p := body a)) rfl⟩

/-! ### Failures as values -/

/-- Both are failures, or they are the same. -/
inductive AlikeResult : Except ParseError α → Except ParseError α → Prop where
  | ok (a : α) : AlikeResult (.ok a) (.ok a)
  | error (e e' : ParseError) : AlikeResult (.error e) (.error e')

theorem AlikeResult.refl : (r : Except ParseError α) → AlikeResult r r
  | .ok a => .ok a
  | .error e => .error e e

theorem Outruns.attempt {p : Parser α} (h : Outruns k s (p s)) : Outruns k s (attempt p s) := by
  cases hr : p s with
  | ok a u =>
    rw [hr] at h
    rw [attempt_of_ok hr]
    exact h
  | error f u =>
    rw [hr] at h
    cases f with
    | recognition e =>
      rw [attempt_of_recognition hr]
      exact h
    | _ =>
      rw [attempt_of_error hr (by simp)]
      exact h

instance (p : Parser α) [Grabs p] : Grabs (attempt p) where
  outruns hs := .attempt (Grabs.outruns hs)

theorem InStep.attempt {p : Parser α} (h : InStep k o (· = ·) s (p s) (p t)) :
    InStep k o AlikeResult s (attempt p s) (attempt p t) := by
  cases h with
  | ok hx hy hab huv => exact .ok (attempt_of_ok hx) (attempt_of_ok hy) (hab ▸ .refl _) huv
  | error hx hy hfg huv =>
    cases hfg with
    | recognition e e' =>
      exact .ok (attempt_of_recognition hx) (attempt_of_recognition hy) (.error e e') huv
    | other hf => exact .error (attempt_of_error hx hf) (attempt_of_error hy hf) (.other hf) huv
  | outrun hx => exact .outrun hx.attempt

theorem Exchanges.attempt (p : Parser α) [Impartial p] :
    Exchanges AlikeResult (attempt p) (attempt p) where
  inStep hst := (exchanges.inStep hst).attempt
  recognition {k s f u} hs hlt htrials herror := by
    cases hr : p s with
    | ok a v =>
      rw [attempt_of_ok hr] at herror
      cases herror
    | error g v =>
      obtain ⟨e, rfl⟩ := (exchanges (p := p)).recognition hs hlt htrials hr
      rw [attempt_of_recognition hr] at herror
      cases herror

/-- Going on by a failure or a value. -/
theorem Exchanges.result_bind {R : β → β → Prop} {p q : Parser (Except ParseError α)}
    {f : Except ParseError α → Parser β} [Orderly p] (hf : ∀ r, Orderly (f r))
    (h : Exchanges AlikeResult p q) (hok : ∀ a, Exchanges R (f (.ok a)) (f (.ok a)))
    (herror : ∀ e e', Exchanges R (f (.error e)) (f (.error e'))) :
    Exchanges R (p >>= f) (q >>= f) :=
  h.bind .refl fun hab => by
    cases hab with
    | ok a => exact hok a
    | error e e' => exact herror e e'

/-- The same was built, and both were stopped by a failure or neither. -/
structure AlikeHarvest (h h' : Harvest α) : Prop where
  found : h.found = h'.found
  failure : h.failure.isSome = h'.failure.isSome

theorem AlikeHarvest.refl (h : Harvest α) : AlikeHarvest h h := ⟨rfl, rfl⟩

theorem Exchanges.harvest (found : α) (p : Parser β) (add : α → β → α) [Orderly p] [Impartial p] :
    Exchanges AlikeHarvest (harvest found p add) (harvest found p add) := by
  unfold Parser.harvest
  refine (Exchanges.attempt p).map .refl fun hab => ?_
  cases hab with
  | ok a => exact .refl _
  | error e e' => exact ⟨rfl, rfl⟩

/-! ### Trivia -/

theorem State.Parting.showing (h : s.Parting k o t) : s.showing.Parting k o t.showing :=
  ⟨h.cursor.pushTrivia true, h.trials, h.received, h.stack⟩

theorem State.Parting.hidingAs (h : s.Parting k o t) (huv : u.Parting k o v) :
    (s.hidingAs u).Parting k o (t.hidingAs v) := by
  refine ⟨?_, huv.trials, huv.received, huv.stack⟩
  show Cursor.Parting k o (s.cursor.rewind u.cursor.index) (t.cursor.rewind v.cursor.index)
  rw [← huv.cursor.index]
  exact h.cursor.rewind huv.cursor.index_le

instance Impartial.withTrivia (p : Parser α) [Orderly p] [Impartial p] :
    Impartial (withTrivia p) where
  exchanges := {
    inStep := fun {k o s t} hst => by
      cases (exchanges (p := p)).inStep hst.showing with
      | ok hx hy hab huv =>
        exact .ok (Orderly.withTrivia_of_ok hx) (Orderly.withTrivia_of_ok hy) hab (hst.hidingAs huv)
      | error hx hy hfg huv =>
        exact .error (Orderly.withTrivia_of_error hx) (Orderly.withTrivia_of_error hy) hfg
          (hst.hidingAs huv)
      | outrun hx =>
        refine .outrun ?_
        cases hr : p s.showing with
        | ok a u =>
          rw [hr] at hx
          rw [Orderly.withTrivia_of_ok hr]
          exact hx
        | error f u =>
          rw [hr] at hx
          rw [Orderly.withTrivia_of_error hr]
          cases f <;> exact hx
    recognition := fun {k s f u} hs hlt htrials herror => by
      cases hr : p s.showing with
      | ok a v =>
        rw [Orderly.withTrivia_of_ok hr] at herror
        cases herror
      | error g v =>
        rw [Orderly.withTrivia_of_error hr] at herror
        cases herror
        exact (exchanges (p := p)).recognition (s := s.showing) (hs.pushTrivia true) hlt
          htrials hr }

/-! ### Complaints -/

instance (message : String) (token : Token) : Impartial (remark message token) where
  exchanges := {
    inStep := fun {k o s t} hst => by
      by_cases htrials : 0 < s.trials
      · refine .ok (remark_eq message token s) (remark_eq message token t) rfl ?_
        rw [if_pos htrials, if_pos (hst.trials ▸ htrials)]
        exact hst
      · refine .outrun ?_
        rw [remark_eq, if_neg htrials]
        refine .inr ?_
        show _ < (s.collector.remark message token s.ruleName).received
        rw [Collector.received_remark]
        exact Nat.lt_succ_self _
    recognition := fun {k s f u} _ _ _ herror => by
      rw [remark_eq] at herror
      cases herror }

/-- Outside of trials, a recovery follows a complaint. -/
theorem Exchanges.recoverFrom {R : Unit → Unit → Prop} (e e' : ParseError)
    (kinds : List TokenKind) : Exchanges R (recoverFrom e kinds) (recoverFrom e' kinds) where
  inStep {k o s t} hst := by
    have hs := recoverFrom_eq e kinds s
    have ht := recoverFrom_eq e' kinds t
    by_cases htrials : 0 < s.trials
    · rw [if_pos htrials] at hs
      rw [if_pos (hst.trials ▸ htrials)] at ht
      exact .error hs ht (.recognition e e') hst
    · rw [if_neg htrials] at hs
      refine .outrun ?_
      rw [hs]
      refine .inr ?_
      show _ < (s.collector.report e s.ruleName).received
      rw [Collector.received_report]
      exact Nat.lt_succ_self _
  recognition {k s f u} _ _ htrials herror := by
    rw [recoverFrom_eq, if_pos htrials] at herror
    cases herror
    exact ⟨e, rfl⟩

end Parser

end Rulebook
