import Rulebook.Proofs.Onward

/-!
# The tokens behind a cursor

The tokens that a cursor has passed, trivia aside, and those ahead of it are together the visible
tokens. What a production takes is added to the tokens behind, so what stands behind a cursor can be
read off the productions that ran.
-/

namespace Rulebook

namespace Cursor

/-- The tokens already passed that are no trivia. -/
def behind (c : Cursor) : List Token := visible (c.front.toList.take c.index)

theorem behind_append_ahead (c : Cursor) : c.behind ++ c.ahead = visible c.front.toList := by
  rw [behind, ahead, rest, ← visible_append, List.take_append_drop]

theorem behind_ofTokens (tokens : List Token) (source : String) :
    (ofTokens tokens source).behind = [] := by
  have hindex : (ofTokens tokens source).index = 0 := by
    unfold ofTokens
    repeat' split
    all_goals rfl
  rw [behind, hindex]
  rfl

theorem behind_eq_append {c d : Cursor} {ts : List Token} (hfront : d.front = c.front)
    (h : c.ahead = ts ++ d.ahead) : d.behind = c.behind ++ ts := by
  have hc := c.behind_append_ahead
  have hd := d.behind_append_ahead
  rw [hfront, ← hc, h, ← List.append_assoc] at hd
  exact List.append_cancel_right hd

theorem lastBefore_eq_getLast? (c : Cursor) {n : Nat} (hn : n ≤ c.front.size) :
    c.lastBefore n = (visible (c.front.toList.take n)).getLast? := by
  induction n with
  | zero => rfl
  | succ n ih =>
    have hlt : n < c.front.toList.length := by rw [Array.length_toList]; exact hn
    have htoken : c.tokenAt n = c.front.toList[n] := by
      simp [tokenAt, Array.getD, show n < c.front.size from hn]
    rw [List.take_succ_eq_append_getElem hlt, visible_append, lastBefore, htoken, ih (by omega)]
    cases htrivia : c.front.toList[n].isTrivia with
    | true => rw [visible_cons_of_trivia htrivia]; simp
    | false => rw [visible_cons_of_not_trivia htrivia]; simp

theorem previous_eq_getLast? {c : Cursor} (h : c.index ≤ c.front.size) :
    c.previous = c.behind.getLast? :=
  c.lastBefore_eq_getLast? h

end Cursor

namespace Parser

variable {α : Type} {s t u : State} {ts us : List Token}

def State.Took (s t : State) (ts : List Token) : Prop := t.cursor.behind = s.cursor.behind ++ ts

namespace State.Took

theorem refl (s : State) : s.Took s [] := (List.append_nil _).symm

theorem trans (h : s.Took t ts) (h' : t.Took u us) : s.Took u (ts ++ us) := by
  unfold Took
  rw [h', h, List.append_assoc]

theorem of_ahead (hst : s.Evolves t) (h : s.cursor.ahead = ts ++ t.cursor.ahead) : s.Took t ts :=
  Cursor.behind_eq_append hst.front h

/-- The tokens that an evolution takes are those no longer ahead. -/
theorem exists_of_evolves (hst : s.Evolves t) :
    ∃ ts, s.cursor.ahead = ts ++ t.cursor.ahead ∧ s.Took t ts := by
  obtain ⟨ts, h⟩ := Cursor.ahead_suffix hst.front hst.index
  exact ⟨ts, h.symm, of_ahead hst h.symm⟩

theorem ahead_eq (h : s.Took t ts) (hst : s.Evolves t) : s.cursor.ahead = ts ++ t.cursor.ahead := by
  obtain ⟨us, hahead, htook⟩ := exists_of_evolves hst
  rw [hahead, List.append_cancel_left (htook.symm.trans h)]

end State.Took

theorem took_advanced (hs : s.cursor.triviaVisible = false)
    (hk : s.cursor.current.kind ≠ .endOfInput) : s.Took s.advanced [s.cursor.current] :=
  .of_ahead (Orderly.evolves_advanced s) (Cursor.ahead_consume hs hk)

theorem took_of_advance {token : Token} (hs : s.cursor.triviaVisible = false)
    (hk : s.cursor.current.kind ≠ .endOfInput) (h : advance s = .ok token t) :
    token = s.cursor.current ∧ s.Took t [token] := by
  rw [advance_eq] at h
  cases h
  exact ⟨rfl, took_advanced hs hk⟩

theorem took_of_expect {kind : TokenKind} {token : Token} (hs : s.cursor.triviaVisible = false)
    (hk : kind ≠ .endOfInput) (h : expect kind s = .ok token t) :
    token.kind = kind ∧ s.Took t [token] := by
  obtain ⟨rfl, hkind, rfl⟩ := expect_of_ok h
  exact ⟨hkind, took_advanced hs (hkind ▸ hk)⟩

theorem took_of_name {token : Token} (hs : s.cursor.triviaVisible = false)
    (h : name s = .ok token t) : token.isName = true ∧ s.Took t [token] := by
  rw [name_eq] at h
  split at h
  · next hname =>
    cases h
    exact ⟨hname, took_advanced hs (Eager.ne_endOfInput_of_isName hname)⟩
  · cases h

def Optional (kind : TokenKind) (ts : List Token) : Prop :=
  ts = [] ∨ ∃ t, ts = [t] ∧ t.kind = kind

theorem took_of_accept {kind : TokenKind} {found : Option Token}
    (hs : s.cursor.triviaVisible = false) (hk : kind ≠ .endOfInput)
    (h : accept kind s = .ok found t) : ∃ ts, Optional kind ts ∧ s.Took t ts := by
  obtain ⟨_, _, hcurrent, h⟩ := bind_eq_ok.1 h
  cases hcurrent
  split at h
  · next hkind =>
    obtain ⟨token, u, hu, h⟩ := bind_eq_ok.1 h
    obtain ⟨rfl, rfl⟩ := pure_ok h
    obtain ⟨rfl, htook⟩ := took_of_advance hs (hkind ▸ hk) hu
    exact ⟨_, .inr ⟨_, rfl, hkind⟩, htook⟩
  · obtain ⟨rfl, rfl⟩ := pure_ok h
    exact ⟨[], .inl rfl, .refl _⟩

theorem took_of_skip {k : Symbol} (hs : s.cursor.triviaVisible = false)
    (h : skip k s = .ok () t) : ∃ ts, Optional (.symbol k) ts ∧ s.Took t ts := by
  obtain ⟨found, u, hu, h⟩ := bind_eq_ok.1 h
  obtain ⟨-, rfl⟩ := pure_ok h
  exact took_of_accept hs (by simp) hu

inductive Dotted : List Token → Prop where
  | single {t : Token} (h : t.isName = true) : Dotted [t]
  | snoc {ts : List Token} {dot t : Token} (hts : Dotted ts) (hdot : dot.kind = .symbol .dot)
      (h : t.isName = true) : Dotted (ts ++ [dot, t])

theorem took_of_dottedName {text : String} (hs : s.cursor.triviaVisible = false)
    (h : dottedName s = .ok text t) : ∃ ts, Dotted ts ∧ s.Took t ts := by
  obtain ⟨first, u, hu, h⟩ := bind_eq_ok.1 h
  obtain ⟨hfirst, htook⟩ := took_of_name hs hu
  have hhidden := (Orderly.evolves_ok _ hu).triviaVisible.trans hs
  let I (v : State) (_ : String) : Prop :=
    v.cursor.triviaVisible = false ∧ ∃ ts, Dotted ts ∧ s.Took v ts
  refine (repeatWhile_invariant (I := I) (fun h => by cases h; rfl) ?_
    ⟨hhidden, _, .single hfirst, htook⟩ h).2
  rintro _ _ v w hmore ⟨hv, ts, hts, htook⟩ hbody
  have hdot := (kind_of_nextIsSymbol hmore).2
  obtain ⟨dot, x, hx, hbody⟩ := bind_eq_ok.1 hbody
  obtain ⟨part, y, hy, hbody⟩ := bind_eq_ok.1 hbody
  obtain ⟨-, rfl⟩ := pure_ok hbody
  obtain ⟨rfl, hadvance⟩ := took_of_advance hv (by rw [hdot]; simp) hx
  have hxv := (Orderly.evolves_ok _ hx).triviaVisible.trans hv
  obtain ⟨hpart, hname⟩ := took_of_name hxv hy
  exact ⟨(Orderly.evolves_ok _ hy).triviaVisible.trans hxv, _, .snoc hts hdot hpart,
    htook.trans (hadvance.trans hname)⟩

end Parser

end Rulebook
