import Rulebook.Proofs.Readings

/-!
# States abreast

What is known of two states abreast, and which steps of both keep them so: consuming tokens that are
alike, passing over embedded code, reporting the same error, recovering in the same way.
-/

namespace Rulebook

open Rulebook.Parser

variable {T : Readings} {s t : State}

namespace Parser

theorem dead_reported {t : State} (ht : t.Steady) (e : ParseError) : (t.reported e).Dead := by
  show (t.collector.report e t.ruleName).errors ≠ []
  cases hr : t.collector.recovering with
  | true =>
    have hcap : t.collector.maxErrors ≠ some 0 := by rw [ht.uncapped]; simp
    have hdead : t.Dead := ht.honest hcap (.inl hr)
    exact (Collector.extends_report ..).errors_ne_nil hdead
  | false =>
    rw [Collector.report_of_uncapped ht.uncapped hr]
    simp

theorem dead_remarked {t : State} (ht : t.Steady) (message : String) (token : Token) :
    (t.remarked message token).Dead := by
  show (t.collector.add .general message (some token) t.ruleName).errors ≠ []
  rw [Collector.add_of_uncapped ht.uncapped]
  simp

end Parser

namespace Readings

theorem leftAfter_of_left {x y r q : List Token} {a b : Token}
    (h : T.left (x ++ a :: r) (y ++ b :: q)) (ha : a.isTrivia = false) (hb : b.isTrivia = false)
    (hn : (visible x).length = (visible y).length) : T.leftAfter r q := by
  generalize hm : (visible x).length = m at hn
  induction m generalizing x y with
  | zero =>
    exact T.consume h (List.length_eq_zero_iff.1 hm) (List.length_eq_zero_iff.1 hn.symm) ha hb
  | succ m ih =>
    obtain ⟨x₀, c, x₁, rfl, hx₀, hc⟩ :=
      @exists_first_visible x (by intro hnil; simp [hnil] at hm)
    obtain ⟨y₀, d, y₁, rfl, hy₀, hd⟩ :=
      @exists_first_visible y (by intro hnil; simp [hnil] at hn)
    rw [visible_append, hx₀, visible_cons_of_not_trivia hc, List.nil_append,
      List.length_cons] at hm
    rw [visible_append, hy₀, visible_cons_of_not_trivia hd, List.nil_append,
      List.length_cons] at hn
    rw [List.append_assoc, List.append_assoc, List.cons_append, List.cons_append] at h
    exact ih (T.left_of_after (T.consume h hx₀ hy₀ hc hd)) (Nat.succ.inj hm) (Nat.succ.inj hn)

theorem leftAfter_of_pass {x y r q : List Token} (h : T.leftAfter (x ++ r) (y ++ q))
    (hn : (visible x).length = (visible y).length) (hr : Starts r) (hq : Starts q)
    (hcut : q = [] → ¬T.cut) : T.leftAfter r q := by
  by_cases hx : visible x = []
  · have hy : visible y = [] := by
      rw [hx] at hn
      exact List.length_eq_zero_iff.1 hn.symm
    exact T.pass h hx hy hr hq hcut
  · have hy : visible y ≠ [] := by
      intro hnil
      rw [hnil] at hn
      exact hx (List.length_eq_zero_iff.1 hn)
    obtain ⟨x₀, c, x₁, rfl, hx₁, hc⟩ := exists_last_visible hx
    obtain ⟨y₀, d, y₁, rfl, hy₁, hd⟩ := exists_last_visible hy
    rw [visible_append, visible_append, visible_cons_of_not_trivia hc,
      visible_cons_of_not_trivia hd, hx₁, hy₁, List.length_append, List.length_append] at hn
    have h' := h
    rw [List.append_assoc, List.append_assoc, List.cons_append, List.cons_append] at h'
    exact T.pass (leftAfter_of_left (T.left_of_after h') hc hd (Nat.succ.inj hn)) hx₁ hy₁ hr hq hcut

theorem Reported.tokenMatched {c d : Collector} (h : T.Reported c d) :
    T.Reported c.tokenMatched d.tokenMatched :=
  ⟨h.sourceName, h.first_uncapped, h.second_uncapped, rfl, h.errors⟩

theorem Recovered.none (i j : Nat) : Recovered none none i j :=
  ⟨by simp, by simp, by simp⟩

theorem Recovered.move {m n : Option Nat} {i j i' j' : Nat} (h : Recovered m n i j) (hi : i < i')
    (hj : j < j') : Recovered m n i' j' where
  here := by
    refine ⟨fun hm => ?_, fun hn => ?_⟩
    · have := h.first_le i' hm
      omega
    · have := h.second_le j' hn
      omega
  first_le k hk := Nat.le_of_lt (Nat.lt_of_le_of_lt (h.first_le k hk) hi)
  second_le k hk := Nat.le_of_lt (Nat.lt_of_le_of_lt (h.second_le k hk) hj)

/-- Tokens of which the same number is visible, at the same place of the two texts. -/
theorem like_of_left {x y r q : List Token} (h : T.left (x ++ r) (y ++ q))
    (hn : (visible x).length = (visible y).length) :
    List.Forall₂ (Token.Like T.likeness) (visible x) (visible y) := by
  obtain ⟨v, hv, hlike⟩ := T.visible_left h
  rw [visible_append] at hv hlike
  have hlength : (visible x).length ≤ v.length := by
    rw [hlike.length_eq, List.length_append, hn]
    exact Nat.le_add_right _ _
  have hx : v.take (visible x).length = visible x := by
    have htake := congrArg (List.take (visible x).length) hv
    rw [List.take_left, List.take_append_of_le_length hlength] at htake
    exact htake.symm
  have hy : (visible y ++ visible q).take (visible x).length = visible y := by
    rw [hn, List.take_left]
  rw [← hx, ← hy]
  exact List.forall₂_take _ hlike

namespace Abreast

theorem first_hidden (h : T.Abreast s t) : s.cursor.triviaVisible = false := by
  rw [h.first]; exact T.first_hidden

theorem second_hidden (h : T.Abreast s t) : t.cursor.triviaVisible = false := by
  rw [h.second]; exact T.second_hidden

theorem first_front (h : T.Abreast s t) : s.cursor.front = T.first.front := by
  rw [h.first]; rfl

theorem second_front (h : T.Abreast s t) : t.cursor.front = T.second.front := by
  rw [h.second]; rfl

theorem first_last (h : T.Abreast s t) : s.cursor.last = T.first.last := by
  rw [h.first]; rfl

theorem second_last (h : T.Abreast s t) : t.cursor.last = T.second.last := by
  rw [h.second]; rfl

theorem mem_second (h : T.Abreast s t) {b : Token} (hb : b ∈ t.cursor.rest) :
    b ∈ T.second.front.toList := by
  rw [← h.second_front]
  exact List.mem_of_mem_drop hb

theorem mem_first (h : T.Abreast s t) {a : Token} (ha : a ∈ s.cursor.rest) :
    a ∈ T.first.front.toList := by
  rw [← h.first_front]
  exact List.mem_of_mem_drop ha

theorem first_text (h : T.Abreast s t) {k : Symbol} (hk : s.cursor.current.kind = .symbol k) :
    s.cursor.current.text = k.text :=
  T.first_faithful.symbol _ (h.mem_first (Cursor.current_mem_rest (by rw [hk]; simp))) k hk

theorem second_text (h : T.Abreast s t) {k : Symbol} (hk : t.cursor.current.kind = .symbol k) :
    t.cursor.current.text = k.text :=
  T.second_faithful.symbol _ (h.mem_second (Cursor.current_mem_rest (by rw [hk]; simp))) k hk

theorem ahead (h : T.Abreast s t) : ∃ v, s.cursor.ahead = v ++ T.beyond ∧
    List.Forall₂ (Token.Like T.likeness) v t.cursor.ahead :=
  T.visible_left h.left

/-- The next tokens are alike, or the second text has come to the end where it is cut off. -/
theorem live_or_cut (h : T.Abreast s t) :
    T.Live s t ∨ T.cut ∧ t.AtEnd ∧ s.cursor.current.kind ∈ T.borders := by
  obtain ⟨v, hs, hv⟩ := h.ahead
  unfold Live
  rw [Cursor.current_of_hidden h.first_hidden, Cursor.current_of_hidden h.second_hidden, hs]
  cases ht : t.cursor.ahead with
  | nil =>
    rw [ht] at hv
    cases hv
    by_cases hcut : T.cut
    · obtain ⟨b, bs, hb, hk⟩ := T.border hcut
      refine .inr ⟨hcut, ht, ?_⟩
      rw [hb]
      exact hk
    · obtain ⟨hb, hlast⟩ := T.last hcut
      refine .inl ?_
      rw [hb, h.first_last, h.second_last]
      exact hlast
  | cons b bs =>
    rw [ht] at hv
    cases hv with
    | cons hab hv => exact .inl hab

theorem live_of_kind (h : T.Abreast s t) (hk : t.cursor.current.kind ≠ .endOfInput) :
    T.Live s t := by
  rcases h.live_or_cut with hlive | ⟨-, hend, -⟩
  · exact hlive
  · rw [Cursor.current_of_ahead_eq_nil h.second_hidden hend] at hk
    exact absurd rfl hk

theorem ahead_ne_nil (h : T.Abreast s t) (hcut : T.cut) (hlive : T.Live s t) :
    t.cursor.ahead ≠ [] := by
  intro hend
  obtain ⟨v, hs, hv⟩ := h.ahead
  rw [hend] at hv
  cases hv
  obtain ⟨b, bs, hb, hk⟩ := T.border hcut
  have hkind : s.cursor.current.kind = t.cursor.current.kind := hlive.kind
  rw [Cursor.current_of_hidden h.first_hidden, Cursor.current_of_hidden h.second_hidden, hs, hend,
    hb] at hkind
  rw [show b.kind = .endOfInput from hkind] at hk
  exact absurd (T.borders_subset hk) (by decide)

/-- Up to the end of the second text, further tokens are a given symbol in both readings or in
none, unless it may follow there. -/
theorem symbol_lookahead (h : T.Abreast s t) {n : Nat} (hn : T.cut → n ≤ t.cursor.ahead.length)
    {k : Symbol} (hsymbol : .symbol k ∉ T.borders) : (s.cursor.lookahead (n + 1)).kind = .symbol k ↔
      (t.cursor.lookahead (n + 1)).kind = .symbol k := by
  obtain ⟨v, hs, hv⟩ := h.ahead
  have hlength := hv.length_eq
  rw [Cursor.lookahead_of_hidden h.first_hidden, Cursor.lookahead_of_hidden h.second_hidden, hs]
  by_cases hlt : n < v.length
  · have hlt' : n < t.cursor.ahead.length := hlength ▸ hlt
    have hab := (List.forall₂_iff_get.1 hv).2 n hlt hlt'
    rw [List.getD_eq_getElem?_getD, List.getD_eq_getElem?_getD, List.getElem?_append_left hlt,
      List.getElem?_eq_getElem hlt, List.getElem?_eq_getElem hlt', Option.getD_some,
      Option.getD_some]
    exact (hab.kind ▸ Iff.rfl)
  · have hge : t.cursor.ahead.length ≤ n := by omega
    have ht : (t.cursor.ahead.getD n t.cursor.last).kind = .endOfInput := by
      rw [List.getD_eq_getElem?_getD, List.getElem?_eq_none hge]
      rfl
    rw [ht]
    by_cases hcut : T.cut
    · obtain ⟨b, bs, hb, hk⟩ := T.border hcut
      have hn' := hn hcut
      rw [List.getD_eq_getElem?_getD, List.getElem?_append_right (by omega),
        show n - v.length = 0 by omega, hb]
      show b.kind = _ ↔ _
      constructor
      · intro heq
        exact absurd (heq ▸ hk) hsymbol
      · intro heq
        cases heq
    · obtain ⟨hb, -⟩ := T.last hcut
      rw [hb, List.append_nil, List.getD_eq_getElem?_getD, List.getElem?_eq_none (by omega)]
      rfl

theorem kind_of_atEnd (h : T.Abreast s t) (hend : t.AtEnd) :
    t.cursor.current.kind = .endOfInput := by
  rw [Cursor.current_of_ahead_eq_nil h.second_hidden hend]
  rfl

/-! ### Consuming -/

/-- Both pass tokens up to and with visible ones of the same number. -/
theorem moved (h : T.Abreast s t) {x y r q : List Token} {a b : Token}
    (hs : s.cursor.rest = x ++ a :: r) (ht : t.cursor.rest = y ++ b :: q)
    (ha : a.isTrivia = false) (hb : b.isTrivia = false) (hab : a.Like T.likeness b)
    (hn : (visible x).length = (visible y).length) :
    T.Abreast (s.moved (x.length + 1)) (t.moved (y.length + 1)) := by
  have hs' : s.cursor.rest = (x ++ [a]) ++ r := by rw [hs]; simp
  have ht' : t.cursor.rest = (y ++ [b]) ++ q := by rw [ht]; simp
  have hrest : (s.moved (x.length + 1)).cursor.rest = r := by
    have := Cursor.rest_moved hs'
    simpa [State.moved] using this
  have hrest' : (t.moved (y.length + 1)).cursor.rest = q := by
    have := Cursor.rest_moved ht'
    simpa [State.moved] using this
  have hsize : s.cursor.index + (x ++ [a]).length ≤ s.cursor.front.size :=
    Cursor.le_size_of_rest hs' (h.first_front ▸ h.first_le)
  have hsize' : t.cursor.index + (y ++ [b]).length ≤ t.cursor.front.size :=
    Cursor.le_size_of_rest ht' (h.second_front ▸ h.second_le)
  have hleft : T.leftAfter r q := leftAfter_of_left (hs ▸ ht ▸ h.left) ha hb hn
  refine { h with
    first := ?_, second := ?_, first_le := ?_, second_le := ?_, left := ?_, after := fun _ => ?_,
    previous := ?_, recovered := h.recovered.move ?_ ?_ }
  · show s.cursor.rewind _ = T.first.rewind _
    rw [h.first]; rfl
  · show t.cursor.rewind _ = T.second.rewind _
    rw [h.second]; rfl
  · rw [← h.first_front]
    show s.cursor.index + (x.length + 1) ≤ _
    simpa using hsize
  · rw [← h.second_front]
    show t.cursor.index + (y.length + 1) ≤ _
    simpa using hsize'
  · rw [hrest, hrest']
    exact T.left_of_after hleft
  · rw [hrest, hrest']
    exact hleft
  · have hp : (s.moved (x.length + 1)).cursor.previous = some a := Cursor.previous_of_rest hs ha
    have hq : (t.moved (y.length + 1)).cursor.previous = some b := Cursor.previous_of_rest ht hb
    rw [hp, hq]
    exact .inl (.some hab)
  · show s.cursor.index < s.cursor.index + (x.length + 1)
    omega
  · show t.cursor.index < t.cursor.index + (y.length + 1)
    omega

theorem matched (h : T.Abreast s t) : T.Abreast
    { s with collector := if s.trials = 0 then s.collector.tokenMatched else s.collector }
    { t with collector := if t.trials = 0 then t.collector.tokenMatched else t.collector } := by
  have hreported : T.Reported
      (if s.trials = 0 then s.collector.tokenMatched else s.collector)
      (if t.trials = 0 then t.collector.tokenMatched else t.collector) := by
    rw [h.trials]
    split
    · exact Reported.tokenMatched h.reported
    · exact h.reported
  refine { h with reported := hreported, clean := fun hcut => ?_ }
  obtain ⟨hnil, hhonest, hlast⟩ := h.clean hcut
  dsimp only
  split
  · exact ⟨hnil, t.collector.extends_tokenMatched.honest hhonest, hlast⟩
  · exact ⟨hnil, hhonest, hlast⟩

theorem consumed (h : T.Abreast s t) (hlive : T.Live s t) :
    T.Abreast { s with cursor := s.cursor.consume } { t with cursor := t.cursor.consume } := by
  by_cases hk : t.cursor.current.kind = .endOfInput
  · have hk' : s.cursor.current.kind = .endOfInput := hlive.kind.trans hk
    rw [Cursor.consume_of_end hk, Cursor.consume_of_end hk']
    exact h
  · have hk' : s.cursor.current.kind ≠ .endOfInput := fun heq => hk (hlive.kind.symm.trans heq)
    obtain ⟨x, hx, hs, hs'⟩ := Cursor.rest_of_current hk'
    obtain ⟨y, hy, ht, ht'⟩ := Cursor.rest_of_current hk
    rw [hs', ht']
    exact h.moved hs ht (Cursor.current_not_trivia h.first_hidden)
      (Cursor.current_not_trivia h.second_hidden) hlive (by rw [hx, hy])

theorem advanced (h : T.Abreast s t) (hlive : T.Live s t) : T.Abreast s.advanced t.advanced :=
  (h.consumed hlive).matched

/-- The token before, once a token was consumed. -/
theorem previous_advanced (h : T.Abreast s t) (hk : t.cursor.current.kind ≠ .endOfInput) :
    t.advanced.cursor.previous = some t.cursor.current :=
  Cursor.previous_consume h.second_hidden hk

theorem fresh_advanced (h : T.Abreast s t) (hlive : T.Live s t)
    (hk : t.cursor.current.kind ≠ .endOfInput) :
    (∀ k ∈ s.advanced.lastRecovery, k < s.advanced.cursor.index) ∧
      ∀ k ∈ t.advanced.lastRecovery, k < t.advanced.cursor.index := by
  have hk' : s.cursor.current.kind ≠ .endOfInput := fun heq => hk (hlive.kind.symm.trans heq)
  exact ⟨fun k hmem => Nat.lt_of_le_of_lt (h.recovered.first_le k hmem)
    (Cursor.index_lt_consume hk'),
    fun k hmem => Nat.lt_of_le_of_lt (h.recovered.second_le k hmem) (Cursor.index_lt_consume hk)⟩

theorem previous_moved {s : State} {x r : List Token} (hs : s.cursor.rest = x ++ r)
    (hle : s.cursor.index ≤ s.cursor.front.size) :
    (s.moved x.length).cursor.previous = (visible x).getLast?.or s.cursor.previous := by
  have htake : s.cursor.front.toList.take (s.cursor.index + x.length) =
      s.cursor.front.toList.take s.cursor.index ++ x := by
    rw [List.take_add, show s.cursor.front.toList.drop s.cursor.index = x ++ r from hs,
      List.take_left]
  rw [Cursor.previous_eq (c := (s.moved x.length).cursor) (Cursor.le_size_of_rest hs hle),
    Cursor.previous_eq hle]
  show (visible (s.cursor.front.toList.take (s.cursor.index + x.length))).getLast? = _
  rw [htake, visible_append, List.getLast?_append]

/-- Both pass tokens of which the same number is visible, after a token that was consumed. -/
theorem passed (h : T.Abreast s t) (hafter : T.leftAfter s.cursor.rest t.cursor.rest)
    (hfresh : (∀ k ∈ s.lastRecovery, k < s.cursor.index) ∧ ∀ k ∈ t.lastRecovery, k < t.cursor.index)
    {x y r q : List Token} (hs : s.cursor.rest = x ++ r) (ht : t.cursor.rest = y ++ q)
    (hn : (visible x).length = (visible y).length) (hr : Starts r) (hq : Starts q)
    (hcut : q = [] → ¬T.cut) : T.Abreast (s.moved x.length) (t.moved y.length) := by
  have hsize : s.cursor.index ≤ s.cursor.front.size := h.first_front ▸ h.first_le
  have hsize' : t.cursor.index ≤ t.cursor.front.size := h.second_front ▸ h.second_le
  have hleft : T.leftAfter r q := leftAfter_of_pass (hs ▸ ht ▸ hafter) hn hr hq hcut
  have hrest : (s.moved x.length).cursor.rest = r := Cursor.rest_moved hs
  have hrest' : (t.moved y.length).cursor.rest = q := Cursor.rest_moved ht
  have hle : s.cursor.index ≤ (s.moved x.length).cursor.index := Nat.le_add_right _ _
  have hle' : t.cursor.index ≤ (t.moved y.length).cursor.index := Nat.le_add_right _ _
  refine { h with
    first := ?_, second := ?_, first_le := ?_, second_le := ?_, left := ?_, after := fun _ => ?_,
    previous := ?_, recovered := ⟨⟨fun hm => ?_, fun hm => ?_⟩, fun k hm => ?_, fun k hm => ?_⟩ }
  · show s.cursor.rewind _ = T.first.rewind _
    rw [h.first]; rfl
  · show t.cursor.rewind _ = T.second.rewind _
    rw [h.second]; rfl
  · exact h.first_front ▸ Cursor.le_size_of_rest hs hsize
  · exact h.second_front ▸ Cursor.le_size_of_rest ht hsize'
  · rw [hrest, hrest']
    exact T.left_of_after hleft
  · rw [hrest, hrest']
    exact hleft
  · rw [previous_moved hs hsize, previous_moved ht hsize']
    have hlike := like_of_left (hs ▸ ht ▸ h.left) hn
    generalize visible x = v at hlike
    generalize visible y = w at hlike
    rcases List.eq_nil_or_concat v with rfl | ⟨v, a, rfl⟩
    · cases hlike
      exact h.previous
    · rcases List.eq_nil_or_concat w with rfl | ⟨w, b, rfl⟩
      · exact absurd hlike.length_eq (by simp)
      · rw [List.concat_eq_append, List.concat_eq_append] at hlike
        rw [List.concat_eq_append, List.concat_eq_append, List.getLast?_concat,
          List.getLast?_concat]
        have hlast := (List.forall₂_reverse_iff.2 hlike)
        rw [List.reverse_concat, List.reverse_concat] at hlast
        cases hlast with
        | cons hab _ => exact .inl (.some hab)
  · exact absurd (hfresh.1 _ hm) (Nat.not_lt.2 hle)
  · exact absurd (hfresh.2 _ hm) (Nat.not_lt.2 hle')
  · exact Nat.le_trans (Nat.le_of_lt (hfresh.1 k hm)) hle
  · exact Nat.le_trans (Nat.le_of_lt (hfresh.2 k hm)) hle'

/-- Behind a token that does not end a statement, the next tokens are alike again. -/
theorem live_advanced [T.BetweenStatements] (h : T.Abreast s t) (hlive : T.Live s t)
    (hk : t.cursor.current.kind ∉ .endOfInput :: closerKinds) : T.Live s.advanced t.advanced := by
  rw [List.mem_cons, not_or] at hk
  rcases (h.advanced hlive).live_or_cut with hlive' | ⟨hcut, hend, -⟩
  · exact hlive'
  · have hlast : (visible T.second.front.toList).getLast? = some t.cursor.current := by
      have hahead := Cursor.ahead_consume h.second_hidden hk.1
      rw [show t.cursor.consume.ahead = [] from hend] at hahead
      have hsplit := List.take_append_drop t.cursor.index T.second.front.toList
      rw [← hsplit, visible_append, ← h.second_front, show visible (t.cursor.front.toList.drop _) =
        [t.cursor.current] from hahead, List.getLast?_concat]
    exact absurd (BetweenStatements.closer hcut _ hlast) hk.2

/-! ### Reports -/

theorem steady (h : T.Abreast s t) (hcut : T.cut) : t.Steady :=
  ⟨h.second_hidden, h.reported.second_uncapped, (h.clean hcut).2.1⟩

theorem kept_append (l : Likeness) (ds : List Diagnostic) (d : Diagnostic) :
    l.kept (ds ++ [d]) = l.kept ds ++ if l.keep d.kind then [d] else [] := by
  unfold Likeness.kept
  rw [List.filter_append]
  congr 1
  by_cases hk : l.keep d.kind = true <;> simp [hk]

theorem kept_append_like {l : Likeness} {ds es : List Diagnostic} {d e : Diagnostic}
    (h : List.Forall₂ (Diagnostic.Like l) (l.kept ds) (l.kept es)) (hde : d.Like l e) :
    List.Forall₂ (Diagnostic.Like l) (l.kept (ds ++ [d])) (l.kept (es ++ [e])) := by
  rw [kept_append, kept_append, hde.kind]
  refine List.rel_append h ?_
  split
  · exact .cons hde .nil
  · exact .nil

theorem reported_report {c d : Collector} {e f : ParseError} (h : T.Reported c d)
    (hef : e.Like T.likeness f) (ruleName : Option String) :
    T.Reported (c.report e ruleName) (d.report f ruleName) := by
  cases hr : d.recovering with
  | true =>
    have hr' : c.recovering = true := h.recovering.trans hr
    unfold Collector.report
    rw [hr, hr', if_pos rfl, if_pos rfl]
    exact ⟨h.sourceName, h.first_uncapped, h.second_uncapped, rfl, h.errors⟩
  | false =>
    rw [Collector.report_of_uncapped h.first_uncapped (h.recovering.trans hr),
      Collector.report_of_uncapped h.second_uncapped hr]
    refine ⟨h.sourceName, h.first_uncapped, h.second_uncapped, rfl, kept_append_like h.errors ?_⟩
    obtain ⟨a, b, ha, hb, hab⟩ := hef.token
    rw [ha, hb, hef.kind, hef.message, h.sourceName]
    exact .ofToken hab _ _ _ _

theorem report (h : T.Abreast s t) (hcut : ¬T.cut) {e f : ParseError}
    (hef : e.Like T.likeness f) : T.Abreast (s.reported e) (t.reported f) := by
  refine { h with reported := ?_, clean := fun h => absurd h hcut }
  show T.Reported (s.collector.report e s.ruleName) (t.collector.report f t.ruleName)
  rw [h.ruleName]
  exact reported_report h.reported hef _

theorem remark (h : T.Abreast s t) (hcut : ¬T.cut) {a b : Token} (hab : a.Like T.likeness b)
    (message : String) : T.Abreast (s.remarked message a) (t.remarked message b) := by
  refine { h with reported := ?_, clean := fun h => absurd h hcut }
  show T.Reported (s.collector.add .general message (some a) s.ruleName)
    (t.collector.add .general message (some b) t.ruleName)
  have hr := h.reported
  rw [Collector.add_of_uncapped hr.first_uncapped, Collector.add_of_uncapped hr.second_uncapped,
    h.ruleName]
  refine ⟨hr.sourceName, hr.first_uncapped, hr.second_uncapped, hr.recovering,
    kept_append_like hr.errors ?_⟩
  rw [hr.sourceName]
  exact .ofToken hab _ _ _ _

/-- Remarks that do not count may be made in one of the readings alone. -/
theorem reported_add_first {c d : Collector} (h : T.Reported c d)
    (hkeep : T.likeness.keep .general = false) (message : String) (token : Option Token)
    (ruleName : Option String) : T.Reported (c.add .general message token ruleName) d := by
  rw [Collector.add_of_uncapped h.first_uncapped]
  refine ⟨h.sourceName, h.first_uncapped, h.second_uncapped, h.recovering, ?_⟩
  dsimp only
  rw [kept_append, show (Diagnostic.ofToken ErrorKind.general c.sourceName message token
    ruleName).kind = .general by unfold Diagnostic.ofToken; split <;> rfl, hkeep]
  simpa using h.errors

theorem reported_add_second {c d : Collector} (h : T.Reported c d)
    (hkeep : T.likeness.keep .general = false) (message : String) (token : Option Token)
    (ruleName : Option String) : T.Reported c (d.add .general message token ruleName) := by
  rw [Collector.add_of_uncapped h.second_uncapped]
  refine ⟨h.sourceName, h.first_uncapped, h.second_uncapped, h.recovering, ?_⟩
  dsimp only
  rw [kept_append, show (Diagnostic.ofToken ErrorKind.general d.sourceName message token
    ruleName).kind = .general by unfold Diagnostic.ofToken; split <;> rfl, hkeep]
  simpa using h.errors

/-! ### Recovery -/

theorem skipped {n : Nat} (h : T.Abreast s t) (hcut : ¬T.cut) (kinds : List TokenKind) :
    T.Abreast { s with cursor := (s.cursor.skipUntil kinds n).1 }
      { t with cursor := (t.cursor.skipUntil kinds n).1 } := by
  generalize hm : t.cursor.remaining = m
  induction m using Nat.strongRecOn generalizing s t n with
  | ind m ih =>
    have hlive : T.Live s t := h.live_or_cut.resolve_right fun hc => hcut hc.1
    have hk : s.cursor.current.kind = t.cursor.current.kind := hlive.kind
    rw [Cursor.skipUntil.eq_def kinds s.cursor, Cursor.skipUntil.eq_def kinds t.cursor, hk]
    split
    · exact h
    next hend =>
    split
    · exact h
    · have hlt := Cursor.remaining_consume_lt hend
      exact ih _ (hm ▸ hlt) (h.consumed hlive) rfl

theorem recover (h : T.Abreast s t) (hcut : ¬T.cut) (kinds : List TokenKind) :
    T.Abreast (s.recovered kinds) (t.recovered kinds) := by
  have hlive : T.Live s t := h.live_or_cut.resolve_right fun hc => hcut hc.1
  have hstart : T.Abreast { s with cursor := s.recoveryStart } { t with
      cursor := t.recoveryStart } := by
    unfold State.recoveryStart
    by_cases hhere : t.lastRecovery = some t.cursor.index
    · rw [if_pos hhere, if_pos (h.recovered.here.2 hhere)]
      exact h.consumed hlive
    · rw [if_neg hhere, if_neg fun hs => hhere (h.recovered.here.1 hs)]
      exact h
  have hmarked : T.Abreast
      { s with cursor := s.recoveryStart, lastRecovery := some s.recoveryStart.index }
      { t with cursor := t.recoveryStart, lastRecovery := some t.recoveryStart.index } := by
    refine { hstart with recovered := ⟨⟨fun _ => rfl, fun _ => rfl⟩, ?_, ?_⟩,
                         clean := fun hc => absurd hc hcut }
    · intro k hk
      cases hk
      exact Nat.le_refl _
    · intro k hk
      cases hk
      exact Nat.le_refl _
  have hskipped := hmarked.skipped (n := 0) hcut kinds
  exact { hskipped with }

/-! ### Trials -/

theorem trying (h : T.Abreast s t) : T.Abreast s.trying t.trying :=
  { h with trials := congrArg (· + 1) h.trials }

theorem declared (h : T.Abreast s t) {f g : Package → Package}
    (hfg : (f s.package).Like T.likeness (g t.package)) :
    T.Abreast (s.declared f) (t.declared g) :=
  { h with package := hfg }

end Abreast

end Readings

end Rulebook
