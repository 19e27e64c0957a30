import Rulebook.Proofs.Alongside
import Rulebook.Proofs.Behind
import Rulebook.Proofs.LayoutConditions
import Rulebook.Proofs.Outlines

/-!
# What stands around a condition

A production may take parentheses, connectives and semicolons before and behind the conditions that
it gives: they are no part of what the conditions cover. A frame tells which tokens these are, and
that together with the outline of the conditions they make paired parentheses.
-/

namespace Rulebook

variable {hashComments : Bool} {text : String}

/-! ### The tokens between two places -/

namespace Cursor.Over

variable {c : Cursor} {t : Token}

theorem stop_le_past_of_mem (h : c.Over text) (ht : t ∈ c.behind) :
    t.start < t.stop ∧ t.stop ≤ c.past := by
  obtain ⟨hmem, hvisible⟩ := List.mem_filter.1 ht
  obtain ⟨i, hi, rfl⟩ := List.mem_take_iff_getElem.1 hmem
  rw [Nat.lt_min, Array.length_toList] at hi
  have htoken : c.tokenAt i = c.front.toList[i] := c.tokenAt_of_lt hi.2
  rw [← htoken] at hvisible ⊢
  exact ⟨h.solid hi.2, h.stop_le_lastBefore hi.1 (by simpa using hvisible)⟩

theorem coming_le_of_mem (h : c.Over text) (ht : t ∈ c.ahead) :
    t.start < t.stop ∧ c.coming ≤ t.start := by
  rw [ahead, rest, ← visible_seek h.hidden] at ht
  obtain ⟨hmem, -⟩ := List.mem_filter.1 ht
  obtain ⟨i, hi, rfl⟩ := List.mem_drop_iff_getElem.1 hmem
  rw [Array.length_toList] at hi
  have htoken : c.tokenAt (c.seek c.index + i) = c.front.toList[c.seek c.index + i] :=
    c.tokenAt_of_lt (by omega)
  rw [← htoken]
  refine ⟨h.solid (by omega), ?_⟩
  rcases Nat.eq_zero_or_pos i with rfl | hpos
  · exact Nat.le_refl _
  · exact Nat.le_trans (h.stands _).start_le (h.ordered (by omega))

end Cursor.Over

namespace Parser

variable {s t u v : State} {ks ls ms : List TokenKind}

/-- The kinds of the tokens that are taken from one state to another, trivia aside. -/
structure State.Passed (s t : State) (kinds : List TokenKind) : Prop where
  evolves : s.Evolves t
  took : ∃ ts, s.Took t ts ∧ ts.map (·.kind) = kinds

namespace State.Passed

theorem refl (s : State) : s.Passed s [] := ⟨.refl s, [], .refl s, rfl⟩

theorem restacked (h : s.Passed t ks) (stack : Stack) :
    State.Passed { s with stack } { t with stack } ks :=
  ⟨h.evolves.restacked stack, h.took⟩

theorem trans (h : s.Passed t ks) (h' : t.Passed u ls) : s.Passed u (ks ++ ls) := by
  obtain ⟨hst, ts, htook, rfl⟩ := h
  obtain ⟨htu, us, htook', rfl⟩ := h'
  exact ⟨hst.trans htu, ts ++ us, htook.trans htook', List.map_append⟩

theorem of_evolves (h : s.Evolves t) : ∃ kinds, s.Passed t kinds := by
  obtain ⟨ts, -, htook⟩ := Took.exists_of_evolves h
  exact ⟨_, h, ts, htook, rfl⟩

theorem of_expect {kind : TokenKind} {token : Token} (hs : s.cursor.triviaVisible = false)
    (hk : kind ≠ .endOfInput) (h : expect kind s = .ok token t) : s.Passed t [kind] := by
  obtain ⟨hkind, htook⟩ := took_of_expect hs hk h
  exact ⟨Orderly.evolves_ok (expect kind) h, _, htook, by rw [List.map_singleton, hkind]⟩

theorem of_advance {token : Token} (hs : s.cursor.triviaVisible = false)
    (hk : s.cursor.current.kind ≠ .endOfInput) (h : advance s = .ok token t) :
    s.Passed t [s.cursor.current.kind] := by
  obtain ⟨rfl, htook⟩ := took_of_advance hs hk h
  exact ⟨Orderly.evolves_ok advance h, _, htook, rfl⟩

theorem of_skip {k : Symbol} (hs : s.cursor.triviaVisible = false) (h : skip k s = .ok () t) :
    ∃ kinds, s.Passed t kinds ∧ ∀ kind ∈ kinds, kind = .symbol k := by
  obtain ⟨ts, hts, htook⟩ := took_of_skip hs h
  refine ⟨_, ⟨Orderly.evolves_ok (skip k) h, ts, htook, rfl⟩, ?_⟩
  rcases hts with rfl | ⟨token, rfl, hkind⟩
  · exact fun _ hno => absurd hno List.not_mem_nil
  · exact List.forall_mem_singleton.2 hkind

theorem kindsBetween_eq (h : s.Passed t ks) (hs : s.cursor.Over text)
    (hfront : s.cursor.front.toList = tokens hashComments text) :
    kindsBetween hashComments text s.cursor.past t.cursor.coming = ks := by
  obtain ⟨hst, ts, htook, rfl⟩ := h
  have ht : t.cursor.Over text := (State.Onward.of_evolves hs hst).stays
  have hall : visible (tokens hashComments text) = s.cursor.behind ++ (ts ++ t.cursor.ahead) := by
    rw [← hfront, ← hst.front, ← t.cursor.behind_append_ahead, htook, List.append_assoc]
  have hbefore : ∀ x ∈ s.cursor.behind,
      ¬(decide (s.cursor.past ≤ x.start ∧ x.stop ≤ t.cursor.coming) = true) := fun x hx => by
    obtain ⟨hlt, hle⟩ := hs.stop_le_past_of_mem hx
    rw [decide_eq_true_eq]
    omega
  have hafter : ∀ x ∈ t.cursor.ahead,
      ¬(decide (s.cursor.past ≤ x.start ∧ x.stop ≤ t.cursor.coming) = true) := fun x hx => by
    obtain ⟨hlt, hle⟩ := ht.coming_le_of_mem hx
    rw [decide_eq_true_eq]
    omega
  have hwithin : ∀ x ∈ ts,
      decide (s.cursor.past ≤ x.start ∧ x.stop ≤ t.cursor.coming) = true := fun x hx => by
    have hahead : x ∈ s.cursor.ahead := by
      have hsame := s.cursor.behind_append_ahead
      rw [← hst.front, ← t.cursor.behind_append_ahead, htook, List.append_assoc,
        List.append_cancel_left_eq] at hsame
      rw [hsame]
      exact List.mem_append_left _ hx
    have hbehind : x ∈ t.cursor.behind := htook ▸ List.mem_append_right _ hx
    have hstart := (hs.coming_le_of_mem hahead).2
    have hstop := (ht.stop_le_past_of_mem hbehind).2
    have hle := hs.past_le_coming
    have hle' := ht.past_le_coming
    rw [decide_eq_true_eq]
    omega
  rw [kindsBetween, hall, List.filter_append, List.filter_append, List.filter_eq_nil_iff.2 hbefore,
    List.filter_eq_nil_iff.2 hafter, List.filter_eq_self.2 hwithin, List.nil_append,
      List.append_nil]

end State.Passed

/-! ### States over a text -/

structure State.Earnest (hashComments : Bool) (text : String) (s : State) : Prop where
  cursor : s.cursor = (Cursor.ofTokens (scan text hashComments) text).rewind s.cursor.index
  trials : s.trials = 0

namespace State.Earnest

theorem cursor_over (hs : s.Earnest hashComments text) : s.cursor.Over text := by
  rw [hs.cursor]
  exact (Cursor.over_ofTokens hashComments text).rewind _

theorem hidden (hs : s.Earnest hashComments text) : s.cursor.triviaVisible = false :=
  hs.cursor_over.hidden

theorem front (hs : s.Earnest hashComments text) :
    s.cursor.front.toList = tokens hashComments text := by
  rw [hs.cursor, ofTokens_eq]
  rfl

theorem current_mem (hs : s.Earnest hashComments text) (hk : s.cursor.current.kind ≠ .endOfInput) :
    s.cursor.current ∈ tokens hashComments text := by
  rw [← hs.front]
  exact List.mem_of_mem_drop (Cursor.current_mem_rest hk)

theorem evolves (hs : s.Earnest hashComments text) (h : s.Evolves t) :
    t.Earnest hashComments text where
  cursor := by
    have hcursor := h.cursor
    rw [hs.cursor] at hcursor
    exact hcursor
  trials := h.trials.trans hs.trials

theorem of_ok {α : Type} {p : Parser α} [Orderly p] {a : α} (hs : s.Earnest hashComments text)
    (h : p s = .ok a t) : t.Earnest hashComments text :=
  hs.evolves (Orderly.evolves_ok p h)

end State.Earnest

/-! ### Frames -/

section Outline

variable {gap : Nat → Nat → List TokenKind} {c : Condition} {cs ds : List Condition}

theorem listOutline_singleton (c : Condition) :
    Condition.listOutline gap [c] = c.outline gap := by
  rw [Condition.listOutline, List.append_nil]

theorem listOutline_append {first last : Condition} (hlast : cs.getLast? = some last)
    (hfirst : ds.head? = some first) : Condition.listOutline gap (cs ++ ds) =
      Condition.listOutline gap cs ++
        (gap (last.location.stop.getD 0) (first.location.start.getD 0) ++
          Condition.listOutline gap ds) := by
  obtain ⟨ds, rfl⟩ : ∃ es, ds = first :: es := by
    cases ds with
    | nil => cases hfirst
    | cons d es =>
      cases hfirst
      exact ⟨es, rfl⟩
  induction cs with
  | nil => cases hlast
  | cons c cs ih =>
    cases cs with
    | nil =>
      cases hlast
      rw [listOutline_singleton, List.singleton_append, Condition.listOutline]
      rfl
    | cons d cs =>
      rw [List.getLast?_cons_cons] at hlast
      have ih := ih hlast
      rw [List.cons_append] at ih
      rw [List.cons_append, List.cons_append, Condition.listOutline, ih, Condition.listOutline,
        List.append_assoc, List.append_assoc]

end Outline

variable {w x y : State} {c : Condition} {cs ds : List Condition}
  {mid opening closing opening' closing' : List TokenKind}

/-- The conditions are read from the first state to the second one. What is taken before they begin
and behind them makes paired parentheses with their outline. If these are more than one, the outline
alone is not paired unless it is all. -/
structure Framed (hashComments : Bool) (text : String) (s w : State)
    (opening closing : List TokenKind) (cs : List Condition) : Prop where
  places : ∃ x y inner, s.Passed x opening ∧ x.Passed y inner ∧ y.Passed w closing ∧
    (∃ first, cs.head? = some first ∧ first.location.start = some x.cursor.coming) ∧
    ∃ last, cs.getLast? = some last ∧ last.location.stop = some y.cursor.past
  paired :
      Paired (opening ++ (Condition.listOutline (kindsBetween hashComments text) cs ++ closing))
  opens : opening ≠ [] → .symbol .lparen ∈ opening ∧ .symbol .rparen ∉ opening
  closes : closing ≠ [] → .symbol .rparen ∈ closing ∧ .symbol .lparen ∉ closing
  tight : 2 ≤ cs.length → Paired (Condition.listOutline (kindsBetween hashComments text) cs) →
    opening = [] ∧ closing = []

def Unparenthesised (kinds : List TokenKind) : Prop :=
  ∀ k ∈ kinds, k ≠ .symbol .lparen ∧ k ≠ .symbol .rparen

namespace Framed

theorem evolves (h : Framed hashComments text s w opening closing cs) : s.Evolves w := by
  obtain ⟨x, y, inner, hsx, hxy, hyw, -⟩ := h.places
  exact hsx.evolves.trans (hxy.evolves.trans hyw.evolves)

theorem restacked (h : Framed hashComments text s w opening closing cs) (stack : Stack) :
    Framed hashComments text { s with stack } { w with stack } opening closing cs := by
  obtain ⟨x, y, inner, hsx, hxy, hyw, hcovers⟩ := h.places
  exact { h with places :=
    ⟨_, _, inner, hsx.restacked stack, hxy.restacked stack, hyw.restacked stack, hcovers⟩ }

/-- A condition that covers all that is read. -/
theorem whole (hsw : s.Evolves w) (hlaid : c.Laid text s.cursor.coming w.cursor.past)
    (houtline : c.outline (kindsBetween hashComments text) = []) :
    Framed hashComments text s w [] [] [c] where
  places := by
    obtain ⟨inner, hinner⟩ := State.Passed.of_evolves hsw
    exact ⟨s, w, inner, .refl s, hinner, .refl w, ⟨c, rfl, hlaid.location.start⟩,
      c, rfl, hlaid.location.stop⟩
  paired := by
    rw [listOutline_singleton, houtline]
    exact paired_nil
  opens h := absurd rfl h
  closes h := absurd rfl h
  tight h := absurd h (by simp)

section Append

variable (h : Framed hashComments text s w opening closing cs) (hmid : w.Passed u mid)
  (h' : Framed hashComments text u v opening' closing' ds) (hs : s.Earnest hashComments text)

include h hmid h' hs

theorem listOutline_eq : Condition.listOutline (kindsBetween hashComments text) (cs ++ ds) =
    Condition.listOutline (kindsBetween hashComments text) cs ++ ((closing ++ (mid ++ opening')) ++
      Condition.listOutline (kindsBetween hashComments text) ds) := by
  obtain ⟨x, y, inner, hsx, hxy, hyw, -, last, hlast, hstop⟩ := h.places
  obtain ⟨x', y', inner', hux, -, -, ⟨first, hfirst, hstart⟩, -⟩ := h'.places
  have hy := hs.evolves (hsx.evolves.trans hxy.evolves)
  rw [listOutline_append hlast hfirst, hstop, hstart, Option.getD_some, Option.getD_some,
    (hyw.trans (hmid.trans hux)).kindsBetween_eq hy.cursor_over hy.front]

theorem framed_eq :
    opening ++ (Condition.listOutline (kindsBetween hashComments text) (cs ++ ds) ++ closing') =
      (opening ++ (Condition.listOutline (kindsBetween hashComments text) cs ++ closing)) ++ (mid ++
        (opening' ++ (Condition.listOutline (kindsBetween hashComments text) ds ++ closing'))) := by
  rw [h.listOutline_eq hmid h' hs]
  simp only [List.append_assoc]

/-- Conditions one behind the other, with no parentheses between them but their own. -/
theorem append (hparens : Unparenthesised mid) :
    Framed hashComments text s v opening closing' (cs ++ ds) where
  places := by
    obtain ⟨x, y, inner, hsx, hxy, hyw, ⟨first, hfirst, hstart⟩, -⟩ := h.places
    obtain ⟨x', y', inner', hux, hxy', hyv, -, last, hlast, hstop⟩ := h'.places
    refine ⟨x, y', _, hsx, hxy.trans (hyw.trans (hmid.trans (hux.trans hxy'))), hyv,
      ⟨first, ?_, hstart⟩, last, ?_, hstop⟩
    · rw [List.head?_append, hfirst]
      rfl
    · rw [List.getLast?_append, hlast]
      rfl
  paired := by
    rw [h.framed_eq hmid h' hs]
    exact h.paired.append ((paired_of_no_parens hparens).append h'.paired)
  opens := h.opens
  closes := h'.closes
  tight _ hpaired := by
    rw [h.listOutline_eq hmid h' hs, List.append_assoc, ← List.append_assoc] at hpaired
    obtain ⟨e, hfirst, -⟩ := foldlM_append_eq.1 hpaired
    -- what is open before the first conditions would stay open behind them
    obtain ⟨d, hd, hrest⟩ := foldlM_append_eq.1 h.paired
    have hadd := foldlM_nest_add hfirst d
    rw [Nat.zero_add, hrest] at hadd
    have hnone : d = 0 := by
      have hsum := Option.some.inj hadd
      omega
    subst hnone
    have hopening : opening = [] := by
      by_contra hne
      obtain ⟨hlparen, hrparen⟩ := h.opens hne
      rw [foldlM_of_no_rparen hrparen 0, Nat.zero_add, Option.some.injEq, List.count_eq_zero] at hd
      exact hd hlparen
    subst hopening
    refine ⟨rfl, ?_⟩
    -- and nothing is left to be closed behind the last ones
    have hfront : Paired (Condition.listOutline (kindsBetween hashComments text) cs ++ closing) :=
      hrest
    rw [hfront.append_iff, List.append_assoc, (paired_of_no_parens hparens).append_iff] at hpaired
    have hclosing := h'.paired
    rw [← List.append_assoc, hpaired.append_iff] at hclosing
    by_contra hne
    obtain ⟨hrparen, hlparen⟩ := h'.closes hne
    exact no_rparen_of_foldlM hlparen hclosing hrparen

theorem not_exposed_append (hparens : Unparenthesised mid)
    (hkinds : ∀ k ∈ mid, k ∉ orKinds ++ andKinds)
    (hexposed : ¬Exposed
      (opening ++ (Condition.listOutline (kindsBetween hashComments text) cs ++ closing)))
      (hexposed' : ¬Exposed
        (opening' ++ (Condition.listOutline (kindsBetween hashComments text) ds ++ closing'))) :
    ¬Exposed
      (opening ++
        (Condition.listOutline (kindsBetween hashComments text) (cs ++ ds) ++ closing')) := by
  rw [h.framed_eq hmid h' hs]
  intro hno
  rcases hno.of_append h.paired with hno | hno
  · exact hexposed hno
  rcases hno.of_append (paired_of_no_parens hparens) with hno | hno
  · exact not_exposed_of_no_connective hkinds hno
  · exact hexposed' hno

end Append

theorem join {kind : Grouping} (hkind : kind = .and ∨ kind = .or) {first : Condition}
    {others : List Condition} (h : Framed hashComments text s w opening closing (first :: others)) :
    Framed hashComments text s w opening closing [join kind first others] := by
  cases hlast : others.getLast? with
  | none =>
    obtain rfl := List.getLast?_eq_none_iff.1 hlast
    exact h
  | some last =>
    have hjoin : Parser.join kind first others =
        .group kind { first.location with stop := last.location.stop } (first :: others) := by
      rw [Parser.join, hlast]
    have houtline :
        Condition.listOutline (kindsBetween hashComments text) [Parser.join kind first others] =
        Condition.listOutline (kindsBetween hashComments text) (first :: others) := by
      rw [listOutline_singleton, hjoin, Condition.outline, if_pos hkind]
    obtain ⟨x, y, inner, hsx, hxy, hyw, ⟨first', hfirst, hstart⟩, last', hlast', hstop⟩ := h.places
    cases hfirst
    rw [List.getLast?_cons, hlast] at hlast'
    cases hlast'
    refine ⟨⟨x, y, inner, hsx, hxy, hyw, ⟨_, rfl, ?_⟩, _, rfl, ?_⟩, houtline ▸ h.paired, h.opens,
      h.closes,
      fun hno => absurd hno (by simp)⟩
    · rw [hjoin]
      exact hstart
    · rw [hjoin]
      exact hstop

/-- Parentheses around a condition. -/
theorem enclose (h : Framed hashComments text s w opening closing [c])
    {before behind : List TokenKind} (hopen : u.Passed s (.symbol .lparen :: before))
    (hclose : w.Passed v (behind ++ [.symbol .rparen])) (hbefore : Unparenthesised before)
    (hbehind : Unparenthesised behind) :
    Framed hashComments text u v (.symbol .lparen :: (before ++ opening))
      (closing ++ (behind ++ [.symbol .rparen])) [c] ∧
    ¬Exposed ((.symbol .lparen :: (before ++ opening)) ++
      (Condition.listOutline (kindsBetween hashComments text) [c] ++
        (closing ++ (behind ++ [.symbol .rparen])))) := by
  have hwhole : (.symbol .lparen :: (before ++ opening)) ++
      (Condition.listOutline (kindsBetween hashComments text) [c] ++
        (closing ++ (behind ++ [.symbol .rparen]))) =
      .symbol .lparen :: ((before ++ ((opening ++
        (Condition.listOutline (kindsBetween hashComments text) [c] ++ closing)) ++ behind)) ++
          [.symbol .rparen]) := by
    simp only [List.append_assoc, List.cons_append]
  have hpaired :=
    (paired_of_no_parens hbefore).append (h.paired.append (paired_of_no_parens hbehind))
  rw [hwhole]
  refine ⟨⟨?_, ?_, fun _ => ⟨List.mem_cons_self, ?_⟩, fun _ => ⟨by simp, ?_⟩, fun hno =>
    absurd hno (by simp)⟩, not_exposed_enclosed hpaired⟩
  · obtain ⟨x, y, inner, hsx, hxy, hyw, hplaces⟩ := h.places
    exact ⟨x, y, inner, hopen.trans hsx, hxy, hyw.trans hclose, hplaces⟩
  · rw [hwhole]
    exact hpaired.enclose
  · intro hno
    rcases List.mem_append.1 ((List.mem_cons.1 hno).resolve_left (by decide)) with hno | hno
    · exact (hbefore _ hno).2 rfl
    · exact (h.opens (List.ne_nil_of_mem hno)).2 hno
  · intro hno
    rcases List.mem_append.1 hno with hno | hno
    · exact (h.closes (List.ne_nil_of_mem hno)).2 hno
    rcases List.mem_append.1 hno with hno | hno
    · exact (hbehind _ hno).1 rfl
    · exact absurd (List.mem_singleton.1 hno) (by decide)

end Framed

end Parser

end Rulebook
