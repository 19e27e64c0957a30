import Rulebook.Proofs.Joined
import Rulebook.Proofs.TwinUnit

/-!
# Texts with a shared stretch

The tokens of one text stand in another one as well, further down. The first text may go on behind
them; the two are read side by side for as long as they have tokens in common.
-/

namespace Rulebook

open Rulebook.Parser

/-- Places of the first tree are `n` characters and `k` lines further down, and code is the same. -/
structure Likeness.Shifts (l : Likeness) (n k : Nat) : Prop where
  offset : ∀ {a b : Nat}, l.offset a b ↔ a = b + n
  line : ∀ {a b : Nat}, l.line a b ↔ a = b + k
  column : ∀ {a b : Nat}, l.column a b ↔ a = b
  code : ∀ {c d : String}, l.code c d ↔ c = d
  attributes_put : ∀ {as bs : Attributes} {a b : Attribute}, l.attributes as bs → a.Like l b →
    l.attributes (as.put a) (bs.put b)
  attributes_of_defaults : ∀ {as bs : Attributes}, l.defaults as bs → l.attributes as bs
  dialect : ∀ {as bs : Attributes}, l.defaults as bs → l.dialect (dialectOf as) (dialectOf bs)

theorem Likeness.Shifts.like_moved {l : Likeness} {n k : Nat} (h : l.Shifts n k) (t : Token) :
    (t.moved n k).Like l t :=
  ⟨rfl, rfl, h.offset.2 rfl, h.offset.2 rfl, h.line.2 rfl, h.column.2 rfl⟩

theorem Likeness.Shifts.forall₂_like {l : Likeness} {n k : Nat} (h : l.Shifts n k)
    (ts : List Token) : List.Forall₂ (Token.Like l) (ts.map (Token.moved n k)) ts := by
  induction ts with
  | nil => exact .nil
  | cons t ts ih => exact .cons (h.like_moved t) ih

/-- The first tree is `n` characters further down, and code is the same. -/
structure Likeness.Copies (l : Likeness) (n : Nat) : Prop where
  offset : ∀ {a b : Nat}, l.offset a b ↔ a = b + n
  code : ∀ {c d : String}, l.code c d ↔ c = d
  consequence : ∀ {a b : Token} (text : String), a.Like l b →
    (consequenceOf a text).Like l (consequenceOf b text)
  attributes_put : ∀ {as bs : Attributes} {a b : Attribute}, l.attributes as bs → a.Like l b →
    l.attributes (as.put a) (bs.put b)
  attributes_of_defaults : ∀ {as bs : Attributes}, l.defaults as bs → l.attributes as bs
  dialect : ∀ {as bs : Attributes}, l.defaults as bs → l.dialect (dialectOf as) (dialectOf bs)

theorem Likeness.Shifts.copies {l : Likeness} {n k : Nat} (h : l.Shifts n k) : l.Copies n where
  offset := h.offset
  code := h.code
  consequence {a b} text hab := by
    have hstop := h.offset.1 hab.stop
    have hline := h.line.1 hab.line
    have hcolumn := h.column.1 hab.column
    refine ⟨h.code.2 rfl, .some (h.offset.2 ?_), .some (h.offset.2 ?_), .some (h.line.2 ?_),
      .some (h.column.2 ?_)⟩
    · omega
    · omega
    · split <;> omega
    · rw [hcolumn, hab.text]
  attributes_put := h.attributes_put
  attributes_of_defaults := h.attributes_of_defaults
  dialect := h.dialect

/-! ### Lists of tokens that are alike -/

section Copies

variable {l : Likeness} {v w : List Token}

theorem visible_like (h : List.Forall₂ (Token.Like l) v w) :
    List.Forall₂ (Token.Like l) (visible v) (visible w) := by
  induction h with
  | nil => exact .nil
  | @cons a b v w hab _ ih =>
    cases hb : b.isTrivia with
    | true => rwa [visible_cons_of_trivia (hab.isTrivia.trans hb), visible_cons_of_trivia hb]
    | false =>
      rw [visible_cons_of_not_trivia (hab.isTrivia.trans hb), visible_cons_of_not_trivia hb]
      exact .cons hab ih

theorem spell_like (h : List.Forall₂ (Token.Like l) v w) : spell v = spell w := by
  induction h with
  | nil => rfl
  | cons hab _ ih => rw [spell_cons, spell_cons, hab.text, ih]

theorem exists_split_of_like {y q : List Token} {b : Token}
    (h : List.Forall₂ (Token.Like l) v (y ++ b :: q)) :
    ∃ x a r, v = x ++ a :: r ∧ List.Forall₂ (Token.Like l) x y ∧ a.Like l b ∧
      List.Forall₂ (Token.Like l) r q := by
  have hleft := List.forall₂_take_append v y (b :: q) h
  have hright := List.forall₂_drop_append v y (b :: q) h
  have hv := (List.take_append_drop y.length v).symm
  generalize v.take y.length = x at hleft hv
  generalize v.drop y.length = z at hright hv
  cases hright with
  | cons hab hr => exact ⟨x, _, _, hv, hleft, hab, hr⟩

end Copies

/-! ### Cuts -/

section Cuts

variable {x y r q : List Token} {a b : Token}

/-- What is cut before a visible token does not reach into the trivia at the end. -/
theorem append_of_trivia_behind (h : x ++ y = r ++ b :: q) (hy : visible y = [])
    (hb : b.isTrivia = false) : ∃ z, x = r ++ b :: z ∧ q = z ++ y := by
  rcases List.append_eq_append_iff.1 h with ⟨extra, rfl, hover⟩ | ⟨extra, rfl, hover⟩
  · rw [hover, visible_append, visible_cons_of_not_trivia hb] at hy
    exact absurd hy (by simp)
  · cases extra with
    | nil =>
      rw [← show b :: q = y from hover, visible_cons_of_not_trivia hb] at hy
      cases hy
    | cons c z =>
      cases hover
      exact ⟨z, rfl, rfl⟩

theorem append_of_trivia_before (h : x ++ y = r ++ b :: q) (hx : visible x = [])
    (hb : b.isTrivia = false) : ∃ z, r = x ++ z ∧ y = z ++ b :: q := by
  rcases List.append_eq_append_iff.1 h with ⟨extra, rfl, hover⟩ | ⟨extra, rfl, hover⟩
  · exact ⟨extra, rfl, hover⟩
  · cases extra with
    | nil => exact ⟨[], (List.append_nil _).symm ▸ (List.append_nil r).symm, hover.symm⟩
    | cons c z =>
      cases hover
      rw [visible_append, visible_cons_of_not_trivia hb] at hx
      exact absurd hx (by simp)

theorem eq_concat_of_starts_reverse (h : Starts x.reverse) (hx : x ≠ []) :
    ∃ z a, x = z ++ [a] ∧ a.isTrivia = false := by
  rcases List.eq_nil_or_concat x with rfl | ⟨z, a, rfl⟩
  · exact absurd rfl hx
  · exact ⟨z, a, by simp, h a (by simp)⟩

end Cuts

/-! ### Splices -/

/-- Two texts of which the second one has, blanks at its end aside, tokens that stand in the first
one as well. -/
structure Splice where
  likeness : Likeness
  n : Nat
  first : Cursor
  second : Cursor
  /-- The first text goes on where the second one ends. -/
  cut : Prop
  /-- The kinds of what the first text may go on with. -/
  borders : List TokenKind
  /-- The tokens of the first text behind the shared ones. -/
  behind : List Token
  /-- The tokens of the second text behind the shared ones. -/
  blanks : List Token
  copies : likeness.Copies n
  first_hidden : first.triviaVisible = false
  second_hidden : second.triviaVisible = false
  first_faithful : first.Faithful
  second_faithful : second.Faithful
  visible_blanks : visible blanks = []
  whole : ¬cut → behind = [] ∧ blanks = [] ∧ first.last.Like likeness second.last
  border : cut → ∃ b bs, visible behind = b :: bs ∧ b.kind ∈ borders
  borders_subset : borders ⊆ borderKinds

namespace Splice

variable (S : Splice)

abbrev Copied : List Token → List Token → Prop := List.Forall₂ (Token.Like S.likeness)

def LeftAfter (r q : List Token) : Prop :=
  ∃ v w, S.Copied v w ∧ r = v ++ S.behind ∧ q = w ++ S.blanks

/-- The same, with trivia before it. -/
def Left (r q : List Token) : Prop :=
  ∃ u w r' q', visible u = [] ∧ visible w = [] ∧ r = u ++ r' ∧ q = w ++ q' ∧ S.LeftAfter r' q'

variable {S} {x y r q : List Token} {a b : Token}

theorem LeftAfter.left (h : S.LeftAfter r q) : S.Left r q := ⟨[], [], r, q, rfl, rfl, rfl, rfl, h⟩

theorem LeftAfter.split (h : S.LeftAfter (x ++ a :: r) (y ++ b :: q))
    (hn : (visible x).length = (visible y).length) (ha : a.isTrivia = false)
    (hb : b.isTrivia = false) : S.Copied x y ∧ a.Like S.likeness b ∧
      S.LeftAfter (a :: r) (b :: q) ∧ S.LeftAfter r q := by
  obtain ⟨v, w, hvw, hr, hq⟩ := h
  obtain ⟨w, rfl, rfl⟩ := append_of_trivia_behind hq.symm S.visible_blanks hb
  obtain ⟨x', a', r', rfl, hx, hab, hrw⟩ := exists_split_of_like hvw
  rw [List.append_assoc, List.cons_append] at hr
  obtain ⟨rfl, rfl, rfl⟩ := cut_unique ha (hab.isTrivia.trans hb) hr
    (hn.trans (visible_like hx).length_eq.symm)
  exact ⟨hx, hab, ⟨a :: r', b :: w, .cons hab hrw, rfl, rfl⟩, r', w, hrw, rfl, rfl⟩

theorem Left.consume (h : S.Left (x ++ a :: r) (y ++ b :: q)) (hx : visible x = [])
    (hy : visible y = []) (ha : a.isTrivia = false) (hb : b.isTrivia = false) :
    a.Like S.likeness b ∧ S.LeftAfter r q := by
  obtain ⟨u, w, r', q', hu, hw, hr, hq, h⟩ := h
  obtain ⟨x', rfl, rfl⟩ := append_of_trivia_before hr.symm hu ha
  obtain ⟨y', rfl, rfl⟩ := append_of_trivia_before hq.symm hw hb
  rw [visible_append, hu, List.nil_append] at hx
  rw [visible_append, hw, List.nil_append] at hy
  obtain ⟨-, hab, -, hleft⟩ := h.split (by rw [hx, hy]) ha hb
  exact ⟨hab, hleft⟩

theorem LeftAfter.pass (h : S.LeftAfter (x ++ r) (y ++ q))
    (hn : (visible x).length = (visible y).length) (hr : Starts r) (hq : Starts q)
    (hcut : q = [] → ¬S.cut) : S.Copied x y ∧ S.LeftAfter r q := by
  cases q with
  | nil =>
    obtain ⟨hbehind, hblanks, -⟩ := S.whole (hcut rfl)
    obtain ⟨v, w, hvw, hxr, hyq⟩ := h
    rw [hbehind, List.append_nil] at hxr
    rw [hblanks, List.append_nil, List.append_nil] at hyq
    subst hyq
    have hvisible := (visible_like hvw).length_eq
    rw [← hxr, visible_append, List.length_append, hn] at hvisible
    obtain rfl : r = [] := hr.eq_nil (List.length_eq_zero_iff.1 (by omega))
    rw [List.append_nil] at hxr
    exact ⟨hxr ▸ hvw, [], [], .nil, by rw [hbehind]; rfl, by rw [hblanks]; rfl⟩
  | cons b q =>
    have hb : b.isTrivia = false := hq b rfl
    cases r with
    | nil =>
      obtain ⟨v, w, hvw, hxr, hyq⟩ := h
      obtain ⟨w, rfl, rfl⟩ := append_of_trivia_behind hyq.symm S.visible_blanks hb
      have hvisible := (visible_like hvw).length_eq
      rw [visible_append, visible_cons_of_not_trivia hb, List.length_append,
        List.length_cons] at hvisible
      rw [List.append_nil] at hxr
      rw [hxr, visible_append, List.length_append] at hn
      omega
    | cons a r =>
      obtain ⟨hxy, -, hleft, -⟩ := h.split hn (hr a rfl) hb
      exact ⟨hxy, hleft⟩

/-- A stretch between two visible tokens is written the same in both texts. -/
theorem Left.spell_eq {w z : List Token} (h : S.Left (w ++ (x ++ r)) (z ++ (y ++ q)))
    (hw : visible w = []) (hz : visible z = []) (hx : x ≠ []) (hy : y ≠ []) (hxs : Starts x)
    (hys : Starts y) (hxr : Starts x.reverse) (hyr : Starts y.reverse)
    (hn : (visible x).length = (visible y).length) : spell x = spell y := by
  cases x with
  | nil => exact absurd rfl hx
  | cons a x =>
  cases y with
  | nil => exact absurd rfl hy
  | cons b y =>
  have ha : a.isTrivia = false := hxs a rfl
  have hb : b.isTrivia = false := hys b rfl
  obtain ⟨hab, hleft⟩ : a.Like S.likeness b ∧ S.LeftAfter (x ++ r) (y ++ q) :=
    h.consume hw hz ha hb
  rw [visible_cons_of_not_trivia ha, visible_cons_of_not_trivia hb, List.length_cons,
    List.length_cons, Nat.add_right_cancel_iff] at hn
  have hreverse : ∀ {c : Token} {ts : List Token}, Starts (c :: ts).reverse →
      Starts ts.reverse := by
    intro c ts hts d hd
    refine hts d ?_
    rw [List.reverse_cons, List.head?_append, hd]
    rfl
  have hrest : spell x = spell y := by
    by_cases hxnil : visible x = []
    · have hynil : visible y = [] := by
        rw [hxnil] at hn
        exact List.length_eq_zero_iff.1 hn.symm
      have hx' := (hreverse hxr).eq_nil (by rw [visible_reverse, hxnil]; rfl)
      have hy' := (hreverse hyr).eq_nil (by rw [visible_reverse, hynil]; rfl)
      rw [List.reverse_eq_nil_iff.1 hx', List.reverse_eq_nil_iff.1 hy']
    · have hynil : y ≠ [] := by
        rintro rfl
        exact hxnil (List.length_eq_zero_iff.1 hn)
      obtain ⟨x, c, rfl, hc⟩ := eq_concat_of_starts_reverse (hreverse hxr)
        (fun hnil => hxnil (by rw [hnil]; rfl))
      obtain ⟨y, d, rfl, hd⟩ := eq_concat_of_starts_reverse (hreverse hyr) hynil
      rw [List.append_assoc, List.append_assoc, List.singleton_append,
        List.singleton_append] at hleft
      rw [visible_append, visible_append, visible_cons_of_not_trivia hc,
        visible_cons_of_not_trivia hd, List.length_append, List.length_append] at hn
      obtain ⟨hxy, hcd, -⟩ := hleft.split (Nat.add_right_cancel hn) hc hd
      exact spell_like (List.rel_append hxy (.cons hcd .nil))
  rw [spell_cons, spell_cons, hrest, hab.text]

/-- The two texts side by side. -/
def readings (S : Splice) : Readings where
  likeness := S.likeness
  first := S.first
  second := S.second
  cut := S.cut
  beyond := visible S.behind
  borders := S.borders
  left := S.Left
  leftAfter := S.LeftAfter
  early m := m ≤ S.n
  first_hidden := S.first_hidden
  second_hidden := S.second_hidden
  first_faithful := S.first_faithful
  second_faithful := S.second_faithful
  left_of_after h := h.left
  visible_left h := by
    obtain ⟨u, w, r', q', hu, hw, rfl, rfl, v, z, hvz, rfl, rfl⟩ := h
    refine ⟨visible v, ?_, ?_⟩
    · rw [visible_append, hu, List.nil_append, visible_append]
    · rw [visible_append, hw, List.nil_append, visible_append, S.visible_blanks, List.append_nil]
      exact visible_like hvz
  consume h hx hy ha hb := (h.consume hx hy ha hb).2
  pass h hx hy hr hq hcut := (h.pass (by rw [hx, hy]) hr hq hcut).2
  code_inner h hn ha hb := S.copies.code.2 (spell_like (h.split hn ha hb).1)
  code_stretch h hw hz hx hy hxs hys hxr hyr hn :=
    S.copies.code.2 (h.spell_eq hw hz hx hy hxs hys hxr hyr hn)
  consequence {x y r q a b} h hn hr hq hcut hab := by
    rw [spell_like (h.pass hn hr hq hcut).1]
    exact S.copies.consequence _ hab
  last hcut := by
    obtain ⟨hbehind, -, hlast⟩ := S.whole hcut
    exact ⟨by rw [hbehind]; rfl, hlast⟩
  border := S.border
  borders_subset := S.borders_subset
  max_of_early {m a b} hm hab := by
    have hle : m ≤ a := by
      rw [S.copies.offset.1 hab]
      exact Nat.le_trans hm (Nat.le_add_left ..)
    rwa [Nat.max_eq_right hle]
  offset_max hab hcd := by
    rw [S.copies.offset.1 hab, S.copies.offset.1 hcd]
    exact S.copies.offset.2 (Nat.add_max_add_right ..)
  semicolon _ h := by rw [S.copies.code.1 h]
  code_nil := S.copies.code.2 rfl
  attributes_put h hab := S.copies.attributes_put h hab
  attributes_of_defaults h := S.copies.attributes_of_defaults h
  dialect h := S.copies.dialect h

end Splice

end Rulebook
