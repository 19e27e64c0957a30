import Rulebook.Proofs.Bounds
import Rulebook.Proofs.ConditionParts
import Rulebook.Proofs.Continuations
import Rulebook.Proofs.Dividers
import Rulebook.Proofs.LayoutConditions
import Rulebook.Proofs.Neighbours
import Rulebook.Proofs.ReadBack
import Rulebook.Proofs.SoleConditions

/-!
# Redundant parentheses

A condition that is accepted alone is read alike in parentheses, alone or as the operand of `exists`
or `not`. Without parentheses an operand is a pattern, so the operand is that condition just if the
condition does not begin with the keyword of another kind of condition, which is a type name there.
-/

namespace Rulebook

open Lexeme
open Rulebook.Parser

theorem isTrivia_of_solid_eq_nil {l : List Piece} (h : solid l = []) :
    ∀ x ∈ l, x.isTrivia = true := by
  rw [solid, List.dropWhile_eq_nil_iff] at h
  exact h

theorem nextKind_solid (l : List Piece) : nextKind (solid l) = nextKind l := by
  rw [nextKind_eq_head?, filter_solid, ← nextKind_eq_head?]

theorem Location.Covers.like {text' : String} {l l' : Location} {i j i' j' : Nat}
    (h : l.Covers text i j) (h' : l'.Covers text' i' j') : l.Like .elsewhere l' where
  start := by rw [h.start, h'.start]; exact .some trivial
  stop := by rw [h.stop, h'.stop]; exact .some trivial
  line := by rw [h.line, h'.line]; exact .some trivial
  column := by rw [h.column, h'.column]; exact .some trivial

namespace Parser

set_option synthInstance.maxSize 100000

variable {α : Type} {stack stack' : Stack} {s t u v : State} {c d : Condition}
  {l ks more : List Piece} {settings : Settings} {text whole : String} {frames levels : Nat}

/-! ### Texts that are accepted, at their place in another text -/

theorem Parses.behind_trivia {I : State → Prop} {p : Parser α} {Q : α → Prop}
    (hks : ∀ x ∈ ks, x.isTrivia = true) (h : Parses I p l more Q) :
    Parses I p (ks ++ l) more Q := by
  induction ks with
  | nil => exact h
  | cons x ks ih =>
    exact (ih fun y hy => hks y (List.mem_cons_of_mem x hy)).trivia (hks x List.mem_cons_self)

/-- A production reads all of a text, without complaint. -/
structure ReadsAll (stack : Stack) (settings : Settings) (q : Parser α) (text : String) (a : α)
    (t : State) : Prop where
  read : q (.ofFragment stack settings text none) = .ok a t
  ends : t.Faces []
  received : t.collector.received = 0

namespace ReadsAll

variable {q : Parser α} [Orderly q] [Composed q] {a : α}

theorem of_accepts (h : Accepts frames settings q text a) (hroom : frames ≤ stack.room) :
    ∃ t, ReadsAll stack settings q text a t := by
  obtain ⟨t, ht, hahead, hreceived⟩ := h.exists_fragment hroom
  have hrest : ∀ x ∈ t.cursor.rest.map Token.piece, x.isTrivia = true := fun x hx => by
    obtain ⟨token, htoken, rfl⟩ := List.mem_map.1 hx
    exact isTrivia_of_visible_eq_nil hahead token htoken
  exact ⟨t, ht, ⟨(Orderly.evolves_ok q ht).triviaVisible.trans (hidden_scan text),
    List.dropWhile_eq_nil_iff.2 hrest⟩, hreceived⟩

omit [Orderly q] in
theorem roomier (h : ReadsAll stack settings q text a t) (hle : stack.Le stack') :
    ∃ t', ReadsAll stack' settings q text a t' := by
  have hcramped : (State.ofFragment stack settings text none).Cramped
      (.ofFragment stack' settings text none) := ⟨rfl, rfl, hle, rfl, rfl, rfl, rfl⟩
  obtain ⟨t', ht', htt'⟩ := hcramped.exists_ok h.read h.received
  refine ⟨t', ht', ⟨htt'.cursor ▸ h.ends.hidden, htt'.cursor ▸ h.ends.rest⟩, ?_⟩
  rw [← htt'.collector]
  exact h.received

theorem reached (h : ReadsAll stack settings q text a t) :
    t.Reached settings.hashComments text (lexemes settings.hashComments text.toList) := by
  have hcursor : t.cursor =
      (Cursor.ofTokens (scan text settings.hashComments) text).rewind t.cursor.index :=
    (Orderly.evolves_ok q h.read).cursor
  have hstart : (State.ofFragment stack settings text none).cursor.Within
      (tokens settings.hashComments text).toArray := by
    show (Cursor.ofTokens (scan text settings.hashComments) text).Within _
    rw [ofTokens_eq]
    exact ⟨rfl, Nat.zero_le _⟩
  have hwithin := Composed.within (p := q) inferInstance hstart
  rw [after_of_ok h.read] at hwithin
  refine ⟨hcursor, ?_, isTrivia_of_solid_eq_nil ?_⟩
  · have hsize := hwithin.index
    rwa [List.size_toArray, tokens, length_located] at hsize
  · rw [← map_piece_front hcursor, ← List.map_drop]
    exact h.ends.rest

/-- The trivia that a text begins with does not matter. -/
theorem exists_solid {R : Likeness → α → α → Prop}
    (htwin : ∀ (T : Readings) [T.BetweenStatements], Twin T (R T.likeness) q q)
    (h : ReadsAll stack settings q text a t)
    (htext : solid (lexemes settings.hashComments text.toList) ≠ []) :
    ∃ text' b u n, lexemes settings.hashComments text'.toList =
        solid (lexemes settings.hashComments text.toList) ∧
      R (further n) a b ∧ ReadsAll stack settings q text' b u := by
  have hs :
      (State.ofFragment stack settings text none).Untroubled stack settings.hashComments text :=
    ⟨(amid_ofText stack.frames settings "" text).cursor, rfl, rfl, rfl, rfl, rfl, rfl⟩
  have hface : (State.ofFragment stack settings text none).Faces
      (lexemes settings.hashComments text.toList) :=
    let hface := faces_ofText stack.frames settings "" text
    ⟨hface.hidden, hface.rest⟩
  obtain ⟨p, text', htext', hstretch⟩ := hface.exists_fragment hs rfl htext
  obtain ⟨b, u, hu, hlike, hsame⟩ := exists_in_fragment (R := R (further p.offset)) hs hstretch
    (htwin _) h.read
  exact ⟨text', b, u, p.offset, htext', hlike, hu, (hsame.faces []).1 h.ends,
    hsame.received.1 h.received⟩

/-- What is read of a text is read alike wherever its pieces stand before what does not go on with
them. -/
theorem parses [Inert q] [Local Continues q] {R : Likeness → α → α → Prop}
    (htwin : ∀ (T : Readings) [T.BetweenStatements], Twin T (R T.likeness) q q)
    (h : ReadsAll (.ofFrames frames) settings q text a t)
    (htext : lexemes settings.hashComments text.toList = l)
    (hl : solid l = l) (hne : l ≠ []) {cs : List Char}
    (hcs : lexemes settings.hashComments cs = l ++ more) (hsevered : Severed l more) :
    Parses (AmidRoom settings whole frames) q l more fun b => ∃ n, R (further n) b a := by
  intro s ⟨hs, hroom⟩ hface
  obtain ⟨t, h⟩ := h.roomier ⟨Nat.le_trans hroom s.stack.room_le, hroom⟩
  have hsolid : solid (l ++ more) = l ++ more := by
    rw [solid_append_of_ne (hl.symm ▸ hne), hl]
  obtain ⟨p, text', htext', hstretch⟩ := hface.exists_fragment hs.untroubled hcs
    (by rw [hsolid]; exact List.append_ne_nil_of_left_ne_nil hne more)
  rw [hsolid] at htext'
  have hreached := h.reached
  rw [htext] at hreached
  obtain ⟨v, hv, hclean, hthere⟩ :=
    exchanged (m := []) (htext.trans (List.append_nil l).symm) htext'
    h.read h.received hreached hsevered s.ruleName
  obtain ⟨b, u, hu, hlike, hsame⟩ := exists_of_fragment (R := R (further p.offset)) hs.untroubled
    hstretch (htwin _) hv
  refine ⟨b, u, hu, ⟨p.offset, hlike⟩, (hsame.faces more).2 (hthere.faces htext'), ?_⟩
  exact .of_unreported hs.trials hs.ruleName hu
    ((hsame.received.2 hclean).trans hs.received.symm)

end ReadsAll

theorem exists_accepts_of_parses {q : Parser α} {Q : α → Prop}
    (h : Parses (AmidRoom settings text frames) q l [] Q)
    (htext : lexemes settings.hashComments text.toList = l) :
    ∃ a, Accepts frames settings q text a ∧ Q a := by
  have hs := amid_ofText frames settings "" text
  have hface := faces_ofText frames settings "" text
  rw [htext, ← List.append_nil l] at hface
  obtain ⟨a, t, ht, ha, htface, hst⟩ := h ⟨hs, Nat.le_refl _⟩ hface
  exact ⟨a, ⟨t, ht, List.map_eq_nil_iff.1 htface.ahead, (Lasting.calm hs hst).received⟩, ha⟩

theorem Extends.accepts {p q : Parser α} (h : Extends p q) {a : α}
    (ha : Accepts frames settings p text a) : Accepts frames settings q text a :=
  let ⟨t, ht, hends⟩ := ha
  ⟨t, h.ok ht, hends⟩

/-! ### Single conditions and operands -/

variable {single : Parser Condition}

theorem sole_of_unterminated [Orderly single] (hs : s.cursor.triviaVisible = false)
    (h : singleCondition single s = .ok c t)
    (hlast : ∀ a ∈ t.cursor.previous, a.kind ≠ .symbol .semicolon) :
    soleCondition single s = .ok c t := by
  rw [singleCondition_eq] at h
  obtain ⟨c', u, hu, h⟩ := bind_eq_ok.1 h
  obtain ⟨_, v, hv, h⟩ := bind_eq_ok.1 h
  obtain ⟨rfl, rfl⟩ := pure_ok h
  by_cases hkind : u.cursor.current.kind = .symbol .semicolon
  · obtain ⟨_, w, hw, hv⟩ := bind_eq_ok.1 hv
    obtain ⟨-, rfl⟩ := pure_ok hv
    unfold accept at hw
    rw [bind_of_ok (current_eq u), if_pos hkind] at hw
    cases hw
    have hprevious := Cursor.previous_consume ((Orderly.evolves_ok _ hu).triviaVisible.trans hs)
      (by rw [hkind]; simp : u.cursor.current.kind ≠ .endOfInput)
    exact absurd hkind (hlast _ hprevious)
  · unfold skip at hv
    rw [bind_of_ok (accept_of_ne hkind)] at hv
    cases hv
    exact hu

theorem Sole.operand (h : Sole single s c t) (hkind : s.cursor.current.kind ∉ conditionKeywords) :
    Parser.operand single s = .ok c t := by
  have hparen : nextIsSymbol .lparen s =
      .ok (decide (s.cursor.current.kind = .symbol .lparen)) s := rfl
  unfold Parser.operand
  rw [bind_of_ok hparen]
  cases h with
  | @unary k kind c t hk h =>
    rw [kind_of_expect_bind h] at hkind
    simp only [List.mem_cons, List.not_mem_nil, or_false, Prod.mk.injEq] at hk
    rcases hk with ⟨rfl, -⟩ | ⟨rfl, -⟩ <;> exact absurd (by decide) hkind
  | eval h =>
    rw [kind_of_expect_bind h] at hkind
    exact absurd (by decide) hkind
  | forall_ h =>
    rw [kind_of_expect_bind h] at hkind
    exact absurd (by decide) hkind
  | parens h =>
    rw [kind_of_expect_bind h, if_pos (by simp)]
    exact h
  | pattern _ h =>
    have hname := isName_of_patternWithin ((sourcedPattern_eq s).symm.trans h)
    rw [if_neg, map_of_ok h]
    intro hlparen
    rw [Token.isName, of_decide_eq_true hlparen] at hname
    cases hname

theorem Sole.ne_pattern (h : Sole single s c t) (hkind : s.cursor.current.kind ∈ conditionKeywords)
    (p : Pattern) : c ≠ .pattern p := by
  rintro rfl
  cases h with
  | unary _ h =>
    obtain ⟨_, _, _, _, -, -, hc⟩ := unaryGroup_ok h
    cases hc
  | eval h =>
    obtain ⟨_, _, hc⟩ := evalCondition_ok h
    cases hc
  | forall_ h =>
    obtain ⟨_, _, _, _, _, _, _, _, _, _, -, -, -, -, -, hc⟩ := forallCondition_ok h
    cases hc
  | parens h =>
    rw [kind_of_expect_bind h] at hkind
    exact absurd hkind (by decide)
  | pattern hno => exact absurd hkind hno

theorem exists_pattern_operand {kind : Unary} (hk : s.cursor.current.kind = .keyword kind.keyword)
    (hnext : s.advanced.cursor.current.kind ∈ conditionKeywords)
    (h : singleCondition single s = .ok c t) :
    ∃ l p, c = .group kind.grouping l [.pattern p] := by
  rw [singleCondition_eq] at h
  obtain ⟨d, u, hu, h⟩ := bind_eq_ok.1 h
  obtain ⟨_, v, -, h⟩ := bind_eq_ok.1 h
  obtain ⟨rfl, -⟩ := pure_ok h
  have hgroup : unaryGroup kind.keyword kind.grouping single s = .ok c u := by
    unfold soleCondition at hu
    rw [bind_of_ok (current_eq s), hk] at hu
    cases kind
    · exact hu
    · exact hu
  obtain ⟨token, w, p, l, hw, hp, rfl⟩ := unaryGroup_ok hgroup
  obtain ⟨-, -, rfl⟩ := expect_of_ok hw
  obtain ⟨-, x, hx, -⟩ := nested_eq_ok.1 hp
  have hparen : nextIsSymbol .lparen (s.advanced.within .operand) =
      .ok false (s.advanced.within .operand) := by
    show EStateM.Result.ok (decide (s.advanced.cursor.current.kind = .symbol .lparen)) _ = _
    rw [decide_eq_false]
    intro hlparen
    rw [hlparen] at hnext
    exact absurd hnext (by decide)
  unfold Parser.operand at hx
  rw [bind_of_ok hparen] at hx
  obtain ⟨q, -, rfl⟩ := map_eq_ok hx
  exact ⟨l, q, rfl⟩

/-! ### Locations -/

theorem Accepts.covers (h : Accepts frames settings condition text c) :
    ∃ i j, c.location.Covers text i j := by
  obtain ⟨t, ht, -⟩ := h
  have hover : (State.ofText frames settings "" text).cursor.Over text :=
    Cursor.over_ofTokens settings.hashComments text
  obtain ⟨i, j, -, -, hlaid⟩ := condition_laid hover ht
  exact ⟨i, j, hlaid.location⟩

end Parser

/-! ### How the texts are scanned -/

section Scanning

variable {hashComments : Bool} {text : String}

/-- A blank before a text is trivia before its first token. -/
theorem solid_lexemes_blank (cs : List Char) :
    solid (lexemes hashComments (' ' :: cs)) = solid (lexemes hashComments cs) := by
  have hblank : ∀ ds : List Char, ∀ x ∈ blank ds, Piece.isTrivia x = true := fun ds x hx => by
    cases ds with
    | nil => cases hx
    | cons d ds =>
      rw [List.mem_singleton.1 hx]
      rfl
  have hsplit : ∀ ds : List Char, solid (lexemes hashComments ds) =
      solid (lexemes hashComments (ds.dropWhile isSeparator)) := fun ds => by
    conv_lhs => rw [lexemes_eq_blank_append, solid, List.dropWhile_append_of_pos (hblank _)]
    rfl
  rw [hsplit, hsplit cs]
  rfl

theorem lexemes_parenthesised (h : ¬EndsInside hashComments text) :
    lexemes hashComments ('(' :: (text.toList ++ [')'])) =
      Piece.symbol .lparen :: (lexemes hashComments text.toList ++ [Piece.symbol .rparen]) := by
  have hopen : Scans hashComments [.symbol .lparen] (text.toList ++ [')']) := .symbol (by decide)
  have hclose : lexemes hashComments [')'] = [Piece.symbol .rparen] := by
    have hscans : Scans hashComments [.symbol .rparen] [] := .symbol (by decide)
    refine hscans.trans ?_
    rw [lexemes]
    rfl
  refine hopen.trans ?_
  rw [lexemes_before_divider h (by decide) (by decide)]
  exact congrArg (fun l => Piece.symbol .lparen :: (lexemes hashComments text.toList ++ l)) hclose

theorem lexemes_unary (kind : Unary) (cs : List Char) :
    lexemes hashComments (kind.keyword.text.toList ++ ' ' :: cs) =
      Piece.keyword kind.keyword :: lexemes hashComments (' ' :: cs) := by
  have hscans : Scans hashComments [.keyword kind.keyword] (' ' :: cs) :=
    .keyword kind.keyword (.cons (d := ' ') (by decide) cs)
  unfold Scans at hscans
  rwa [Piece.letters_keyword, letters_nil, List.append_nil] at hscans

theorem lexemes_blank_lparen (cs : List Char) :
    lexemes hashComments (' ' :: '(' :: cs) = Piece.blank :: lexemes hashComments ('(' :: cs) := by
  have hscans : Scans hashComments [.blank] ('(' :: cs) := .blank fun d hd => by
    cases hd
    decide
  exact hscans

end Scanning

/-! ### Conditions in parentheses -/

section Redundant

variable {stack : Stack} {settings : Settings} {frames levels : Nat} {u whole : String}
  {c : Condition}

theorem kind_ofFragment {text : String} {l : List Piece}
    (h : lexemes settings.hashComments text.toList = l) :
    (State.ofFragment stack settings text none).cursor.current.kind = nextKind l :=
  h ▸ (faces_ofText stack.frames settings "" text).kind

theorem solid_ne_nil_of_accepts (h : Accepts frames settings (conditionWithin levels) u c) :
    solid (lexemes settings.hashComments u.toList) ≠ [] := by
  obtain ⟨t, ht, -⟩ := h
  intro hnil
  have hkind := (faces_ofText frames settings "" u).kind
  rw [nextKind, hnil] at hkind
  rcases kind_of_conditionWithin ht with hparen | hname
  · rw [hparen] at hkind
    cases hkind
  · rw [hkind] at hname
    cases hname

theorem exists_core (h : Accepts frames settings (conditionWithin levels) u c) :
    ∃ text d t n, lexemes settings.hashComments text.toList =
        solid (lexemes settings.hashComments u.toList) ∧
      c.Like (further n) d ∧ ReadsAll (.ofFrames frames) settings (conditionWithin levels) text
        d t := by
  have hroom : frames ≤ (Stack.ofFrames frames).room := Nat.le_refl _
  obtain ⟨t, ht⟩ := ReadsAll.of_accepts h hroom
  exact ht.exists_solid (R := Condition.Like) (fun _ _ => .conditionWithin levels)
    (solid_ne_nil_of_accepts h)

theorem trivia_append_solid (l : List Piece) :
    ∃ ts : List Piece, (∀ x ∈ ts, x.isTrivia = true) ∧ l = ts ++ solid l :=
  ⟨l.takeWhile Piece.isTrivia, fun _ hx => List.mem_takeWhile_imp hx,
    List.takeWhile_append_dropWhile.symm⟩

theorem solid_solid (l : List Piece) : solid (solid l) = solid l := by
  cases h : solid l with
  | nil => rfl
  | cons x xs => exact solid_cons_of_not_trivia (isTrivia_of_solid h) xs

theorem parses_redundant (h : Accepts frames settings (conditionWithin levels) u c)
    (hends : ¬EndsInside settings.hashComments u)
    (hfirst : nextKind (lexemes settings.hashComments u.toList) ∉ [.keyword .or, .keyword .and]) :
    Parses (AmidRoom settings whole (Nesting.group.frames + frames))
      (parenthesised (conditionWithin levels))
      (Piece.symbol .lparen :: (lexemes settings.hashComments u.toList ++ [Piece.symbol .rparen]))
      []
      fun b => b.Like .elsewhere c := by
  obtain ⟨text, d, t, n, htext, hlike, hreads⟩ := exists_core h
  have hne := solid_ne_nil_of_accepts h
  obtain ⟨ts, hts, hsplit⟩ := trivia_append_solid (lexemes settings.hashComments u.toList)
  generalize hl : solid (lexemes settings.hashComments u.toList) = l at *
  have hsolid : solid l = l := by rw [← hl, solid_solid]
  have hclosed : lexemes settings.hashComments (letters (l ++ [Piece.symbol .rparen])) =
      l ++ [Piece.symbol .rparen] := by
    have hscan := lexemes_parenthesised hends
    rw [hsplit] at hscan
    exact lexemes_behind
      (hscan.trans (List.append_assoc (Piece.symbol .lparen :: ts) l [Piece.symbol .rparen]))
  have hread : Parses (AmidRoom settings whole frames) (conditionWithin levels) l
      [Piece.symbol .rparen] fun b => b.Like .elsewhere c := by
    refine (hreads.parses (R := Condition.Like) (fun _ _ => .conditionWithin levels) htext
      hsolid hne hclosed ⟨by decide, fun _ => by decide⟩).mono ?_
    rintro b ⟨m, hb⟩
    exact Condition.Like.common hb hlike
  refine parses_parenthesised ?_ ?_
  · have hnext : nextKind (lexemes settings.hashComments u.toList ++ [Piece.symbol .rparen]) =
        nextKind (lexemes settings.hashComments u.toList) := by
      rw [nextKind, solid_append_of_ne (hl.symm ▸ hne), nextKind, hl,
        List.head?_append_of_ne_nil _ hne]
    rw [hnext]
    exact hfirst
  · rw [hsplit]
    exact parses_infixGroup_single (by decide) (parses_infixGroup_single (by decide)
      ((hread.behind_trivia hts).nested .group))

theorem parses_bare (h : Accepts frames settings (conditionWithin levels) u c)
    (hlast : lastKind (lexemes settings.hashComments u.toList) ≠ .symbol .semicolon)
    (hfirst : nextKind (lexemes settings.hashComments u.toList) ∉ conditionKeywords) :
    Parses (AmidRoom settings whole frames) (operand (conditionWithin levels))
      (lexemes settings.hashComments (' ' :: u.toList)) [] fun b => b.Like .elsewhere c := by
  obtain ⟨text, d, t, n, htext, hlike, hreads⟩ := exists_core h
  have hne := solid_ne_nil_of_accepts h
  have hblank := @solid_lexemes_blank settings.hashComments u.toList
  obtain ⟨ts, hts, hsplit⟩ := trivia_append_solid (lexemes settings.hashComments (' ' :: u.toList))
  rw [hsplit, hblank]
  have hkind : (State.ofFragment (.ofFrames frames) settings text none).cursor.current.kind ∉
      conditionKeywords := by
    rw [kind_ofFragment htext, nextKind_solid]
    exact hfirst
  have hprevious : ∀ a ∈ t.cursor.previous, a.kind ≠ .symbol .semicolon := fun a ha hsemicolon => by
    have hlastKind := hreads.reached.kind_previous (List.append_nil _).symm
    rw [htext, lastKind_solid, show t.cursor.previous = some a from ha] at hlastKind
    exact hlast (hlastKind.symm.trans hsemicolon)
  have hoperand : operand (conditionWithin levels)
      (.ofFragment (.ofFrames frames) settings text none) = .ok d t := by
    obtain ⟨m, rfl⟩ : ∃ m, levels = m + 1 := by
      cases levels with
      | zero => cases hreads.read
      | succ m => exact ⟨m, rfl⟩
    have hsole := sole_of_unterminated (hidden_scan text) hreads.read hprevious
    exact (Extends.conditionWithin (Nat.le_succ m)).operand.ok ((sole_of_ok hsole).operand hkind)
  have hbare : ReadsAll (.ofFrames frames) settings (operand (conditionWithin levels)) text d t :=
    ⟨hoperand, hreads.ends, hreads.received⟩
  have hclosed : lexemes settings.hashComments text.toList =
      solid (lexemes settings.hashComments u.toList) ++ [] := by
    rw [htext, List.append_nil]
  refine Parses.behind_trivia hts ((hbare.parses (R := Condition.Like)
    (fun _ _ => .operand (.conditionWithin levels)) htext (solid_solid _) hne hclosed
    ⟨by decide, fun _ => by decide⟩).mono ?_)
  rintro b ⟨m, hb⟩
  exact Condition.Like.common hb hlike

theorem accepts_condition_iff :
    Accepts frames settings condition u c ↔
      Accepts frames settings (conditionWithin (frames + 1)) u c := by
  unfold Accepts condition
  rw [bind_of_ok (levels_eq _)]
  rfl

theorem accepts_conditionWithin (h : Accepts frames settings condition u c)
    (hlevels : frames < levels) : Accepts frames settings (conditionWithin levels) u c :=
  (Extends.conditionWithin hlevels).accepts (accepts_condition_iff.1 h)

theorem exists_accepts_parenthesised (h : Accepts frames settings condition u c)
    (hends : ¬EndsInside settings.hashComments u)
    (hfirst : nextKind (lexemes settings.hashComments u.toList) ∉ [.keyword .or, .keyword .and]) :
    ∃ d, Accepts (Nesting.group.frames + frames) settings condition ("(" ++ u ++ ")") d ∧
      d.Like .elsewhere c := by
  have hinner : Accepts frames settings (conditionWithin (Nesting.group.frames + frames)) u c :=
    accepts_conditionWithin h (Nat.lt_add_of_pos_left (by decide))
  obtain ⟨d, hd, hlike⟩ : ∃ d, Accepts (Nesting.group.frames + frames) settings
      (conditionWithin (Nesting.group.frames + frames + 1)) ("(" ++ u ++ ")") d ∧
      d.Like .elsewhere c :=
    exists_accepts_of_parses
      (parses_single_parenthesised (by decide) (parses_redundant hinner hends hfirst))
      (by rw [← lexemes_parenthesised hends]; simp)
  exact ⟨d, accepts_condition_iff.2 hd, hlike⟩

theorem exists_accepts_unary (h : Accepts frames settings condition u c)
    (hends : ¬EndsInside settings.hashComments u)
    (hfirst : nextKind (lexemes settings.hashComments u.toList) ∉ [.keyword .or, .keyword .and])
    (kind : Unary) :
    ∃ l d, Accepts (Nesting.operand.frames + (Nesting.group.frames + frames)) settings condition
      (kind.keyword.text ++ " (" ++ u ++ ")") (.group kind.grouping l [d]) ∧
      d.Like .elsewhere c := by
  let room := Nesting.operand.frames + (Nesting.group.frames + frames)
  have hinner : Accepts frames settings (conditionWithin room) u c := accepts_conditionWithin h
    (Nat.lt_of_lt_of_le (Nat.lt_add_of_pos_left (by decide)) (Nat.le_add_left ..))
  have hbehind : Parses (AmidRoom settings (kind.keyword.text ++ " (" ++ u ++ ")") room)
      (singleCondition (conditionWithin room)) _ [] _ :=
    parses_single_unary kind (by decide)
      ((parses_operand_parenthesised (parses_redundant hinner hends hfirst)).nested .operand).blank
  obtain ⟨e, he, l, d, hlike, rfl⟩ := exists_accepts_of_parses hbehind (by
    rw [← lexemes_parenthesised hends, ← lexemes_blank_lparen, ← lexemes_unary]
    simp)
  exact ⟨l, d, accepts_condition_iff.2 he, hlike⟩

theorem exists_accepts_bare (h : Accepts frames settings condition u c)
    (hlast : lastKind (lexemes settings.hashComments u.toList) ≠ .symbol .semicolon)
    (hfirst : nextKind (lexemes settings.hashComments u.toList) ∉ conditionKeywords)
    (kind : Unary) :
    ∃ l d, Accepts (Nesting.operand.frames + frames) settings condition
      (kind.keyword.text ++ " " ++ u) (.group kind.grouping l [d]) ∧ d.Like .elsewhere c := by
  have hinner : Accepts frames settings (conditionWithin (Nesting.operand.frames + frames)) u c :=
    accepts_conditionWithin h (Nat.lt_add_of_pos_left (by decide))
  have hbehind : Parses
      (AmidRoom settings (kind.keyword.text ++ " " ++ u) (Nesting.operand.frames + frames))
      (singleCondition (conditionWithin (Nesting.operand.frames + frames))) _ [] _ :=
    parses_single_unary kind (by decide) ((parses_bare hinner hlast hfirst).nested .operand)
  obtain ⟨e, he, l, d, hlike, rfl⟩ := exists_accepts_of_parses hbehind (by
    rw [← lexemes_unary]
    simp)
  exact ⟨l, d, accepts_condition_iff.2 he, hlike⟩

theorem ne_pattern_of_accepts (h : Accepts frames settings condition u c)
    (hkind : nextKind (lexemes settings.hashComments u.toList) ∈ conditionKeywords) (p : Pattern) :
    c ≠ .pattern p := by
  obtain ⟨t, ht, -⟩ := accepts_condition_iff.1 h
  rw [conditionWithin, singleCondition_eq] at ht
  obtain ⟨d, v, hv, ht⟩ := bind_eq_ok.1 ht
  obtain ⟨_, w, -, ht⟩ := bind_eq_ok.1 ht
  obtain ⟨rfl, -⟩ := pure_ok ht
  refine (sole_of_ok hv).ne_pattern ?_ p
  rw [(faces_ofText frames settings "" u).kind]
  exact hkind

/-- What is an operand without parentheses, where the keyword of another kind of condition begins
it. -/
theorem exists_pattern_of_accepts {kind : Unary} {e : Condition}
    (h : Accepts frames settings condition (kind.keyword.text ++ " " ++ u) e)
    (hkind : nextKind (lexemes settings.hashComments u.toList) ∈ conditionKeywords) :
    ∃ l p, e = .group kind.grouping l [.pattern p] := by
  obtain ⟨t, ht, -⟩ := accepts_condition_iff.1 h
  have hface := faces_ofText frames settings "" (kind.keyword.text ++ " " ++ u)
  have htext :
      (kind.keyword.text ++ " " ++ u).toList = kind.keyword.text.toList ++ ' ' :: u.toList := by
    simp
  rw [htext, lexemes_unary] at hface
  refine exists_pattern_operand hface.kind ?_ ht
  rw [(hface.advanced rfl nofun).kind, ← nextKind_solid, solid_lexemes_blank, nextKind_solid]
  exact hkind

instance : Likeness.elsewhere.Verbatim := ⟨fun h => h⟩

/-- Parentheses around a condition that does not begin with a connective make no difference to it,
nor to an operand that does not begin with the keyword of another kind of condition. If it does, the
operand without parentheses is something else. Parentheses and operands take frames of their own. -/
theorem parentheses_redundant (haccepts : Accepts frames settings condition u c)
    (hlast : lastKind (lexemes settings.hashComments u.toList) ≠ .symbol .semicolon)
    (hends : ¬EndsInside settings.hashComments u)
    (hfirst : nextKind (lexemes settings.hashComments u.toList) ∉ [.keyword .or, .keyword .and]) :
    (∃ d, Accepts (Nesting.group.frames + frames) settings condition ("(" ++ u ++ ")") d ∧
        d.Like .elsewhere c) ∧
      ∀ kind : Unary, ∃ e l d,
        Accepts (Nesting.operand.frames + (Nesting.group.frames + frames)) settings condition
          (kind.keyword.text ++ " (" ++ u ++ ")") e ∧
        e = .group kind.grouping l [d] ∧ d.Like .elsewhere c ∧
        (nextKind (lexemes settings.hashComments u.toList) ∉ conditionKeywords →
          ∃ e', Accepts (Nesting.operand.frames + frames) settings condition
            (kind.keyword.text ++ " " ++ u) e' ∧ e'.Like .elsewhere e) ∧
        (nextKind (lexemes settings.hashComments u.toList) ∈ conditionKeywords →
          ∀ frames' e', Accepts frames' settings condition (kind.keyword.text ++ " " ++ u) e' →
            ¬e'.Like .elsewhere e) := by
  refine ⟨exists_accepts_parenthesised haccepts hends hfirst, fun kind => ?_⟩
  obtain ⟨l, d, he, hlike⟩ := exists_accepts_unary haccepts hends hfirst kind
  refine ⟨_, l, d, he, rfl, hlike, fun hkind => ?_, fun hkind frames' e' he' hlike' => ?_⟩
  · obtain ⟨l', d', he', hlike'⟩ := exists_accepts_bare haccepts hlast hkind kind
    obtain ⟨_, _, hcovers⟩ := he.covers
    obtain ⟨_, _, hcovers'⟩ := he'.covers
    exact ⟨_, he',
      .group _ (hcovers'.like hcovers) (.cons (Condition.Like.common hlike' hlike) .nil)⟩
  · obtain ⟨l', p, rfl⟩ := exists_pattern_of_accepts he' hkind
    cases hlike' with
    | group _ _ hoperands =>
      obtain ⟨hpattern, -⟩ := List.forall₂_cons.1 hoperands
      cases hpattern
      cases hlike
      exact ne_pattern_of_accepts haccepts hkind _ rfl

end Redundant

theorem accepts_iff_accepted? {α : Type} {frames : Nat} {settings : Settings} {q : Parser α}
    {text : String} {a : α} :
    Accepts frames settings q text a ↔ accepted? frames settings q text = some a := by
  refine ⟨?_, accepts_of_accepted?⟩
  rintro ⟨t, ht, hends⟩
  rw [accepted?, ht]
  exact if_pos hends

/-- Parentheses around a group in parentheses. -/
theorem parentheses_redundant_group :
    ∃ c, Accepts 6 {} condition "(A() || not B(x > 1)) " c ∧
      (∃ d, Accepts 10 {} condition "((A() || not B(x > 1)) )" d ∧ d.Like .elsewhere c) ∧
      ∃ e e', Accepts 12 {} condition "exists ((A() || not B(x > 1)) )" e ∧
        Accepts 8 {} condition "exists (A() || not B(x > 1)) " e' ∧ e'.Like .elsewhere e := by
  have hsome : (accepted? 6 {} condition "(A() || not B(x > 1)) ").isSome = true := by
    decide +kernel
  have hends : ¬EndsInside true "(A() || not B(x > 1)) " :=
    not_endsInside_of_last (by decide +kernel)
  obtain ⟨c, hc⟩ := Option.isSome_iff_exists.1 hsome
  have haccepts := accepts_of_accepted? hc
  obtain ⟨hparens, hunary⟩ := parentheses_redundant haccepts (by decide +kernel) hends
    (by decide +kernel)
  obtain ⟨e, l, d, he, -, -, hsame, -⟩ := hunary .exists_
  obtain ⟨e', he', hlike⟩ := hsame (by decide +kernel)
  exact ⟨c, haccepts, hparens, e, e', he, he', hlike⟩

/-! ### Nesting -/

/-- A pattern in parentheses, a number of times. -/
def enclosedPattern : Nat → String
  | 0 => "A()"
  | n + 1 => "(" ++ enclosedPattern n ++ ")"

theorem scanned_patternName (hashComments : Bool) :
    lexemes hashComments "A".toList = [(.identifier, "A".toList)] := by
  cases hashComments <;> decide +kernel

theorem isName_identifier : TokenKind.identifier.isName = true := rfl

def patternName : Name := ⟨"A", .identifier, scanned_patternName, isName_identifier⟩

def enclosedPieces : Nat → List Piece
  | 0 => [patternName.piece, .symbol .lparen, .symbol .rparen]
  | n + 1 => .symbol .lparen :: (enclosedPieces n ++ [.symbol .rparen])

theorem letters_enclosedPieces (n : Nat) :
    letters (enclosedPieces n) = (enclosedPattern n).toList := by
  induction n with
  | zero => rfl
  | succ n ih =>
    rw [enclosedPieces, enclosedPattern, Piece.letters_symbol, letters_append, ih]
    simp [Symbol.text]

theorem scans_enclosedPieces {hashComments : Bool} (n : Nat) {rest : List Char} :
    Scans hashComments (enclosedPieces n) rest := by
  induction n generalizing rest with
  | zero =>
    exact .cons (.name patternName (.cons (d := '(') (by decide) _))
      (.cons (.symbol (by decide)) (.symbol (by decide)))
  | succ n ih => exact .cons (.symbol (by decide)) (.append ih (.symbol (by decide)))

theorem nextKind_enclosedPieces (n : Nat) (more : List Piece) :
    nextKind (enclosedPieces n ++ more) ∉ [.keyword .or, .keyword .and] := by
  cases n with
  | zero => exact (by decide : TokenKind.identifier ∉ [.keyword .or, .keyword .and])
  | succ n => exact (by decide : TokenKind.symbol .lparen ∉ [.keyword .or, .keyword .and])

theorem lexemes_enclosedPattern (hashComments : Bool) (n : Nat) :
    lexemes hashComments (enclosedPattern n).toList = enclosedPieces n := by
  have hscans := @scans_enclosedPieces hashComments n []
  unfold Scans at hscans
  rwa [letters_enclosedPieces, List.append_nil, lexemes, List.append_nil] at hscans

theorem not_endsInside_enclosedPattern (hashComments : Bool) (n : Nat) :
    ¬EndsInside hashComments (enclosedPattern n) :=
  not_endsInside (letters_enclosedPieces n) (scans_enclosedPieces n)

theorem accepts_enclosedPattern (n : Nat) :
    ∃ c, Accepts (n * Nesting.group.frames) {} condition (enclosedPattern n) c := by
  induction n with
  | zero =>
    have hsome : (accepted? 0 {} condition (enclosedPattern 0)).isSome = true := by
      decide +kernel
    obtain ⟨c, hc⟩ := Option.isSome_iff_exists.1 hsome
    rw [Nat.zero_mul]
    exact ⟨c, accepts_of_accepted? hc⟩
  | succ n ih =>
    obtain ⟨c, hc⟩ := ih
    obtain ⟨d, hd, -⟩ := exists_accepts_parenthesised hc (not_endsInside_enclosedPattern _ n) (by
      rw [lexemes_enclosedPattern]
      exact List.append_nil (enclosedPieces n) ▸ nextKind_enclosedPieces n [])
    rw [Nat.succ_mul, Nat.add_comm]
    exact ⟨d, hd⟩

theorem conditionWithin_enclosedPieces (levels n : Nat) {s : State} {more : List Piece}
    (h : s.Faces (enclosedPieces n ++ more)) (hroom : s.stack.room < n * Nesting.group.frames) :
    ∃ t, conditionWithin levels s = .error .nestingTooDeep t := by
  induction n generalizing levels s more with
  | zero =>
    rw [Nat.zero_mul] at hroom
    exact absurd hroom (Nat.not_lt_zero _)
  | succ n ih =>
    cases levels with
    | zero => exact ⟨s, rfl⟩
    | succ levels =>
      rw [enclosedPieces, List.cons_append, List.append_assoc] at h
      have hface := h.advanced rfl nofun
      have hgroup : ∃ t, nested .group (conditionWithin levels) s.advanced =
          .error .nestingTooDeep t := by
        rcases Nat.lt_or_ge s.advanced.stack.room Nesting.group.frames with hdeep | hle
        · exact ⟨_, nested_of_deep _ hdeep⟩
        · have hless : s.advanced.stack.room - Nesting.group.frames < n * Nesting.group.frames := by
            rw [Nat.succ_mul] at hroom
            exact Nat.sub_lt_right_of_lt_add hle hroom
          obtain ⟨t, ht⟩ := ih levels (s := s.advanced.within .group)
            ⟨hface.hidden, hface.rest⟩ hless
          exact ⟨_, nested_of_error hle ht⟩
      obtain ⟨t, ht⟩ := hgroup
      have hsymbol : symbol .lparen s = .ok s.cursor.current s.advanced :=
        (expect_eq _ _).trans (if_pos h.kind)
      have hplain : nextIs [.keyword .or, .keyword .and] s.advanced = .ok false s.advanced := by
        rw [nextIs_eq, hface.kind]
        exact congrArg (EStateM.Result.ok · _) (decide_eq_false (nextKind_enclosedPieces n _))
      have hparens : parenthesised (conditionWithin levels) s = .error .nestingTooDeep t := by
        unfold parenthesised
        rw [bind_of_ok hsymbol, bind_of_ok hplain, if_neg (by simp)]
        exact bind_of_error (bind_of_error (bind_of_error ht))
      refine ⟨t, ?_⟩
      rw [conditionWithin, singleCondition_eq]
      refine bind_of_error ?_
      unfold soleCondition
      rw [bind_of_ok (current_eq s), h.kind]
      exact hparens

/-- However many frames there are, a pattern in parentheses is accepted that is not accepted in one
more pair of them. -/
theorem parentheses_overflow (frames : Nat) :
    ∃ n c, Accepts frames {} condition (enclosedPattern n) c ∧
      ∀ d, ¬Accepts frames {} condition ("(" ++ enclosedPattern n ++ ")") d := by
  let n := frames / Nesting.group.frames
  obtain ⟨c, hc⟩ := accepts_enclosedPattern n
  refine ⟨n, c, hc.mono (Nat.div_mul_le_self ..), fun d hd => ?_⟩
  obtain ⟨t, ht, -⟩ := accepts_condition_iff.1 hd
  have hface := faces_ofText frames {} "" (enclosedPattern (n + 1))
  rw [lexemes_enclosedPattern, ← List.append_nil (enclosedPieces (n + 1))] at hface
  have hroom : frames < (n + 1) * Nesting.group.frames := by
    rw [Nat.mul_comm]
    exact Nat.lt_mul_div_succ frames (by decide)
  obtain ⟨u, hu⟩ := conditionWithin_enclosedPieces (frames + 1) (n + 1) hface hroom
  cases hu.symm.trans ht

/-- Behind `not` the keyword of a condition is a type name, behind a parenthesis a connective is
none, a comment takes the parenthesis behind it, and parentheses take frames of the stack. -/
theorem parentheses_matter :
    (∃ c e e', Accepts 900 {} condition "eval(x == 1)" c ∧
      Accepts 900 {} condition "not eval(x == 1)" e ∧
      Accepts 900 {} condition "not (eval(x == 1))" e' ∧ ¬e.Like .elsewhere e') ∧
    (∃ c, Accepts 900 {} condition "or(x == 1)" c ∧
      ∀ d, ¬Accepts 900 {} condition "(or(x == 1))" d) ∧
    (∃ c, Accepts 900 {} condition "A() // c" c ∧ ∀ d, ¬Accepts 900 {} condition "(A() // c)" d) ∧
    ∀ frames, ∃ n c, Accepts frames {} condition (enclosedPattern n) c ∧
      ∀ d, ¬Accepts frames {} condition ("(" ++ enclosedPattern n ++ ")") d := by
  have hsome : ∀ text : String, (accepted? 900 {} condition text).isSome = true →
      ∃ c, Accepts 900 {} condition text c := fun _ h =>
    let ⟨c, hc⟩ := Option.isSome_iff_exists.1 h
    ⟨c, accepts_of_accepted? hc⟩
  have hnone : ∀ {text : String}, (accepted? 900 {} condition text).isSome = false →
      ∀ d, ¬Accepts 900 {} condition text d := fun h d hd => by
    rw [accepts_iff_accepted?.1 hd] at h
    cases h
  refine ⟨?_, ?_, ?_, parentheses_overflow⟩
  · obtain ⟨e, he⟩ := hsome "not eval(x == 1)" (by decide +kernel)
    have hinner : (accepted? 0 {} condition "eval(x == 1)").isSome = true := by decide +kernel
    obtain ⟨c, hc⟩ := Option.isSome_iff_exists.1 hinner
    have heval := accepts_of_accepted? hc
    obtain ⟨l, d, hd, hlike⟩ := exists_accepts_unary heval
      (not_endsInside_of_last (by decide +kernel)) (by decide +kernel) .not
    refine ⟨c, e, _, heval.mono (by decide), he, hd.mono (by decide), fun hsame => ?_⟩
    have hbare : Accepts 900 {} condition (Unary.not.keyword.text ++ " " ++ "eval(x == 1)") e := he
    obtain ⟨l', p, rfl⟩ := exists_pattern_of_accepts hbare (by decide +kernel)
    cases hsame with
    | group _ _ hoperands =>
      obtain ⟨hpattern, -⟩ := List.forall₂_cons.1 hoperands
      cases hpattern
      cases hlike
      exact ne_pattern_of_accepts heval (by decide +kernel) _ rfl
  · obtain ⟨c, hc⟩ := hsome "or(x == 1)" (by decide +kernel)
    exact ⟨c, hc, hnone (by decide +kernel)⟩
  · obtain ⟨c, hc⟩ := hsome "A() // c" (by decide +kernel)
    exact ⟨c, hc, hnone (by decide +kernel)⟩

end Rulebook
