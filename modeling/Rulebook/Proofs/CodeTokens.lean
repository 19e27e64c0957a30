import Rulebook.Proofs.Balanced
import Rulebook.Proofs.Behind
import Mathlib.Data.List.Induction

/-!
# Code in parentheses and its end

Code in parentheses is told by a place in the text before it: it stands between the first
parenthesis that is opened there or later and the one that balances it. As long as nothing that is
read between the place and the code opens a parenthesis, this is the code that is captured.

The end of code is told by its last token that is not blank. Where the code ends in a semicolon,
this is a semicolon or a comment up to the end of its line that ends in one. So the end of the code
is that of its last visible token, unless a comment or a blank character with no meaning outside
embedded code stands behind that.
-/

namespace Rulebook

open Rulebook.Parser

def fromParenthesis (ts : List Token) (place : Nat) : List Token :=
  ts.dropWhile fun t => t.start < place || t.kind ≠ .symbol .lparen

theorem length_fromParenthesis_le (ts : List Token) (place : Nat) :
    (fromParenthesis ts place).length ≤ ts.length := (List.dropWhile_sublist _).length_le

/-- The tokens between the first opening parenthesis at a place or behind it and its partner. So
many pairs as there are tokens are never too many. -/
def codeTokens (ts : List Token) (place : Nat) : List Token :=
  (enclosed .lparen .rparen [] ts.length 1 (fromParenthesis ts place).tail).inner

namespace Cursor

variable {text : String} {c : Cursor} {place : Nat}

/-- Between a place in the text and a cursor no parenthesis is opened. -/
structure Unopened (c : Cursor) (place : Nat) : Prop where
  place_le : place ≤ c.coming
  behind : ∀ t ∈ c.behind, place ≤ t.start → t.kind ≠ .symbol .lparen

theorem start_lt_coming (hc : c.Over text) {t : Token} (ht : t ∈ c.behind) :
    t.start < c.coming := by
  obtain ⟨hmem, htrivia⟩ := List.mem_filter.1 ht
  obtain ⟨i, hi, rfl⟩ := List.mem_take_iff_getElem.1 hmem
  have hlt : i < c.index := Nat.lt_of_lt_of_le hi (Nat.min_le_left _ _)
  have hsize : i < c.front.size := Nat.lt_of_lt_of_le hi (Nat.min_le_right _ _)
  have htoken : c.tokenAt i = c.front.toList[i] := by simp [tokenAt, Array.getD, hsize]
  rw [← htoken] at htrivia ⊢
  have hstop : (c.tokenAt i).stop ≤ c.past := hc.stop_le_lastBefore hlt (by simpa using htrivia)
  have hstart := hc.solid hsize
  have hpast := hc.past_le_coming
  omega

/-- Nothing stands between the next token and the cursor before it. -/
theorem unopened_coming (hc : c.Over text) : c.Unopened c.coming :=
  ⟨Nat.le_refl _, fun _ ht hle => absurd (start_lt_coming hc ht) (Nat.not_lt.2 hle)⟩

theorem Unopened.fromParenthesis_eq (h : c.Unopened place) (hk : c.current.kind = .symbol .lparen) :
    fromParenthesis c.front.toList place = c.current :: c.consume.rest := by
  obtain ⟨trivia, htrivia, hrest, -⟩ := rest_of_current (c := c) (by rw [hk]; simp)
  have hsplit : c.front.toList = (c.front.toList.take c.index ++ trivia) ++
      c.current :: c.consume.rest := by
    rw [List.append_assoc, ← hrest]
    exact (List.take_append_drop _ _).symm
  have hbefore : ∀ t ∈ c.front.toList.take c.index ++ trivia,
      (decide (t.start < place) || decide (t.kind ≠ .symbol .lparen)) = true := by
    intro t ht
    rw [Bool.or_eq_true, decide_eq_true_eq, decide_eq_true_eq]
    by_cases hparen : t.kind = .symbol .lparen
    · have hvisible : t.isTrivia = false := by rw [Token.isTrivia, hparen]; rfl
      rcases List.mem_append.1 ht with ht | ht
      · have hmem : t ∈ c.behind := List.mem_filter.2 ⟨ht, by rw [hvisible]; rfl⟩
        exact .inl (Nat.lt_of_not_le fun hle => h.behind t hmem hle hparen)
      · have hmem : t ∈ visible trivia := List.mem_filter.2 ⟨ht, by rw [hvisible]; rfl⟩
        rw [htrivia] at hmem
        cases hmem
    · exact .inr hparen
  have hcurrent : ¬(decide (c.current.start < place) || decide (c.current.kind ≠ .symbol .lparen)) =
      true := by
    rw [Bool.or_eq_true, decide_eq_true_eq, decide_eq_true_eq, not_or]
    exact ⟨Nat.not_lt.2 h.place_le, fun hne => hne hk⟩
  unfold fromParenthesis
  rw [hsplit, List.dropWhile_append_of_pos hbefore]
  exact List.dropWhile_cons_of_neg hcurrent

end Cursor

namespace Parser

variable {text code : String} {s t u : State} {place : Nat}

/-! ### What opens no parenthesis -/

def State.OpensNone (s t : State) : Prop :=
  ∃ ts, s.Took t ts ∧ ∀ x ∈ ts, x.kind ≠ .symbol .lparen

namespace State.OpensNone

theorem refl (s : State) : s.OpensNone s := ⟨[], .refl s, fun _ h => by cases h⟩

theorem trans (h : s.OpensNone t) (h' : t.OpensNone u) : s.OpensNone u := by
  obtain ⟨ts, hts, hnone⟩ := h
  obtain ⟨us, hus, hnone'⟩ := h'
  exact ⟨ts ++ us, hts.trans hus, List.forall_mem_append.2 ⟨hnone, hnone'⟩⟩

theorem of_took {token : Token} (h : s.Took t [token]) (hk : token.kind ≠ .symbol .lparen) :
    s.OpensNone t :=
  ⟨[token], h, List.forall_mem_singleton.2 hk⟩

theorem advanced (hs : s.cursor.triviaVisible = false) (hk : s.cursor.current.kind ≠ .endOfInput)
    (hparen : s.cursor.current.kind ≠ .symbol .lparen) : s.OpensNone s.advanced :=
  of_took (took_advanced hs hk) hparen

theorem unopened (h : s.OpensNone t) (hst : s.Evolves t) (hs : s.cursor.Over text)
    (hplace : s.cursor.Unopened place) : t.cursor.Unopened place := by
  obtain ⟨ts, htook, hnone⟩ := h
  refine ⟨Nat.le_trans hplace.place_le (Onward.of_evolves hs hst).coming_le, fun x hx hle => ?_⟩
  rw [show t.cursor.behind = _ from htook] at hx
  rcases List.mem_append.1 hx with hx | hx
  · exact hplace.behind x hx hle
  · exact hnone x hx

end State.OpensNone

theorem ne_lparen_of_isName {token : Token} (h : token.isName = true) :
    token.kind ≠ .symbol .lparen := fun hk => by
  rw [Token.isName, hk] at h
  cases h

theorem Dotted.ne_lparen {ts : List Token} (h : Dotted ts) :
    ∀ x ∈ ts, x.kind ≠ .symbol .lparen := by
  induction h with
  | single hname => exact List.forall_mem_singleton.2 (ne_lparen_of_isName hname)
  | snoc _ hdot hname ih =>
    refine List.forall_mem_append.2
      ⟨ih, List.forall_mem_cons.2 ⟨?_, List.forall_mem_singleton.2 (ne_lparen_of_isName hname)⟩⟩
    rw [hdot]
    simp

theorem opensNone_of_bindingName (hs : s.cursor.triviaVisible = false) {name : Option String}
    (h : bindingName s = .ok name t) : s.OpensNone t := by
  obtain ⟨_, _, hlook, h⟩ := bind_eq_ok.1 h
  cases hlook
  obtain ⟨_, _, hlook, h⟩ := bind_eq_ok.1 h
  cases hlook
  split at h
  · next hboth =>
    obtain ⟨hname, hcolon⟩ := Bool.and_eq_true_iff.1 hboth
    have hk := Eager.ne_endOfInput_of_isName hname
    have hnext : s.advanced.cursor.current = s.cursor.lookahead 2 := Cursor.current_consume hs hk
    have hsecond : s.advanced.cursor.current.kind = .symbol .colon := by
      rw [hnext]
      exact of_decide_eq_true hcolon
    have hshown : s.advanced.cursor.triviaVisible = false :=
      (Orderly.evolves_advanced s).triviaVisible.trans hs
    obtain ⟨_, u, hu, h⟩ := bind_eq_ok.1 h
    obtain ⟨_, v, hv, h⟩ := bind_eq_ok.1 h
    obtain ⟨-, rfl⟩ := pure_ok h
    cases hu
    cases hv
    exact (State.OpensNone.advanced hs hk (ne_lparen_of_isName hname)).trans
      (.advanced hshown (by rw [hsecond]; simp) (by rw [hsecond]; simp))
  · obtain ⟨-, rfl⟩ := pure_ok h
    exact .refl _

theorem opensNone_of_fieldHead (hs : s.cursor.triviaVisible = false)
    {head : Option String × Token × String} (h : fieldHead s = .ok head t) : s.OpensNone t := by
  obtain ⟨_, u, hu, h⟩ := bind_eq_ok.1 h
  obtain ⟨_, _, hlook, h⟩ := bind_eq_ok.1 h
  cases hlook
  obtain ⟨_, v, hv, h⟩ := bind_eq_ok.1 h
  obtain ⟨-, rfl⟩ := pure_ok h
  have hshown := (Orderly.evolves_ok bindingName hu).triviaVisible.trans hs
  obtain ⟨ts, hdotted, htook⟩ := took_of_dottedName hshown hv
  exact (opensNone_of_bindingName hs hu).trans ⟨ts, htook, hdotted.ne_lparen⟩

theorem state_of_fieldBinding {token : Token} {field : String} {declaration : Option String}
    {binding : List Constraint} (h : fieldBinding token field declaration s = .ok binding t) :
    t = s := by
  cases declaration with
  | none => exact (pure_ok h).2
  | some name =>
    obtain ⟨_, u, hu, h⟩ := bind_eq_ok.1 h
    rw [(pure_ok h).2, (close_ok hu).1]

/-! ### Captured code -/

/-- Where no parenthesis was opened since a place, code in parentheses is the code of that place. A
token stands behind it. -/
theorem code_of_parenCode (hs : s.cursor.Over text) (hfaithful : s.cursor.Faithful)
    (hplace : s.cursor.Unopened place) (h : parenCode s = .ok code t) :
    code = spell (codeTokens s.cursor.front.toList place) ∧ place < t.cursor.coming ∧
      ∃ x last y, s.cursor.front.toList =
        x ++ (codeTokens s.cursor.front.toList place ++ last :: y) := by
  obtain ⟨chunk, hchunk, rfl⟩ := map_eq_ok h
  obtain ⟨inner, last, hinner, hopening, hlast, hrest, -, -, rfl⟩ := chunk_ok (d := .paren) hchunk
  have hsame : codeTokens s.cursor.front.toList place = inner := by
    have hlong := length_fromParenthesis_le s.cursor.front.toList place
    rw [hplace.fromParenthesis_eq hopening, List.length_cons] at hlong
    have hroom := enclosed_of_le (Nat.le_max_left s.stack.room s.cursor.front.toList.length) hinner
    have hsame : enclosed .lparen .rparen [] s.cursor.front.toList.length 1 s.cursor.consume.rest =
        enclosed .lparen .rparen [] (max s.stack.room s.cursor.front.toList.length) 1
          s.cursor.consume.rest :=
      enclosed_of_length_le (by omega) (by omega)
    rw [codeTokens, hplace.fromParenthesis_eq hopening, List.tail_cons, hsame]
    exact congrArg Enclosure.inner hroom
  have hfront : s.advanced.cursor.front = s.cursor.front := Cursor.front_consume _
  have hsplit : s.cursor.front.toList =
      s.cursor.front.toList.take s.advanced.cursor.index ++ (inner ++ last :: t.cursor.rest) := by
    rw [List.append_cons, ← hrest, Cursor.rest, hfront, List.take_append_drop]
  have hfirstMem : s.cursor.current ∈ s.cursor.front.toList :=
    List.mem_of_mem_drop (Cursor.current_mem_rest (by rw [hopening]; simp))
  have hlastMem : last ∈ s.cursor.front.toList := by
    rw [hsplit]
    simp
  have hone : ∀ {token : Token} {k : Symbol}, token ∈ s.cursor.front.toList →
    token.kind = .symbol k →
      k.text.length = 1 → token.text.length = 1 := fun hmem hk hlength => by
    rw [hfaithful.symbol _ hmem _ hk, hlength]
  have hcode := withoutDelimiters_append (x := spell inner) (hone hfirstMem hopening rfl)
    (hone hlastMem hlast rfl)
  have hpast := coming_lt_past hs h
  have hcoming := (State.Onward.of_ok hs h).past_le_coming
  have hle := hplace.place_le
  rw [hsame]
  exact ⟨hcode, by omega, _, _, _, hsplit⟩

end Parser

/-! ### What ends in a semicolon -/

theorem endsInSemicolon_eq (code : String) :
    endsInSemicolon code =
      decide ((code.toList.reverse.dropWhile Text.isBlank).head? = some ';') := by
  rw [endsInSemicolon, Text.trimRight, List.getLast?_reverse]

theorem endsInSemicolon_append (a b : String) :
    endsInSemicolon (a ++ b) =
      if b.toList.all Text.isBlank then endsInSemicolon a else endsInSemicolon b := by
  have hempty : (b.toList.reverse.dropWhile Text.isBlank).isEmpty = b.toList.all Text.isBlank := by
    rw [Bool.eq_iff_iff, List.isEmpty_iff, List.dropWhile_eq_nil_iff, List.all_eq_true]
    simp
  simp only [endsInSemicolon_eq]
  rw [String.toList_append, List.reverse_append, List.dropWhile_append, hempty]
  split
  · rfl
  · next hblank =>
    rw [← hempty, List.isEmpty_iff] at hblank
    obtain ⟨c, cs, hcs⟩ := List.exists_cons_of_ne_nil hblank
    rw [hcs]
    rfl

theorem mem_of_endsInSemicolon {code : String} (h : endsInSemicolon code = true) :
    ';' ∈ code.toList := by
  rw [endsInSemicolon_eq, decide_eq_true_eq] at h
  exact List.mem_reverse.1 ((List.dropWhile_sublist _).mem (List.mem_of_head? h))

theorem endsInSemicolon_of_getLast? {code : String} {c : Char} (h : code.toList.getLast? = some c)
    (hc : Text.isBlank c = false) : endsInSemicolon code = decide (c = ';') := by
  obtain ⟨before, hcode⟩ := List.getLast?_eq_some_iff.1 h
  rw [endsInSemicolon_eq, hcode, List.reverse_append, List.reverse_singleton, List.singleton_append,
    List.dropWhile_cons_of_neg (by rw [hc]; simp), List.head?_cons, Bool.eq_iff_iff]
  simp

/-! ### The last token that is not blank -/

def Token.isBlank (t : Token) : Bool := t.text.toList.all Text.isBlank

def inked (ts : List Token) : List Token := ts.filter fun t => !t.isBlank

theorem endsInSemicolon_spell (ts : List Token) :
    endsInSemicolon (spell ts) = (inked ts).getLast?.any fun t => endsInSemicolon t.text := by
  induction ts using List.reverseRecOn with
  | nil => rfl
  | append_singleton ts t ih =>
    rw [spell_append, spell_cons, spell_nil, String.append_empty, endsInSemicolon_append, inked,
      List.filter_append]
    cases hblank : t.isBlank with
    | true =>
      rw [show t.text.toList.all Text.isBlank = true from hblank, if_pos rfl, ih,
        List.filter_cons_of_neg (by rw [hblank]; simp), List.filter_nil, List.append_nil]
      rfl
    | false =>
      rw [show t.text.toList.all Text.isBlank = false from hblank, if_neg (by simp),
        List.filter_cons_of_pos (by rw [hblank]; rfl), List.filter_nil, List.getLast?_concat]
      rfl

namespace Lexeme

/-- Before another token, only a semicolon and a comment up to the end of its line may end in a
semicolon. -/
theorem kind_of_endsInSemicolon {hashComments : Bool} {c : Char} {rest : List Char}
    (hleft : (lexeme hashComments c rest).left ≠ [])
    (h : endsInSemicolon (String.ofList (c :: (lexeme hashComments c rest).tail)) = true) :
    (lexeme hashComments c rest).kind = .symbol .semicolon ∨
      (lexeme hashComments c rest).kind = .trivia .lineComment := by
  have hmem := mem_of_endsInSemicolon h
  rw [String.toList_ofList] at hmem
  have hlast : ∀ {a : Char}, (c :: (lexeme hashComments c rest).tail).getLast? = some a →
      Text.isBlank a = false → a = ';' := fun ha hblank => by
    rw [endsInSemicolon_of_getLast? (by rw [String.toList_ofList]; exact ha) hblank] at h
    exact of_decide_eq_true h
  have hsymbol : ∀ {k : Symbol}, (lexeme hashComments c rest).kind = .symbol k →
      k = .semicolon := fun {k} hk => by
    have htext := text_of_symbol hk
    rw [htext] at h
    revert h
    cases k <;> decide
  have hl := scanned hashComments c rest
  generalize lexeme hashComments c rest = l at *
  cases hl with
  | separator hc =>
    rcases List.mem_cons.1 hmem with rfl | hmem
    · exact absurd hc (by decide)
    · exact absurd (List.mem_takeWhile_imp hmem) (by decide)
  | lineComment => exact .inr rfl
  | blockComment =>
    have hend := getLast?_blockCommentTail hleft
    have hslash := hlast (a := '/') (by rw [List.getLast?_cons, List.getLast?_cons, hend]; rfl)
      (by decide)
    cases hslash
  | string _ hquote =>
    have hend := getLast?_stringTail hleft
    have hsemicolon := hlast (a := c) (by rw [List.getLast?_cons, hend]; rfl)
      (by rcases hquote with rfl | rfl <;> decide)
    subst hsemicolon
    exact absurd hquote (by decide)
  | number _ _ hnumber =>
    rcases List.mem_cons.1 hmem with rfl | hmem
    · exact absurd hnumber (by simp [startsNumber, isDigit])
    · rcases mem_numberTail hmem with hdigit | hdot
      · exact absurd hdigit (by decide)
      · cases hdot
  | word _ _ _ hname =>
    rcases List.mem_cons.1 hmem with rfl | hmem
    · exact absurd hname (by decide)
    · exact absurd hmem (not_mem_word (by decide) (by decide))
  | symbol _ _ _ _ hs =>
    obtain ⟨k, hk⟩ := kind_of_symbol? hs
    exact .inl (hk.trans (congrArg TokenKind.symbol (hsymbol hk)))
  | misc _ _ _ _ hs =>
    obtain rfl := List.mem_singleton.1 hmem
    cases hs

end Lexeme

section Scanned

variable {hashComments : Bool} {text : String} {x inner y : List Token} {last : Token}

theorem kind_of_token {t u : Token} (h : tokens hashComments text = x ++ t :: u :: y)
    (hends : endsInSemicolon t.text = true) :
    t.kind = .symbol .semicolon ∨ t.kind = .trivia .lineComment := by
  obtain ⟨ks, ms, hlexemes, -, hbehind⟩ := located_eq_append h
  have hms := lexemes_behind hlexemes
  cases hletters : letters ms with
  | nil =>
    rw [hletters, lexemes] at hms
    rw [← hms] at hbehind
    cases hbehind
  | cons c rest =>
    rw [hletters, lexemes_cons] at hms
    rw [← hms, located, List.cons.injEq] at hbehind
    obtain ⟨rfl, hbehind⟩ := hbehind
    refine Lexeme.kind_of_endsInSemicolon (fun hleft => ?_) hends
    rw [hleft, lexemes] at hbehind
    cases hbehind

theorem endsInSemicolon_of_kind {t : Token} (ht : t ∈ tokens hashComments text)
    (hk : t.kind = .symbol .semicolon) : endsInSemicolon t.text = true := by
  have hfaithful : (Cursor.ofTokens (scan text hashComments) text).Faithful := faithful_scan text
  rw [ofTokens_eq] at hfaithful
  rw [hfaithful.symbol t ht _ hk]
  decide

/-- The end of code is its last token that is not blank, and that is a semicolon or a comment up to
the end of its line. -/
theorem endsInSemicolon_iff_inked (h : tokens hashComments text = x ++ (inner ++ last :: y)) :
    endsInSemicolon (spell inner) = true ↔ ∃ t, (inked inner).getLast? = some t ∧
      (t.kind = .symbol .semicolon ∨
        t.kind = .trivia .lineComment ∧ endsInSemicolon t.text = true) := by
  have hstands : ∀ t, (inked inner).getLast? = some t → t ∈ inner := fun t ht =>
    (List.mem_filter.1 (List.mem_of_getLast? ht)).1
  rw [endsInSemicolon_spell, Option.any_eq_true]
  refine exists_congr fun t => and_congr_right fun ht => ?_
  obtain ⟨before, behind, hinner⟩ := List.append_of_mem (hstands t ht)
  have hsplit : ∃ u z, tokens hashComments text = (x ++ before) ++ t :: u :: z := by
    rw [h, hinner]
    cases behind with
    | nil => exact ⟨last, y, by simp⟩
    | cons u behind => exact ⟨u, behind ++ last :: y, by simp⟩
  obtain ⟨u, z, hsplit⟩ := hsplit
  constructor
  · intro hends
    exact (kind_of_token hsplit hends).imp_right fun hk => ⟨hk, hends⟩
  · rintro (hk | ⟨-, hends⟩)
    · exact endsInSemicolon_of_kind (by rw [hsplit]; simp) hk
    · exact hends

/-- If the last visible token is the last one that is not blank, the code ends in a semicolon just
if that token is one. -/
theorem endsInSemicolon_iff_visible (h : tokens hashComments text = x ++ (inner ++ last :: y))
    (hend : (inked inner).getLast? = (visible inner).getLast?) :
    endsInSemicolon (spell inner) = true ↔
      ∃ t, (visible inner).getLast? = some t ∧ t.kind = .symbol .semicolon := by
  rw [endsInSemicolon_iff_inked h, hend]
  refine exists_congr fun t => and_congr_right fun ht => or_iff_left ?_
  rintro ⟨hk, -⟩
  have hvisible := (List.mem_filter.1 (List.mem_of_getLast? ht)).2
  rw [Token.isTrivia, hk] at hvisible
  cases hvisible

end Scanned

end Rulebook
