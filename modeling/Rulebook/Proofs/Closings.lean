import Rulebook.Proofs.Boundaries
import Rulebook.Proofs.Fragments
import Rulebook.Proofs.Spacing
import Rulebook.Proofs.Words
import Rulebook.Proofs.Yields

/-!
# Where the conditions of a rule end

A keyword is spelled as it is whenever it is scanned. So the place where a consequence begins tells
which `then` it was that ended the conditions, and what is left behind it.
-/

/-!
## What stands before a blank

Where a token begins behind a blank, what is before the blank has ended. So all up to the blank is
scanned in the same way whatever word is put behind it.
-/

namespace Rulebook

open Lexeme

variable {hashComments : Bool} {c quote : Char} {rest cs ds es : List Char} {l m : List Piece}

def EndsNothing (ds : List Char) : Prop := ∀ d ∈ ds, d ∉ ['\n', '/', '\x22', '\x27']

instance (ds : List Char) : Decidable (EndsNothing ds) := List.decidableBAll _ ds

theorem closes_of_append (h : Closes (cs ++ ds)) (hds : EndsNothing ds) : Closes cs := by
  induction ds using List.reverseRecOn with
  | nil => rwa [List.append_nil] at h
  | append_singleton ds d ih =>
    rw [← List.append_assoc] at h
    have hd := hds d (List.mem_append_right _ List.mem_cons_self)
    refine ih (closes_of_concat h fun hslash => hd ?_) fun e he => hds e (List.mem_append_left _ he)
    rw [hslash]
    decide

theorem stringTail_of_append (hquote : quote ∈ ['\x22', '\x27']) (h : (stringTail quote cs).2 = [])
    (hds : EndsNothing ds) (hleft : (stringTail quote (cs ++ ds)).2 ≠ []) (behind : List Char) :
    stringTail quote (cs ++ behind) = (cs, behind) := by
  induction ds generalizing cs behind with
  | nil =>
    rw [List.append_nil] at hleft
    exact absurd h hleft
  | cons d ds ih =>
    by_cases hd : (stringTail quote (cs ++ [d])).2 = []
    · -- the string would end with the character that was put behind it
      rw [List.append_cons] at hleft
      have hlater := ih hd (fun e he => hds e (List.mem_cons_of_mem _ he)) hleft
      have hlast := @getLast?_stringTail quote (cs ++ [d] ++ [d]) (by rw [hlater [d]]; simp)
      rw [hlater [d], List.getLast?_concat] at hlast
      have hno := hds d List.mem_cons_self
      rw [Option.some.inj hlast] at hno
      exact absurd (List.mem_cons_of_mem _ (List.mem_cons_of_mem _ hquote)) hno
    · exact stringTail_of_concat h hd behind

/-- A token that takes all of the text, but not all of what is put behind a blank, has ended. -/
theorem ended_before_blank (hseparator : isSeparator c = false) (hds : EndsNothing ds)
    (hwhole : (lexeme hashComments c rest).left = [])
    (hleft : (lexeme hashComments c (rest ++ ' ' :: ds)).left ≠ []) :
    Ended ' ' ((lexeme hashComments c rest).kind, c :: rest) := by
  have hd : ' ' ∈ dividers := by decide
  have hblank : EndsNothing (' ' :: ds) := List.forall_mem_cons.2 ⟨by decide, hds⟩
  have hhead := @isLineComment_before_divider hashComments c rest ' ' hd ds
  cases hline : isLineComment hashComments c rest with
  | true =>
    rw [lexeme_lineComment hseparator hline] at hwhole
    rw [lexeme_lineComment hseparator (hhead.trans hline)] at hleft
    refine absurd (List.dropWhile_eq_nil_iff.2 fun a ha => ?_) hleft
    rcases List.mem_append.1 ha with ha | ha
    · exact List.dropWhile_eq_nil_iff.1 hwhole a ha
    · have hno := hblank a ha
      simp only [List.mem_cons, not_or] at hno
      simpa using hno.1
  | false =>
  by_cases hblock : c = '/' ∧ rest.head? = some '*'
  · obtain ⟨rfl, hstar⟩ := hblock
    obtain ⟨rest, rfl⟩ := List.head?_eq_some_iff.1 hstar
    rw [List.cons_append,
      @lexeme_blockComment hashComments (rest ++ ' ' :: ds) (hhead.trans hline)] at hleft
    rw [lexeme_blockComment hline]
    exact ⟨(by cases ·), (by cases ·), fun _ => closes_of_append (closes_of_left hleft) hblank,
      (by cases ·)⟩
  have hsolid : Solid hashComments c rest := ⟨hseparator, hline, hblock⟩
  by_cases hquote : c = '\x22' ∨ c = '\x27'
  · rw [lexeme_string hsolid hquote] at hwhole ⊢
    rw [lexeme_string (hsolid.before_divider hd ds) hquote] at hleft
    exact ⟨(by cases ·), (by cases ·), (by cases ·), fun _ =>
      stringTail_of_append (by simpa using hquote) hwhole hblank hleft⟩
  · obtain ⟨htrivia, hstring⟩ := kind_of_solid hsolid hquote
    exact .of_kind htrivia hstring

theorem Lexeme.Ended.of_blank {x : Piece} (h : Ended ' ' x) (d : Char) : Ended d x where
  whitespace hx := absurd (h.whitespace hx) (by decide)
  lineComment hx := absurd (h.lineComment hx) (by decide)
  blockComment := h.blockComment
  string := h.string

theorem lexemes_separator_cons (hc : isSeparator c = true) (es : List Char) :
    lexemes hashComments (c :: es) = (.trivia .whitespace, c :: es.takeWhile isSeparator) ::
      lexemes hashComments (es.dropWhile isSeparator) := by
  rw [lexemes_cons, lexeme_separator hc]

/-- The last token before a blank does not take what is behind the blank. -/
theorem left_ne_nil_of_boundary {ks : List Piece}
    (h : ks ++ lexemes hashComments ((c :: rest) ++ ' ' :: ds) = l ++ m) (hm : m ≠ [])
    (hletters : (letters l).length = (letters ks ++ (c :: rest) ++ [' ']).length) :
    (lexeme hashComments c (rest ++ ' ' :: ds)).left ≠ [] := by
  intro hnil
  have htail := lexeme_tail_append_left hashComments c (rest ++ ' ' :: ds)
  rw [hnil, List.append_nil] at htail
  rw [List.cons_append, lexemes_cons, hnil, htail, lexemes] at h
  obtain ⟨m, x, rfl⟩ := (List.eq_nil_or_concat' m).resolve_left hm
  rw [← List.append_assoc] at h
  obtain ⟨rfl, -⟩ := List.append_inj' h rfl
  rw [letters_append] at hletters
  simp only [List.length_append, List.length_cons] at hletters
  omega

/-- What ends before a blank is scanned alike whatever separator comes behind it. The blanks at its
end go with the separator. -/
theorem exists_before_separator (hcs : cs ≠ []) (hds : EndsNothing ds)
    (h : lexemes hashComments (cs ++ ' ' :: ds) = l ++ m) (hletters : letters l = cs ++ [' '])
    (hm : m ≠ []) : ∃ ks blanks, lexemes hashComments cs = ks ++ blank blanks ∧
      ∀ d ∈ dividers, isSeparator d = true → ∀ es, lexemes hashComments (cs ++ d :: es) =
        ks ++ (.trivia .whitespace, blanks ++ d :: es.takeWhile isSeparator) ::
          lexemes hashComments (es.dropWhile isSeparator) := by
  have hne : lexemes hashComments cs ≠ [] := fun hnil => hcs (by
    rw [← @letters_lexemes hashComments cs, hnil]
    rfl)
  obtain ⟨ks, ⟨kind, last⟩, hks⟩ :=
    (List.eq_nil_or_concat' (lexemes hashComments cs)).resolve_left hne
  have hcut : cs = letters ks ++ last := by
    rw [← @letters_lexemes hashComments cs, hks, letters_append]
    simp
  have hlast : lexemes hashComments last = [(kind, last)] := by
    have hbehind := lexemes_behind hks
    rwa [letters_cons, letters_nil, List.append_nil] at hbehind
  cases last with
  | nil =>
    rw [lexemes] at hlast
    cases hlast
  | cons c rest =>
  rw [lexemes_cons, List.cons.injEq] at hlast
  obtain ⟨hkind, hnil⟩ := hlast
  have hwhole : (lexeme hashComments c rest).left = [] := by
    rw [← @letters_lexemes hashComments (lexeme hashComments c rest).left, hnil]
    rfl
  have hleft : (lexeme hashComments c (rest ++ ' ' :: ds)).left ≠ [] := by
    refine @left_ne_nil_of_boundary _ _ _ _ l m ks ?_ hm (by rw [hletters, hcut])
    rw [← h, ← lexemes_last_divided (by decide) ds hks]
  cases hseparator : isSeparator c with
  | true =>
    have hall : ∀ a ∈ rest, isSeparator a = true := by
      rw [lexeme_separator hseparator] at hwhole
      exact List.dropWhile_eq_nil_iff.1 hwhole
    have hblank : kind = .trivia .whitespace := by
      rw [← (Prod.mk.inj hkind).1, lexeme_separator hseparator]
    refine ⟨ks, c :: rest, by rw [hks, hblank]; rfl, fun d hd hdsep es => ?_⟩
    rw [lexemes_last_divided hd es hks, List.cons_append, lexemes_separator_cons hseparator,
      List.takeWhile_append_of_pos hall, List.dropWhile_append_of_pos hall,
      List.takeWhile_cons_of_pos hdsep, List.dropWhile_cons_of_pos hdsep]
    rfl
  | false =>
    refine ⟨ks ++ [(kind, c :: rest)], [], by rw [hks]; exact (List.append_nil _).symm,
      fun d hd hdsep es => ?_⟩
    have hended := ended_before_blank hseparator hds hwhole hleft
    rw [lexemes_divided hd es fun x hx => ?_, hks, lexemes_separator_cons hdsep]
    · rfl
    · rw [hks, List.getLast?_concat] at hx
      obtain rfl := Option.some.inj hx
      rw [← (Prod.mk.inj hkind).1]
      exact hended.of_blank d

/-- What ends with a blank is scanned alike whatever word comes behind it. -/
theorem lexemes_before_word (hcs : cs ≠ []) (hds : EndsNothing ds)
    (hword : ∀ d ∈ ds.head?, isSeparator d = false)
    (h : lexemes hashComments (cs ++ ' ' :: ds) = l ++ m) (hletters : letters l = cs ++ [' '])
    (hm : m ≠ []) (hes : ∀ e ∈ es.head?, isSeparator e = false) :
    lexemes hashComments (cs ++ ' ' :: es) = l ++ lexemes hashComments es := by
  obtain ⟨ks, blanks, hks, hbehind⟩ := exists_before_separator hcs hds h hletters hm
  have hblank : ∀ es : List Char, (∀ e ∈ es.head?, isSeparator e = false) →
      lexemes hashComments (cs ++ ' ' :: es) =
        (ks ++ [(.trivia .whitespace, blanks ++ [' '])]) ++
        lexemes hashComments es := fun es hes => by
    have hstop : es.takeWhile isSeparator = [] ∧ es.dropWhile isSeparator = es := by
      cases es with
      | nil => exact ⟨rfl, rfl⟩
      | cons e es =>
        have he : isSeparator e = false := hes e rfl
        exact ⟨List.takeWhile_cons_of_neg (by simp [he]), List.dropWhile_cons_of_neg (by simp [he])⟩
    rw [hbehind ' ' (by decide) (by decide), hstop.1, hstop.2, List.append_assoc]
    rfl
  have hsame : letters (ks ++ [(.trivia .whitespace, blanks ++ [' '])]) = letters l := by
    rw [hletters, ← @letters_lexemes hashComments cs, hks]
    simp [letters_append, letters_blank]
  rw [hblank es hes, ← lexemes_before (hblank ds hword), hsame, lexemes_before h]

end Rulebook

/-! ## The keyword that ends the conditions -/

namespace Rulebook

open Lexeme

variable {hashComments : Bool} {c : Char} {rest cs front : List Char} {k : Keyword}
  {ks ls ms : List Piece} {x : Piece}

/-! ### The spelling of keywords -/

theorem spelled_of_lexemes (h : lexemes hashComments cs = ks ++ x :: ms) (hx : x.1 = .keyword k) :
    x = .keyword k := by
  have hbehind := lexemes_behind h
  cases hletters : letters (x :: ms) with
  | nil =>
    rw [hletters, lexemes] at hbehind
    cases hbehind
  | cons c rest =>
    rw [hletters, lexemes_cons, List.cons.injEq] at hbehind
    obtain ⟨rfl, -⟩ := hbehind
    refine Prod.ext hx ?_
    rw [← String.toList_ofList (l := c :: _), text_of_keyword hx]
    rfl

/-! ### Blanks before a consequence -/

theorem leadingBlanks_le_length (cs : List Char) : Parser.leadingBlanks cs ≤ cs.length := by
  have hsucc : ∀ {n : Nat} {d : Char}, n ≤ cs.length →
      (if (cs.drop n).head? = some d then n + 1 else n) ≤ cs.length := by
    intro n d hn
    split
    · next hhead =>
      rw [List.head?_drop] at hhead
      exact (List.getElem?_eq_some_iff.1 hhead).1
    · exact hn
  exact hsucc (hsucc (List.takeWhile_prefix _).length_le)

/-- A consequence that begins with the closing `end` stands behind the `then` written before it. -/
theorem length_of_leadingBlanks {ns : List Char}
    (h : letters ks ++ ("then".toList ++ letters ms) = front ++ "then end".toList)
    (hns : ns <+: letters ms)
    (hblanks : (letters ks).length + 4 + Parser.leadingBlanks ns = front.length + 5) :
    (letters ks).length = front.length := by
  have hle := leadingBlanks_le_length ns
  rcases List.append_eq_append_iff.1 h with ⟨a, rfl, ha⟩ | ⟨a, hks, ha⟩
  · -- Behind an earlier `then` the last letter of the written one would be a blank.
    by_contra hne
    rw [List.length_append] at hne hblanks
    have hlast : (letters ms)[a.length - 1]? = some 'n' := by
      have hthen : ("then".toList ++ letters ms)[a.length + 3]? = some 'n' := by
        rw [ha, List.getElem?_append_right (Nat.le_add_right _ _), Nat.add_sub_cancel_left]
        rfl
      rw [List.getElem?_append_right (by show 4 ≤ a.length + 3; omega)] at hthen
      rw [← hthen]
      exact congrArg (fun i => (letters ms)[i]?) (show a.length - 1 = a.length + 3 - 4 by omega)
    have hlt : a.length - 1 < ns.length := by omega
    have hmem : 'n' ∈ ns.take (Parser.leadingBlanks ns) := by
      refine List.mem_iff_getElem?.2 ⟨a.length - 1, ?_⟩
      rw [List.getElem?_take_of_lt (by omega), ← hlast]
      obtain ⟨left, hleft⟩ := hns
      rw [← hleft, List.getElem?_append_left hlt]
    exact absurd (isSeparator_of_mem_leadingBlanks hmem) (by decide)
  · -- A later one is none: what would have to be its first letter is another one.
    rw [hks, List.length_append] at hblanks ⊢
    cases a with
    | nil => rfl
    | cons d a =>
      rw [List.length_cons] at hblanks
      obtain rfl : a = [] := List.length_eq_zero_iff.1 (by omega)
      exact absurd (List.cons.inj (List.cons.inj ha).2).1 (by decide)

theorem lexemes_then_end (h : lexemes hashComments cs = ks ++ .keyword .then_ :: ms)
    (hcs : cs = front ++ "then end".toList) (hlength : (letters ks).length = front.length) :
    letters ks = front ∧ ms = [.blank, .keyword .end_] := by
  have hletters :
      letters ks ++ ("then".toList ++ letters ms) = front ++ ("then".toList ++ " end".toList) := by
    have hsame := @letters_lexemes hashComments cs
    rw [h, letters_append, Piece.letters_keyword, hcs] at hsame
    exact hsame
  obtain ⟨hfront, hbehind⟩ := List.append_inj hletters hlength
  refine ⟨hfront, ?_⟩
  rw [List.append_cons] at h
  rw [← lexemes_behind h, List.append_cancel_left hbehind]
  cases hashComments <;> decide +kernel

namespace Parser

variable {s t : State} {text : String} {found : Consequence}

theorem exists_lexemes_current
    (hcursor : s.cursor = (Cursor.ofTokens (scan text hashComments) text).rewind s.cursor.index)
    (hk : s.cursor.current.kind ≠ .endOfInput) :
    ∃ (ks : List Piece) (kind : TokenKind) (cs : List Char) (ms : List Piece),
      lexemes hashComments text.toList = ks ++ (kind, cs) :: ms ∧
      s.cursor.current = Token.at (Position.advance {} (letters ks)) kind cs ∧
      s.advanced.cursor.rest = located ((Position.advance {} (letters ks)).advance cs) ms ∧
      s.Faces ((kind, cs) :: ms) := by
  have hhidden : s.cursor.triviaVisible = false := by
    rw [hcursor]
    exact hidden_scan text
  have hfront : s.cursor.front.toList = tokens hashComments text := by
    rw [hcursor, ofTokens_eq]
    rfl
  obtain ⟨trivia, htrivia, hrest⟩ := Cursor.rest_consume hk
  have htokens : tokens hashComments text = (s.cursor.front.toList.take s.cursor.index ++ trivia) ++
      s.cursor.current :: s.cursor.consume.rest := by
    rw [← hfront, List.append_assoc]
    exact (List.take_append_drop ..).symm.trans (congrArg _ hrest)
  obtain ⟨ks, ms, hlexemes, -, hms⟩ := located_eq_append htokens
  cases ms with
  | nil => cases hms
  | cons x ms =>
    obtain ⟨kind, cs⟩ := x
    rw [located, List.cons.injEq] at hms
    obtain ⟨hat, hms⟩ := hms
    refine ⟨ks, kind, cs, ms, hlexemes, hat, hms, hhidden, ?_⟩
    have hall : ∀ y ∈ trivia.map Token.piece, Piece.isTrivia y = true := fun y hy => by
      obtain ⟨token, htoken, rfl⟩ := List.mem_map.1 hy
      exact htrivia token htoken
    rw [hrest, List.map_append, solid, List.dropWhile_append_of_pos hall, hms, List.map_cons,
      map_piece_located, hat]
    simp [Token.piece, Token.at, solid]

/-- If the consequence begins with the last word of a text, the `then` before it is the one that is
next. -/
theorem faces_of_consequence
    (hcursor : s.cursor = (Cursor.ofTokens (scan text hashComments) text).rewind s.cursor.index)
    (h : consequence s = .ok found t) (htext : text.toList = front ++ "then end".toList)
    (hstart : found.location.start = some (front.length + 5)) :
    ∃ ks, lexemes hashComments text.toList =
        ks ++ [Piece.keyword .then_, Piece.blank, Piece.keyword .end_] ∧
      letters ks = front ∧ s.Faces [Piece.keyword .then_, Piece.blank, Piece.keyword .end_] := by
  have hk : s.cursor.current.kind = .keyword .then_ := by
    by_contra hne
    rw [consequence_of_ne hne] at h
    cases h
  rw [consequence_eq hk] at h
  obtain ⟨rfl, -⟩ := EStateM.Result.ok.inj h
  obtain ⟨ks, kind, cs, ms, hlexemes, hcurrent, hrest, hface⟩ :=
    exists_lexemes_current hcursor (by rw [hk]; simp)
  have hkind : kind = .keyword .then_ := by
    rw [hcurrent] at hk
    exact hk
  obtain ⟨rfl, rfl⟩ := Prod.mk.inj (spelled_of_lexemes hlexemes hkind)
  obtain ⟨r, hsplit, -⟩ := beforeEnd_append s.advanced.cursor.rest
  obtain ⟨ns, ns', rfl, hns, -⟩ := located_eq_append (hrest.symm.trans hsplit)
  have hstop : s.cursor.current.stop = (letters ks).length + 4 := by
    rw [hcurrent]
    show ((Position.advance {} (letters ks)).advance Keyword.then_.text.toList).offset = _
    rw [Position.offset_advance, Position.offset_advance]
    exact congrArg (· + 4) (Nat.zero_add _)
  have hblanks : s.cursor.current.stop +
      leadingBlanks (spell (beforeEnd s.advanced.cursor.rest)).toList = front.length + 5 :=
    Option.some.inj hstart
  rw [hstop, hns, spell_located, String.toList_ofList] at hblanks
  have hsame := @letters_lexemes hashComments text.toList
  rw [hlexemes, letters_append, htext] at hsame
  have hlength := length_of_leadingBlanks hsame
    (by rw [letters_append]; exact List.prefix_append ..) hblanks
  obtain ⟨hks, hbehind⟩ := lexemes_then_end hlexemes htext hlength
  rw [hbehind] at hlexemes hface
  exact ⟨ks, hlexemes, hks, hface⟩

end Parser

end Rulebook
