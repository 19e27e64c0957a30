import Rulebook.Proofs.Dividers
import Rulebook.Proofs.Spacing
import Rulebook.Proofs.Lossless

/-!
# Boundaries of tokens

A token is scanned alone as it is in its text, and a space between two tokens changes none of the
tokens that are no trivia: blanks and line comments take the space up, and every other token with
something behind it has ended before the space.
-/

namespace Rulebook

open Lexeme

variable {hashComments : Bool} {c d : Char} {rest cs : List Char}

/-- A text with a space put in at an offset. -/
def spaced (text : String) (n : Nat) : String :=
  String.ofList (text.toList.take n ++ ' ' :: text.toList.drop n)

/-! ### Tokens before a space -/

theorem lexemes_last_divided (hd : d ∈ dividers) (ds : List Char)
    {ks : List (TokenKind × List Char)} {k : TokenKind × List Char}
    (h : lexemes hashComments cs = ks ++ [k]) :
    lexemes hashComments (cs ++ d :: ds) = ks ++ lexemes hashComments (k.2 ++ d :: ds) := by
  induction ks generalizing cs with
  | nil =>
    have hletters := @letters_lexemes hashComments cs
    rw [h, List.nil_append, letters_cons, letters_nil, List.append_nil] at hletters
    rw [hletters, List.nil_append]
  | cons k' ks ih =>
    cases cs with
    | nil =>
      rw [lexemes, List.cons_append] at h
      cases h
    | cons c rest =>
      rw [lexemes_cons, List.cons_append, List.cons.injEq] at h
      obtain ⟨hhead, hrest⟩ := h
      have hleft : (lexeme hashComments c rest).left ≠ [] := by
        intro hnil
        rw [hnil, lexemes] at hrest
        cases ks <;> cases hrest
      rw [List.cons_append, lexemes_cons, lexeme_behind hd fun hnil => absurd hnil hleft, ← hhead,
        List.cons_append, ih hrest]

theorem closes_of_blockComment (h : (blockCommentTail cs).2 ≠ []) :
    Closes (blockCommentTail cs).1 := by
  fun_induction blockCommentTail cs with
  | case1 => exact absurd rfl h
  | case2 rest => exact List.infix_rfl
  | case3 c rest hne ih => exact List.infix_cons (ih h)

theorem ended_of_left (hleft : (lexeme hashComments c rest).left ≠ [])
    (hseparator : isSeparator c = false) (hline : isLineComment hashComments c rest = false) :
    Ended d ((lexeme hashComments c rest).kind, c :: (lexeme hashComments c rest).tail) := by
  by_cases hblock : c = '/' ∧ rest.head? = some '*'
  · obtain ⟨rfl, hstar⟩ := hblock
    obtain ⟨rest, rfl⟩ := List.head?_eq_some_iff.1 hstar
    rw [lexeme_blockComment hline] at hleft ⊢
    exact ⟨(by cases ·), (by cases ·), fun _ => closes_of_blockComment hleft, (by cases ·)⟩
  have hsolid : Solid hashComments c rest := ⟨hseparator, hline, hblock⟩
  by_cases hquote : c = '\x22' ∨ c = '\x27'
  · rw [lexeme_string hsolid hquote] at hleft ⊢
    exact ⟨(by cases ·), (by cases ·), (by cases ·), fun _ => quoted_of_string hleft⟩
  · obtain ⟨htrivia, hstring⟩ := kind_of_solid hsolid hquote
    exact .of_kind htrivia hstring

/-- The lexemes that are no trivia. -/
def shown (ls : List (TokenKind × List Char)) : List (TokenKind × List Char) :=
  ls.filter fun l => !l.1.isTrivia

theorem shown_append (ks ls : List (TokenKind × List Char)) :
    shown (ks ++ ls) = shown ks ++ shown ls :=
  List.filter_append ..

theorem shown_blank_cons (ds : List Char) :
    shown (lexemes hashComments (' ' :: ds)) = shown (lexemes hashComments ds) := by
  unfold shown
  rw [← lexemes_dropWhile, List.dropWhile_cons_of_pos (by decide), lexemes_dropWhile]

theorem lexemes_lineComment_spaced (hseparator : isSeparator c = false)
    (hline : isLineComment hashComments c rest = true) (hne : rest.dropWhile (· != '\n') ≠ []) :
    lexemes hashComments (c :: rest.takeWhile (· != '\n') ++ ' ' :: rest.dropWhile (· != '\n')) =
      (.trivia .lineComment, c :: (rest.takeWhile (· != '\n') ++ [' '])) ::
        lexemes hashComments (rest.dropWhile (· != '\n')) := by
  have hd : ' ' ∈ dividers := by decide
  obtain ⟨feed, ds, hds⟩ : ∃ feed ds, rest.dropWhile (· != '\n') = feed :: ds :=
    List.exists_cons_of_ne_nil hne
  obtain rfl : feed = '\n' := by
    have hhead := @head?_dropWhile (· != '\n') rest feed (by rw [hds]; rfl)
    simpa using hhead
  have hcomment : isLineComment hashComments c (rest.takeWhile (· != '\n')) = true := by
    rw [← @isLineComment_before_divider _ _ _ '\n' (by decide) ds, ← hds,
      List.takeWhile_append_dropWhile, hline]
  have hall : ∀ a ∈ rest.takeWhile (· != '\n') ++ [' '], (a != '\n') = true := fun a ha => by
    rcases List.mem_append.1 ha with ha | ha
    · exact List.mem_takeWhile_imp (p := (· != '\n')) ha
    · rw [List.mem_singleton.1 ha]
      decide
  have htake : ('\n' :: ds).takeWhile (· != '\n') = [] := List.takeWhile_cons_of_neg (by decide)
  have hdrop : ('\n' :: ds).dropWhile (· != '\n') = '\n' :: ds :=
    List.dropWhile_cons_of_neg (by decide)
  rw [List.cons_append, lexemes_cons, lexeme_lineComment hseparator
    ((isLineComment_before_divider hd _).trans hcomment), List.append_cons _ ' ',
    List.takeWhile_append_of_pos hall, List.dropWhile_append_of_pos hall, hds,
    htake, hdrop, List.append_nil]

theorem shown_space_behind {k : TokenKind × List Char} {ls : List (TokenKind × List Char)}
    (h : lexemes hashComments (letters (k :: ls)) = k :: ls) (hne : ls ≠ []) :
    shown (lexemes hashComments (k.2 ++ ' ' :: letters ls)) = shown (k :: ls) := by
  have hd : ' ' ∈ dividers := by decide
  have hls : lexemes hashComments (letters ls) = ls := @lexemes_behind _ _ [k] ls h
  have halone : lexemes hashComments k.2 = [k] := by
    have hbefore := @lexemes_before _ _ [k] ls h
    rwa [letters_cons, letters_nil, List.append_nil] at hbefore
  have hfilled : letters ls ≠ [] := fun hnil => hne (by rw [← hls, hnil, lexemes])
  cases hcs : letters (k :: ls) with
  | nil =>
    rw [hcs, lexemes] at h
    cases h
  | cons c rest =>
  rw [hcs, lexemes_cons, List.cons.injEq] at h
  obtain ⟨rfl, hrest⟩ := h
  have hleft : (lexeme hashComments c rest).left = letters ls := by rw [← hrest, letters_lexemes]
  cases hseparator : isSeparator c with
  | true =>
    rw [lexeme_separator hseparator]
    have hall : ∀ a ∈ c :: rest.takeWhile isSeparator, isSeparator a = true := fun a ha => by
      rcases List.mem_cons.1 ha with rfl | ha
      · exact hseparator
      · exact List.mem_takeWhile_imp ha
    unfold shown
    rw [← lexemes_dropWhile, List.dropWhile_append_of_pos hall,
      List.dropWhile_cons_of_pos (by decide),
      lexemes_dropWhile, hls, List.filter_cons_of_neg (by simp [TokenKind.isTrivia])]
  | false =>
  cases hline : isLineComment hashComments c rest with
  | true =>
    have hkept := lexeme_lineComment hseparator hline
    rw [hkept] at hleft ⊢
    dsimp only at hleft
    have hspaced := lexemes_lineComment_spaced hseparator hline (by rw [hleft]; exact hfilled)
    rw [hleft, hls] at hspaced
    rw [hspaced]
    rfl
  | false =>
    have hended :
        Ended ' ' ((lexeme hashComments c rest).kind, c :: (lexeme hashComments c rest).tail) :=
      ended_of_left (by rwa [hleft]) hseparator hline
    have hdivided := @lexemes_divided hashComments ' ' (c :: (lexeme hashComments c rest).tail) hd
      (letters ls) fun l hl => by
        rw [halone] at hl
        cases hl
        exact hended
    rw [hdivided, halone, shown_append, shown_blank_cons, hls, ← shown_append]
    rfl

theorem shown_spaced {ks ls : List (TokenKind × List Char)} {k : TokenKind × List Char}
    (h : lexemes hashComments cs = ks ++ k :: ls) (hne : ls ≠ []) :
    shown (lexemes hashComments (letters (ks ++ [k]) ++ ' ' :: letters ls)) =
      shown (lexemes hashComments cs) := by
  have hbefore : lexemes hashComments (letters (ks ++ [k])) = ks ++ [k] :=
    @lexemes_before _ _ _ ls (by rw [h, List.append_cons])
  have hbehind := shown_space_behind (lexemes_behind h) hne
  rw [lexemes_last_divided (by decide) _ hbefore, h, shown_append, shown_append, hbehind]

/-! ### Boundaries -/

theorem shape_scan_alone {text : String} {t : Token} (h : t ∈ tokens hashComments text) :
    (scan t.text hashComments).map Token.shape = [t.shape, (.endOfInput, "")] := by
  obtain ⟨cs, hmem, htext⟩ := kind_text_of_located h
  obtain ⟨ks, ls, hsplit⟩ := List.append_of_mem hmem
  have halone : lexemes hashComments cs = [(t.kind, cs)] := by
    have hbetween := @lexemes_between hashComments _ ks [(t.kind, cs)] ls hsplit
    rwa [letters_cons, letters_nil, List.append_nil] at hbetween
  rw [scan_eq, htext, tokens, String.toList_ofList, halone]
  show [(t.kind, String.ofList cs), (TokenKind.endOfInput, "")] = _
  rw [← htext]
  rfl

theorem lexemes_of_adjoining {text : String} {before behind : List Token} {t u : Token}
    (hscan : scan text hashComments = before ++ t :: u :: behind) (hu : u.kind ≠ .endOfInput) :
    ∃ ks k ls, lexemes hashComments text.toList = ks ++ k :: ls ∧ ls ≠ [] ∧
      t.stop = (letters (ks ++ [k])).length := by
  rw [scan_eq] at hscan
  obtain ⟨front, hfront⟩ : ∃ front, tokens hashComments text = before ++ t :: u :: front := by
    rcases List.eq_nil_or_concat' behind with rfl | ⟨front, last, rfl⟩
    · have hlast := congrArg List.getLast? hscan
      rw [List.getLast?_concat, List.append_cons, List.getLast?_concat] at hlast
      rw [← Option.some.inj hlast] at hu
      exact absurd rfl hu
    · refine ⟨front, ?_⟩
      have hconcat : before ++ t :: u :: (front ++ [last]) = (before ++ t :: u :: front) ++
          [last] := by
        rw [List.append_assoc]
        rfl
      exact (List.append_inj' (hscan.trans hconcat) rfl).1
  obtain ⟨ks, ms, hlexemes, -, hms⟩ := located_eq_append hfront
  rcases ms with - | ⟨k, - | ⟨l, ls⟩⟩
  · cases hms
  · cases hms
  · refine ⟨ks, k, l :: ls, hlexemes, List.cons_ne_nil l ls, ?_⟩
    obtain ⟨ht, -⟩ := List.cons.inj hms
    rw [ht]
    show ((Position.advance {} (letters ks)).advance k.2).offset = _
    rw [Position.offset_advance, Position.advance_eq, letters_append, List.length_append]
    simp [letters]

theorem sameTokens_spaced {text : String} {ks ls : List (TokenKind × List Char)}
    {k : TokenKind × List Char} (h : lexemes hashComments text.toList = ks ++ k :: ls)
    (hne : ls ≠ []) : SameTokens hashComments text (spaced text (letters (ks ++ [k])).length) := by
  have htext : text.toList = letters (ks ++ [k]) ++ letters ls := by
    have hletters := @letters_lexemes hashComments text.toList
    rw [h, List.append_cons, letters_append] at hletters
    exact hletters.symm
  have hspaced : (spaced text (letters (ks ++ [k])).length).toList =
      letters (ks ++ [k]) ++ ' ' :: letters ls := by
    unfold spaced
    rw [String.toList_ofList, htext, List.take_left, List.drop_left]
  have hshown := shown_spaced h hne
  unfold SameTokens
  rw [shape_scan, shape_scan, hspaced]
  unfold shown at hshown
  rw [hshown]

/-- Boundaries between tokens are stable: a token is scanned alone as it is in its text, and a space
put in between two tokens that adjoin changes no visible token. -/
theorem boundaries_stable (text : String) (hashComments : Bool) :
    (∀ t ∈ scan text hashComments, t.kind ≠ .endOfInput →
      (scan t.text hashComments).map Token.shape = [t.shape, (.endOfInput, "")]) ∧
    ∀ before t u behind, scan text hashComments = before ++ t :: u :: behind →
      t.kind ≠ .endOfInput → u.kind ≠ .endOfInput →
        SameTokens hashComments text (spaced text t.stop) := by
  constructor
  · intro t ht hkind
    rw [scan_eq] at ht
    rcases List.mem_append.1 ht with ht | ht
    · exact shape_scan_alone ht
    · rw [List.mem_singleton.1 ht] at hkind
      exact absurd rfl hkind
  · intro before t u behind hscan _ hu
    obtain ⟨ks, k, ls, hlexemes, hne, hstop⟩ := lexemes_of_adjoining hscan hu
    rw [hstop]
    exact sameTokens_spaced hlexemes hne

theorem boundaries_stable_minus :
    (scan "-1" true).map Token.shape = [(.literal .int, "-1"), (.endOfInput, "")] ∧
      SameTokens true "x-1" "x -1" := by
  have hscan : scan "x-1" true = [] ++ Token.at {} .identifier ['x'] ::
      Token.at (Position.advance {} ['x']) (.literal .int) ['-', '1'] ::
        [Token.endOfInput (finish "x-1")] := by
    decide +kernel
  have hspaced : spaced "x-1" (Token.at {} .identifier ['x']).stop = "x -1" := by decide +kernel
  obtain ⟨halone, hspace⟩ := boundaries_stable "x-1" true
  refine ⟨halone (Token.at (Position.advance {} ['x']) (.literal .int) ['-', '1']) ?_ (by decide),
    ?_⟩
  · rw [hscan]
    exact List.mem_cons_of_mem _ List.mem_cons_self
  · rw [← hspaced]
    exact hspace _ _ _ _ hscan (by decide) (by decide)

end Rulebook
