import Rulebook.Cursor
import Rulebook.Proofs.Stretch
import Rulebook.Token.Scan
import Mathlib.Data.List.TakeWhile

/-!
# Scanning a part of a text

The kinds and the texts of the tokens do not depend on where the text stands: they are its lexemes.
A text that is cut out between two of its tokens has just the lexemes between the cuts, because a
token depends on no more of the text than itself and the character after it, or a hyphenated keyword
that is not there.

A scan ends with the mark of the end of input and has no other such mark, so a cursor over it has
just the tokens of the text in front of that mark.
-/

namespace Rulebook

/-! ### The ways to scan a token -/

section Solid

open Lexeme

variable {hashComments : Bool} {c : Char} {rest : List Char}

/-- The character is not the beginning of a blank or a comment. -/
structure Solid (hashComments : Bool) (c : Char) (rest : List Char) : Prop where
  separator : isSeparator c = false
  lineComment : isLineComment hashComments c rest = false
  blockComment : ¬(c = '/' ∧ rest.head? = some '*')

def startsNumber (c : Char) (rest : List Char) : Bool :=
  isDigit c || (c == '-' && startsWithDigit rest)

theorem Solid.lexeme_eq (h : Solid hashComments c rest) : lexeme hashComments c rest =
    if c = '\x22' ∨ c = '\x27' then
      ⟨.literal .string, (stringTail c rest).1, (stringTail c rest).2⟩
    else if startsNumber c rest then
      ⟨.literal (numberTail rest).1, (numberTail rest).2.1, (numberTail rest).2.2⟩
    else if isNameStart c then word c rest
    else (symbol? c rest).getD ⟨.misc, [], rest⟩ := by
  rw [lexeme, if_neg (by simp [h.separator]), if_neg (by simp [h.lineComment]),
    if_neg h.blockComment]
  rfl

end Solid

namespace Lexeme

variable {hashComments : Bool} {c : Char} {rest : List Char}

/-- How the token is scanned that begins with a character: the first way that applies, so each comes
with what rules out those before it. -/
inductive Scanned (hashComments : Bool) (c : Char) (rest : List Char) : Lexeme → Prop where
  | separator (hc : isSeparator c = true) :
      Scanned hashComments c rest
        ⟨.trivia .whitespace, rest.takeWhile isSeparator, rest.dropWhile isSeparator⟩
  | lineComment (hc : isSeparator c = false) (hline : isLineComment hashComments c rest = true) :
      Scanned hashComments c rest
        ⟨.trivia .lineComment, rest.takeWhile (· != '\n'), rest.dropWhile (· != '\n')⟩
  | blockComment {body : List Char} (hc : c = '/') (hrest : rest = '*' :: body)
      (hline : isLineComment hashComments c rest = false) :
      Scanned hashComments c rest
        ⟨.trivia .blockComment, '*' :: (blockCommentTail body).1, (blockCommentTail body).2⟩
  | string (h : Solid hashComments c rest) (hquote : c = '\x22' ∨ c = '\x27') :
      Scanned hashComments c rest ⟨.literal .string, (stringTail c rest).1, (stringTail c rest).2⟩
  | number (h : Solid hashComments c rest) (hquote : ¬(c = '\x22' ∨ c = '\x27'))
      (hnumber : startsNumber c rest = true) :
      Scanned hashComments c rest
        ⟨.literal (numberTail rest).1, (numberTail rest).2.1, (numberTail rest).2.2⟩
  | word (h : Solid hashComments c rest) (hquote : ¬(c = '\x22' ∨ c = '\x27'))
      (hnumber : startsNumber c rest = false) (hname : isNameStart c = true) :
      Scanned hashComments c rest (word c rest)
  | symbol {l : Lexeme} (h : Solid hashComments c rest) (hquote : ¬(c = '\x22' ∨ c = '\x27'))
      (hnumber : startsNumber c rest = false) (hname : isNameStart c = false)
      (hsymbol : symbol? c rest = some l) : Scanned hashComments c rest l
  | misc (h : Solid hashComments c rest) (hquote : ¬(c = '\x22' ∨ c = '\x27'))
      (hnumber : startsNumber c rest = false) (hname : isNameStart c = false)
      (hsymbol : symbol? c rest = none) : Scanned hashComments c rest ⟨.misc, [], rest⟩

variable {l : Lexeme}

theorem scanned (hashComments : Bool) (c : Char) (rest : List Char) :
    Scanned hashComments c rest (lexeme hashComments c rest) := by
  unfold lexeme
  split
  · next hc => exact .separator hc
  next hc =>
  split
  · next hline => exact .lineComment (Bool.eq_false_iff.2 hc) hline
  next hline =>
  split
  · next hblock =>
    obtain ⟨rfl, hstar⟩ := hblock
    obtain ⟨body, rfl⟩ := List.head?_eq_some_iff.1 hstar
    exact .blockComment rfl rfl (Bool.eq_false_iff.2 hline)
  next hblock =>
  have h : Solid hashComments c rest := ⟨Bool.eq_false_iff.2 hc, Bool.eq_false_iff.2 hline, hblock⟩
  split
  · next hquote => exact .string h hquote
  next hquote =>
  split
  · next hnumber => exact .number h hquote hnumber
  next hnumber =>
  have hnumber : startsNumber c rest = false := Bool.eq_false_iff.2 hnumber
  split
  · next hname => exact .word h hquote hnumber hname
  next hname =>
  have hname : isNameStart c = false := Bool.eq_false_iff.2 hname
  cases hsymbol : symbol? c rest with
  | none => exact .misc h hquote hnumber hname hsymbol
  | some l => exact .symbol h hquote hnumber hname hsymbol

/-- A character has one way only. -/
theorem Scanned.lexeme_eq (h : Scanned hashComments c rest l) : lexeme hashComments c rest = l := by
  cases h with
  | separator hc => rw [lexeme, if_pos hc]
  | lineComment hc hline => rw [lexeme, if_neg (by simp [hc]), if_pos hline]
  | blockComment hc hrest hline =>
    subst hc hrest
    rw [lexeme, if_neg (by decide), if_neg (by simp [hline]), if_pos ⟨rfl, rfl⟩]
    rfl
  | string h hquote => rw [h.lexeme_eq, if_pos hquote]
  | number h hquote hnumber => rw [h.lexeme_eq, if_neg hquote, if_pos hnumber]
  | word h hquote hnumber hname =>
    rw [h.lexeme_eq, if_neg hquote, if_neg (Bool.eq_false_iff.1 hnumber), if_pos hname]
  | symbol h hquote hnumber hname hsymbol | misc h hquote hnumber hname hsymbol =>
    rw [h.lexeme_eq, if_neg hquote, if_neg (Bool.eq_false_iff.1 hnumber),
      if_neg (Bool.eq_false_iff.1 hname), hsymbol]
    rfl

theorem kind_word (c : Char) (rest : List Char) :
    (∃ k, (word c rest).kind = .keyword k) ∨
      (word c rest).kind ∈ [.identifier, .literal .bool, .literal .null] := by
  have hkind : ∀ text, (∃ k, wordKind text = .keyword k) ∨
      wordKind text ∈ [.identifier, .literal .bool, .literal .null] := by
    intro text
    unfold wordKind
    repeat' split
    · exact .inr (by simp)
    · exact .inr (by simp)
    · exact .inl ⟨_, rfl⟩
    · exact .inr (by simp)
  unfold word
  dsimp only
  split
  · exact .inl ⟨_, rfl⟩
  · exact hkind _

theorem kind_word_ne {kind : TokenKind} (hkeyword : ∀ k, kind ≠ .keyword k)
    (hkind : kind ∉ [.identifier, .literal .bool, .literal .null]) (c : Char) (rest : List Char) :
    (word c rest).kind ≠ kind := by
  rintro rfl
  rcases kind_word c rest with ⟨k, hk⟩ | hmem
  · exact hkeyword k hk
  · exact hkind hmem

theorem kind_of_symbol? (h : symbol? c rest = some l) : ∃ k, l.kind = .symbol k := by
  unfold symbol? at h
  split at h
  all_goals first
    | contradiction
    | (obtain rfl := Option.some.inj h
       exact ⟨_, rfl⟩)

theorem Scanned.kind_ne (h : Scanned hashComments c rest l) : l.kind ≠ .endOfInput := by
  cases h with
  | word => exact kind_word_ne (by simp) (by simp) c rest
  | symbol _ _ _ _ hsymbol =>
    obtain ⟨k, hk⟩ := kind_of_symbol? hsymbol
    simp [hk]
  | _ => simp

end Lexeme

/-! ### The mark of the end -/

theorem kind_lexeme_ne (hashComments : Bool) (c : Char) (rest : List Char) :
    (lexeme hashComments c rest).kind ≠ .endOfInput :=
  (Lexeme.scanned hashComments c rest).kind_ne

/-! ### Lexemes -/

/-- The kinds and the characters of the tokens of a text. -/
def lexemes (hashComments : Bool) : List Char → List (TokenKind × List Char)
  | [] => []
  | c :: rest =>
    let l := lexeme hashComments c rest
    (l.kind, c :: l.tail) :: lexemes hashComments l.left
termination_by cs => cs.length
decreasing_by exact Nat.lt_succ_of_le (length_lexeme_left_le hashComments c rest)

/-- The characters of lexemes one after the other. -/
def letters (ls : List (TokenKind × List Char)) : List Char := ls.flatMap Prod.snd

@[simp] theorem letters_nil : letters [] = [] := rfl

@[simp] theorem letters_cons (k : TokenKind) (cs : List Char) (ls : List (TokenKind × List Char)) :
    letters ((k, cs) :: ls) = cs ++ letters ls := by
  simp [letters]

theorem letters_append (ks ls : List (TokenKind × List Char)) :
    letters (ks ++ ls) = letters ks ++ letters ls := by
  simp [letters]

def located (p : Position) : List (TokenKind × List Char) → List Token
  | [] => []
  | (kind, cs) :: ls => Token.at p kind cs :: located (p.advance cs) ls

theorem located_append (p : Position) (ks ls : List (TokenKind × List Char)) :
    located p (ks ++ ls) = located p ks ++ located (p.advance (letters ks)) ls := by
  induction ks generalizing p with
  | nil => rfl
  | cons k ks ih =>
    obtain ⟨kind, cs⟩ := k
    rw [List.cons_append, located, ih, located, letters_cons, Position.advance_append,
      List.cons_append]

variable {hashComments : Bool}

theorem lexemes_cons (c : Char) (rest : List Char) :
    lexemes hashComments (c :: rest) =
      ((lexeme hashComments c rest).kind, c :: (lexeme hashComments c rest).tail) ::
        lexemes hashComments (lexeme hashComments c rest).left := by
  rw [lexemes]

theorem letters_lexemes (cs : List Char) : letters (lexemes hashComments cs) = cs := by
  fun_induction lexemes hashComments cs with
  | case1 => rfl
  | case2 c rest l ih =>
    rw [letters_cons, ih, List.cons_append, lexeme_tail_append_left]

theorem scanFrom_eq_located (p : Position) (cs : List Char) :
    scanFrom hashComments p cs =
      located p (lexemes hashComments cs) ++ [Token.endOfInput (p.advance cs)] := by
  fun_induction scanFrom hashComments p cs with
  | case1 p => rw [lexemes]; rfl
  | case2 p c rest l ih =>
    have hrest : c :: rest = (c :: l.tail) ++ l.left := by
      rw [List.cons_append, lexeme_tail_append_left]
    rw [lexemes_cons, located, ih, List.cons_append, ← Position.advance_append, ← hrest]

theorem lexemes_behind {cs : List Char} {ks ls : List (TokenKind × List Char)}
    (h : lexemes hashComments cs = ks ++ ls) : lexemes hashComments (letters ls) = ls := by
  induction ks generalizing cs with
  | nil =>
    rw [List.nil_append] at h
    rw [← h, letters_lexemes]
  | cons k ks ih =>
    cases cs with
    | nil => rw [lexemes, List.cons_append] at h; cases h
    | cons c rest =>
      rw [lexemes_cons, List.cons_append, List.cons.injEq] at h
      exact ih h.2

/-! ### Where tokens end -/

namespace Lexeme

/-- If the first text ends in a character that may begin a name, the second one does not go on with
a name character. -/
def EndsWell (before behind : List Char) : Prop :=
  ∀ a d, before.getLast? = some a → behind.head? = some d → isNameStart a = true →
    isNamePart d = false

theorem EndsWell.of_last {before behind : List Char}
    (h : ∀ a, before.getLast? = some a → behind ≠ [] → isNameStart a = false) :
    EndsWell before behind := by
  intro a d ha hd hstart
  have hne : behind ≠ [] := by
    rintro rfl
    cases hd
  rw [h a ha hne] at hstart
  cases hstart

theorem EndsWell.of_head {before behind : List Char}
    (h : ∀ d, behind.head? = some d → isNamePart d = false) : EndsWell before behind :=
  fun _ d _ hd _ => h d hd

theorem isNameStart_of_isSeparator {c : Char} (h : isSeparator c = true) :
    isNameStart c = false := by
  simp only [isSeparator, Bool.or_eq_true, beq_iff_eq] at h
  rcases h with (((rfl | rfl) | rfl) | rfl) | rfl <;> decide

theorem isNameStart_of_isDigit {c : Char} (h : isDigit c = true) : isNameStart c = false := by
  have hmem : c ∈ ['0', '1', '2', '3', '4', '5', '6', '7', '8', '9'] := by
    simp only [isDigit, Bool.and_eq_true, decide_eq_true_eq, Char.le_def,
      UInt32.le_iff_toNat_le] at h
    have hlow : 48 ≤ c.toNat := h.1
    have hhigh : c.toNat ≤ 57 := h.2
    have hn : c.toNat = 48 ∨ c.toNat = 49 ∨ c.toNat = 50 ∨ c.toNat = 51 ∨ c.toNat = 52 ∨
        c.toNat = 53 ∨ c.toNat = 54 ∨ c.toNat = 55 ∨ c.toNat = 56 ∨ c.toNat = 57 := by omega
    rw [show c = Char.ofNat c.toNat from (Char.ofNat_toNat c).symm]
    rcases hn with h | h | h | h | h | h | h | h | h | h <;> rw [h] <;> decide
  have hall : ['0', '1', '2', '3', '4', '5', '6', '7', '8', '9'].all (!isNameStart ·) = true := by
    decide
  simpa using List.all_eq_true.1 hall c hmem

theorem getLast?_blockCommentTail {cs : List Char} (h : (blockCommentTail cs).2 ≠ []) :
    (blockCommentTail cs).1.getLast? = some '/' := by
  fun_induction blockCommentTail cs with
  | case1 => exact absurd rfl h
  | case2 rest => rfl
  | case3 c rest hne ih =>
    rw [List.getLast?_cons, ih h]
    rfl

theorem getLast?_stringTail {quote : Char} {cs : List Char} (h : (stringTail quote cs).2 ≠ []) :
    (stringTail quote cs).1.getLast? = some quote := by
  fun_induction stringTail quote cs with
  | case1 => exact absurd rfl h
  | case2 c => exact absurd rfl h
  | case3 d rest ih => rw [List.getLast?_cons, List.getLast?_cons, ih h]; rfl
  | case4 d rest hq => rfl
  | case5 c d rest hslash hquote ih => rw [List.getLast?_cons, ih h]; rfl

theorem mem_numberTail {cs : List Char} {a : Char} (h : a ∈ (numberTail cs).2.1) :
    isDigit a = true ∨ a = '.' := by
  have hdigits : ∀ {ds : List Char}, a ∈ ds.takeWhile isDigit → isDigit a = true :=
    fun hmem => List.mem_takeWhile_imp hmem
  unfold numberTail at h
  dsimp only at h
  split at h
  · split at h
    · rcases List.mem_append.1 h with h | h
      · exact .inl (hdigits h)
      · rcases List.mem_cons.1 h with h | h
        · exact .inr h
        · exact .inl (hdigits h)
    · exact .inl (hdigits h)
  · exact .inl (hdigits h)

theorem mem_symbol? {c : Char} {rest : List Char} {l : Lexeme} (h : symbol? c rest = some l) :
    ∀ a ∈ l.tail, isNameStart a = false := by
  have hall : ['=', '>', '&', '|'].all (!isNameStart ·) = true := by decide
  unfold symbol? at h
  split at h
  all_goals first
    | contradiction
    | (obtain rfl := Option.some.inj h
       intro a ha
       simpa using List.all_eq_true.1 hall a (by simp_all))

theorem isNamePart_of_endsName {cs : List Char} (h : endsName cs = true) :
    ∀ d, cs.head? = some d → isNamePart d = false := by
  intro d hd
  cases cs with
  | nil => cases hd
  | cons c cs =>
    cases hd
    simpa [endsName] using h

theorem head?_dropWhile {p : Char → Bool} {cs : List Char} {d : Char}
    (h : (cs.dropWhile p).head? = some d) : p d = false := by
  have := List.head?_dropWhile_not p cs
  rw [h] at this
  simpa using this

def goesOn? (text : String) (left : List Char) :
    String × String × Keyword → Option (Keyword × List Char × List Char)
  | (stem, ending, keyword) =>
    if stem = text then
      match after? ending.toList left with
      | some left' => if endsName left' then some (keyword, ending.toList, left') else none
      | none => none
    else none

theorem goesOn?_eq_some_iff {text : String} {left ending left' : List Char} {k : Keyword}
    {e : String × String × Keyword} : goesOn? text left e = some (k, ending, left') ↔
      e = (text, String.ofList ending, k) ∧ left = ending ++ left' ∧ endsName left' = true := by
  obtain ⟨stem, spelled, keyword⟩ := e
  unfold goesOn?
  dsimp only
  by_cases hstem : stem = text
  · rw [if_pos hstem]
    cases hafter : after? spelled.toList left with
    | none =>
      refine ⟨fun h => (by cases h), fun ⟨he, hleft, _⟩ => ?_⟩
      cases he
      rw [String.toList_ofList, after?_eq_some_iff.2 hleft] at hafter
      cases hafter
    | some rest =>
      dsimp only
      rw [after?_eq_some_iff] at hafter
      split
      · next hends =>
        refine ⟨fun h => ?_, fun ⟨he, hleft, _⟩ => ?_⟩
        · cases h
          exact ⟨by rw [hstem, String.ofList_toList], hafter, hends⟩
        · cases he
          rw [String.toList_ofList] at hafter ⊢
          rw [List.append_cancel_left (hafter.symm.trans hleft)]
      · next hno =>
        refine ⟨fun h => (by cases h), fun ⟨he, hleft, hends⟩ => ?_⟩
        cases he
        rw [String.toList_ofList] at hafter
        rw [List.append_cancel_left (hafter.symm.trans hleft)] at hno
        exact absurd hends hno
  · rw [if_neg hstem]
    exact ⟨fun h => (by cases h), fun ⟨he, _⟩ => absurd (congrArg Prod.fst he) hstem⟩

theorem hyphenated?_eq (text : String) (left : List Char) :
    hyphenated? text left = hyphenated.findSome? (goesOn? text left) := rfl

theorem hyphenated?_some {text : String} {left ending left' : List Char} {k : Keyword}
    (h : hyphenated? text left = some (k, ending, left')) :
    (text, String.ofList ending, k) ∈ hyphenated ∧ left = ending ++ left' ∧
    endsName left' = true := by
  obtain ⟨e, hmem, hon⟩ := List.exists_of_findSome?_eq_some h
  obtain ⟨rfl, hleft, hends⟩ := goesOn?_eq_some_iff.1 hon
  exact ⟨hmem, hleft, hends⟩

theorem endsWell_word (c : Char) (rest : List Char) :
    EndsWell (c :: (word c rest).tail) (word c rest).left := by
  unfold word
  dsimp only
  split
  · next h => exact .of_head (isNamePart_of_endsName (hyphenated?_some h).2.2)
  · exact .of_head fun d hd => head?_dropWhile hd

/-- All characters of a word but the first may be in names, or are the hyphen of a keyword. -/
theorem not_mem_word {c d : Char} {rest : List Char} (hpart : isNamePart d = false)
    (hhyphen : d ≠ '-') : d ∉ (word c rest).tail := by
  have hname : d ∉ rest.takeWhile isNamePart := fun h => by
    have hd := List.mem_takeWhile_imp h
    rw [hpart] at hd
    cases hd
  unfold word
  dsimp only
  split
  · next k ending left h =>
    have hendings : hyphenated.all fun e => e.2.1.toList.all fun a => isNamePart a || a == '-' := by
      decide
    have hnot : d ∉ ending := fun hmem => by
      have hd := List.all_eq_true.1 (List.all_eq_true.1 hendings _ (hyphenated?_some h).1) d
        (by rw [String.toList_ofList]; exact hmem)
      rw [hpart, Bool.false_or, beq_iff_eq] at hd
      exact hhyphen hd
    rw [List.mem_append, not_or]
    exact ⟨hname, hnot⟩
  · exact hname

end Lexeme

/-- No token ends in a character that may begin a name before one that may continue it. -/
theorem Lexeme.Scanned.endsWell {c : Char} {rest : List Char} {l : Lexeme}
    (h : Scanned hashComments c rest l) : EndsWell (c :: l.tail) l.left := by
  cases h with
  | separator hc =>
    refine .of_last fun a ha _ => isNameStart_of_isSeparator ?_
    rcases List.mem_cons.1 (List.mem_of_getLast? ha) with rfl | ha
    · exact hc
    · exact List.mem_takeWhile_imp ha
  | lineComment =>
    refine .of_head fun d hd => ?_
    have hd := head?_dropWhile hd
    obtain rfl : d = '\n' := by simpa using hd
    decide
  | blockComment =>
    refine .of_last fun a ha hne => ?_
    rw [List.getLast?_cons, List.getLast?_cons, getLast?_blockCommentTail hne] at ha
    obtain rfl : '/' = a := Option.some.inj ha
    decide
  | string _ hquote =>
    refine .of_last fun a ha hne => ?_
    rw [List.getLast?_cons, getLast?_stringTail hne] at ha
    obtain rfl : c = a := Option.some.inj ha
    rcases hquote with rfl | rfl <;> decide
  | number _ _ hnumber =>
    refine .of_last fun a ha _ => ?_
    rcases List.mem_cons.1 (List.mem_of_getLast? ha) with rfl | ha
    · rw [startsNumber, Bool.or_eq_true, Bool.and_eq_true, beq_iff_eq] at hnumber
      rcases hnumber with hdigit | ⟨rfl, -⟩
      · exact isNameStart_of_isDigit hdigit
      · decide
    · rcases mem_numberTail ha with ha | rfl
      · exact isNameStart_of_isDigit ha
      · decide
  | word => exact endsWell_word c rest
  | symbol _ _ _ hname hsymbol =>
    refine .of_last fun a ha _ => ?_
    rcases List.mem_cons.1 (List.mem_of_getLast? ha) with rfl | ha
    · exact hname
    · exact mem_symbol? hsymbol a ha
  | misc _ _ _ hname =>
    refine .of_last fun a ha _ => ?_
    obtain rfl := Option.some.inj ha
    exact hname

theorem endsWell_lexemes {cs : List Char} {ks ls : List (TokenKind × List Char)}
    (h : lexemes hashComments cs = ks ++ ls) : Lexeme.EndsWell (letters ks) (letters ls) := by
  induction ks generalizing cs with
  | nil => exact fun a d ha => by cases ha
  | cons k ks ih =>
    cases cs with
    | nil => rw [lexemes, List.cons_append] at h; cases h
    | cons c rest =>
      rw [lexemes_cons, List.cons_append, List.cons.injEq] at h
      obtain ⟨rfl, h⟩ := h
      rw [letters_cons]
      by_cases hks : letters ks = []
      · have hleft : letters ls = (lexeme hashComments c rest).left := by
          rw [← @letters_lexemes hashComments (lexeme hashComments c rest).left, h,
            letters_append, hks, List.nil_append]
        rw [hks, List.append_nil, hleft]
        exact (Lexeme.scanned hashComments c rest).endsWell
      · intro a d ha
        rw [List.getLast?_append] at ha
        cases hlast : (letters ks).getLast? with
        | none => exact absurd (List.getLast?_eq_none_iff.1 hlast) hks
        | some b => rw [hlast] at ha; exact ih h a d (hlast.trans ha)

/-! ### Cutting off -/

namespace Lexeme

variable {kept dropped : List Char}

theorem takeWhile_cut {p : Char → Bool} {cs : List Char} (h : cs.dropWhile p = kept ++ dropped) :
    (cs.takeWhile p ++ kept).takeWhile p = cs.takeWhile p ∧
      (cs.takeWhile p ++ kept).dropWhile p = kept := by
  have hall : ∀ a ∈ cs.takeWhile p, p a = true := fun a ha => List.mem_takeWhile_imp ha
  have hkept : kept.takeWhile p = [] ∧ kept.dropWhile p = kept := by
    cases kept with
    | nil => exact ⟨rfl, rfl⟩
    | cons d kept =>
      have hd : p d = false := @head?_dropWhile _ cs _ (by rw [h]; rfl)
      exact ⟨List.takeWhile_cons_of_neg (by simp [hd]), List.dropWhile_cons_of_neg (by simp [hd])⟩
  rw [List.takeWhile_append_of_pos hall, List.dropWhile_append_of_pos hall, hkept.1, hkept.2,
    List.append_nil]
  exact ⟨rfl, rfl⟩

theorem blockCommentTail_cut {cs : List Char} (h : (blockCommentTail cs).2 = kept ++ dropped) :
    blockCommentTail ((blockCommentTail cs).1 ++ kept) = ((blockCommentTail cs).1, kept) := by
  fun_induction blockCommentTail cs with
  | case1 =>
    obtain ⟨rfl, -⟩ := List.append_eq_nil_iff.1 h.symm
    rfl
  | case2 rest => rfl
  | case3 c rest hne ih =>
    dsimp only at h ⊢
    rw [List.cons_append, blockCommentTail, ih h]
    rintro left rfl hleft
    refine hne (left ++ dropped) rfl ?_
    rw [← blockCommentTail_append rest, h, ← List.append_assoc, hleft, List.cons_append]

theorem quoted_of_string {quote : Char} {cs : List Char} (h : (stringTail quote cs).2 ≠ [])
    (behind : List Char) :
    stringTail quote ((stringTail quote cs).1 ++ behind) = ((stringTail quote cs).1, behind) := by
  fun_induction stringTail quote cs with
  | case1 => exact absurd rfl h
  | case2 c => exact absurd rfl h
  | case3 d rest ih => rw [List.cons_append, List.cons_append, stringTail, if_pos rfl, ih h]
  | case4 d rest hslash =>
    cases behind with
    | nil => rfl
    | cons b behind => rw [List.singleton_append, stringTail, if_neg hslash, if_pos rfl]
  | case5 c d rest hslash hquote ih =>
    obtain ⟨e, es, htail⟩ : ∃ e es, (stringTail quote (d :: rest)).1 = e :: es :=
      List.exists_cons_of_ne_nil fun hnil => by
        have hlast := getLast?_stringTail h
        rw [hnil] at hlast
        cases hlast
    have hrest := ih h
    rw [htail, List.cons_append] at hrest
    rw [htail, List.cons_append, List.cons_append, stringTail, if_neg hslash, if_neg hquote, hrest]

theorem stringTail_cut {quote : Char} {cs : List Char}
    (h : (stringTail quote cs).2 = kept ++ dropped) :
    stringTail quote ((stringTail quote cs).1 ++ kept) = ((stringTail quote cs).1, kept) := by
  by_cases hleft : (stringTail quote cs).2 = []
  · obtain ⟨rfl, -⟩ := List.append_eq_nil_iff.1 (h.symm.trans hleft)
    have hwhole := stringTail_append quote cs
    rw [hleft, List.append_nil] at hwhole
    rw [List.append_nil, hwhole]
    exact Prod.ext hwhole hleft
  · exact quoted_of_string hleft kept

theorem numberTail_float {cs left : List Char} {d : Char}
    (h : cs.dropWhile isDigit = '.' :: d :: left) (hd : isDigit d = true) :
    numberTail cs = (.float, cs.takeWhile isDigit ++ '.' :: (d :: left).takeWhile isDigit,
        (d :: left).dropWhile isDigit) := by
  unfold numberTail
  simp only [h, hd, if_true]

theorem numberTail_int {cs : List Char}
    (h : ∀ d left, cs.dropWhile isDigit = '.' :: d :: left → isDigit d = false) :
    numberTail cs = (.int, cs.takeWhile isDigit, cs.dropWhile isDigit) := by
  unfold numberTail
  dsimp only
  split
  · next d left heq => rw [if_neg (by simp [h d left heq])]
  · rfl

theorem numberTail_cut {cs : List Char} (h : (numberTail cs).2.2 = kept ++ dropped) :
    numberTail ((numberTail cs).2.1 ++ kept) = ((numberTail cs).1, (numberTail cs).2.1, kept) := by
  by_cases hfloat : ∃ d left, cs.dropWhile isDigit = '.' :: d :: left ∧ isDigit d = true
  · obtain ⟨d, left, hleft, hd⟩ := hfloat
    rw [numberTail_float hleft hd] at h ⊢
    dsimp only at h ⊢
    obtain ⟨htake, hdrop⟩ := takeWhile_cut h
    have hwhole : cs.dropWhile isDigit =
        ('.' :: (d :: left).takeWhile isDigit ++ kept) ++ dropped := by
      rw [hleft, List.append_assoc, ← h, List.cons_append, List.takeWhile_append_dropWhile]
    obtain ⟨hdigits, hrest⟩ := takeWhile_cut hwhole
    rw [List.takeWhile_cons_of_pos hd, List.cons_append, List.cons_append] at hrest
    rw [List.takeWhile_cons_of_pos hd, List.cons_append] at htake hdrop
    rw [List.append_assoc, List.takeWhile_cons_of_pos hd, List.cons_append, List.cons_append,
      numberTail_float hrest hd, htake, hdrop]
    rw [List.takeWhile_cons_of_pos hd, List.cons_append, List.cons_append] at hdigits
    rw [hdigits]
  · have hint : ∀ d left, cs.dropWhile isDigit = '.' :: d :: left → isDigit d = false :=
      fun d left hleft => Bool.eq_false_iff.2 fun hd => hfloat ⟨d, left, hleft, hd⟩
    rw [numberTail_int hint] at h ⊢
    dsimp only at h ⊢
    obtain ⟨hdigits, hrest⟩ := takeWhile_cut h
    rw [numberTail_int, hdigits, hrest]
    intro d left hleft
    rw [hrest] at hleft
    exact hint d (left ++ dropped) (by rw [h, hleft]; rfl)

theorem goesOn?_append {text : String} {ending left : List Char} {k : Keyword}
    {e : String × String × Keyword} (he : e ∈ hyphenated) (hcut : EndsWell kept dropped)
    (h : goesOn? text kept e = some (k, ending, left)) :
    goesOn? text (kept ++ dropped) e = some (k, ending, left ++ dropped) := by
  rw [goesOn?_eq_some_iff] at h ⊢
  obtain ⟨rfl, hkept, hends⟩ := h
  refine ⟨rfl, by rw [hkept, List.append_assoc], ?_⟩
  cases left with
  | cons d left => exact hends
  | nil =>
    have hlast : hyphenated.all (fun e => e.2.1.toList.getLast?.any isNameStart) = true := by decide
    obtain ⟨a, ha, hstart⟩ := (Option.any_eq_true _ _).1 (List.all_eq_true.1 hlast _ he)
    rw [String.toList_ofList] at ha
    cases dropped with
    | nil => rfl
    | cons d dropped =>
      have hd := hcut a d (by rw [hkept, List.append_nil]; exact ha) rfl hstart
      show (!isNamePart d) = true
      rw [hd]
      rfl

theorem hyphenated?_none_cut {text : String} (hcut : EndsWell kept dropped)
    (h : hyphenated? text (kept ++ dropped) = none) : hyphenated? text kept = none := by
  rw [hyphenated?_eq, List.findSome?_eq_none_iff] at h ⊢
  intro e he
  cases hon : goesOn? text kept e with
  | none => rfl
  | some x =>
    have := (h e he).symm.trans (goesOn?_append he hcut hon)
    cases this

theorem hyphenated?_cut {text : String} {ending : List Char} {k : Keyword}
    (hcut : EndsWell kept dropped)
    (h : hyphenated? text (ending ++ (kept ++ dropped)) = some (k, ending, kept ++ dropped)) :
    hyphenated? text (ending ++ kept) = some (k, ending, kept) := by
  rw [hyphenated?_eq, List.findSome?_eq_some_iff] at h ⊢
  obtain ⟨before, e, after, hsplit, hon, hbefore⟩ := h
  obtain ⟨he, -, hends⟩ := goesOn?_eq_some_iff.1 hon
  have hwell : EndsWell (ending ++ kept) dropped := by
    cases kept with
    | nil => exact .of_head (isNamePart_of_endsName hends)
    | cons d kept =>
      intro a b ha
      rw [List.getLast?_append, List.getLast?_cons, Option.some_or, ← List.getLast?_cons] at ha
      exact hcut a b ha
  refine ⟨before, e, after, hsplit, goesOn?_eq_some_iff.2 ⟨he, rfl, ?_⟩, fun e' he' => ?_⟩
  · cases kept with
    | nil => rfl
    | cons d kept => exact hends
  · cases hon' : goesOn? text (ending ++ kept) e' with
    | none => rfl
    | some x =>
      have hmem : e' ∈ hyphenated := hsplit ▸ List.mem_append_left _ he'
      have := goesOn?_append hmem hwell hon'
      rw [List.append_assoc, hbefore e' he'] at this
      cases this

theorem word_cut {c : Char} {rest : List Char} (h : (word c rest).left = kept ++ dropped)
    (hcut : EndsWell kept dropped) :
    word c ((word c rest).tail ++ kept) = ⟨(word c rest).kind, (word c rest).tail, kept⟩ := by
  unfold word at h ⊢
  dsimp only at h ⊢
  cases hhyphen : hyphenated? (String.ofList (c :: rest.takeWhile isNamePart))
      (rest.dropWhile isNamePart) with
  | some x =>
    obtain ⟨k, ending, left⟩ := x
    rw [hhyphen] at h
    dsimp only at h ⊢
    subst h
    have hrest := hyphenated?_append hhyphen
    obtain ⟨hword, hleft⟩ := @takeWhile_cut (ending ++ kept) dropped
      isNamePart rest (by rw [← hrest, List.append_assoc])
    rw [List.append_assoc, hword, hleft, hyphenated?_cut hcut (hrest ▸ hhyphen)]
  | none =>
    rw [hhyphen] at h
    dsimp only at h ⊢
    obtain ⟨hword, hleft⟩ := takeWhile_cut h
    rw [hword, hleft, hyphenated?_none_cut hcut (h ▸ hhyphen)]

/-- An operator is decided by two characters. -/
theorem symbol?_cons (c d : Char) (ds : List Char) : symbol? c (d :: ds) =
    (symbol? c [d]).map fun l => ⟨l.kind, l.tail, (d :: ds).drop l.tail.length⟩ := by
  unfold symbol?
  split
  case h_22 => split <;> simp_all
  all_goals first
    | rfl
    | (simp only [List.cons.injEq] at *; split <;> simp_all)

theorem symbol?_nil_of_some {c d : Char} {l : Lexeme} (h : symbol? c [d] = some l)
    (ht : l.tail = []) : symbol? c [] = some ⟨l.kind, [], []⟩ := by
  unfold symbol? at h
  split at h
  all_goals first
    | contradiction
    | (obtain rfl := Option.some.inj h
       first
       | rfl
       | cases ht)

theorem symbol?_nil_of_none {c d : Char} (h : symbol? c [d] = none) : symbol? c [] = none := by
  cases hnil : symbol? c [] with
  | none => rfl
  | some l =>
    have hsome : (symbol? c [d]).isSome = true := by
      unfold symbol? at hnil
      split at hnil
      all_goals first
        | contradiction
        | rfl
        | (unfold symbol?; split <;> simp_all)
    rw [h] at hsome
    cases hsome

theorem symbol?_cut {c : Char} {rest : List Char} {l : Lexeme} (hl : symbol? c rest = some l)
    (h : l.left = kept ++ dropped) : symbol? c (l.tail ++ kept) = some ⟨l.kind, l.tail, kept⟩ := by
  have happend := symbol?_tail_append_left hl
  cases rest with
  | nil =>
    obtain ⟨htail, hleft⟩ := List.append_eq_nil_iff.1 happend
    obtain ⟨rfl, -⟩ := List.append_eq_nil_iff.1 (h.symm.trans hleft)
    obtain ⟨kind, tail, left⟩ := l
    dsimp only at htail hleft ⊢
    subst htail hleft
    exact hl
  | cons d ds =>
    rw [symbol?_cons] at hl
    obtain ⟨l', hl', rfl⟩ := Option.map_eq_some_iff.1 hl
    dsimp only at h ⊢
    rcases List.append_eq_singleton_iff.1 (symbol?_tail_append_left hl') with
      ⟨htail, -⟩ | ⟨htail, -⟩
    · rw [htail] at h ⊢
      rw [List.nil_append]
      cases kept with
      | nil => exact symbol?_nil_of_some hl' htail
      | cons e kept =>
        obtain ⟨rfl, -⟩ := List.cons.inj h
        rw [symbol?_cons, hl', Option.map_some, htail]
        rfl
    · rw [htail, List.singleton_append, symbol?_cons, hl', Option.map_some, htail]
      rfl

theorem symbol?_none_cut {c : Char} (h : symbol? c (kept ++ dropped) = none) :
    symbol? c kept = none := by
  cases kept with
  | nil =>
    cases dropped with
    | nil => exact h
    | cons d dropped =>
      rw [List.nil_append, symbol?_cons, Option.map_eq_none_iff] at h
      exact symbol?_nil_of_none h
  | cons d kept =>
    rw [List.cons_append, symbol?_cons, Option.map_eq_none_iff] at h
    rw [symbol?_cons, h]
    rfl

end Lexeme

section Cut

open Lexeme

variable {c : Char} {rest kept dropped : List Char}

theorem lexeme_separator (hc : isSeparator c = true) (rest : List Char) :
    lexeme hashComments c rest =
      ⟨.trivia .whitespace, rest.takeWhile isSeparator, rest.dropWhile isSeparator⟩ :=
  (Scanned.separator hc).lexeme_eq

theorem lexeme_lineComment (hc : isSeparator c = false)
    (hline : isLineComment hashComments c rest = true) : lexeme hashComments c rest =
      ⟨.trivia .lineComment, rest.takeWhile (· != '\n'), rest.dropWhile (· != '\n')⟩ :=
  (Scanned.lineComment hc hline).lexeme_eq

theorem lexeme_blockComment (hline : isLineComment hashComments '/' ('*' :: rest) = false) :
    lexeme hashComments '/' ('*' :: rest) =
      ⟨.trivia .blockComment, '*' :: (blockCommentTail rest).1, (blockCommentTail rest).2⟩ :=
  (Scanned.blockComment rfl rfl hline).lexeme_eq

theorem lexeme_string (h : Solid hashComments c rest) (hc : c = '\x22' ∨ c = '\x27') :
    lexeme hashComments c rest =
      ⟨.literal .string, (stringTail c rest).1, (stringTail c rest).2⟩ :=
  (Scanned.string h hc).lexeme_eq

theorem lexeme_number (h : Solid hashComments c rest) (hc : ¬(c = '\x22' ∨ c = '\x27'))
    (hnumber : startsNumber c rest = true) : lexeme hashComments c rest =
      ⟨.literal (numberTail rest).1, (numberTail rest).2.1, (numberTail rest).2.2⟩ :=
  (Scanned.number h hc hnumber).lexeme_eq

theorem lexeme_word (h : Solid hashComments c rest) (hc : ¬(c = '\x22' ∨ c = '\x27'))
    (hnumber : startsNumber c rest = false) (hname : isNameStart c = true) :
    lexeme hashComments c rest = word c rest :=
  (Scanned.word h hc hnumber hname).lexeme_eq

theorem lexeme_symbol (h : Solid hashComments c rest) (hc : ¬(c = '\x22' ∨ c = '\x27'))
    (hnumber : startsNumber c rest = false) (hname : isNameStart c = false) :
    lexeme hashComments c rest = (symbol? c rest).getD ⟨.misc, [], rest⟩ := by
  rw [h.lexeme_eq, if_neg hc, if_neg (by simp [hnumber]), if_neg (by simp [hname])]

theorem Solid.cut (h : Solid hashComments c (kept ++ dropped)) : Solid hashComments c kept := by
  obtain ⟨hseparator, hline, hblock⟩ := h
  cases kept with
  | cons d kept => exact ⟨hseparator, hline, hblock⟩
  | nil =>
    refine ⟨hseparator, ?_, fun hno => by cases hno.2⟩
    unfold isLineComment at hline ⊢
    rw [Bool.or_eq_false_iff] at hline ⊢
    exact ⟨by simp, hline.2⟩

theorem startsNumber_cut (h : startsNumber c (kept ++ dropped) = false) :
    startsNumber c kept = false := by
  cases kept with
  | cons d kept => exact h
  | nil =>
    unfold startsNumber at h ⊢
    rw [Bool.or_eq_false_iff] at h ⊢
    exact ⟨h.1, by simp [startsWithDigit]⟩

theorem startsNumber_numberTail (h : startsNumber c rest = true) (behind : List Char) :
    startsNumber c ((numberTail rest).2.1 ++ behind) = true := by
  unfold startsNumber at h ⊢
  rw [Bool.or_eq_true, Bool.and_eq_true] at h ⊢
  refine h.imp_right fun ⟨hc, hdigit⟩ => ⟨hc, ?_⟩
  cases rest with
  | nil => cases hdigit
  | cons d rest =>
    have hd : isDigit d = true := hdigit
    by_cases hfloat : ∃ e left, (d :: rest).dropWhile isDigit = '.' :: e :: left ∧ isDigit e = true
    · obtain ⟨e, left, hleft, he⟩ := hfloat
      rw [numberTail_float hleft he, List.takeWhile_cons_of_pos hd]
      exact hd
    · rw [numberTail_int fun e left hleft => Bool.eq_false_iff.2 fun he =>
        hfloat ⟨e, left, hleft, he⟩, List.takeWhile_cons_of_pos hd]
      exact hd

theorem isLineComment_takeWhile (hline : isLineComment hashComments c rest = true)
    (behind : List Char) :
    isLineComment hashComments c (rest.takeWhile (· != '\n') ++ behind) = true := by
  unfold isLineComment at hline ⊢
  rw [Bool.or_eq_true] at hline ⊢
  refine hline.imp_left fun hslash => ?_
  cases rest with
  | nil => simp at hslash
  | cons d rest =>
    obtain ⟨hc, rfl⟩ : c = '/' ∧ d = '/' := by simpa using hslash
    rw [List.takeWhile_cons_of_pos (by decide), List.cons_append]
    simp [hc]

/-- A token is scanned in the same way in a text that is cut off behind it. -/
theorem Lexeme.Scanned.cut {l : Lexeme} (h : Scanned hashComments c rest l)
    (happend : l.tail ++ l.left = rest) (hleft : l.left = kept ++ dropped)
    (hcut : EndsWell kept dropped) :
    Scanned hashComments c (l.tail ++ kept) ⟨l.kind, l.tail, kept⟩ := by
  have hwhole : (l.tail ++ kept) ++ dropped = rest := by
    rw [List.append_assoc, ← hleft, happend]
  have hsolid : Solid hashComments c rest → Solid hashComments c (l.tail ++ kept) := fun h =>
    @Solid.cut _ _ _ dropped (hwhole.symm ▸ h)
  have hnumber' : startsNumber c rest = false → startsNumber c (l.tail ++ kept) = false := fun h =>
    @startsNumber_cut _ _ dropped (hwhole.symm ▸ h)
  cases h with
  | separator hc =>
    obtain ⟨htail, hrest⟩ := takeWhile_cut hleft
    have hscanned := @Scanned.separator hashComments c (rest.takeWhile isSeparator ++ kept) hc
    rwa [htail, hrest] at hscanned
  | lineComment hc hline =>
    obtain ⟨htail, hrest⟩ := takeWhile_cut hleft
    have hscanned := Scanned.lineComment hc (isLineComment_takeWhile hline kept)
    rwa [htail, hrest] at hscanned
  | @blockComment body hc hrest hline =>
    subst hc hrest
    have hscanned :=
      @Scanned.blockComment hashComments '/' _ ((blockCommentTail body).1 ++ kept) rfl rfl hline
    rwa [blockCommentTail_cut hleft] at hscanned
  | string h hquote =>
    have hscanned := Scanned.string (hsolid h) hquote
    rwa [stringTail_cut hleft] at hscanned
  | number h hquote hnumber =>
    have hscanned := Scanned.number (hsolid h) hquote (startsNumber_numberTail hnumber kept)
    rwa [numberTail_cut hleft] at hscanned
  | word h hquote hnumber hname =>
    have hscanned := Scanned.word (hsolid h) hquote (hnumber' hnumber) hname
    rwa [word_cut hleft hcut] at hscanned
  | symbol h hquote hnumber hname hsymbol =>
    exact .symbol (hsolid h) hquote (hnumber' hnumber) hname (symbol?_cut hsymbol hleft)
  | misc h hquote hnumber hname hsymbol =>
    have hrest : rest = kept ++ dropped := hleft
    exact .misc (hsolid h) hquote (hnumber' hnumber) hname (symbol?_none_cut (hrest ▸ hsymbol))

theorem lexeme_cut (h : (lexeme hashComments c rest).left = kept ++ dropped)
    (hcut : EndsWell kept dropped) :
    lexeme hashComments c ((lexeme hashComments c rest).tail ++ kept) =
      ⟨(lexeme hashComments c rest).kind, (lexeme hashComments c rest).tail, kept⟩ :=
  ((scanned hashComments c rest).cut (lexeme_tail_append_left ..) h hcut).lexeme_eq

theorem lexemes_before {cs : List Char} {ks ls : List (TokenKind × List Char)}
    (h : lexemes hashComments cs = ks ++ ls) : lexemes hashComments (letters ks) = ks := by
  induction ks generalizing cs with
  | nil => rw [letters_nil, lexemes]
  | cons k ks ih =>
    cases cs with
    | nil => rw [lexemes, List.cons_append] at h; cases h
    | cons c rest =>
      rw [lexemes_cons, List.cons_append, List.cons.injEq] at h
      obtain ⟨rfl, h⟩ := h
      have hleft : (lexeme hashComments c rest).left = letters ks ++ letters ls := by
        rw [← letters_append, ← h, letters_lexemes]
      rw [letters_cons, List.cons_append, lexemes_cons, lexeme_cut hleft (endsWell_lexemes h), ih h]

theorem lexemes_between {cs : List Char} {ks ls ms : List (TokenKind × List Char)}
    (h : lexemes hashComments cs = ks ++ (ls ++ ms)) : lexemes hashComments (letters ls) = ls :=
  lexemes_before (lexemes_behind h)

end Cut

end Rulebook
