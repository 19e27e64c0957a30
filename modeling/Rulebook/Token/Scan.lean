import Rulebook.Text.Letter
import Rulebook.Token.Basic

/-!
# Scanning a text into tokens

`lexeme` decides the kind and the extent of the token that begins with a given character; it
takes at least that character, so `scan` is total. The extents are cut out of the text, nothing
is dropped or changed: `lexeme_tail_append_left` says that a lexeme and what is left after it are
the text. A character outside the grammar is a token of its own, and an unclosed string or block
comment runs to the end of the text, so scanning never fails.
-/

namespace Rulebook

/-- What follows the first character of a token: the token's other characters, and the rest. -/
structure Lexeme where
  kind : TokenKind
  tail : List Char
  left : List Char
  deriving Repr

namespace Lexeme

/-- The blanks that separate tokens. -/
def isSeparator (c : Char) : Bool :=
  c == ' ' || c == '\t' || c == '\r' || c == '\n' || c == '\x0c'

/-- A character that may begin a name. -/
def isNameStart (c : Char) : Bool := Text.isLetter c || c == '_' || c == '$'

/-- A character that may continue a name. -/
def isNamePart (c : Char) : Bool := Text.isWordPart c || c == '_' || c == '$'

def isDigit (c : Char) : Bool := '0' ≤ c && c ≤ '9'

/-- Cuts after the first `*/`, or at the end. -/
def blockCommentTail : List Char → List Char × List Char
  | [] => ([], [])
  | '*' :: '/' :: rest => (['*', '/'], rest)
  | c :: rest => (c :: (blockCommentTail rest).1, (blockCommentTail rest).2)

/-- Cuts after the closing quote, or at the end. A backslash takes the next character along. -/
def stringTail (quote : Char) : List Char → List Char × List Char
  | [] => ([], [])
  | [c] => ([c], [])
  | c :: d :: rest =>
    if c = '\\' then (c :: d :: (stringTail quote rest).1, (stringTail quote rest).2)
    else if c = quote then ([c], d :: rest)
    else (c :: (stringTail quote (d :: rest)).1, (stringTail quote (d :: rest)).2)

/-- The digits after the first character of a number, and a fraction if a digit follows the
point. -/
def numberTail (rest : List Char) : Literal × List Char × List Char :=
  let digits := rest.takeWhile isDigit
  let left := rest.dropWhile isDigit
  match left with
  | '.' :: d :: left' =>
    if isDigit d then
      (.float, digits ++ '.' :: (d :: left').takeWhile isDigit, (d :: left').dropWhile isDigit)
    else (.int, digits, left)
  | _ => (.int, digits, left)

/-- The rest after a given beginning. -/
def after? : List Char → List Char → Option (List Char)
  | [], cs => some cs
  | _ :: _, [] => none
  | a :: as, c :: cs => if a = c then after? as cs else none

/-- The keywords spelled with a hyphen: the word before the first hyphen, and what follows it. -/
def hyphenated : List (String × String × Keyword) :=
  [("no", "-loop", .noLoop), ("auto", "-focus", .autoFocus), ("lock", "-on-active", .lockOnActive),
   ("agenda", "-group", .agendaGroup), ("activation", "-group", .activationGroup),
   ("ruleflow", "-group", .ruleflowGroup), ("date", "-effective", .dateEffective),
   ("date", "-expires", .dateExpires)]

/-- A text that does not go on with a name character. -/
def endsName : List Char → Bool
  | [] => true
  | c :: _ => !isNamePart c

def hyphenated? (word : String) (left : List Char) : Option (Keyword × List Char × List Char) :=
  hyphenated.findSome? fun (stem, ending, keyword) =>
    if stem = word then
      match after? ending.toList left with
      | some left' => if endsName left' then some (keyword, ending.toList, left') else none
      | none => none
    else none

def wordKind (word : String) : TokenKind :=
  if word = "true" ∨ word = "false" then .literal .bool
  else if word = "null" then .literal .null
  else match Keyword.ofText? word with
    | some k => .keyword k
    | none => .identifier

/-- A name, a keyword or a word literal. -/
def word (c : Char) (rest : List Char) : Lexeme :=
  let tail := rest.takeWhile isNamePart
  let left := rest.dropWhile isNamePart
  let text := String.ofList (c :: tail)
  match hyphenated? text left with
  | some (keyword, ending, left') => ⟨.keyword keyword, tail ++ ending, left'⟩
  | none => ⟨wordKind text, tail, left⟩

/-- Operators of two characters are tried before those of one. -/
def symbol? (c : Char) (rest : List Char) : Option Lexeme :=
  match c, rest with
  | '=', '=' :: left => some ⟨.symbol .equal, ['='], left⟩
  | '!', '=' :: left => some ⟨.symbol .notEqual, ['='], left⟩
  | '>', '=' :: left => some ⟨.symbol .greaterEqual, ['='], left⟩
  | '<', '=' :: left => some ⟨.symbol .lessEqual, ['='], left⟩
  | '-', '>' :: left => some ⟨.symbol .arrow, ['>'], left⟩
  | '&', '&' :: left => some ⟨.symbol .doubleAmper, ['&'], left⟩
  | '|', '|' :: left => some ⟨.symbol .doublePipe, ['|'], left⟩
  | '>', left => some ⟨.symbol .greater, [], left⟩
  | '<', left => some ⟨.symbol .less, [], left⟩
  | '&', left => some ⟨.symbol .amper, [], left⟩
  | '|', left => some ⟨.symbol .pipe, [], left⟩
  | '(', left => some ⟨.symbol .lparen, [], left⟩
  | ')', left => some ⟨.symbol .rparen, [], left⟩
  | '\x7b', left => some ⟨.symbol .lbrace, [], left⟩
  | '\x7d', left => some ⟨.symbol .rbrace, [], left⟩
  | '[', left => some ⟨.symbol .lbracket, [], left⟩
  | ']', left => some ⟨.symbol .rbracket, [], left⟩
  | ',', left => some ⟨.symbol .comma, [], left⟩
  | ';', left => some ⟨.symbol .semicolon, [], left⟩
  | ':', left => some ⟨.symbol .colon, [], left⟩
  | '.', left => some ⟨.symbol .dot, [], left⟩
  | _, _ => none

/-- A text that begins with a digit. -/
def startsWithDigit : List Char → Bool
  | [] => false
  | c :: _ => isDigit c

def isLineComment (hashComments : Bool) (c : Char) (rest : List Char) : Bool :=
  (c == '/' && rest.head? == some '/') || (c == '#' && hashComments)

end Lexeme

open Lexeme in
/-- The token that begins with the character `c`. -/
def lexeme (hashComments : Bool) (c : Char) (rest : List Char) : Lexeme :=
  if isSeparator c then
    ⟨.trivia .whitespace, rest.takeWhile isSeparator, rest.dropWhile isSeparator⟩
  else if isLineComment hashComments c rest then
    ⟨.trivia .lineComment, rest.takeWhile (· != '\n'), rest.dropWhile (· != '\n')⟩
  else if c = '/' ∧ rest.head? = some '*' then
    let (body, left) := blockCommentTail (rest.drop 1)
    ⟨.trivia .blockComment, '*' :: body, left⟩
  else if c = '\x22' ∨ c = '\x27' then
    let (tail, left) := stringTail c rest
    ⟨.literal .string, tail, left⟩
  else if isDigit c || (c == '-' && startsWithDigit rest) then
    let (l, tail, left) := numberTail rest
    ⟨.literal l, tail, left⟩
  else if isNameStart c then word c rest
  else (symbol? c rest).getD ⟨.misc, [], rest⟩

namespace Lexeme

theorem blockCommentTail_append (cs : List Char) :
    (blockCommentTail cs).1 ++ (blockCommentTail cs).2 = cs := by
  fun_induction blockCommentTail cs <;> simp_all

theorem stringTail_append (quote : Char) (cs : List Char) :
    (stringTail quote cs).1 ++ (stringTail quote cs).2 = cs := by
  fun_induction stringTail quote cs <;> simp_all

theorem numberTail_append (cs : List Char) :
    (numberTail cs).2.1 ++ (numberTail cs).2.2 = cs := by
  unfold numberTail
  have h := List.takeWhile_append_dropWhile (p := isDigit) (l := cs)
  dsimp only
  split
  · next d left' heq =>
    split
    · rw [List.append_assoc, List.cons_append, List.takeWhile_append_dropWhile, ← heq, h]
    · exact h
  · exact h

theorem after?_eq_some_iff {as cs rest : List Char} :
    after? as cs = some rest ↔ cs = as ++ rest := by
  induction as generalizing cs with
  | nil => simp [after?]
  | cons a as ih =>
    cases cs with
    | nil => simp [after?]
    | cons c cs =>
      by_cases h : a = c
      · simp [after?, h, ih]
      · simp [after?, h, Ne.symm h]

theorem hyphenated?_append {word : String} {left ending left' : List Char} {k : Keyword}
    (h : hyphenated? word left = some (k, ending, left')) : ending ++ left' = left := by
  obtain ⟨⟨stem, e, kw⟩, -, he⟩ := List.exists_of_findSome?_eq_some h
  dsimp only at he
  split at he
  · split at he
    · next l hl =>
      split at he
      · simp only [Option.some.injEq, Prod.mk.injEq] at he
        obtain ⟨-, rfl, rfl⟩ := he
        exact (after?_eq_some_iff.1 hl).symm
      · simp at he
    · simp at he
  · simp at he

theorem word_tail_append_left (c : Char) (rest : List Char) :
    (word c rest).tail ++ (word c rest).left = rest := by
  unfold word
  dsimp only
  split
  · next h =>
    rw [List.append_assoc, hyphenated?_append h, List.takeWhile_append_dropWhile]
  · exact List.takeWhile_append_dropWhile

theorem symbol?_tail_append_left {c : Char} {rest : List Char} {l : Lexeme}
    (h : symbol? c rest = some l) : l.tail ++ l.left = rest := by
  unfold symbol? at h
  split at h <;> first | contradiction | (obtain rfl := Option.some.inj h; rfl)

end Lexeme

theorem lexeme_tail_append_left (hashComments : Bool) (c : Char) (rest : List Char) :
    (lexeme hashComments c rest).tail ++ (lexeme hashComments c rest).left = rest := by
  unfold lexeme
  split
  · exact List.takeWhile_append_dropWhile
  split
  · exact List.takeWhile_append_dropWhile
  split
  · next h =>
    obtain ⟨-, h⟩ := h
    cases rest with
    | nil => simp at h
    | cons d rest =>
      obtain rfl : d = '*' := by simpa using h
      simpa using Lexeme.blockCommentTail_append rest
  split
  · exact Lexeme.stringTail_append c rest
  split
  · exact Lexeme.numberTail_append rest
  split
  · exact Lexeme.word_tail_append_left c rest
  · cases h : Lexeme.symbol? c rest with
    | none => rfl
    | some l => exact Lexeme.symbol?_tail_append_left h

theorem length_lexeme_left_le (hashComments : Bool) (c : Char) (rest : List Char) :
    (lexeme hashComments c rest).left.length ≤ rest.length := by
  have h := congrArg List.length (lexeme_tail_append_left hashComments c rest)
  rw [List.length_append] at h
  omega

/-- The token at a place, its text given by its first and its other characters. -/
def Token.at (p : Position) (kind : TokenKind) (text : List Char) : Token :=
  ⟨kind, String.ofList text, p.line, p.column, p.offset, (p.advance text).offset⟩

/-- The tokens of the text that begins at a place, and the mark after its end. -/
def scanFrom (hashComments : Bool) (p : Position) : List Char → List Token
  | [] => [Token.endOfInput p]
  | c :: rest =>
    let l := lexeme hashComments c rest
    Token.at p l.kind (c :: l.tail) :: scanFrom hashComments (p.advance (c :: l.tail)) l.left
termination_by cs => cs.length
decreasing_by exact Nat.lt_succ_of_le (length_lexeme_left_le hashComments c rest)

/-- The tokens of a text, trivia included, ending with the mark after its last character. -/
def scan (text : String) (hashComments : Bool) : List Token :=
  scanFrom hashComments {} text.toList

end Rulebook
