import Rulebook.Proofs.Dividers
import Rulebook.Proofs.Facing

/-!
# Written tokens

Names, symbols and blanks as they are written, and what may stand directly behind each so that it is
scanned as a token of its own.
-/

namespace Rulebook

open Lexeme

variable {hashComments : Bool} {l m : List Piece} {rest : List Char} {c d : Char}

def Scans (hashComments : Bool) (l : List Piece) (rest : List Char) : Prop :=
  lexemes hashComments (letters l ++ rest) = l ++ lexemes hashComments rest

instance (l : List Piece) (rest : List Char) : Decidable (Scans hashComments l rest) :=
  inferInstanceAs (Decidable (_ = _))

namespace Scans

theorem nil : Scans hashComments [] rest := rfl

theorem append (h : Scans hashComments l (letters m ++ rest)) (h' : Scans hashComments m rest) :
    Scans hashComments (l ++ m) rest := by
  unfold Scans at h h' ⊢
  rw [letters_append, List.append_assoc, h, h', List.append_assoc]

theorem cons {x : Piece} (h : Scans hashComments [x] (letters l ++ rest))
    (h' : Scans hashComments l rest) : Scans hashComments (x :: l) rest :=
  append (l := [x]) h h'

end Scans

/-! ### Symbols and blanks -/

@[simp] theorem Piece.letters_symbol (k : Symbol) (l : List Piece) :
    letters (Piece.symbol k :: l) = k.text.toList ++ letters l :=
  rfl

@[simp] theorem Piece.letters_keyword (k : Keyword) (l : List Piece) :
    letters (Piece.keyword k :: l) = k.text.toList ++ letters l :=
  rfl

@[simp] theorem Piece.letters_blank (l : List Piece) :
    letters (Piece.blank :: l) = ' ' :: letters l :=
  rfl

/-- Characters that begin no name, number, string or comment. -/
def plainChars : List Char :=
  ['(', ')', '\x7b', '\x7d', '[', ']', '<', '>', ',', ';', ':', '.', '*', '&', '|']

theorem lexeme_of_plain (hc : c ∈ plainChars) (rest : List Char) :
    lexeme hashComments c rest = (symbol? c rest).getD ⟨.misc, [], rest⟩ := by
  have hall : plainChars.all (fun c => !isSeparator c && !(c == '/') && !(c == '#') &&
      !(c == '\x22') && !(c == '\x27') && !(c == '-') && !isDigit c && !isNameStart c) = true := by
    decide
  have hplain := List.all_eq_true.1 hall c hc
  simp only [Bool.and_eq_true, Bool.not_eq_true', beq_eq_false_iff_ne] at hplain
  obtain ⟨⟨⟨⟨⟨⟨⟨hseparator, hslash⟩, hhash⟩, hquote⟩, hquote'⟩, hminus⟩, hdigit⟩, hname⟩ := hplain
  refine lexeme_symbol ⟨hseparator, ?_, fun h => hslash h.1⟩ ?_ ?_ hname
  · simp [isLineComment, hslash, hhash]
  · rintro (h | h)
    · exact hquote h
    · exact hquote' h
  · simp [startsNumber, hdigit, hminus]

def plainSymbols : List Symbol :=
  [.lparen, .rparen, .lbrace, .rbrace, .lbracket, .rbracket, .comma, .semicolon, .colon, .dot,
   .doubleAmper, .doublePipe]

theorem Scans.symbol {k : Symbol} (hk : k ∈ plainSymbols) :
    Scans hashComments [.symbol k] rest := by
  unfold Scans
  simp only [plainSymbols, List.mem_cons, List.not_mem_nil, or_false] at hk
  rcases hk with rfl | rfl | rfl | rfl | rfl | rfl | rfl | rfl | rfl | rfl | rfl | rfl
  all_goals
    refine (lexemes_cons _ _).trans ?_
    rw [lexeme_of_plain (by decide)]
    rfl

theorem Scans.less (h : rest.head? ≠ some '=') : Scans hashComments [.symbol .less] rest := by
  refine (lexemes_cons '<' rest).trans ?_
  have hsymbol : symbol? '<' rest = some ⟨.symbol .less, [], rest⟩ := by
    unfold symbol?
    split <;> simp_all
  rw [lexeme_of_plain (by decide), hsymbol]
  rfl

theorem Scans.greater (h : rest.head? ≠ some '=') : Scans hashComments [.symbol .greater] rest := by
  refine (lexemes_cons '>' rest).trans ?_
  have hsymbol : symbol? '>' rest = some ⟨.symbol .greater, [], rest⟩ := by
    unfold symbol?
    split <;> simp_all
  rw [lexeme_of_plain (by decide), hsymbol]
  rfl

def Piece.star : Piece := (.misc, ['*'])

theorem Scans.star : Scans hashComments [.star] rest := by
  refine (lexemes_cons '*' rest).trans ?_
  rw [lexeme_of_plain (by decide)]
  rfl

theorem Scans.separator (hc : isSeparator c = true) (h : ∀ d ∈ rest.head?, isSeparator d = false) :
    Scans hashComments [(.trivia .whitespace, [c])] rest := by
  refine (lexemes_cons c rest).trans ?_
  have hrest : rest.takeWhile isSeparator = [] ∧ rest.dropWhile isSeparator = rest := by
    cases rest with
    | nil => exact ⟨rfl, rfl⟩
    | cons d rest =>
      have hd : isSeparator d = false := h d rfl
      exact ⟨List.takeWhile_cons_of_neg (by simp [hd]), List.dropWhile_cons_of_neg (by simp [hd])⟩
  rw [lexeme_separator hc, hrest.1, hrest.2]
  rfl

theorem Scans.blank (h : ∀ d ∈ rest.head?, isSeparator d = false) :
    Scans hashComments [.blank] rest :=
  .separator (by decide) h

/-! ### Names -/

/-- What follows neither goes on with a name nor makes another symbol of an angle bracket. -/
def Stops (rest : List Char) : Prop :=
  ∀ d ∈ rest.head?, isNamePart d = false ∧ d ≠ '-' ∧ d ≠ '='

theorem Stops.nil : Stops [] := fun _ h => by cases h

def nameStops : List Char := ['(', ')', '[', ']', '<', '>', ',', ';', '.', ' ', '\n']

theorem Stops.cons (hd : d ∈ nameStops) (rest : List Char) : Stops (d :: rest) := by
  have hall : nameStops.all (fun d => !isNamePart d && !(d == '-') && !(d == '=')) = true := by
    decide
  have hstop := List.all_eq_true.1 hall d hd
  simp only [Bool.and_eq_true, Bool.not_eq_true', beq_eq_false_iff_ne] at hstop
  intro e he
  cases he
  exact ⟨hstop.1.1, hstop.1.2, hstop.2⟩

/-- A name: a text that is scanned as an identifier or as a keyword. -/
structure Name where
  text : String
  kind : TokenKind
  scanned : ∀ hashComments, lexemes hashComments text.toList = [(kind, text.toList)]
  isName : kind.isName = true

namespace Name

def ofKeyword (k : Keyword) : Name where
  text := k.text
  kind := .keyword k
  scanned hashComments := by cases k <;> cases hashComments <;> decide +kernel
  isName := rfl

def piece (n : Name) : Piece := (n.kind, n.text.toList)

@[simp] theorem isTrivia_piece (n : Name) : n.piece.isTrivia = false := by
  have h := n.isName
  unfold piece Piece.isTrivia
  cases hk : n.kind <;> rw [hk] at h <;> first | rfl | cases h

@[simp] theorem nextKind_piece (n : Name) (l : List Piece) : nextKind (n.piece :: l) = n.kind :=
  nextKind_cons n.isTrivia_piece l

@[simp] theorem letters_piece (n : Name) (l : List Piece) :
    letters (n.piece :: l) = n.text.toList ++ letters l :=
  rfl

theorem kind_ne_symbol (n : Name) (k : Symbol) : n.kind ≠ .symbol k := fun h => by
  have hname := n.isName
  rw [h] at hname
  cases hname

end Name

theorem isSeparator_of_isNameStart (h : isNameStart c = true) : isSeparator c = false := by
  cases hc : isSeparator c with
  | false => rfl
  | true => exact absurd (h.symm.trans (isNameStart_of_isSeparator hc)) (by simp)

theorem lexeme_of_isNameStart (hc : isNameStart c = true) (rest : List Char) :
    lexeme hashComments c rest = word c rest := by
  have hne : ∀ d, isNameStart d = false → c ≠ d := fun d hd heq => by
    rw [heq, hd] at hc
    cases hc
  have hseparator := isSeparator_of_isNameStart hc
  have hdigit : isDigit c = false := by
    cases h : isDigit c with
    | false => rfl
    | true => exact absurd (hc.symm.trans (isNameStart_of_isDigit h)) (by simp)
  have hslash := hne '/' (by decide)
  refine lexeme_word ⟨hseparator, ?_, fun h => hslash h.1⟩ ?_ ?_ hc
  · simp [isLineComment, hslash, hne '#' (by decide)]
  · rintro (h | h)
    · exact hne '\x22' (by decide) h
    · exact hne '\x27' (by decide) h
  · simp [startsNumber, hdigit, hne '-' (by decide)]

/-- Only what begins like a name is scanned as one. -/
theorem isNameStart_of_isName (h : (lexeme hashComments c rest).kind.isName = true) :
    isNameStart c = true := by
  have hl := scanned hashComments c rest
  generalize lexeme hashComments c rest = l at h hl
  cases hl with
  | word _ _ _ hname => exact hname
  | symbol _ _ _ _ hsymbol =>
    obtain ⟨_, hsymbol⟩ := kind_of_symbol? hsymbol
    rw [hsymbol] at h
    cases h
  | _ => cases h

/-- What is scanned with a name at its beginning begins like one. -/
theorem isNameStart_of_lexemes {cs : List Char} {x : Piece} (h : lexemes hashComments cs = x :: l)
    (hx : x.1.isName = true) : ∀ d ∈ (cs ++ rest).head?, isNameStart d = true := by
  cases cs with
  | nil => rw [lexemes] at h; cases h
  | cons c cs =>
    rw [lexemes_cons, List.cons.injEq] at h
    intro d hd
    cases hd
    obtain rfl := h.1
    exact isNameStart_of_isName hx

theorem Name.isNameStart (n : Name) (rest : List Char) :
    ∀ d ∈ (n.text.toList ++ rest).head?, Lexeme.isNameStart d = true :=
  isNameStart_of_lexemes (n.scanned true) n.isName

/-- What begins with a name does not go on with a blank. -/
theorem Name.not_separator (n : Name) (rest : List Char) :
    ∀ d ∈ (n.text.toList ++ rest).head?, isSeparator d = false := fun d hd =>
  isSeparator_of_isNameStart (n.isNameStart rest d hd)

theorem Scans.name (n : Name) (h : Stops rest) : Scans hashComments [n.piece] rest := by
  have hscanned := n.scanned hashComments
  show lexemes hashComments (letters [(n.kind, n.text.toList)] ++ rest) =
    (n.kind, n.text.toList) :: lexemes hashComments rest
  rw [letters_cons, letters_nil, List.append_nil]
  cases rest with
  | nil => rw [List.append_nil, hscanned, lexemes]
  | cons d ds =>
    obtain ⟨hpart, hhyphen, -⟩ := h d rfl
    cases htext : n.text.toList with
    | nil => rw [htext, lexemes] at hscanned; cases hscanned
    | cons c cs =>
      rw [htext, lexemes_cons, List.cons.injEq, Prod.mk.injEq] at hscanned
      obtain ⟨⟨hkind, htail⟩, hleft⟩ := hscanned
      replace hleft : (lexeme hashComments c cs).left = [] := by
        rw [← @letters_lexemes hashComments (lexeme hashComments c cs).left, hleft]
        rfl
      have hstart : isNameStart c = true := isNameStart_of_isName (hkind ▸ n.isName)
      have hbehind := @lexeme_behind_of_not_mem hashComments c cs d hpart ds (by
        rw [lexeme_of_isNameStart hstart]
        exact not_mem_word hpart hhyphen)
      rw [List.cons_append, lexemes_cons c, hbehind, hkind, hleft, htail, List.nil_append]

/-- A keyword may stand wherever a name may. -/
theorem Scans.keyword (k : Keyword) (h : Stops rest) : Scans hashComments [.keyword k] rest :=
  .name (.ofKeyword k) h

end Rulebook
