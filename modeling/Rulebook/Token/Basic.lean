import Rulebook.Text.Quoted
import Rulebook.Token.Kind

/-!
# Tokens and positions

A position counts code points from the start of the text, lines from one and columns from zero.
Only a line feed ends a line.
-/

namespace Rulebook

/-- A place in a text. -/
structure Position where
  offset : Nat := 0
  line : Nat := 1
  column : Nat := 0
  deriving DecidableEq, Repr, Inhabited

namespace Position

/-- The place after one more character. -/
def step (p : Position) (c : Char) : Position :=
  if c = '\n' then ⟨p.offset + 1, p.line + 1, 0⟩ else ⟨p.offset + 1, p.line, p.column + 1⟩

/-- The place after further characters. -/
def advance (p : Position) (cs : List Char) : Position := cs.foldl step p

@[simp] theorem advance_nil (p : Position) : p.advance [] = p := rfl

@[simp] theorem advance_cons (p : Position) (c : Char) (cs : List Char) :
    p.advance (c :: cs) = (p.step c).advance cs := rfl

theorem advance_append (p : Position) (cs ds : List Char) :
    p.advance (cs ++ ds) = (p.advance cs).advance ds := by
  simp [advance, List.foldl_append]

theorem offset_step (p : Position) (c : Char) : (p.step c).offset = p.offset + 1 := by
  unfold step; split <;> rfl

theorem offset_advance (p : Position) (cs : List Char) :
    (p.advance cs).offset = p.offset + cs.length := by
  induction cs generalizing p with
  | nil => simp
  | cons c cs ih => simp only [advance_cons, ih, offset_step, List.length_cons]; omega

theorem line_le_step (p : Position) (c : Char) : p.line ≤ (p.step c).line := by
  unfold step; split <;> simp

theorem line_le_advance (p : Position) (cs : List Char) : p.line ≤ (p.advance cs).line := by
  induction cs generalizing p with
  | nil => simp
  | cons c cs ih => exact Nat.le_trans (line_le_step p c) (ih (p.step c))

end Position

/-- A token of a source text: `text` is the source between `start` and `stop`. -/
structure Token where
  kind : TokenKind
  text : String
  line : Nat
  column : Nat
  start : Nat
  stop : Nat
  deriving DecidableEq, Repr, Inhabited

namespace Token

/-- Blanks and comments. -/
def isTrivia (t : Token) : Bool := t.kind.isTrivia

/-- Names: identifiers and every keyword. -/
def isName (t : Token) : Bool := t.kind.isName

/-- The mark after the last character. -/
def endOfInput (p : Position) : Token := ⟨.endOfInput, "", p.line, p.column, p.offset, p.offset⟩

/-- The text of a token in messages. -/
def shown (t : Token) : String := if t.kind = .endOfInput then "<EOF>" else t.text

/-- The listing of a token: its label, its quoted text and its place. -/
def listing (t : Token) : String :=
  "Token(" ++ t.kind.name ++ ", " ++ Text.quoted t.text ++ ", " ++ toString t.line ++ ":" ++
    toString t.column ++ ")"

/-- The characters of a string literal without its quotes. An unclosed string has only the
opening one; escapes are kept. -/
def withoutQuotes : List Char → List Char
  | [] => []
  | q :: cs =>
    if cs.getLast? = some q ∧ (q = '\x22' ∨ q = '\x27') then cs.dropLast else cs

def stringValue (t : Token) : String := String.ofList (withoutQuotes t.text.toList)

end Token

end Rulebook
