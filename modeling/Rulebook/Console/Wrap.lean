import Rulebook.Text.Basic
import Rulebook.Text.Width

/-!
# Wrapping

A line that is too wide for its field is broken in front of words. A word that is wider than the
field itself is broken wherever the field ends, if the field asks for that; else it gets a line of
its own, which is cut when it is shown. Main statement: wrapping loses nothing.
-/

namespace Rulebook.Console

/-- What a field does with a word that is wider than the field. -/
inductive Overflow where
  /-- The word goes on in the next line. -/
  | fold
  /-- The word is cut, and a mark stands for the rest. -/
  | cut
  deriving DecidableEq, Repr

def cells (cs : List Char) : Nat := Text.cellsFrom none cs

/-! ### Words -/

/-- The words of a line, where `word` holds the current one in reverse and `ended` says that a blank
has followed it. -/
def wordsFrom (word : List Char) (ended : Bool) : List Char → List (List Char)
  | [] => [word.reverse]
  | c :: cs =>
    if Text.isBlank c then
      wordsFrom (c :: word) (ended || word.head?.any fun d => !Text.isBlank d) cs
    else if ended then word.reverse :: wordsFrom [c] false cs
    else wordsFrom (c :: word) false cs

/-- The words of a line, each with the blanks after it; blanks in front belong to the first word. -/
def words (line : List Char) : List (List Char) := wordsFrom [] false line

theorem flatten_wordsFrom (word : List Char) (ended : Bool) (cs : List Char) :
    (wordsFrom word ended cs).flatten = word.reverse ++ cs := by
  fun_induction wordsFrom word ended cs with
  | case1 => simp
  | case2 word ended c cs hblank ih => simp [ih]
  | case3 word c cs hblank ih => simp [ih]
  | case4 word ended c cs hblank hended ih => simp [ih]

/-! ### Broken words -/

/-- The pieces of a word that fit in a field, where `piece` holds the current one in reverse and
`used` its cells. -/
def foldedFrom (width used : Nat) (piece : List Char) : List Char → List (List Char)
  | [] => [piece.reverse]
  | c :: cs =>
    if width < used + Text.cellsOf c then
      piece.reverse :: foldedFrom width (Text.cellsOf c) [c] cs
    else foldedFrom width (used + Text.cellsOf c) (c :: piece) cs

theorem flatten_foldedFrom (width used : Nat) (piece cs : List Char) :
    (foldedFrom width used piece cs).flatten = piece.reverse ++ cs := by
  fun_induction foldedFrom width used piece cs with
  | case1 => simp
  | case2 used piece c cs hfull ih => simp [ih]
  | case3 used piece c cs hfits ih => simp [ih]

/-- The pieces of a word that does not fit behind a line. -/
def pieces (overflow : Overflow) (width : Nat) (word : List Char) : List (List Char) :=
  if overflow = .fold ∧ width < cells (Text.trimRight word) then foldedFrom width 0 [] word
  else [word]

theorem flatten_pieces (overflow : Overflow) (width : Nat) (word : List Char) :
    (pieces overflow width word).flatten = word := by
  unfold pieces
  split
  · rw [flatten_foldedFrom, List.reverse_nil, List.nil_append]
  · simp

/-! ### Lines -/

/-- Distributes words over lines, where `line` holds the current one in reverse and `used` counts
its cells. The blanks after a word need no room. -/
def fill (overflow : Overflow) (width : Nat) (line : List Char) (used : Nat) :
    List (List Char) → List (List Char)
  | [] => [line.reverse]
  | word :: rest =>
    if used + cells (Text.trimRight word) ≤ width then
      fill overflow width (word.reverse ++ line) (used + cells word) rest
    else
      let broken := pieces overflow width word
      let last := broken.getLast?.getD []
      (if line.isEmpty then [] else [line.reverse]) ++ broken.dropLast ++
        fill overflow width last.reverse (cells last) rest

theorem flatten_dropLast_append (lines : List (List Char)) :
    lines.dropLast.flatten ++ lines.getLast?.getD [] = lines.flatten := by
  cases h : lines.getLast? with
  | none => simp [List.getLast?_eq_none_iff.mp h]
  | some last =>
    obtain ⟨front, rfl⟩ := List.getLast?_eq_some_iff.mp h
    simp

theorem flatten_fill (overflow : Overflow) (width : Nat) (line : List Char) (used : Nat)
    (words : List (List Char)) :
    (fill overflow width line used words).flatten = line.reverse ++ words.flatten := by
  fun_induction fill overflow width line used words with
  | case1 => simp
  | case2 line used word rest hfits ih => simp [ih]
  | case3 line used word rest hfull broken last ih =>
    have hline : (if line.isEmpty then [] else [line.reverse]).flatten = line.reverse := by
      cases line <;> simp
    rw [List.flatten_append, List.flatten_append, hline, ih, List.reverse_reverse,
      List.append_assoc, ← List.append_assoc _ last, flatten_dropLast_append, flatten_pieces,
      List.flatten_cons]

def wrapped (overflow : Overflow) (width : Nat) (line : List Char) : List (List Char) :=
  fill overflow width [] 0 (words line)

theorem flatten_wrapped (overflow : Overflow) (width : Nat) (line : List Char) :
    (wrapped overflow width line).flatten = line := by
  rw [wrapped, flatten_fill, words, flatten_wordsFrom]
  rfl

end Rulebook.Console
