/-!
# Parts of a text

Offsets count code points. A negative offset counts from the end; an offset outside the text is
moved to its nearer end, so a slice always exists. A mark that occurs in a text divides it into
pieces: what is before, between and after its occurrences. Main statement: the pieces joined by the
mark are the text. Sets of characters, such as the Unicode properties of this library, are lists of
ranges.

Blank characters are the Unicode spaces, the line and paragraph separators and the ASCII control
characters U+0009 to U+000D and U+001C to U+001F. Line breaks are a subset of them; a carriage
return followed by a line feed is one break.
-/

namespace Rulebook.Text

/-! ### Slices -/

def slice (text : String) (start stop : Nat) : String :=
  ((text.drop start).take (stop - start)).copy

theorem toList_slice (text : String) (start stop : Nat) :
    (slice text start stop).toList = (text.toList.take stop).drop start := by
  rw [slice, String.Slice.toList_copy_take, String.toList_copy_drop, List.drop_take]

/-- The place in a text of `length` characters that an offset denotes. -/
def resolve (length : Nat) (offset : Int) : Nat :=
  if offset < 0 then (length + offset).toNat else offset.toNat

/-- The characters between two offsets, either of which may be missing. -/
def span (text : String) (start stop : Option Int) : String :=
  match start, stop with
  | some a, some b => slice text (resolve text.length a) (resolve text.length b)
  | _, _ => ""

theorem span_natCast (text : String) (a b : Nat) :
    span text (some a) (some b) = slice text a b := by
  simp [span, resolve, show ¬ (a : Int) < 0 by omega, show ¬ (b : Int) < 0 by omega]

/-! ### Pieces -/

def piecesFrom (mark : Char) (piece : List Char) : List Char → List (List Char)
  | [] => [piece.reverse]
  | c :: cs =>
    if c = mark then piece.reverse :: piecesFrom mark [] cs else piecesFrom mark (c :: piece) cs

def pieces (mark : Char) (cs : List Char) : List (List Char) := piecesFrom mark [] cs

theorem piecesFrom_ne_nil (mark : Char) (piece cs : List Char) : piecesFrom mark piece cs ≠ [] := by
  fun_induction piecesFrom mark piece cs with
  | case1 => simp
  | case2 => simp
  | case3 piece c cs h ih => exact ih

theorem intercalate_piecesFrom (mark : Char) (piece cs : List Char) :
    [mark].intercalate (piecesFrom mark piece cs) = piece.reverse ++ cs := by
  fun_induction piecesFrom mark piece cs with
  | case1 piece => simp
  | case2 piece cs ih =>
    obtain ⟨first, rest, h⟩ := List.exists_cons_of_ne_nil (piecesFrom_ne_nil mark [] cs)
    rw [h] at ih ⊢
    rw [List.intercalate_cons_cons, ih]
    simp
  | case3 piece c cs h ih => rw [ih, List.reverse_cons, List.append_assoc, List.singleton_append]

theorem intercalate_pieces (mark : Char) (cs : List Char) :
    [mark].intercalate (pieces mark cs) = cs := intercalate_piecesFrom mark [] cs

/-! ### Ranges of code points -/

abbrev CodeRanges := List (Nat × Nat)

def CodeRanges.contains (ranges : CodeRanges) (code : Nat) : Bool :=
  ranges.any fun (lo, hi) => lo ≤ code && code ≤ hi

theorem CodeRanges.contains_iff {ranges : CodeRanges} {code : Nat} :
    ranges.contains code = true ↔ ∃ r ∈ ranges, r.1 ≤ code ∧ code ≤ r.2 := by
  simp [CodeRanges.contains]

/-! ### Blank characters and line breaks -/

/-- A character that trimming removes. -/
def isBlank (c : Char) : Bool :=
  let n := c.toNat
  (0x09 ≤ n && n ≤ 0x0d) || (0x1c ≤ n && n ≤ 0x20) || n == 0x85 || n == 0xa0 || n == 0x1680 ||
    (0x2000 ≤ n && n ≤ 0x200a) || n == 0x2028 || n == 0x2029 || n == 0x202f || n == 0x205f ||
    n == 0x3000

theorem isBlank_of_isWhitespace {c : Char} (h : c.isWhitespace = true) : isBlank c = true := by
  simp only [Char.isWhitespace, Bool.or_eq_true, decide_eq_true_eq] at h
  rcases h with ((rfl | rfl) | rfl) | rfl <;> decide

/-- The text without the blank characters at its end. -/
def trimRight (cs : List Char) : List Char :=
  (cs.reverse.dropWhile isBlank).reverse

/-- A Unicode space; unlike the blank characters these leave out U+001C to U+001F. -/
def isSpace (c : Char) : Bool := isBlank c && !(0x1c ≤ c.toNat && c.toNat ≤ 0x1f)

/-- The text without the spaces at either end. -/
def trimSpaces (cs : List Char) : List Char :=
  ((cs.dropWhile isSpace).reverse.dropWhile isSpace).reverse

def isLineBreak (c : Char) : Bool :=
  let n := c.toNat
  (0x0a ≤ n && n ≤ 0x0d) || (0x1c ≤ n && n ≤ 0x1e) || n == 0x85 || n == 0x2028 || n == 0x2029

theorem isBlank_of_isLineBreak {c : Char} (h : isLineBreak c = true) : isBlank c = true := by
  simp only [isLineBreak, isBlank, Bool.or_eq_true, Bool.and_eq_true, beq_iff_eq,
    decide_eq_true_eq] at h ⊢
  omega

def linesFrom (line : List Char) : List Char → List (List Char)
  | [] => if line.isEmpty then [] else [line.reverse]
  | '\r' :: '\n' :: rest => line.reverse :: linesFrom [] rest
  | c :: rest =>
    if isLineBreak c then line.reverse :: linesFrom [] rest else linesFrom (c :: line) rest

/-- The lines of a text without their breaks; a break at the very end opens no further line. -/
def lines (text : String) : List String :=
  (linesFrom [] text.toList).map String.ofList

end Rulebook.Text
