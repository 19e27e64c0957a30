import Rulebook.Text.Basic
import Rulebook.Token.Basic

/-!
# A cursor over tokens

The cursor holds every token of a text, trivia included. While trivia is hidden, looking ahead and
consuming pass over blanks and comments; while it is visible they do not, so that embedded code can
be taken over character by character. Changes of visibility are nested: each saves the visibility
before it. The tokens end with the mark of the end of input, which is never consumed, so there
always is a token ahead.
-/

namespace Rulebook

/-- A place in a token list: the tokens in front of the mark of the end of input, the place of that
mark, the characters of the source, and the index of the next token, trivia counted. -/
structure Cursor where
  front : Array Token
  finish : Position
  source : Array Char
  index : Nat := 0
  triviaVisible : Bool := false
  saved : List Bool := []
  deriving DecidableEq, Repr, Inhabited

namespace Cursor

/-- Why a cursor cannot do what is asked of it. -/
inductive Fault where
  /-- A visibility of trivia was to be restored, but none was saved. -/
  | nothingSaved
  /-- The cursor was moved beyond its tokens. -/
  | beyondTokens
  deriving DecidableEq, Repr

def Fault.message : Fault → String
  | nothingSaved => "pop from empty list"
  | beyondTokens => "list index out of range"

/-- A cursor at the first token. If the tokens do not end with the mark of the end of input, one is
added at the end of the source. -/
def ofTokens (tokens : List Token) (source : String) : Cursor :=
  let source := source.toList.toArray
  match tokens.getLast? with
  | none => { front := #[], finish := ⟨source.size, 1, 0⟩, source }
  | some t =>
    if t.kind = .endOfInput then
      { front := tokens.dropLast.toArray, finish := ⟨t.start, t.line, t.column⟩, source }
    else { front := tokens.toArray, finish := ⟨source.size, t.line, 0⟩, source }

/-- The mark of the end of input. -/
def last (c : Cursor) : Token := Token.endOfInput c.finish

/-- The number of tokens. -/
def size (c : Cursor) : Nat := c.front.size + 1

/-- The token at an index, or the last one beyond it. -/
def tokenAt (c : Cursor) (i : Nat) : Token := c.front.getD i c.last

/-- The first index from `i` on whose token is no trivia, at most that of the last token. -/
def skipTrivia (front : Array Token) (i : Nat) : Nat :=
  if h : i < front.size then
    if front[i].isTrivia then skipTrivia front (i + 1) else i
  else front.size
termination_by front.size - i

/-- The index of the first visible token from `i` on. -/
def seek (c : Cursor) (i : Nat) : Nat :=
  if c.triviaVisible then min i c.front.size else skipTrivia c.front i

/-- The index of the visible token `n` places after the next one. -/
def indexAhead (c : Cursor) : Nat → Nat
  | 0 => c.seek c.index
  | n + 1 => c.seek (c.indexAhead n + 1)

/-- The `k`-th visible token ahead, counted from one. -/
def lookahead (c : Cursor) (k : Nat) : Token := c.tokenAt (c.indexAhead (k - 1))

def current (c : Cursor) : Token := c.tokenAt (c.seek c.index)

/-- The cursor after the next visible token. The mark of the end of input stays. -/
def consume (c : Cursor) : Cursor :=
  if c.current.kind = .endOfInput then c else { c with index := c.seek c.index + 1 }

def lastBefore (c : Cursor) : Nat → Option Token
  | 0 => none
  | i + 1 => if (c.tokenAt i).isTrivia then c.lastBefore i else some (c.tokenAt i)

/-- The most recently consumed token that is no trivia. -/
def previous (c : Cursor) : Option Token := c.lastBefore c.index

/-- The most recently consumed token that is no trivia, unless the cursor was moved beyond its
tokens. -/
def previous? (c : Cursor) : Except Fault (Option Token) :=
  if c.index ≤ c.size then .ok c.previous else .error .beyondTokens

def rewind (c : Cursor) (index : Nat) : Cursor := { c with index }

/-- Saves the visibility of trivia and sets it. -/
def pushTrivia (c : Cursor) (visible : Bool) : Cursor :=
  { c with triviaVisible := visible, saved := c.triviaVisible :: c.saved }

/-- Restores the visibility saved last. -/
def popTrivia? (c : Cursor) : Except Fault Cursor :=
  match c.saved with
  | [] => .error .nothingSaved
  | visible :: saved => .ok { c with triviaVisible := visible, saved }

/-- Hides trivia and forgets what was saved. -/
def resetTrivia (c : Cursor) : Cursor := { c with triviaVisible := false, saved := [] }

/-- The source text between two offsets. -/
def text (c : Cursor) (start stop : Nat) : String :=
  String.ofList (c.source.extract start stop).toList

/-- The tokens not yet passed: a bound on the tokens that can still be consumed. -/
def remaining (c : Cursor) : Nat := c.front.size - c.index

theorem text_ofTokens (tokens : List Token) (source : String) (start stop : Nat) :
    (ofTokens tokens source).text start stop = Text.slice source start stop := by
  have h : (ofTokens tokens source).source = source.toList.toArray := by
    unfold ofTokens
    repeat' split
    all_goals rfl
  apply String.toList_injective
  rw [text, h, String.toList_ofList, Text.toList_slice, Array.toList_extract,
    List.extract_eq_take_drop, List.drop_take]

theorem lookahead_one (c : Cursor) : c.lookahead 1 = c.current := rfl

theorem skipTrivia_le (front : Array Token) (i : Nat) : skipTrivia front i ≤ front.size := by
  fun_induction skipTrivia front i <;> omega

theorem le_skipTrivia {front : Array Token} {i : Nat} (h : i ≤ front.size) :
    i ≤ skipTrivia front i := by
  fun_induction skipTrivia front i <;> omega

theorem seek_le (c : Cursor) (i : Nat) : c.seek i ≤ c.front.size := by
  unfold seek
  split
  · exact Nat.min_le_right i c.front.size
  · exact skipTrivia_le c.front i

theorem le_seek {c : Cursor} {i : Nat} (h : i ≤ c.front.size) : i ≤ c.seek i := by
  unfold seek
  split
  · exact Nat.le_min.2 ⟨Nat.le_refl i, h⟩
  · exact le_skipTrivia h

theorem tokenAt_of_le {c : Cursor} {i : Nat} (h : c.front.size ≤ i) : c.tokenAt i = c.last := by
  simp [tokenAt, Array.getD, Nat.not_lt.2 h]

theorem seek_lt_of_current {c : Cursor} (h : c.current.kind ≠ .endOfInput) :
    c.seek c.index < c.front.size := by
  refine Nat.lt_of_le_of_ne (seek_le c c.index) fun heq => h ?_
  simp [current, tokenAt_of_le (Nat.le_of_eq heq.symm), last, Token.endOfInput]

theorem front_consume (c : Cursor) : c.consume.front = c.front := by
  unfold consume; split <;> rfl

theorem seek_of_le {c : Cursor} {i : Nat} (h : c.front.size ≤ i) : c.seek i = c.front.size := by
  unfold seek
  split
  · exact Nat.min_eq_right h
  · rw [skipTrivia]; simp [Nat.not_lt.2 h]

theorem remaining_consume_lt {c : Cursor} (h : c.current.kind ≠ .endOfInput) :
    c.consume.remaining < c.remaining := by
  have hlt := seek_lt_of_current h
  have hi : c.index < c.front.size := by
    refine Nat.lt_of_not_le fun hle => ?_
    rw [seek_of_le hle] at hlt
    exact Nat.lt_irrefl _ hlt
  have hle := le_seek (Nat.le_of_lt hi)
  simp only [remaining, front_consume]
  simp only [consume, h, if_false]
  omega

theorem popTrivia?_pushTrivia (c : Cursor) (visible : Bool) :
    (c.pushTrivia visible).popTrivia? = .ok c := rfl

theorem previous?_of_le {c : Cursor} (h : c.index ≤ c.size) : c.previous? = .ok c.previous :=
  if_pos h

/-- Consumes tokens up to the first one of the given kinds, and counts them. -/
def skipUntil (kinds : List TokenKind) (c : Cursor) (skipped : Nat) : Cursor × Nat :=
  if c.current.kind = .endOfInput then (c, skipped)
  else if c.current.kind ∈ kinds then (c, skipped)
  else skipUntil kinds c.consume (skipped + 1)
termination_by c.remaining
decreasing_by exact remaining_consume_lt ‹_›

end Cursor

end Rulebook
