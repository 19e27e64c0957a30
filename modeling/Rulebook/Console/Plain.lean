/-!
# Plain lines

A control sequence tells a terminal to change colours or to move the cursor: an escape character,
an opening bracket, parameters, and a letter that says what is to be done. Plain lines have none of
them. Main statement: a line without an escape character is plain already.
-/

namespace Rulebook.Console

/-- The character that begins a control sequence. -/
def escape : Char := '\x1b'

/-- A character of the parameters of a control sequence. -/
def isParameter (c : Char) : Bool := c = ';' || c = '?' || c.isDigit

/-- What follows a control sequence, of which the escape character and the bracket are read. -/
def sequenceEnd? (cs : List Char) : Option (List Char) :=
  match cs.dropWhile isParameter with
  | c :: rest => if c.isAlpha then some rest else none
  | [] => none

theorem length_sequenceEnd? {cs rest : List Char} (h : sequenceEnd? cs = some rest) :
    rest.length < cs.length := by
  have hle := (List.dropWhile_suffix isParameter (l := cs)).length_le
  unfold sequenceEnd? at h
  split at h
  · next c after he =>
    split at h
    · rw [he, List.length_cons] at hle
      rw [← Option.some.inj h]
      omega
    · simp at h
  · simp at h

/-- The rest of a line without control sequences, behind what is already read. -/
def plainFrom (read : List Char) : List Char → List Char
  | [] => read.reverse
  | c :: cs =>
    if c = escape ∧ cs.head? = some '[' then
      match _h : sequenceEnd? cs.tail with
      | some rest => plainFrom read rest
      | none => plainFrom (c :: read) cs
    else plainFrom (c :: read) cs
termination_by cs => cs.length
decreasing_by
  · have := length_sequenceEnd? _h
    simp only [List.length_cons, List.length_tail] at this ⊢
    omega
  all_goals simp

/-- A line without control sequences. -/
def plain (line : String) : String := String.ofList (plainFrom [] line.toList)

theorem plainFrom_eq_self {cs : List Char} (h : escape ∉ cs) (read : List Char) :
    plainFrom read cs = read.reverse ++ cs := by
  induction cs generalizing read with
  | nil => simp [plainFrom]
  | cons c cs ih =>
    have hc : c ≠ escape := fun hc => h (hc ▸ List.mem_cons_self)
    have hcs : escape ∉ cs := fun hcs => h (List.mem_cons_of_mem c hcs)
    rw [plainFrom, if_neg fun hboth => hc hboth.1, ih hcs]
    simp

theorem plain_eq_self {line : String} (h : escape ∉ line.toList) : plain line = line := by
  rw [plain, plainFrom_eq_self h]
  simp

end Rulebook.Console
