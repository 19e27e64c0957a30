import Rulebook.Text.Basic

/-!
# Integers in texts

A numeral is a sequence of digits in which single underscores may stand between two digits. An
integer in plain form is a numeral without a zero in front, after a minus sign or none. A text that
is no plain integer may still be tidied into one: spaces around it, a plus sign and zeros in front
of it, underscores between its digits and a fraction of zeros are passed over.
-/

namespace Rulebook.Text

/-! ### Numerals -/

def hexValue? (c : Char) : Option Nat :=
  if '0' ≤ c ∧ c ≤ '9' then some (c.toNat - 0x30)
  else if 'a' ≤ c ∧ c ≤ 'f' then some (c.toNat - 0x57)
  else if 'A' ≤ c ∧ c ≤ 'F' then some (c.toNat - 0x37)
  else none

def digitValue? (base : Nat) (c : Char) : Option Nat :=
  (hexValue? c).filter (· < base)

theorem digitValue?_lt {base d : Nat} {c : Char} (h : digitValue? base c = some d) : d < base := by
  simpa using (Option.filter_eq_some_iff.mp h).2

def numeralFrom (base value : Nat) : List Char → Option Nat
  | [] => some value
  | '_' :: c :: rest => do numeralFrom base (value * base + (← digitValue? base c)) rest
  | c :: rest => do numeralFrom base (value * base + (← digitValue? base c)) rest

def numeral? (base : Nat) : List Char → Option Nat
  | [] => none
  | c :: rest => do numeralFrom base (← digitValue? base c) rest

def tenTo : Nat → Nat
  | 0 => 1
  | n + 1 => 10 * tenTo n

theorem tenTo_pos (n : Nat) : 0 < tenTo n := by
  induction n with
  | zero => decide
  | succ n ih => exact Nat.mul_pos (by decide) ih

/-! ### Limits -/

/-- How many digits an integer in a text may have. -/
def digitLimit : Nat := 4300

/-- The complaint about an integer with too many digits, with their number if they were counted. -/
def tooManyDigits (digits : Option Nat) : String :=
  let counted := match digits with
    | some n => ": value has " ++ toString n ++ " digits"
    | none => ""
  "Exceeds the limit (" ++ toString digitLimit ++ " digits) for integer string conversion" ++
    counted ++ "; use sys.set_int_max_str_digits() to increase the limit"

def digitCount (cs : List Char) : Nat := (cs.filter (· ≠ '_')).length

/-- Why a text is no integer. -/
inductive IntegerFault where
  | malformed
  /-- A plain integer begins that has more characters than `digitLimit`. -/
  | tooLong
  deriving DecidableEq, Repr

/-! ### Plain integers -/

/-- Splits off a minus sign. -/
def minusOf : List Char → Bool × List Char
  | '-' :: cs => (true, cs)
  | cs => (false, cs)

/-- The integer in plain form that a text is. The sign counts towards the limit, and what stands
after too many digits is not looked at. -/
def plainInteger (cs : List Char) : Except IntegerFault Int :=
  let (negative, rest) := minusOf cs
  let digits := rest.takeWhile Char.isDigit
  match rest with
  | '0' :: _ :: _ => .error .malformed
  | _ =>
    if digitLimit < cs.length - rest.length + digits.length then .error .tooLong
    else if digits.length < rest.length then .error .malformed
    else
      match numeral? 10 digits with
      | none => .error .malformed
      | some n => .ok (if negative then -n else n)

/-! ### Tidying -/

/-- A zero in front of a number, or an underscore after one. -/
def isPadding (c : Char) : Bool := c = '0' || c = '_'

/-- The beginning of a plain integer other than zero. -/
def isOpening (c : Char) : Bool := c = '-' || ('1' ≤ c && c ≤ '9')

/-- A number without its padding, behind which a minus sign may stand. The last character of the
padding is kept if nothing or a point follows. -/
def withoutPadding? : List Char → Option (List Char)
  | '0' :: cs =>
    let last := ('0' :: cs.takeWhile isPadding).getLast?.toList
    match cs.dropWhile isPadding with
    | [] => some last
    | c :: rest =>
      if c = '.' then some (last ++ c :: rest)
      else if isOpening c then some (c :: rest)
      else none
  | c :: cs => if isOpening c then some (c :: cs) else none
  | [] => none

def withoutFraction (cs : List Char) : List Char :=
  match cs.dropWhile (· ≠ '.') with
  | _ :: '0' :: zeros => if zeros.all (· = '0') then cs.takeWhile (· ≠ '.') else cs
  | _ => cs

/-- A number without its underscores, each of which must stand between two other characters. -/
def withoutUnderscores? : List Char → Option (List Char)
  | [] => some []
  | '_' :: _ => none
  | c :: '_' :: d :: cs => (withoutUnderscores? (d :: cs)).map (c :: ·)
  | c :: cs => (withoutUnderscores? cs).map (c :: ·)

/-- A number without its plus sign, which no minus sign may follow. -/
def withoutPlus? : List Char → Option (List Char)
  | '+' :: '-' :: _ => none
  | '+' :: cs => some cs
  | cs => some cs

/-- A text with all removed that a plain integer does not have. -/
def tidied? (cs : List Char) : Option (List Char) := do
  let unpadded ← withoutPadding? (← withoutPlus? (trimSpaces cs))
  withoutUnderscores? (withoutFraction unpadded)

/-- The integer in a text. Only a text that was not tidied is too long. -/
def integer (s : String) : Except IntegerFault Int :=
  match plainInteger s.toList with
  | .error .malformed =>
    match (tidied? s.toList).map plainInteger with
    | some (.ok n) => .ok n
    | _ => .error .malformed
  | r => r

end Rulebook.Text
