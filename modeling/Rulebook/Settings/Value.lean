import Rulebook.Text.Integer

/-!
# Configuration values

What a configuration document holds. Decimals keep their digits. One stands for the nearest number
with a significand of 53 bits; of two equally near ones it is the one with the even significand.
What matters here is whether that number is whole, and which one it is.
-/

/-! ### Decimals as binary numbers -/

namespace Rulebook.Binary

/-- The whole number nearest to a quotient. A tie goes to the even one. -/
def roundDiv (n d : Nat) : Nat :=
  if 2 * (n % d) < d || (2 * (n % d) == d && n / d % 2 == 0) then n / d else n / d + 1

theorem roundDiv_near {n d : Nat} (h : 0 < d) :
    d * (2 * roundDiv n d) ≤ 2 * n + d ∧ 2 * n ≤ d * (2 * roundDiv n d) + d := by
  have hn := Nat.div_add_mod n d
  have hr := Nat.mod_lt n h
  have key : d * (2 * (n / d)) = 2 * (d * (n / d)) := Nat.mul_left_comm d 2 (n / d)
  unfold roundDiv
  split
  · next hc =>
    have : 2 * (n % d) ≤ d := by
      simp only [Bool.or_eq_true, Bool.and_eq_true, decide_eq_true_eq, beq_iff_eq] at hc
      omega
    omega
  · next hc =>
    have : d ≤ 2 * (n % d) := by
      simp only [Bool.or_eq_true, Bool.and_eq_true, decide_eq_true_eq, beq_iff_eq] at hc
      omega
    have step : d * (2 * (n / d + 1)) = d * (2 * (n / d)) + 2 * d := by
      rw [Nat.mul_add, Nat.mul_add, Nat.mul_one, Nat.mul_comm d 2]
    omega

/-- The number nearest to a quotient, if it is whole. Quotients up to half of the least positive
number are nearest to zero. -/
def whole? (n d : Nat) : Option Nat :=
  if n / d = 0 then
    if n <<< 1075 ≤ d then some 0
    else if roundDiv (n <<< 53) d = 1 <<< 53 then some 1
    else none
  else
    let bits := (n / d).log2
    if 52 < bits then some (roundDiv n (d <<< (bits - 52)) <<< (bits - 52))
    else
      let scaled := roundDiv (n <<< (52 - bits)) d
      if scaled % (1 <<< (52 - bits)) = 0 then some (scaled >>> (52 - bits)) else none

theorem roundDiv_mul_self {d : Nat} (n : Nat) (h : 0 < d) : roundDiv (n * d) d = n := by
  simp [roundDiv, Nat.mul_mod_left, Nat.mul_div_left n h, h]

/-- A whole number of at most 53 bits stands for itself. -/
theorem whole?_mul_self {n d : Nat} (hd : 0 < d) (hn : n.log2 ≤ 52) :
    whole? (n * d) d = some n := by
  unfold whole?
  rw [Nat.mul_div_left n hd]
  split
  · next h => simp [h]
  · rw [if_neg (Nat.not_lt.2 hn)]
    have hscaled : roundDiv ((n * d) <<< (52 - n.log2)) d = n <<< (52 - n.log2) := by
      rw [Nat.shiftLeft_eq, Nat.mul_right_comm, roundDiv_mul_self _ hd, Nat.shiftLeft_eq]
    simp only [hscaled]
    rw [if_pos (by rw [Nat.shiftLeft_eq, Nat.one_shiftLeft, Nat.mul_mod_left]),
      Nat.shiftLeft_shiftRight]

/-- The first whole number that is too large for a number of this kind. -/
def overflow : Nat := 1 <<< 1024

end Rulebook.Binary

/-! ### Values -/

namespace Rulebook

/-- A value of a configuration document. -/
inductive Value where
  | null
  | flag (b : Bool)
  | number (n : Int)
  /-- The decimal `mantissa / 10 ^ places`. -/
  | decimal (mantissa : Int) (places : Nat)
  | text (s : String)
  | list (items : List Value)
  | table (entries : List (String × Value))
  deriving Repr, Inhabited

/-- Values by key. -/
abbrev Table := List (String × Value)

namespace Value

/-- The whole number that a decimal stands for, if it stands for one. -/
def whole? (mantissa : Int) (places : Nat) : Option Int :=
  (Binary.whole? mantissa.natAbs (Text.tenTo places)).map fun n => if mantissa < 0 then -n else n

/-- The value says nothing: it is missing, zero, false or empty. -/
def isBlank : Value → Bool
  | null | flag false => true
  | flag true => false
  | number n => n == 0
  | decimal mantissa _ => mantissa == 0
  | text s => s.isEmpty
  | list items => items.isEmpty
  | table entries => entries.isEmpty

end Value

end Rulebook
