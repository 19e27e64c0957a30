import Rulebook.Settings.Value
import Rulebook.Text.Integer

/-!
# Lexemes of TOML

Strings, keys, numbers and comments, each read from the front of a text. Strings come in four
forms: between double quotes with escapes or between single quotes without, on one line or, with
tripled quotes, on several. Dates, exponents and the special numbers are not read.
-/

namespace Rulebook.Toml

/-- Why a text is not read. -/
inductive Fault where
  /-- The text is no TOML document. -/
  | malformed
  /-- An integer has more digits than `Text.digitLimit`. -/
  | tooManyDigits (digits : Nat)
  deriving DecidableEq, Repr

def Fault.message : Fault → String
  | malformed => "Invalid statement"
  | tooManyDigits digits => Text.tooManyDigits (some digits)

instance : MonadLift Option (Except Fault) where
  monadLift
    | some a => .ok a
    | none => .error .malformed

/-- Reads from the front of a text, and fails if the text does not begin as it should. -/
abbrev Reader := StateT (List Char) (Except Fault)

/-- Fails because the text is no TOML document. -/
def refuse {α : Type} : Reader α := throw .malformed

/-- Reads what a function splits off from the front of a text. -/
def splitting {α : Type} (f : List Char → Option (α × List Char)) : Reader α := fun cs => f cs

/-- A space or a tab. -/
def isBlank (c : Char) : Bool := c = ' ' || c = '\t'

/-- A control character that may not stand in a line. -/
def isControl (c : Char) : Bool := (c.toNat < 0x20 && c ≠ '\t') || c.toNat = 0x7f

/-! ### Single characters -/

/-- The next character. -/
def peek : Reader (Option Char) := do return (← get).head?

/-- Passes a character if it is next. -/
def accept (c : Char) : Reader Bool := do
  match ← get with
  | d :: cs =>
    if d = c then
      set cs
      return true
    else return false
  | [] => return false

/-- Passes a character that must be next. -/
def expect (c : Char) : Reader Unit := do
  if ← accept c then return
  refuse

/-- Passes spaces and tabs. -/
def skipBlanks : Reader Unit := modify (·.dropWhile isBlank)

/-- The longest beginning whose characters have a property. -/
def takeRun (p : Char → Bool) : Reader (List Char) := do
  let cs ← get
  set (cs.dropWhile p)
  return cs.takeWhile p

/-- Passes a comment up to the end of its line. -/
def skipComment : Reader Unit := do
  if ← accept '#' then
    if (← takeRun (· ≠ '\n')).any isControl then refuse

/-- What remains after blanks, line breaks and comments. -/
def fillerEnd (inComment : Bool) : List Char → Option (List Char)
  | [] => some []
  | c :: cs =>
    if c = '\n' then fillerEnd false cs
    else if inComment then if isControl c then none else fillerEnd true cs
    else if isBlank c then fillerEnd false cs
    else if c = '#' then fillerEnd true cs
    else some (c :: cs)

/-- Passes blanks, line breaks and comments. -/
def skipFiller : Reader Unit := do set (← fillerEnd false (← get))

/-! ### Strings -/

/-- The character of a given number of hexadecimal digits. -/
def codedChar? (digits : Nat) (cs : List Char) : Option Char := do
  let coded := cs.take digits
  if coded.length = digits then
    let code := (← coded.mapM hexValue?).foldl (fun n d => n * 16 + d) 0
    if code.isValidChar then return Char.ofNat code
  failure
where
  /-- The value of a hexadecimal digit. -/
  hexValue? := Text.hexValue?

/-- The character of an escape after its backslash, and how long the escape is. -/
def escape? : List Char → Option (Char × Nat)
  | [] => none
  | c :: cs =>
    match c with
    | 'b' => some ('\x08', 1)
    | 't' => some ('\t', 1)
    | 'n' => some ('\n', 1)
    | 'f' => some ('\x0c', 1)
    | 'r' => some ('\r', 1)
    | '\x22' => some ('\x22', 1)
    | '\\' => some ('\\', 1)
    | 'u' => (codedChar? 4 cs).map (·, 5)
    | 'U' => (codedChar? 8 cs).map (·, 9)
    | _ => none

def escapedLine (read : List Char) : List Char → Option (String × List Char)
  | [] => none
  | '\x22' :: cs => some (String.ofList read.reverse, cs)
  | '\\' :: cs =>
    match escape? cs with
    | none => none
    | some (c, length) => escapedLine (c :: read) (cs.drop length)
  | c :: cs => if isControl c then none else escapedLine (c :: read) cs
termination_by cs => cs.length

def literalLine (read : List Char) : List Char → Option (String × List Char)
  | [] => none
  | '\x27' :: cs => some (String.ofList read.reverse, cs)
  | c :: cs => if isControl c then none else literalLine (c :: read) cs

/-- The end of a string on several lines, where up to two quotes may belong to the string. -/
def closing (quote : Char) (read cs : List Char) : String × List Char :=
  let extra := ((cs.take 2).takeWhile (· = quote)).length
  (String.ofList (read.reverse ++ List.replicate extra quote), cs.drop extra)

/-- What remains after a backslash at the end of a line, with the blanks and line breaks that it
hides. -/
def hiddenBreakEnd? (cs : List Char) : Option (List Char) :=
  match cs.dropWhile isBlank with
  | '\n' :: rest => some (rest.dropWhile fun c => isBlank c || c = '\n')
  | _ => none

theorem length_dropWhile_le (p : Char → Bool) (cs : List Char) :
    (cs.dropWhile p).length ≤ cs.length := by
  induction cs with
  | nil => simp
  | cons c cs ih =>
    unfold List.dropWhile
    split
    · exact Nat.le_succ_of_le ih
    · exact Nat.le_refl _

theorem length_hiddenBreakEnd?_le {cs rest : List Char} (h : hiddenBreakEnd? cs = some rest) :
    rest.length ≤ cs.length := by
  unfold hiddenBreakEnd? at h
  split at h
  · next after he =>
    have hbreak := length_dropWhile_le isBlank cs
    have hrest := length_dropWhile_le (fun c => isBlank c || c = '\n') after
    rw [he, List.length_cons] at hbreak
    rw [← Option.some.inj h]
    omega
  · simp at h

def escapedLines (read : List Char) : List Char → Option (String × List Char)
  | [] => none
  | '\x22' :: '\x22' :: '\x22' :: cs => some (closing '\x22' read cs)
  | '\\' :: cs =>
    match _h : hiddenBreakEnd? cs with
    | some rest => escapedLines read rest
    | none =>
      match escape? cs with
      | none => none
      | some (c, length) => escapedLines (c :: read) (cs.drop length)
  | c :: cs => if isControl c && c ≠ '\n' then none else escapedLines (c :: read) cs
termination_by cs => cs.length
decreasing_by
  · have := length_hiddenBreakEnd?_le _h
    simp only [List.length_cons]
    omega
  · simp only [List.length_cons, List.length_drop]
    omega
  · simp

/-- The rest of a string without escapes on several lines. -/
def literalLines (read : List Char) : List Char → Option (String × List Char)
  | [] => none
  | '\x27' :: '\x27' :: '\x27' :: cs => some (closing '\x27' read cs)
  | c :: cs => if isControl c && c ≠ '\n' then none else literalLines (c :: read) cs

def line : Reader String := do
  if ← accept '\x22' then splitting (escapedLine [])
  else
    expect '\x27'
    splitting (literalLine [])

/-- Reads a string. A line break right after tripled quotes does not belong to it. -/
def string : Reader String := do
  match ← get with
  | '\x22' :: '\x22' :: '\x22' :: cs =>
    set cs
    let _ ← accept '\n'
    splitting (escapedLines [])
  | '\x27' :: '\x27' :: '\x27' :: cs =>
    set cs
    let _ ← accept '\n'
    splitting (literalLines [])
  | _ => line

/-! ### Keys -/

/-- A character of a key without quotes. -/
def isBare (c : Char) : Bool := c.isAlphanum || c = '-' || c = '_'

def keyPart : Reader String := do
  match ← peek with
  | some c =>
    if isBare c then return String.ofList (← takeRun isBare)
    line
  | none => refuse

/-- Reads the parts of a key, divided by points, with the blanks after them; the number bounds the
parts. -/
def keyParts : Nat → Reader (List String)
  | 0 => refuse
  | bound + 1 => do
    let part ← keyPart
    skipBlanks
    if ← accept '.' then
      skipBlanks
      return part :: (← keyParts bound)
    return [part]

def key : Reader (List String) := do keyParts (← get).length

/-! ### Numbers and switches -/

def numeralRun (base : Nat) : List Char → List Char
  | '_' :: c :: cs =>
    if (Text.digitValue? base c).isSome then '_' :: c :: numeralRun base cs else []
  | c :: cs => if (Text.digitValue? base c).isSome then c :: numeralRun base cs else []
  | [] => []

def numeral (base : Nat) : Reader (List Char) := do
  let cs ← get
  let run := if cs.head? = some '_' then [] else numeralRun base cs
  if run.isEmpty then refuse
  set (cs.drop run.length)
  return run

/-- Reads the part of a decimal number before its fraction: a zero alone, or a numeral that begins
with another digit. -/
def whole : Reader (List Char) := do
  if ← accept '0' then return ['0']
  numeral 10

/-- A point and a digit are next. -/
def fractionNext : Reader Bool := do
  match ← get with
  | '.' :: c :: _ => return c.isDigit
  | _ => return false

/-- Reads a decimal number without its sign. An integer must not have too many digits, whatever
stands after it. -/
def decimal (negative : Bool) : Reader Value := do
  let digits ← whole
  let signed (n : Nat) : Int := if negative then -n else n
  if ← fractionNext then
    expect '.'
    let fraction ← numeral 10
    let places := Text.digitCount fraction
    let mantissa := (← Text.numeral? 10 digits) * Text.tenTo places + (← Text.numeral? 10 fraction)
    return .decimal (signed mantissa) places
  let count := Text.digitCount digits
  if Text.digitLimit < count then throw (.tooManyDigits count)
  return .number (signed (← Text.numeral? 10 digits))

def based (base : Nat) : Reader Value := do return .number (← Text.numeral? base (← numeral base))

/-- Reads a number or a switch. -/
def scalar : Reader Value := do
  match ← get with
  | '0' :: 'x' :: cs => set cs *> based 16
  | '0' :: 'o' :: cs => set cs *> based 8
  | '0' :: 'b' :: cs => set cs *> based 2
  | '-' :: cs => set cs *> decimal true
  | '+' :: cs => set cs *> decimal false
  | 't' :: 'r' :: 'u' :: 'e' :: cs => set cs *> pure (.flag true)
  | 'f' :: 'a' :: 'l' :: 's' :: 'e' :: cs => set cs *> pure (.flag false)
  | _ => decimal false

end Rulebook.Toml
