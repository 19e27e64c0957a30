import Rulebook.Console.Markup
import Rulebook.Settings.Value
import Rulebook.Text.Encoding
import Rulebook.Text.Integer
import Rulebook.Trace

/-!
# Settings

How rule files are found, read and reported is a matter of settings. How deep a text may nest, which
encodings there are and what a terminal makes of a text is up to the machine that the program runs
on.

Settings are read from a table with known keys; other keys are left alone. Values are taken
generously: a number may be written as a text, and a switch as a number or a word. All problems of a
table are reported together, in the order of the settings.
-/

namespace Rulebook

/-- Options for reading rule files. -/
structure Settings where
  /-- The cap on recorded errors. -/
  maxErrors : Option Nat := none
  /-- A `#` begins a comment. -/
  hashComments : Bool := true
  encoding : String := "utf-8"
  /-- The names of rule files in a directory. -/
  filePatterns : List String := ["*.drl"]
  /-- The events that are shown. -/
  logLevel : Level := .warning
  deriving DecidableEq, Repr, Inhabited

structure Machine where
  /-- The frames of its stack. -/
  frames : Nat
  codecs : Text.Codecs
  markup : Console.Markup

/-- A machine with no more than what the program brings along. -/
def Machine.bare : Machine where
  frames := 900
  codecs := Text.Encoding.codecs
  markup := .byName

/-! ### Complaints -/

/-- What is wrong with a value. -/
inductive Complaint where
  | tooSmall | unreadableInteger | oversizedInteger | fractionalNumber | infiniteNumber | notInteger
  | unreadableFlag | notFlag | notText | notList | notTable | unknownLevel
  deriving DecidableEq, Repr

namespace Complaint

def name : Complaint → String
  | tooSmall => "greater_than_equal"
  | unreadableInteger => "int_parsing"
  | oversizedInteger => "int_parsing_size"
  | fractionalNumber => "int_from_float"
  | infiniteNumber => "finite_number"
  | notInteger => "int_type"
  | unreadableFlag => "bool_parsing"
  | notFlag => "bool_type"
  | notText => "string_type"
  | notList => "list_type"
  | notTable => "model_type"
  | unknownLevel => "value_error"

def message : Complaint → String
  | tooSmall => "Input should be greater than or equal to 1"
  | unreadableInteger =>
    "Input should be a valid integer, unable to parse string as an integer"
  | oversizedInteger =>
    "Unable to parse input string as an integer, exceeded maximum size"
  | fractionalNumber => "Input should be a valid integer, got a number with a fractional part"
  | infiniteNumber => "Input should be a finite number"
  | notInteger => "Input should be a valid integer"
  | unreadableFlag => "Input should be a valid boolean, unable to interpret input"
  | notFlag => "Input should be a valid boolean"
  | notText => "Input should be a valid string"
  | notList => "Input should be a valid list"
  | notTable => "Input should be a valid dictionary or instance of ParserConfig"
  | unknownLevel =>
    "Value error, log_level must be one of " ++ ", ".intercalate (Level.all.map Level.name)

end Complaint

/-- A complaint about a setting, or about one item of it; without a setting it is about the whole
document. -/
structure Problem where
  setting : Option String := none
  item : Option Nat := none
  complaint : Complaint
  deriving DecidableEq, Repr

/-- A value, or all the problems with it. -/
abbrev Checked := Except (List Problem)

namespace Checked

/-- Applies a checked function to a checked argument; the problems of both are kept. -/
def both {α β : Type} (f : Checked (α → β)) (a : Checked α) : Checked β :=
  match f, a with
  | .ok f, .ok a => .ok (f a)
  | .error ps, .ok _ => .error ps
  | .ok _, .error qs => .error qs
  | .error ps, .error qs => .error (ps ++ qs)

theorem both_eq_ok_iff {α β : Type} {f : Checked (α → β)} {a : Checked α} {b : β} :
    both f a = .ok b ↔ ∃ g x, f = .ok g ∧ a = .ok x ∧ g x = b := by
  cases f <;> cases a <;> simp [both]

end Checked

namespace Value

/-! ### Integers -/

def integerOfText (s : String) : Except Complaint Int :=
  match Text.integer s with
  | .ok n => .ok n
  | .error .malformed => .error .unreadableInteger
  | .error .tooLong => .error .oversizedInteger

def wordLimit : Nat := 1 <<< 63

def integerOfDecimal (mantissa : Int) (places : Nat) : Except Complaint Int :=
  match whole? mantissa places with
  | none => .error .fractionalNumber
  | some n =>
    if Binary.overflow ≤ n.natAbs then .error .infiniteNumber
    else if wordLimit ≤ n.natAbs then .error .oversizedInteger
    else .ok n

def integer : Value → Except Complaint Int
  | number n => .ok n
  | flag b => .ok (if b then 1 else 0)
  | decimal mantissa places => integerOfDecimal mantissa places
  | text s => integerOfText s
  | _ => .error .notInteger

def cap : Value → Except Complaint (Option Nat)
  | null => .ok none
  | v => do
    let n ← v.integer
    if 1 ≤ n then .ok (some n.toNat) else .error .tooSmall

/-! ### Switches, texts and levels -/

def wordsOn : List String := ["1", "on", "t", "true", "y", "yes"]

def wordsOff : List String := ["0", "off", "f", "false", "n", "no"]

def switchOfInteger (n : Int) : Except Complaint Bool :=
  if n = 1 then .ok true else if n = 0 then .ok false else .error .unreadableFlag

def switch : Value → Except Complaint Bool
  | flag b => .ok b
  | number n =>
    if -(wordLimit : Int) ≤ n ∧ n < wordLimit then switchOfInteger n else .error .notFlag
  | decimal mantissa places =>
    match integerOfDecimal mantissa places with
    | .ok n => switchOfInteger n
    | .error _ => .error .notFlag
  | text s =>
    if s.toLower ∈ wordsOn then .ok true
    else if s.toLower ∈ wordsOff then .ok false
    else .error .unreadableFlag
  | _ => .error .notFlag

def string : Value → Except Complaint String
  | text s => .ok s
  | _ => .error .notText

/-- The capital of a letter, as far as the labels of levels go: those of ASCII letters, and that of
the dotless i. -/
def capital (c : Char) : Char := if c = 'ı' then 'I' else c.toUpper

def level (v : Value) : Except Complaint Level := do
  match Level.ofName? ((← v.string).map capital) with
  | some l => .ok l
  | none => .error .unknownLevel

/-! ### Settings -/

/-- The texts of a list from item `index`, with a complaint about each item that is no text. -/
def stringsFrom (setting : String) (index : Nat) : List Value → Checked (List String)
  | [] => .ok []
  | v :: rest =>
    let first : Checked String :=
      match v.string with
      | .ok s => .ok s
      | .error c => .error [⟨some setting, some index, c⟩]
    Checked.both (first.map List.cons) (stringsFrom setting (index + 1) rest)

def strings (setting : String) : Value → Checked (List String)
  | list items => stringsFrom setting 0 items
  | _ => .error [⟨some setting, none, .notList⟩]

end Value

namespace Settings

def pick {α : Type} (t : Table) (setting : String) (default : α) (read : Value → Checked α) :
    Checked α :=
  match t.lookup setting with
  | none => .ok default
  | some v => read v

def single {α : Type} (setting : String) (read : Value → Except Complaint α) (v : Value) :
    Checked α :=
  match read v with
  | .ok a => .ok a
  | .error c => .error [⟨some setting, none, c⟩]

def ofTable (t : Table) : Checked Settings :=
  let start : Settings := {}
  let maxErrors := pick t "max_errors" start.maxErrors (single "max_errors" Value.cap)
  let hashComments :=
    pick t "hash_comments" start.hashComments (single "hash_comments" Value.switch)
  let encoding := pick t "encoding" start.encoding (single "encoding" Value.string)
  let filePatterns := pick t "file_patterns" start.filePatterns (Value.strings "file_patterns")
  let logLevel := pick t "log_level" start.logLevel (single "log_level" Value.level)
  Checked.both
    (Checked.both
      (Checked.both
        (Checked.both (maxErrors.map Settings.mk) hashComments)
        encoding)
      filePatterns)
    logLevel

def ofValue : Value → Checked Settings
  | .table t => ofTable t
  | _ => .error [⟨none, none, .notTable⟩]

end Settings

end Rulebook
