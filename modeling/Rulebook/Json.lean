import Rulebook.Text.Quoted

/-!
# Writing JSON

Objects keep the order of their entries. The compact form has no blanks at all; the indented form
has one item a line. In strings only the quote, the backslash and the control characters below
U+0020 are escaped.
-/

namespace Rulebook

/-- A JSON value without fractions. -/
inductive Json where
  | null
  | bool (b : Bool)
  | number (n : Int)
  | string (s : String)
  | array (items : List Json)
  | object (entries : List (String × Json))
  deriving Repr

namespace Json

/-- One character of a string. -/
def escapedChar (c : Char) : List Char :=
  if c = '\x22' ∨ c = '\\' then ['\\', c]
  else if c = '\x08' then ['\\', 'b']
  else if c = '\x0c' then ['\\', 'f']
  else if c = '\n' then ['\\', 'n']
  else if c = '\r' then ['\\', 'r']
  else if c = '\t' then ['\\', 't']
  else if c.toNat < 0x20 then '\\' :: 'u' :: Text.hexDigits 4 c.toNat
  else [c]

def quotedString (s : String) : String :=
  String.ofList ('\x22' :: s.toList.flatMap escapedChar ++ ['\x22'])

/-- How the items of arrays and objects are laid out. -/
inductive Layout where
  | compact
  | indented (width : Nat)
  deriving DecidableEq, Repr

/-- Why a number is no width. -/
inductive WidthFault where
  | negative | tooLarge
  deriving DecidableEq, Repr

def WidthFault.message : WidthFault → String
  | negative => "can't convert negative int to unsigned"
  | tooLarge => "int too big to convert"

def Layout.ofWidth? (width : Int) : Except WidthFault Layout :=
  if width < 0 then .error .negative
  else if 1 <<< 64 ≤ width.toNat then .error .tooLarge
  else .ok (.indented width.toNat)

theorem Layout.ofWidth?_natCast {width : Nat} (h : width < 1 <<< 64) :
    Layout.ofWidth? width = .ok (.indented width) := by
  simp only [ofWidth?, Int.toNat_natCast]
  rw [if_neg (by omega), if_neg (Nat.not_le.2 h)]

/-- What separates a key from its value. -/
def Layout.colon : Layout → String
  | compact => ":"
  | indented _ => ": "

def Layout.lineBreak : Layout → Nat → String
  | compact, _ => ""
  | indented width, depth => "\n" ++ String.ofList (List.replicate (width * depth) ' ')

/-- Items between two brackets, one level deeper than `depth`. -/
def enclosed (layout : Layout) (depth : Nat) (left right : String) (items : List String) : String :=
  match items with
  | [] => left ++ right
  | _ =>
    left ++ layout.lineBreak (depth + 1) ++
      (("," ++ layout.lineBreak (depth + 1)).intercalate items) ++
      layout.lineBreak depth ++ right

mutual

def write (layout : Layout) (depth : Nat) : Json → String
  | null => "null"
  | bool true => "true"
  | bool false => "false"
  | number n => toString n
  | string s => quotedString s
  | array items => enclosed layout depth "[" "]" (writeItems layout (depth + 1) items)
  | object entries => enclosed layout depth "\x7b" "\x7d" (writeEntries layout (depth + 1) entries)

def writeItems (layout : Layout) (depth : Nat) : List Json → List String
  | [] => []
  | item :: rest => write layout depth item :: writeItems layout depth rest

def writeEntries (layout : Layout) (depth : Nat) : List (String × Json) → List String
  | [] => []
  | (key, value) :: rest =>
    (quotedString key ++ layout.colon ++ write layout depth value) :: writeEntries layout depth rest

end

def render (layout : Layout) (value : Json) : String := write layout 0 value

end Json

end Rulebook
