import Rulebook.Toml.Draft
import Rulebook.Toml.Lexeme

/-!
# TOML documents

A document is a sequence of lines: blank ones, headers of tables and of items of lists of tables,
and assignments of values to dotted keys.
-/

namespace Rulebook.Toml

mutual

/-- Reads a value. Each call within passes the number on lowered by one; it exceeds twice the
length of the text, so that it does not run out. -/
def valueWithin : Nat → Reader Value
  | 0 => refuse
  | bound + 1 => do
    match ← peek with
    | some '\x22' | some '\x27' => return .text (← string)
    | some '[' =>
      expect '['
      itemsWithin bound []
    | some '\x7b' =>
      expect '\x7b'
      skipBlanks
      if ← accept '\x7d' then return .table []
      entriesWithin bound {}
    | _ => scalar

def itemsWithin : Nat → List Value → Reader Value
  | 0, _ => refuse
  | bound + 1, read => do
    skipFiller
    if ← accept ']' then return .list read.reverse
    let v ← valueWithin bound
    skipFiller
    if ← accept ',' then itemsWithin bound (v :: read)
    else
      expect ']'
      return .list (v :: read).reverse

def entriesWithin : Nat → Draft → Reader Value
  | 0, _ => refuse
  | bound + 1, read => do
    let keys ← key
    expect '='
    skipBlanks
    let v ← valueWithin bound
    let read ← read.assignInline? keys v
    skipBlanks
    if ← accept ',' then
      skipBlanks
      entriesWithin bound read
    else
      expect '\x7d'
      return .table read.root

end

def value : Reader Value := do valueWithin (2 * (← get).length + 1)

def header (d : Draft) : Reader Draft := do
  expect '['
  let isItem ← accept '['
  skipBlanks
  let keys ← key
  let d ← if isItem then d.openItem? keys else d.openTable? keys
  expect ']'
  if isItem then expect ']'
  return d

def assignment (d : Draft) : Reader Draft := do
  let keys ← key
  expect '='
  skipBlanks
  let v ← value
  d.assign? keys v

def linesWithin : Nat → Draft → Reader Draft
  | 0, _ => refuse
  | bound + 1, d => do
    skipBlanks
    let d ← match ← peek with
      | some '[' => header d
      | some '#' | some '\n' | none => pure d
      | some _ => assignment d
    skipBlanks
    skipComment
    if ← accept '\n' then linesWithin bound d
    else if (← get).isEmpty then return d
    else refuse

/-- A text in which a carriage return before a line feed is dropped. -/
def withoutReturns : List Char → List Char
  | [] => []
  | '\r' :: '\n' :: rest => '\n' :: withoutReturns rest
  | c :: rest => c :: withoutReturns rest

def parse? (text : List Char) : Except Fault Table :=
  let cs := withoutReturns text
  ((linesWithin (cs.length + 1) {}).run' cs).map Draft.root

end Rulebook.Toml
