import Rulebook.Json
import Rulebook.Tree.Record

/-!
# Trees as JSON

A node becomes an object: its four positions, then its fields. Its kind is not written.
-/

namespace Rulebook

/-- The four positions that begin the object of a node. -/
def Location.entries (l : Location) : List (String × Json) :=
  let place : Option Nat → Json
    | none => .number (-1)
    | some n => .number n
  [("start_offset", place l.start), ("end_offset", place l.stop), ("line", place l.line),
   ("column", place l.column)]

def AttributeValue.json : AttributeValue → Json
  | flag b => .bool b
  | number n => .number n
  | text s => .string s

namespace Datum

mutual

def json : Datum → Json
  | null => .null
  | flag b => .bool b
  | number n => .number n
  | text s => .string s
  | attributeValue v => v.json
  | list items => .array (jsonItems items)
  | keyed entries => .object (jsonEntries entries)
  | node _ location fields => .object (location.entries ++ jsonEntries fields)

/-- The JSON values of several data. -/
def jsonItems : List Datum → List Json
  | [] => []
  | item :: rest => json item :: jsonItems rest

def jsonEntries : List (String × Datum) → List (String × Json)
  | [] => []
  | (key, value) :: rest => (key, json value) :: jsonEntries rest

end

end Datum

def Package.dump (p : Package) (layout : Json.Layout) : String := p.record.json.render layout

end Rulebook
