import Rulebook.Tree.Condition

/-!
# Rules and queries

A rule has attributes, conditions and a consequence; a query has parameters and conditions. The
attributes of a rule are a map in the order of first assignment: assigning a name again replaces
its attribute in place.
-/

namespace Rulebook

inductive AttributeValue where
  | flag (b : Bool)
  | number (n : Int)
  | text (s : String)
  deriving DecidableEq, Repr, Inhabited

/-- A rule attribute, such as `salience 10` or `no-loop`. -/
structure Attribute where
  location : Location
  name : String
  value : AttributeValue
  deriving DecidableEq, Repr, Inhabited

/-- Attributes by name, in the order of first assignment. -/
abbrev Attributes := List Attribute

namespace Attributes

/-- Assigns an attribute; the last assignment of a name wins. -/
def put : Attributes → Attribute → Attributes
  | [], a => [a]
  | b :: rest, a => if b.name = a.name then a :: rest else b :: put rest a

def get? (as : Attributes) (name : String) : Option Attribute := as.find? (·.name = name)

theorem get?_put_self (as : Attributes) (a : Attribute) : (as.put a).get? a.name = some a := by
  induction as with
  | nil => simp [put, get?]
  | cons b rest ih =>
    unfold put
    split
    · simp [get?]
    · next h => simpa [get?, h] using ih

theorem get?_put_of_ne (as : Attributes) {a : Attribute} {name : String} (h : a.name ≠ name) :
    (as.put a).get? name = as.get? name := by
  induction as with
  | nil => simp [put, get?, h]
  | cons b rest ih =>
    unfold put
    split
    · next hb => simp [get?, h, hb]
    · by_cases hn : b.name = name
      · simp [get?, hn]
      · simpa [get?, hn] using ih

end Attributes

/-- A parameter of a function or query. -/
structure Parameter where
  type : Option String
  name : String
  deriving DecidableEq, Repr, Inhabited

/-- The embedded code between `then` and `end`, without the blanks and the line break at its
beginning. Its place is that of its first character. -/
structure Consequence where
  text : String := ""
  location : Location := {}
  deriving DecidableEq, Repr, Inhabited

/-- A rule. It has no block if `when` is not written. -/
structure Rule where
  location : Location
  name : String
  attributes : Attributes := []
  conditions : Option Block := none
  consequence : Consequence := {}
  deriving Repr

structure Query where
  location : Location
  name : String
  parameters : List Parameter := []
  conditions : Option Block := none
  deriving Repr

inductive Entry where
  | rule (r : Rule)
  | query (q : Query)
  deriving Repr

namespace Entry

def name : Entry → String
  | rule r => r.name
  | query q => q.name

def location : Entry → Location
  | rule r => r.location
  | query q => q.location

def isQuery : Entry → Bool
  | rule _ => false
  | query _ => true

def attributes : Entry → Attributes
  | rule r => r.attributes
  | query _ => []

def attribute? (e : Entry) (name : String) : Option AttributeValue :=
  (e.attributes.get? name).map (·.value)

end Entry

end Rulebook
