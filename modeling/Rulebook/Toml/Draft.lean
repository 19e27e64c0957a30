import Rulebook.Settings.Value

/-!
# Tables under construction

The entries of a document arrive one by one, under the latest header. A draft holds what has
arrived and which tables may not be written again: a header opens a table once, a dotted key closes
the tables it passes through to later headers, and inline tables and arrays are complete as they
stand.
-/

namespace Rulebook

/-- The keys from the root to a value. -/
abbrev Keys := List String

namespace Table

/-- Puts a value under a key, in place of an earlier one. -/
def put (k : String) (v : Value) : Table → Table
  | [] => [(k, v)]
  | (l, w) :: rest => if l = k then (k, v) :: rest else (l, w) :: put k v rest

theorem lookup_put_self (k : String) (v : Value) (t : Table) : (put k v t).lookup k = some v := by
  induction t with
  | nil => simp [put]
  | cons e rest ih =>
    obtain ⟨l, w⟩ := e
    unfold put
    split
    · simp
    · next h => rw [List.lookup_cons, beq_eq_false_iff_ne.mpr (Ne.symm h)]; exact ih

/-- Puts a value under a key that has none. -/
def add? (k : String) (v : Value) (t : Table) : Option Table :=
  if (t.lookup k).isSome then none else some (t ++ [(k, v)])

/-- Adds an empty table to the list under a key. -/
def extend? (k : String) (t : Table) : Option Table :=
  match t.lookup k with
  | none => some (t ++ [(k, .list [.table []])])
  | some (.list items) => some (put k (.list (items ++ [.table []])) t)
  | some _ => none

/-- Changes the table below some keys; missing tables are made. If `throughLists` holds, a list of
tables stands for its last item. -/
def change? (throughLists : Bool) (f : Table → Option Table) : Keys → Table → Option Table
  | [], t => f t
  | k :: ks, t =>
    match t.lookup k with
    | none => do return put k (.table (← change? throughLists f ks [])) t
    | some (.table inner) => do return put k (.table (← change? throughLists f ks inner)) t
    | some (.list items) =>
      match throughLists, items.getLast? with
      | true, some (.table inner) => do
        let changed ← change? throughLists f ks inner
        return put k (.list (items.dropLast ++ [.table changed])) t
      | _, _ => none
    | some _ => none

end Table

namespace Toml

/-- What has arrived of a document. -/
structure Draft where
  root : Table := []
  /-- The latest header. -/
  header : Keys := []
  /-- Tables that no header may open again. -/
  opened : List Keys := []
  /-- Tables that join `opened` at the next header. -/
  passed : List Keys := []
  /-- Arrays and inline tables. -/
  sealed : List Keys := []

namespace Draft

/-- Nothing may be written at these keys. -/
def isSealed (d : Draft) (keys : Keys) : Bool := d.sealed.any (·.isPrefixOf keys)

/-- The passed tables count as opened from now on. -/
def settle (d : Draft) : Draft := { d with opened := d.passed ++ d.opened, passed := [] }

def openTable? (d : Draft) (keys : Keys) : Option Draft := do
  let d := d.settle
  if keys ∈ d.opened || d.isSealed keys then failure
  let root ← Table.change? true some keys d.root
  return { d with root, header := keys, opened := keys :: d.opened }

/-- Opens the next table of a list of tables. What was written below the one before no longer
counts. -/
def openItem? (d : Draft) (keys : Keys) : Option Draft := do
  let d := d.settle
  if d.isSealed keys then failure
  let root ← Table.change? true (Table.extend? (keys.getLast?.getD "")) keys.dropLast d.root
  return { d with
    root, header := keys
    opened := keys :: d.opened.filter fun k => !keys.isPrefixOf k
    sealed := d.sealed.filter fun k => !keys.isPrefixOf k }

/-- An array or inline table. -/
def isCompound : Value → Bool
  | .list _ | .table _ => true
  | _ => false

/-- The tables that a dotted key passes through below the header. -/
def between (header keys : Keys) : List Keys :=
  (List.range (keys.length - 1)).map fun i => header ++ keys.take (i + 1)

/-- Writes a value under the header. -/
def assign? (d : Draft) (keys : Keys) (v : Value) : Option Draft := do
  let passing := between d.header keys
  if passing.any (· ∈ d.opened) then failure
  let parent := d.header ++ keys.dropLast
  if d.isSealed parent then failure
  let root ← Table.change? true (Table.add? (keys.getLast?.getD "") v) parent d.root
  return { d with
    root
    passed := passing ++ d.passed
    sealed := if isCompound v then (d.header ++ keys) :: d.sealed else d.sealed }

def assignInline? (d : Draft) (keys : Keys) (v : Value) : Option Draft := do
  if d.isSealed keys then failure
  let root ← Table.change? false (Table.add? (keys.getLast?.getD "") v) keys.dropLast d.root
  return { d with root, sealed := if isCompound v then keys :: d.sealed else d.sealed }

end Draft

end Toml

end Rulebook
