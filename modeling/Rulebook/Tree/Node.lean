import Rulebook.Tree.Package

/-!
# Nodes of the tree

Every part of a package is a node. `Package.nodes` lists them in pre-order: a node, then the nodes
of its parts, field by field. Statements about every node of a package are statements about this
list.
-/

namespace Rulebook

inductive NodeKind where
  | package | import_ | functionImport | global | function | template | slot
  | rule | query | attribute
  | group (kind : Grouping) | eval | pattern
  | retrieval | accessor | fieldAccess | methodAccess | accumulate | collect
  | fieldConstraint | fieldBinding | predicate
  | literal | reference | returnValue | connective
  deriving DecidableEq, Repr, Inhabited

inductive Node where
  | package (p : Package)
  | import_ (i : Import)
  | functionImport (i : Import)
  | global (g : Global)
  | function (f : Function)
  | template (t : Template)
  | slot (s : Slot)
  | entry (e : Entry)
  | attribute (a : Attribute)
  | condition (c : Condition)
  | source (s : Source)
  | accessor (a : Accessor)
  | access (a : Access)
  | constraint (c : Constraint)
  | restriction (r : Restriction)
  deriving Repr

mutual

def Pattern.nodes : Pattern → List Node
  | ⟨location, objectType, name, constraints, source, left, right⟩ =>
    .condition (.pattern ⟨location, objectType, name, constraints, source, left, right⟩) ::
      (constraints.flatMap constraintNodes ++ Source.nodes source)
where
  /-- The nodes of a constraint. -/
  constraintNodes : Constraint → List Node
    | .field c => .constraint (.field c) :: c.restrictions.map .restriction
    | c => [.constraint c]

def Source.nodes : Source → List Node
  | .workingMemory => []
  | .retrieval r =>
    .source (.retrieval r) :: .accessor r.accessor :: r.accessor.chain.map .access
  | .accumulate location input initCode actionCode resultCode =>
    .source (.accumulate location input initCode actionCode resultCode) :: Pattern.nodes input
  | .collect location input => .source (.collect location input) :: Pattern.nodes input

end

mutual

def Condition.nodes : Condition → List Node
  | .group kind location operands =>
    .condition (.group kind location operands) :: Condition.listNodes operands
  | .eval location code => [.condition (.eval location code)]
  | .pattern p => p.nodes

def Condition.listNodes : List Condition → List Node
  | [] => []
  | c :: rest => Condition.nodes c ++ Condition.listNodes rest

end

/-- The nodes of a rule or query. -/
def Entry.nodes (e : Entry) : List Node :=
  let conditions := match e with
    | .rule r => r.conditions
    | .query q => q.conditions
  .entry e :: (e.attributes.map .attribute ++
    match conditions with
    | none => []
    | some block => block.condition.nodes)

def Package.nodes (p : Package) : List Node :=
  .package p :: (p.imports.map .import_ ++ p.functionImports.map .functionImport ++
    p.globals.map .global ++ p.functions.map .function ++
    p.templates.flatMap (fun t => .template t :: t.slots.map .slot) ++
    p.rules.flatMap Entry.nodes ++ p.attributes.map .attribute)

namespace Node

/-- The kind of a node. Working memory is no node of a tree; it counts as a retrieval. -/
def kind : Node → NodeKind
  | package _ => .package
  | import_ _ => .import_
  | functionImport _ => .functionImport
  | global _ => .global
  | function _ => .function
  | template _ => .template
  | slot _ => .slot
  | entry (.rule _) => .rule
  | entry (.query _) => .query
  | .attribute _ => .attribute
  | condition (.group kind _ _) => .group kind
  | condition (.eval ..) => .eval
  | condition (.pattern _) => .pattern
  | source .workingMemory | source (.retrieval _) => .retrieval
  | source (.accumulate ..) => .accumulate
  | source (.collect ..) => .collect
  | accessor _ => .accessor
  | access (.field ..) => .fieldAccess
  | access (.method ..) => .methodAccess
  | constraint (.field _) => .fieldConstraint
  | constraint (.binding ..) => .fieldBinding
  | constraint (.predicate ..) => .predicate
  | restriction (.literal ..) => .literal
  | restriction (.reference ..) => .reference
  | restriction (.returnValue ..) => .returnValue
  | restriction (.connective ..) => .connective

def location : Node → Location
  | package p => p.location
  | import_ i | functionImport i => i.location
  | global g => g.location
  | function f => f.location
  | template t => t.location
  | slot s => s.location
  | entry e => e.location
  | .attribute a => a.location
  | condition c => c.location
  | source s => s.location?.getD {}
  | accessor a => a.location
  | access a => a.location
  | constraint c => c.location
  | restriction r => r.location

end Node

end Rulebook
