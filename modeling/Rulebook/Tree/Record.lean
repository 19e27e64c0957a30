import Rulebook.Tree.Node

/-!
# Nodes as records

A record shows a node as its kind, its location and its named fields, nested nodes included. All
written forms of a tree are made from records.
-/

namespace Rulebook

/-- A field value, or a node as a whole. -/
inductive Datum where
  | null
  | flag (b : Bool)
  | number (n : Int)
  | text (s : String)
  | attributeValue (v : AttributeValue)
  | list (items : List Datum)
  | keyed (entries : List (String × Datum))
  | node (kind : NodeKind) (location : Location) (fields : List (String × Datum))
  deriving Repr

namespace Datum

/-- A text that may be missing. -/
def optional : Option String → Datum
  | none => .null
  | some s => text s

/-- An offset, line or column; minus one if it is not set. -/
def place : Option Nat → Datum
  | none => number (-1)
  | some n => number n

def texts (ss : List String) : Datum := list (ss.map text)

end Datum

def Access.record : Access → Datum
  | .field l name argument =>
    .node .fieldAccess l [("field", .text name), ("argument", .optional argument)]
  | .method l name arguments =>
    .node .methodAccess l [("method", .text name), ("arguments", .text arguments)]

/-- The record of an access chain. -/
def Accessor.record (a : Accessor) : Datum :=
  .node .accessor a.location
    [("variable_name", .text a.head), ("arguments", .optional a.arguments),
     ("invokers", .list (a.chain.map Access.record))]

def Retrieval.record (r : Retrieval) : Datum :=
  .node .retrieval r.location [("data_source", r.accessor.record), ("expression", .text r.text)]

def Restriction.record : Restriction → Datum
  | .literal l operator t type =>
    .node .literal l
      [("evaluator", .text operator), ("text", .text t), ("literal_type", .text type.name),
       ("is_enum", .flag (type = .enum))]
  | .reference l operator name =>
    .node .reference l [("evaluator", .text operator), ("identifier", .text name)]
  | .returnValue l operator code =>
    .node .returnValue l [("evaluator", .text operator), ("content", .text code)]
  | .connective l c => .node .connective l [("connective", .text c.text)]

def Constraint.record : Constraint → Datum
  | .field c =>
    .node .fieldConstraint c.location
      [("field_name", .text c.field),
       ("restrictions", .list (c.restrictions.map Restriction.record))]
  | .binding l target name =>
    .node .fieldBinding l [("field_name", .text target), ("identifier", .text name)]
  | .predicate l code target declaration =>
    .node .predicate l
      [("content", .text code), ("field_name", .optional target),
       ("declaration", .optional declaration)]

mutual

def Pattern.record : Pattern → Datum
  | ⟨location, objectType, name, constraints, source, leftParen, rightParen⟩ =>
    .node .pattern location
      [("object_type", .text objectType), ("identifier", .optional name),
       ("constraints", .list (constraints.map Constraint.record)),
       ("source", Source.record source),
       ("left_paren", .number leftParen), ("right_paren", .place rightParen)]

def Source.record : Source → Datum
  | .workingMemory => .null
  | .retrieval r => r.record
  | .accumulate l input initCode actionCode resultCode =>
    .node .accumulate l
      [("input_pattern", Pattern.record input), ("init_code", .text initCode),
       ("action_code", .text actionCode), ("result_code", .text resultCode)]
  | .collect l input => .node .collect l [("input_pattern", Pattern.record input)]

end

mutual

def Condition.record : Condition → Datum
  | .group kind l operands => .node (.group kind) l [("descrs", .list (Condition.records operands))]
  | .eval l code => .node .eval l [("content", .text code)]
  | .pattern p => p.record

def Condition.records : List Condition → List Datum
  | [] => []
  | c :: rest => Condition.record c :: Condition.records rest

end

def Attribute.record (a : Attribute) : Datum :=
  .node .attribute a.location [("name", .text a.name), ("value", .attributeValue a.value)]

def Attributes.record (as : Attributes) : Datum :=
  .keyed (as.map fun a => (a.name, a.record))

def Block.record? : Option Block → Datum
  | none => .null
  | some b => b.condition.record

/-- The fields that rules and queries share. -/
def Entry.fields (name : String) (attributes : Attributes) (conditions : Option Block)
    (consequence : Option String) (place : Location) : List (String × Datum) :=
  [("name", .text name), ("attributes", attributes.record), ("lhs", Block.record? conditions),
   ("consequence", .optional consequence),
   ("consequence_start_offset", Datum.place place.start),
   ("consequence_end_offset", Datum.place place.stop),
   ("consequence_line", Datum.place place.line),
   ("consequence_column", Datum.place place.column)]

def Entry.record : Entry → Datum
  | .rule r =>
    .node .rule r.location
      (fields r.name r.attributes r.conditions (some r.consequence.text) r.consequence.location)
  | .query q =>
    .node .query q.location
      (fields q.name [] q.conditions none {} ++
        [("parameters", .texts (q.parameters.map (·.name))),
         ("parameter_types", .list (q.parameters.map fun p => .optional p.type))])

def Import.record (kind : NodeKind) (i : Import) : Datum :=
  .node kind i.location [("target", .text i.target)]

def Global.record (g : Global) : Datum :=
  .node .global g.location [("type", .text g.type), ("identifier", .text g.name)]

def Function.record (f : Function) : Datum :=
  .node .function f.location
    [("name", .text f.name), ("return_type", .optional f.returnType),
     ("parameter_types", .list (f.parameters.map fun p => .optional p.type)),
     ("parameter_names", .texts (f.parameters.map (·.name))),
     ("body", .text f.body), ("dialect", .optional f.dialect)]

def Slot.record (s : Slot) : Datum :=
  .node .slot s.location [("name", .text s.name), ("class_type", .text s.type)]

def Template.record (t : Template) : Datum :=
  .node .template t.location [("name", .text t.name), ("fields", .list (t.slots.map Slot.record))]

def Package.record (p : Package) : Datum :=
  .node .package p.location
    [("name", .text p.name),
     ("imports", .list (p.imports.map (Import.record .import_))),
     ("function_imports", .list (p.functionImports.map (Import.record .functionImport))),
     ("globals", .list (p.globals.map Global.record)),
     ("functions", .list (p.functions.map Function.record)),
     ("templates", .list (p.templates.map Template.record)),
     ("rules", .list (p.rules.map Entry.record)),
     ("attributes", p.attributes.record)]

def Node.record : Node → Datum
  | .package p => p.record
  | .import_ i => i.record .import_
  | .functionImport i => i.record .functionImport
  | .global g => g.record
  | .function f => f.record
  | .template t => t.record
  | .slot s => s.record
  | .entry e => e.record
  | .attribute a => a.record
  | .condition c => c.record
  | .source s => s.record
  | .accessor a => a.record
  | .access a => a.record
  | .constraint c => c.record
  | .restriction r => r.record

end Rulebook
