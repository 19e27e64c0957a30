import Rulebook.Diagnostic
import Rulebook.Tree.Package
import Mathlib.Data.List.Forall2

/-!
# Trees that are alike

Two readings of the same tokens give trees that differ at most in where their nodes stand and in how
embedded code is written. A `Likeness` says which such differences are let pass; the trees have to
be the same in all else.

Two trees that are both like a third one, and differ from it in positions only, are the same but for
their positions.
-/

namespace Rulebook

/-- The differences that are let pass between two readings. -/
structure Likeness where
  offset : Nat → Nat → Prop
  line : Nat → Nat → Prop
  column : Nat → Nat → Prop
  /-- Embedded code. -/
  code : String → String → Prop
  /-- The attributes of a rule. -/
  attributes : Attributes → Attributes → Prop
  /-- The attributes of a package. -/
  defaults : Attributes → Attributes → Prop
  /-- The dialect of a function. -/
  dialect : Option String → Option String → Prop
  /-- The name of a package. -/
  name : String → String → Prop
  /-- What was declared before the two readings began. -/
  before : Package := {}
  /-- The diagnostics that both readings have to give. -/
  keep : ErrorKind → Bool

variable (l : Likeness)

structure Token.Like (a b : Token) : Prop where
  kind : a.kind = b.kind
  text : a.text = b.text
  start : l.offset a.start b.start
  stop : l.offset a.stop b.stop
  line : l.line a.line b.line
  column : l.column a.column b.column

structure Location.Like (a b : Location) : Prop where
  start : Option.Rel l.offset a.start b.start
  stop : Option.Rel l.offset a.stop b.stop
  line : Option.Rel l.line a.line b.line
  column : Option.Rel l.column a.column b.column

/-! ### Patterns -/

inductive Restriction.Like : Restriction → Restriction → Prop where
  | literal {a b : Location} (h : a.Like l b) (operator text : String) (type : LiteralType) :
      Like (.literal a operator text type) (.literal b operator text type)
  | reference {a b : Location} (h : a.Like l b) (operator name : String) :
      Like (.reference a operator name) (.reference b operator name)
  | returnValue {a b : Location} (h : a.Like l b) (operator : String) {c d : String}
      (hcode : l.code c d) : Like (.returnValue a operator c) (.returnValue b operator d)
  | connective {a b : Location} (h : a.Like l b) (c : Connective) :
      Like (.connective a c) (.connective b c)

inductive Constraint.Like : Constraint → Constraint → Prop where
  | field {a b : Location} (h : a.Like l b) (field : String) {rs qs : List Restriction}
      (hrs : List.Forall₂ (Restriction.Like l) rs qs) :
      Like (.field ⟨a, field, rs⟩) (.field ⟨b, field, qs⟩)
  | binding {a b : Location} (h : a.Like l b) (field name : String) :
      Like (.binding a field name) (.binding b field name)
  | predicate {a b : Location} (h : a.Like l b) {c d : String} (hcode : l.code c d)
      (field declaration : Option String) :
      Like (.predicate a c field declaration) (.predicate b d field declaration)

inductive Access.Like : Access → Access → Prop where
  | field {a b : Location} (h : a.Like l b) (name : String) {c d : Option String}
      (hcode : Option.Rel l.code c d) : Like (.field a name c) (.field b name d)
  | method {a b : Location} (h : a.Like l b) (name : String) {c d : String}
      (hcode : l.code c d) : Like (.method a name c) (.method b name d)

structure Retrieval.Like (r q : Retrieval) : Prop where
  location : r.location.Like l q.location
  accessorLocation : r.accessor.location.Like l q.accessor.location
  head : r.accessor.head = q.accessor.head
  arguments : Option.Rel l.code r.accessor.arguments q.accessor.arguments
  chain : List.Forall₂ (Access.Like l) r.accessor.chain q.accessor.chain
  text : l.code r.text q.text

mutual

inductive Pattern.Like : Pattern → Pattern → Prop where
  | mk {p q : Pattern} (location : p.location.Like l q.location)
      (objectType : p.objectType = q.objectType) (name : p.name = q.name)
      (constraints : List.Forall₂ (Constraint.Like l) p.constraints q.constraints)
      (source : Source.Like p.source q.source) (leftParen : l.offset p.leftParen q.leftParen)
      (rightParen : Option.Rel l.offset p.rightParen q.rightParen) : Pattern.Like p q

inductive Source.Like : Source → Source → Prop where
  | workingMemory : Source.Like .workingMemory .workingMemory
  | retrieval {r q : Retrieval} (h : r.Like l q) :
      Source.Like (.retrieval r) (.retrieval q)
  | accumulate {a b : Location} (h : a.Like l b) {p q : Pattern} (input : Pattern.Like p q)
      {i a' r j b' s : String} (init : l.code i j) (action : l.code a' b') (result : l.code r s) :
      Source.Like (.accumulate a p i a' r) (.accumulate b q j b' s)
  | collect {a b : Location} (h : a.Like l b) {p q : Pattern} (input : Pattern.Like p q) :
      Source.Like (.collect a p) (.collect b q)

end

/-! ### Conditions -/

inductive Condition.Like : Condition → Condition → Prop where
  | group (kind : Grouping) {a b : Location} (h : a.Like l b) {cs ds : List Condition}
      (operands : List.Forall₂ Condition.Like cs ds) : Like (.group kind a cs) (.group kind b ds)
  | eval {a b : Location} (h : a.Like l b) {c d : String} (hcode : l.code c d) :
      Like (.eval a c) (.eval b d)
  | pattern {p q : Pattern} (h : p.Like l q) : Like (.pattern p) (.pattern q)

structure Block.Like (a b : Block) : Prop where
  location : a.location.Like l b.location
  elements : List.Forall₂ (Condition.Like l) a.elements b.elements

/-! ### Rules and declarations -/

structure Attribute.Like (a b : Attribute) : Prop where
  location : a.location.Like l b.location
  name : a.name = b.name
  value : a.value = b.value

structure Consequence.Like (a b : Consequence) : Prop where
  text : l.code a.text b.text
  location : a.location.Like l b.location

structure Rule.Like (r q : Rule) : Prop where
  location : r.location.Like l q.location
  name : r.name = q.name
  attributes : l.attributes r.attributes q.attributes
  conditions : Option.Rel (Block.Like l) r.conditions q.conditions
  consequence : r.consequence.Like l q.consequence

structure Query.Like (r q : Query) : Prop where
  location : r.location.Like l q.location
  name : r.name = q.name
  parameters : r.parameters = q.parameters
  conditions : Option.Rel (Block.Like l) r.conditions q.conditions

inductive Entry.Like : Entry → Entry → Prop where
  | rule {r q : Rule} (h : r.Like l q) : Like (.rule r) (.rule q)
  | query {r q : Query} (h : r.Like l q) : Like (.query r) (.query q)

structure Import.Like (a b : Import) : Prop where
  location : a.location.Like l b.location
  target : a.target = b.target

structure Global.Like (a b : Global) : Prop where
  location : a.location.Like l b.location
  type : a.type = b.type
  name : a.name = b.name

structure Function.Like (a b : Function) : Prop where
  location : a.location.Like l b.location
  name : a.name = b.name
  returnType : a.returnType = b.returnType
  parameters : a.parameters = b.parameters
  body : l.code a.body b.body
  dialect : l.dialect a.dialect b.dialect

structure Slot.Like (a b : Slot) : Prop where
  location : a.location.Like l b.location
  name : a.name = b.name
  type : a.type = b.type

structure Template.Like (a b : Template) : Prop where
  location : a.location.Like l b.location
  name : a.name = b.name
  slots : List.Forall₂ (Slot.Like l) a.slots b.slots

def Follows {α β : Type} (base : List α) (r : α → β → Prop) (xs : List α) (ys : List β) : Prop :=
  ∃ zs, xs = base ++ zs ∧ List.Forall₂ r zs ys

/-- Packages that are alike but for their own location. -/
structure Package.Like (p q : Package) : Prop where
  name : l.name p.name q.name
  imports : Follows l.before.imports (Import.Like l) p.imports q.imports
  functionImports :
    Follows l.before.functionImports (Import.Like l) p.functionImports q.functionImports
  globals : Follows l.before.globals (Global.Like l) p.globals q.globals
  functions : Follows l.before.functions (Function.Like l) p.functions q.functions
  templates : Follows l.before.templates (Template.Like l) p.templates q.templates
  rules : Follows l.before.rules (Entry.Like l) p.rules q.rules
  attributes : l.defaults p.attributes q.attributes

/-! ### Errors -/

inductive ParseError.Like : ParseError → ParseError → Prop where
  | mismatchedToken (expected : TokenKind) {a b : Token} (h : a.Like l b) :
      Like (.mismatchedToken expected a) (.mismatchedToken expected b)
  | mismatchedSet (expected : List TokenKind) {a b : Token} (h : a.Like l b) :
      Like (.mismatchedSet expected a) (.mismatchedSet expected b)
  | noViableAlternative (decision : String) {a b : Token} (h : a.Like l b) :
      Like (.noViableAlternative decision a) (.noViableAlternative decision b)
  | earlyExit (construct : String) {a b : Token} (h : a.Like l b) :
      Like (.earlyExit construct a) (.earlyExit construct b)
  | failedPredicate (condition : String) {a b : Token} (h : a.Like l b) :
      Like (.failedPredicate condition (some a)) (.failedPredicate condition (some b))

/-- Diagnostics that say the same. -/
structure Diagnostic.Like (a b : Diagnostic) : Prop where
  kind : a.kind = b.kind
  sourceName : a.sourceName = b.sourceName
  line : ∃ m n : Nat, a.line = m ∧ b.line = n ∧ l.line m n
  column : ∃ m n : Nat, a.column = m ∧ b.column = n ∧ l.column m n
  offset : Option.Rel l.offset a.offset b.offset
  tokenText : a.tokenText = b.tokenText
  message : a.message = b.message
  ruleName : a.ruleName = b.ruleName

def Likeness.kept (ds : List Diagnostic) : List Diagnostic := ds.filter fun d => l.keep d.kind

theorem Likeness.kept_eq (h : ∀ kind, l.keep kind = true) (ds : List Diagnostic) : l.kept ds = ds :=
  List.filter_eq_self.2 fun d _ => h d.kind

/-! ### First consequences -/

variable {l}

theorem Token.Like.shown {a b : Token} (h : a.Like l b) : a.shown = b.shown := by
  unfold Token.shown; rw [h.kind, h.text]

theorem Token.Like.isName {a b : Token} (h : a.Like l b) : a.isName = b.isName := by
  unfold Token.isName; rw [h.kind]

theorem Token.Like.isTrivia {a b : Token} (h : a.Like l b) : a.isTrivia = b.isTrivia := by
  unfold Token.isTrivia; rw [h.kind]

theorem Token.Like.stringValue {a b : Token} (h : a.Like l b) : a.stringValue = b.stringValue := by
  unfold Token.stringValue; rw [h.text]

theorem Location.Like.ofToken {a b : Token} (h : a.Like l b) :
    (Location.ofToken a).Like l (Location.ofToken b) :=
  ⟨.some h.start, .none, .some h.line, .some h.column⟩

theorem ParseError.Like.kind {e f : ParseError} (h : e.Like l f) : e.kind = f.kind := by
  cases h <;> rfl

theorem ParseError.Like.message {e f : ParseError} (h : e.Like l f) : e.message = f.message := by
  cases h with
  | mismatchedToken expected h => unfold ParseError.message; dsimp only; rw [h.shown]
  | mismatchedSet expected h => unfold ParseError.message; dsimp only; rw [h.shown]
  | noViableAlternative decision h => unfold ParseError.message; dsimp only; rw [h.shown]
  | earlyExit construct h => unfold ParseError.message; dsimp only; rw [h.shown]
  | failedPredicate condition h => rfl

theorem ParseError.Like.token {e f : ParseError} (h : e.Like l f) :
    ∃ a b, e.token? = some a ∧ f.token? = some b ∧ a.Like l b := by
  cases h <;> exact ⟨_, _, rfl, rfl, by assumption⟩

theorem Diagnostic.Like.ofToken {a b : Token} (h : a.Like l b) (kind : ErrorKind)
    (sourceName message : String) (ruleName : Option String) :
    (Diagnostic.ofToken kind sourceName message (some a) ruleName).Like l
      (Diagnostic.ofToken kind sourceName message (some b) ruleName) where
  kind := rfl
  sourceName := rfl
  line := ⟨_, _, rfl, rfl, h.line⟩
  column := ⟨_, _, rfl, rfl, h.column⟩
  offset := .some h.start
  tokenText := by simp only [Diagnostic.ofToken, h.kind, h.text]
  message := rfl
  ruleName := rfl

theorem forall₂_concat {α β : Type} {r : α → β → Prop} {xs : List α} {x : α} {ys : List β}
    (h : List.Forall₂ r (xs ++ [x]) ys) :
    ∃ zs y, ys = zs ++ [y] ∧ List.Forall₂ r xs zs ∧ r x y := by
  induction xs generalizing ys with
  | nil =>
    cases h with
    | cons hxy h =>
      cases h
      exact ⟨[], _, rfl, .nil, hxy⟩
  | cons w xs ih =>
    cases h with
    | cons hw h =>
      obtain ⟨zs, y, rfl, hzs, hy⟩ := ih h
      exact ⟨_ :: zs, y, rfl, .cons hw hzs, hy⟩

theorem Follows.append {α β : Type} {base : List α} {r : α → β → Prop} {xs : List α} {ys : List β}
    (h : Follows base r xs ys) {x : α} {y : β} (hxy : r x y) :
    Follows base r (xs ++ [x]) (ys ++ [y]) := by
  obtain ⟨zs, rfl, hzs⟩ := h
  exact ⟨zs ++ [x], List.append_assoc .., List.rel_append hzs (.cons hxy .nil)⟩

theorem Follows.refl_nil {α β : Type} (base : List α) (r : α → β → Prop) : Follows base r base [] :=
  ⟨[], (List.append_nil base).symm, .nil⟩

theorem Package.Like.empty (hname : l.name "" "") (hdefaults : l.defaults [] [])
    (hbefore : l.before = {}) : Package.Like l {} {} := by
  refine ⟨hname, ?_, ?_, ?_, ?_, ?_, ?_, hdefaults⟩
  all_goals
    rw [hbefore]
    exact .refl_nil _ _

/-! ### Trees that are the same wherever they stand -/

/-- Only positions may differ. -/
def Likeness.elsewhere : Likeness where
  offset _ _ := True
  line _ _ := True
  column _ _ := True
  code := (· = ·)
  attributes := (· = ·)
  defaults := (· = ·)
  dialect := (· = ·)
  name := (· = ·)
  keep _ := true

/-- Code is the same in trees that are alike. -/
class Likeness.Verbatim (l : Likeness) : Prop where
  code : ∀ {c d : String}, l.code c d → c = d

open Likeness (elsewhere)

theorem rel_of_common {α : Type} {R S T : α → α → Prop} {a b c : Option α} (h : Option.Rel R a c)
    (h' : Option.Rel S b c) (hT : ∀ x y z, R x z → S y z → T x y) : Option.Rel T a b := by
  cases h with
  | none => cases h'; exact .none
  | some h =>
    cases h' with
    | some h' => exact .some (hT _ _ _ h h')

theorem forall₂_of_common {α : Type} {R S T : α → α → Prop} {xs ys zs : List α}
    (h : List.Forall₂ R xs zs) (h' : List.Forall₂ S ys zs) (hT : ∀ x y z, R x z → S y z → T x y) :
    List.Forall₂ T xs ys := by
  induction h generalizing ys with
  | nil => cases h'; exact .nil
  | cons h _ ih =>
    cases h' with
    | cons h' hs => exact .cons (hT _ _ _ h h') (ih hs)

variable {m : Likeness}

theorem Location.Like.common {a b c : Location} (h : a.Like l c) (h' : b.Like m c) :
    a.Like elsewhere b :=
  ⟨rel_of_common h.start h'.start fun _ _ _ _ _ => trivial,
    rel_of_common h.stop h'.stop fun _ _ _ _ _ => trivial,
    rel_of_common h.line h'.line fun _ _ _ _ _ => trivial,
    rel_of_common h.column h'.column fun _ _ _ _ _ => trivial⟩

section Verbatim

variable [l.Verbatim] [m.Verbatim]

theorem code_common {c d e : String} (h : l.code c e) (h' : m.code d e) : c = d :=
  (Likeness.Verbatim.code h).trans (Likeness.Verbatim.code h').symm

theorem Restriction.Like.common {a b c : Restriction} (h : a.Like l c) (h' : b.Like m c) :
    a.Like elsewhere b := by
  cases h with
  | literal h => cases h' with | literal h' => exact .literal (h.common h') ..
  | reference h => cases h' with | reference h' => exact .reference (h.common h') ..
  | returnValue h _ hcode =>
    cases h' with
    | returnValue h' _ hcode' => exact .returnValue (h.common h') _ (code_common hcode hcode')
  | connective h => cases h' with | connective h' => exact .connective (h.common h') _

theorem Constraint.Like.common {a b c : Constraint} (h : a.Like l c) (h' : b.Like m c) :
    a.Like elsewhere b := by
  cases h with
  | field h _ hrs =>
    cases h' with
    | field h' _ hrs' =>
      exact .field (h.common h') _ (forall₂_of_common hrs hrs' fun _ _ _ => Restriction.Like.common)
  | binding h => cases h' with | binding h' => exact .binding (h.common h') ..
  | predicate h hcode =>
    cases h' with
    | predicate h' hcode' => exact .predicate (h.common h') (code_common hcode hcode') ..

theorem Access.Like.common {a b c : Access} (h : a.Like l c) (h' : b.Like m c) :
    a.Like elsewhere b := by
  cases h with
  | field h _ hcode =>
    cases h' with
    | field h' _ hcode' =>
      exact .field (h.common h') _ (rel_of_common hcode hcode' fun _ _ _ => code_common)
  | method h _ hcode =>
    cases h' with
    | method h' _ hcode' => exact .method (h.common h') _ (code_common hcode hcode')

theorem Retrieval.Like.common {a b c : Retrieval} (h : a.Like l c) (h' : b.Like m c) :
    a.Like elsewhere b :=
  ⟨h.location.common h'.location, h.accessorLocation.common h'.accessorLocation,
    h.head.trans h'.head.symm, rel_of_common h.arguments h'.arguments fun _ _ _ => code_common,
    forall₂_of_common h.chain h'.chain fun _ _ _ => Access.Like.common, code_common h.text h'.text⟩

mutual

theorem Pattern.Like.common : ∀ {p q r : Pattern}, Pattern.Like l p r → Pattern.Like m q r →
    Pattern.Like elsewhere p q
  | ⟨_, _, _, _, _, _, _⟩, _, _, h, h' => by
    cases h with
    | mk location type name constraints source left right =>
    cases h' with
    | mk location' type' name' constraints' source' left' right' =>
      exact .mk (location.common location') (type.trans type'.symm) (name.trans name'.symm)
        (forall₂_of_common constraints constraints' fun _ _ _ => Constraint.Like.common)
        (Source.Like.common source source') trivial
        (rel_of_common right right' fun _ _ _ _ _ => trivial)

theorem Source.Like.common : ∀ {p q r : Source}, Source.Like l p r → Source.Like m q r →
    Source.Like elsewhere p q
  | .workingMemory, _, _, h, h' => by
    cases h
    cases h'
    exact .workingMemory
  | .retrieval _, _, _, h, h' => by
    cases h with
    | retrieval h => cases h' with | retrieval h' => exact .retrieval (h.common h')
  | .accumulate .., _, _, h, h' => by
    cases h with
    | accumulate h input init action result =>
    cases h' with
    | accumulate h' input' init' action' result' =>
      exact .accumulate (h.common h') (Pattern.Like.common input input') (code_common init init')
        (code_common action action') (code_common result result')
  | .collect .., _, _, h, h' => by
    cases h with
    | collect h input =>
      cases h' with
      | collect h' input' => exact .collect (h.common h') (Pattern.Like.common input input')

end

end Verbatim

mutual

theorem Condition.Like.common [l.Verbatim] [m.Verbatim] :
    ∀ {c d e : Condition}, Condition.Like l c e →
    Condition.Like m d e → Condition.Like elsewhere c d
  | .group .., _, _, h, h' => by
    cases h with
    | group _ h operands =>
      cases h' with
      | group _ h' operands' =>
        exact .group _ (h.common h') (Condition.Like.list_common operands operands')
  | .eval .., _, _, h, h' => by
    cases h with
    | eval h hcode =>
      cases h' with
      | eval h' hcode' => exact .eval (h.common h') (code_common hcode hcode')
  | .pattern _, _, _, h, h' => by
    cases h with
    | pattern h => cases h' with | pattern h' => exact .pattern (Pattern.Like.common h h')

theorem Condition.Like.list_common [l.Verbatim] [m.Verbatim] : ∀ {cs ds es : List Condition},
    List.Forall₂ (Condition.Like l) cs es → List.Forall₂ (Condition.Like m) ds es →
      List.Forall₂ (Condition.Like elsewhere) cs ds
  | [], _, _, h, h' => by
    cases h
    cases h'
    exact .nil
  | _ :: _, _, _, h, h' => by
    cases h with
    | cons h hs =>
      cases h' with
      | cons h' hs' => exact .cons (Condition.Like.common h h') (Condition.Like.list_common hs hs')

end

end Rulebook
