import Rulebook.Proofs.Likeness

/-!
# Trees alike in everything

If nothing may differ between two trees then they are the same.
-/

namespace Rulebook

/-- No difference is let pass. -/
def Likeness.same : Likeness where
  offset := (· = ·)
  line := (· = ·)
  column := (· = ·)
  code := (· = ·)
  attributes := (· = ·)
  defaults := (· = ·)
  dialect := (· = ·)
  name := (· = ·)
  keep _ := true

open Likeness (same)

theorem eq_of_rel {α : Type} {R : α → α → Prop} (hR : ∀ {x y}, R x y → x = y) {a b : Option α}
    (h : Option.Rel R a b) : a = b := by
  cases h with
  | none => rfl
  | some h => rw [hR h]

theorem eq_of_forall₂ {α : Type} {R : α → α → Prop} (hR : ∀ {x y}, R x y → x = y) {xs ys : List α}
    (h : List.Forall₂ R xs ys) : xs = ys := by
  induction h with
  | nil => rfl
  | cons h _ ih => rw [hR h, ih]

theorem Location.Like.eq {a b : Location} (h : a.Like same b) : a = b := by
  obtain ⟨start, stop, line, column⟩ := a
  obtain ⟨start', stop', line', column'⟩ := b
  obtain rfl : start = start' := eq_of_rel id h.start
  obtain rfl : stop = stop' := eq_of_rel id h.stop
  obtain rfl : line = line' := eq_of_rel id h.line
  obtain rfl : column = column' := eq_of_rel id h.column
  rfl

theorem Restriction.Like.eq {a b : Restriction} (h : a.Like same b) : a = b := by
  cases h with
  | literal h => rw [h.eq]
  | reference h => rw [h.eq]
  | returnValue h _ hcode => rw [h.eq, show _ = _ from hcode]
  | connective h => rw [h.eq]

theorem Constraint.Like.eq {a b : Constraint} (h : a.Like same b) : a = b := by
  cases h with
  | field h _ hrs => rw [h.eq, eq_of_forall₂ Restriction.Like.eq hrs]
  | binding h => rw [h.eq]
  | predicate h hcode => rw [h.eq, show _ = _ from hcode]

theorem Access.Like.eq {a b : Access} (h : a.Like same b) : a = b := by
  cases h with
  | field h _ hcode => rw [h.eq, eq_of_rel id hcode]
  | method h _ hcode => rw [h.eq, show _ = _ from hcode]

theorem Retrieval.Like.eq {a b : Retrieval} (h : a.Like same b) : a = b := by
  obtain ⟨location, ⟨accessorLocation, head, arguments, chain⟩, text⟩ := a
  obtain ⟨location', ⟨accessorLocation', head', arguments', chain'⟩, text'⟩ := b
  obtain rfl : location = location' := h.location.eq
  obtain rfl : accessorLocation = accessorLocation' := h.accessorLocation.eq
  obtain rfl : head = head' := h.head
  obtain rfl : arguments = arguments' := eq_of_rel id h.arguments
  obtain rfl : chain = chain' := eq_of_forall₂ Access.Like.eq h.chain
  obtain rfl : text = text' := h.text
  rfl

mutual

theorem Pattern.Like.eq : ∀ {p q : Pattern}, Pattern.Like same p q → p = q
  | ⟨location, objectType, name, constraints, source, left, right⟩,
    ⟨location', objectType', name', constraints', source', left', right'⟩, h => by
    cases h with
    | mk hlocation htype hname hconstraints hsource hleft hright =>
      obtain rfl : location = location' := hlocation.eq
      obtain rfl : objectType = objectType' := htype
      obtain rfl : name = name' := hname
      obtain rfl : constraints = constraints' := eq_of_forall₂ Constraint.Like.eq hconstraints
      obtain rfl : source = source' := hsource.eq
      obtain rfl : left = left' := hleft
      obtain rfl : right = right' := eq_of_rel id hright
      rfl

theorem Source.Like.eq : ∀ {r q : Source}, Source.Like same r q → r = q
  | .workingMemory, _, h => by cases h; rfl
  | .retrieval r, _, h => by
    cases h with
    | retrieval h => rw [h.eq]
  | .accumulate .., _, h => by
    cases h with
    | accumulate h input init action result =>
      rw [h.eq, input.eq, show _ = _ from init, show _ = _ from action, show _ = _ from result]
  | .collect .., _, h => by
    cases h with
    | collect h input => rw [h.eq, input.eq]

end

mutual

theorem Condition.Like.eq : ∀ {c d : Condition}, Condition.Like same c d → c = d
  | .group .., _, h => by
    cases h with
    | group _ h operands => rw [h.eq, Condition.Like.list_eq operands]
  | .eval .., _, h => by
    cases h with
    | eval h hcode => rw [h.eq, show _ = _ from hcode]
  | .pattern _, _, h => by
    cases h with
    | pattern h => rw [h.eq]

theorem Condition.Like.list_eq : ∀ {cs ds : List Condition},
    List.Forall₂ (Condition.Like same) cs ds → cs = ds
  | [], _, h => by cases h; rfl
  | _ :: _, _, h => by
    cases h with
    | cons h hs => rw [Condition.Like.eq h, Condition.Like.list_eq hs]

end

theorem Block.Like.eq {a b : Block} (h : a.Like same b) : a = b := by
  obtain ⟨location, elements⟩ := a
  obtain ⟨location', elements'⟩ := b
  obtain rfl : location = location' := h.location.eq
  obtain rfl : elements = elements' := Condition.Like.list_eq h.elements
  rfl

theorem Attribute.Like.eq {a b : Attribute} (h : a.Like same b) : a = b := by
  obtain ⟨location, name, value⟩ := a
  obtain ⟨location', name', value'⟩ := b
  obtain rfl : location = location' := h.location.eq
  obtain rfl : name = name' := h.name
  obtain rfl : value = value' := h.value
  rfl

theorem Consequence.Like.eq {a b : Consequence} (h : a.Like same b) : a = b := by
  obtain ⟨text, location⟩ := a
  obtain ⟨text', location'⟩ := b
  obtain rfl : text = text' := h.text
  obtain rfl : location = location' := h.location.eq
  rfl

theorem Entry.Like.eq {a b : Entry} (h : a.Like same b) : a = b := by
  cases h with
  | @rule r q h =>
    obtain ⟨location, name, attributes, conditions, consequence⟩ := r
    obtain ⟨location', name', attributes', conditions', consequence'⟩ := q
    obtain rfl : location = location' := h.location.eq
    obtain rfl : name = name' := h.name
    obtain rfl : attributes = attributes' := h.attributes
    obtain rfl : conditions = conditions' := eq_of_rel Block.Like.eq h.conditions
    obtain rfl : consequence = consequence' := h.consequence.eq
    rfl
  | @query r q h =>
    obtain ⟨location, name, parameters, conditions⟩ := r
    obtain ⟨location', name', parameters', conditions'⟩ := q
    obtain rfl : location = location' := h.location.eq
    obtain rfl : name = name' := h.name
    obtain rfl : parameters = parameters' := h.parameters
    obtain rfl : conditions = conditions' := eq_of_rel Block.Like.eq h.conditions
    rfl

theorem Import.Like.eq {a b : Import} (h : a.Like same b) : a = b := by
  obtain ⟨location, target⟩ := a
  obtain ⟨location', target'⟩ := b
  obtain rfl : location = location' := h.location.eq
  obtain rfl : target = target' := h.target
  rfl

theorem Global.Like.eq {a b : Global} (h : a.Like same b) : a = b := by
  obtain ⟨location, type, name⟩ := a
  obtain ⟨location', type', name'⟩ := b
  obtain rfl : location = location' := h.location.eq
  obtain rfl : type = type' := h.type
  obtain rfl : name = name' := h.name
  rfl

theorem Function.Like.eq {a b : Function} (h : a.Like same b) : a = b := by
  obtain ⟨location, name, returnType, parameters, body, dialect⟩ := a
  obtain ⟨location', name', returnType', parameters', body', dialect'⟩ := b
  obtain rfl : location = location' := h.location.eq
  obtain rfl : name = name' := h.name
  obtain rfl : returnType = returnType' := h.returnType
  obtain rfl : parameters = parameters' := h.parameters
  obtain rfl : body = body' := h.body
  obtain rfl : dialect = dialect' := h.dialect
  rfl

theorem Slot.Like.eq {a b : Slot} (h : a.Like same b) : a = b := by
  obtain ⟨location, name, type⟩ := a
  obtain ⟨location', name', type'⟩ := b
  obtain rfl : location = location' := h.location.eq
  obtain rfl : name = name' := h.name
  obtain rfl : type = type' := h.type
  rfl

theorem Template.Like.eq {a b : Template} (h : a.Like same b) : a = b := by
  obtain ⟨location, name, slots⟩ := a
  obtain ⟨location', name', slots'⟩ := b
  obtain rfl : location = location' := h.location.eq
  obtain rfl : name = name' := h.name
  obtain rfl : slots = slots' := eq_of_forall₂ Slot.Like.eq h.slots
  rfl

theorem Follows.eq {α : Type} {R : α → α → Prop} (hR : ∀ {x y}, R x y → x = y) {xs ys : List α}
    (h : Follows [] R xs ys) : xs = ys := by
  obtain ⟨zs, rfl, h⟩ := h
  exact eq_of_forall₂ hR h

theorem Package.Like.eq {p q : Package} (h : p.Like same q) :
    p = { q with location := p.location } := by
  obtain ⟨location, name, imports, functionImports, globals, functions, templates, rules,
    attributes⟩ := p
  obtain rfl : imports = q.imports := h.imports.eq Import.Like.eq
  obtain rfl : functionImports = q.functionImports := h.functionImports.eq Import.Like.eq
  obtain rfl : globals = q.globals := h.globals.eq Global.Like.eq
  obtain rfl : functions = q.functions := h.functions.eq Function.Like.eq
  obtain rfl : templates = q.templates := h.templates.eq Template.Like.eq
  obtain rfl : rules = q.rules := h.rules.eq Entry.Like.eq
  obtain rfl : attributes = q.attributes := h.attributes
  obtain rfl : name = q.name := h.name
  rfl

end Rulebook
