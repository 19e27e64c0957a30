import Rulebook.Proofs.Locations
import Rulebook.Tree.Record

/-!
# Well-formed trees

The grammar makes groups of two operands or more, negations of one, and universal groups of patterns
that draw on working memory. Restrictions and connectives alternate, a bare index has no name, a
retrieval holds the text of its stretch, and the value of an attribute is of the type that its name
asks for. Only the root of the conditions of a rule may have fewer than two operands.
-/

namespace Rulebook

variable {text : String}

/-! ### Attributes -/

structure Attribute.Typed (a : Attribute) : Prop where
  number : a.name ∈ ["salience", "duration"] → ∃ n, a.value = .number n
  flag : a.name ∈ ["no-loop", "auto-focus", "lock-on-active", "enabled"] → ∃ b, a.value = .flag b
  text : a.name ∉ ["salience", "duration", "no-loop", "auto-focus", "lock-on-active", "enabled"] →
    ∃ s, a.value = .text s

/-- No name is assigned twice, and the values are of the right types. -/
structure Attributes.WellFormed (as : Attributes) : Prop where
  typed : ∀ a ∈ as, a.Typed
  distinct : (as.map (·.name)).Nodup

namespace Attributes

theorem name_mem_put {as : Attributes} {a : Attribute} {name : String}
    (h : name ∈ (as.put a).map (·.name)) : name = a.name ∨ name ∈ as.map (·.name) := by
  obtain ⟨x, hx, rfl⟩ := List.mem_map.1 h
  rcases mem_put hx with rfl | hx
  · exact .inl rfl
  · exact .inr (List.mem_map_of_mem hx)

theorem nodup_put {as : Attributes} (h : (as.map (·.name)).Nodup) (a : Attribute) :
    ((as.put a).map (·.name)).Nodup := by
  induction as with
  | nil => exact List.pairwise_singleton _ _
  | cons b as ih =>
    rw [List.map_cons, List.nodup_cons] at h
    rw [put]
    split
    · next heq =>
      rw [List.map_cons, List.nodup_cons, ← heq]
      exact h
    · next hne =>
      rw [List.map_cons, List.nodup_cons]
      refine ⟨fun hmem => ?_, ih h.2⟩
      rcases name_mem_put hmem with heq | hmem
      · exact hne heq
      · exact h.1 hmem

theorem WellFormed.put {as : Attributes} (h : as.WellFormed) {a : Attribute} (ha : a.Typed) :
    (as.put a).WellFormed := by
  refine ⟨fun x hx => ?_, nodup_put h.distinct a⟩
  rcases mem_put hx with rfl | hx
  · exact ha
  · exact h.typed x hx

theorem wellFormed_nil : WellFormed [] where
  typed _ h := by cases h
  distinct := List.nodup_nil

end Attributes

/-! ### Restrictions -/

inductive Alternating : List Restriction → Prop where
  | single {r : Restriction} (hr : r.isConnective = false) : Alternating [r]
  | cons {r : Restriction} (hr : r.isConnective = false) (l : Location) (c : Connective)
      {rs : List Restriction} (hrs : Alternating rs) : Alternating (r :: .connective l c :: rs)

namespace Alternating

variable {rs rs' : List Restriction}

theorem append (h : Alternating rs) (l : Location) (c : Connective) (h' : Alternating rs') :
    Alternating (rs ++ .connective l c :: rs') := by
  induction h with
  | single hr => exact .cons hr l c h'
  | cons hr m d _ ih => exact .cons hr m d ih

theorem length_odd (h : Alternating rs) : rs.length % 2 = 1 := by
  induction h with
  | single => rfl
  | cons _ _ _ _ ih =>
    rw [List.length_cons, List.length_cons]
    omega

/-- Just the entries at odd places are connectives. -/
theorem isConnective_getElem (h : Alternating rs) :
    ∀ i, (hi : i < rs.length) → (rs[i].isConnective = true ↔ i % 2 = 1) := by
  induction h with
  | single hr =>
    intro i hi
    have hzero : i = 0 := by
      rw [List.length_singleton] at hi
      omega
    subst hzero
    simp [hr]
  | cons hr l c _ ih =>
    intro i hi
    rcases i with _ | _ | i
    · simp [hr]
    · simp [Restriction.isConnective]
    · rw [List.length_cons, List.length_cons] at hi
      have hrest := ih i (by omega)
      have hparity : (i + 1 + 1) % 2 = i % 2 := by omega
      rw [hparity]
      exact hrest

end Alternating

/-! ### Patterns -/

def Constraint.WellFormed : Constraint → Prop
  | .field c => Alternating c.restrictions
  | _ => True

def Access.Named : Access → Prop
  | .field _ name argument => name = "" → argument.isSome
  | .method .. => True

/-- A retrieval holds the text of its stretch. -/
structure Retrieval.WellFormed (text : String) (r : Retrieval) : Prop where
  slice : ∃ a b, r.location.start = some a ∧ r.location.stop = some b ∧
    r.text = Text.slice text a b
  chain : ∀ x ∈ r.accessor.chain, x.Named

mutual

inductive Pattern.WellFormed (text : String) : Pattern → Prop where
  | mk {p : Pattern} (constraints : ∀ c ∈ p.constraints, c.WellFormed)
      (source : Source.WellFormed text p.source) : Pattern.WellFormed text p

inductive Source.WellFormed (text : String) : Source → Prop where
  | workingMemory : Source.WellFormed text .workingMemory
  | retrieval {r : Retrieval} (h : r.WellFormed text) : Source.WellFormed text (.retrieval r)
  | accumulate (l : Location) {input : Pattern} (h : Pattern.WellFormed text input)
      (initCode actionCode resultCode : String) :
      Source.WellFormed text (.accumulate l input initCode actionCode resultCode)
  | collect (l : Location) {input : Pattern} (h : Pattern.WellFormed text input) :
      Source.WellFormed text (.collect l input)

end

/-! ### Conditions -/

/-- Conjunctions and disjunctions begin with their first operand, and universal groups before it. -/
inductive Condition.WellFormed (text : String) : Condition → Prop where
  | pattern {p : Pattern} (h : p.WellFormed text) : WellFormed text (.pattern p)
  | eval (l : Location) (code : String) : WellFormed text (.eval l code)
  | several {kind : Grouping} (hkind : kind = .and ∨ kind = .or) {l : Location}
      {first second : Condition} {others : List Condition} (hstart : l.start = first.location.start)
      (hoperands : ∀ c ∈ first :: second :: others, WellFormed text c) :
      WellFormed text (.group kind l (first :: second :: others))
  | single {kind : Grouping} (hkind : kind = .not ∨ kind = .exists_) (l : Location) {c : Condition}
      (h : WellFormed text c) : WellFormed text (.group kind l [c])
  | universal {l : Location} {base other : Pattern} {others : List Pattern}
      (hstart : ∃ a b, l.start = some a ∧ base.location.start = some b ∧ a < b)
      (hpatterns : ∀ p ∈ base :: other :: others, p.WellFormed text ∧ p.source = .workingMemory) :
      WellFormed text (.group .forall_ l ((base :: other :: others).map .pattern))

/-! ### Packages -/

structure Entry.WellFormed (text : String) (e : Entry) : Prop where
  conditions : ∀ b, e.block? = some b → ∀ c ∈ b.elements, c.WellFormed text
  attributes : e.attributes.WellFormed

structure Package.WellFormed (text : String) (p : Package) : Prop where
  templates : ∀ t ∈ p.templates, t.slots ≠ []
  rules : ∀ e ∈ p.rules, e.WellFormed text
  attributes : p.attributes.WellFormed

/-! ### Nodes -/

def Datum.field? : Datum → String → Option Datum
  | .node _ _ fields, key => fields.lookup key
  | _, _ => none

def Datum.Keyed (d : Datum) : Prop :=
  ∃ entries, d.field? "attributes" = some (.keyed entries) ∧ (entries.map (·.1)).Nodup ∧
    ∀ entry ∈ entries, entry.2.field? "name" = some (.text entry.1)

/-- Two lists in a record have the same length. -/
def Datum.Parallel (d : Datum) (key key' : String) : Prop :=
  ∃ items items', d.field? key = some (.list items) ∧ d.field? key' = some (.list items') ∧
    items.length = items'.length

def Grouping.Admits (operands : List Condition) : Grouping → Prop
  | .and | .or => 2 ≤ operands.length
  | .not | .exists_ => operands.length = 1
  | .forall_ => 2 ≤ operands.length ∧
      ∀ c ∈ operands, ∃ p, c = .pattern p ∧ p.source = .workingMemory

/-- What the users of a tree may rely on at a node. -/
def Node.WellFormed (text : String) (n : Node) : Prop :=
  match n with
  | .condition (.group kind _ operands) => kind.Admits operands
  | .constraint (.field c) => c.restrictions.length % 2 = 1 ∧
      ∀ i, (hi : i < c.restrictions.length) → (c.restrictions[i].isConnective = true ↔ i % 2 = 1)
  | .restriction (.literal ..) =>
      n.record.field? "is_enum" = some (.flag true) ↔
        n.record.field? "literal_type" = some (.text LiteralType.enum.name)
  | .access (.field _ name argument) => name = "" → argument.isSome
  | .source (.retrieval r) => ∃ a b, r.location.start = some a ∧ r.location.stop = some b ∧
      r.text = Text.slice text a b
  | .template t => t.slots ≠ []
  | .function _ => n.record.Parallel "parameter_types" "parameter_names"
  | .entry (.query _) => n.record.Parallel "parameter_types" "parameters" ∧
      n.record.field? "consequence" = some .null ∧ n.record.Keyed
  | .entry (.rule _) => (∃ code, n.record.field? "consequence" = some (.text code)) ∧ n.record.Keyed
  | .package _ => n.record.Keyed
  | .attribute a => a.Typed
  | _ => True

/-- The nodes of a rule or query apart from the root of its conditions. -/
def Entry.properNodes (e : Entry) : List Node :=
  .entry e :: (e.attributes.map .attribute ++
    (e.block?.map fun b => Condition.listNodes b.elements).getD [])

/-- The nodes of a package apart from the roots of the conditions of its rules and queries. -/
def Package.properNodes (p : Package) : List Node :=
  .package p :: (p.imports.map .import_ ++ p.functionImports.map .functionImport ++
    p.globals.map .global ++ p.functions.map .function ++
    p.templates.flatMap (fun t => .template t :: t.slots.map .slot) ++
    p.rules.flatMap Entry.properNodes ++ p.attributes.map .attribute)

theorem Entry.mem_nodes {e : Entry} {n : Node} (h : n ∈ e.nodes) :
    n ∈ e.properNodes ∨ ∃ b, e.block? = some b ∧ n = .condition b.condition := by
  rw [nodes_eq] at h
  unfold properNodes
  cases hblock : e.block? with
  | none =>
    rw [hblock] at h
    exact .inl h
  | some b =>
    rw [hblock] at h
    rcases List.mem_cons.1 h with rfl | h
    · exact .inl List.mem_cons_self
    · rcases List.mem_append.1 h with h | h
      · exact .inl (List.mem_cons_of_mem _ (List.mem_append_left _ h))
      · change n ∈ b.condition.nodes at h
        rw [Block.condition, Condition.nodes] at h
        rcases List.mem_cons.1 h with rfl | h
        · exact .inr ⟨b, rfl, rfl⟩
        · exact .inl (List.mem_cons_of_mem _ (List.mem_append_right _ h))

theorem Package.mem_nodes {p : Package} {n : Node} (h : n ∈ p.nodes) :
    n ∈ p.properNodes ∨ ∃ e ∈ p.rules, ∃ b, e.block? = some b ∧ n = .condition b.condition := by
  by_cases hentries : n ∈ p.rules.flatMap Entry.nodes
  · obtain ⟨e, he, hn⟩ := List.mem_flatMap.1 hentries
    rcases e.mem_nodes hn with hproper | hroot
    · have hmem : n ∈ p.rules.flatMap Entry.properNodes := List.mem_flatMap.2 ⟨e, he, hproper⟩
      unfold properNodes
      simp only [List.mem_cons, List.mem_append, hmem, or_true, true_or]
    · exact .inr ⟨e, he, hroot⟩
  · unfold nodes at h
    unfold properNodes
    simp only [List.mem_cons, List.mem_append, hentries, or_false] at h ⊢
    tauto

theorem Restriction.wellFormed_node (r : Restriction) : Node.WellFormed text (.restriction r) := by
  cases r with
  | literal l operator t type =>
    cases type <;>
      simp [Node.WellFormed, Node.record, record, Datum.field?, LiteralType.name, List.lookup_cons]
  | _ => trivial

theorem Access.Named.node {x : Access} (h : x.Named) : Node.WellFormed text (.access x) := by
  cases x with
  | field l name argument => exact h
  | method => trivial

theorem Constraint.WellFormed.nodes {c : Constraint} (h : c.WellFormed) :
    ∀ n ∈ Pattern.nodes.constraintNodes c, n.WellFormed text := by
  cases c with
  | field c =>
    have halternating : Alternating c.restrictions := h
    refine List.forall_mem_cons.2 ⟨⟨halternating.length_odd, halternating.isConnective_getElem⟩, ?_⟩
    exact List.forall_mem_map.2 fun r _ => r.wellFormed_node
  | binding => exact List.forall_mem_singleton.2 trivial
  | predicate => exact List.forall_mem_singleton.2 trivial

theorem Retrieval.WellFormed.nodes {r : Retrieval} (h : r.WellFormed text) :
    ∀ n ∈ Source.nodes (.retrieval r), n.WellFormed text := by
  rw [Source.nodes]
  refine List.forall_mem_cons.2 ⟨h.slice, List.forall_mem_cons.2 ⟨trivial, ?_⟩⟩
  exact List.forall_mem_map.2 fun x hx => (h.chain x hx).node

mutual

theorem Pattern.WellFormed.nodes : ∀ (p : Pattern), p.WellFormed text →
    ∀ n ∈ p.nodes, n.WellFormed text
  | ⟨location, objectType, name, constraints, source, left, right⟩, h => by
    obtain ⟨hconstraints, hsource⟩ := h
    rw [Pattern.nodes]
    refine List.forall_mem_cons.2 ⟨trivial, List.forall_mem_append.2 ⟨?_, ?_⟩⟩
    · intro n hn
      obtain ⟨c, hc, hn⟩ := List.mem_flatMap.1 hn
      exact (hconstraints c hc).nodes n hn
    · exact Source.WellFormed.nodes source hsource

theorem Source.WellFormed.nodes : ∀ (s : Source), s.WellFormed text →
    ∀ n ∈ s.nodes, n.WellFormed text
  | .workingMemory, _ => fun n hn => by cases hn
  | .retrieval r, h => by
    cases h with
    | retrieval h => exact h.nodes
  | .accumulate location input initCode actionCode resultCode, h => by
    cases h with
    | accumulate _ hinput =>
      rw [Source.nodes]
      exact List.forall_mem_cons.2 ⟨trivial, Pattern.WellFormed.nodes input hinput⟩
  | .collect location input, h => by
    cases h with
    | collect _ hinput =>
      rw [Source.nodes]
      exact List.forall_mem_cons.2 ⟨trivial, Pattern.WellFormed.nodes input hinput⟩

end

theorem Condition.WellFormed.admits {kind : Grouping} {l : Location} {operands : List Condition}
    (h : Condition.WellFormed text (.group kind l operands)) : kind.Admits operands := by
  generalize hc : Condition.group kind l operands = c at h
  cases h with
  | pattern => cases hc
  | eval => cases hc
  | several hkind =>
    cases hc
    rcases hkind with rfl | rfl <;> simp [Grouping.Admits]
  | single hkind =>
    cases hc
    rcases hkind with rfl | rfl <;> rfl
  | universal hstart hpatterns =>
    cases hc
    refine ⟨?_, fun c hmem => ?_⟩
    · simp
    · obtain ⟨p, hp, rfl⟩ := List.mem_map.1 hmem
      exact ⟨p, rfl, (hpatterns p hp).2⟩

theorem Condition.WellFormed.operands {kind : Grouping} {l : Location} {operands : List Condition}
    (h : Condition.WellFormed text (.group kind l operands)) :
    ∀ c ∈ operands, c.WellFormed text := by
  generalize hc : Condition.group kind l operands = c at h
  cases h with
  | pattern => cases hc
  | eval => cases hc
  | several _ _ hoperands =>
    cases hc
    exact hoperands
  | single _ _ hoperand =>
    cases hc
    exact List.forall_mem_singleton.2 hoperand
  | universal hstart hpatterns =>
    cases hc
    exact List.forall_mem_map.2 fun p hp => .pattern (hpatterns p hp).1

mutual

theorem Condition.WellFormed.nodes : ∀ (c : Condition), c.WellFormed text →
    ∀ n ∈ c.nodes, n.WellFormed text
  | .pattern p, h => by
    cases h with
    | pattern h =>
      rw [Condition.nodes]
      exact Pattern.WellFormed.nodes p h
  | .eval location code, h => by
    rw [Condition.nodes]
    exact List.forall_mem_singleton.2 trivial
  | .group kind location operands, h => by
    rw [Condition.nodes]
    exact List.forall_mem_cons.2 ⟨h.admits, Condition.WellFormed.listNodes operands h.operands⟩

theorem Condition.WellFormed.listNodes : ∀ (cs : List Condition), (∀ c ∈ cs, c.WellFormed text) →
    ∀ n ∈ Condition.listNodes cs, n.WellFormed text
  | [], _ => fun n hn => by cases hn
  | c :: cs, h => by
    obtain ⟨hc, hcs⟩ := List.forall_mem_cons.1 h
    rw [Condition.listNodes]
    exact List.forall_mem_append.2
      ⟨Condition.WellFormed.nodes c hc, Condition.WellFormed.listNodes cs hcs⟩

end

theorem Attributes.WellFormed.keyed {as : Attributes} (h : as.WellFormed) {d : Datum}
    (hd : d.field? "attributes" = some (Attributes.record as)) : d.Keyed := by
  refine ⟨_, hd, ?_, ?_⟩
  · have hnames : (as.map fun a => (a.name, a.record)).map (·.1) = as.map (·.name) := by
      rw [List.map_map]
      rfl
    rw [hnames]
    exact h.distinct
  · intro entry hentry
    obtain ⟨a, -, rfl⟩ := List.mem_map.1 hentry
    rfl

theorem Entry.WellFormed.nodes {e : Entry} (h : e.WellFormed text) :
    ∀ n ∈ e.properNodes, n.WellFormed text := by
  unfold properNodes
  refine List.forall_mem_cons.2 ⟨?_, List.forall_mem_append.2 ⟨?_, ?_⟩⟩
  · cases e with
    | rule r => exact ⟨⟨_, rfl⟩, h.attributes.keyed rfl⟩
    | query q =>
      refine ⟨⟨_, _, rfl, rfl, ?_⟩, rfl, h.attributes.keyed rfl⟩
      rw [List.length_map, List.length_map, List.length_map]
  · exact List.forall_mem_map.2 h.attributes.typed
  · cases hblock : e.block? with
    | none => exact fun n hn => by cases hn
    | some b => exact Condition.WellFormed.listNodes b.elements (h.conditions b hblock)

theorem Package.WellFormed.nodes {p : Package} (h : p.WellFormed text) :
    ∀ n ∈ p.properNodes, n.WellFormed text := by
  unfold properNodes
  refine List.forall_mem_cons.2 ⟨h.attributes.keyed rfl, ?_⟩
  simp only [List.forall_mem_append, List.forall_mem_map]
  refine ⟨⟨⟨⟨⟨⟨?_, ?_⟩, ?_⟩, ?_⟩, ?_⟩, ?_⟩, ?_⟩
  · exact fun _ _ => trivial
  · exact fun _ _ => trivial
  · exact fun _ _ => trivial
  · intro f _
    refine ⟨_, _, rfl, rfl, ?_⟩
    rw [List.length_map, List.length_map, List.length_map]
  · intro n hn
    obtain ⟨t, ht, hn⟩ := List.mem_flatMap.1 hn
    rcases List.mem_cons.1 hn with rfl | hn
    · exact h.templates t ht
    · obtain ⟨s, -, rfl⟩ := List.mem_map.1 hn
      trivial
  · intro n hn
    obtain ⟨e, he, hn⟩ := List.mem_flatMap.1 hn
    exact (h.rules e he).nodes n hn
  · exact h.attributes.typed

end Rulebook
