import Rulebook.Parse
import Rulebook.Proofs.LayoutUnit

/-!
# Every node is located

Whatever the text, every node of the package that is read from it begins and ends within the text,
and its line and column are those of the offset where it begins. The one exception to the latter is
the root of a rule or query without conditions, which stands behind the token before it and bears
that token's line and column.
-/

namespace Rulebook

variable {frames : Nat}

variable {text : String} {lo hi a b : Nat}

/-! ### The nodes of well-laid trees -/

def Node.Laid (text : String) (a b : Nat) : Node → Prop
  | .condition c => c.Laid text a b
  | .source s => s.location?.isSome ∧ s.Laid text a b
  | .accessor x => x.location.Covers text a b ∧ Row (Access.Laid text) a b x.chain
  | .access x => x.Laid text a b
  | .constraint c => c.Laid text a b
  | .restriction r => r.Laid text a b
  | n => n.location.Covers text a b

theorem Node.Laid.location {n : Node} (h : n.Laid text a b) : n.location.Covers text a b := by
  cases n with
  | condition c => exact Condition.Laid.location h
  | source s =>
    obtain ⟨l, hl⟩ := Option.isSome_iff_exists.1 h.1
    show (s.location?.getD {}).Covers text a b
    rw [hl]
    exact h.2.location hl
  | accessor x => exact h.1
  | constraint c => exact Constraint.Laid.location h
  | _ => exact h

theorem Row.nodes {α : Type} {Q : Nat → Nat → α → Prop} {xs : List α} {f : α → Node}
    (h : Row Q lo hi xs) (hf : ∀ {a b x}, Q a b x → (f x).Laid text a b) :
    ∀ n ∈ xs.map f, Between (Node.Laid text) lo hi n := by
  intro n hn
  obtain ⟨x, hx, rfl⟩ := List.mem_map.1 hn
  obtain ⟨a, b, ha, -, hb, hq⟩ := h.mem hx
  exact ⟨a, b, ha, hb, hf hq⟩

theorem Constraint.Laid.nodes {c : Constraint} (h : c.Laid text a b) :
    ∀ n ∈ Pattern.nodes.constraintNodes c, Between (Node.Laid text) a b n := by
  have hself : Between (Node.Laid text) a b (.constraint c) :=
    ⟨a, b, Nat.le_refl a, Nat.le_refl b, h⟩
  cases h with
  | field location field hrs =>
    exact List.forall_mem_cons.2 ⟨hself, hrs.nodes (f := .restriction) id⟩
  | binding => exact List.forall_mem_singleton.2 hself
  | predicate => exact List.forall_mem_singleton.2 hself

theorem Retrieval.Laid.nodes {r : Retrieval} (h : r.Laid text a b) :
    ∀ n ∈ Source.nodes (.retrieval r), Between (Node.Laid text) a b n := by
  rw [Source.nodes]
  refine List.forall_mem_cons.2 ⟨⟨a, b, Nat.le_refl a, Nat.le_refl b, rfl, .retrieval h⟩,
    List.forall_mem_cons.2 ⟨⟨a, b, Nat.le_refl a, Nat.le_refl b, h.accessor, h.chain⟩, ?_⟩⟩
  exact h.chain.nodes (f := .access) id

mutual

theorem Pattern.Laid.nodes : ∀ (p : Pattern) {a b : Nat}, p.Laid text a b →
    ∀ n ∈ p.nodes, Between (Node.Laid text) a b n
  | ⟨location, objectType, name, constraints, source, left, right⟩, a, b, h => by
    have hself := h
    obtain ⟨hlocation, hconstraints, hleft, hright, hc, hd, hsource⟩ := h
    rw [Pattern.nodes]
    refine List.forall_mem_cons.2
      ⟨⟨a, b, Nat.le_refl a, Nat.le_refl b, .pattern hself⟩, List.forall_mem_append.2 ⟨?_, ?_⟩⟩
    · intro n hn
      obtain ⟨c, hc, hn⟩ := List.mem_flatMap.1 hn
      obtain ⟨a', b', ha, hb, hlaid⟩ := hconstraints c hc
      exact (hlaid.nodes n hn).weaken ha hb
    · exact fun n hn => (Source.Laid.nodes source hsource n hn).weaken hc hd

theorem Source.Laid.nodes : ∀ (s : Source) {a b : Nat}, s.Laid text a b →
    ∀ n ∈ s.nodes, Between (Node.Laid text) a b n
  | .workingMemory, _, _, _ => fun n hn => by cases hn
  | .retrieval r, _, _, h => by
    cases h with
    | retrieval h => exact h.nodes
  | .accumulate location input initCode actionCode resultCode, a, b, h => by
    have hself := h
    cases h with
    | accumulate _ hc hd hinput =>
      rw [Source.nodes]
      exact List.forall_mem_cons.2 ⟨⟨a, b, Nat.le_refl a, Nat.le_refl b, rfl, hself⟩,
        fun n hn => (Pattern.Laid.nodes input hinput n hn).weaken hc hd⟩
  | .collect location input, a, b, h => by
    have hself := h
    cases h with
    | collect _ hc hd hinput =>
      rw [Source.nodes]
      exact List.forall_mem_cons.2 ⟨⟨a, b, Nat.le_refl a, Nat.le_refl b, rfl, hself⟩,
        fun n hn => (Pattern.Laid.nodes input hinput n hn).weaken hc hd⟩

end

mutual

theorem Condition.Laid.nodes : ∀ (c : Condition) {a b : Nat}, c.Laid text a b →
    ∀ n ∈ c.nodes, Between (Node.Laid text) a b n
  | .pattern p, a, b, h => by
    cases h with
    | pattern h =>
      rw [Condition.nodes]
      exact Pattern.Laid.nodes p h
  | .eval location code, a, b, h => by
    rw [Condition.nodes]
    exact List.forall_mem_singleton.2 ⟨a, b, Nat.le_refl a, Nat.le_refl b, h⟩
  | .group kind location operands, a, b, h => by
    have hself := h
    cases h with
    | group _ _ hrow =>
      rw [Condition.nodes]
      exact List.forall_mem_cons.2 ⟨⟨a, b, Nat.le_refl a, Nat.le_refl b, hself⟩,
        Condition.Laid.listNodes operands hrow⟩

theorem Condition.Laid.listNodes : ∀ (cs : List Condition) {lo hi : Nat},
    Row (Condition.Laid text) lo hi cs →
    ∀ n ∈ Condition.listNodes cs, Between (Node.Laid text) lo hi n
  | [], _, _, _ => fun n hn => by cases hn
  | c :: cs, lo, hi, h => by
    cases h with
    | cons hle hlt hc hcs =>
      rw [Condition.listNodes]
      exact List.forall_mem_append.2
        ⟨fun n hn => (Condition.Laid.nodes c hc n hn).weaken hle hcs.le,
          fun n hn => (Condition.Laid.listNodes cs hcs n hn).weaken (by omega) (Nat.le_refl hi)⟩

end

/-! ### Packages -/

def Location.WithinText (text : String) (l : Location) : Prop :=
  ∃ a b, l.start = some a ∧ l.stop = some b ∧ a ≤ b ∧ b ≤ text.length

/-- The line and the column are those of the start. -/
def Location.Placed (text : String) (l : Location) : Prop :=
  ∃ a, l.start = some a ∧ l.line = some (lineAt text a) ∧ l.column = some (columnAt text a)

/-- A rule or query has conditions, but none of them. -/
def Entry.HasEmptyBlock (e : Entry) (b : Block) : Prop := e.block? = some b ∧ b.elements = []

theorem Location.LiesIn.withinText {l : Location} (h : l.LiesIn text) :
    l.WithinText text ∧ l.Placed text := by
  obtain ⟨a, b, -, hb, h⟩ := h
  exact ⟨⟨a, b, h.start, h.stop, Nat.le_of_lt h.lt, hb⟩, a, h.start, h.line, h.column⟩

theorem Entry.nodes_eq (e : Entry) : e.nodes =
    .entry e :: (e.attributes.map .attribute ++ (e.block?.map (·.condition.nodes)).getD []) := by
  cases e with
  | rule r => cases hr : r.conditions <;> simp [Entry.nodes, Entry.block?, hr]
  | query q => cases hq : q.conditions <;> simp [Entry.nodes, Entry.block?, hq]

def Node.Located (text : String) (p : Package) (n : Node) : Prop :=
  n.location.WithinText text ∧
    ((∀ e ∈ p.rules, ∀ b, e.HasEmptyBlock b → n ≠ .condition b.condition) → n.location.Placed text)

theorem Node.located_of_liesIn {p : Package} {n : Node} (h : n.location.LiesIn text) :
    n.Located text p :=
  ⟨h.withinText.1, fun _ => h.withinText.2⟩

theorem Node.located_of_laid {p : Package} {n : Node} (hhi : hi ≤ text.length)
    (h : Between (Node.Laid text) lo hi n) : n.Located text p := by
  obtain ⟨a, b, -, hb, h⟩ := h
  exact located_of_liesIn ⟨a, b, Nat.zero_le a, Nat.le_trans hb hhi, h.location⟩

theorem Block.located {p : Package} {e : Entry} (he : e ∈ p.rules) {block : Block}
    (hblock : e.block? = some block) (h : block.Laid text lo hi) (hhi : hi ≤ text.length) :
    ∀ n ∈ block.condition.nodes, n.Located text p := by
  cases h with
  | @empty l a hstart hstop _ ha =>
    intro n hn
    obtain rfl : n = .condition (Block.condition ⟨l, []⟩) := by
      rw [Block.condition, Condition.nodes] at hn
      exact List.mem_singleton.1 hn
    exact ⟨⟨a, a, hstart, hstop, Nat.le_refl a, Nat.le_trans ha hhi⟩,
      fun hroot => absurd rfl (hroot e he ⟨l, []⟩ ⟨hblock, rfl⟩)⟩
  | elements hne h =>
    obtain ⟨a, b, -, hb, h⟩ := h
    exact fun n hn => Node.located_of_laid (Nat.le_trans hb hhi) (Condition.Laid.nodes _ h n hn)

theorem Entry.located {p : Package} {e : Entry} (he : e ∈ p.rules)
    (h : Between (Entry.Laid text) 0 text.length e) : ∀ n ∈ e.nodes, n.Located text p := by
  obtain ⟨a, b, -, hb, h⟩ := h
  rw [Entry.nodes_eq]
  refine List.forall_mem_cons.2 ⟨Node.located_of_liesIn ⟨a, b, Nat.zero_le a, hb, h.location⟩,
    List.forall_mem_append.2 ⟨?_, ?_⟩⟩
  · exact List.forall_mem_map.2 fun x hx => Node.located_of_liesIn (h.attributes x hx)
  · cases hblock : e.block? with
    | none => exact fun n hn => by cases hn
    | some block => exact Block.located he hblock (h.block block hblock) hb

theorem Package.located {p : Package} (h : p.Laid text) (hp : p.location.WithinText text) :
    ∀ n ∈ p.nodes, n.Located text p := by
  unfold Package.nodes
  refine List.forall_mem_cons.2 ⟨⟨hp, fun _ => ?_⟩, ?_⟩
  · obtain ⟨a, -, hbegins⟩ := h.location
    exact ⟨a, hbegins⟩
  · simp only [List.forall_mem_append, List.forall_mem_map]
    refine ⟨⟨⟨⟨⟨⟨?_, ?_⟩, ?_⟩, ?_⟩, ?_⟩, ?_⟩, ?_⟩
    · exact fun i hi => Node.located_of_liesIn (h.imports i hi)
    · exact fun i hi => Node.located_of_liesIn (h.functionImports i hi)
    · exact fun g hg => Node.located_of_liesIn (h.globals g hg)
    · exact fun f hf => Node.located_of_liesIn (h.functions f hf)
    · intro n hn
      obtain ⟨t, ht, hn⟩ := List.mem_flatMap.1 hn
      have htemplate := h.templates t ht
      rcases List.mem_cons.1 hn with rfl | hn
      · exact Node.located_of_liesIn htemplate.location
      · obtain ⟨s, hs, rfl⟩ := List.mem_map.1 hn
        exact Node.located_of_liesIn (htemplate.slots s hs)
    · intro n hn
      obtain ⟨e, he, hn⟩ := List.mem_flatMap.1 hn
      exact Entry.located he (h.rules e he) n hn
    · exact fun a ha => Node.located_of_liesIn (h.attributes a ha)

/-! ### Parsed texts -/

theorem parse_laid (settings : Settings) (sourceName text : String) {r : ParseResult}
    (h : parse frames settings sourceName text = .ok r) :
    r.package.Laid text ∧ r.package.location.WithinText text := by
  obtain ⟨t, hunit, -⟩ := exists_unit h
  exact Parser.compilationUnit_laid (idle_ofText frames settings sourceName text)
    (Cursor.over_ofTokens settings.hashComments text) rfl hunit

/-- Every node of the package of a text has both its ends within the text, and its line and column
are those of its start, unless it is the root of a rule or query without conditions. -/
theorem parse_nodes_located (settings : Settings) (sourceName text : String) {r : ParseResult}
    (h : parse frames settings sourceName text = .ok r) :
    ∀ n ∈ r.package.nodes,
      (∃ a b, n.location.start = some a ∧ n.location.stop = some b ∧ a ≤ b ∧ b ≤ text.length) ∧
      ((∀ e ∈ r.package.rules, ∀ b, e.HasEmptyBlock b → n ≠ .condition b.condition) →
        ∃ a, n.location.start = some a ∧ n.location.line = some (lineAt text a) ∧
          n.location.column = some (columnAt text a)) := by
  obtain ⟨hlaid, hlocation⟩ := parse_laid settings sourceName text h
  exact Package.located hlaid hlocation

theorem parse_nodes_located_broken :
    ∃ r, parse 900 {} "orders" "rule A when end\nrule B when\n  Order(a > 1, b ==\nend" = .ok r ∧
      r.package.nodes.length = 10 ∧
      ∀ n ∈ r.package.nodes,
        (∃ a b, n.location.start = some a ∧ n.location.stop = some b ∧ a ≤ b ∧
          b ≤ "rule A when end\nrule B when\n  Order(a > 1, b ==\nend".length) ∧
        ((∀ e ∈ r.package.rules, ∀ b, e.HasEmptyBlock b → n ≠ .condition b.condition) →
          ∃ a, n.location.start = some a ∧
            n.location.line =
              some (lineAt "rule A when end\nrule B when\n  Order(a > 1, b ==\nend" a) ∧
            n.location.column =
              some (columnAt "rule A when end\nrule B when\n  Order(a > 1, b ==\nend" a)) := by
  have hlength :
      (parse 900 {} "orders" "rule A when end\nrule B when\n  Order(a > 1, b ==\nend").toOption.map
      (·.package.nodes.length) = some 10 := by
    decide +kernel
  cases h : parse 900 {} "orders" "rule A when end\nrule B when\n  Order(a > 1, b ==\nend" with
  | error f => rw [h] at hlength; cases hlength
  | ok r =>
    rw [h] at hlength
    exact ⟨r, rfl, Option.some.inj hlength, parse_nodes_located {} "orders" _ h⟩

end Rulebook
