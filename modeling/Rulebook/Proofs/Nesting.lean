import Rulebook.Proofs.Locations

/-!
# Conditions are nested and in order

The conditions of a rule or query lie within it, and every part of a condition lies within the node
that it is a part of, whether the text is broken or not. Operands, restrictions and accesses follow
each other in the order of the text and do not overlap.
-/

namespace Rulebook

variable {frames : Nat} {text : String} {lo hi a b : Nat}

/-- A location lies within another. -/
def Location.Inside (inner outer : Location) : Prop :=
  ∃ a b c d, outer.start = some a ∧ outer.stop = some b ∧ inner.start = some c ∧
    inner.stop = some d ∧ a ≤ c ∧ c ≤ d ∧ d ≤ b

/-- A location begins before another one and does not overlap with it. -/
def Location.Before (l m : Location) : Prop :=
  ∃ a b c, l.start = some a ∧ l.stop = some b ∧ m.start = some c ∧ a < b ∧ b ≤ c

theorem Location.Covers.inside {l m : Location} {c d : Nat} (hl : l.Covers text c d)
    (hm : m.Covers text a b) (ha : a ≤ c) (hb : d ≤ b) : l.Inside m :=
  ⟨a, b, c, d, hm.start, hm.stop, hl.start, hl.stop, ha, Nat.le_of_lt hl.lt, hb⟩

namespace Node

def children : Node → List Node
  | .condition (.group _ _ operands) => operands.map .condition
  | .condition (.pattern p) =>
    p.constraints.map .constraint ++
      match p.source with
      | .workingMemory => []
      | written => [.source written]
  | .source (.retrieval r) => [.accessor r.accessor]
  | .source (.accumulate _ input _ _ _) => [.condition (.pattern input)]
  | .source (.collect _ input) => [.condition (.pattern input)]
  | .accessor x => x.chain.map .access
  | .constraint (.field c) => c.restrictions.map .restriction
  | _ => []

/-- The parts that stand one behind the other: operands, restrictions and accesses. -/
def sequence : Node → List Node
  | .condition (.group _ _ operands) => operands.map .condition
  | .accessor x => x.chain.map .access
  | .constraint (.field c) => c.restrictions.map .restriction
  | _ => []

def Parenthesised : Node → Prop
  | .condition (.pattern p) =>
    ∃ a b, p.location.start = some a ∧ p.location.stop = some b ∧ a ≤ p.leftParen ∧
      ∀ r, p.rightParen = some r → p.leftParen < r ∧ r < b
  | _ => True

structure Holds (n : Node) : Prop where
  inside : ∀ m ∈ n.children, m.location.Inside n.location
  ordered : n.sequence.Pairwise fun m m' => m.location.Before m'.location
  parenthesised : n.Parenthesised

end Node

theorem Node.Holds.leaf {n : Node} (hchildren : n.children = []) (hsequence : n.sequence = [])
    (h : n.Parenthesised) : n.Holds := by
  refine ⟨?_, ?_, h⟩
  · rw [hchildren]
    exact fun m hm => by cases hm
  · rw [hsequence]
    exact .nil

theorem Row.pairwise (text : String) {α : Type} {Q : Nat → Nat → α → Prop} {xs : List α}
    {f : α → Node} (h : Row Q lo hi xs) (hf : ∀ {a b x}, Q a b x → (f x).Laid text a b) :
    (xs.map f).Pairwise fun m m' => m.location.Before m'.location := by
  induction h with
  | nil => exact .nil
  | @cons _ a b _ x xs hle hlt hx hxs ih =>
    refine .cons (fun m hm => ?_) ih
    obtain ⟨y, hy, rfl⟩ := List.mem_map.1 hm
    obtain ⟨c, d, hc, -, -, hq⟩ := hxs.mem hy
    have hfx := (hf hx).location
    exact ⟨a, b, c, hfx.start, hfx.stop, (hf hq).location.start, hfx.lt, hc⟩

theorem Row.inside {α : Type} {Q : Nat → Nat → α → Prop} {xs : List α} {f : α → Node}
    (h : Row Q a b xs) (hf : ∀ {a b x}, Q a b x → (f x).Laid text a b) {l : Location}
    (hl : l.Covers text a b) : ∀ m ∈ xs.map f, m.location.Inside l := by
  intro m hm
  obtain ⟨c, d, hc, hd, hlaid⟩ := h.nodes hf m hm
  exact hlaid.location.inside hl hc hd

theorem Pattern.Laid.holds {p : Pattern} (h : p.Laid text a b) :
    Node.Holds (.condition (.pattern p)) := by
  cases h with
  | mk location constraints leftParen rightParen hc hd source =>
    refine ⟨?_, .nil, a, b, location.start, location.stop, leftParen, rightParen⟩
    rw [Node.children]
    refine List.forall_mem_append.2 ⟨?_, ?_⟩
    · intro m hm
      obtain ⟨c, hmem, rfl⟩ := List.mem_map.1 hm
      obtain ⟨a', b', ha, hb, hlaid⟩ := constraints c hmem
      exact hlaid.location.inside location ha hb
    · intro m hm
      cases hs : p.source with
      | workingMemory => rw [hs] at hm; cases hm
      | _ =>
        rw [hs] at hm source
        rw [List.mem_singleton.1 hm]
        exact (source.location rfl).inside location hc hd

theorem Node.Laid.holds {n : Node} (h : n.Laid text a b) : n.Holds := by
  cases n with
  | condition c =>
    cases h with
    | pattern h => exact h.holds
    | eval h code => exact .leaf rfl rfl trivial
    | group kind h hrow =>
      exact ⟨hrow.inside (f := .condition) id h, Row.pairwise text (f := .condition) hrow id,
        trivial⟩
  | source s =>
    cases h.2 with
    | workingMemory => exact .leaf rfl rfl trivial
    | retrieval hr =>
      refine ⟨fun m hm => ?_, .nil, trivial⟩
      rw [List.mem_singleton.1 hm]
      exact hr.accessor.inside hr.location (Nat.le_refl a) (Nat.le_refl b)
    | accumulate hl hc hd hinput =>
      refine ⟨fun m hm => ?_, .nil, trivial⟩
      rw [List.mem_singleton.1 hm]
      exact hinput.location.inside hl hc hd
    | collect hl hc hd hinput =>
      refine ⟨fun m hm => ?_, .nil, trivial⟩
      rw [List.mem_singleton.1 hm]
      exact hinput.location.inside hl hc hd
  | accessor x =>
    exact ⟨h.2.inside (f := .access) id h.1, Row.pairwise text (f := .access) h.2 id, trivial⟩
  | constraint c =>
    cases h with
    | field h field hrs =>
      exact ⟨hrs.inside (f := .restriction) id h, Row.pairwise text (f := .restriction) hrs id,
        trivial⟩
    | binding => exact .leaf rfl rfl trivial
    | predicate => exact .leaf rfl rfl trivial
  | _ => exact .leaf rfl rfl trivial

theorem Block.Laid.holds {block : Block} (h : block.Laid text lo hi) :
    ∀ n ∈ block.condition.nodes, n.Holds := by
  cases h with
  | empty hstart hstop hlo hhi =>
    intro n hn
    rw [Block.condition, Condition.nodes] at hn
    rw [List.mem_singleton.1 hn]
    exact .leaf rfl rfl trivial
  | elements hne h =>
    obtain ⟨a, b, -, -, h⟩ := h
    intro n hn
    obtain ⟨c, d, -, -, hlaid⟩ := Condition.Laid.nodes _ h n hn
    exact hlaid.holds

theorem Block.Laid.inside {block : Block} (h : block.Laid text a b) {l : Location}
    (hl : l.Covers text a b) : block.location.Inside l := by
  cases h with
  | @empty m c hstart hstop hlo hhi =>
    exact ⟨a, b, c, c, hl.start, hl.stop, hstart, hstop, hlo, Nat.le_refl c, hhi⟩
  | elements hne h =>
    obtain ⟨c, d, hc, hd, h⟩ := h
    exact Location.Covers.inside (Condition.Laid.location h) hl hc hd

/-- The conditions of every rule and query lie within it, and each of their nodes holds its parts,
those in sequence in the order of the text. -/
theorem parse_conditions_nested (settings : Settings) (sourceName text : String) {r : ParseResult}
    (h : parse frames settings sourceName text = .ok r) :
    ∀ e ∈ r.package.rules, ∀ block, e.block? = some block →
      block.location.Inside e.location ∧
      ∀ n ∈ block.condition.nodes,
        (∀ m ∈ n.children, m.location.Inside n.location) ∧
        (n.sequence.Pairwise fun m m' => m.location.Before m'.location) ∧
        ∀ p, n = .condition (.pattern p) →
          ∃ a b, p.location.start = some a ∧ p.location.stop = some b ∧ a ≤ p.leftParen ∧
            ∀ right, p.rightParen = some right → p.leftParen < right ∧ right < b := by
  intro e he block hblock
  obtain ⟨a, b, -, -, hlaid⟩ := (parse_laid settings sourceName text h).1.rules e he
  have hb := hlaid.block block hblock
  refine ⟨hb.inside hlaid.location, fun n hn => ?_⟩
  obtain ⟨hinside, hordered, hparens⟩ := hb.holds n hn
  exact ⟨hinside, hordered, fun p hp => by subst hp; exact hparens⟩

theorem parse_conditions_nested_broken :
    ∃ r, parse 900 {} "orders"
      "rule B when not (Order(a > 1 || < 0, b c) and P() from x.y[0].z) eval(" =
        .ok r ∧
      (r.package.rules.filterMap (·.block?)).map (·.condition.nodes.length) = [13] ∧
      ∀ e ∈ r.package.rules, ∀ block, e.block? = some block →
        block.location.Inside e.location ∧
        ∀ n ∈ block.condition.nodes,
          (∀ m ∈ n.children, m.location.Inside n.location) ∧
          (n.sequence.Pairwise fun m m' => m.location.Before m'.location) ∧
          ∀ p, n = .condition (.pattern p) →
            ∃ a b, p.location.start = some a ∧ p.location.stop = some b ∧ a ≤ p.leftParen ∧
              ∀ right, p.rightParen = some right → p.leftParen < right ∧ right < b := by
  have hlengths : (parse 900 {} "orders"
      "rule B when not (Order(a > 1 || < 0, b c) and P() from x.y[0].z) eval(").toOption.map
      (fun r => (r.package.rules.filterMap (·.block?)).map (·.condition.nodes.length)) =
      some [13] := by
    decide +kernel
  cases h : parse 900 {} "orders"
      "rule B when not (Order(a > 1 || < 0, b c) and P() from x.y[0].z) eval(" with
  | error f => rw [h] at hlengths; cases hlengths
  | ok r =>
    rw [h] at hlengths
    exact ⟨r, rfl, Option.some.inj hlengths, parse_conditions_nested {} "orders" _ h⟩

end Rulebook
