import Rulebook.Proofs.Offsets
import Rulebook.Tree.Node

/-!
# Well-laid trees

A tree is well laid in a text if each of its nodes covers a stretch of the text that is not empty,
on the line and at the column where the stretch begins, and the parts of a node lie within its
stretch. Operands of groups, restrictions and accesses stand in a row: each begins where the one
before it ends, or further on.
-/

namespace Rulebook

variable {text : String}

/-! ### Stretches of a text -/

/-- The location of the stretch from one offset to another. -/
structure Location.Covers (text : String) (a b : Nat) (l : Location) : Prop where
  start : l.start = some a
  stop : l.stop = some b
  lt : a < b
  line : l.line = some (lineAt text a)
  column : l.column = some (columnAt text a)

def Between {α : Type} (Q : Nat → Nat → α → Prop) (lo hi : Nat) (x : α) : Prop :=
  ∃ a b, lo ≤ a ∧ b ≤ hi ∧ Q a b x

/-- Things that stand one behind the other between two offsets. -/
inductive Row {α : Type} (Q : Nat → Nat → α → Prop) : Nat → Nat → List α → Prop where
  | nil {lo hi : Nat} (h : lo ≤ hi) : Row Q lo hi []
  | cons {lo a b hi : Nat} {x : α} {xs : List α} (hle : lo ≤ a) (hlt : a < b) (hx : Q a b x)
      (hxs : Row Q b hi xs) : Row Q lo hi (x :: xs)

section Rows

variable {α : Type} {Q : Nat → Nat → α → Prop} {lo lo' m hi hi' : Nat} {x : α} {xs ys : List α}

theorem Between.weaken (h : Between Q lo hi x) (hlo : lo' ≤ lo) (hhi : hi ≤ hi') :
    Between Q lo' hi' x := by
  obtain ⟨a, b, ha, hb, hx⟩ := h
  exact ⟨a, b, Nat.le_trans hlo ha, Nat.le_trans hb hhi, hx⟩

namespace Row

theorem le (h : Row Q lo hi xs) : lo ≤ hi := by
  induction h with
  | nil h => exact h
  | cons hle hlt _ _ ih => omega

theorem lower (h : Row Q lo hi xs) (hlo : lo' ≤ lo) : Row Q lo' hi xs := by
  cases h with
  | nil h => exact .nil (Nat.le_trans hlo h)
  | cons hle hlt hx hxs => exact .cons (Nat.le_trans hlo hle) hlt hx hxs

theorem upper (h : Row Q lo hi xs) (hhi : hi ≤ hi') : Row Q lo hi' xs := by
  induction h with
  | nil h => exact .nil (Nat.le_trans h hhi)
  | cons hle hlt hx _ ih => exact .cons hle hlt hx (ih hhi)

theorem append (h : Row Q lo m xs) (h' : Row Q m hi ys) : Row Q lo hi (xs ++ ys) := by
  induction h with
  | nil h => exact h'.lower h
  | cons hle hlt hx _ ih => exact .cons hle hlt hx (ih h')

theorem snoc {a b : Nat} (h : Row Q lo m xs) (ha : m ≤ a) (hab : a < b) (hx : Q a b x) :
    Row Q lo b (xs ++ [x]) :=
  h.append (.cons ha hab hx (.nil (Nat.le_refl b)))

theorem append_singleton_iff :
    Row Q lo hi (xs ++ [x]) ↔ ∃ a b, Row Q lo a xs ∧ a < b ∧ b ≤ hi ∧ Q a b x := by
  constructor
  · intro h
    induction xs generalizing lo with
    | nil =>
      obtain _ | ⟨hle, hlt, hx, hnil⟩ := h
      exact ⟨_, _, .nil hle, hlt, hnil.le, hx⟩
    | cons y ys ih =>
      obtain _ | ⟨hle, hlt, hy, hys⟩ := h
      obtain ⟨a, b, hrow, hab, hhi, hx⟩ := ih hys
      exact ⟨a, b, .cons hle hlt hy hrow, hab, hhi, hx⟩
  · rintro ⟨a, b, hrow, hlt, hhi, hx⟩
    exact hrow.append (.cons (Nat.le_refl a) hlt hx (.nil hhi))

theorem mem (h : Row Q lo hi xs) (hx : x ∈ xs) : ∃ a b, lo ≤ a ∧ a < b ∧ b ≤ hi ∧ Q a b x := by
  induction h with
  | nil h => cases hx
  | cons hle hlt hy hys ih =>
    rcases List.mem_cons.1 hx with rfl | hx
    · exact ⟨_, _, hle, hlt, hys.le, hy⟩
    · obtain ⟨a, b, ha, hab, hb, hq⟩ := ih hx
      exact ⟨a, b, by omega, hab, hb, hq⟩

theorem map {β : Type} {R : Nat → Nat → β → Prop} {f : α → β} (h : Row Q lo hi xs)
    (hf : ∀ {a b x}, Q a b x → R a b (f x)) : Row R lo hi (xs.map f) := by
  induction h with
  | nil h => exact .nil h
  | cons hle hlt hx _ ih => exact .cons hle hlt (hf hx) ih

end Row

theorem Row.tight {last : α} (h : Row Q lo hi xs) (hx : xs.head? = some x)
    (hlast : xs.getLast? = some last) :
    ∃ a b a' b', lo ≤ a ∧ b ≤ hi ∧ a < b ∧ Row Q a b xs ∧ Q a b' x ∧ Q a' b last := by
  cases h with
  | nil => cases hx
  | @cons _ a b' _ y ys hle hlt hy hys =>
    obtain rfl : y = x := Option.some.inj hx
    obtain rfl | ⟨zs, z, rfl⟩ := List.eq_nil_or_concat ys
    · obtain rfl : y = last := Option.some.inj hlast
      exact ⟨a, b', a, b', hle, hys.le, hlt, .cons (Nat.le_refl a) hlt hy (.nil (Nat.le_refl b')),
        hy, hy⟩
    · rw [List.concat_eq_append, ← List.cons_append, List.getLast?_concat] at hlast
      obtain rfl : z = last := Option.some.inj hlast
      rw [List.concat_eq_append] at hys ⊢
      obtain ⟨c, b, hzs, hcb, hb, hz⟩ := append_singleton_iff.1 hys
      have hrow : Row Q b' b (zs ++ [z]) :=
        append_singleton_iff.2 ⟨c, b, hzs, hcb, Nat.le_refl b, hz⟩
      have hle' := hrow.le
      exact ⟨a, b, c, b', hle, hb, by omega, .cons (Nat.le_refl a) hlt hy hrow, hy, hz⟩

end Rows

namespace Location

variable {a b c d : Nat} {l m : Location}

abbrev Lies (text : String) : Nat → Nat → Location → Prop := Between (Covers text)

/-- From the start of one stretch to the end of another. -/
theorem Covers.extended (hl : l.Covers text a c) (hm : m.Covers text d b) (h : a < b) :
    Covers text a b { l with stop := m.stop } :=
  ⟨hl.start, hm.stop, h, hl.line, hl.column⟩

theorem Covers.closeAt (hl : l.Covers text a b) (h : a ≤ c) (h' : a < c) :
    (l.closeAt (some c)).Covers text a c := by
  refine ⟨hl.start, ?_, h', hl.line, hl.column⟩
  show some (max c (l.start.getD 0)) = some c
  rw [hl.start, Option.getD_some, Nat.max_eq_left h]

end Location

theorem Token.StandsIn.covers {t : Token} (ht : t.StandsIn text) {b : Nat} (h : t.start < b) :
    ((Location.ofToken t).closeAt (some b)).Covers text t.start b := by
  refine ⟨rfl, ?_, h, congrArg some ht.line, congrArg some ht.column⟩
  show some (max b t.start) = some b
  rw [Nat.max_eq_left (Nat.le_of_lt h)]

/-! ### Patterns -/

def Restriction.Laid (text : String) (a b : Nat) (r : Restriction) : Prop :=
  r.location.Covers text a b

def Access.Laid (text : String) (a b : Nat) (x : Access) : Prop := x.location.Covers text a b

inductive Constraint.Laid (text : String) (a b : Nat) : Constraint → Prop where
  | field {l : Location} (h : l.Covers text a b) (field : String) {rs : List Restriction}
      (hrs : Row (Restriction.Laid text) a b rs) : Laid text a b (.field ⟨l, field, rs⟩)
  | binding {l : Location} (h : l.Covers text a b) (field name : String) :
      Laid text a b (.binding l field name)
  | predicate {l : Location} (h : l.Covers text a b) (code : String)
      (field declaration : Option String) : Laid text a b (.predicate l code field declaration)

structure Retrieval.Laid (text : String) (a b : Nat) (r : Retrieval) : Prop where
  location : r.location.Covers text a b
  accessor : r.accessor.location.Covers text a b
  chain : Row (Access.Laid text) a b r.accessor.chain

mutual

inductive Pattern.Laid (text : String) : Nat → Nat → Pattern → Prop where
  | mk {a b c d : Nat} {p : Pattern} (location : p.location.Covers text a b)
      (constraints : ∀ c ∈ p.constraints, Between (Constraint.Laid text) a b c)
      (leftParen : a ≤ p.leftParen)
      (rightParen : ∀ r, p.rightParen = some r → p.leftParen < r ∧ r < b)
      (hc : a ≤ c) (hd : d ≤ b) (source : Source.Laid text c d p.source) : Pattern.Laid text a b p

inductive Source.Laid (text : String) : Nat → Nat → Source → Prop where
  | workingMemory {a b : Nat} : Source.Laid text a b .workingMemory
  | retrieval {a b : Nat} {r : Retrieval} (h : r.Laid text a b) :
      Source.Laid text a b (.retrieval r)
  | accumulate {a b c d : Nat} {l : Location} (h : l.Covers text a b) {input : Pattern}
      (hc : a ≤ c) (hd : d ≤ b) (hinput : Pattern.Laid text c d input)
      (initCode actionCode resultCode : String) :
      Source.Laid text a b (.accumulate l input initCode actionCode resultCode)
  | collect {a b c d : Nat} {l : Location} (h : l.Covers text a b) {input : Pattern}
      (hc : a ≤ c) (hd : d ≤ b) (hinput : Pattern.Laid text c d input) :
      Source.Laid text a b (.collect l input)

end

theorem Constraint.Laid.location {a b : Nat} {c : Constraint} (h : c.Laid text a b) :
    c.location.Covers text a b := by
  cases h <;> assumption

theorem Pattern.Laid.location {a b : Nat} {p : Pattern} (h : p.Laid text a b) :
    p.location.Covers text a b := by
  cases h; assumption

theorem Source.Laid.location {a b : Nat} {s : Source} (h : s.Laid text a b) {l : Location}
    (hl : s.location? = some l) : l.Covers text a b := by
  cases h <;> cases hl
  · next h => exact h.location
  · assumption
  · assumption

/-! ### Conditions -/

inductive Condition.Laid (text : String) : Nat → Nat → Condition → Prop where
  | pattern {a b : Nat} {p : Pattern} (h : p.Laid text a b) : Laid text a b (.pattern p)
  | eval {a b : Nat} {l : Location} (h : l.Covers text a b) (code : String) :
      Laid text a b (.eval l code)
  | group (kind : Grouping) {a b : Nat} {l : Location} (h : l.Covers text a b)
      {operands : List Condition} (hoperands : Row (Laid text) a b operands) :
      Laid text a b (.group kind l operands)

theorem Condition.Laid.location {a b : Nat} {c : Condition} (h : c.Laid text a b) :
    c.location.Covers text a b := by
  cases h with
  | pattern h => exact h.location
  | eval h => exact h
  | group _ h => exact h

theorem Row.add {lo m m' hi : Nat} {cs : List Condition} {c : Condition}
    (h : Row (Condition.Laid text) lo m cs) (hm : m ≤ m')
    (hc : Between (Condition.Laid text) m' hi c) : Row (Condition.Laid text) lo hi (cs ++ [c]) := by
  obtain ⟨a, b, ha, hb, hc⟩ := hc
  exact (h.snoc (Nat.le_trans hm ha) hc.location.lt hc).upper hb

theorem Row.group {lo hi : Nat} {cs : List Condition} {first last : Condition}
    (h : Row (Condition.Laid text) lo hi cs) (hfirst : cs.head? = some first)
    (hlast : cs.getLast? = some last) (kind : Grouping) :
    Between (Condition.Laid text) lo hi
      (.group kind { first.location with stop := last.location.stop } cs) := by
  obtain ⟨a, b, a', b', ha, hb, hab, hrow, hx, hy⟩ := h.tight hfirst hlast
  exact ⟨a, b, ha, hb, .group kind (hx.location.extended hy.location hab) hrow⟩

/-- A block lies between two offsets; without elements it is a place there. -/
inductive Block.Laid (text : String) (lo hi : Nat) : Block → Prop where
  | empty {l : Location} {a : Nat} (hstart : l.start = some a) (hstop : l.stop = some a)
      (hlo : lo ≤ a) (hhi : a ≤ hi) : Laid text lo hi ⟨l, []⟩
  | elements {b : Block} (hne : b.elements ≠ [])
      (h : Between (Condition.Laid text) lo hi b.condition) : Laid text lo hi b

theorem Block.Laid.weaken {lo lo' hi hi' : Nat} {b : Block} (h : b.Laid text lo hi)
    (hlo : lo' ≤ lo) (hhi : hi ≤ hi') : b.Laid text lo' hi' := by
  cases h with
  | empty hstart hstop ha hb =>
    exact .empty hstart hstop (Nat.le_trans hlo ha) (Nat.le_trans hb hhi)
  | elements hne h => exact .elements hne (h.weaken hlo hhi)

/-! ### Packages -/

abbrev Location.LiesIn (text : String) (l : Location) : Prop := l.Lies text 0 text.length

def Entry.block? : Entry → Option Block
  | rule r => r.conditions
  | query q => q.conditions

/-- A rule or query that goes from one offset to another. Some of its attributes may be those of
the package. -/
structure Entry.Laid (text : String) (a b : Nat) (e : Entry) : Prop where
  location : e.location.Covers text a b
  block : ∀ block, e.block? = some block → block.Laid text a b
  attributes : ∀ x ∈ e.attributes, x.location.LiesIn text

structure Template.Laid (text : String) (t : Template) : Prop where
  location : t.location.LiesIn text
  slots : ∀ s ∈ t.slots, s.location.LiesIn text

def Location.BeginsIn (text : String) (l : Location) : Prop :=
  ∃ a ≤ text.length, l.start = some a ∧ l.line = some (lineAt text a) ∧
    l.column = some (columnAt text a)

/-- A package whose declarations are well laid. Its own location may still be open. -/
structure Package.Laid (text : String) (p : Package) : Prop where
  location : p.location.BeginsIn text
  imports : ∀ i ∈ p.imports, i.location.LiesIn text
  functionImports : ∀ i ∈ p.functionImports, i.location.LiesIn text
  globals : ∀ g ∈ p.globals, g.location.LiesIn text
  functions : ∀ f ∈ p.functions, f.location.LiesIn text
  templates : ∀ t ∈ p.templates, t.Laid text
  rules : ∀ e ∈ p.rules, Between (Entry.Laid text) 0 text.length e
  attributes : ∀ a ∈ p.attributes, a.location.LiesIn text

theorem Package.laid_of_location {l : Location} (h : l.BeginsIn text) :
    Package.Laid text { location := l } := by
  refine ⟨h, ?_, ?_, ?_, ?_, ?_, ?_, ?_⟩ <;> intro _ h <;> cases h

theorem Attributes.mem_put {as : Attributes} {a x : Attribute} (h : x ∈ as.put a) :
    x = a ∨ x ∈ as := by
  induction as with
  | nil => exact .inl (List.mem_singleton.1 h)
  | cons b as ih =>
    rw [put] at h
    split at h
    · rcases List.mem_cons.1 h with rfl | h
      · exact .inl rfl
      · exact .inr (List.mem_cons_of_mem b h)
    · rcases List.mem_cons.1 h with rfl | h
      · exact .inr List.mem_cons_self
      · exact (ih h).imp_right (List.mem_cons_of_mem b)

end Rulebook
