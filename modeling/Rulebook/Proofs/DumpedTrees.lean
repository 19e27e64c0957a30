import Rulebook.Tree.Dump
import Mathlib.Data.List.Basic
import Rulebook.Proofs.JsonText
import Rulebook.Proofs.WellFormedUnit

/-!
# What the JSON of a node tells

The object of a node does not say what kind of node it is, but the names of its fields do, and its
positions and the values of its fields can be read off. So patterns, attributes and declarations are
told apart by their JSON values.
-/

namespace Rulebook

variable {frames : Nat}

/-! ### Data -/

namespace Datum

theorem json_text (s : String) : (text s).json = .string s := by rw [json]

theorem json_optional_inj {a b : Option String} :
    (optional a).json = (optional b).json ↔ a = b := by
  refine ⟨fun h => ?_, fun h => h ▸ rfl⟩
  cases a with
  | none =>
    cases b with
    | none => rfl
    | some t => simp [optional, json] at h
  | some s =>
    cases b with
    | none => simp [optional, json] at h
    | some t => simpa [optional, json] using h

theorem json_place_inj {m n : Option Nat} : (place m).json = (place n).json ↔ m = n := by
  refine ⟨fun h => ?_, fun h => h ▸ rfl⟩
  cases m with
  | none =>
    cases n with
    | none => rfl
    | some n => simp [place, json] at h
  | some m =>
    cases n with
    | none => simp [place, json] at h
    | some n =>
      rw [place, place, json, json, Json.number.injEq] at h
      rw [Int.ofNat.inj h]

theorem jsonItems_eq (items : List Datum) : jsonItems items = items.map json := by
  induction items with
  | nil => rw [jsonItems, List.map_nil]
  | cons item items ih => rw [jsonItems, ih, List.map_cons]

theorem json_list (items : List Datum) : (list items).json = .array (items.map json) := by
  rw [json, jsonItems_eq]

/-- Lists of records are told apart if the records are. -/
theorem json_list_inj {α : Type} {f : α → Datum} (hf : ∀ {x y}, (f x).json = (f y).json → x = y)
    {xs ys : List α} : (list (xs.map f)).json = (list (ys.map f)).json ↔ xs = ys := by
  refine ⟨fun h => ?_, fun h => h ▸ rfl⟩
  rw [json_list, json_list, List.map_map, List.map_map] at h
  exact List.map_injective_iff.2 (fun _ _ => hf) (Json.array.inj h)

end Datum

theorem Location.entries_eq (l : Location) : l.entries =
    [("start_offset", (Datum.place l.start).json), ("end_offset", (Datum.place l.stop).json),
      ("line", (Datum.place l.line).json), ("column", (Datum.place l.column).json)] := by
  have hplace : ∀ n : Option Nat, (Datum.place n).json = n.elim (.number (-1)) fun n =>
      .number n := by
    intro n
    cases n <;> simp [Datum.place, Datum.json]
  obtain ⟨start, stop, line, column⟩ := l
  simp only [hplace]
  cases start <;> cases stop <;> cases line <;> cases column <;> rfl

namespace Datum

/-- The positions of a node and the values of its fields can be read off its object. -/
theorem json_node_inj {k k' : NodeKind} {l l' : Location} {fs fs' : List (String × Datum)} :
    (node k l fs).json = (node k' l' fs').json ↔ l = l' ∧ jsonEntries fs = jsonEntries fs' := by
  rw [json, json, Json.object.injEq]
  constructor
  · intro h
    obtain ⟨hplaces, hfields⟩ :=
      List.append_inj h (by rw [Location.entries_eq, Location.entries_eq]; rfl)
    refine ⟨?_, hfields⟩
    simp only [Location.entries_eq, List.cons.injEq, Prod.mk.injEq, json_place_inj, true_and,
      and_true] at hplaces
    obtain ⟨hstart, hstop, hline, hcolumn⟩ := hplaces
    cases l
    cases l'
    cases hstart
    cases hstop
    cases hline
    cases hcolumn
    rfl
  · rintro ⟨rfl, h⟩
    rw [h]

theorem jsonEntries_cons {key key' : String} {d d' : Datum} {fs fs' : List (String × Datum)} :
    jsonEntries ((key, d) :: fs) = jsonEntries ((key', d') :: fs') ↔
      (key = key' ∧ d.json = d'.json) ∧ jsonEntries fs = jsonEntries fs' := by
  rw [jsonEntries, jsonEntries, List.cons.injEq, Prod.mk.injEq]

end Datum

open Datum

/-! ### Patterns -/

theorem Access.json_inj {x y : Access} (h : x.record.json = y.record.json) : x = y := by
  cases x <;> cases y <;>
    simp_all [record, json_node_inj, jsonEntries_cons, json_optional_inj, json_text]

theorem Accessor.json_inj {x y : Accessor} (h : x.record.json = y.record.json) : x = y := by
  cases x
  cases y
  simp_all [record, json_node_inj, jsonEntries_cons, json_optional_inj, json_text,
    json_list_inj Access.json_inj]

theorem Retrieval.json_inj {x y : Retrieval} (h : x.record.json = y.record.json) : x = y := by
  cases x
  cases y
  simp only [record, json_node_inj, jsonEntries_cons, json_text, Json.string.injEq] at h
  obtain ⟨rfl, ⟨-, haccessor⟩, ⟨-, rfl⟩, -⟩ := h
  rw [Accessor.json_inj haccessor]

theorem LiteralType.name_inj {t t' : LiteralType} : t.name = t'.name ↔ t = t' := by
  refine ⟨fun h => ?_, fun h => h ▸ rfl⟩
  cases t <;> cases t' <;> first | rfl | exact absurd h (by decide)

theorem Connective.text_inj {c c' : Connective} : c.text = c'.text ↔ c = c' := by
  refine ⟨fun h => ?_, fun h => h ▸ rfl⟩
  cases c <;> cases c' <;> first | rfl | exact absurd h (by decide)

theorem Restriction.json_inj {x y : Restriction} (h : x.record.json = y.record.json) : x = y := by
  cases x <;> cases y <;>
    simp_all [record, json_node_inj, jsonEntries_cons, json_text, LiteralType.name_inj,
      Connective.text_inj]

theorem Constraint.json_inj {x y : Constraint} (h : x.record.json = y.record.json) : x = y := by
  rcases x with ⟨_, _, _⟩ | _ | _ <;> rcases y with ⟨_, _, _⟩ | _ | _ <;>
    simp_all [record, json_node_inj, jsonEntries_cons, json_optional_inj, json_text,
      json_list_inj Restriction.json_inj]

mutual

theorem Pattern.json_inj : ∀ (p : Pattern) {q : Pattern}, p.record.json = q.record.json → p = q
  | ⟨location, objectType, name, constraints, source, left, right⟩, q, h => by
    obtain ⟨location', objectType', name', constraints', source', left', right'⟩ := q
    simp only [Pattern.record, json_node_inj, jsonEntries_cons, json_text, json_optional_inj,
      json_place_inj, json_list_inj Constraint.json_inj, Json.string.injEq] at h
    obtain ⟨rfl, ⟨-, rfl⟩, ⟨-, rfl⟩, ⟨-, rfl⟩, ⟨-, hsource⟩, ⟨-, hleft⟩, ⟨-, rfl⟩, -⟩ := h
    rw [Source.json_inj source hsource]
    rw [json, json, Json.number.injEq] at hleft
    rw [Int.ofNat.inj hleft]

theorem Source.json_inj : ∀ (s : Source) {t : Source}, s.record.json = t.record.json → s = t
  | .workingMemory, t, h => by
    cases t with
    | workingMemory => rfl
    | _ => simp [Source.record, Retrieval.record, json] at h
  | .retrieval r, t, h => by
    cases t with
    | retrieval r' =>
      rw [Source.record, Source.record] at h
      rw [Retrieval.json_inj h]
    | workingMemory => simp [Source.record, Retrieval.record, json] at h
    | _ => simp [Source.record, Retrieval.record, json_node_inj, jsonEntries_cons] at h
  | .accumulate location input initCode actionCode resultCode, t, h => by
    cases t with
    | accumulate location' input' initCode' actionCode' resultCode' =>
      simp only [Source.record, json_node_inj, jsonEntries_cons, json_text, Json.string.injEq] at h
      obtain ⟨rfl, ⟨-, hinput⟩, ⟨-, rfl⟩, ⟨-, rfl⟩, ⟨-, rfl⟩, -⟩ := h
      rw [Pattern.json_inj input hinput]
    | workingMemory => simp [Source.record, json] at h
    | _ => simp [Source.record, Retrieval.record, json_node_inj, jsonEntries] at h
  | .collect location input, t, h => by
    cases t with
    | collect location' input' =>
      simp only [Source.record, json_node_inj, jsonEntries_cons] at h
      obtain ⟨rfl, ⟨-, hinput⟩, -⟩ := h
      rw [Pattern.json_inj input hinput]
    | workingMemory => simp [Source.record, json] at h
    | _ => simp [Source.record, Retrieval.record, json_node_inj, jsonEntries] at h

end

/-! ### Attributes and declarations -/

theorem Attribute.json_inj {a b : Attribute} (h : a.record.json = b.record.json) : a = b := by
  obtain ⟨location, name, value⟩ := a
  obtain ⟨location', name', value'⟩ := b
  simp only [record, json_node_inj, jsonEntries_cons, json_text, Json.string.injEq] at h
  obtain ⟨rfl, ⟨-, rfl⟩, ⟨-, hvalue⟩, -⟩ := h
  rw [json, json] at hvalue
  cases value <;> cases value' <;> simp_all [AttributeValue.json]

theorem Attributes.json_inj {as bs : Attributes} :
    (Attributes.record as).json = (Attributes.record bs).json ↔ as = bs := by
  refine ⟨fun h => ?_, fun h => h ▸ rfl⟩
  have hentries : jsonEntries (as.map fun a => (a.name, a.record)) =
      jsonEntries (bs.map fun a => (a.name, a.record)) := by
    simpa only [Attributes.record, json, Json.object.injEq] using h
  clear h
  induction as generalizing bs with
  | nil =>
    cases bs with
    | nil => rfl
    | cons b bs => simp [jsonEntries] at hentries
  | cons a as ih =>
    cases bs with
    | nil => simp [jsonEntries] at hentries
    | cons b bs =>
      rw [List.map_cons, List.map_cons, jsonEntries_cons] at hentries
      rw [Attribute.json_inj hentries.1.2, ih hentries.2]

theorem Parameter.json_lists_inj {ps qs : List Parameter}
    (htypes : (list (ps.map fun p => .optional p.type)).json =
      (list (qs.map fun p => .optional p.type)).json)
    (hnames : (texts (ps.map (·.name))).json = (texts (qs.map (·.name))).json) : ps = qs := by
  have htypes : ps.map (·.type) = qs.map (·.type) := by
    rw [← json_list_inj (fun h => json_optional_inj.1 h), List.map_map, List.map_map]
    exact htypes
  have hnames : ps.map (·.name) = qs.map (·.name) :=
    (json_list_inj fun h => by simpa only [json_text, Json.string.injEq] using h).1 hnames
  have hinjective : Function.Injective fun p : Parameter => (p.type, p.name) := by
    rintro ⟨type, name⟩ ⟨type', name'⟩ h
    cases h
    rfl
  refine List.map_injective_iff.2 hinjective ?_
  rw [← List.zip_map', ← List.zip_map', htypes, hnames]

theorem Import.json_inj {kind : NodeKind} {x y : Import}
    (h : (x.record kind).json = (y.record kind).json) : x = y := by
  cases x
  cases y
  simp_all [record, json_node_inj, jsonEntries_cons, json_text]

theorem Global.json_inj {x y : Global} (h : x.record.json = y.record.json) : x = y := by
  cases x
  cases y
  simp_all [record, json_node_inj, jsonEntries_cons, json_text]

theorem Function.json_inj {x y : Function} (h : x.record.json = y.record.json) : x = y := by
  obtain ⟨location, name, returnType, parameters, body, dialect⟩ := x
  obtain ⟨location', name', returnType', parameters', body', dialect'⟩ := y
  simp only [record, json_node_inj, jsonEntries_cons, json_text, json_optional_inj,
    Json.string.injEq] at h
  obtain ⟨rfl, ⟨-, rfl⟩, ⟨-, rfl⟩, ⟨-, htypes⟩, ⟨-, hnames⟩, ⟨-, rfl⟩, ⟨-, rfl⟩, -⟩ := h
  rw [Parameter.json_lists_inj htypes hnames]

theorem Slot.json_inj {x y : Slot} (h : x.record.json = y.record.json) : x = y := by
  cases x
  cases y
  simp_all [record, json_node_inj, jsonEntries_cons, json_text]

theorem Template.json_inj {x y : Template} (h : x.record.json = y.record.json) : x = y := by
  cases x
  cases y
  simp_all [record, json_node_inj, jsonEntries_cons, json_text, json_list_inj Slot.json_inj]

/-!
## What the dump of a package tells

The object of a group gives its operands and its positions, but not how the operands are combined.
The number of operands and the place of the first one tell conjunctions and disjunctions, negations
and existences, and universal groups apart, and nothing more. So the dump of a package tells its
tree, except which groups of two operands or more are disjunctions and which negations are
existences.
-/

variable {text text' : String}

/-! ### Trees with groups that look alike made equal -/

/-- A disjunction becomes a conjunction, and an existence becomes a negation. -/
def Grouping.blurred : Grouping → Grouping
  | .or => .and
  | .exists_ => .not
  | kind => kind

mutual

def Condition.blurred : Condition → Condition
  | .group kind l operands => .group kind.blurred l (Condition.listBlurred operands)
  | .eval l code => .eval l code
  | .pattern p => .pattern p

def Condition.listBlurred : List Condition → List Condition
  | [] => []
  | c :: rest => Condition.blurred c :: Condition.listBlurred rest

end

/-- The block with the groups below its root blurred. -/
def Block.blurred (b : Block) : Block := { b with elements := Condition.listBlurred b.elements }

def Entry.blurred : Entry → Entry
  | .rule r => .rule { r with conditions := r.conditions.map Block.blurred }
  | .query q => .query { q with conditions := q.conditions.map Block.blurred }

/-- The package with the groups of its conditions blurred. -/
def Package.blurred (p : Package) : Package := { p with rules := p.rules.map Entry.blurred }

/-! ### Blurred trees have the same objects -/

namespace Condition

theorem records_eq (cs : List Condition) : records cs = cs.map record := by
  induction cs with
  | nil => rw [records, List.map_nil]
  | cons c cs ih => rw [records, ih, List.map_cons]

/-- The object of a group gives its positions and the objects of its operands. -/
theorem group_json_inj {kind kind' : Grouping} {l l' : Location} {cs ds : List Condition} :
    (group kind l cs).record.json = (group kind' l' ds).record.json ↔
      l = l' ∧ cs.map (·.record.json) = ds.map (·.record.json) := by
  simp only [record, Datum.json_node_inj, Datum.jsonEntries_cons, Datum.json_list, records_eq,
    List.map_map, Function.comp_def, Json.array.injEq, true_and, and_true]

mutual

theorem json_blurred : ∀ c : Condition, c.blurred.record.json = c.record.json
  | .group kind l operands => by
    rw [blurred]
    exact group_json_inj.2 ⟨rfl, json_listBlurred operands⟩
  | .eval l code => by rw [blurred]
  | .pattern p => by rw [blurred]

theorem json_listBlurred : ∀ cs : List Condition,
    (listBlurred cs).map (·.record.json) = cs.map (·.record.json)
  | [] => by rw [listBlurred]
  | c :: rest => by
    rw [listBlurred, List.map_cons, List.map_cons, json_blurred c, json_listBlurred rest]

end

end Condition

theorem Block.json_blurred (b : Option Block) :
    (record? (b.map blurred)).json = (record? b).json := by
  cases b with
  | none => rfl
  | some b => exact Condition.group_json_inj.2 ⟨rfl, Condition.json_listBlurred b.elements⟩

theorem Entry.json_blurred (e : Entry) : e.blurred.record.json = e.record.json := by
  cases e with
  | rule r =>
    simp only [blurred, record, fields, Datum.json_node_inj, Datum.jsonEntries_cons,
      Block.json_blurred, and_self]
  | query q =>
    simp only [blurred, record, fields, List.cons_append, List.nil_append, Datum.json_node_inj,
      Datum.jsonEntries_cons, Block.json_blurred, and_self]

theorem Package.json_blurred (p : Package) : p.blurred.record.json = p.record.json := by
  have hrules : (Datum.list ((p.rules.map Entry.blurred).map Entry.record)).json =
      (Datum.list (p.rules.map Entry.record)).json := by
    simp only [Datum.json_list, List.map_map, Function.comp_def, Entry.json_blurred]
  simp only [blurred, record, Datum.json_node_inj, Datum.jsonEntries_cons, hrules, and_self]

/-! ### Conditions -/

namespace Condition

def firstField : Condition → String
  | group .. => "descrs"
  | eval .. => "content"
  | pattern _ => "object_type"

theorem record_eq_node (c : Condition) :
    ∃ kind value fields, c.record = .node kind c.location ((c.firstField, value) :: fields) := by
  cases c with
  | group kind l operands => exact ⟨_, _, _, rfl⟩
  | eval l code => exact ⟨_, _, _, rfl⟩
  | pattern p =>
    cases p
    exact ⟨_, _, _, rfl⟩

theorem told_of_json {c d : Condition} (h : c.record.json = d.record.json) :
    c.location = d.location ∧ c.firstField = d.firstField := by
  obtain ⟨kind, value, fields, hc⟩ := c.record_eq_node
  obtain ⟨kind', value', fields', hd⟩ := d.record_eq_node
  rw [hc, hd, Datum.json_node_inj, Datum.jsonEntries_cons] at h
  exact ⟨h.1, h.2.1.1⟩

def shown (l : Location) : List Condition → Grouping
  | [] | [_] => .not
  | first :: _ :: _ => if l.start = first.location.start then .and else .forall_

theorem WellFormed.shown_eq {kind : Grouping} {l : Location} {operands : List Condition}
    (h : Condition.WellFormed text (.group kind l operands)) : shown l operands = kind.blurred := by
  generalize hc : Condition.group kind l operands = c at h
  cases h with
  | pattern => cases hc
  | eval => cases hc
  | several hkind hstart =>
    cases hc
    rw [shown, if_pos hstart]
    rcases hkind with rfl | rfl <;> rfl
  | single hkind =>
    cases hc
    rcases hkind with rfl | rfl <;> rfl
  | universal hstart hpatterns =>
    cases hc
    obtain ⟨a, b, ha, hb, hlt⟩ := hstart
    rw [List.map_cons, List.map_cons, shown, if_neg]
    · rfl
    · rw [ha, location, hb, Option.some.injEq]
      exact Nat.ne_of_lt hlt

theorem shown_congr (l : Location) {cs ds : List Condition}
    (h : cs.map (·.record.json) = ds.map (·.record.json)) : shown l cs = shown l ds := by
  rcases cs with _ | ⟨c, _ | ⟨c', cs⟩⟩ <;> rcases ds with _ | ⟨d, _ | ⟨d', ds⟩⟩ <;> try rfl
  all_goals simp only [List.map_cons, List.map_nil, List.cons.injEq, reduceCtorEq, and_false] at h
  obtain ⟨hfirst, -, -⟩ := h
  rw [shown, shown, (told_of_json hfirst).1]

mutual

theorem blurred_eq_of_json : ∀ (c : Condition) {d : Condition}, c.WellFormed text →
    d.WellFormed text' → c.record.json = d.record.json → c.blurred = d.blurred
  | .group kind l operands, d, hc, hd, h => by
    have hfield := (told_of_json h).2
    cases d with
    | group kind' l' operands' =>
      obtain ⟨rfl, hmaps⟩ := group_json_inj.1 h
      rw [blurred, blurred, ← hc.shown_eq, ← hd.shown_eq, shown_congr l hmaps,
        listBlurred_eq_of_json operands hc.operands hd.operands hmaps]
    | eval => simp [firstField] at hfield
    | pattern => simp [firstField] at hfield
  | .eval l code, d, _, _, h => by
    have hfield := (told_of_json h).2
    cases d with
    | group => simp [firstField] at hfield
    | eval l' code' =>
      simp only [record, Datum.json_node_inj, Datum.jsonEntries_cons, Datum.json_text,
        Json.string.injEq] at h
      obtain ⟨rfl, ⟨-, rfl⟩, -⟩ := h
      rfl
    | pattern => simp [firstField] at hfield
  | .pattern p, d, _, _, h => by
    have hfield := (told_of_json h).2
    cases d with
    | group => simp [firstField] at hfield
    | eval => simp [firstField] at hfield
    | pattern q =>
      rw [record, record] at h
      rw [p.json_inj h]

theorem listBlurred_eq_of_json : ∀ (cs : List Condition) {ds : List Condition},
    (∀ c ∈ cs, c.WellFormed text) → (∀ d ∈ ds, d.WellFormed text') →
      cs.map (·.record.json) = ds.map (·.record.json) → listBlurred cs = listBlurred ds
  | [], ds, _, _, h => by
    cases ds with
    | nil => rfl
    | cons d ds => cases h
  | c :: cs, ds, hcs, hds, h => by
    cases ds with
    | nil => cases h
    | cons d ds =>
      rw [List.map_cons, List.map_cons, List.cons.injEq] at h
      obtain ⟨hc, hcs'⟩ := List.forall_mem_cons.1 hcs
      obtain ⟨hd, hds'⟩ := List.forall_mem_cons.1 hds
      rw [listBlurred, listBlurred, blurred_eq_of_json c hc hd h.1,
        listBlurred_eq_of_json cs hcs' hds' h.2]

end

end Condition

/-! ### Rules and packages -/

/-- The root of the conditions is written as a conjunction, which it is. -/
theorem Block.blurred_eq_of_json {b b' : Option Block}
    (hb : ∀ x, b = some x → ∀ c ∈ x.elements, c.WellFormed text)
    (hb' : ∀ x, b' = some x → ∀ c ∈ x.elements, c.WellFormed text')
    (h : (record? b).json = (record? b').json) : b.map blurred = b'.map blurred := by
  cases b with
  | none =>
    cases b' with
    | none => rfl
    | some b' => simp [record?, condition, Condition.record, Datum.json] at h
  | some b =>
    cases b' with
    | none => simp [record?, condition, Condition.record, Datum.json] at h
    | some b' =>
      obtain ⟨hlocation, hmaps⟩ := Condition.group_json_inj.1 h
      rw [Option.map_some, Option.map_some, blurred, blurred, hlocation,
        Condition.listBlurred_eq_of_json b.elements (hb b rfl) (hb' b' rfl) hmaps]

theorem Entry.blurred_eq_of_json {e e' : Entry} (he : e.WellFormed text) (he' : e'.WellFormed text')
    (h : e.record.json = e'.record.json) : e.blurred = e'.blurred := by
  cases e with
  | rule r =>
    cases e' with
    | rule r' =>
      obtain ⟨location, name, attributes, conditions, code, start, stop, line, column⟩ := r
      obtain ⟨location', name', attributes', conditions', code', start', stop', line', column'⟩ :=
        r'
      simp only [record, fields, Datum.json_node_inj, Datum.jsonEntries_cons, Datum.json_text,
        Datum.json_optional_inj, Datum.json_place_inj, Attributes.json_inj, Json.string.injEq,
        Option.some.injEq, true_and, and_true] at h
      obtain ⟨rfl, rfl, rfl, hblock, rfl, rfl, rfl, rfl, rfl⟩ := h
      have hconditions : conditions.map Block.blurred = conditions'.map Block.blurred :=
        Block.blurred_eq_of_json he.conditions he'.conditions hblock
      simp only [blurred, hconditions]
    | query q' =>
      simp [record, fields, Datum.json_node_inj, Datum.jsonEntries_cons,
        Datum.json_optional_inj] at h
  | query q =>
    cases e' with
    | rule r' =>
      simp [record, fields, Datum.json_node_inj, Datum.jsonEntries_cons,
        Datum.json_optional_inj] at h
    | query q' =>
      obtain ⟨location, name, parameters, conditions⟩ := q
      obtain ⟨location', name', parameters', conditions'⟩ := q'
      simp only [record, fields, List.cons_append, List.nil_append, Datum.json_node_inj,
        Datum.jsonEntries_cons, Datum.json_text, Json.string.injEq, true_and, and_true] at h
      obtain ⟨rfl, rfl, hblock, hnames, htypes⟩ := h
      have hconditions : conditions.map Block.blurred = conditions'.map Block.blurred :=
        Block.blurred_eq_of_json he.conditions he'.conditions hblock
      simp only [blurred, hconditions, Parameter.json_lists_inj htypes hnames]

theorem map_eq_map_of_map_eq {α β γ : Type} {f : α → β} {g : α → γ} {xs ys : List α}
    (h : ∀ x ∈ xs, ∀ y ∈ ys, f x = f y → g x = g y) (hmap : xs.map f = ys.map f) :
    xs.map g = ys.map g := by
  induction xs generalizing ys with
  | nil =>
    cases ys with
    | nil => rfl
    | cons y ys => cases hmap
  | cons x xs ih =>
    cases ys with
    | nil => cases hmap
    | cons y ys =>
      rw [List.map_cons, List.map_cons, List.cons.injEq] at hmap ⊢
      obtain ⟨hx, hxs⟩ := hmap
      refine ⟨h x List.mem_cons_self y List.mem_cons_self hx, ih (fun a ha b hb => ?_) hxs⟩
      exact h a (List.mem_cons_of_mem _ ha) b (List.mem_cons_of_mem _ hb)

theorem Package.WellFormed.json_eq_iff {p p' : Package} (h : p.WellFormed text)
    (h' : p'.WellFormed text') : p.record.json = p'.record.json ↔ p.blurred = p'.blurred := by
  constructor
  · intro hjson
    obtain ⟨location, name, imports, functionImports, globals, functions, templates, rules,
      attributes⟩ := p
    obtain ⟨location', name', imports', functionImports', globals', functions', templates', rules',
      attributes'⟩ := p'
    simp only [record, Datum.json_node_inj, Datum.jsonEntries_cons, Datum.json_text,
      Datum.json_list_inj Import.json_inj, Datum.json_list_inj Global.json_inj,
      Datum.json_list_inj Function.json_inj, Datum.json_list_inj Template.json_inj,
      Attributes.json_inj, Json.string.injEq, true_and, and_true] at hjson
    obtain ⟨rfl, rfl, rfl, rfl, rfl, rfl, rfl, hrules, rfl⟩ := hjson
    rw [Datum.json_list, Datum.json_list, Json.array.injEq, List.map_map, List.map_map] at hrules
    have hblurred : rules.map Entry.blurred = rules'.map Entry.blurred :=
      map_eq_map_of_map_eq (fun e he e' he' =>
        Entry.blurred_eq_of_json (h.rules e he) (h'.rules e' he')) hrules
    rw [blurred, blurred, hblurred]
  · intro hblurred
    rw [← p.json_blurred, hblurred, p'.json_blurred]

/-- The dumps of two packages are equal just if their trees are, up to which groups of two operands
or more are disjunctions and which negations are existences. -/
theorem parse_dump_eq_iff (layout : Json.Layout) {settings settings' : Settings}
    {sourceName sourceName' : String} {r r' : ParseResult}
    (h : parse frames settings sourceName text = .ok r)
    (h' : parse frames settings' sourceName' text' = .ok r') :
    r.package.dump layout = r'.package.dump layout ↔ r.package.blurred = r'.package.blurred := by
  rw [← (Package.WellFormed.of_parse h).json_eq_iff (Package.WellFormed.of_parse h')]
  exact ⟨Json.render_injective layout, congrArg (Json.render layout)⟩

/-- The dumps of packages with rules of different names are different. -/
theorem dump_tells_names :
    ∃ r r', parse 900 {} "orders" "rule A when A() || B() then end" = .ok r ∧
      parse 900 {} "orders" "rule C when A() || B() then end" = .ok r' ∧
      (r.package.dump .compact = r'.package.dump .compact ↔
        r.package.blurred = r'.package.blurred) ∧
      r.package.blurred ≠ r'.package.blurred := by
  have hnames : (parse 900 {} "orders" "rule A when A() || B() then end").toOption.map
      (·.package.blurred.ruleNames) = some ["A"] := by
    decide +kernel
  have hnames' : (parse 900 {} "orders" "rule C when A() || B() then end").toOption.map
      (·.package.blurred.ruleNames) = some ["C"] := by
    decide +kernel
  cases h : parse 900 {} "orders" "rule A when A() || B() then end" with
  | error f => rw [h] at hnames; cases hnames
  | ok r =>
    cases h' : parse 900 {} "orders" "rule C when A() || B() then end" with
    | error f => rw [h'] at hnames'; cases hnames'
    | ok r' =>
      rw [h] at hnames
      rw [h'] at hnames'
      refine ⟨r, r', rfl, rfl, parse_dump_eq_iff .compact h h', fun heq => ?_⟩
      have hsame := (Option.some.inj hnames).symm.trans
        ((congrArg Package.ruleNames heq).trans (Option.some.inj hnames'))
      exact absurd hsame (by decide)

/-- Two texts with different packages and one dump. -/
def SameDump (one other : String) : Prop :=
  ∃ r r', parse 900 {} "orders" one = .ok r ∧ parse 900 {} "orders" other = .ok r' ∧
    r.package ≠ r'.package ∧ ∀ layout, r.package.dump layout = r'.package.dump layout

theorem sameDump_of_decide {one other : String}
    (h : ((parse 900 {} "orders" one).toOption.bind fun r =>
      (parse 900 {} "orders" other).toOption.map fun r' =>
        decide (r.package.nodes.map Node.kind ≠ r'.package.nodes.map Node.kind ∧
          r.package.dump .compact = r'.package.dump .compact)) = some true) :
    SameDump one other := by
  cases hone : parse 900 {} "orders" one with
  | error f => rw [hone] at h; cases h
  | ok r =>
    cases hother : parse 900 {} "orders" other with
    | error f => rw [hone, hother] at h; cases h
    | ok r' =>
      rw [hone, hother] at h
      obtain ⟨hkinds, hdump⟩ := of_decide_eq_true (Option.some.inj h)
      refine ⟨r, r', hone, hother, fun heq => hkinds ?_, fun layout => ?_⟩
      · rw [heq]
      · exact congrArg (Json.render layout) (Json.render_injective .compact hdump)

/-- A dump does not tell a disjunction from a conjunction, nor an existence from a negation. -/
theorem dump_hides_groups :
    SameDump "rule A when A() && B() then end" "rule A when A() || B() then end" ∧
      SameDump "rule A when not    A() then end" "rule A when exists A() then end" :=
  ⟨sameDump_of_decide (by decide +kernel), sameDump_of_decide (by decide +kernel)⟩

end Rulebook
