import Rulebook.Proofs.Locations
import Rulebook.Proofs.WrittenAttributes

/-!
# Where empty conditions are located

Conditions of which there are none, or none that could be read, have no token of their own. They
stand where the token before them ends: `when`, the name of a query, or the parenthesis behind its
parameters. Their line and column are those of that token, so they are those of its first character
and not of the offset behind its last one.
-/

namespace Rulebook

variable {frames : Nat}

variable {hashComments : Bool} {text : String} {m n : Nat}

/-! ### Lines and columns tell offsets apart -/

theorem line_or_column_ne (hlt : m < n) (hn : n ≤ text.length) :
    lineAt text m ≠ lineAt text n ∨ columnAt text m ≠ columnAt text n := by
  have hlength : n ≤ text.toList.length := by rwa [String.length_toList]
  obtain ⟨cs, hcs, hne⟩ : ∃ cs, text.toList.take n = text.toList.take m ++ cs ∧ cs ≠ [] := by
    refine ⟨(text.toList.drop m).take (n - m), ?_, fun hnil => ?_⟩
    · rw [← List.take_add, Nat.add_sub_cancel' (Nat.le_of_lt hlt)]
    · have hzero := congrArg List.length hnil
      rw [List.length_take, List.length_drop, List.length_nil] at hzero
      omega
  by_cases hfeed : '\n' ∈ cs
  · refine .inl ?_
    have hcount := List.count_pos_iff.2 hfeed
    unfold lineAt
    rw [hcs, List.count_append]
    omega
  · refine .inr ?_
    have hall : ∀ c ∈ cs.reverse, decide (c ≠ '\n') = true := fun c hc =>
      decide_eq_true fun heq => hfeed (heq ▸ List.mem_reverse.1 hc)
    have hlength := List.length_pos_iff.2 hne
    unfold columnAt
    rw [hcs, List.reverse_append, List.takeWhile_append_of_pos hall, List.length_append,
      List.length_reverse]
    omega

/-- The place at which a block of no conditions is put. -/
def Token.edge (t : Token) : Location :=
  { start := some t.stop, stop := some t.stop, line := some t.line, column := some t.column }

theorem Token.not_placed_edge {t : Token} (ht : t ∈ tokens hashComments text) :
    ¬ t.edge.Placed text := by
  rintro ⟨a, hstart, hline, hcolumn⟩
  obtain ⟨hstands, hlt⟩ := standsIn_of_mem_tokens ht
  obtain rfl : t.stop = a := Option.some.inj hstart
  rcases line_or_column_ne hlt hstands.stop_le with hne | hne
  · exact hne (hstands.line.symm.trans (Option.some.inj hline))
  · exact hne (hstands.column.symm.trans (Option.some.inj hcolumn))

/-! ### The token before the conditions -/

/-- The token behind which the conditions of a rule or query begin, a colon behind `when` aside. -/
def Entry.Opens : Entry → Token → Prop
  | .rule _, t => t.kind = .keyword .when_
  | .query q, t => t.kind = .symbol .rparen ∨ q.parameters = [] ∧ Parser.TitleWritten q.name t

namespace Parser

variable {s t : State} {e : Entry} {b : Block}

theorem previous_advanced (hs : s.cursor.triviaVisible = false)
    (hk : s.cursor.current.kind ≠ .endOfInput) :
    s.advanced.cursor.previous = some s.cursor.current :=
  Cursor.previous_consume hs hk

theorem location_of_block {anchor : Option Token} (h : block anchor s = .ok b t)
    (hb : b.elements = []) : b.location = blockLocation anchor [] := by
  obtain ⟨elements, u, -, h⟩ := bind_eq_ok.1 h
  obtain ⟨rfl, -⟩ := pure_ok h
  obtain rfl : elements = [] := hb
  rfl

theorem parameters_previous (hs : s.Earnest hashComments text) {ps : List Parameter}
    (h : parameters s = .ok ps t) :
    ∃ token ∈ tokens hashComments text, token.kind = .symbol .rparen ∧
      t.cursor.previous = some token := by
  have hclosed : ∀ {u : State} {found : List Parameter}, u.Earnest hashComments text →
      (do let _ ← symbol .rparen; return found : Parser (List Parameter)) u = .ok ps t →
      ∃ token ∈ tokens hashComments text, token.kind = .symbol .rparen ∧
        t.cursor.previous = some token := by
    intro u _ hu h
    obtain ⟨token, v, hv, h⟩ := bind_eq_ok.1 h
    obtain ⟨-, rfl⟩ := pure_ok h
    obtain ⟨rfl, hkind, rfl⟩ := expect_of_ok hv
    have hk : u.cursor.current.kind ≠ .endOfInput := by rw [hkind]; simp
    exact ⟨_, hu.current_mem hk, hkind, previous_advanced hu.hidden hk⟩
  obtain ⟨_, u, hu, h⟩ := bind_eq_ok.1 h
  obtain ⟨_, v, hv, h⟩ := bind_eq_ok.1 h
  have hv' := (hs.of_ok hu).of_ok hv
  split at h
  · obtain ⟨found, w, hw, h⟩ := bind_eq_ok.1 h
    exact hclosed (hv'.of_ok hw) h
  · obtain ⟨found, w, hw, h⟩ := bind_eq_ok.1 h
    exact hclosed (hv'.of_ok hw) h

theorem queryParameters_previous (hs : s.Earnest hashComments text) {title : Token}
    (htitle : title ∈ tokens hashComments text) (hprevious : s.cursor.previous = some title)
    {ps : List Parameter} (h : queryParameters s = .ok ps t) :
    ∃ token ∈ tokens hashComments text, t.cursor.previous = some token ∧
      (token.kind = .symbol .rparen ∨ ps = [] ∧ token = title) := by
  obtain ⟨more, _, hlook, h⟩ := bind_eq_ok.1 h
  cases hlook
  split at h
  · obtain ⟨token, hmem, hkind, htoken⟩ := parameters_previous hs h
    exact ⟨token, hmem, htoken, .inl hkind⟩
  · obtain ⟨rfl, rfl⟩ := pure_ok h
    exact ⟨title, htitle, hprevious, .inr ⟨rfl, rfl⟩⟩

theorem EntryRead.emptyBlock (hs : s.Earnest hashComments text) (h : EntryRead e s t)
    (hb : e.HasEmptyBlock b) :
    ∃ anchor ∈ tokens hashComments text, e.Opens anchor ∧ b.location = anchor.edge := by
  obtain ⟨hblock, hnone⟩ := hb
  cases h with
  | rule h =>
    obtain ⟨begun, u, w, hconditions, -, -, hsu, hw, -⟩ := ruleStatement_ok h
    obtain ⟨x, v, l, hbody, rfl, -⟩ := body_of_recovering hw
    obtain ⟨y, z, huy, hwhen, hread, -⟩ := ruleBody_block hconditions hbody hblock
    have hu := hs.evolves hsu
    have hy : y.Earnest hashComments text :=
      State.Earnest.evolves (s := u.named begun.name) ⟨hu.cursor, hu.trials⟩ huy
    rw [conditionBlock, bind_of_ok (advance_eq y)] at hread
    obtain ⟨_, _, -, hread⟩ := bind_eq_ok.1 hread
    exact ⟨y.cursor.current, hy.current_mem (by rw [hwhen]; simp), hwhen,
      location_of_block hread hnone⟩
  | @query q _ _ h =>
    obtain ⟨token, u, hu, h⟩ := bind_eq_ok.1 h
    obtain ⟨name, v, hv, h⟩ := bind_eq_ok.1 h
    obtain ⟨found, w, hw, h⟩ := bind_eq_ok.1 h
    obtain ⟨_, _, -, h⟩ := bind_eq_ok.1 h
    obtain ⟨rfl, -⟩ := pure_ok h
    obtain ⟨x, y, l, hbody, rfl, -⟩ := body_of_recovering hw
    obtain ⟨ps, v, z, hps, hread, -, hfound⟩ := queryBody_block rfl hbody hblock
    have hu' := hs.of_ok hu
    have hv' := hu'.of_ok hv
    obtain ⟨htitle, hk, rfl⟩ := title_of_ok hv
    obtain ⟨anchor, hanchor, hlast, hopens⟩ :=
      queryParameters_previous (s := u.advanced.named name) ⟨hv'.cursor, hv'.trials⟩
        (hu'.current_mem hk) (previous_advanced hu'.hidden hk) hps
    obtain ⟨now, _, hnow, hread⟩ := bind_eq_ok.1 hread
    cases hnow
    refine ⟨anchor, hanchor, ?_, (location_of_block hread hnone).trans (by rw [hlast]; rfl)⟩
    rw [hfound]
    exact hopens.imp_right fun ⟨hps, htoken⟩ => ⟨hps, htoken ▸ htitle⟩

end Parser

/-! ### Parsed texts -/

theorem parse_empty_blocks {settings : Settings} {sourceName text : String} {r : ParseResult}
    (h : parse frames settings sourceName text = .ok r) :
    ∀ e ∈ r.package.rules, ∀ b, e.HasEmptyBlock b →
      ∃ anchor ∈ tokens settings.hashComments text, e.Opens anchor ∧
        b.location = ⟨some anchor.stop, some anchor.stop, some (lineAt text anchor.start),
          some (columnAt text anchor.start)⟩ ∧
        ¬ b.location.Placed text := by
  intro e he b hb
  have hearnest :
      (Parser.State.ofText frames settings sourceName text).Earnest settings.hashComments text :=
    ⟨rfl, rfl⟩
  obtain ⟨t, hunit, -⟩ := exists_unit h
  obtain ⟨hrules, hrecorded⟩ :=
    Parser.compilationUnit_recorded (idle_ofText frames settings sourceName text) rfl hunit
  obtain ⟨u, v, -, hsu, hread, -⟩ := hrecorded e (hrules ▸ he)
  obtain ⟨anchor, hmem, hopens, hlocation⟩ := hread.emptyBlock (hearnest.evolves hsu) hb
  obtain ⟨hstands, -⟩ := standsIn_of_mem_tokens hmem
  refine ⟨anchor, hmem, hopens, ?_, hlocation ▸ Token.not_placed_edge hmem⟩
  rw [hlocation, Token.edge, hstands.line, hstands.column]

theorem parse_empty_blocks_assorted :
    let text := "query \"open\norders\" end\nquery Q(int n) end\nrule R when: > then end"
    ∃ r, parse 900 {} "orders" text = .ok r ∧
      r.package.rules.map (fun e => e.block?.map (·.location)) =
        [some ⟨some 19, some 19, some 1, some 6⟩, some ⟨some 38, some 38, some 3, some 13⟩,
          some ⟨some 54, some 54, some 4, some 7⟩] ∧
      ∀ e ∈ r.package.rules, ∀ b, e.HasEmptyBlock b →
        ∃ anchor ∈ tokens true text, e.Opens anchor ∧
          b.location = ⟨some anchor.stop, some anchor.stop, some (lineAt text anchor.start),
            some (columnAt text anchor.start)⟩ ∧
          ¬ b.location.Placed text := by
  intro text
  have hlocations : (parse 900 {} "orders" text).toOption.map
      (·.package.rules.map fun e => e.block?.map (·.location)) =
        some [some ⟨some 19, some 19, some 1, some 6⟩, some ⟨some 38, some 38, some 3, some 13⟩,
          some ⟨some 54, some 54, some 4, some 7⟩] := by
    decide +kernel
  cases h : parse 900 {} "orders" text with
  | error f => rw [h] at hlocations; cases hlocations
  | ok r =>
    rw [h] at hlocations
    exact ⟨r, rfl, Option.some.inj hlocations, parse_empty_blocks h⟩

/-- The conditions of a query with nothing behind its name are put behind the name, at
its column. -/
theorem empty_block_misplaced :
    ¬ ∀ (text : String) (r : ParseResult), parse 900 {} "orders" text = .ok r →
      ∀ e ∈ r.package.rules, ∀ b, e.HasEmptyBlock b → b.location.Placed text := by
  intro hall
  have hblock : (parse 900 {} "orders" "query Q end").toOption.map (·.package.rules.map fun e =>
      e.block?.map fun b => (b.location, b.elements.length)) =
        some [some (⟨some 7, some 7, some 1, some 6⟩, 0)] := by
    decide +kernel
  cases h : parse 900 {} "orders" "query Q end" with
  | error f => rw [h] at hblock; cases hblock
  | ok r =>
    rw [h] at hblock
    obtain ⟨e, he, hb⟩ := List.mem_map.1 (Option.some.inj hblock ▸ List.mem_singleton_self _)
    obtain ⟨b, hb, heq⟩ := Option.map_eq_some_iff.1 hb
    obtain ⟨hlocation, hlength⟩ := Prod.mk.inj heq
    obtain ⟨a, hstart, -, hcolumn⟩ := hall _ r h e he b ⟨hb, List.length_eq_zero_iff.1 hlength⟩
    rw [hlocation] at hstart hcolumn
    obtain rfl : 7 = a := Option.some.inj hstart
    revert hcolumn
    decide +kernel

end Rulebook
