import Rulebook.Proofs.Bounds
import Rulebook.Proofs.Entries
import Rulebook.Proofs.Slices

/-!
# The text that a condition covers

What a condition covers is read as that condition where it is a text of its own. For `and` and `or`
this takes that what is written between their operands is a piece of its own: the parentheses in it
are paired, and a connective stands outside of them. A pattern that begins with the keyword of
another condition would be read as that condition.
-/

namespace Rulebook

open Rulebook.Parser

variable {frames : Nat} {settings : Settings} {hashComments : Bool} {text : String}
  {ns ms : List Node}

/-- A condition whose text can be read on its own. -/
def Condition.SelfContained (hashComments : Bool) (text : String) : Condition → Prop
  | .group kind location operands =>
    kind = .and ∨ kind = .or →
      Paired (Condition.outline (kindsBetween hashComments text) (.group kind location operands)) ∧
        Exposed (Condition.outline (kindsBetween hashComments text) (.group kind location operands))
  | .eval .. => True
  | .pattern p =>
    ∀ t ∈ tokens hashComments text, p.location.start = some t.start → t.kind ∉ conditionKeywords

instance (c : Condition) : Decidable (c.SelfContained hashComments text) :=
  match c with
  | .group .. => inferInstanceAs (Decidable (_ → _ ∧ _))
  | .eval .. => inferInstanceAs (Decidable True)
  | .pattern _ => inferInstanceAs (Decidable (∀ t ∈ tokens hashComments text, _ → _))

def Freestanding (frames : Nat) (settings : Settings) (text : String) (ns : List Node) : Prop :=
  ∀ c, .condition c ∈ ns → c.SelfContained settings.hashComments text →
    StandsAlone frames settings text c

namespace Freestanding

theorem nil : Freestanding frames settings text [] := fun _ hc => absurd hc List.not_mem_nil

theorem append (h : Freestanding frames settings text ns)
    (h' : Freestanding frames settings text ms) :
    Freestanding frames settings text (ns ++ ms) := fun c hc =>
  (List.mem_append.1 hc).elim (h c) (h' c)

theorem cons {c : Condition}
    (hc : c.SelfContained settings.hashComments text → StandsAlone frames settings text c)
    (h : Freestanding frames settings text ns) :
    Freestanding frames settings text (.condition c :: ns) := by
  intro d hd
  rcases List.mem_cons.1 hd with heq | hd
  · cases heq
    exact hc
  · exact h d hd

theorem of_no_condition (h : ∀ n ∈ ns, ∀ c, n ≠ .condition c) :
    Freestanding frames settings text ns :=
  fun c hc => absurd rfl (h _ hc c)

end Freestanding

theorem ne_condition_of_mem_constraints {constraints : List Constraint} {n : Node}
    (h : n ∈ constraints.flatMap Pattern.nodes.constraintNodes) (c : Condition) :
    n ≠ .condition c := by
  obtain ⟨x, -, hn⟩ := List.mem_flatMap.1 h
  cases x with
  | field x =>
    rcases List.mem_cons.1 hn with rfl | hn
    · exact fun heq => by cases heq
    · obtain ⟨r, -, rfl⟩ := List.mem_map.1 hn
      exact fun heq => by cases heq
  | binding | predicate =>
    rw [List.mem_singleton.1 hn]
    exact fun heq => by cases heq

namespace Parser

set_option synthInstance.maxSize 100000

variable {α : Type} {s t u : State} {c : Condition} {levels : Nat}

/-- The way from `s` to `u` in a text: no trial runs on it, and nothing is reported. -/
structure State.Clear (frames : Nat) (hashComments : Bool) (text : String) (s u : State) :
    Prop where
  stack : s.stack.frames = frames
  earnest : s.Earnest hashComments text
  evolves : s.Evolves u
  clean : u.collector.received = s.collector.received
  within : u.cursor.index ≤ u.cursor.front.size

namespace State.Clear

theorem left (h : s.Clear frames hashComments text u) (hst : s.Evolves t) (htu : t.Evolves u) :
    s.Clear frames hashComments text t where
  stack := h.stack
  earnest := h.earnest
  evolves := hst
  clean := by
    have hclean := h.clean
    have hle := hst.received_le
    have hle' := htu.received_le
    omega
  within := by
    rw [← htu.front]
    exact Nat.le_trans htu.index h.within

theorem right (h : s.Clear frames hashComments text u) (hst : s.Evolves t) (htu : t.Evolves u) :
    t.Clear frames hashComments text u where
  stack := hst.stack ▸ h.stack
  earnest := h.earnest.evolves hst
  evolves := htu
  clean := by
    have hclean := h.clean
    have hle := hst.received_le
    have hle' := htu.received_le
    omega
  within := h.within

theorem part {v : State} (h : s.Clear frames hashComments text v) (hst : s.Evolves t)
    (htu : t.Evolves u) (huv : u.Evolves v) : t.Clear frames hashComments text u :=
  (h.left (hst.trans htu) huv).right hst htu

theorem inside {n : Nesting} (h : s.Clear frames hashComments text u)
    (hsu : (s.within n).Evolves (u.within n)) :
    (s.within n).Clear frames hashComments text (u.within n) where
  stack := h.stack
  earnest := ⟨h.earnest.cursor, h.earnest.trials⟩
  evolves := hsu
  clean := h.clean
  within := h.within

end State.Clear

/-! ### Productions within others -/

def ReadsWithin (n : Nesting) (p q : Parser α) : Prop :=
  ∀ ⦃s t : State⦄ ⦃a : α⦄, p s = .ok a t → q (s.within n) = .ok a (t.within n)

theorem readsWithin_nested (n : Nesting) (p : Parser α) [Orderly p] :
    ReadsWithin n (nested n p) p := by
  intro s t a h
  obtain ⟨-, u, hu, rfl⟩ := nested_eq_ok.1 h
  have hstack : u.stack = s.stack.take n := (Orderly.evolves_ok p hu).stack
  rw [hu, State.within, State.unwound, ← hstack]

namespace ReadsWithin

variable {n : Nesting} {p q : Parser Condition}

theorem nextOperand (h : ReadsWithin n p q) :
    ReadsWithin n (Parser.nextOperand p) (Parser.nextOperand q) := by
  intro s t c hc
  obtain ⟨token, u, hu, hc⟩ := bind_eq_ok.1 hc
  have hadvance : advance (s.within n) = .ok token (u.within n) := by
    rw [advance_eq] at hu ⊢
    cases hu
    rfl
  exact (bind_of_ok hadvance).trans (h hc)

theorem items {goes : TokenKind → Bool} (h : ReadsWithin n p q) {cs : List Condition}
    (hcs : Items goes p s cs u) : Items goes q (s.within n) cs (u.within n) := by
  induction hcs with
  | done hgoes => exact .done hgoes
  | more hgoes hc _ ih => exact .more hgoes (h hc) ih

theorem infixGroup [Orderly p] [Orderly q] (h : ReadsWithin n p q) (kind : Grouping)
    {connectives : List TokenKind} (hkinds : connectives ∈ [orKinds, andKinds]) :
    ReadsWithin n (Parser.infixGroup kind connectives p)
      (Parser.infixGroup kind connectives q) := by
  intro s t c hc
  obtain ⟨first, u, others, hfirst, hothers, hjoin⟩ := (infixGroup_ok_iff hkinds).1 hc
  exact (infixGroup_ok_iff hkinds).2
    ⟨first, u.within n, others, h hfirst, h.nextOperand.items hothers, hjoin⟩

theorem disjunction [Orderly p] [Orderly q] (h : ReadsWithin n p q) :
    ReadsWithin n (Parser.disjunction p) (Parser.disjunction q) :=
  (h.infixGroup .and (by simp)).infixGroup .or (by simp)

end ReadsWithin

/-! ### Single conditions -/

theorem standsAlone_of_sole (h : s.Clear frames settings.hashComments text u)
    (hlevels : levels ≤ frames) (hsole : soleCondition (conditionWithin levels) s = .ok c u)
    (hspan : c.Laid text s.cursor.coming u.cursor.past) : StandsAlone frames settings text c := by
  rw [← h.stack] at hlevels ⊢
  refine standsAlone_of_replays h.earnest h.evolves h.within
    (lands_of_ok (soleCondition (conditionWithin levels)) h.earnest.hidden hsole h.clean) ?_ hspan
  exact (State.Replays.of_ok hsole h.clean).mono fun hstack hend hread =>
    conditions_of_sole (hstack ▸ hlevels) (sole_of_ok hread) (notMem_continuingKinds_of_end hend)

theorem kind_of_selfContained {p : Pattern} {b : Nat} (hs : s.Earnest hashComments text)
    (hname : s.cursor.current.isName = true) (hspan : p.Laid text s.cursor.coming b)
    (h : (Condition.pattern p).SelfContained hashComments text) :
    s.cursor.current.kind ∉ conditionKeywords := by
  exact h _ (hs.current_mem (Eager.ne_endOfInput_of_isName hname)) hspan.location.start

theorem standsAlone_of_pattern {q : Parser Pattern} [Orderly q] [Tokenwise q] [Eager q]
    [Local Continues q] {p : Pattern}
    (hread : ∀ {t v : State}, t.stack = s.stack → t.cursor.current.kind ∉ conditionKeywords →
      v.cursor.current.kind = .endOfInput → q t = .ok p v → conditions t = .ok (.pattern p) v)
    (h : s.Clear frames settings.hashComments text u) (hp : q s = .ok p u)
    (hname : s.cursor.current.isName = true) (hspan : p.Laid text s.cursor.coming u.cursor.past)
    (hself : (Condition.pattern p).SelfContained settings.hashComments text) :
    StandsAlone frames settings text (.pattern p) := by
  have hkind := kind_of_selfContained h.earnest hname hspan hself
  rw [← h.stack]
  have hlands := lands_of_ok q h.earnest.hidden hp h.clean
  refine standsAlone_of_replays h.earnest h.evolves h.within hlands ?_ (.pattern hspan)
  intro t halong hend
  obtain ⟨v, hv, hwv, hclean, hvend⟩ := State.Replays.of_ok hp h.clean halong hend
  rw [halong.cursor.current_eq (Nat.not_le.2 hlands.1)] at hkind
  exact ⟨v, hread halong.stack.symm hkind hvend hv, hwv, hclean, hvend⟩

theorem standsAlone_patternWithin {p : Pattern} (h : s.Clear frames settings.hashComments text u)
    (hlevels : levels ≤ frames + 1) (hp : patternWithin levels s = .ok p u)
    (hself : (Condition.pattern p).SelfContained settings.hashComments text) :
    StandsAlone frames settings text (.pattern p) :=
  standsAlone_of_pattern (fun hstack hkind hend hp =>
    conditions_of_pattern (by rwa [hstack, h.stack]) hkind hp
      (notMem_continuingKinds_of_end hend)) h hp
    (isName_of_patternWithin hp) (patternWithin_laid levels h.earnest.cursor_over hp) hself

theorem standsAlone_factPattern {p : Pattern} (h : s.Clear frames settings.hashComments text u)
    (hp : factPattern s = .ok p u)
    (hself : (Condition.pattern p).SelfContained settings.hashComments text) :
    StandsAlone frames settings text (.pattern p) :=
  standsAlone_of_pattern
    (fun _ hkind hend hp => conditions_of_pattern (Nat.le_add_left 1 _) hkind
      (patternWithin_of_factPattern hp (notMem_continuingKinds_of_end hend))
      (notMem_continuingKinds_of_end hend))
    h hp (isName_of_factPattern hp) (factPattern_laid h.earnest.cursor_over hp) hself

/-! ### Patterns -/

theorem nodes_of_accumulate {source : Source}
    (h : accumulate (patternWithin levels) s = .ok source u) :
    ∃ input t v, nested .source (patternWithin levels) t = .ok input v ∧ s.Evolves t ∧ v.Evolves u ∧
      source.nodes = .source source :: input.nodes := by
  obtain ⟨token, v, hv, h⟩ := bind_eq_ok.1 h
  obtain ⟨_, w, hw, h⟩ := bind_eq_ok.1 h
  obtain ⟨input, x, hx, h⟩ := bind_eq_ok.1 h
  refine ⟨input, w, x, hx, (Orderly.evolves_ok _ hv).trans (Orderly.evolves_ok _ hw),
    Orderly.evolves_ok _ h, ?_⟩
  obtain ⟨_, _, -, h⟩ := bind_eq_ok.1 h
  obtain ⟨_, _, -, h⟩ := bind_eq_ok.1 h
  obtain ⟨_, _, -, h⟩ := bind_eq_ok.1 h
  obtain ⟨_, _, -, h⟩ := bind_eq_ok.1 h
  obtain ⟨_, _, -, h⟩ := bind_eq_ok.1 h
  obtain ⟨_, _, -, h⟩ := bind_eq_ok.1 h
  obtain ⟨_, _, -, h⟩ := bind_eq_ok.1 h
  obtain ⟨_, _, -, h⟩ := bind_eq_ok.1 h
  obtain ⟨_, _, -, h⟩ := bind_eq_ok.1 h
  obtain ⟨_, _, -, h⟩ := bind_eq_ok.1 h
  rw [(pure_ok h).1, Source.nodes]

theorem nodes_of_collect {source : Source} (h : collect (patternWithin levels) s = .ok source u) :
    ∃ input t v, nested .source (patternWithin levels) t = .ok input v ∧ s.Evolves t ∧ v.Evolves u ∧
      source.nodes = .source source :: input.nodes := by
  obtain ⟨token, v, hv, h⟩ := bind_eq_ok.1 h
  obtain ⟨_, w, hw, h⟩ := bind_eq_ok.1 h
  obtain ⟨input, x, hx, h⟩ := bind_eq_ok.1 h
  refine ⟨input, w, x, hx, (Orderly.evolves_ok _ hv).trans (Orderly.evolves_ok _ hw),
    Orderly.evolves_ok _ h, ?_⟩
  obtain ⟨_, _, -, h⟩ := bind_eq_ok.1 h
  obtain ⟨_, _, -, h⟩ := bind_eq_ok.1 h
  rw [(pure_ok h).1, Source.nodes]

theorem fromSource_ok {source : Source} (h : fromSource (patternWithin levels) s = .ok source u) :
    (∃ r, source = .retrieval r) ∨
      ∃ input t v, nested .source (patternWithin levels) t = .ok input v ∧ s.Evolves t ∧
        v.Evolves u ∧ source.nodes = .source source :: input.nodes := by
  have hretrieval : ∀ {t : State}, (Source.retrieval <$> retrieval) t = .ok source u →
      ∃ r, source = .retrieval r := fun h =>
    let ⟨r, _, hr⟩ := map_eq_ok h
    ⟨r, hr⟩
  obtain ⟨_, v, hv, h⟩ := bind_eq_ok.1 h
  have hsv := Orderly.evolves_ok _ hv
  obtain ⟨_, _, hlook, h⟩ := bind_eq_ok.1 h
  cases hlook
  split at h
  · obtain ⟨b, w, hw, h⟩ := bind_eq_ok.1 h
    have hsw := hsv.trans (Orderly.evolves_ok _ hw)
    split at h
    · obtain ⟨input, x, y, hinput, hwx, hyu, hnodes⟩ := nodes_of_accumulate h
      exact .inr ⟨input, x, y, hinput, hsw.trans hwx, hyu, hnodes⟩
    · exact .inl (hretrieval h)
  obtain ⟨_, _, hlook, h⟩ := bind_eq_ok.1 h
  cases hlook
  split at h
  · obtain ⟨b, w, hw, h⟩ := bind_eq_ok.1 h
    have hsw := hsv.trans (Orderly.evolves_ok _ hw)
    split at h
    · obtain ⟨input, x, y, hinput, hwx, hyu, hnodes⟩ := nodes_of_collect h
      exact .inr ⟨input, x, y, hinput, hsw.trans hwx, hyu, hnodes⟩
    · exact .inl (hretrieval h)
  · exact .inl (hretrieval h)

theorem freestanding_pattern {p : Pattern}
    (h : (Condition.pattern p).SelfContained settings.hashComments text →
      StandsAlone frames settings text (.pattern p))
    (hsource : Freestanding frames settings text p.source.nodes) :
    Freestanding frames settings text p.nodes := by
  obtain ⟨location, objectType, name, constraints, source, left, right⟩ := p
  rw [Pattern.nodes]
  exact .cons h (.append (.of_no_condition fun n hn => ne_condition_of_mem_constraints hn) hsource)

theorem source_of_factPattern {p : Pattern} (h : factPattern s = .ok p u) :
    p.source = .workingMemory := by
  obtain ⟨_, _, -, h⟩ := bind_eq_ok.1 h
  obtain ⟨_, _, -, h⟩ := bind_eq_ok.1 h
  obtain ⟨_, _, -, h⟩ := bind_eq_ok.1 h
  obtain ⟨_, _, -, h⟩ := bind_eq_ok.1 h
  obtain ⟨_, _, -, h⟩ := bind_eq_ok.1 h
  obtain ⟨_, _, -, h⟩ := bind_eq_ok.1 h
  obtain ⟨_, _, -, h⟩ := bind_eq_ok.1 h
  rw [(pure_ok h).1]

theorem freestanding_factPattern {p : Pattern} (h : s.Clear frames settings.hashComments text u)
    (hp : factPattern s = .ok p u) : Freestanding frames settings text p.nodes := by
  refine freestanding_pattern (standsAlone_factPattern h hp) ?_
  rw [source_of_factPattern hp, Source.nodes]
  exact .nil

theorem freestanding_patternWithin {p : Pattern} (hlevels : levels ≤ frames + 1)
    (h : s.Clear frames settings.hashComments text u) (hp : patternWithin levels s = .ok p u) :
    Freestanding frames settings text p.nodes := by
  induction levels generalizing s u p with
  | zero => cases hp
  | succ levels ih =>
    refine freestanding_pattern (standsAlone_patternWithin h hlevels hp) ?_
    obtain ⟨fact, t, hfact, hp⟩ := bind_eq_ok.1 hp
    have hst := Orderly.evolves_ok _ hfact
    obtain ⟨_, _, hlook, hp⟩ := bind_eq_ok.1 hp
    cases hlook
    split at hp
    · obtain ⟨source, v, hsource, hp⟩ := bind_eq_ok.1 hp
      obtain ⟨rfl, rfl⟩ := pure_ok hp
      show Freestanding frames settings text source.nodes
      rcases fromSource_ok hsource with ⟨r, rfl⟩ | ⟨input, x, y, hinput, htx, hyv, hnodes⟩
      · rw [Source.nodes]
        refine .of_no_condition fun n hn => ?_
        rcases List.mem_cons.1 hn with rfl | hn
        · exact fun c heq => by cases heq
        rcases List.mem_cons.1 hn with rfl | hn
        · exact fun c heq => by cases heq
        · obtain ⟨a, -, rfl⟩ := List.mem_map.1 hn
          exact fun c heq => by cases heq
      · have hxy := Orderly.evolves_ok _ hinput
        have hself :
            Freestanding frames settings text [.source source] := .of_no_condition fun n hn => by
          rw [List.mem_singleton.1 hn]
          exact fun c heq => by cases heq
        rw [hnodes]
        have hpart := h.part (hst.trans htx) hxy hyv
        have hwithin := readsWithin_nested .source (patternWithin levels) hinput
        exact .append hself (ih (Nat.le_of_succ_le hlevels)
          (hpart.inside (Orderly.evolves_ok _ hwithin)) hwithin)
    · obtain ⟨rfl, rfl⟩ := pure_ok hp
      rw [source_of_factPattern hfact, Source.nodes]
      exact .nil

theorem freestanding_sourcedPattern {p : Pattern} (h : s.Clear frames settings.hashComments text u)
    (hp : sourcedPattern s = .ok p u) : Freestanding frames settings text p.nodes := by
  rw [sourcedPattern_eq, h.stack] at hp
  exact freestanding_patternWithin (Nat.le_refl _) h hp

/-! ### Groups -/

/-- What a production of conditions reads without complaint is free-standing. -/
def Stands (frames : Nat) (settings : Settings) (text : String) (p : Parser Condition) : Prop :=
  ∀ ⦃s u : State⦄ ⦃c : Condition⦄, s.Clear frames settings.hashComments text u → p s = .ok c u →
    Freestanding frames settings text c.nodes

theorem Stands.within {n : Nesting} {p q : Parser Condition} [Orderly q] (hpq : ReadsWithin n p q)
    (h : Stands frames settings text q) : Stands frames settings text p := fun _ _ _ hclear hc =>
  h (hclear.inside (Orderly.evolves_ok q (hpq hc))) (hpq hc)

theorem Stands.nested {p : Parser Condition} [Orderly p] (h : Stands frames settings text p)
    (n : Nesting) : Stands frames settings text (nested n p) :=
  h.within (readsWithin_nested n p)

theorem freestanding_items {goes : TokenKind → Bool} {item : Parser α} [Orderly item]
    {f : α → Condition}
    (hitem : ∀ {s u : State} {x : α}, s.Clear frames settings.hashComments text u →
      item s = .ok x u → Freestanding frames settings text (f x).nodes)
    {xs : List α} (h : Items goes item s xs u)
    (hclear : s.Clear frames settings.hashComments text u) :
    Freestanding frames settings text (Condition.listNodes (xs.map f)) := by
  induction h with
  | done =>
    rw [List.map_nil, Condition.listNodes]
    exact .nil
  | @more s t u x xs _ hx hrest ih =>
    have hst := Orderly.evolves_ok item hx
    rw [List.map_cons, Condition.listNodes]
    exact .append (hitem (hclear.left hst hrest.evolves) hx) (ih (hclear.right hst hrest.evolves))

theorem stands_nextOperand {p : Parser Condition} [Orderly p] (hp : Stands frames settings text p) :
    Stands frames settings text (nextOperand p) := by
  intro s u c h hc
  obtain ⟨_, t, ht, hc⟩ := bind_eq_ok.1 hc
  exact hp (h.right (Orderly.evolves_ok _ ht) (Orderly.evolves_ok _ hc)) hc

theorem nodes_join {kind : Grouping} {first : Condition} {others : List Condition}
    (hne : others ≠ []) :
    (join kind first others).nodes =
      .condition (join kind first others) :: Condition.listNodes (first :: others) := by
  obtain ⟨last, hlast⟩ : ∃ last, others.getLast? = some last :=
    ⟨_, List.getLast?_eq_some_getLast hne⟩
  unfold join
  rw [hlast]
  exact Condition.nodes.eq_1 _ _ _

theorem State.Passed.behind_eq (h : s.Passed t []) : t.cursor.behind = s.cursor.behind := by
  obtain ⟨-, ts, htook, hkinds⟩ := h
  rw [List.map_eq_nil_iff.1 hkinds] at htook
  rw [htook, List.append_nil]

/-- Where nothing is taken, the same token is the next one. -/
theorem coming_of_passed (hs : s.cursor.triviaVisible = false) (h : s.Passed t []) :
    t.cursor.coming = s.cursor.coming := by
  have hbehind := h.behind_eq
  have hall := t.cursor.behind_append_ahead
  rw [h.evolves.front, ← s.cursor.behind_append_ahead, hbehind, List.append_cancel_left_eq] at hall
  have hlast : t.cursor.last = s.cursor.last := by rw [h.evolves.cursor]; rfl
  unfold Cursor.coming
  rw [Cursor.current_of_hidden hs, Cursor.current_of_hidden (h.evolves.triviaVisible.trans hs),
    hall, hlast]

/-- Where nothing is taken, the same token is the last one. -/
theorem past_of_passed (hsize : t.cursor.index ≤ t.cursor.front.size) (h : s.Passed t []) :
    t.cursor.past = s.cursor.past := by
  have hsize' : s.cursor.index ≤ s.cursor.front.size := by
    rw [← h.evolves.front]
    exact Nat.le_trans h.evolves.index hsize
  unfold Cursor.past
  rw [Cursor.previous_eq_getLast? hsize, Cursor.previous_eq_getLast? hsize', h.behind_eq]

theorem selfContained_join {kind : Grouping} (hkind : kind = .and ∨ kind = .or) {first : Condition}
    {others : List Condition} (hne : others ≠ [])
    (h : (join kind first others).SelfContained hashComments text) :
    Paired (Condition.listOutline (kindsBetween hashComments text) (first :: others)) ∧
      Exposed (Condition.listOutline (kindsBetween hashComments text) (first :: others)) := by
  unfold join at h
  rw [List.getLast?_eq_some_getLast hne] at h
  have hself := h hkind
  rw [Condition.outline, if_pos hkind] at hself
  exact hself

theorem standsAlone_join {kind : Grouping} {p : Parser Condition}
    {first : Condition} {others : List Condition} {w : State} {opening closing : List TokenKind}
    (h : s.Clear frames settings.hashComments text u) (hne : others ≠ [])
    (hw : Confined settings.hashComments text p s (join kind first others) (first :: others) u w
      opening closing)
    (hp : ∀ {t v : State}, t.stack = s.stack → v.cursor.current.kind = .endOfInput →
      p t = .ok (join kind first others) v → conditions t = .ok (join kind first others) v)
    (hlaid : Between (Condition.Laid text) s.cursor.coming u.cursor.past (join kind first others))
    (hpaired : Paired
      (Condition.listOutline (kindsBetween settings.hashComments text) (first :: others))) :
    StandsAlone frames settings text (join kind first others) := by
  obtain ⟨x, y, inner, hsx, hxy, hyw, ⟨first', hfirst, hstart⟩, last, hlast, hstop⟩ :=
    hw.framed.places
  have hlength : 2 ≤ (first :: others).length := by
    have hpos := List.length_pos_iff.2 hne
    rw [List.length_cons]
    omega
  obtain ⟨rfl, rfl⟩ := hw.framed.tight hlength hpaired
  cases hfirst
  rw [List.getLast?_cons, List.getLast?_eq_some_getLast hne] at hlast
  cases hlast
  have hwu := Orderly.evolves_ok (skip .semicolon) hw.rest
  have hsize : w.cursor.index ≤ w.cursor.front.size := by
    rw [← hwu.front]
    exact Nat.le_trans hwu.index h.within
  have hlocation : (join kind first others).location =
      { first.location with stop := (others.getLast hne).location.stop } := by
    rw [join, List.getLast?_eq_some_getLast hne]
    rfl
  -- what is laid out between the first token and a semicolon ends before that
  obtain ⟨a, b, -, -, hcovers⟩ := hlaid
  have hcoming : some a = some s.cursor.coming := by
    rw [← hcovers.location.start, hlocation, ← coming_of_passed h.earnest.hidden hsx]
    exact hstart
  have hpast : some b = some w.cursor.past := by
    rw [← hcovers.location.stop, hlocation, past_of_passed hsize hyw]
    exact hstop
  cases hcoming
  cases hpast
  rw [← h.stack]
  exact standsAlone_of_replays h.earnest hw.framed.evolves hsize hw.lands
    (hw.replays.mono hp) hcovers

section Groups

variable {kind : Grouping} {connectives : List TokenKind} {operand : Parser Condition}
  [Orderly operand]
  [Eager operand] [Local Continues operand]

theorem stands_infixGroup (hkind : kind = .and ∨ kind = .or)
    (hkinds : connectives ∈ [orKinds, andKinds]) (hoperand : Stands frames settings text operand)
    (hconfines : Confines settings.hashComments text operand) (hlays : LaysConditions text operand)
    (hgroup : ∀ {t v : State} {c : Condition}, t.stack.frames = frames →
      v.cursor.current.kind = .endOfInput → infixGroup kind connectives operand t = .ok c v →
        conditions t = .ok c v) :
    Stands frames settings text (infixGroup kind connectives operand) := by
  intro s u c h hc
  obtain ⟨first, t, others, hfirst, hothers, rfl⟩ := (infixGroup_ok_iff hkinds).1 hc
  have hst := Orderly.evolves_ok operand hfirst
  have hlaid := infixGroup_laid hlays kind connectives h.earnest.cursor_over hc
  by_cases hne : others = []
  · subst hne
    cases hothers with
    | done => exact hoperand h hfirst
  · obtain ⟨w, opening, closing, hw⟩ :=
      infixGroup_confined hkinds hconfines h.earnest hfirst hothers hne h.clean
    have hitems :=
      freestanding_items (f := id) (fun h hc => stands_nextOperand hoperand h hc) hothers
      (h.right hst hothers.evolves)
    rw [List.map_id] at hitems
    rw [nodes_join hne, Condition.listNodes]
    refine .cons (fun hself => standsAlone_join h hne hw
        (fun hstack => hgroup (hstack ▸ h.stack)) hlaid (selfContained_join hkind hne hself).1)
      (.append (hoperand (h.left hst hothers.evolves) hfirst) hitems)

end Groups

/-! ### Conditions within conditions -/

section Within

theorem stands_disjunction (hlevels : levels ≤ frames + 1)
    (hsingle : Stands frames settings text (conditionWithin levels)) :
    Stands frames settings text (disjunction (conditionWithin levels)) := by
  have hconceals : Conceals settings.hashComments text (conditionWithin levels) :=
    conceals_conditionWithin levels
  have hconjunction : Local Continues (infixGroup .and andKinds (conditionWithin levels)) :=
    Local.infixGroup .and (by simp)
  have hlays : LaysConditions text (conditionWithin levels) := conditionWithin_laid levels
  refine stands_infixGroup (.inr rfl) (by simp) ?_ ?_ (infixGroup_laid hlays .and andKinds)
    fun hframes _ h => conditions_of_disjunction (hframes ▸ hlevels) h
  · exact stands_infixGroup (.inl rfl) (by simp) hsingle hconceals.confines hlays
      fun hframes hend h =>
        conditions_of_conjunction (hframes ▸ hlevels) h (notMem_continuingKinds_of_end hend)
  · exact confines_infixGroup (.inl rfl) (by simp) hconceals.confines

theorem stands_prefixGroup (hsingle : Stands frames settings text (conditionWithin levels)) :
    Stands frames settings text (prefixGroup (nested .prefixed (conditionWithin levels))) := by
  intro s u c h hc
  obtain ⟨connective, t, first, others, v, closing, hadvance, hitems, hclose, rfl⟩ :=
    prefixGroup_ok hc
  have hst := Orderly.evolves_ok advance hadvance
  have hvu := Orderly.evolves_ok (symbol .rparen) hclose
  have hwithin := h.part hst hitems.evolves hvu
  have hoperands := freestanding_items (f := id) (fun h hc => hsingle.nested .prefixed h hc) hitems
    hwithin
  rw [List.map_id] at hoperands
  by_cases hne : others = []
  · subst hne
    rw [Condition.listNodes, Condition.listNodes, List.append_nil] at hoperands
    exact hoperands
  · rw [nodes_join hne]
    refine .cons (fun hself => ?_) hoperands
    -- nothing that is written between the operands of a prefix connective is exposed
    obtain ⟨w, before, behind, -, hframed, hconcealed⟩ := exists_framed_operands
      ((conceals_conditionWithin levels).nested .prefixed) hitems hwithin.earnest hwithin.clean
      (List.cons_ne_nil _ _)
    have hkind : ∀ b : Prop, [Decidable b] →
        (if b then Grouping.or else .and) = .and ∨ (if b then Grouping.or else .and) = .or := by
      intro b _
      split
      · exact .inr rfl
      · exact .inl rfl
    obtain ⟨hpaired, hexposed⟩ := selfContained_join (hkind _) hne hself
    have hlength : 2 ≤ (first :: others).length := by
      have hpos := List.length_pos_iff.2 hne
      rw [List.length_cons]
      omega
    obtain ⟨rfl, rfl⟩ := hframed.tight hlength hpaired
    rw [List.nil_append, List.append_nil] at hconcealed
    exact absurd hexposed hconcealed

theorem stands_parenthesised (hlevels : levels ≤ frames + 1)
    (hsingle : Stands frames settings text (conditionWithin levels)) :
    Stands frames settings text (parenthesised (conditionWithin levels)) := by
  intro s u c h hc
  cases parenthesised_ok hc with
  | disjunction hopen hc hclose =>
    have hgroup :=
      (stands_disjunction hlevels hsingle).within (readsWithin_nested .group _).disjunction
    exact hgroup (h.part (Orderly.evolves_ok (symbol .lparen) hopen)
      (Orderly.evolves_ok (disjunction _) hc) (Orderly.evolves_ok (symbol .rparen) hclose)) hc
  | prefixed hopen _ hc =>
    exact stands_prefixGroup hsingle (h.right (Orderly.evolves_ok (symbol .lparen) hopen)
      (Orderly.evolves_ok (prefixGroup _) hc)) hc

theorem stands_operand (hlevels : levels ≤ frames + 1)
    (hsingle : Stands frames settings text (conditionWithin levels)) :
    Stands frames settings text (operand (conditionWithin levels)) := by
  intro s u c h hc
  obtain ⟨_, _, hlook, hc⟩ := bind_eq_ok.1 hc
  cases hlook
  split at hc
  · exact stands_parenthesised hlevels hsingle h hc
  · obtain ⟨p, hp, rfl⟩ := map_eq_ok hc
    exact freestanding_sourcedPattern h hp

theorem freestanding_sole (hlevels : levels ≤ frames)
    (hsingle : Stands frames settings text (conditionWithin levels))
    (h : s.Clear frames settings.hashComments text u) (hc : Sole (conditionWithin levels) s c u) :
    Freestanding frames settings text c.nodes := by
  have hwhole := fun hspan => standsAlone_of_sole h hlevels hc.ok hspan
  cases hc with
  | @unary k kind _ _ hk hc =>
    have hspan := unaryGroup_spans (conditionWithin_laid levels) k kind h.earnest.cursor_over hc
    obtain ⟨token, t, d, l, hkeyword, hoperand, rfl⟩ := unaryGroup_ok hc
    have hst := Orderly.evolves_ok (keyword k) hkeyword
    rw [Condition.nodes, Condition.listNodes, Condition.listNodes, List.append_nil]
    have hwithin := (stands_operand (Nat.le_succ_of_le hlevels) hsingle).nested .operand
    exact .cons (fun _ => hwhole hspan)
      (hwithin (h.right hst (Orderly.evolves_ok (nested .operand (operand _)) hoperand)) hoperand)
  | eval hc =>
    have hspan := evalCondition_spans h.earnest.cursor_over hc
    obtain ⟨l, code, rfl⟩ := evalCondition_ok hc
    rw [Condition.nodes]
    exact .cons (fun _ => hwhole hspan) .nil
  | forall_ hc =>
    have hspan := forallCondition_spans h.earnest.cursor_over hc
    obtain ⟨token, opening, base, t, v, w, closing, patterns, x, l, hkeyword, hopen, hbase,
      hitems, hclose, rfl⟩ := forallCondition_ok hc
    have hsv := (Orderly.evolves_ok (keyword .forall_) hkeyword).trans
      (Orderly.evolves_ok (symbol .lparen) hopen)
    have hvw := Orderly.evolves_ok factPattern hbase
    have hxu := Orderly.evolves_ok (symbol .rparen) hclose
    rw [Condition.nodes, List.map_cons, Condition.listNodes, Condition.nodes]
    refine .cons (fun _ => hwhole hspan) (.append ?_ ?_)
    · exact freestanding_factPattern (h.part hsv hvw (hitems.evolves.trans hxu)) hbase
    · refine freestanding_items (fun {s u p} h hp => ?_) hitems
        (h.part (hsv.trans hvw) hitems.evolves hxu)
      obtain ⟨_, s', hskip, hp⟩ := bind_eq_ok.1 hp
      rw [Condition.nodes]
      exact freestanding_factPattern (h.right (Orderly.evolves_ok (skip .comma) hskip)
        (Orderly.evolves_ok factPattern hp)) hp
  | parens hc => exact stands_parenthesised (Nat.le_succ_of_le hlevels) hsingle h hc
  | pattern _ hp =>
    rw [Condition.nodes]
    exact freestanding_sourcedPattern h hp

theorem stands_conditionWithin (hlevels : levels ≤ frames + 1) :
    Stands frames settings text (conditionWithin levels) := by
  induction levels with
  | zero =>
    intro s u c _ hc
    cases hc
  | succ levels ih =>
    intro s u c h hc
    have heq : conditionWithin (levels + 1) = soleCondition (conditionWithin levels) >>= fun c => do
        skip .semicolon
        return c :=
      singleCondition_eq _
    rw [heq] at hc
    obtain ⟨c', t, ht, hc⟩ := bind_eq_ok.1 hc
    obtain ⟨_, v, hv, hc⟩ := bind_eq_ok.1 hc
    obtain ⟨rfl, rfl⟩ := pure_ok hc
    exact freestanding_sole (Nat.le_of_succ_le_succ hlevels) (ih (Nat.le_of_succ_le hlevels))
      (h.left (Orderly.evolves_ok (soleCondition _) ht) (Orderly.evolves_ok (skip .semicolon) hv))
      (sole_of_ok ht)

theorem stands_conditions : Stands frames settings text conditions := by
  intro s u c h hc
  rw [conditions_eq, h.stack] at hc
  exact stands_disjunction (Nat.le_refl _) (stands_conditionWithin (Nat.le_refl _)) h hc

end Within

/-! ### Blocks -/

theorem evolves_of_elements {cs : List Condition} (h : Elements s cs u) : s.Evolves u := by
  induction h with
  | done => exact .refl _
  | more _ hc _ _ ih => exact (Orderly.evolves_ok conditions hc).trans ih

theorem freestanding_elements {cs : List Condition}
    (h : s.Clear frames settings.hashComments text u) (hcs : Elements s cs u) :
    Freestanding frames settings text (Condition.listNodes cs) := by
  induction hcs with
  | done =>
    rw [Condition.listNodes]
    exact .nil
  | @more s t u c cs _ hc _ hrest ih =>
    have hst := Orderly.evolves_ok conditions hc
    have htu := evolves_of_elements hrest
    rw [Condition.listNodes]
    exact .append (stands_conditions (h.left hst htu) hc) (ih (h.right hst htu))

theorem BlockRead.evolves {b : Block} (h : BlockRead b s u) : s.Evolves u := by
  obtain ⟨anchor, t, v, hst, hblock, hvu⟩ := h
  exact hst.trans ((Orderly.evolves_ok (block anchor) hblock).trans hvu)

theorem freestanding_block {b : Block} (h : s.Clear frames settings.hashComments text u)
    (hb : BlockRead b s u) :
    Freestanding frames settings text (Condition.listNodes b.elements) := by
  obtain ⟨anchor, t, v, hst, hblock, hvu⟩ := hb
  have htv := Orderly.evolves_ok (block anchor) hblock
  have hpart := h.part hst htv hvu
  obtain ⟨elements, v', helements, hblock⟩ := bind_eq_ok.1 hblock
  obtain ⟨rfl, rfl⟩ := pure_ok hblock
  exact freestanding_elements hpart
    (elements_of_blockElements hpart.earnest.trials helements hpart.clean)

end Parser

/-- A condition of a rule or query of a text that is parsed without diagnostics. -/
def ConditionOf (frames : Nat) (settings : Settings) (text : String) (c : Condition) : Prop :=
  ∃ sourceName r, parse frames settings sourceName text = .ok r ∧ r.errors = [] ∧
    ∃ e ∈ r.package.rules, ∃ b, e.block? = some b ∧ .condition c ∈ Condition.listNodes b.elements

/-- What a condition covers is read as that condition, if it is a text of its own. -/
theorem conditions_stand_alone (hvalid : settings.Valid) {c : Condition}
    (hc : ConditionOf frames settings text c) (hself : c.SelfContained settings.hashComments text) :
    StandsAlone frames settings text c := by
  obtain ⟨sourceName, r, h, hclean, e, he, b, hb, hc⟩ := hc
  have hidle := idle_ofText frames settings sourceName text
  obtain ⟨t, hunit, hst, hreceived⟩ := exists_clean_unit hvalid h hclean
  have hstart : (State.ofText frames settings sourceName text).cursor.index = 0 :=
    index_ofTokens text
  have hwithin : t.cursor.Within (State.ofText frames settings sourceName text).cursor.front :=
    after_of_ok hunit ▸ Composed.within inferInstance ⟨rfl, hstart ▸ Nat.zero_le _⟩
  obtain ⟨hrules, hrecorded⟩ := compilationUnit_recorded hidle rfl hunit
  obtain ⟨u, v, -, hsu, hread, hvt⟩ := hrecorded e (hrules ▸ he)
  obtain ⟨name, hblock⟩ := hread.block hb
  have huv := hblock.evolves
  have hvclean : v.collector.received = 0 :=
    Nat.eq_zero_of_le_zero (hreceived ▸ hvt.received_le)
  have huclean : u.collector.received = 0 :=
    Nat.eq_zero_of_le_zero (hvclean ▸ huv.received_le)
  have hearnest : (State.ofText frames settings sourceName text).Earnest settings.hashComments
      text := ⟨rfl, rfl⟩
  have huearnest := hearnest.evolves hsu
  have hclear : State.Clear frames settings.hashComments text { u with ruleName := some name } v :=
    { stack := congrArg Stack.frames hsu.stack
      earnest := ⟨huearnest.cursor, huearnest.trials⟩
      evolves := huv
      clean := hvclean.trans huclean.symm
      within := by
        rw [← hvt.front, hwithin.front]
        exact Nat.le_trans hvt.index hwithin.index }
  exact freestanding_block hclear hblock c hc hself

/-! ### Texts with such a condition -/

def hasCondition (frames : Nat) (settings : Settings) (text : String) (p : Condition → Bool) :
    Bool :=
  (parse frames settings "" text).toOption.any fun r => r.errors.isEmpty &&
    r.package.rules.any fun e => e.block?.any fun b => (Condition.listNodes b.elements).any fun
      | .condition c => p c
      | _ => false

theorem exists_of_hasCondition {p : Condition → Bool}
    (h : hasCondition frames settings text p = true) :
    ∃ c, ConditionOf frames settings text c ∧ p c = true := by
  unfold hasCondition at h
  cases hparse : parse frames settings "" text with
  | error f => rw [hparse] at h; cases h
  | ok r =>
    rw [hparse] at h
    obtain ⟨hclean, h⟩ := Bool.and_eq_true_iff.1 h
    obtain ⟨e, he, h⟩ := List.any_eq_true.1 h
    obtain ⟨b, hb, h⟩ := (Option.any_eq_true _ _).1 h
    obtain ⟨n, hn, h⟩ := List.any_eq_true.1 h
    cases n with
    | condition c => exact ⟨c, ⟨"", r, hparse, List.isEmpty_iff.1 hclean, e, he, b, hb, hn⟩, h⟩
    | _ => cases h

theorem conditions_stand_alone_group :
    ∃ c, ConditionOf 900 {} "rule R when $p : Person(age > 1) and not (A() || B()) then end" c ∧
      c.location.stop = some 53 ∧
      StandsAlone 900 {} "rule R when $p : Person(age > 1) and not (A() || B()) then end" c := by
  have hvalid : ({} : Settings).Valid := by simp [Settings.Valid]
  have hfound : hasCondition 900 {} "rule R when $p : Person(age > 1) and not (A() || B()) then end"
      (fun c =>
      decide (c.location.stop = some 53) && decide (c.SelfContained true
        "rule R when $p : Person(age > 1) and not (A() || B()) then end")) = true := by
    decide +kernel
  obtain ⟨c, hc, hp⟩ := exists_of_hasCondition hfound
  obtain ⟨hstop, hself⟩ := Bool.and_eq_true_iff.1 hp
  exact ⟨c, hc, of_decide_eq_true hstop, conditions_stand_alone hvalid hc (of_decide_eq_true hself)⟩

def wholeConditions : Parser (Option Condition) := do
  let d ← conditions
  return if (← get).cursor.ahead = [] then some d else none

def conditionsOf (frames : Nat) (settings : Settings) (text : String) : Option Condition :=
  (wholeConditions.run' (.ofText frames settings "" text)).join

theorem StandsAlone.isSome_pattern? {c : Condition} (h : StandsAlone frames settings text c) :
    (c.location.start.bind fun a => c.location.stop.bind fun b =>
      (conditionsOf frames settings (Text.slice text a b)).map (·.pattern?.isSome)) =
      some c.pattern?.isSome := by
  obtain ⟨a, b, d, hlaid, ⟨t, ht, hahead, -⟩, hlike, -⟩ := h
  have hwhole :
      wholeConditions (.ofText frames settings "" (Text.slice text a b)) = .ok (some d) t := by
    refine (bind_of_ok ht).trans ?_
    show EStateM.Result.ok (if t.cursor.ahead = [] then some d else none) t = _
    rw [if_pos hahead]
  have hread : conditionsOf frames settings (Text.slice text a b) = some d := by
    unfold conditionsOf EStateM.run' EStateM.run
    rw [hwhole]
    rfl
  rw [hlaid.location.start, hlaid.location.stop, Option.bind_some, Option.bind_some, hread]
  cases hlike <;> rfl

theorem exists_not_standsAlone (h : hasCondition frames settings text (fun c =>
      decide ((c.location.start.bind fun a => c.location.stop.bind fun b =>
        (conditionsOf frames settings (Text.slice text a b)).map (·.pattern?.isSome)) ≠
          some c.pattern?.isSome)) = true) :
    ∃ c, ConditionOf frames settings text c ∧ ¬StandsAlone frames settings text c := by
  obtain ⟨c, hc, hp⟩ := exists_of_hasCondition h
  exact ⟨c, hc, fun h => of_decide_eq_true hp h.isSome_pattern?⟩

/-- Conditions that do not stand alone: a conjunction whose first operand is in parentheses, one
with its connective before the operands, and a pattern with the name of a keyword. -/
theorem conditions_fall_apart :
    (∃ c, ConditionOf 900 {} "rule R when (A() or B()) and C() then end" c ∧
      ¬StandsAlone 900 {} "rule R when (A() or B()) and C() then end" c) ∧
    (∃ c, ConditionOf 900 {} "rule R when (and A() B()) then end" c ∧
      ¬StandsAlone 900 {} "rule R when (and A() B()) then end" c) ∧
    ∃ c, ConditionOf 900 {} "rule R when not eval(x == 1) then end" c ∧
      ¬StandsAlone 900 {} "rule R when not eval(x == 1) then end" c :=
  ⟨exists_not_standsAlone (by decide +kernel), exists_not_standsAlone (by decide +kernel),
    exists_not_standsAlone (by decide +kernel)⟩

end Rulebook
