import Rulebook.Proofs.ConditionParts
import Rulebook.Proofs.Framing

/-!
# Conditions up to their last token

The semicolon behind the last operand of a condition is no part of it. A condition is read in the
same way where the input ends before that semicolon, and what was taken up to there is the condition
and its frame.
-/

namespace Rulebook.Parser

set_option synthInstance.maxSize 100000

variable {α : Type} {s t u v w : State} {c : Condition} {hashComments : Bool} {text : String}

/-! ### Where the input ends -/

/-- What leads from the first state to the second one leads as far in every text that ends there. -/
def State.Replays (s w : State) (R : State → State → Prop) : Prop :=
  ∀ ⦃t : State⦄, s.Alongside w.cursor.index t →
    (t.cursor.rewind w.cursor.index).current.kind = .endOfInput →
    ∃ v, R t v ∧ w.Alongside w.cursor.index v ∧ v.collector.received = t.collector.received ∧
      v.cursor.current.kind = .endOfInput

theorem not_continues_end (c : Cursor) : ¬Continues c .endOfInput := by
  rintro (hmem | ⟨hparen, -⟩)
  · exact absurd hmem (by decide)
  · cases hparen

theorem State.Alongside.rewind_eq (h : w.Alongside w.cursor.index v) (htv : t.Evolves v) :
    v.cursor = t.cursor.rewind w.cursor.index := by
  rw [h.cursor.index]
  exact htv.cursor

namespace State.Replays

theorem mono {R R' : State → State → Prop} (h : s.Replays w R)
    (hR : ∀ {t v}, t.stack = s.stack → v.cursor.current.kind = .endOfInput → R t v → R' t v) :
    s.Replays w R' :=
  fun _ halong hend =>
    let ⟨v, hv, hwv, hclean, hvend⟩ := h halong hend
    ⟨v, hR halong.stack.symm hvend hv, hwv, hclean, hvend⟩

/-- What is read without complaint is read alike where the input ends behind it. -/
theorem of_ok {p : Parser α} [Orderly p] [Local Continues p] {a : α} (h : p s = .ok a w)
    (hclean : w.collector.received = s.collector.received) :
    s.Replays w fun t v => p t = .ok a v := by
  intro t halong hend
  have hfree : Uncontinued Continues w.cursor.index w t := fun _ hcontinues => by
    rw [hend] at hcontinues
    exact not_continues_end _ hcontinues
  obtain ⟨v, hv, hwv, hvclean⟩ := Local.again p halong h hclean (Nat.le_refl _) hfree
  refine ⟨v, hv, hwv, hvclean, ?_⟩
  rw [hwv.rewind_eq (Orderly.evolves_ok p hv)]
  exact hend

/-- What is read before is read alike if a token is left up to where the input ends. -/
theorem after {p : Parser α} [Orderly p] [Local Continues p] {a : α} {R : State → State → Prop}
    (h : p s = .ok a u) (hclean : u.collector.received = s.collector.received)
    (hle : u.cursor.index ≤ w.cursor.index) (hbrink : ¬u.cursor.AtBrink w.cursor.index)
    (hrest : u.Replays w R) : s.Replays w fun t v => ∃ t', p t = .ok a t' ∧ R t' v := by
  intro t halong hend
  have hfree : Uncontinued Continues w.cursor.index u t := fun hno => absurd hno hbrink
  obtain ⟨t', ht', hut, htclean⟩ := Local.again p halong h hclean hle hfree
  have hcursor := (Orderly.evolves_ok p ht').cursor
  obtain ⟨v, hv, hwv, hvclean, hvend⟩ := hrest hut (by rw [hcursor]; exact hend)
  exact ⟨v, ⟨t', ht', hv⟩, hwv, hvclean.trans htclean, hvend⟩

end State.Replays

/-- What ends right behind a token does so from an earlier place, too. -/
theorem State.Evolves.lands (h : s.Evolves t) (hlands : t.cursor.Lands w.cursor) :
    s.cursor.Lands w.cursor :=
  ⟨Nat.lt_of_le_of_lt (h.atBrink (Nat.le_refl _)) hlands.1, hlands.2⟩

theorem lands_of_ok (p : Parser α) [Tokenwise p] [Eager p] {a : α}
    (hs : s.cursor.triviaVisible = false) (h : p s = .ok a t)
    (hclean : t.collector.received = s.collector.received) : s.cursor.Lands t.cursor :=
  (Tokenwise.moves hs h hclean).resolve_left (Tokenwise.cursor_ne p h)

/-! ### Confined conditions -/

structure Confined (hashComments : Bool) (text : String) (p : Parser Condition) (s : State)
    (c : Condition) (cs : List Condition) (u w : State) (opening closing : List TokenKind) :
    Prop where
  rest : skip .semicolon w = .ok () u
  clean : w.collector.received = s.collector.received
  lands : s.cursor.Lands w.cursor
  replays : s.Replays w fun t v => p t = .ok c v
  framed : Framed hashComments text s w opening closing cs

def Confines (hashComments : Bool) (text : String) (p : Parser Condition) : Prop :=
  ∀ ⦃s u : State⦄ ⦃c : Condition⦄, s.Earnest hashComments text → p s = .ok c u →
    u.collector.received = s.collector.received →
    ∃ w opening closing, Confined hashComments text p s c [c] u w opening closing

def Conceals (hashComments : Bool) (text : String) (p : Parser Condition) : Prop :=
  ∀ ⦃s u : State⦄ ⦃c : Condition⦄, s.Earnest hashComments text → p s = .ok c u →
    u.collector.received = s.collector.received →
    ∃ w opening closing, Confined hashComments text p s c [c] u w opening closing ∧
      ¬Exposed (opening ++ (Condition.listOutline (kindsBetween hashComments text) [c] ++ closing))

theorem Conceals.confines {p : Parser Condition} (h : Conceals hashComments text p) :
    Confines hashComments text p := fun _ _ _ hs hp hclean =>
  let ⟨w, opening, closing, hw, _⟩ := h hs hp hclean
  ⟨w, opening, closing, hw⟩

/-! ### Conditions within others -/

theorem skip_restacked {c : Symbol} (h : skip c s = .ok () t) (stack : Stack) :
    skip c { s with stack } = .ok () { t with stack } := by
  unfold skip at h ⊢
  by_cases hk : s.cursor.current.kind = .symbol c
  · rw [bind_of_ok (accept_of_eq hk)] at h
    obtain ⟨-, rfl⟩ := pure_ok h
    exact bind_of_ok (accept_of_eq (s := { s with stack }) hk)
  · rw [bind_of_ok (accept_of_ne hk)] at h
    obtain ⟨-, rfl⟩ := pure_ok h
    exact bind_of_ok (accept_of_ne (s := { t with stack }) hk)

theorem Confined.unwound {n : Nesting} {p : Parser Condition} {cs : List Condition}
    {opening closing : List TokenKind} (hroom : n.frames ≤ s.stack.room)
    (h : Confined hashComments text p (s.within n) c cs u w opening closing) :
    Confined hashComments text (nested n p) s c cs (s.unwound u) (s.unwound w) opening closing where
  rest := skip_restacked h.rest s.stack
  clean := h.clean
  lands := h.lands
  replays t halong hend := by
    have hwithin : (s.within n).Alongside w.cursor.index (t.within n) :=
      State.Alongside.within halong n
    obtain ⟨v, hv, hwv, hclean, hvend⟩ := h.replays hwithin hend
    have hroom' : n.frames ≤ t.stack.room := halong.stack ▸ hroom
    exact ⟨t.unwound v, nested_of_ok hroom' hv, halong.unwound hwv, hclean, hvend⟩
  framed := h.framed.restacked s.stack

theorem Conceals.nested {p : Parser Condition} (h : Conceals hashComments text p) (n : Nesting) :
    Conceals hashComments text (nested n p) := by
  intro s u c hs hp hclean
  obtain ⟨hroom, v, hv, rfl⟩ := nested_eq_ok.1 hp
  obtain ⟨w, opening, closing, hw, hconcealed⟩ :=
    @h (s.within n) v c ⟨hs.cursor, hs.trials⟩ hv hclean
  exact ⟨s.unwound w, opening, closing, hw.unwound hroom, hconcealed⟩

/-! ### Operands -/

section Operands

variable {connectives : List TokenKind} {operand : Parser Condition} [Orderly operand]

instance : Orderly (nextOperand operand) := by unfold nextOperand; infer_instance

instance [Local Continues operand] [Eager operand] : Local Continues (nextOperand operand) := by
  unfold nextOperand; infer_instance

theorem semicolons_unparenthesised {kinds : List TokenKind}
    (h : ∀ k ∈ kinds, k = .symbol .semicolon) : Unparenthesised kinds := fun k hk => by
  rw [h k hk]
  exact ⟨by decide, by decide⟩

/-- What is taken between two operands: a connective, and before it perhaps a semicolon. -/
theorem exists_mid (hkinds : connectives ∈ [orKinds, andKinds]) (hw : w.Earnest hashComments text)
    (hrest : skip .semicolon w = .ok () u) (hkind : u.cursor.current.kind ∈ connectives) :
    ∃ mid, w.Passed u.advanced mid ∧ Unparenthesised mid := by
  have hno : ∀ kinds ∈ [orKinds, andKinds], ∀ k ∈ kinds,
      k ≠ .endOfInput ∧ k ≠ .symbol .lparen ∧ k ≠ .symbol .rparen := by
    decide
  obtain ⟨hend, hparens⟩ := hno _ hkinds _ hkind
  obtain ⟨semicolons, hpassed, hsemicolons⟩ := State.Passed.of_skip hw.hidden hrest
  refine ⟨_, hpassed.trans (.of_advance (hw.of_ok hrest).hidden hend (advance_eq u)),
    fun k hk => ?_⟩
  rcases List.mem_append.1 hk with hk | hk
  · exact semicolons_unparenthesised hsemicolons k hk
  · rw [List.mem_singleton.1 hk]
    exact hparens

structure ConfinedOperands (hashComments : Bool) (text : String) (connectives : List TokenKind)
    (operand : Parser Condition) (s : State) (cs : List Condition) (u w : State)
    (opening closing : List TokenKind) : Prop where
  kind : s.cursor.current.kind ∈ connectives
  rest : skip .semicolon w = .ok () u
  clean : w.collector.received = s.collector.received
  lands : s.cursor.Lands w.cursor
  replays : s.Replays w fun t v =>
    Items (fun k => decide (k ∈ connectives)) (nextOperand operand) t cs v
  framed : Framed hashComments text s.advanced w opening closing cs

variable [Eager operand] [Local Continues operand]

theorem exists_confinedOperands (hkinds : connectives ∈ [orKinds, andKinds])
    (hoperand : Confines hashComments text operand) {cs : List Condition}
    (h : Items (fun k => decide (k ∈ connectives)) (nextOperand operand) s cs u)
    (hs : s.Earnest hashComments text) (hclean : u.collector.received = s.collector.received)
    (hne : cs ≠ []) : ∃ w opening closing,
      ConfinedOperands hashComments text connectives operand s cs u w opening closing := by
  have hend : ∀ kinds ∈ [orKinds, andKinds], TokenKind.endOfInput ∉ kinds := by decide
  induction h with
  | done => exact absurd rfl hne
  | @more s t u c cs hgoes hc hrest ih =>
    have hkind : s.cursor.current.kind ∈ connectives := of_decide_eq_true hgoes
    obtain ⟨_, s', hadvance, hread⟩ := bind_eq_ok.1 hc
    cases hadvance
    have hsteps := Orderly.evolves_ok (nextOperand operand) hc
    have hadvanced := Orderly.evolves_advanced s
    have hsadvanced := hs.evolves hadvanced
    have hle := hsteps.received_le
    have hle' := hrest.evolves.received_le
    have hfirst : t.collector.received = s.collector.received := by omega
    obtain ⟨w, opening, closing, hw⟩ := hoperand hsadvanced hread
      (hfirst.trans (received_advanced s).symm)
    cases cs with
    | nil =>
      cases hrest with
      | done hstop =>
      have hlands := hadvanced.lands hw.lands
      have hbrink : ¬s.cursor.AtBrink w.cursor.index := Nat.not_le.2 hlands.1
      refine ⟨w, opening, closing, hkind, hw.rest, hw.clean.trans (received_advanced s), hlands, ?_,
        hw.framed⟩
      intro t' halong htend
      have hcurrent := halong.cursor.current_eq hbrink
      have hcursor := (Orderly.evolves_advanced t').cursor
      obtain ⟨v, hv, hwv, hvclean, hvend⟩ :=
        hw.replays (halong.advanced hbrink) (by rw [hcursor]; exact htend)
      refine ⟨v, .more (hcurrent ▸ hgoes) ((bind_of_ok (advance_eq t')).trans hv) (.done ?_), hwv,
        hvclean.trans (received_advanced t'), hvend⟩
      rw [hvend, decide_eq_false (hend _ hkinds)]
    | cons d ds =>
      obtain ⟨w', opening', closing', hw'⟩ :=
        ih (hs.evolves hsteps) (by omega) (List.cons_ne_nil d ds)
      obtain ⟨mid, hmid, hparens⟩ :=
        exists_mid hkinds (hsadvanced.evolves hw.framed.evolves) hw.rest hw'.kind
      have hlater := (Orderly.evolves_advanced t).trans hw'.framed.evolves
      have hlands := hsteps.lands hw'.lands
      have hbrink : ¬s.cursor.AtBrink w'.cursor.index := Nat.not_le.2 hlands.1
      refine ⟨w', opening, closing', hkind, hw'.rest, hw'.clean.trans hfirst, hlands, ?_,
        hw.framed.append hmid hw'.framed hsadvanced hparens⟩
      intro t' halong htend
      obtain ⟨v, ⟨t'', ht'', hitems⟩, hwv, hvclean, hvend⟩ :=
        State.Replays.after hc hfirst hlater.index (Nat.not_le.2 hw'.lands.1) hw'.replays
          halong htend
      exact ⟨v, .more (halong.cursor.current_eq hbrink ▸ hgoes) ht'' hitems, hwv, hvclean, hvend⟩

theorem infixGroup_confined {kind : Grouping} {first : Condition} {others : List Condition}
    (hkinds : connectives ∈ [orKinds, andKinds]) (hoperand : Confines hashComments text operand)
    (hs : s.Earnest hashComments text) (hfirst : operand s = .ok first t)
    (hothers : Items (fun k => decide (k ∈ connectives)) (nextOperand operand) t others u)
    (hne : others ≠ []) (hclean : u.collector.received = s.collector.received) :
    ∃ w opening closing, Confined hashComments text (infixGroup kind connectives operand) s
      (join kind first others) (first :: others) u w opening closing := by
  have hst := Orderly.evolves_ok operand hfirst
  have hle := hst.received_le
  have hle' := hothers.evolves.received_le
  have hfirstclean : t.collector.received = s.collector.received := by omega
  obtain ⟨w, opening, closing, hw⟩ := hoperand hs hfirst hfirstclean
  obtain ⟨w', opening', closing', hw'⟩ :=
    exists_confinedOperands hkinds hoperand hothers (hs.evolves hst) (by omega) hne
  obtain ⟨mid, hmid, hparens⟩ := exists_mid hkinds (hs.evolves hw.framed.evolves) hw.rest hw'.kind
  have hlater := (Orderly.evolves_advanced t).trans hw'.framed.evolves
  refine ⟨w', opening, closing', hw'.rest, hw'.clean.trans hfirstclean, hst.lands hw'.lands, ?_,
    hw.framed.append hmid hw'.framed hs hparens⟩
  refine (State.Replays.after hfirst hfirstclean hlater.index (Nat.not_le.2 hw'.lands.1)
    hw'.replays).mono ?_
  rintro t' v - - ⟨t'', hfirst', hothers'⟩
  exact (infixGroup_ok_iff hkinds).2 ⟨first, t'', others, hfirst', hothers', rfl⟩

theorem confines_infixGroup {kind : Grouping} (hkind : kind = .and ∨ kind = .or)
    (hkinds : connectives ∈ [orKinds, andKinds]) (hoperand : Confines hashComments text operand) :
    Confines hashComments text (infixGroup kind connectives operand) := by
  intro s u c hs h hclean
  obtain ⟨first, t, others, hfirst, hothers, rfl⟩ := (infixGroup_ok_iff hkinds).1 h
  by_cases hne : others = []
  · -- a single operand is all of the group
    subst hne
    cases hothers with
    | done =>
      obtain ⟨w, opening, closing, hw⟩ := hoperand hs hfirst hclean
      exact ⟨w, opening, closing, hw.rest, hw.clean, hw.lands,
        hw.replays.mono fun _ hend hread =>
          infixGroup_of_end hkinds hread (notMem_continuingKinds_of_end hend), hw.framed⟩
  · obtain ⟨w, opening, closing, hw⟩ :=
      infixGroup_confined hkinds hoperand hs hfirst hothers hne hclean
    exact ⟨w, opening, closing, hw.rest, hw.clean, hw.lands, hw.replays, hw.framed.join hkind⟩

end Operands

/-! ### Parentheses -/

section Within

variable {levels : Nat}

theorem exists_framed_operands {single : Parser Condition} [Orderly single]
    (hsingle : Conceals hashComments text single)
    {cs : List Condition} (h : Items isOpen single s cs u)
    (hs : s.Earnest hashComments text) (hclean : u.collector.received = s.collector.received)
    (hne : cs ≠ []) : ∃ w opening closing, skip .semicolon w = .ok () u ∧
      Framed hashComments text s w opening closing cs ∧
      ¬Exposed
        (opening ++ (Condition.listOutline (kindsBetween hashComments text) cs ++ closing)) := by
  induction h with
  | done => exact absurd rfl hne
  | @more s t u c cs _ hc hrest ih =>
    have hst := Orderly.evolves_ok single hc
    have hle := hst.received_le
    have hle' := hrest.evolves.received_le
    obtain ⟨w, opening, closing, hw, hconcealed⟩ := hsingle hs hc (by omega)
    cases cs with
    | nil =>
      cases hrest with
      | done => exact ⟨w, opening, closing, hw.rest, hw.framed, hconcealed⟩
    | cons d ds =>
      obtain ⟨w', opening', closing', hrest', hframed, hconcealed'⟩ :=
        ih (hs.evolves hst) (by omega) (List.cons_ne_nil d ds)
      obtain ⟨semicolons, hpassed, hsemicolons⟩ :=
        State.Passed.of_skip (hs.evolves hw.framed.evolves).hidden hw.rest
      have hparens := semicolons_unparenthesised hsemicolons
      refine ⟨w', opening, closing', hrest', hw.framed.append hpassed hframed hs hparens,
        hw.framed.not_exposed_append hpassed hframed hs hparens (fun k hk => ?_) hconcealed
          hconcealed'⟩
      rw [hsemicolons k hk]
      decide

theorem confines_disjunction {single : Parser Condition} [Orderly single] [Eager single]
    [Tokenwise single] [Local Continues single] (hsingle : Conceals hashComments text single) :
    Confines hashComments text (disjunction single) := by
  have hconjunction : Local Continues (infixGroup .and andKinds single) :=
    Local.infixGroup .and (by simp)
  exact confines_infixGroup (.inr rfl) (by simp)
    (confines_infixGroup (.inl rfl) (by simp) hsingle.confines)

theorem framed_parenthesised (hsingle : Conceals hashComments text (conditionWithin levels))
    (hs : s.Earnest hashComments text) (h : parenthesised (conditionWithin levels) s = .ok c u)
    (hclean : u.collector.received = s.collector.received) :
    ∃ opening closing, Framed hashComments text s u opening closing [c] ∧
      ¬Exposed
        (opening ++ (Condition.listOutline (kindsBetween hashComments text) [c] ++ closing)) := by
  have hle : ∀ {α : Type} {p : Parser α} [Orderly p] {a : α} {s t : State}, p s = .ok a t →
      s.collector.received ≤ t.collector.received := fun {_ p _ _ _ _} hp =>
    (Orderly.evolves_ok p hp).received_le
  cases parenthesised_ok h with
  | disjunction hopen hc hclose =>
    have hsopen := hle (p := symbol .lparen) hopen
    have hcle := hle (p := disjunction (nested .group (conditionWithin levels))) hc
    have hcloses := hle (p := symbol .rparen) hclose
    have ht := hs.of_ok hopen
    obtain ⟨w, before, behind, hw⟩ := confines_disjunction (hsingle.nested .group) ht hc (by omega)
    have hwearnest := ht.evolves hw.framed.evolves
    obtain ⟨semicolons, hpassed, hsemicolons⟩ := State.Passed.of_skip hwearnest.hidden hw.rest
    exact ⟨_, _, hw.framed.enclose (.of_expect hs.hidden (by simp) hopen)
      (hpassed.trans (.of_expect (hwearnest.of_ok hw.rest).hidden (by simp) hclose))
      (fun _ hno => absurd hno List.not_mem_nil) (semicolons_unparenthesised hsemicolons)⟩
  | prefixed hopen hkind hc =>
    obtain ⟨connective, t', first, others, v, closing, hadvance, hitems, hclose, rfl⟩ :=
      prefixGroup_ok hc
    have hsopen := hle (p := symbol .lparen) hopen
    have hadvances := hle (p := advance) hadvance
    have hitemsle := hitems.evolves.received_le
    have hcloses := hle (p := symbol .rparen) hclose
    have ht := hs.of_ok hopen
    have ht' := ht.of_ok hadvance
    obtain ⟨w, before, behind, hrest, hframed, -⟩ :=
      exists_framed_operands (hsingle.nested .prefixed) hitems ht' (by omega) (List.cons_ne_nil _ _)
    have hwearnest := ht'.evolves hframed.evolves
    obtain ⟨semicolons, hpassed, hsemicolons⟩ := State.Passed.of_skip hwearnest.hidden hrest
    have hno : ∀ k ∈ [TokenKind.keyword .or, .keyword .and],
        k ≠ .endOfInput ∧ k ≠ .symbol .lparen ∧ k ≠ .symbol .rparen := by
      decide
    obtain ⟨hend, hparens⟩ := hno _ hkind
    refine ⟨_, _, (hframed.join ?_).enclose
      ((State.Passed.of_expect hs.hidden (by simp) hopen).trans
        (.of_advance ht.hidden hend hadvance))
      (hpassed.trans (.of_expect (hwearnest.of_ok hrest).hidden (by simp) hclose))
      (List.forall_mem_singleton.2 hparens) (semicolons_unparenthesised hsemicolons)⟩
    split
    · exact .inr rfl
    · exact .inl rfl

/-! ### Single conditions -/

theorem framed_whole {p : Parser Condition} [Orderly p] (hp : SpansConditions text p)
    (hs : s.Earnest hashComments text) (h : p s = .ok c u)
    (houtline : c.outline (kindsBetween hashComments text) = []) :
    ∃ opening closing, Framed hashComments text s u opening closing [c] ∧
      ¬Exposed
        (opening ++ (Condition.listOutline (kindsBetween hashComments text) [c] ++ closing)) := by
  refine ⟨[], [], .whole (Orderly.evolves_ok p h) (hp hs.cursor_over h) houtline, ?_⟩
  rw [listOutline_singleton, houtline]
  exact not_exposed_of_no_connective fun _ hno => absurd hno List.not_mem_nil

theorem framed_sole (hsingle : Conceals hashComments text (conditionWithin levels))
    (hs : s.Earnest hashComments text) (h : Sole (conditionWithin levels) s c u)
    (hclean : u.collector.received = s.collector.received) :
    ∃ opening closing, Framed hashComments text s u opening closing [c] ∧
      ¬Exposed
        (opening ++ (Condition.listOutline (kindsBetween hashComments text) [c] ++ closing)) := by
  cases h with
  | @unary k kind _ _ hk h =>
    obtain ⟨token, t, d, l, -, -, rfl⟩ := unaryGroup_ok h
    refine framed_whole (unaryGroup_spans (conditionWithin_laid levels) k kind) hs h ?_
    have hno : ∀ x ∈ [(Keyword.exists_, Grouping.exists_), (.not, .not)],
        ¬(x.2 = .and ∨ x.2 = .or) := by
      decide
    rw [Condition.outline, if_neg (hno _ hk)]
  | eval h =>
    obtain ⟨l, code, rfl⟩ := evalCondition_ok h
    exact framed_whole evalCondition_spans hs h (by rw [Condition.outline])
  | forall_ h =>
    obtain ⟨_, _, _, _, _, _, _, _, _, l, -, -, -, -, -, rfl⟩ := forallCondition_ok h
    exact framed_whole forallCondition_spans hs h (by rw [Condition.outline, if_neg (by decide)])
  | parens h => exact framed_parenthesised hsingle hs h hclean
  | @pattern p _ _ h =>
    exact framed_whole patternCondition_spans hs (map_of_ok h) (by rw [Condition.outline])

theorem conceals_conditionWithin (levels : Nat) :
    Conceals hashComments text (conditionWithin levels) := by
  induction levels with
  | zero =>
    intro s u c _ h
    cases h
  | succ levels ih =>
    intro s u c hs h hclean
    have heq : conditionWithin (levels + 1) = soleCondition (conditionWithin levels) >>= fun c => do
        skip .semicolon
        return c :=
      singleCondition_eq _
    rw [heq] at h
    obtain ⟨c', w, hw, h⟩ := bind_eq_ok.1 h
    obtain ⟨_, v, hv, h⟩ := bind_eq_ok.1 h
    obtain ⟨rfl, rfl⟩ := pure_ok h
    have hle := (Orderly.evolves_ok (soleCondition (conditionWithin levels)) hw).received_le
    have hle' := (Orderly.evolves_ok (skip .semicolon) hv).received_le
    have hwclean : w.collector.received = s.collector.received := by omega
    obtain ⟨opening, closing, hframed, hconcealed⟩ := framed_sole ih hs (sole_of_ok hw) hwclean
    refine ⟨w, opening, closing, ⟨hv, hwclean, lands_of_ok (soleCondition (conditionWithin levels))
      hs.hidden hw hwclean, ?_, hframed⟩, hconcealed⟩
    refine (State.Replays.of_ok hw hwclean).mono fun {t v} _ hend hread => ?_
    rw [heq, bind_of_ok hread, bind_of_ok (skip_of_end (notMem_continuingKinds_of_end hend))]
    rfl

end Within

end Rulebook.Parser
