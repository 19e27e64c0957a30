import Rulebook.Proofs.LayoutConditions
import Rulebook.Proofs.Keeping

/-!
# Rules and queries are well laid

What has been read of a rule is well laid at every point where reading may break off, and its
location is closed behind the recovery. So a rule that is broken holds its conditions as one that is
not.
-/

namespace Rulebook.Parser

set_option synthInstance.maxSize 100000

variable {text : String} {s t : State}

/-! ### Attributes -/

theorem ruleAttribute_covers (hs : s.cursor.Over text) (hk : s.cursor.current.kind ≠ .endOfInput)
    {a : Attribute} (h : ruleAttribute s = .ok a t) :
    a.location.Covers text s.cursor.coming t.cursor.past := by
  obtain ⟨token, u, hu, h⟩ := bind_eq_ok.1 h
  have htaken := taken_of_advance hs hk hu
  obtain ⟨value, v, hv, h⟩ := bind_eq_ok.1 h
  have honu := State.Onward.of_ok hs hu
  have honv := State.Onward.of_evolves honu.stays (Orderly.evolves_attributeValue hv)
  have hont := State.Onward.of_ok honv.stays h
  have hlt := Nat.lt_of_lt_of_le htaken.lt_past (Nat.le_trans honv.past_le hont.past_le)
  obtain ⟨-, location, rfl, hcovers⟩ := made_of_close h htaken.stands hlt
  exact htaken.start ▸ hcovers

theorem liesIn_of_covers {a : Nat} {l : Location} (ht : t.cursor.Over text)
    (h : l.Covers text a t.cursor.past) : l.LiesIn text :=
  ⟨a, _, Nat.zero_le a, ht.past_le, h⟩

/-! ### Rules -/

/-- What has been read of a rule: attributes, and conditions between two offsets. -/
structure RuleBegun (text : String) (lo hi : Nat) (rule : Rule) : Prop where
  attributes : ∀ a ∈ rule.attributes, a.location.LiesIn text
  conditions : ∀ b, rule.conditions = some b → b.Laid text lo hi

theorem RuleBegun.upper {lo hi hi' : Nat} {rule : Rule} (h : RuleBegun text lo hi rule)
    (hle : hi ≤ hi') : RuleBegun text lo hi' rule :=
  ⟨h.attributes, fun b hb => (h.conditions b hb).weaken (Nat.le_refl lo) hle⟩

section Parts

variable {lo : Nat} {rule : Rule} {r : Harvest Rule}

theorem addAttribute_begun (hs : s.cursor.Over text) (hk : s.cursor.current.kind ≠ .endOfInput)
    {x : Harvest Rule} (hx : RuleBegun text lo s.cursor.past x.found)
    (h : addAttribute x s = .ok r t) :
    t.cursor.Over text ∧ RuleBegun text lo t.cursor.past r.found := by
  have hon := State.Onward.of_ok hs h
  refine ⟨hon.stays, ?_⟩
  obtain ⟨y, u, hu, h⟩ := bind_eq_ok.1 h
  have honu := State.Onward.of_ok hs hu
  have hy : RuleBegun text lo u.cursor.past y.found := by
    rcases harvest_ok hu with ⟨a, ha, rfl⟩ | ⟨e, -, rfl⟩
    · refine ⟨fun b hb => ?_, (hx.upper honu.past_le).conditions⟩
      rcases Attributes.mem_put hb with rfl | hb
      · exact liesIn_of_covers honu.stays (ruleAttribute_covers hs hk ha)
      · exact hx.attributes b hb
    · exact hx.upper honu.past_le
  have hr : r = y ∧ u.Onward text t := by
    split at h
    · obtain ⟨_, v, hv, h⟩ := bind_eq_ok.1 h
      obtain ⟨rfl, rfl⟩ := pure_ok h
      exact ⟨rfl, .of_ok honu.stays hv⟩
    · obtain ⟨rfl, rfl⟩ := pure_ok h
      exact ⟨rfl, honu.stays, Nat.le_refl _, Nat.le_refl _⟩
  exact hr.1 ▸ hy.upper hr.2.past_le

theorem ruleAttributes_begun (hs : s.cursor.Over text)
    (hrule : RuleBegun text lo s.cursor.past rule) (h : ruleAttributes rule s = .ok r t) :
    RuleBegun text lo t.cursor.past r.found := by
  have hon := State.Onward.of_ok hs h
  obtain ⟨head, u, hu, h⟩ := bind_eq_ok.1 h
  have honu := State.Onward.of_ok hs hu
  rcases attempt_ok hu with ⟨⟨⟩, rfl, -⟩ | ⟨e, rfl, -⟩
  · let I (v : State) (x : Harvest Rule) : Prop :=
      v.cursor.Over text ∧ RuleBegun text lo v.cursor.past x.found
    have hmore : ∀ {x : Harvest Rule} {b : Bool} {v w : State},
        (do return x.failure.isNone && (← nextIs attributeKinds) : Parser Bool) v = .ok b w →
        w = v ∧ (b = true → v.cursor.current.kind ∈ attributeKinds) := by
      intro x b v w h
      cases h
      exact ⟨rfl, fun hb => by simpa using (Bool.and_eq_true_iff.1 hb).2⟩
    refine (repeatWhile_invariant (I := I) (fun h => (hmore h).1) (fun hm hI hbody => ?_)
      ⟨honu.stays, hrule.upper honu.past_le⟩ h).2
    refine addAttribute_begun hI.1 (fun hk => ?_) hI.2 hbody
    have hkind := (hmore hm).2 rfl
    rw [hk] at hkind
    exact absurd hkind (by decide)
  · obtain ⟨rfl, rfl⟩ := pure_ok h
    exact hrule.upper hon.past_le

theorem conditionBlock_laid (hs : s.cursor.Over text) (hk : s.cursor.current.kind ≠ .endOfInput)
    {b : Block} (h : conditionBlock s = .ok b t) : b.Laid text s.cursor.coming t.cursor.past := by
  obtain ⟨anchor, u, hu, h⟩ := bind_eq_ok.1 h
  obtain ⟨_, v, hv, h⟩ := bind_eq_ok.1 h
  have htaken := taken_of_advance hs hk hu
  have honv := State.Onward.of_ok (State.Onward.of_ok hs hu).stays hv
  have hlt := htaken.lt
  have hstart := htaken.start
  exact (block_laid honv.stays (Nat.le_trans htaken.stop_le honv.past_le) h).weaken (by omega)
    (Nat.le_refl _)

theorem ruleConditions_begun (hs : s.cursor.Over text) (hlo : lo ≤ s.cursor.past)
    (hrule : RuleBegun text lo s.cursor.past rule) (h : ruleConditions rule s = .ok r t) :
    RuleBegun text lo t.cursor.past r.found := by
  have hon := State.Onward.of_ok hs h
  obtain ⟨isWhen, _, hwhen, h⟩ := bind_eq_ok.1 h
  cases hwhen
  split at h
  · next hmore =>
    rcases harvest_ok h with ⟨b, hb, rfl⟩ | ⟨e, -, rfl⟩
    · refine ⟨hrule.attributes, fun b' hb' => ?_⟩
      cases hb'
      have hk : s.cursor.current.kind ≠ .endOfInput := fun hk => by simp [hk] at hmore
      exact (conditionBlock_laid hs hk hb).weaken (Nat.le_trans hlo hs.past_le_coming)
        (Nat.le_refl _)
    · exact hrule.upper hon.past_le
  · obtain ⟨rfl, rfl⟩ := pure_ok h
    exact hrule.upper hon.past_le

theorem ruleConsequence_begun (hs : s.cursor.Over text)
    (hrule : RuleBegun text lo s.cursor.past rule) (h : ruleConsequence rule s = .ok r t) :
    RuleBegun text lo t.cursor.past r.found := by
  have hon := State.Onward.of_ok hs h
  obtain ⟨x, u, hu, h⟩ := bind_eq_ok.1 h
  have hx : RuleBegun text lo t.cursor.past x.found := by
    have hupper := hrule.upper hon.past_le
    rcases harvest_ok hu with ⟨c, -, rfl⟩ | ⟨e, -, rfl⟩
    · exact ⟨hupper.attributes, hupper.conditions⟩
    · exact hupper
  rcases andThen_ok h with h | ⟨rfl, -⟩
  · rcases harvest_ok h with ⟨_, -, rfl⟩ | ⟨e, -, rfl⟩ <;> exact hx
  · exact hx

theorem ruleBody_begun (hs : s.cursor.Over text) (hlo : lo ≤ s.cursor.past)
    (hrule : RuleBegun text lo s.cursor.past rule) (h : ruleBody rule s = .ok r t) :
    RuleBegun text lo t.cursor.past r.found := by
  obtain ⟨x, u, hu, h⟩ := bind_eq_ok.1 h
  have honu := State.Onward.of_ok hs hu
  have hx := ruleAttributes_begun hs hrule hu
  obtain ⟨y, v, hv, h⟩ := bind_eq_ok.1 h
  have honv := State.Onward.of_ok honu.stays hv
  have hy : RuleBegun text lo v.cursor.past y.found := by
    rcases andThen_ok hv with hv | ⟨rfl, rfl⟩
    · exact ruleConditions_begun honu.stays (Nat.le_trans hlo honu.past_le) hx hv
    · exact hx
  rcases andThen_ok h with h | ⟨rfl, rfl⟩
  · exact ruleConsequence_begun honv.stays hy h
  · exact hy

end Parts

/-! ### Recovery -/

/-- The location of a rule or query is closed behind what was read of it. -/
theorem recovering_ok {α : Type} {name : String} {body : Parser (Harvest α)} [Orderly body]
    {locate : α → Location → α} {token : Token} (hs : s.cursor.Over text)
    (htoken : token.StandsIn text) (hlt : token.start < s.cursor.past) {x : α}
    (h : recovering name body locate (.ofToken token) s = .ok x t) :
    ∃ r u l, body { s with ruleName := some name } = .ok r u ∧ u.Onward text t ∧
      x = locate r.found l ∧ l.Covers text token.start t.cursor.past := by
  obtain ⟨_, _, hname, h⟩ := bind_eq_ok.1 h
  cases hname
  obtain ⟨w, hw, rfl⟩ := ensuring_ok h
  obtain ⟨r, u, hu, hw⟩ := bind_eq_ok.1 hw
  have honu := State.Onward.of_ok (s := { s with ruleName := some name }) hs hu
  have hclose : ∀ {v : State}, u.Onward text v →
      (close (.ofToken token) >>= fun l => pure (locate r.found l) : Parser α) v = .ok x w →
      ∃ l, body { s with ruleName := some name } = .ok r u ∧
        u.Onward text { w with ruleName := none } ∧ x = locate r.found l ∧
        l.Covers text token.start w.cursor.past := by
    intro v honv hv
    have honw := honv.trans (.of_ok honv.stays hv)
    obtain ⟨-, l, hx, hcovers⟩ := made_of_close hv htoken
      (Nat.lt_of_lt_of_le hlt (Nat.le_trans honu.past_le honw.past_le))
    exact ⟨l, hu, ⟨honw.stays, honw.past_le, honw.coming_le⟩, hx, hcovers⟩
  refine ⟨r, u, ?_⟩
  cases hfailure : r.failure with
  | none =>
    rw [hfailure] at hw
    exact hclose ⟨honu.stays, Nat.le_refl _, Nat.le_refl _⟩ hw
  | some e =>
    rw [hfailure] at hw
    obtain ⟨_, v, hv, hw⟩ := bind_eq_ok.1 hw
    exact hclose (.of_ok honu.stays hv) hw

/-! ### Queries -/

theorem queryBlock_laid (hs : s.cursor.Over text) (hpos : 0 < s.cursor.past) {b : Block}
    (h : queryBlock s = .ok b t) : b.Laid text s.cursor.past t.cursor.past := by
  have hprevious := previous_stop_of_pos hpos
  obtain ⟨u, _, hu, h⟩ := bind_eq_ok.1 h
  cases hu
  cases hanchor : s.cursor.previous with
  | none => rw [hanchor] at hprevious; cases hprevious
  | some anchor =>
    rw [hanchor] at hprevious h
    obtain hstop : anchor.stop = s.cursor.past := Option.some.inj hprevious
    rw [← hstop]
    exact block_laid hs (Nat.le_of_eq hstop) h

theorem queryBody_laid (hs : s.cursor.Over text) {lo : Nat} (hlo : lo ≤ s.cursor.past)
    (hpos : 0 < s.cursor.past) {query : Query} (hquery : query.conditions = none)
    {r : Harvest Query} (h : queryBody query s = .ok r t) :
    ∀ b, r.found.conditions = some b → b.Laid text lo t.cursor.past := by
  obtain ⟨x, u, hu, h⟩ := bind_eq_ok.1 h
  have honu := State.Onward.of_ok hs hu
  have hx : x.found.conditions = none := by
    rcases harvest_ok hu with ⟨ps, -, rfl⟩ | ⟨e, -, rfl⟩ <;> exact hquery
  obtain ⟨y, v, hv, h⟩ := bind_eq_ok.1 h
  have honv := State.Onward.of_ok honu.stays hv
  have hy : ∀ b, y.found.conditions = some b → b.Laid text lo v.cursor.past := by
    intro b hb
    rcases andThen_ok hv with hv | ⟨rfl, rfl⟩
    · rcases harvest_ok hv with ⟨b', hb', rfl⟩ | ⟨e, -, rfl⟩
      · cases hb
        have hpast := honu.past_le
        exact (queryBlock_laid honu.stays (by omega) hb').weaken (by omega) (Nat.le_refl _)
      · rw [hx] at hb; cases hb
    · rw [hx] at hb; cases hb
  have hont := State.Onward.of_ok honv.stays h
  intro b hb
  rcases andThen_ok h with h | ⟨rfl, rfl⟩
  · rcases harvest_ok h with ⟨_, -, rfl⟩ | ⟨e, -, rfl⟩ <;>
      exact (hy b hb).weaken (Nat.le_refl lo) hont.past_le
  · exact hy b hb

end Rulebook.Parser

/-!
## Packages are well laid

A statement adds at most one declaration to the package, and that one is well laid. Recovery adds
nothing. So the package is well laid after any number of statements, whether they are broken or not.
-/

namespace Rulebook.Parser

set_option synthInstance.maxSize 100000

variable {α β : Type} {text : String} {s t : State}

theorem liesIn_of_close {token : Token} {u v : State} (htaken : Taken text s token t)
    (hon : t.Onward text u) {l : Location} (h : close (.ofToken token) u = .ok l v) :
    l.LiesIn text := by
  have honv := hon.trans (.of_ok hon.stays h)
  obtain ⟨-, hcovers⟩ := covers_of_close h htaken.stands
    (Nat.lt_of_lt_of_le htaken.lt_past honv.past_le)
  exact liesIn_of_covers honv.stays hcovers

/-! ### Declarations -/

theorem importStatement_keeps (hs : s.cursor.Over text) :
    Keeps (Package.Laid text) importStatement s := by
  unfold importStatement
  refine .bind fun {token t} ht => .bind fun {target u} hu => .bind fun {_ v} hv =>
    .bind fun {l w} hw => .bind_of (.declare fun p hp => ?_) fun _ => .of_inert _
  have hont := State.Onward.of_ok hs ht
  have honu := State.Onward.of_ok hont.stays hu
  have hl := liesIn_of_close (taken_of_keyword hs ht) (honu.trans (.of_ok honu.stays hv)) hw
  exact { hp with imports := List.forall_mem_append.2 ⟨hp.imports, List.forall_mem_singleton.2 hl⟩ }

theorem functionImport_keeps (hs : s.cursor.Over text) :
    Keeps (Package.Laid text) functionImport s := by
  unfold functionImport
  refine .bind fun {token t} ht => .bind fun {_ t'} ht' => .bind fun {target u} hu =>
    .bind fun {_ v} hv => .bind fun {l w} hw => .bind_of (.declare fun p hp => ?_) fun _ =>
      .of_inert _
  have hont := State.Onward.of_ok hs ht
  have hont' := State.Onward.of_ok hont.stays ht'
  have honu := hont'.trans (.of_ok hont'.stays hu)
  have hl := liesIn_of_close (taken_of_keyword hs ht) (honu.trans (.of_ok honu.stays hv)) hw
  exact { hp with
    functionImports := List.forall_mem_append.2
      ⟨hp.functionImports, List.forall_mem_singleton.2 hl⟩ }

theorem globalStatement_keeps (hs : s.cursor.Over text) :
    Keeps (Package.Laid text) globalStatement s := by
  unfold globalStatement
  refine .bind fun {token t} ht => .bind fun {type t'} ht' => .bind fun {name u} hu =>
    .bind fun {_ v} hv => .bind fun {l w} hw => .bind_of (.declare fun p hp => ?_) fun _ =>
      .of_inert _
  have hont := State.Onward.of_ok hs ht
  have hont' := State.Onward.of_ok hont.stays ht'
  have honu := hont'.trans (.of_ok hont'.stays hu)
  have hl := liesIn_of_close (taken_of_keyword hs ht) (honu.trans (.of_ok honu.stays hv)) hw
  exact { hp with globals := List.forall_mem_append.2 ⟨hp.globals, List.forall_mem_singleton.2 hl⟩ }

theorem functionStatement_keeps (hs : s.cursor.Over text) :
    Keeps (Package.Laid text) functionStatement s := by
  unfold functionStatement
  refine .bind fun {token t} ht => .bind fun {type u} hu => .bind fun {name v} hv =>
    .bind fun {ps w} hw => .bind fun {body x} hx => .bind fun {x' y} hy => .bind fun {l z} hz =>
      .bind_of (.declare fun p hp => ?_) fun _ => .of_inert _
  have hont := State.Onward.of_ok hs ht
  have honu := State.Onward.of_ok hont.stays hu
  have honv := honu.trans (.of_ok honu.stays hv)
  have honw := honv.trans (.of_ok honv.stays hw)
  have honx := honw.trans (.of_ok honw.stays hx)
  have hl := liesIn_of_close (taken_of_keyword hs ht) (honx.trans (.of_ok honx.stays hy)) hz
  exact { hp with
    functions := List.forall_mem_append.2 ⟨hp.functions, List.forall_mem_singleton.2 hl⟩ }

theorem slot_liesIn (hs : s.cursor.Over text) {x : Slot} (h : slot s = .ok x t) :
    x.location.LiesIn text := by
  have hlt := coming_lt_past hs h
  have hon := State.Onward.of_ok hs h
  obtain ⟨token, _, htoken, h⟩ := bind_eq_ok.1 h
  cases htoken
  obtain ⟨type, u, -, h⟩ := bind_eq_ok.1 h
  obtain ⟨name, v, -, h⟩ := bind_eq_ok.1 h
  obtain ⟨_, w, -, h⟩ := bind_eq_ok.1 h
  obtain ⟨-, l, rfl, hcovers⟩ := made_of_close h hs.current hlt
  exact liesIn_of_covers hon.stays hcovers

theorem templateStatement_keeps (hs : s.cursor.Over text) :
    Keeps (Package.Laid text) templateStatement s := by
  unfold templateStatement
  refine .bind fun {token t} ht => .bind fun {title u} hu => .bind fun {_ v} hv =>
    .bind fun {slots w} hw => ?_
  have hont := State.Onward.of_ok hs ht
  have honu := State.Onward.of_ok hont.stays hu
  have honv := honu.trans (.of_ok honu.stays hv)
  have honw := honv.trans (.of_ok honv.stays hw)
  let I (w : State) (slots : List Slot) : Prop :=
    w.cursor.Over text ∧ ∀ x ∈ slots, x.location.LiesIn text
  have hslots : I w slots := by
    refine repeatWhile_invariant (I := I) (fun h => by cases h; rfl) ?_
      ⟨honv.stays, fun x hx => by cases hx⟩ hw
    rintro slots slots' v w - ⟨hover, hslots⟩ hbody
    obtain ⟨x, u, hu, hbody⟩ := bind_eq_ok.1 hbody
    obtain ⟨rfl, rfl⟩ := pure_ok hbody
    exact ⟨(State.Onward.of_ok hover hu).stays,
      List.forall_mem_append.2 ⟨hslots, List.forall_mem_singleton.2 (slot_liesIn hover hu)⟩⟩
  dsimp only
  split
  · exact .bind fun _ => .bind fun h => by cases h
  · refine .bind fun {_ x} hx => .bind fun {_ y} hy => .bind fun {l z} hz =>
      .bind_of (.declare fun p hp => ?_) fun _ => .of_inert _
    have honx := honw.trans (.of_ok honw.stays hx)
    have hl := liesIn_of_close (taken_of_keyword hs ht) (honx.trans (.of_ok honx.stays hy)) hz
    exact { hp with
      templates := List.forall_mem_append.2
        ⟨hp.templates, List.forall_mem_singleton.2 ⟨hl, hslots.2⟩⟩ }

/-! ### Rules and queries -/

theorem ruleStatement_keeps (hs : s.cursor.Over text) :
    Keeps (Package.Laid text) ruleStatement s := by
  unfold ruleStatement
  refine .bind fun {token t} ht => .bind fun {name u} hu => .bind fun {w v} hv =>
    .bind fun {rule x} hx => ?_
  cases hv
  have hont := State.Onward.of_ok hs ht
  have honu := hont.trans (.of_ok hont.stays hu)
  have htaken := taken_of_keyword hs ht
  have honu' := State.Onward.of_ok hont.stays hu
  have hlt := Nat.lt_of_lt_of_le htaken.lt_past honu'.past_le
  intro hlaid
  have hpackage : u.package.Laid text := by
    rw [← Inert.package_ok _ hx]
    exact hlaid
  obtain ⟨r, y, l, hr, hony, rfl, hcovers⟩ := recovering_ok honu.stays htaken.stands hlt hx
  have hlo : token.start ≤ u.cursor.past := Nat.le_of_lt hlt
  have hbegun := ruleBody_begun (s := { u with ruleName := some name }) honu.stays hlo
    ⟨hpackage.attributes, fun b hb => by cases hb⟩ hr
  have hentry : Between (Entry.Laid text) 0 text.length (.rule { r.found with location := l }) :=
    ⟨_, _, Nat.zero_le _, hony.stays.past_le, hcovers, (hbegun.upper hony.past_le).conditions,
      hbegun.attributes⟩
  refine Keeps.bind (fun {b z} _ => ?_) hlaid
  split
  · exact .of_inert _
  · refine .bind_of (.declare fun p hp => ?_) fun _ => .of_inert _
    exact { hp with
      rules := List.forall_mem_append.2 ⟨hp.rules, List.forall_mem_singleton.2 hentry⟩ }

theorem queryStatement_keeps (hs : s.cursor.Over text) :
    Keeps (Package.Laid text) queryStatement s := by
  unfold queryStatement
  refine .bind fun {token t} ht => .bind fun {name u} hu => .bind fun {query x} hx =>
    .bind_of (.declare fun p hp => ?_) fun _ => .of_inert _
  have hont := State.Onward.of_ok hs ht
  have htaken := taken_of_keyword hs ht
  have honu := State.Onward.of_ok hont.stays hu
  have hlt := Nat.lt_of_lt_of_le htaken.lt_past honu.past_le
  obtain ⟨r, y, l, hr, hony, rfl, hcovers⟩ := recovering_ok honu.stays htaken.stands hlt hx
  have hlo : token.start ≤ u.cursor.past := Nat.le_of_lt hlt
  have hblock := queryBody_laid (s := { u with ruleName := some name }) honu.stays hlo
    (Nat.lt_of_le_of_lt (Nat.zero_le _) hlt) rfl hr
  have hentry : Between (Entry.Laid text) 0 text.length (.query { r.found with location := l }) :=
    ⟨_, _, Nat.zero_le _, hony.stays.past_le, hcovers,
      fun b hb => (hblock b hb).weaken (Nat.le_refl _) hony.past_le, fun x hx => by cases hx⟩
  exact { hp with rules := List.forall_mem_append.2 ⟨hp.rules, List.forall_mem_singleton.2 hentry⟩ }

/-! ### Whole files -/

theorem packageAttribute_keeps (hs : s.cursor.Over text)
    (hk : s.cursor.current.kind ∈ attributeKinds) :
    Keeps (Package.Laid text) packageAttribute s := by
  unfold packageAttribute
  refine .bind fun {a t} ha => .bind_of (fun hp => ?_) fun _ => .of_inert _
  have hne : s.cursor.current.kind ≠ .endOfInput := fun heq => by
    rw [heq] at hk
    exact absurd hk (by decide)
  have hover := (State.Onward.of_ok hs ha).stays
  have hlies := liesIn_of_covers hover (ruleAttribute_covers hs hne ha)
  refine { hp with attributes := fun b hb => ?_ }
  rcases Attributes.mem_put hb with rfl | hb
  · exact hlies
  · exact hp.attributes b hb

theorem laid_invariant : UnitInvariant (Cursor.Over text) (Package.Laid text) where
  rewind n h := h.rewind n
  named _ h := { h with }
  attributes hs hk := packageAttribute_keeps hs hk
  functionImport hs := functionImport_keeps hs
  importStatement hs := importStatement_keeps hs
  globalStatement hs := globalStatement_keeps hs
  functionStatement hs := functionStatement_keeps hs
  templateStatement hs := templateStatement_keeps hs
  ruleStatement hs := ruleStatement_keeps hs
  queryStatement hs := queryStatement_keeps hs

theorem closeAt_beginsIn {l : Location} (hl : l.BeginsIn text) {stop : Option Nat}
    (hstop : ∀ b, stop = some b → b ≤ text.length) :
    (l.closeAt stop).BeginsIn text ∧ ∃ a b, (l.closeAt stop).start = some a ∧
      (l.closeAt stop).stop = some b ∧ a ≤ b ∧ b ≤ text.length := by
  obtain ⟨a, ha, hstart, hline, hcolumn⟩ := hl
  cases stop with
  | none => exact ⟨⟨a, ha, hstart, hline, hcolumn⟩, a, a, hstart, hstart, Nat.le_refl a, ha⟩
  | some b =>
    refine ⟨⟨a, ha, hstart, hline, hcolumn⟩, a, max b a, hstart, ?_, Nat.le_max_right b a,
      Nat.max_le.2 ⟨hstop b rfl, ha⟩⟩
    show some (max b (l.start.getD 0)) = some (max b a)
    rw [hstart]
    rfl

/-- The package of a text: its declarations are well laid, and its own location is closed within the
text. -/
theorem compilationUnit_laid (hs : Idle s) (hover : s.cursor.Over text) (hpackage : s.package = {})
    {p : Package} (h : compilationUnit s = .ok p t) :
    p.Laid text ∧ ∃ a b, p.location.start = some a ∧ p.location.stop = some b ∧ a ≤ b ∧
      b ≤ text.length := by
  have hbegin : Package.Laid text { s.package with
      location := { Location.ofToken s.cursor.current with stop := s.package.location.stop } } := by
    have hstands := hover.current
    rw [hpackage]
    exact Package.laid_of_location ⟨_, Nat.le_trans hstands.start_le hstands.stop_le, rfl,
      congrArg some hstands.line, congrArg some hstands.column⟩
  obtain ⟨w, hend, rfl⟩ := laid_invariant.compilationUnit hs hover hbegin h
  have hstop : ∀ b, w.cursor.previous.map (·.stop) = some b → b ≤ text.length := by
    intro b hb
    have hpast := hend.cursor.past_le
    rwa [Cursor.past, hb] at hpast
  obtain ⟨hbegins, hclosed⟩ := closeAt_beginsIn hend.package.location hstop
  exact ⟨{ hend.package with location := hbegins }, hclosed⟩

end Rulebook.Parser
