import Rulebook.Proofs.TwinConditions
import Rulebook.Proofs.TwinNames

/-!
# Rules and queries in two readings

Attributes read no further than a token that cannot end a statement, so the second reading does not
go astray in them. It may do so in the conditions and the consequence, and then the recovery of the
rule reports it.
-/

namespace Rulebook.Parser

set_option synthInstance.maxSize 100000

variable {α : Type} {T : Readings} {s t : State}

/-! ### Attributes -/

theorem Agree.integer (text : String) (hst : T.Abreast s t) :
    Agree T False (· = ·) (fun _ _ => False) (integer text s) (integer text t) := by
  unfold Parser.integer
  dsimp only
  split
  · exact .error rfl rfl (.other (by simp)) hst
  · exact .ok rfl rfl rfl hst

theorem Agree.attributeValue {a b : Token} (hab : a.Like T.likeness b) (hst : T.Abreast s t) :
    Agree T False (· = ·) (fun _ _ => False) (attributeValue a s) (attributeValue b t) := by
  unfold Parser.attributeValue
  rw [hab.kind]
  split
  · refine (Agree.expect (T.notMem_ends (by decide)) hst).sure fun {c d u v} hcd huv _ _ => ?_
    rw [hcd.text]
    exact (Agree.integer d.text huv).sure fun hn hwx _ _ => .ok rfl rfl (congrArg _ hn) hwx
  · split
    · refine (Agree.accept (T.notMem_ends (by decide)) hst).sure fun hcd huv _ _ => ?_
      cases hcd with
      | none => exact .ok rfl rfl rfl huv
      | some hcd => exact .ok rfl rfl (by rw [hcd.text]) huv
    · split
      · exact (Agree.expect (T.notMem_ends (by decide)) hst).sure fun hcd huv _ _ =>
          .ok rfl rfl (by rw [hcd.stringValue]) huv
      · exact .error rfl rfl (.recognition (.inr (.mismatchedSet _ hab))) hst

theorem Agree.ruleAttribute (hst : T.Abreast s t) (hlive : T.Live s t) :
    Agree T False (Attribute.Like T.likeness) (fun _ _ => False) (ruleAttribute s)
      (ruleAttribute t) := by
  refine Agree.step (advance_eq s) (advance_eq t) ?_
  refine (Agree.attributeValue hlive (hst.advanced hlive)).sure fun hvalue huv _ _ => ?_
  exact (Agree.close (K := fun _ _ => False) huv (.ofToken hlive) rfl).sure fun hl hwx _ _ =>
    .ok rfl rfl ⟨hl, hlive.text, hvalue⟩ hwx

theorem eager_ruleAttribute (hk : s.cursor.current.kind ≠ .endOfInput) :
    EagerFrom ruleAttribute s where
  takes h := by
    unfold ruleAttribute at h
    rw [bind_of_ok (advance_eq s)] at h
    obtain ⟨value, u, hu, h⟩ := bind_eq_ok.1 h
    cases h
    exact Nat.lt_of_le_of_lt (Orderly.evolves_attributeValue hu).length_shown_le
      ((EagerFrom.advance hk).takes (advance_eq s))

theorem rule_put_like {r q : Rule} (h : r.Like T.likeness q) {a b : Attribute}
    (hab : a.Like T.likeness b) :
    Rule.Like T.likeness { r with attributes := r.attributes.put a }
      { q with attributes := q.attributes.put b } :=
  { h with attributes := T.attributes_put h.attributes hab }

theorem Agree.addAttribute [T.BetweenStatements] {h h' : Harvest Rule}
    (hh : SameHarvest T (Rule.Like T.likeness) h h') (hst : T.Abreast s t) (hlive : T.Live s t) :
    Agree T False (SameHarvest T (Rule.Like T.likeness)) (fun _ _ => False) (addAttribute h s)
      (addAttribute h' t) := by
  unfold Parser.addAttribute
  refine Agree.sure (.harvest (J := fun _ => False) (Agree.ruleAttribute hst hlive) hh.found
    (rule_put_like hh.found)) fun {g g' u v} hg huv _ _ => ?_
  obtain ⟨found, failure⟩ := g
  obtain ⟨found', failure'⟩ := g'
  obtain ⟨hfound, hfailure⟩ := hg
  cases hfailure with
  | none =>
    exact (Agree.skip (T.symbol_notMem_borders .comma) huv).sure fun _ hwx _ _ =>
      .ok rfl rfl ⟨hfound, .none⟩ hwx
  | some he => exact .ok rfl rfl ⟨hfound, .some he⟩ huv

theorem rolls_addAttribute : Rolls
    (fun h : Harvest Rule => do return h.failure.isNone && (← nextIs attributeKinds))
    addAttribute where
  asks h s := ⟨_, rfl⟩
  gains {h g s u} hmore hbody := by
    have hk : (h.failure.isNone && decide (s.cursor.current.kind ∈ attributeKinds)) = true :=
      (EStateM.Result.ok.inj hmore).1
    rw [Bool.and_eq_true, decide_eq_true_eq] at hk
    have hne : s.cursor.current.kind ≠ .endOfInput := fun heq =>
      absurd (heq ▸ hk.2) (by decide)
    obtain ⟨g', v, hharvest, hskip⟩ := bind_eq_ok.1 hbody
    unfold harvest at hharvest
    rw [map_eq_bind] at hharvest
    obtain ⟨r, w, hattempt, hpure⟩ := bind_eq_ok.1 hharvest
    cases hpure
    cases r with
    | ok a =>
      refine .inl ((Orderly.evolves_ok (addAttribute h) hbody).length_rest_lt ?_)
      have hlt : v.cursor.shown.length < s.cursor.shown.length := by
        cases hp : ruleAttribute s with
        | ok b x =>
          rw [attempt_of_ok hp] at hattempt
          cases hattempt
          exact (eager_ruleAttribute hne).takes hp
        | error f x =>
          cases f with
          | recognition e => rw [attempt_of_recognition hp] at hattempt; cases hattempt
          | _ => rw [attempt_of_error hp (by simp)] at hattempt; cases hattempt
      obtain ⟨_, x, hx, hrest⟩ := bind_eq_ok.1 hskip
      cases hrest
      exact Nat.lt_of_le_of_lt (Orderly.evolves_ok _ hx).length_shown_le hlt
    | error e =>
      cases hskip
      exact .inr rfl

theorem Agree.attributesHead (hst : T.Abreast s t) :
    Agree T False (fun _ _ => True) (fun _ _ => False) (attributesHead s) (attributesHead t) := by
  unfold Parser.attributesHead
  rcases Tests.nextIsKeyword (k := .attributes) (T.notMem_borders (by decide)) hst with
    ⟨c, hx, hy, hlive⟩ | ⟨-, -, hno⟩
  · refine Agree.step hx hy ?_
    cases c with
    | false => exact .ok rfl rfl trivial hst
    | true =>
      refine Agree.step (advance_eq s) (advance_eq t) ?_
      exact (Agree.expect (T.notMem_ends (by decide)) (hst.advanced (hlive rfl))).sure
          fun _ huv _ _ =>
        .ok rfl rfl trivial huv
  · exact hno.elim

theorem Agree.ruleAttributes [T.BetweenStatements] {r q : Rule} (hrq : r.Like T.likeness q)
    (hst : T.Abreast s t) :
    Agree T False (SameHarvest T (Rule.Like T.likeness)) (fun _ _ => False) (ruleAttributes r s)
      (ruleAttributes q t) := by
  unfold Parser.ruleAttributes
  refine (Agree.attributesHead hst).attempt.sure fun {c d u v} hcd huv _ _ => ?_
  cases hcd with
  | error he => exact .ok rfl rfl ⟨hrq, .some he⟩ huv
  | ok =>
    refine .repeatWhile rolls_addAttribute rolls_addAttribute (fun g g' w x hg hwx => ?_)
      (fun _ _ _ hno => hno.elim) ⟨hrq, .none⟩ huv
    have hnone : ∀ {f f' : Option ParseError}, Option.Rel (SameError T) f f' →
        f.isNone = f'.isNone := by
      intro f f' h
      cases h <;> rfl
    have htests : Tests T (fun _ => False) (nextIs attributeKinds) (nextIs attributeKinds) :=
      .nextIs (T.apartFromStatements (by decide))
    rcases htests.and (hnone hg.failure) hwx with ⟨answer, hy, hz, hlive⟩ | ⟨-, -, hno⟩
    · exact .inl ⟨answer, hy, hz, fun h => Agree.addAttribute hg hwx (hlive h)⟩
    · exact hno.elim

/-! ### Parts of a rule -/

theorem LiveTwin.conditionBlock [T.BetweenStatements] :
    LiveTwin T (Block.Like T.likeness) conditionBlock conditionBlock := by
  unfold Parser.conditionBlock
  exact .bind .advance fun hab => .bind (.skip (T.notMem_borders (by decide))) fun _ =>
    .block (.some hab)

theorem Twin.ruleConditions [T.BetweenStatements] {r q : Rule} (hrq : r.Like T.likeness q) :
    Twin T (SameHarvest T (Rule.Like T.likeness)) (ruleConditions r) (ruleConditions q)
      (HarvestAstray fun _ => False) := by
  unfold Parser.ruleConditions
  refine (Tests.nextIsKeyword (T.notMem_borders (by decide))).choose (fun u v huv hlive => ?_)
    (.pure ⟨hrq, .none⟩)
  exact (LiveTwin.conditionBlock huv hlive).harvest hrq fun hb =>
    { hrq with conditions := .some hb }

theorem Twin.closing : Twin T (fun _ _ => True) closing closing := by
  unfold Parser.closing
  exact .bind (.keyword _) fun _ => .skip (T.notMem_borders (by decide))

instance Eager.closing : Eager closing := by unfold Parser.closing; infer_instance

theorem Twin.ruleConsequence {r q : Rule} (hrq : r.Like T.likeness q) :
    Twin T (SameHarvest T (Rule.Like T.likeness)) (ruleConsequence r) (ruleConsequence q)
      (HarvestAstray fun _ => False) := by
  unfold Parser.ruleConsequence
  refine .bind_astray (Twin.harvest .consequence hrq fun hc => { hrq with consequence := hc })
    (fun hh => .andThen hh fun hrq => .harvest .closing hrq fun _ => hrq) fun h u hu hh => ?_
  obtain ⟨found, failure⟩ := h
  cases failure with
  | none => exact doomed_harvest (doomed_of_eager hu hh)
  | some e => exact .inr ⟨hu, hh⟩

theorem Twin.ruleBody [T.BetweenStatements] {r q : Rule} (hrq : r.Like T.likeness q) :
    Twin T (SameHarvest T (Rule.Like T.likeness)) (ruleBody r) (ruleBody q)
      (HarvestAstray fun _ => False) := by
  unfold Parser.ruleBody
  refine .bind (fun _ _ hst => (Agree.ruleAttributes hrq hst).weaken) fun hh => ?_
  exact .bind_astray (.andThen hh .ruleConditions) (fun hh => .andThen hh .ruleConsequence)
    fun _ _ hu hh => doomed_andThen hu hh

/-! ### Recovery -/

theorem Agree.recovering (name : String) {R : α → α → Prop} {body body' : Parser (Harvest α)}
    [Orderly body] [Orderly body'] {locate locate' : α → Location → α} {l l' : Location}
    (hl : l.Like T.likeness l') (hsome : l.start.isSome = true)
    (hlocate : ∀ {a b m m'}, R a b → Location.Like T.likeness m m' → R (locate a m) (locate' b m'))
    (h : Agree T T.cut (SameHarvest T R) (HarvestAstray fun _ => False) (body (s.named name))
      (body' (t.named name))) :
    Agree T T.cut R (fun _ _ => False) (recovering name body locate l s)
      (recovering name body' locate' l' t) := by
  refine Agree.underName name
    (h.bind_cases (fun g => by cases g.failure <;> infer_instance) ?_ ?_)
  · intro g g' u v hg huv _ _
    obtain ⟨found, failure⟩ := g
    obtain ⟨found', failure'⟩ := g'
    obtain ⟨hfound, hfailure⟩ := hg
    have hclose : Twin T R (do return locate found (← Parser.close l))
        (do return locate' found' (← Parser.close l')) :=
      .bind (.close hl hsome) fun hm => .pure (hlocate hfound hm)
    cases hfailure with
    | none => exact hclose huv
    | some he => exact Twin.bind (.recoverFrom he ruleFollow) (fun _ => hclose) huv
  · intro g v hv hg
    obtain ⟨found, failure⟩ := g
    cases failure with
    | none => exact hg.elim
    | some e =>
      have hrecover : Doomed (fun _ _ => False) (recoverFrom e ruleFollow v) :=
        doomed_recoverFrom hv hg
      exact hrecover.bind fun _ _ _ hno => hno.elim

/-! ### Rules -/

theorem entries_like {p q : Package} (h : p.Like T.likeness q) {e e' : Entry}
    (he : e.Like T.likeness e') :
    Package.Like T.likeness { p with rules := p.rules ++ [e] }
      { q with rules := q.rules ++ [e'] } :=
  { h with rules := h.rules.append he }

theorem rule_begun_like {a b : Token} (hab : a.Like T.likeness b) (name : String)
    {as bs : Attributes} (h : T.likeness.attributes as bs) :
    Rule.Like T.likeness { location := .ofToken a, name, attributes := as }
      { location := .ofToken b, name, attributes := bs } where
  location := .ofToken hab
  name := rfl
  attributes := h
  conditions := .none
  consequence := ⟨T.code_nil, .none, .none, .none, .none⟩

theorem LiveTwin.ruleStatement [T.BetweenStatements] :
    LiveTwin T (Rule.Like T.likeness) ruleStatement ruleStatement := by
  intro s t hst hlive
  unfold Parser.ruleStatement
  refine (LiveTwin.expect _ hst hlive).seq fun {a b u v} hab huv _ _ => ?_
  refine (Twin.of_live LiveTwin.title huv).seq fun {name _ w x} hname hwx _ _ => ?_
  subst hname
  refine Agree.step (a := w) (b := x) rfl rfl ?_
  have hbody : Agree T T.cut (SameHarvest T (Rule.Like T.likeness)) (HarvestAstray fun _ => False)
      (ruleBody { location := .ofToken a, name, attributes := w.package.attributes } (w.named name))
      (ruleBody { location := .ofToken b, name, attributes := x.package.attributes }
        (x.named name)) :=
    Twin.ruleBody (rule_begun_like hab name (T.attributes_of_defaults hwx.package.attributes))
      { hwx with ruleName := rfl }
  refine (Agree.recovering name (.ofToken hab) rfl (fun h hl => { h with location := hl })
    hbody).seq fun {r q y z} hrq hyz _ _ => ?_
  refine (Twin.inTrial hyz).seq fun {c d i j} hcd hij _ _ => ?_
  subst hcd
  cases c with
  | true => exact .ok rfl rfl hrq hij
  | false =>
    exact Twin.bind (.declare fun h => entries_like h (.rule hrq))
      (fun _ => .bind (.note _ _) fun _ => .pure hrq) hij

/-! ### Queries -/

theorem Twin.queryParameters [T.BetweenStatements] :
    Twin T (· = ·) queryParameters queryParameters := by
  unfold Parser.queryParameters
  exact (Tests.nextIsSymbol (T.symbol_notMem_borders _)).choose Twin.parameters.live (.pure rfl)

/-- Once a token was consumed there is one before every later place. -/
theorem State.Evolves.previous_isSome (h : s.Evolves t) (hs : s.cursor.previous.isSome = true) :
    t.cursor.previous.isSome = true := by
  have hlast : ∀ n, (s.cursor.rewind t.cursor.index).lastBefore n = s.cursor.lastBefore n := by
    intro n
    induction n with
    | zero => rfl
    | succ n ih =>
      rw [Cursor.lastBefore, Cursor.lastBefore, ih]
      rfl
  have hmono : ∀ k, (s.cursor.lastBefore (s.cursor.index + k)).isSome = true := by
    intro k
    induction k with
    | zero => exact hs
    | succ k ih =>
      rw [← Nat.add_assoc, Cursor.lastBefore]
      split
      · exact ih
      · rfl
  rw [h.cursor]
  show ((s.cursor.rewind t.cursor.index).lastBefore t.cursor.index).isSome = true
  rw [hlast, ← Nat.add_sub_cancel' h.index]
  exact hmono _

theorem Agree.queryBlock [T.BetweenStatements] (hst : T.Abreast s t)
    (hprevious : t.cursor.previous.isSome = true) :
    Agree T T.cut (Block.Like T.likeness) (fun _ _ => False) (queryBlock s) (queryBlock t) := by
  have hrel : Option.Rel (Token.Like T.likeness) s.cursor.previous t.cursor.previous := by
    rcases hst.previous with hrel | ⟨hnone, -⟩
    · exact hrel
    · rw [hnone] at hprevious
      cases hprevious
  exact Agree.step (a := s) (b := t) rfl rfl (Twin.block hrel hst)

theorem Agree.queryBody [T.BetweenStatements] {r q : Query} (hrq : r.Like T.likeness q)
    (hst : T.Abreast s t) (hprevious : t.cursor.previous.isSome = true) :
    Agree T T.cut (SameHarvest T (Query.Like T.likeness)) (HarvestAstray fun _ => False)
      (queryBody r s) (queryBody q t) := by
  unfold Parser.queryBody
  refine Agree.bind (R := SameHarvest T (Query.Like T.likeness))
    (K := HarvestAstray fun _ => False) ?_ (fun {g g' u v} hg huv _ hv => ?_)
    (fun g v hv hg => (doomed_andThen hv hg).bind fun g w hw hg => doomed_andThen hw hg)
  · exact (Twin.queryParameters hst).harvest hrq fun h => { hrq with parameters := h }
  · have hsome := (Orderly.evolves_ok _ hv).previous_isSome hprevious
    refine Agree.bind (R := SameHarvest T (Query.Like T.likeness))
      (K := HarvestAstray fun _ => False) ?_ (fun hg hwx _ _ => ?_)
      (fun g v hv hg => doomed_andThen hv hg)
    · obtain ⟨found, failure⟩ := g
      obtain ⟨found', failure'⟩ := g'
      obtain ⟨hfound, hfailure⟩ := hg
      cases hfailure with
      | none => exact (Agree.queryBlock huv hsome).harvest hfound fun hb =>
          { hfound with conditions := .some hb }
      | some he => exact .ok rfl rfl ⟨hfound, .some he⟩ huv
    · exact Twin.andThen hg (fun hrq => .harvest .closing hrq fun _ => hrq) hwx

theorem LiveTwin.queryStatement [T.BetweenStatements] :
    LiveTwin T (Query.Like T.likeness) queryStatement queryStatement := by
  intro s t hst hlive
  unfold Parser.queryStatement
  refine (LiveTwin.expect _ hst hlive).seq fun {a b u v} hab huv _ hv => ?_
  refine (Twin.of_live LiveTwin.title huv).seq fun {name _ w x} hname hwx _ hx => ?_
  subst hname
  have hprevious : x.cursor.previous.isSome = true := by
    obtain ⟨hb, hkind, rfl⟩ := expect_of_ok hv
    refine (Orderly.evolves_ok _ hx).previous_isSome ?_
    rw [hst.previous_advanced (by rw [← hb, hkind]; simp)]
    rfl
  have hbegun :
      Query.Like T.likeness { location := .ofToken a, name } { location := .ofToken b, name } :=
    ⟨.ofToken hab, rfl, rfl, .none⟩
  refine (Agree.recovering name (.ofToken hab) rfl (fun h hl => { h with location := hl })
    (Agree.queryBody hbegun { hwx with ruleName := rfl } hprevious)).seq
    fun {r q y z} hrq hyz _ _ => ?_
  exact Twin.bind (.declare fun h => entries_like h (.query hrq)) (fun _ => .pure hrq) hyz

end Rulebook.Parser
