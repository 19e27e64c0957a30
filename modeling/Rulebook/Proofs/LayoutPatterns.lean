import Rulebook.Proofs.Onward

/-!
# Patterns are well laid

Each production below the level of data sources gives a tree that is well laid between the token
where it begins and the last one that it takes. That holds for a broken pattern too: its location is
closed where recovery stopped, which is not before any of its constraints.
-/

namespace Rulebook.Parser

variable {text : String} {s t : State}

/-! ### Restrictions -/

theorem restrictionValue_laid (hs : s.cursor.Over text) {operator : String} {token : Token}
    (htoken : token.StandsIn text) (hle : token.start ≤ s.cursor.coming) {r : Restriction}
    (h : restrictionValue operator token s = .ok r t) :
    r.Laid text token.start t.cursor.past := by
  have hlt := Nat.lt_of_le_of_lt hle (coming_lt_past hs h)
  unfold restrictionValue at h
  rw [bind_of_ok (current_eq s)] at h
  obtain ⟨p, hp, h⟩ : ∃ p : Parser Restriction, p = _ ∧ p s = .ok r t := ⟨_, rfl, h⟩
  split at hp <;> subst hp
  · obtain ⟨_, u, -, h⟩ := bind_eq_ok.1 h
    obtain ⟨-, location, rfl, hcovers⟩ := made_of_close h htoken hlt
    exact hcovers
  · obtain ⟨code, u, -, h⟩ := bind_eq_ok.1 h
    obtain ⟨_, v, -, h⟩ := bind_eq_ok.1 h
    obtain ⟨-, location, rfl, hcovers⟩ := made_of_close h htoken hlt
    exact hcovers
  · split at h
    · rw [bind_of_ok (peek_eq 1 s)] at h
      split at h
      · obtain ⟨name, u, -, h⟩ := bind_eq_ok.1 h
        obtain ⟨-, location, rfl, hcovers⟩ := made_of_close h htoken hlt
        exact hcovers
      · obtain ⟨_, u, -, h⟩ := bind_eq_ok.1 h
        obtain ⟨-, location, rfl, hcovers⟩ := made_of_close h htoken hlt
        exact hcovers
    · cases h

theorem connectiveAt_laid (c : Connective) {token : Token} (h : Taken text s token t) :
    (connectiveAt c token).Laid text token.start token.stop :=
  ⟨rfl, rfl, h.lt, congrArg some h.stands.line, congrArg some h.stands.column⟩

theorem value_laid (hs : s.cursor.Over text) {operator : String} {r : Restriction}
    (h : restrictionValue operator s.cursor.current s = .ok r t) :
    s.cursor.coming < t.cursor.past ∧ r.Laid text s.cursor.coming t.cursor.past :=
  ⟨coming_lt_past hs h, restrictionValue_laid hs hs.current (Nat.le_refl _) h⟩

theorem valueList_row (hs : s.cursor.Over text) {operator : String} {c : Connective}
    {rs : List Restriction} (h : valueList operator c s = .ok rs t) :
    Row (Restriction.Laid text) s.cursor.coming t.cursor.past rs := by
  obtain ⟨_, u, hu, h⟩ := bind_eq_ok.1 h
  have hon := State.Onward.of_ok hs hu
  obtain ⟨token, _, hcurrent, h⟩ := bind_eq_ok.1 h
  cases hcurrent
  obtain ⟨first, v, hv, h⟩ := bind_eq_ok.1 h
  obtain ⟨hlt, hfirst⟩ := value_laid hon.stays hv
  obtain ⟨found, w, hw, h⟩ := bind_eq_ok.1 h
  obtain ⟨_, x, hx, h⟩ := bind_eq_ok.1 h
  obtain ⟨rfl, rfl⟩ := pure_ok h
  let I (v : State) (found : List Restriction) : Prop :=
    v.cursor.Over text ∧ Row (Restriction.Laid text) s.cursor.coming v.cursor.past found
  have hrow : I w rs := by
    refine repeatWhile_invariant (I := I) (fun h => by cases h; rfl) ?_
      ⟨(State.Onward.of_ok hon.stays hv).stays,
        .cons hon.coming_le hlt hfirst (.nil (Nat.le_refl _))⟩ hw
    rintro found found' v w hmore ⟨hover, hrow⟩ hbody
    obtain ⟨comma, x, hx, hbody⟩ := bind_eq_ok.1 hbody
    have htaken := taken_of_advance hover (by rw [(kind_of_nextIsSymbol hmore).2]; simp) hx
    have honx := State.Onward.of_ok hover hx
    obtain ⟨token, _, hcurrent, hbody⟩ := bind_eq_ok.1 hbody
    cases hcurrent
    obtain ⟨next, y, hy, hbody⟩ := bind_eq_ok.1 hbody
    obtain ⟨rfl, rfl⟩ := pure_ok hbody
    obtain ⟨hnextlt, hnext⟩ := value_laid honx.stays hy
    refine ⟨(State.Onward.of_ok honx.stays hy).stays, ?_⟩
    have hcomma : v.cursor.past ≤ comma.start := htaken.start ▸ hover.past_le_coming
    have hle : comma.stop ≤ x.cursor.coming :=
      Nat.le_trans htaken.stop_le honx.stays.past_le_coming
    have hboth := (hrow.snoc hcomma htaken.lt (connectiveAt_laid c htaken)).snoc hle hnextlt hnext
    rwa [List.append_assoc] at hboth
  exact hrow.2.upper (State.Onward.of_ok hrow.1 hx).past_le

theorem operated_row (hs : s.cursor.Over text) {operator : String} {u : State}
    (hon : s.Onward text u) {rs : List Restriction}
    (h : (do return [← restrictionValue operator s.cursor.current] : Parser _) u = .ok rs t) :
    Row (Restriction.Laid text) s.cursor.coming t.cursor.past rs := by
  obtain ⟨r, v, hr, h⟩ := bind_eq_ok.1 h
  obtain ⟨rfl, rfl⟩ := pure_ok h
  have hlt := coming_lt_past hon.stays hr
  exact .cons (Nat.le_refl _) (Nat.lt_of_le_of_lt hon.coming_le hlt)
    (restrictionValue_laid hon.stays hs.current hon.coming_le hr) (.nil (Nat.le_refl _))

theorem restriction_row (hs : s.cursor.Over text) {rs : List Restriction}
    (h : restriction s = .ok rs t) :
    Row (Restriction.Laid text) s.cursor.coming t.cursor.past rs := by
  unfold restriction at h
  rw [bind_of_ok (current_eq s)] at h
  have hadvance := State.Onward.of_ok hs (advance_eq s)
  split at h
  · rw [bind_of_ok (advance_eq s)] at h
    exact operated_row hs hadvance h
  · split at h
    · rw [bind_of_ok (advance_eq s)] at h
      exact (valueList_row hadvance.stays h).lower hadvance.coming_le
    · split at h
      · rw [bind_of_ok (advance_eq s), bind_of_ok (current_eq s.advanced)] at h
        split at h
        · rw [bind_of_ok (advance_eq s.advanced)] at h
          have hagain := State.Onward.of_ok hadvance.stays (advance_eq s.advanced)
          exact (valueList_row hagain.stays h).lower (hadvance.trans hagain).coming_le
        · split at h
          · rw [bind_of_ok (advance_eq s.advanced)] at h
            have hagain := State.Onward.of_ok hadvance.stays (advance_eq s.advanced)
            exact operated_row hs (hadvance.trans hagain) h
          · cases h
      · cases h

theorem joinedRestriction_row {lo : Nat} (hs : s.cursor.Over text) {found : List Restriction}
    {open_ : Bool} (hfound : Row (Restriction.Laid text) lo s.cursor.past found)
    {r : List Restriction × Bool} (h : joinedRestriction (found, open_) s = .ok r t) :
    t.cursor.Over text ∧ Row (Restriction.Laid text) lo t.cursor.past r.1 := by
  have hon := State.Onward.of_ok hs h
  refine ⟨hon.stays, ?_⟩
  obtain ⟨token, _, hcurrent, h⟩ := bind_eq_ok.1 h
  cases hcurrent
  obtain ⟨p, hp, h⟩ : ∃ p : Parser (List Restriction × Bool), p = _ ∧ p s = .ok r t := ⟨_, rfl, h⟩
  split at hp <;> subst hp
  · obtain ⟨rfl, rfl⟩ := pure_ok h
    exact hfound
  · next c hc =>
    obtain ⟨again, u, hu, h⟩ := bind_eq_ok.1 h
    have hcursor := (trial_ok hu).1
    cases again with
    | false =>
      obtain ⟨rfl, rfl⟩ := pure_ok h
      exact hfound.upper hon.past_le
    | true =>
      obtain ⟨token, v, hv, h⟩ := bind_eq_ok.1 h
      obtain ⟨rs, w, hw, h⟩ := bind_eq_ok.1 h
      obtain ⟨rfl, rfl⟩ := pure_ok h
      rw [← hcursor] at hs hc hfound
      have htaken := taken_of_advance hs (fun hk => by rw [hk] at hc; cases hc) hv
      have honv := State.Onward.of_ok hs hv
      have hcomma : u.cursor.past ≤ token.start := htaken.start ▸ hs.past_le_coming
      have hle : token.stop ≤ v.cursor.coming :=
        Nat.le_trans htaken.stop_le honv.past_le_coming
      have hboth := (hfound.snoc hcomma htaken.lt (connectiveAt_laid c htaken)).append
        ((restriction_row honv.stays hw).lower hle)
      rwa [List.append_assoc] at hboth

theorem restrictions_row (hs : s.cursor.Over text) {rs : List Restriction}
    (h : restrictions s = .ok rs t) :
    Row (Restriction.Laid text) s.cursor.coming t.cursor.past rs := by
  obtain ⟨first, u, hu, h⟩ := bind_eq_ok.1 h
  obtain ⟨found, v, hv, h⟩ := bind_eq_ok.1 h
  obtain ⟨rfl, rfl⟩ := pure_ok h
  let I (v : State) (found : List Restriction × Bool) : Prop :=
    v.cursor.Over text ∧ Row (Restriction.Laid text) s.cursor.coming v.cursor.past found.1
  exact (repeatWhile_invariant (I := I) (fun h => by cases h; rfl)
    (fun _ hI hbody => joinedRestriction_row hI.1 hI.2 hbody)
    ⟨(State.Onward.of_ok hs hu).stays, restriction_row hs hu⟩ hv).2

/-! ### Constraints -/

abbrev ConstraintsWithin (text : String) (lo hi : Nat) (cs : List Constraint) : Prop :=
  ∀ c ∈ cs, Between (Constraint.Laid text) lo hi c

theorem ConstraintsWithin.weaken {lo lo' hi hi' : Nat} {cs : List Constraint}
    (h : ConstraintsWithin text lo hi cs) (hlo : lo' ≤ lo) (hhi : hi ≤ hi') :
    ConstraintsWithin text lo' hi' cs :=
  fun c hc => (h c hc).weaken hlo hhi

theorem ConstraintsWithin.nil {lo hi : Nat} : ConstraintsWithin text lo hi [] :=
  fun c hc => by cases hc

theorem ConstraintsWithin.singleton {lo hi a b : Nat} {c : Constraint} (ha : lo ≤ a) (hb : b ≤ hi)
    (h : c.Laid text a b) : ConstraintsWithin text lo hi [c] := fun d hd => by
  rw [List.mem_singleton.1 hd]
  exact ⟨a, b, ha, hb, h⟩

theorem ConstraintsWithin.append {lo hi : Nat} {cs ds : List Constraint}
    (h : ConstraintsWithin text lo hi cs) (h' : ConstraintsWithin text lo hi ds) :
    ConstraintsWithin text lo hi (cs ++ ds) :=
  fun c hc => (List.mem_append.1 hc).elim (h c) (h' c)

theorem predicate_laid (hs : s.cursor.Over text) {token : Token} (htoken : token.StandsIn text)
    (hle : token.start ≤ s.cursor.coming) {field declaration : Option String} {c : Constraint}
    (h : predicate token field declaration s = .ok c t) :
    c.Laid text token.start t.cursor.past := by
  have hlt := Nat.lt_of_le_of_lt hle (coming_lt_past hs h)
  obtain ⟨code, u, -, h⟩ := bind_eq_ok.1 h
  obtain ⟨_, v, -, h⟩ := bind_eq_ok.1 h
  obtain ⟨-, location, rfl, hcovers⟩ := made_of_close h htoken hlt
  exact .predicate hcovers code field declaration

theorem fieldConstraint_within (hs : s.cursor.Over text) {token fieldToken : Token}
    (htoken : token.StandsIn text) (hle : token.start ≤ fieldToken.start)
    (hfield : fieldToken.StandsIn text) (hlt : fieldToken.start < s.cursor.past) {field : String}
    {declaration : Option String} {cs : List Constraint}
    (h : fieldConstraint token fieldToken field declaration s = .ok cs t) :
    ConstraintsWithin text token.start t.cursor.past cs := by
  have hpast := hs.past_le_coming
  have hon := State.Onward.of_ok hs h
  obtain ⟨arrow, _, harrow, h⟩ := bind_eq_ok.1 h
  cases harrow
  split at h
  · obtain ⟨_, u, hu, h⟩ := bind_eq_ok.1 h
    obtain ⟨c, v, hv, h⟩ := bind_eq_ok.1 h
    obtain ⟨rfl, rfl⟩ := pure_ok h
    have honu := State.Onward.of_ok hs hu
    have hc := predicate_laid honu.stays htoken (by have := honu.coming_le; omega) hv
    exact .singleton (Nat.le_refl _) (Nat.le_refl _) hc
  · obtain ⟨more, _, hmore, h⟩ := bind_eq_ok.1 h
    cases hmore
    split at h
    · obtain ⟨found, u, hu, h⟩ := bind_eq_ok.1 h
      obtain ⟨rfl, location, rfl, hcovers⟩ :=
        made_of_close h hfield (Nat.lt_of_lt_of_le hlt hon.past_le)
      exact .singleton hle (Nat.le_refl _)
        (.field hcovers field ((restrictions_row hs hu).lower (by omega)))
    · split at h
      · obtain ⟨rfl, rfl⟩ := pure_ok h
        exact .nil
      · cases h

theorem fieldBinding_within {token : Token} (htoken : token.StandsIn text)
    (hlt : token.start < t.cursor.past) {field : String} {declaration : Option String}
    {cs : List Constraint} (h : fieldBinding token field declaration s = .ok cs t) :
    t = s ∧ ConstraintsWithin text token.start t.cursor.past cs := by
  cases declaration with
  | none =>
    obtain ⟨rfl, rfl⟩ := pure_ok h
    exact ⟨rfl, .nil⟩
  | some name =>
    obtain ⟨rfl, location, rfl, hcovers⟩ := made_of_close h htoken hlt
    exact ⟨rfl, .singleton (Nat.le_refl _) (Nat.le_refl _) (.binding hcovers field name)⟩

theorem fieldHead_ok (hs : s.cursor.Over text) {declaration : Option String} {fieldToken : Token}
    {field : String} (h : fieldHead s = .ok (declaration, fieldToken, field) t) :
    fieldToken.StandsIn text ∧ s.cursor.coming ≤ fieldToken.start ∧
      fieldToken.start < t.cursor.past := by
  obtain ⟨name, u, hu, h⟩ := bind_eq_ok.1 h
  obtain ⟨token, _, hcurrent, h⟩ := bind_eq_ok.1 h
  cases hcurrent
  obtain ⟨text, v, hv, h⟩ := bind_eq_ok.1 h
  cases h
  have hon := State.Onward.of_ok hs hu
  exact ⟨hon.stays.current, hon.coming_le, coming_lt_past hon.stays hv⟩

/-- What a constraint adds to those found before it. Those found before a failure are kept, and
where the failure is lies behind them. -/
theorem constraint_within {lo : Nat} (hs : s.cursor.Over text) (hlo : lo ≤ s.cursor.coming)
    {found : List Constraint} (hfound : ConstraintsWithin text lo s.cursor.past found)
    {r : Harvest (List Constraint)} (h : constraint found s = .ok r t) :
    ConstraintsWithin text lo t.cursor.past r.found := by
  have hon := State.Onward.of_ok hs h
  have hkept := hfound.weaken (Nat.le_refl lo) hon.past_le
  have hpast := hs.past_le_coming
  obtain ⟨token, _, hcurrent, h⟩ := bind_eq_ok.1 h
  cases hcurrent
  split at h
  · rcases harvest_ok h with ⟨c, hc, rfl⟩ | ⟨e, -, rfl⟩
    · have hlaid := predicate_laid hs hs.current (Nat.le_refl _) hc
      exact hkept.append (.singleton hlo (Nat.le_refl _) hlaid)
    · exact hkept
  · obtain ⟨next, _, hnext, h⟩ := bind_eq_ok.1 h
    cases hnext
    split at h
    · rcases harvest_ok h with ⟨c, hc, rfl⟩ | ⟨e, -, rfl⟩
      · obtain ⟨_, u, hu, hc⟩ := bind_eq_ok.1 hc
        have honu := State.Onward.of_ok hs hu
        have hlaid := predicate_laid honu.stays hs.current honu.coming_le hc
        exact hkept.append (.singleton hlo (Nat.le_refl _) hlaid)
      · exact hkept
    · obtain ⟨head, u, hu, h⟩ := bind_eq_ok.1 h
      rcases attempt_ok hu with ⟨⟨declaration, fieldToken, field⟩, rfl, hhead⟩ | ⟨e, rfl, -⟩
      · obtain ⟨binding, v, hv, hrest⟩ := bind_eq_ok.1 h
        obtain ⟨hfield, hle, hlt⟩ := fieldHead_ok hs hhead
        have honu := State.Onward.of_ok hs hhead
        obtain ⟨rfl, hbinding⟩ := fieldBinding_within hs.current
          (Nat.lt_of_le_of_lt hle
            (Nat.lt_of_lt_of_le hlt (State.Onward.of_ok honu.stays hv).past_le)) hv
        rcases harvest_ok hrest with ⟨cs, hcs, rfl⟩ | ⟨e, he, rfl⟩
        · have hlast := State.Onward.of_ok honu.stays hcs
          have hwithin := fieldConstraint_within honu.stays hs.current hle hfield hlt hcs
          exact (hkept.append (hbinding.weaken hlo hlast.past_le)).append
            (hwithin.weaken hlo (Nat.le_refl _))
        · have hlast := State.Onward.of_error honu.stays he
          exact hkept.append (hbinding.weaken hlo hlast.past_le)
      · obtain ⟨rfl, rfl⟩ := pure_ok h
        exact hkept

theorem constraints_within (hs : s.cursor.Over text) {r : Harvest (List Constraint)}
    (h : constraints s = .ok r t) :
    ConstraintsWithin text s.cursor.coming t.cursor.past r.found := by
  obtain ⟨closed, _, hclosed, h⟩ := bind_eq_ok.1 h
  cases hclosed
  split at h
  · obtain ⟨rfl, rfl⟩ := pure_ok h
    exact .nil
  · obtain ⟨first, u, hu, h⟩ := bind_eq_ok.1 h
    let I (v : State) (r : Harvest (List Constraint)) : Prop :=
      v.cursor.Over text ∧ s.cursor.coming ≤ v.cursor.coming ∧
        ConstraintsWithin text s.cursor.coming v.cursor.past r.found
    have hon := State.Onward.of_ok hs hu
    refine (repeatWhile_invariant (I := I) ?_ ?_ ⟨hon.stays, hon.coming_le,
      constraint_within hs (Nat.le_refl _) .nil hu⟩ h).2.2
    · intro r b v w hmore
      obtain ⟨_, _, hcomma, hmore⟩ := bind_eq_ok.1 hmore
      cases hcomma
      cases hmore
      rfl
    · rintro r r' v w - ⟨hover, hle, hwithin⟩ hbody
      obtain ⟨_, x, hx, hbody⟩ := bind_eq_ok.1 hbody
      have honx := State.Onward.of_ok hover hx
      have honw := State.Onward.of_ok honx.stays hbody
      have hlex := Nat.le_trans hle honx.coming_le
      exact ⟨honw.stays, Nat.le_trans hlex honw.coming_le,
        constraint_within honx.stays hlex (hwithin.weaken (Nat.le_refl _) honx.past_le) hbody⟩

/-! ### Fact patterns -/

theorem recoverParen_ok (hs : s.cursor.Over text) {e : ParseError} {right : Option Nat}
    (h : recoverParen e s = .ok right t) :
    ∀ r, right = some r → s.cursor.past ≤ r ∧ r < t.cursor.past := by
  obtain ⟨_, u, hu, h⟩ := bind_eq_ok.1 h
  have hon := State.Onward.of_ok hs hu
  obtain ⟨closed, _, hclosed, h⟩ := bind_eq_ok.1 h
  have hkind := hclosed
  cases hclosed
  split at h
  · next hmore =>
    obtain ⟨token, v, hv, h⟩ := bind_eq_ok.1 h
    cases h
    have hk : u.cursor.current.kind = .symbol .rparen := by simpa using hmore
    have htaken := taken_of_advance hon.stays (by rw [hk]; simp) hv
    rintro r ⟨⟩
    have := htaken.start
    have := htaken.lt_past
    have := hon.past_le_coming
    have := hon.past_le
    omega
  · cases h
    exact fun r hr => by cases hr

theorem rightParen_ok (hs : s.cursor.Over text) {failure : Option ParseError} {right : Option Nat}
    (h : rightParen failure s = .ok right t) :
    ∀ r, right = some r → s.cursor.past ≤ r ∧ r < t.cursor.past := by
  obtain ⟨closing, u, hu, h⟩ := bind_eq_ok.1 h
  have hon := State.Onward.of_ok hs hu
  cases closing with
  | ok token =>
    have htoken : symbol .rparen s = .ok token u := by
      cases failure with
      | none =>
        rcases attempt_ok hu with ⟨_, htoken, hsymbol⟩ | ⟨e, htoken, -⟩
        · cases htoken
          exact hsymbol
        · cases htoken
      | some e => cases hu
    have htaken := taken_of_symbol hs htoken
    have hstart := htaken.start
    have hpast := hs.past_le_coming
    cases h
    rintro r ⟨⟩
    exact ⟨by omega, htaken.lt_past⟩
  | error e =>
    intro r hr
    have hright := recoverParen_ok hon.stays h r hr
    exact ⟨Nat.le_trans hon.past_le hright.1, hright.2⟩

theorem factPattern_laid (hs : s.cursor.Over text) {p : Pattern} (h : factPattern s = .ok p t) :
    p.Laid text s.cursor.coming t.cursor.past := by
  have hlt := coming_lt_past hs h
  obtain ⟨start, _, hstart, h⟩ := bind_eq_ok.1 h
  cases hstart
  obtain ⟨name, u, hu, h⟩ := bind_eq_ok.1 h
  obtain ⟨type, v, hv, h⟩ := bind_eq_ok.1 h
  obtain ⟨left, w, hw, h⟩ := bind_eq_ok.1 h
  obtain ⟨body, x, hx, h⟩ := bind_eq_ok.1 h
  obtain ⟨right, y, hy, h⟩ := bind_eq_ok.1 h
  have honu := State.Onward.of_ok hs hu
  have honv := honu.trans (.of_ok honu.stays hv)
  have honw := honv.trans (.of_ok honv.stays hw)
  have honx := State.Onward.of_ok honw.stays hx
  have hony := State.Onward.of_ok honx.stays hy
  have hleft := taken_of_symbol honv.stays hw
  obtain ⟨rfl, location, rfl, hcovers⟩ := made_of_close h hs.current hlt
  refine .mk hcovers ?_ ?_ ?_ (Nat.le_refl _) (Nat.le_refl _) .workingMemory
  · exact (constraints_within honw.stays hx).weaken honw.coming_le hony.past_le
  · show s.cursor.coming ≤ left.start
    exact hleft.start ▸ honv.coming_le
  · intro r hr
    obtain ⟨hle, hlt⟩ := rightParen_ok honx.stays hy r hr
    refine ⟨?_, hlt⟩
    have := hleft.lt_past
    have := honx.past_le
    show left.start < r
    omega

end Rulebook.Parser
