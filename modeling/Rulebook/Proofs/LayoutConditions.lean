import Rulebook.Proofs.LayoutPatterns

/-!
# Data sources are well laid

An index in an access chain extends the access before it, so the row of accesses is kept when its
last member grows. A data source stands behind its pattern, and the pattern grows up to its end.
-/

namespace Rulebook.Parser

set_option synthInstance.maxSize 100000

variable {text : String} {s t : State}

/-! ### Access chains -/

theorem index_row {lo m : Nat} {chain : List Access} (h : Row (Access.Laid text) lo m chain)
    {bracket : Token} (hbracket : bracket.StandsIn text) (hle : m ≤ bracket.start)
    (argument : String) {stop : Nat} (hlt : bracket.start < stop) :
    Row (Access.Laid text) lo stop (Access.index chain bracket argument (some stop)) := by
  have hnew : Row (Access.Laid text) lo stop (chain ++
      [.field ((Location.ofToken bracket).closeAt (some stop)) "" (some argument)]) :=
    h.snoc hle hlt (hbracket.covers hlt)
  unfold Access.index
  split
  · next l name hlast =>
    obtain ⟨front, rfl⟩ := List.getLast?_eq_some_iff.1 hlast
    obtain ⟨a, b, hfront, hab, hbm, hfield⟩ := Row.append_singleton_iff.1 h
    rw [List.dropLast_concat]
    exact hfront.snoc (Nat.le_refl a) (by omega)
      (Location.Covers.closeAt hfield (by omega) (by omega))
  · exact hnew

theorem indexAccess_row {lo : Nat} (hs : s.cursor.Over text) {chain chain' : List Access}
    (h : Row (Access.Laid text) lo s.cursor.past chain)
    (hok : indexAccess chain s.cursor.current s = .ok chain' t) :
    Row (Access.Laid text) lo t.cursor.past chain' := by
  obtain ⟨argument, u, hu, hok⟩ := bind_eq_ok.1 hok
  obtain ⟨code, hcode, rfl⟩ := map_eq_ok hu
  obtain ⟨stop, v, hv, hok⟩ := bind_eq_ok.1 hok
  have hlt := coming_lt_past hs hcode
  obtain ⟨rfl, rfl⟩ := lastStop_ok hv
  obtain ⟨rfl, rfl⟩ := pure_ok hok
  rw [previous_stop_of_pos (Nat.lt_of_le_of_lt (Nat.zero_le _) hlt)]
  exact index_row h hs.current hs.past_le_coming _ hlt

theorem memberAccess_row {lo : Nat} (hs : s.cursor.Over text) {chain chain' : List Access}
    (h : Row (Access.Laid text) lo s.cursor.past chain)
    (hok : memberAccess chain s = .ok chain' t) :
    Row (Access.Laid text) lo t.cursor.past chain' := by
  obtain ⟨_, u, hu, hok⟩ := bind_eq_ok.1 hok
  have honu := State.Onward.of_ok hs hu
  obtain ⟨member, _, hmember, hok⟩ := bind_eq_ok.1 hok
  cases hmember
  obtain ⟨name, v, hv, hok⟩ := bind_eq_ok.1 hok
  have honv := State.Onward.of_ok honu.stays hv
  have hlt : u.cursor.coming < t.cursor.past :=
    Nat.lt_of_lt_of_le (coming_lt_past honu.stays hv) (State.Onward.of_ok honv.stays hok).past_le
  obtain ⟨arguments, w, -, hok⟩ := bind_eq_ok.1 hok
  obtain ⟨-, location, rfl, hcovers⟩ := made_of_close hok honu.stays.current hlt
  refine h.snoc (a := u.cursor.coming) ?_ hlt ?_
  · exact Nat.le_trans honu.past_le honu.past_le_coming
  · cases arguments <;> exact hcovers

theorem access_row {lo : Nat} (hs : s.cursor.Over text) {chain chain' : List Access}
    (h : Row (Access.Laid text) lo s.cursor.past chain) (hok : access chain s = .ok chain' t) :
    t.cursor.Over text ∧ Row (Access.Laid text) lo t.cursor.past chain' := by
  refine ⟨(State.Onward.of_ok hs hok).stays, ?_⟩
  obtain ⟨token, _, htoken, hok⟩ := bind_eq_ok.1 hok
  cases htoken
  split at hok
  · exact indexAccess_row hs h hok
  · exact memberAccess_row hs h hok

theorem retrieval_laid (hs : s.cursor.Over text) {r : Retrieval} (h : retrieval s = .ok r t) :
    r.Laid text s.cursor.coming t.cursor.past := by
  obtain ⟨start, _, hstart, h⟩ := bind_eq_ok.1 h
  cases hstart
  obtain ⟨head, u, hu, h⟩ := bind_eq_ok.1 h
  obtain ⟨arguments, v, hv, h⟩ := bind_eq_ok.1 h
  obtain ⟨chain, w, hw, h⟩ := bind_eq_ok.1 h
  have honv := State.Onward.of_ok (State.Onward.of_ok hs hu).stays hv
  have hlt : s.cursor.coming < v.cursor.past :=
    Nat.lt_of_lt_of_le (coming_lt_past hs hu) honv.past_le
  let I (w : State) (chain : List Access) : Prop :=
    w.cursor.Over text ∧ Row (Access.Laid text) s.cursor.coming w.cursor.past chain
  have hchain : I w chain := repeatWhile_invariant (I := I) (fun h => by cases h; rfl)
    (fun _ hI hbody => access_row hI.1 hI.2 hbody)
    ⟨honv.stays, .nil (Nat.le_of_lt hlt)⟩ hw
  have honw := State.Onward.of_ok honv.stays hw
  obtain ⟨location, x, hx, hlast⟩ := bind_eq_ok.1 h
  have honx := State.Onward.of_ok honw.stays hx
  obtain ⟨rfl, hcovers⟩ := covers_of_close hx hs.current
    (Nat.lt_of_lt_of_le hlt (Nat.le_trans honw.past_le honx.past_le))
  obtain ⟨end_, _, hend, hlast⟩ := bind_eq_ok.1 hlast
  cases hend
  obtain ⟨rfl, rfl⟩ := pure_ok hlast
  exact ⟨hcovers, hcovers, hchain.2⟩

/-! ### Sources -/

/-- A production whose patterns are well laid from the first to the last token that it takes. -/
def LaysPatterns (text : String) (pattern : Parser Pattern) : Prop :=
  ∀ {s t : State} {p : Pattern}, s.cursor.Over text → pattern s = .ok p t →
    p.Laid text s.cursor.coming t.cursor.past

theorem LaysPatterns.nested {pattern : Parser Pattern} (h : LaysPatterns text pattern)
    (n : Nesting) : LaysPatterns text (nested n pattern) := fun {s t p} hs hp => by
  obtain ⟨-, u, hu, rfl⟩ := nested_eq_ok.1 hp
  exact @h (s.within n) u p hs hu

section Within

variable {pattern : Parser Pattern} [Orderly pattern] [Eager pattern] {source : Source}

theorem accumulateBody_laid (hpattern : LaysPatterns text pattern) (hs : s.cursor.Over text)
    {token : Token} (htoken : token.StandsIn text) (hle : token.start ≤ s.cursor.coming)
    (h : accumulateBody pattern token s = .ok source t) :
    source.location?.isSome ∧ source.Laid text token.start t.cursor.past := by
  obtain ⟨input, u, hu, h⟩ := bind_eq_ok.1 h
  have hinput := hpattern.nested .source hs hu
  have hrest := State.Onward.of_ok (State.Onward.of_ok hs hu).stays h
  have hlt : token.start < t.cursor.past :=
    Nat.lt_of_le_of_lt hle (Nat.lt_of_lt_of_le (coming_lt_past hs hu) hrest.past_le)
  obtain ⟨_, _, -, h⟩ := bind_eq_ok.1 h
  obtain ⟨_, _, -, h⟩ := bind_eq_ok.1 h
  obtain ⟨initCode, _, -, h⟩ := bind_eq_ok.1 h
  obtain ⟨_, _, -, h⟩ := bind_eq_ok.1 h
  obtain ⟨_, _, -, h⟩ := bind_eq_ok.1 h
  obtain ⟨actionCode, _, -, h⟩ := bind_eq_ok.1 h
  obtain ⟨_, _, -, h⟩ := bind_eq_ok.1 h
  obtain ⟨_, _, -, h⟩ := bind_eq_ok.1 h
  obtain ⟨resultCode, _, -, h⟩ := bind_eq_ok.1 h
  obtain ⟨_, _, -, h⟩ := bind_eq_ok.1 h
  obtain ⟨-, location, rfl, hcovers⟩ := made_of_close h htoken hlt
  exact ⟨rfl, .accumulate hcovers hle hrest.past_le hinput initCode actionCode resultCode⟩

theorem collectBody_laid (hpattern : LaysPatterns text pattern) (hs : s.cursor.Over text)
    {token : Token} (htoken : token.StandsIn text) (hle : token.start ≤ s.cursor.coming)
    (h : collectBody pattern token s = .ok source t) :
    source.location?.isSome ∧ source.Laid text token.start t.cursor.past := by
  obtain ⟨input, u, hu, h⟩ := bind_eq_ok.1 h
  have hinput := hpattern.nested .source hs hu
  have hrest := State.Onward.of_ok (State.Onward.of_ok hs hu).stays h
  have hlt : token.start < t.cursor.past :=
    Nat.lt_of_le_of_lt hle (Nat.lt_of_lt_of_le (coming_lt_past hs hu) hrest.past_le)
  obtain ⟨_, _, -, h⟩ := bind_eq_ok.1 h
  obtain ⟨-, location, rfl, hcovers⟩ := made_of_close h htoken hlt
  exact ⟨rfl, .collect hcovers hle hrest.past_le hinput⟩

theorem accumulate_laid (hpattern : LaysPatterns text pattern) (hs : s.cursor.Over text)
    (h : accumulate pattern s = .ok source t) :
    source.location?.isSome ∧ source.Laid text s.cursor.coming t.cursor.past := by
  obtain ⟨token, u, hu, h⟩ := bind_eq_ok.1 h
  obtain ⟨_, v, hv, h⟩ := bind_eq_ok.1 h
  have honu := State.Onward.of_ok hs hu
  have honv := honu.trans (.of_ok honu.stays hv)
  have htoken := taken_of_keyword hs hu
  have hlaid := accumulateBody_laid hpattern honv.stays htoken.stands
    (htoken.start ▸ honv.coming_le) h
  exact htoken.start ▸ hlaid

theorem collect_laid (hpattern : LaysPatterns text pattern) (hs : s.cursor.Over text)
    (h : collect pattern s = .ok source t) :
    source.location?.isSome ∧ source.Laid text s.cursor.coming t.cursor.past := by
  obtain ⟨token, u, hu, h⟩ := bind_eq_ok.1 h
  obtain ⟨_, v, hv, h⟩ := bind_eq_ok.1 h
  have honu := State.Onward.of_ok hs hu
  have honv := honu.trans (.of_ok honu.stays hv)
  have htoken := taken_of_keyword hs hu
  have hlaid := collectBody_laid hpattern honv.stays htoken.stands
    (htoken.start ▸ honv.coming_le) h
  exact htoken.start ▸ hlaid

theorem retrievalSource_laid (hs : s.cursor.Over text)
    (h : (Source.retrieval <$> retrieval) s = .ok source t) :
    source.location?.isSome ∧ source.Laid text s.cursor.coming t.cursor.past := by
  obtain ⟨r, hr, rfl⟩ := map_eq_ok h
  exact ⟨rfl, .retrieval (retrieval_laid hs hr)⟩

theorem triedSource_laid {alternative : String} {tried : Parser Source} [Orderly tried]
    (htried : ∀ {s t : State} {source : Source}, s.cursor.Over text → tried s = .ok source t →
      source.location?.isSome ∧ source.Laid text s.cursor.coming t.cursor.past)
    (hs : s.cursor.Over text)
    (h : (do
      if ← trial alternative tried then tried
      else .retrieval <$> retrieval : Parser Source) s = .ok source t) :
    source.location?.isSome ∧ source.Laid text s.cursor.coming t.cursor.past := by
  obtain ⟨again, u, hu, h⟩ := bind_eq_ok.1 h
  have hcursor := (trial_ok hu).1
  rw [← hcursor] at hs ⊢
  cases again with
  | true => exact htried hs h
  | false => exact retrievalSource_laid hs h

theorem fromSource_laid (hpattern : LaysPatterns text pattern) (hs : s.cursor.Over text)
    (h : fromSource pattern s = .ok source t) :
    source.location?.isSome ∧ ∃ a, s.cursor.coming ≤ a ∧ source.Laid text a t.cursor.past := by
  obtain ⟨_, u, hu, h⟩ := bind_eq_ok.1 h
  have hon := State.Onward.of_ok hs hu
  have hlaid : source.location?.isSome ∧ source.Laid text u.cursor.coming t.cursor.past := by
    obtain ⟨isAccumulate, _, hlook, h⟩ := bind_eq_ok.1 h
    cases hlook
    split at h
    · exact triedSource_laid (accumulate_laid hpattern) hon.stays h
    · obtain ⟨isCollect, _, hlook, h⟩ := bind_eq_ok.1 h
      cases hlook
      split at h
      · exact triedSource_laid (collect_laid hpattern) hon.stays h
      · exact retrievalSource_laid hon.stays h
  exact ⟨hlaid.1, _, hon.coming_le, hlaid.2⟩

end Within

theorem attachSource_laid {a b c d : Nat} {p : Pattern} (hp : p.Laid text a b) (hbc : b ≤ c)
    {source : Source} (hwritten : source.location?.isSome) (hsource : source.Laid text c d) :
    (attachSource p source).Laid text a d := by
  obtain ⟨l, hl⟩ := Option.isSome_iff_exists.1 hwritten
  have hcovers := hsource.location hl
  have hlt := hcovers.lt
  have hbd : b ≤ d := by omega
  cases hp with
  | mk location constraints leftParen rightParen hc hd =>
    have hab := location.lt
    refine .mk (c := c) (d := d) ⟨location.start, ?_, by omega, location.line, location.column⟩
      (ConstraintsWithin.weaken constraints (Nat.le_refl a) hbd) leftParen (fun r hr => ?_)
      (by omega) (Nat.le_refl d) hsource
    · show laterStop p.location.stop (source.location?.bind (·.stop)) = some d
      rw [location.stop, hl, Option.bind_some, hcovers.stop]
      exact congrArg some (Nat.max_eq_right hbd)
    · obtain ⟨hleft, hright⟩ := rightParen r hr
      exact ⟨hleft, by omega⟩

theorem patternWithin_laid (levels : Nat) : LaysPatterns text (patternWithin levels) := by
  induction levels with
  | zero => intro s t p _ h; cases h
  | succ levels ih =>
    intro s t p hs h
    obtain ⟨fact, u, hu, h⟩ := bind_eq_ok.1 h
    have hon := State.Onward.of_ok hs hu
    have hfact := factPattern_laid hs hu
    obtain ⟨more, _, hmore, h⟩ := bind_eq_ok.1 h
    cases hmore
    split at h
    · obtain ⟨source, v, hv, h⟩ := bind_eq_ok.1 h
      obtain ⟨rfl, rfl⟩ := pure_ok h
      obtain ⟨hwritten, a, ha, hsource⟩ := fromSource_laid ih hon.stays hv
      exact attachSource_laid hfact (Nat.le_trans hon.past_le_coming ha) hwritten hsource
    · obtain ⟨rfl, rfl⟩ := pure_ok h
      exact hfact

theorem sourcedPattern_laid : LaysPatterns text sourcedPattern :=
  fun {s _ _} hs h => patternWithin_laid (s.stack.frames + 1) hs h

end Rulebook.Parser

/-!
## Conditions and blocks are well laid

A single condition lies between the place where it begins and the last token that was taken, which
may be a semicolon behind it or a parenthesis around it. Conditions that are read one after the
other stand in a row, and a group covers its row.
-/

namespace Rulebook.Parser

set_option synthInstance.maxSize 100000

variable {text : String} {s t : State} {c : Condition}

/-! ### Groups -/

theorem join_laid {lo hi : Nat} (kind : Grouping) {first : Condition} {others : List Condition}
    (h : Row (Condition.Laid text) lo hi (first :: others)) :
    Between (Condition.Laid text) lo hi (join kind first others) := by
  unfold join
  split
  · obtain ⟨a, b, ha, -, hb, hfirst⟩ := h.mem List.mem_cons_self
    exact ⟨a, b, ha, hb, hfirst⟩
  · next last hlast =>
    refine h.group rfl ?_ kind
    rw [List.getLast?_cons, hlast]
    rfl

/-- A production whose conditions lie between the first and the last token that it takes. -/
def LaysConditions (text : String) (single : Parser Condition) : Prop :=
  ∀ {s t : State} {c : Condition}, s.cursor.Over text → single s = .ok c t →
    Between (Condition.Laid text) s.cursor.coming t.cursor.past c

theorem LaysConditions.nested {p : Parser Condition} (h : LaysConditions text p) (n : Nesting) :
    LaysConditions text (nested n p) := fun {s t c} hs hp => by
  obtain ⟨-, u, hu, rfl⟩ := nested_eq_ok.1 hp
  exact @h (s.within n) u c hs hu

def SpansConditions (text : String) (p : Parser Condition) : Prop :=
  ∀ ⦃s t : State⦄ ⦃c : Condition⦄, s.cursor.Over text → p s = .ok c t →
    c.Laid text s.cursor.coming t.cursor.past

theorem SpansConditions.lays {p : Parser Condition} (h : SpansConditions text p) :
    LaysConditions text p :=
  fun hs hp => ⟨_, _, Nat.le_refl _, Nat.le_refl _, h hs hp⟩

theorem infixGroup_laid {operand : Parser Condition} [Orderly operand]
    (hoperand : LaysConditions text operand) (kind : Grouping) (connectives : List TokenKind) :
    LaysConditions text (infixGroup kind connectives operand) := by
  intro s t c hs h
  obtain ⟨first, u, hu, h⟩ := bind_eq_ok.1 h
  obtain ⟨others, v, hv, h⟩ := bind_eq_ok.1 h
  obtain ⟨rfl, rfl⟩ := pure_ok h
  have hon := State.Onward.of_ok hs hu
  let I (v : State) (others : List Condition) : Prop :=
    v.cursor.Over text ∧
      Row (Condition.Laid text) s.cursor.coming v.cursor.past (first :: others)
  have hrow : I t others := by
    refine repeatWhile_invariant (I := I) (fun h => by cases h; rfl) ?_ ⟨hon.stays, ?_⟩ hv
    · rintro others others' v w - ⟨hover, hrow⟩ hbody
      obtain ⟨_, x, hx, hbody⟩ := bind_eq_ok.1 hbody
      obtain ⟨c, y, hy, hbody⟩ := bind_eq_ok.1 hbody
      obtain ⟨rfl, rfl⟩ := pure_ok hbody
      have honx := State.Onward.of_ok hover hx
      exact ⟨(State.Onward.of_ok honx.stays hy).stays,
        hrow.add (Nat.le_trans honx.past_le honx.past_le_coming) (hoperand honx.stays hy)⟩
    · obtain ⟨a, b, ha, hb, hfirst⟩ := hoperand hs hu
      exact .cons ha hfirst.location.lt hfirst (.nil hb)
  exact join_laid kind hrow.2

section Single

variable {single : Parser Condition} [Orderly single]

theorem disjunction_laid (hsingle : LaysConditions text single) :
    LaysConditions text (disjunction single) :=
  infixGroup_laid (infixGroup_laid hsingle .and andKinds) .or orKinds

theorem prefixGroup_laid (hsingle : LaysConditions text single) (hs : s.cursor.Over text)
    (hk : s.cursor.current.kind ≠ .endOfInput) (h : prefixGroup single s = .ok c t) :
    Between (Condition.Laid text) s.cursor.coming t.cursor.past c := by
  obtain ⟨connective, u, hu, h⟩ := bind_eq_ok.1 h
  obtain ⟨operands, v, hv, h⟩ := bind_eq_ok.1 h
  have hon := State.Onward.of_ok hs hu
  have htaken := taken_of_advance hs hk hu
  let I (v : State) (operands : List Condition) : Prop :=
    v.cursor.Over text ∧ Row (Condition.Laid text) s.cursor.coming v.cursor.past operands
  have hrow : I v operands := by
    refine repeatWhile_invariant (I := I) (fun h => by cases h; rfl) ?_
      ⟨hon.stays, .nil (htaken.start ▸ Nat.le_of_lt htaken.lt_past)⟩ hv
    rintro operands operands' v w - ⟨hover, hrow⟩ hbody
    obtain ⟨c, x, hx, hbody⟩ := bind_eq_ok.1 hbody
    obtain ⟨rfl, rfl⟩ := pure_ok hbody
    exact ⟨(State.Onward.of_ok hover hx).stays,
      hrow.add hover.past_le_coming (hsingle hover hx)⟩
  cases operands with
  | nil =>
    obtain ⟨token, w, -, h⟩ := bind_eq_ok.1 h
    cases h
  | cons first others =>
    obtain ⟨_, w, hw, h⟩ := bind_eq_ok.1 h
    obtain ⟨rfl, rfl⟩ := pure_ok h
    exact join_laid _ (hrow.2.upper (State.Onward.of_ok hrow.1 hw).past_le)

theorem parenthesised_laid (hsingle : LaysConditions text single) :
    LaysConditions text (parenthesised single) := by
  intro s t c hs h
  obtain ⟨_, u, hu, h⟩ := bind_eq_ok.1 h
  have hon := State.Onward.of_ok hs hu
  obtain ⟨isPrefix, _, hprefix, h⟩ := bind_eq_ok.1 h
  cases hprefix
  split at h
  · next hmore =>
    have hk : u.cursor.current.kind ≠ .endOfInput := fun hk => by simp [hk] at hmore
    exact (prefixGroup_laid (hsingle.nested .prefixed) hon.stays hk h).weaken hon.coming_le
      (Nat.le_refl _)
  · obtain ⟨c, v, hv, h⟩ := bind_eq_ok.1 h
    obtain ⟨_, w, hw, h⟩ := bind_eq_ok.1 h
    obtain ⟨rfl, rfl⟩ := pure_ok h
    have honv := State.Onward.of_ok hon.stays hv
    exact (disjunction_laid (hsingle.nested .group) hon.stays hv).weaken hon.coming_le
      (State.Onward.of_ok honv.stays hw).past_le

theorem patternCondition_spans : SpansConditions text (Condition.pattern <$> sourcedPattern) := by
  intro s t c hs h
  obtain ⟨p, hp, rfl⟩ := map_eq_ok h
  exact .pattern (sourcedPattern_laid hs hp)

theorem operand_laid (hsingle : LaysConditions text single) :
    LaysConditions text (operand single) := by
  intro s t c hs h
  obtain ⟨isOpen, _, hopen, h⟩ := bind_eq_ok.1 h
  cases hopen
  split at h
  · exact parenthesised_laid hsingle hs h
  · exact patternCondition_spans.lays hs h

theorem unaryGroup_spans (hsingle : LaysConditions text single) (k : Keyword) (kind : Grouping) :
    SpansConditions text (unaryGroup k kind single) := by
  intro s t c hs h
  have hlt := coming_lt_past hs h
  obtain ⟨token, u, hu, h⟩ := bind_eq_ok.1 h
  obtain ⟨inner, v, hv, h⟩ := bind_eq_ok.1 h
  have hon := State.Onward.of_ok hs hu
  have htaken := taken_of_keyword hs hu
  obtain ⟨rfl, location, rfl, hcovers⟩ := made_of_close h htaken.stands (htaken.start ▸ hlt)
  rw [htaken.start] at hcovers
  obtain ⟨a, b, ha, hb, hinner⟩ :=
    LaysConditions.nested (operand_laid hsingle) .operand hon.stays hv
  exact .group kind hcovers
    (.cons (Nat.le_trans hon.coming_le ha) hinner.location.lt hinner (.nil hb))

theorem evalCondition_spans : SpansConditions text evalCondition := by
  intro s t c hs h
  have hlt := coming_lt_past hs h
  obtain ⟨token, u, hu, h⟩ := bind_eq_ok.1 h
  have htaken := taken_of_keyword hs hu
  obtain ⟨code, v, -, h⟩ := bind_eq_ok.1 h
  obtain ⟨_, w, -, h⟩ := bind_eq_ok.1 h
  obtain ⟨-, location, rfl, hcovers⟩ := made_of_close h htaken.stands (htaken.start ▸ hlt)
  rw [htaken.start] at hcovers
  exact .eval hcovers code

theorem forallCondition_spans : SpansConditions text forallCondition := by
  intro s t c hs h
  have hlt := coming_lt_past hs h
  obtain ⟨token, u, hu, h⟩ := bind_eq_ok.1 h
  have htaken := taken_of_keyword hs hu
  obtain ⟨_, v, hv, h⟩ := bind_eq_ok.1 h
  obtain ⟨base, w, hw, h⟩ := bind_eq_ok.1 h
  obtain ⟨patterns, x, hx, h⟩ := bind_eq_ok.1 h
  have honu := State.Onward.of_ok hs hu
  have honv := honu.trans (.of_ok honu.stays hv)
  have honw := State.Onward.of_ok honv.stays hw
  let I (x : State) (patterns : List Pattern) : Prop :=
    x.cursor.Over text ∧ Row (Pattern.Laid text) s.cursor.coming x.cursor.past patterns
  have hrow : I x patterns := by
    refine repeatWhile_invariant (I := I) (fun h => by cases h; rfl) ?_ ⟨honw.stays, ?_⟩ hx
    · rintro patterns patterns' x y - ⟨hover, hrow⟩ hbody
      obtain ⟨_, z, hz, hbody⟩ := bind_eq_ok.1 hbody
      obtain ⟨p, o, ho, hbody⟩ := bind_eq_ok.1 hbody
      obtain ⟨rfl, rfl⟩ := pure_ok hbody
      have honz := State.Onward.of_ok hover hz
      have hp := factPattern_laid honz.stays ho
      exact ⟨(State.Onward.of_ok honz.stays ho).stays,
        hrow.snoc (Nat.le_trans honz.past_le honz.past_le_coming) hp.location.lt hp⟩
    · have hbase := factPattern_laid honv.stays hw
      exact .cons honv.coming_le hbase.location.lt hbase (.nil (Nat.le_refl _))
  split at h
  · obtain ⟨token, y, -, h⟩ := bind_eq_ok.1 h
    cases h
  · obtain ⟨_, y, hy, h⟩ := bind_eq_ok.1 h
    have hony := State.Onward.of_ok hrow.1 hy
    obtain ⟨rfl, location, rfl, hcovers⟩ := made_of_close h htaken.stands (htaken.start ▸ hlt)
    rw [htaken.start] at hcovers
    exact .group .forall_ hcovers ((hrow.2.upper hony.past_le).map .pattern)

theorem terminated_laid {p : Parser Condition} [Orderly p] (hs : s.cursor.Over text)
    (hp : ∀ {c u}, p s = .ok c u → Between (Condition.Laid text) s.cursor.coming u.cursor.past c)
    (h : (do
      let condition ← p
      skip .semicolon
      return condition : Parser Condition) s = .ok c t) :
    Between (Condition.Laid text) s.cursor.coming t.cursor.past c := by
  obtain ⟨c', u, hu, h⟩ := bind_eq_ok.1 h
  obtain ⟨_, v, hv, h⟩ := bind_eq_ok.1 h
  obtain ⟨rfl, rfl⟩ := pure_ok h
  have hon := State.Onward.of_ok hs hu
  exact (hp hu).weaken (Nat.le_refl _) (State.Onward.of_ok hon.stays hv).past_le

theorem singleCondition_laid (hsingle : LaysConditions text single) :
    LaysConditions text (singleCondition single) := by
  intro s t c hs h
  obtain ⟨token, _, htoken, h⟩ := bind_eq_ok.1 h
  cases htoken
  split at h
  · exact terminated_laid hs ((unaryGroup_spans hsingle .exists_ .exists_).lays hs) h
  · split at h
    · exact terminated_laid hs ((unaryGroup_spans hsingle .not .not).lays hs) h
    · split at h
      · exact terminated_laid hs (evalCondition_spans.lays hs) h
      · split at h
        · exact terminated_laid hs (forallCondition_spans.lays hs) h
        · split at h
          · exact terminated_laid hs (parenthesised_laid hsingle hs) h
          · split at h
            · exact terminated_laid hs (patternCondition_spans.lays hs) h
            · cases h

end Single

theorem conditionWithin_laid (levels : Nat) : LaysConditions text (conditionWithin levels) := by
  induction levels with
  | zero => intro s t c _ h; cases h
  | succ levels ih => exact singleCondition_laid ih

theorem condition_laid : LaysConditions text condition :=
  fun {s _ _} hs h => conditionWithin_laid (s.stack.frames + 1) hs h

theorem conditions_laid : LaysConditions text conditions :=
  disjunction_laid condition_laid

/-! ### Blocks -/

theorem blockElement_row {lo : Nat} (hs : s.cursor.Over text) {elements elements' : List Condition}
    (h : Row (Condition.Laid text) lo s.cursor.past elements)
    (hok : blockElement elements s = .ok elements' t) :
    t.cursor.Over text ∧ Row (Condition.Laid text) lo t.cursor.past elements' := by
  have hon := State.Onward.of_ok hs hok
  refine ⟨hon.stays, ?_⟩
  obtain ⟨r, u, hu, hok⟩ := bind_eq_ok.1 hok
  rcases attempt_ok hu with ⟨c, rfl, hc⟩ | ⟨e, rfl, -⟩
  · obtain ⟨rfl, rfl⟩ := pure_ok hok
    exact h.add hs.past_le_coming (conditions_laid hs hc)
  · obtain ⟨_, v, -, hok⟩ := bind_eq_ok.1 hok
    obtain ⟨rfl, rfl⟩ := pure_ok hok
    exact h.upper hon.past_le

theorem block_laid (hs : s.cursor.Over text) {anchor : Token}
    (hanchor : anchor.stop ≤ s.cursor.past) {b : Block} (h : block (some anchor) s = .ok b t) :
    b.Laid text anchor.stop t.cursor.past := by
  obtain ⟨elements, u, hu, h⟩ := bind_eq_ok.1 h
  obtain ⟨rfl, rfl⟩ := pure_ok h
  let I (u : State) (elements : List Condition) : Prop :=
    u.cursor.Over text ∧ Row (Condition.Laid text) anchor.stop u.cursor.past elements
  have hrow : I t elements := repeatWhile_invariant (I := I) (fun h => by cases h; rfl)
    (fun _ hI hbody => blockElement_row hI.1 hI.2 hbody) ⟨hs, .nil hanchor⟩ hu
  cases elements with
  | nil => exact .empty rfl rfl (Nat.le_refl _) hrow.2.le
  | cons first others =>
    obtain ⟨last, hlast⟩ : ∃ last, (first :: others).getLast? = some last :=
      ⟨_, List.getLast?_eq_some_getLast (List.cons_ne_nil first others)⟩
    refine .elements (List.cons_ne_nil first others) ?_
    have hgroup := hrow.2.group rfl hlast .and
    unfold Block.condition blockLocation
    simp only [List.head?_cons, hlast]
    exact hgroup

end Rulebook.Parser
