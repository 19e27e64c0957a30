import Rulebook.Proofs.Sameness
import Rulebook.Proofs.Splices

/-!
# Statements after other statements

Where a text without errors is followed by the statements of another text, these are read as they
would be alone. They stand further down, rules begin with the attributes of the package before them,
and functions have its dialect.
-/

namespace Rulebook

variable {frames : Nat}

open Rulebook.Parser

/-! ### Attributes further down -/

def Location.moved (n k : Nat) (l : Location) : Location :=
  { l with start := l.start.map (· + n), stop := l.stop.map (· + n), line := l.line.map (· + k) }

def Attribute.moved (n k : Nat) (a : Attribute) : Attribute :=
  { a with location := a.location.moved n k }

namespace Attributes

def override (as bs : Attributes) : Attributes := bs.foldl put as

def Distinct (as : Attributes) : Prop := (as.map (·.name)).Nodup

theorem mem_names_put {as : Attributes} {a : Attribute} {name : String} :
    name ∈ (as.put a).map (·.name) ↔ name ∈ as.map (·.name) ∨ name = a.name := by
  induction as with
  | nil => simp [put]
  | cons b as ih =>
    unfold put
    split
    · next h =>
      rw [List.map_cons, List.map_cons, List.mem_cons, List.mem_cons, h]
      exact ⟨fun hm => hm.elim .inr fun hm => .inl (.inr hm),
        fun hm => hm.elim id .inl⟩
    · rw [List.map_cons, List.map_cons, List.mem_cons, List.mem_cons, ih, or_assoc]

theorem Distinct.put {as : Attributes} (h : as.Distinct) (a : Attribute) : (as.put a).Distinct := by
  unfold Distinct at h ⊢
  induction as with
  | nil => simp [Attributes.put]
  | cons b as ih =>
    rw [List.map_cons, List.nodup_cons] at h
    unfold Attributes.put
    split
    · next hname =>
      rw [List.map_cons, List.nodup_cons, ← hname]
      exact h
    · next hname =>
      rw [List.map_cons, List.nodup_cons, mem_names_put]
      exact ⟨fun hm => hm.elim h.1 hname, ih h.2⟩

theorem put_put_of_eq (as : Attributes) {a b : Attribute} (h : a.name = b.name) :
    (as.put a).put b = as.put b := by
  induction as with
  | nil => simp only [put, h, if_true]
  | cons c as ih =>
    by_cases hc : c.name = a.name
    · simp only [put, hc, h, if_true]
    · have hc' : c.name ≠ b.name := fun heq => hc (heq.trans h.symm)
      simp only [put, hc, hc', if_false, ih]

theorem put_comm {as : Attributes} {a b : Attribute} (h : a.name ≠ b.name)
    (hmem : a.name ∈ as.map (·.name)) : (as.put a).put b = (as.put b).put a := by
  induction as with
  | nil => cases hmem
  | cons c as ih =>
    by_cases ha : c.name = a.name
    · simp only [put, ha, h, if_true, if_false]
    · have hmem' : a.name ∈ as.map (·.name) := by
        rw [List.map_cons, List.mem_cons] at hmem
        exact hmem.resolve_left fun heq => ha heq.symm
      by_cases hb : c.name = b.name
      · simp only [put, hb, if_true, if_false, Ne.symm h]
      · simp only [put, ha, hb, if_false, ih hmem']

theorem put_override {as bs : Attributes} {a : Attribute} (h : a.name ∈ as.map (·.name))
    (hbs : a.name ∉ bs.map (·.name)) : (as.override bs).put a = (as.put a).override bs := by
  unfold override
  induction bs generalizing as with
  | nil => rfl
  | cons b bs ih =>
    rw [List.map_cons, List.mem_cons, not_or] at hbs
    rw [List.foldl_cons, List.foldl_cons, ih (mem_names_put.2 (.inl h)) hbs.2,
      put_comm hbs.1 h]

theorem override_put (as : Attributes) {bs : Attributes} (hbs : bs.Distinct) (a : Attribute) :
    as.override (bs.put a) = (as.override bs).put a := by
  induction bs generalizing as with
  | nil => rfl
  | cons b bs ih =>
    unfold Distinct at hbs
    rw [List.map_cons, List.nodup_cons] at hbs
    by_cases hb : b.name = a.name
    · have hput : Attributes.put (b :: bs) a = a :: bs := by simp only [Attributes.put, hb, if_true]
      rw [hput]
      show (as.put a).override bs = ((as.put b).override bs).put a
      rw [put_override (mem_names_put.2 (.inr hb.symm)) (hb ▸ hbs.1), put_put_of_eq _ hb]
    · have hput : Attributes.put (b :: bs) a = b :: Attributes.put bs a := by
        simp only [Attributes.put, hb, if_false]
      rw [hput]
      exact ih (as.put b) hbs.2

theorem map_moved_put (n k : Nat) (bs : Attributes) (b : Attribute) :
    (bs.put b).map (Attribute.moved n k) =
      Attributes.put (bs.map (Attribute.moved n k)) (b.moved n k) := by
  induction bs with
  | nil => rfl
  | cons c bs ih =>
    by_cases hc : c.name = b.name
    · have hc' : (c.moved n k).name = (b.moved n k).name := hc
      simp only [put, List.map_cons, hc, hc', if_true]
    · have hc' : (c.moved n k).name ≠ (b.moved n k).name := hc
      simp only [put, List.map_cons, hc, hc', if_false, ih]

theorem names_moved (n k : Nat) (bs : Attributes) :
    (bs.map (Attribute.moved n k)).map (·.name) = bs.map (·.name) := by
  rw [List.map_map]
  rfl

end Attributes

/-! ### A tree behind another one -/

/-- The first tree stands behind the declarations `before` and behind the text `text`. Its rules
have the attributes of `before`, overridden by their own; its functions have the dialect of
`before`. -/
def sequel (before : Package) (text : String) : Likeness where
  offset m n := m = n + text.length
  line m n := m = n + lineFeeds text
  column m n := m = n
  code c d := c = d
  attributes as bs := bs.Distinct ∧
    as = before.attributes.override (bs.map (Attribute.moved text.length (lineFeeds text)))
  defaults as bs := as = before.attributes ∧ bs = []
  dialect d e := d = dialectOf before.attributes ∧ e = none
  name m n := m = before.name ∧ n = ""
  before := before
  keep _ := true

theorem eq_map_of_rel {n : Nat} {a b : Option Nat} (h : Option.Rel (fun x y => x = y + n) a b) :
    a = b.map (· + n) := by
  cases h with
  | none => rfl
  | some h => rw [h]; rfl

theorem eq_moved_of_like {before : Package} {text : String} {a b : Attribute}
    (h : a.Like (sequel before text) b) : a = b.moved text.length (lineFeeds text) := by
  obtain ⟨⟨start, stop, line, column⟩, name, value⟩ := a
  obtain ⟨⟨start', stop', line', column'⟩, name', value'⟩ := b
  obtain rfl := eq_map_of_rel h.location.start
  obtain rfl := eq_map_of_rel h.location.stop
  obtain rfl := eq_map_of_rel h.location.line
  obtain rfl : column = column' := eq_of_rel id h.location.column
  obtain rfl : name = name' := h.name
  obtain rfl : value = value' := h.value
  rfl

theorem shifts_sequel (before : Package) (text : String) :
    (sequel before text).Shifts text.length (lineFeeds text) where
  offset := .rfl
  line := .rfl
  column := .rfl
  code := .rfl
  attributes_put {as bs a b} h hab := by
    obtain ⟨hbs, rfl⟩ := h
    refine ⟨hbs.put b, ?_⟩
    rw [Attributes.map_moved_put, Attributes.override_put, eq_moved_of_like hab]
    unfold Attributes.Distinct at hbs ⊢
    rwa [Attributes.names_moved]
  attributes_of_defaults h := by
    obtain ⟨rfl, rfl⟩ := h
    exact ⟨List.nodup_nil, rfl⟩
  dialect h := by
    obtain ⟨rfl, rfl⟩ := h
    exact ⟨rfl, rfl⟩

theorem shifts_same : Likeness.same.Shifts 0 0 where
  offset := .rfl
  line := .rfl
  column := .rfl
  code := .rfl
  attributes_put {as bs a b} h hab := by
    obtain rfl : as = bs := h
    obtain rfl := hab.eq
    rfl
  attributes_of_defaults h := h
  dialect h := congrArg dialectOf h

/-! ### Two texts with a line feed between them -/

/-- The tokens of two texts and of both together, where the first one ends with a statement and the
second one begins with one. -/
structure Juncture (hashComments : Bool) (a b : String) where
  base : List Token
  blanks : List Token
  between : List Token
  before : List Token
  shared : List Token
  first_eq : tokens hashComments a = base ++ blanks
  joined_eq : tokens hashComments (a ++ "\n" ++ b) =
    base ++ (between ++ shared.map (Token.moved (a ++ "\n").length (lineFeeds (a ++ "\n"))))
  second_eq : tokens hashComments b = before ++ shared
  visible_blanks : visible blanks = []
  visible_between : visible between = []
  visible_before : visible before = []
  closer : ∀ t, (visible (tokens hashComments a)).getLast? = some t → t.kind ∈ closerKinds
  fence : ∃ t ts, visible shared = t :: ts ∧ t.kind ∈ fenceKinds

variable {hashComments : Bool} {a b : String}

theorem exists_juncture
    (hcloser : ∃ t, (visible (tokens hashComments a)).getLast? = some t ∧ t.kind ∈ closerKinds)
    (hcomment : ¬EndsInOpenComment hashComments a)
    (hfence : ∃ t, (visible (tokens hashComments b)).head? = some t ∧ t.kind ∈ fenceKinds) :
    Nonempty (Juncture hashComments a b) := by
  obtain ⟨c, hc, hk⟩ := hcloser
  obtain ⟨f, hf, hfk⟩ := hfence
  have hstring : ∀ t, (tokens hashComments a).getLast? = some t → t.kind ≠ .literal .string := by
    intro t ht hstring
    obtain ⟨ts, hts⟩ := List.getLast?_eq_some_iff.1 ht
    have hvisible : visible (tokens hashComments a) = visible ts ++ [t] := by
      rw [hts, visible_append, visible_cons_of_not_trivia (t := t)]
      · rfl
      · unfold Token.isTrivia
        rw [hstring]
        rfl
    rw [hvisible, List.getLast?_concat] at hc
    cases hc
    rw [hstring] at hk
    exact absurd hk (by decide)
  obtain ⟨base, blanks, between, before, shared, hfirst, hjoined, hsecond, hblanks, hbetween,
    hbefore⟩ := tokens_joined b hstring hcomment
  refine ⟨⟨base, blanks, between, before, shared, hfirst, hjoined, hsecond, hblanks, hbetween,
    hbefore, fun t ht => ?_, ?_⟩⟩
  · rw [hc] at ht
    cases ht
    exact hk
  · rw [hsecond, visible_append, hbefore, List.nil_append] at hf
    obtain ⟨ts, hts⟩ := List.head?_eq_some_iff.1 hf
    exact ⟨f, ts, hts, hfk⟩

namespace Juncture

variable (J : Juncture hashComments a b)

/-- Both texts beside the first one. -/
def leading : Splice where
  likeness := .same
  n := 0
  first := .ofTokens (scan (a ++ "\n" ++ b) hashComments) (a ++ "\n" ++ b)
  second := .ofTokens (scan a hashComments) a
  cut := True
  borders := fenceKinds
  behind := J.between ++ J.shared.map (Token.moved (a ++ "\n").length (lineFeeds (a ++ "\n")))
  blanks := J.blanks
  copies := shifts_same.copies
  first_hidden := hidden_scan _
  second_hidden := hidden_scan _
  first_faithful := faithful_scan _
  second_faithful := faithful_scan a
  visible_blanks := J.visible_blanks
  whole h := absurd trivial h
  border _ := by
    obtain ⟨t, ts, hts, hk⟩ := J.fence
    exact ⟨t.moved (a ++ "\n").length (lineFeeds (a ++ "\n")), ts.map (Token.moved _ _), by
      rw [visible_append, J.visible_between, visible_map_moved, hts, List.nil_append,
        List.map_cons],
      hk⟩
  borders_subset := List.subset_append_left _ _

instance : J.leading.readings.BetweenStatements where
  fence := List.Subset.refl _
  closer _ t ht := by
    rw [show J.leading.readings.second = _ from ofTokens_eq a] at ht
    exact J.closer t ht

/-- Both texts beside the second one. -/
def trailing (_ : Juncture hashComments a b) (p : Package) : Splice where
  likeness := sequel p (a ++ "\n")
  n := (a ++ "\n").length
  first := .ofTokens (scan (a ++ "\n" ++ b) hashComments) (a ++ "\n" ++ b)
  second := .ofTokens (scan b hashComments) b
  cut := False
  borders := []
  behind := []
  blanks := []
  copies := (shifts_sequel p (a ++ "\n")).copies
  first_hidden := hidden_scan _
  second_hidden := hidden_scan _
  first_faithful := faithful_scan _
  second_faithful := faithful_scan b
  visible_blanks := visible_nil
  whole _ := by
    refine ⟨rfl, rfl, ?_⟩
    rw [ofTokens_eq, ofTokens_eq]
    show (Token.endOfInput _).Like _ (Token.endOfInput _)
    rw [finish_joined]
    exact (shifts_sequel p (a ++ "\n")).like_moved (Token.endOfInput (finish b))
  border h := h.elim
  borders_subset := List.nil_subset _

instance (p : Package) : (J.trailing p).readings.BetweenStatements where
  fence := List.nil_subset _
  closer h := h.elim

variable {settings : Settings} {a b : String} (J : Juncture settings.hashComments a b)

theorem abreast_leading (hmax : settings.maxErrors = none) (sourceName : String) :
    J.leading.readings.Abreast (.ofText frames settings sourceName (a ++ "\n" ++ b))
      (.ofText frames settings sourceName a) := by
  have hcopied := shifts_same.forall₂_like J.base
  rw [show J.base.map (Token.moved 0 0) = J.base from List.map_id J.base] at hcopied
  exact abreast_ofText frames hmax sourceName rfl rfl
    ⟨J.base, J.base, hcopied, J.joined_eq, J.first_eq⟩ (.empty rfl rfl rfl)

/-- A state of the combined text in which the first text is read, with nothing reported; the package
has the declarations of `p`. -/
structure Past (frames : Nat) (sourceName : String) (p : Package) (u : State) : Prop where
  cursor :
      u.cursor =
      (Cursor.ofTokens (scan (a ++ "\n" ++ b) settings.hashComments) (a ++ "\n" ++ b)).rewind
    u.cursor.index
  index_le : u.cursor.index ≤ u.cursor.front.size
  rest : ∃ x, visible x = [] ∧ u.cursor.rest =
    x ++ (J.between ++ J.shared.map (Token.moved (a ++ "\n").length (lineFeeds (a ++ "\n"))))
  previous : ∀ t ∈ u.cursor.previous, t.stop ≤ (a ++ "\n").length
  trials : u.trials = 0
  stack : u.stack = .ofFrames frames
  ruleName : u.ruleName = none
  package : u.package = { p with location := u.package.location }
  stale : ∀ k ∈ u.lastRecovery, k < u.cursor.index
  source : u.collector.sourceName = sourceName
  uncapped : u.collector.maxErrors = none
  recovering : u.collector.recovering = false
  errors : u.collector.errors = []

theorem Past.abreast {J : Juncture settings.hashComments a b} {sourceName : String} {p : Package}
    {u : State} (h : J.Past frames sourceName p u) (hmax : settings.maxErrors = none) :
    (J.trailing p).readings.Abreast u (.ofText frames settings sourceName b) where
  first := h.cursor
  second := rfl
  first_le := by
    have hle := h.index_le
    rw [h.cursor] at hle
    rw [h.cursor]
    exact hle
  second_le := by rw [index_ofText]; exact Nat.zero_le _
  left := by
    obtain ⟨x, hx, hrest⟩ := h.rest
    rw [rest_ofText, hrest, J.second_eq]
    refine ⟨x ++ J.between, J.before, _, J.shared, ?_, J.visible_before, ?_, rfl, _, J.shared,
      (shifts_sequel p (a ++ "\n")).forall₂_like J.shared, (List.append_nil _).symm,
      (List.append_nil _).symm⟩
    · rw [visible_append, hx, J.visible_between]
      rfl
    · exact (List.append_assoc ..).symm
  after h := by
    rw [previous_ofText] at h
    cases h
  previous := .inr ⟨previous_ofText .., h.previous⟩
  trials := h.trials
  stack := h.stack
  ruleName := h.ruleName
  package := by
    rw [h.package]
    exact ⟨⟨rfl, rfl⟩, .refl_nil _ _, .refl_nil _ _, .refl_nil _ _, .refl_nil _ _, .refl_nil _ _,
      .refl_nil _ _, ⟨rfl, rfl⟩⟩
  recovered := by
    refine ⟨⟨fun hhere => absurd (h.stale _ hhere) (Nat.lt_irrefl _), fun hhere => by cases hhere⟩,
      fun k hk => Nat.le_of_lt (h.stale k hk), fun _ hk => by cases hk⟩
  reported := by
    refine ⟨h.source, h.uncapped, hmax, h.recovering, ?_⟩
    rw [h.errors]
    exact .nil
  clean h := h.elim

theorem past_of_abreast {sourceName : String} {p : Package} {u w : State}
    (huw : J.leading.readings.Abreast u w) (hw : Idle w) (hend : w.AtEnd)
    (hp : w.package = { p with location := w.package.location })
    (hstack : w.stack = .ofFrames frames) (hsource : w.collector.sourceName = sourceName) :
    J.Past frames sourceName p u where
  cursor := huw.first
  index_le := huw.first_front ▸ huw.first_le
  rest := by
    obtain ⟨x, y, r, q, hx, hy, hr, hq, v, z, hvz, rfl, rfl⟩ := huw.left
    have hz : visible z = [] := by
      have hahead : visible w.cursor.rest = [] := hend
      rw [hq, visible_append, visible_append] at hahead
      exact (List.append_eq_nil_iff.1 (List.append_eq_nil_iff.1 hahead).2).1
    have hv : visible v = [] := by
      have hlike := visible_like hvz
      rw [hz] at hlike
      exact List.forall₂_nil_right_iff.1 hlike
    refine ⟨x ++ v, ?_, ?_⟩
    · rw [visible_append, hx, hv]
      rfl
    · rw [hr, List.append_assoc]
      rfl
  previous t ht := by
    rcases huw.previous with hrel | ⟨-, hearly⟩
    · rw [show u.cursor.previous = some t from ht] at hrel
      generalize hprevious : w.cursor.previous = q at hrel
      cases hrel with
      | @some _ q htq =>
        have hmem := Cursor.previous_mem (huw.second_front ▸ huw.second_le) hprevious
        rw [huw.second_front, show J.leading.readings.second = _ from ofTokens_eq a] at hmem
        have hstop : t.stop = q.stop := htq.stop
        have hle := stop_le_of_mem_tokens hmem
        rw [hstop, String.length_append]
        exact Nat.le_trans hle (Nat.le_add_right ..)
    · exact Nat.le_trans (hearly t ht) (Nat.zero_le _)
  trials := huw.trials.trans hw.trials
  stack := huw.stack.trans hstack
  ruleName := huw.ruleName.trans hw.ruleName
  package := by rw [Package.Like.eq huw.package, hp]
  stale k hk := by
    rw [(huw.clean trivial).2.2] at hk
    cases hk
  source := huw.reported.sourceName.trans hsource
  uncapped := huw.reported.first_uncapped
  recovering := by
    obtain ⟨herrors, hhonest, -⟩ := huw.clean trivial
    refine huw.reported.recovering.trans (Bool.eq_false_iff.2 fun h => hhonest ?_ (.inl h) herrors)
    rw [huw.reported.second_uncapped]
    simp
  errors := by
    have hfirst := huw.reported.errors
    rw [(huw.clean trivial).1, Likeness.kept_eq _ fun _ => rfl] at hfirst
    exact List.forall₂_nil_right_iff.1 hfirst

end Juncture

/-! ### Units in parts -/

namespace Parser

variable {s t u : State}

theorem compilationUnit_eq_ok {p : Package} (h : compilationUnit s = .ok p t) :
    ∃ u n v, unitHead s.begun = .ok () u ∧ statements u = .ok n v ∧ p = t.package ∧
      t = v.ended n := by
  rw [compilationUnit_eq] at h
  obtain ⟨_, u, hu, h⟩ := bind_eq_ok.1 h
  obtain ⟨n, v, hv, h⟩ := bind_eq_ok.1 h
  rw [closeUnit_eq] at h
  cases h
  exact ⟨u, n, v, hu, hv, rfl, rfl⟩

theorem ended_of_ne {n : Nat} (hn : n ≠ 0) (s : State) : s.ended n = s.declared fun p =>
    { p with location := p.location.closeAt (s.cursor.previous.map (·.stop)) } := by
  unfold State.ended
  rw [if_neg fun h => hn h.1]

/-- A unit that does not begin with its package or attributes begins with its statements. -/
theorem unitHead_of_fence (h : s.cursor.current.kind ∈ fenceKinds) : unitHead s = .ok () s := by
  have hpackage : s.cursor.current.kind ≠ .keyword .package := fun heq =>
    absurd (heq ▸ h) (by decide)
  have hattributes : s.cursor.current.kind ∉ attributeKinds := by
    have hdisjoint : ∀ k ∈ fenceKinds, k ∉ attributeKinds := by decide
    exact hdisjoint _ h
  have hno : nextIsKeyword .package s = .ok false s := by
    show EStateM.Result.ok (decide (s.cursor.current.kind = .keyword .package)) s = _
    rw [decide_eq_false hpackage]
  have hstop : nextIs attributeKinds s = .ok false s := by
    rw [nextIs_eq, decide_eq_false hattributes]
  unfold unitHead
  refine (bind_of_ok hno).trans ?_
  exact @Turns.rounds_succ _ s (fun _ => nextIs attributeKinds)
    (fun _ => headOrRecovery packageAttribute) false () hstop _

/-- A unit without diagnostics has a statement. -/
theorem ne_zero_of_clean {n : Nat} (hs : Idle s) (hsteady : s.Steady) (h : ¬(s.ended n).Dead) :
    n ≠ 0 := by
  rintro rfl
  refine h ?_
  unfold State.ended
  rw [if_pos ⟨rfl, hs.trials⟩]
  exact dead_reported hsteady (.earlyExit "compilation unit" s.cursor.current)

end Parser

section Sequel

variable {settings : Settings} {sourceName a b : String} {p : Package} {t : State}

/-- A text without diagnostics is read in the same way when another text follows. -/
theorem Juncture.reaches_end (J : Juncture settings.hashComments a b)
    (hmax : settings.maxErrors = none)
    (hunit : compilationUnit (.ofText frames settings sourceName a) = .ok p t)
    (hclean : t.collector.errors = []) :
    ∃ m u v, m ≠ 0 ∧ Idle u ∧ Idle v ∧
      unitHead (State.ofText frames settings sourceName (a ++ "\n" ++ b)).begun = .ok () u ∧
      Reaches unfinished anotherStatement 0 u m v ∧
      (J.trailing p).readings.Abreast v (.ofText frames settings sourceName b) := by
  have hs := (idle_ofText frames settings sourceName (a ++ "\n" ++ b)).begun
  have ht := (idle_ofText frames settings sourceName a).begun
  obtain ⟨x, m, w, hx, hw, rfl, rfl⟩ := compilationUnit_eq_ok hunit
  have hx' : Idle x := ht.evolves ((unitHead_settles ht).evolves_ok hx)
  have hxw := (statements_settles hx').1.evolves_ok hw
  have hw' : Idle w := hx'.evolves hxw
  have halive : ¬(w.ended m).Dead := fun hdead => hdead hclean
  have halive' : ¬w.Dead := fun hdead => halive ((evolves_ended m hw'.trials).dead hdead)
  have hhead := Agree.unitHead (T := J.leading.readings) (fun {as bs c d} h hcd => by
      obtain rfl : as = bs := h
      obtain rfl := Attribute.Like.eq hcd
      rfl) (fun _ => rfl) hs ht (begun_abreast (J.abreast_leading hmax sourceName))
  rw [hx] at hhead
  cases hhead with
  | error _ hy => cases hy
  | astray _ hdoomed => exact absurd (hxw.dead (hdoomed.resolve_right fun h => h.2)) halive'
  | @ok _ _ u _ hu hy _ hux =>
    cases hy
    have hu' : Idle u := hs.evolves ((unitHead_settles hs).evolves_ok hu)
    have hrounds := turns_statements.alongside turns_statements (alongside_statements 0)
      (x.cursor.remaining + 1) (a := 0) (b := 0) (by rfl) hux hu' hx'
    have hw'' : rounds unfinished anotherStatement (x.cursor.remaining + 1) 0 x = .ok m w := hw
    rw [hw''] at hrounds
    rcases hrounds with ⟨-, hdoomed⟩ | ⟨m', _, v, _, hy, hcount, hvw, hv, -, hreach⟩ |
        ⟨_, _, _, _, _, hy, -⟩
    · exact absurd (hdoomed.resolve_right fun h => h.2) halive'
    · cases hy
      obtain rfl : m = m' := (hcount.trans (Nat.zero_add m)).symm
      have hend : w.AtEnd := Cursor.ahead_eq_nil_of_end hw'.hidden
        (hvw.second_front ▸ (faithful_scan a).plain) ((statements_settles hx').2 hw)
      have hmw : m ≠ 0 := ne_zero_of_clean hw' (hvw.steady trivial) halive
      refine ⟨m, u, v, hmw, hu', hv, hu, hreach,
        (J.past_of_abreast hvw hw' hend ?_ ?_ ?_).abreast hmax⟩
      · rw [ended_of_ne hmw]
        rfl
      · exact hxw.stack.trans ((unitHead_settles ht).evolves_ok hx).stack
      · rw [hxw.collector.sourceName, (((unitHead_settles ht).evolves_ok hx).collector).sourceName]
        rfl
    · cases hy

/-- Where the rounds of the first reading have come to, the statements go on from there. -/
theorem statements_of_reaches {m : Nat} {u v : State} (hu : Idle u) (hv : Idle v)
    (h : Reaches unfinished anotherStatement 0 u m v) :
    statements u = repeatWhile m unfinished anotherStatement v := by
  obtain ⟨k, hk⟩ := h
  have hux := u.cursor.length_ahead_le_remaining
  have hvx := v.cursor.length_ahead_le_remaining
  show rounds unfinished anotherStatement (u.cursor.remaining + 1) 0 u =
    rounds unfinished anotherStatement (v.cursor.remaining + 1) m v
  rw [turns_statements.rounds_eq hu (Nat.lt_succ_of_le hux)
      (m := u.cursor.remaining + v.cursor.remaining + 1 + k) (by omega), hk]
  exact turns_statements.rounds_eq hv (by omega) (Nat.lt_succ_of_le hvx)

theorem le_of_rounds_statements {k m n : Nat} {s u : State}
    (h : rounds unfinished anotherStatement k m s = .ok n u) : m ≤ n := by
  induction k generalizing m s with
  | zero => cases h; exact Nat.le_refl _
  | succ k ih =>
    obtain ⟨c, hc⟩ := turns_statements.asks m s
    rw [Turns.rounds_succ hc] at h
    cases c with
    | false => cases h; exact Nat.le_refl _
    | true =>
      obtain ⟨l, v, hl, hrest⟩ := bind_eq_ok.1 h
      obtain ⟨_, w, -, hw⟩ := bind_eq_ok.1 hl
      cases hw
      exact Nat.le_of_succ_le (ih hrest)

theorem ne_zero_of_statements {n : Nat} {s u : State} (hk : s.cursor.current.kind ≠ .endOfInput)
    (h : statements s = .ok n u) : n ≠ 0 := by
  have hmore : unfinished 0 s = .ok true s := by
    show EStateM.Result.ok (!decide (s.cursor.current.kind ∈ [TokenKind.endOfInput])) s = _
    simp [hk]
  have hrounds : rounds unfinished anotherStatement (s.cursor.remaining + 1) 0 s = .ok n u := h
  rw [Turns.rounds_succ hmore] at hrounds
  obtain ⟨l, v, hl, hrest⟩ := bind_eq_ok.1 hrounds
  obtain ⟨_, w, -, hw⟩ := bind_eq_ok.1 hl
  cases hw
  exact Nat.pos_iff_ne_zero.1 (le_of_rounds_statements hrest)

theorem Juncture.kind_second (J : Juncture settings.hashComments a b) (frames : Nat)
    (sourceName : String) :
    (State.ofText frames settings sourceName b).cursor.current.kind ∈ fenceKinds := by
  obtain ⟨t, ts, hts, hk⟩ := J.fence
  have hahead : (State.ofText frames settings sourceName b).cursor.ahead = t :: ts := by
    show visible (State.ofText frames settings sourceName b).cursor.rest = _
    rw [rest_ofText, J.second_eq, visible_append, J.visible_before, hts]
    rfl
  rw [Cursor.current_of_hidden (idle_ofText frames settings sourceName b).hidden, hahead]
  exact hk

/-- A text that ends with a statement and has no diagnostics, and behind it a text that begins with
a statement: the combined text has the declarations of both, the second ones read as they are alone,
and the diagnostics of the second text; or both have an integer with too many digits. -/
theorem parse_sequel (hmax : settings.maxErrors = none) {first : ParseResult}
    (hfirst : parse frames settings sourceName a = .ok first) (hclean : first.errors = [])
    (hcloser : ∃ t, (visible (tokens settings.hashComments a)).getLast? = some t ∧
      t.kind ∈ closerKinds)
    (hcomment : ¬EndsInOpenComment settings.hashComments a)
    (hfence : ∃ t, (visible (tokens settings.hashComments b)).head? = some t ∧
      t.kind ∈ fenceKinds) :
    (∃ r q, parse frames settings sourceName (a ++ "\n" ++ b) = .ok r ∧
      parse frames settings sourceName b = .ok q ∧
      r.package.Like (sequel first.package (a ++ "\n")) q.package ∧
      List.Forall₂ (Diagnostic.Like (sequel first.package (a ++ "\n"))) r.errors q.errors) ∨
    ∃ n events events',
      parse frames settings sourceName (a ++ "\n" ++ b) = .error ⟨.tooManyDigits n, events⟩ ∧
      parse frames settings sourceName b = .error ⟨.tooManyDigits n, events'⟩ := by
  obtain ⟨J⟩ := exists_juncture hcloser hcomment hfence
  obtain ⟨t, hunit, -, herrors, -⟩ := exists_unit hfirst
  let p := first.package
  obtain ⟨m, u, v, hm, hu, hv, hhead, hreach, hst⟩ := J.reaches_end hmax hunit (herrors ▸ hclean)
  have hidle := (idle_ofText frames settings sourceName b).begun
  have hst' : (J.trailing p).readings.Abreast v (State.ofText frames settings sourceName b).begun :=
    { hst with package := { hst.package with } }
  have hkind : (State.ofText frames settings sourceName b).begun.cursor.current.kind ∈ fenceKinds :=
    J.kind_second frames sourceName
  have hcombined : compilationUnit (.ofText frames settings sourceName (a ++ "\n" ++ b)) =
      (repeatWhile m unfinished anotherStatement >>= closeUnit) v := by
    rw [compilationUnit_eq, bind_of_ok hhead]
    exact bind_eq_of_eq closeUnit (statements_of_reaches hu hv hreach)
  have hsecond : compilationUnit (.ofText frames settings sourceName b) =
      (statements >>= closeUnit) (State.ofText frames settings sourceName b).begun := by
    rw [compilationUnit_eq, bind_of_ok (unitHead_of_fence hkind)]
  cases Agree.statements (T := (J.trailing p).readings) (fun h => h) (k := m) hst' hv hidle with
  | @ok m' n x y hx hy hcount hxy =>
    have hn : n ≠ 0 := by
      refine ne_zero_of_statements (fun heq => ?_) hy
      exact absurd (heq ▸ hkind) (by decide)
    have hm' : m' ≠ 0 := fun heq => hm (Nat.eq_zero_of_add_eq_zero (hcount.symm.trans heq)).1
    have hended : (J.trailing p).readings.Abreast (x.ended m') (y.ended n) := by
      rw [ended_of_ne hm', ended_of_ne hn]
      exact hxy.declared { hxy.package with }
    unfold parse
    rw [hcombined, hsecond, bind_of_ok hx, bind_of_ok hy, closeUnit_eq, closeUnit_eq]
    refine .inl ⟨_, _, rfl, rfl, hended.package, ?_⟩
    have herrors := hended.reported.errors
    rwa [Likeness.kept_eq _ fun _ => rfl, Likeness.kept_eq _ fun _ => rfl] at herrors
  | error hx hy hfg _ =>
    obtain ⟨n, rfl⟩ := (statements_settles hidle).1.long hy
    cases hfg with
    | other =>
      unfold parse
      rw [hcombined, hsecond, bind_of_error hx, bind_of_error hy]
      exact .inr ⟨n, _, _, rfl, rfl⟩
  | astray hcut _ => exact hcut.elim

theorem parse_sequel_of_import :
    ∃ first, parse 900 {} "orders" "import a.B;" = .ok first ∧ first.errors = [] ∧
      ((∃ r q, parse 900 {} "orders" ("import a.B;" ++ "\n" ++ "rule R when Person(") = .ok r ∧
        parse 900 {} "orders" "rule R when Person(" = .ok q ∧
        r.package.Like (sequel first.package ("import a.B;" ++ "\n")) q.package ∧
        List.Forall₂ (Diagnostic.Like (sequel first.package ("import a.B;" ++ "\n"))) r.errors
          q.errors) ∨
      ∃ n events events',
        parse 900 {} "orders" ("import a.B;" ++ "\n" ++ "rule R when Person(") =
          .error ⟨.tooManyDigits n, events⟩ ∧
        parse 900 {} "orders" "rule R when Person(" = .error ⟨.tooManyDigits n, events'⟩) := by
  have herrors : (parse 900 {} "orders" "import a.B;").toOption.map (·.errors) = some [] := by
    decide +kernel
  have hlast : (tokens true "import a.B;").getLast? =
      some ⟨.symbol .semicolon, ";", 1, 10, 10, 11⟩ := by
    decide +kernel
  cases hfirst : parse 900 {} "orders" "import a.B;" with
  | error f => rw [hfirst] at herrors; cases herrors
  | ok first =>
    rw [hfirst] at herrors
    have hclean : first.errors = [] := Option.some.inj herrors
    refine ⟨first, rfl, hclean, parse_sequel rfl hfirst hclean
      ⟨⟨.symbol .semicolon, ";", 1, 10, 10, 11⟩, by decide +kernel, by decide⟩ (fun h => ?_)
      ⟨⟨.keyword .rule, "rule", 1, 0, 0, 4⟩, by decide +kernel, by decide⟩⟩
    obtain ⟨t, ht, hk, -⟩ := h
    rw [show (({} : Settings).hashComments) = true from rfl, hlast] at ht
    cases ht
    cases hk

end Sequel

end Rulebook
