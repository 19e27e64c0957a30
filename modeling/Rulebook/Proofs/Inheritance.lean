import Rulebook.Proofs.WrittenAttributes

/-!
# Attributes of a package and of its rules

The attributes at the head of a text hold for its rules. Main statement: in a text without
diagnostics the attributes of the package are those written at its head, and those of each rule are
the same with the attributes written on the rule assigned behind them, whatever other rules and
queries there are.
-/

namespace Rulebook

variable {frames : Nat}

open Rulebook.Parser

/-- A package declaration is written, or nothing is. -/
def OpeningWritten (ts : List Token) : Prop :=
  ts = [] ∨ ∃ keyword name semicolon, ts = keyword :: (name ++ semicolon) ∧
    keyword.kind = .keyword .package ∧ Dotted name ∧ Optional (.symbol .semicolon) semicolon

/-- A rule is written among some tokens, and its attributes are those of the package with those that
are written on the rule assigned behind them. -/
def Rule.Inherits (rule : Rule) (ds : List Attribute) (tokens : List Token) : Prop :=
  ∃ as before ts next after, tokens = before ++ (ts ++ next :: after) ∧ RuleWritten rule as ts ∧
    next.kind ∈ attributesEnd ∧ Attributes.Assigned (ds ++ as) rule.attributes

namespace Parser

set_option synthInstance.maxSize 100000

variable {hashComments : Bool} {text : String} {s t u : State} {ds : List Attribute}
  {head rest : List Token} {n : Nat}

/-! ### The head -/

/-- At the head of a text whose package has the attributes that are written there, unless something
was complained of. -/
structure Opened (hashComments : Bool) (text : String) (s : State) : Prop extends Idle s where
  earnest : s.Earnest hashComments text
  written : s.collector.received = 0 → ∃ opening ds attributes,
    s.cursor.behind = opening ++ attributes ∧ OpeningWritten opening ∧
    AttributesWritten ds attributes ∧
      s.package.attributes = Attributes.override [] ds ∧ s.package.rules = []

theorem packageStatement_opens (hs : s.cursor.triviaVisible = false)
    (hbehind : s.cursor.behind = []) (h : packageStatement false s = .ok () t) :
    OpeningWritten t.cursor.behind := by
  obtain ⟨k, names, semicolon, hk, hnames, hsemicolon, htook, -⟩ := took_of_packageStatement hs h
  rw [htook, hbehind]
  exact .inr ⟨k, names, semicolon, rfl, hk, hnames, hsemicolon⟩

theorem Opened.attribute (hs : Opened hashComments text s)
    (hk : s.cursor.current.kind ∈ attributeKinds)
    (h : headOrRecovery packageAttribute s = .ok () t) : Opened hashComments text t := by
  have hst := (headOrRecovery_settles hs.toIdle (packageAttribute_from hs.toIdle)).evolves_ok h
  have hreceived := hst.collector.received_le
  refine ⟨hs.evolves hst, hs.earnest.evolves hst, fun hclean => ?_⟩
  obtain ⟨opening, ds, attributes, hbehind, hopening, hwritten, hattributes, hrules⟩ :=
    hs.written (by omega)
  obtain ⟨a, ts, comma, ha, hcomma, htook, hpackage⟩ := packageAttribute_written hs.earnest hk
    (headOrRecovery_clean hs.toIdle (packageAttribute_from hs.toIdle) h hclean)
  refine ⟨opening, ds ++ [a], attributes ++ (ts ++ comma), ?_, hopening, .snoc hwritten ha hcomma,
    ?_, ?_⟩
  · rw [htook, hbehind, List.append_assoc]
  · rw [hpackage, hattributes, Attributes.override_append]
    rfl
  · rw [hpackage, hrules]

theorem unitHead_opens (hs : Idle s) (hearnest : s.Earnest hashComments text)
    (hbehind : s.cursor.behind = []) (hattributes : s.package.attributes = [])
    (hrules : s.package.rules = []) (h : unitHead s = .ok () t) : Opened hashComments text t := by
  have hrounds : ∀ {u : State}, Opened hashComments text u →
      repeatWhile () (fun _ => nextIs attributeKinds) (fun _ => headOrRecovery packageAttribute) u =
        .ok () t → Opened hashComments text t := fun hu hrounds =>
    repeatWhile_invariant (I := fun v _ => Opened hashComments text v) (fun h => by cases h; rfl)
      (fun {_ _ v w} hmore hv hbody => hv.attribute (kind_of_nextIs hmore).2 hbody) hu hrounds
  obtain ⟨isPackage, _, hlook, h⟩ := bind_eq_ok.1 h
  cases hlook
  split at h
  · obtain ⟨_, u, hu, h⟩ := bind_eq_ok.1 h
    have hsu := (headOrRecovery_settles hs (packageStatement_from hs false)).evolves_ok hu
    refine hrounds ⟨hs.evolves hsu, hearnest.evolves hsu, fun hclean => ?_⟩ h
    have hread := headOrRecovery_clean hs (packageStatement_from hs false) hu hclean
    have hkept : u.package.attributes = [] ∧ u.package.rules = [] := by
      have hkept := Keeps.packageStatement (s := s)
        (I := fun p => p.attributes = [] ∧ p.rules = []) (fun _ hp => hp) false
          ⟨hattributes, hrules⟩
      rwa [after_of_ok hread] at hkept
    exact ⟨_, [], [], (List.append_nil _).symm, packageStatement_opens hs.hidden hbehind hread,
      .nil, hkept⟩
  · exact hrounds
      ⟨hs, hearnest, fun _ => ⟨[], [], [], hbehind, .inl rfl, .nil, hattributes, hrules⟩⟩ h

/-! ### Statements -/

/-- After some statements behind a head: the attributes of the package are the same as at first, and
each rule so far inherits them. -/
structure Inherited (ds : List Attribute) (head rest : List Token) (n : Nat) (s : State) :
    Prop where
  attributes : s.package.attributes = Attributes.override [] ds
  taken : ∃ ts, s.cursor.behind = head ++ ts ∧ (ts = [] → n = 0) ∧
    ∀ first, ts.head? = some first → first.kind ∈ fenceKinds
  rules : ∀ rule, .rule rule ∈ s.package.rules → rule.Inherits ds rest

theorem adds_attributes {p q : Package} {k : Keyword} {l : Location} (h : p.Adds k l q) :
    q.attributes = p.attributes ∧ .keyword k ∈ fenceKinds := by
  cases h <;> exact ⟨rfl, by decide⟩

theorem inherits_of_written (hall : visible (tokens hashComments text) = head ++ rest)
    {before ts : List Token} (hbehind : s.cursor.behind = head ++ before) (htook : s.Took u ts)
    (hu : u.Earnest hashComments text) (hend : u.cursor.current.kind ∈ attributesEnd) {rule : Rule}
    {as : List Attribute} (hwritten : RuleWritten rule as ts)
    (hrule : rule.attributes = (Attributes.override [] ds).override as) :
    rule.Inherits ds rest := by
  have hne : u.cursor.current.kind ≠ .endOfInput := fun heq => absurd (heq ▸ hend) (by decide)
  refine ⟨as, before, ts, _, u.advanced.cursor.ahead, ?_, hwritten, hend, ?_⟩
  · have hahead := u.cursor.behind_append_ahead
    rw [hu.front, hall, htook, hbehind, Cursor.ahead_consume hu.hidden hne] at hahead
    simp only [List.append_assoc, List.append_cancel_left_eq] at hahead
    exact hahead.symm
  · rw [hrule, ← Attributes.override_append]
    exact Attributes.assigned_override _

/-- A statement without complaint leaves the attributes of the package, and a rule inherits them. -/
theorem statement_inherits (hall : visible (tokens hashComments text) = head ++ rest)
    (hs : s.Earnest hashComments text) (hinherited : Inherited ds head rest n s)
    (h : statement s = .ok () t) (hclean : t.collector.received = 0) :
    Inherited ds head rest (n + 1) t := by
  obtain ⟨ts, hbehind, -, hfirst⟩ := hinherited.taken
  have hst := Orderly.evolves_ok _ h
  obtain ⟨us, hahead, htook⟩ := State.Took.exists_of_evolves hst
  rcases statement_declares hs.cursor_over hs.trials h with ⟨k, l, hk, hadds, -⟩ | hpackage
  · obtain ⟨hattributes, hfence⟩ := adds_attributes hadds
    have hcurrent := Cursor.ahead_consume hs.hidden (by rw [hk]; simp)
    have hlt := Eager.shortens statement hs.hidden h
    obtain ⟨more, rfl⟩ : ∃ more, us = s.cursor.current :: more := by
      cases us with
      | nil =>
        rw [hahead] at hlt
        exact absurd hlt (Nat.lt_irrefl _)
      | cons x more =>
        rw [hahead] at hcurrent
        exact ⟨more, by rw [(List.cons.inj hcurrent).1]⟩
    refine ⟨hattributes.trans hinherited.attributes, ⟨ts ++ s.cursor.current :: more, ?_, ?_, ?_⟩,
      ?_⟩
    · rw [htook, hbehind, List.append_assoc]
    · intro hnil
      exact absurd hnil (List.append_ne_nil_of_right_ne_nil ts (List.cons_ne_nil _ _))
    · intro first hhead
      cases ts with
      | nil =>
        cases hhead
        exact hk ▸ hfence
      | cons x ts => exact hfirst first hhead
    · intro rule hrule
      rcases statement_entry hs.trials h with ⟨e, hread, hrules⟩ | hrules
      · rw [hrules, List.mem_append, List.mem_singleton] at hrule
        rcases hrule with hrule | rfl
        · exact hinherited.rules rule hrule
        · cases hread with
          | rule hread =>
            obtain ⟨as, taken, u, hwritten, htook, hu, hend, hattributes⟩ :=
              ruleStatement_written hs hread hclean
            exact inherits_of_written hall hbehind htook hu hend hwritten
              (hinherited.attributes ▸ hattributes)
      · exact hinherited.rules rule (hrules ▸ hrule)
  · have := received_packageStatement hs.trials hpackage
    omega

theorem statements_inherit (hall : visible (tokens hashComments text) = head ++ rest) (hs : Idle s)
    (hearnest : s.Earnest hashComments text) (hinherited : Inherited ds head rest 0 s)
    (h : statements s = .ok n t) (hclean : t.collector.received = 0) :
    Inherited ds head rest n t := by
  let I (u : State) (n : Nat) : Prop := Idle u ∧ u.Earnest hashComments text ∧
    (u.collector.received = 0 → Inherited ds head rest n u)
  have hend : I t n := by
    refine repeatWhile_invariant (I := I) (fun h => by cases h; rfl)
      (fun {k _ v w} _ hv hbody => ?_) ⟨hs, hearnest, fun _ => hinherited⟩ h
    obtain ⟨hidle, hearnest, hbefore⟩ := hv
    obtain ⟨_, x, hx, hbody⟩ := bind_eq_ok.1 hbody
    obtain ⟨rfl, rfl⟩ := pure_ok hbody
    have hstep := (statementOrRecovery_settles hidle).evolves_ok hx
    have hreceived := hstep.collector.received_le
    refine ⟨hidle.evolves hstep, hearnest.evolves hstep, fun hclean => ?_⟩
    exact statement_inherits hall hearnest (hbefore (by omega))
      (statementOrRecovery_clean hidle hx hclean) hclean
  exact hend.2.2 hclean

theorem head_of_taken (hall : visible (tokens hashComments text) = head ++ rest)
    (hs : s.Earnest hashComments text) (hinherited : Inherited ds head rest n s) (hn : n ≠ 0) :
    ∃ first, rest.head? = some first ∧ first.kind ∈ fenceKinds := by
  obtain ⟨ts, hbehind, hnil, hfirst⟩ := hinherited.taken
  have hrest : ts ++ s.cursor.ahead = rest := by
    have hahead := s.cursor.behind_append_ahead
    rw [hs.front, hall, hbehind, List.append_assoc] at hahead
    exact List.append_cancel_left hahead
  cases ts with
  | nil => exact absurd (hnil rfl) hn
  | cons first ts => exact ⟨first, by rw [← hrest]; rfl, hfirst first rfl⟩

/-- A text without statements is complained of. -/
theorem received_ended (hs : s.trials = 0) : 0 < (s.ended 0).collector.received := by
  unfold State.ended
  rw [if_pos ⟨rfl, hs⟩]
  show 0 < (s.collector.report _ s.ruleName).received
  rw [Collector.received_report]
  omega

end Parser

/-! ### Texts -/

/-- In a text without diagnostics the attributes of the package are those written at its head,
assigned in order; those of a rule are the same with the attributes that are written on it assigned
behind them; and a query has none. -/
theorem attributes_inherited {settings : Settings} (hvalid : settings.Valid)
    {sourceName text : String} {r : ParseResult} (h : parse frames settings sourceName text = .ok r)
    (hclean : r.errors = []) :
    ∃ opening ds attributes rest,
      visible (tokens settings.hashComments text) = (opening ++ attributes) ++ rest ∧
      OpeningWritten opening ∧ AttributesWritten ds attributes ∧
      (∃ first, rest.head? = some first ∧ first.kind ∈ fenceKinds) ∧
      Attributes.Assigned ds r.package.attributes ∧
      ∀ e ∈ r.package.rules,
        (∃ rule, e = .rule rule ∧ rule.Inherits ds rest) ∨ e.isQuery = true ∧
        e.attributes = [] := by
  let start := (State.ofText frames settings sourceName text).begun
  have hidle : Idle start := (idle_ofText frames settings sourceName text).begun
  have hearnest : start.Earnest settings.hashComments text := ⟨rfl, rfl⟩
  obtain ⟨t, hunit, -, hreceived⟩ := exists_clean_unit hvalid h hclean
  obtain ⟨u, n, v, hhead, hstatements, hpackage, rfl⟩ := compilationUnit_eq_ok hunit
  have hu := unitHead_opens hidle hearnest (Cursor.behind_ofTokens _ _) rfl rfl hhead
  have huv := (statements_settles hu.toIdle).1.evolves_ok hstatements
  have hv : v.trials = 0 := huv.trials.trans hu.trials
  have hclean' : v.collector.received = 0 :=
    Nat.eq_zero_of_le_zero (hreceived ▸ (evolves_ended n hv).collector.received_le)
  have huclean : u.collector.received = 0 :=
    Nat.eq_zero_of_le_zero (hclean' ▸ huv.collector.received_le)
  obtain ⟨opening, ds, attributes, hbehind, hopening, hwritten, hattributes, hrules⟩ :=
    hu.written huclean
  have hall :
      visible (tokens settings.hashComments text) = (opening ++ attributes) ++ u.cursor.ahead := by
    rw [← hu.earnest.front, ← hbehind, Cursor.behind_append_ahead]
  have hinherited : Inherited ds (opening ++ attributes) u.cursor.ahead 0 u :=
    ⟨hattributes, ⟨[], by rw [hbehind, List.append_nil], fun _ => rfl, fun _ hno => by cases hno⟩,
      fun rule hrule => by rw [hrules] at hrule; cases hrule⟩
  have hend := statements_inherit hall hu.toIdle hu.earnest hinherited hstatements hclean'
  rw [hpackage, package_ended]
  refine ⟨opening, ds, attributes, _, hall, hopening, hwritten, ?_, ?_, fun e he => ?_⟩
  · have hpos : n ≠ 0 := by
      rintro rfl
      have hreported := received_ended hv
      omega
    have hvearnest := hu.earnest.evolves huv
    exact head_of_taken hall hvearnest hend hpos
  · show Attributes.Assigned ds v.package.attributes
    rw [hend.attributes]
    exact Attributes.assigned_override ds
  · cases e with
    | rule rule => exact .inl ⟨rule, rfl, hend.rules rule he⟩
    | query query => exact .inr ⟨rfl, rfl⟩

/-- A name that is assigned twice, a flag that is written bare, and a rule behind another rule and a
query. -/
def handedDown : String :=
  "package p; salience 5, no-loop salience -10\nrule A when then end\nquery Q P() end\n" ++
    "rule B attributes: no-loop false, duration 007 dialect \x22java\x22 salience 1 when then end"

theorem attributes_inherited_handedDown :
    ∃ r opening ds attributes rest, parse 900 {} "orders" handedDown = .ok r ∧ r.errors = [] ∧
      visible (tokens true handedDown) = (opening ++ attributes) ++ rest ∧
      AttributesWritten ds attributes ∧ Attributes.Assigned ds r.package.attributes ∧
      r.package.attributes.map (fun a => (a.name, a.value)) =
        [("salience", .number (-10)), ("no-loop", .flag true)] ∧
      r.package.rules.map (fun e => e.attributes.map fun a => (a.name, a.value)) =
        [[("salience", .number (-10)), ("no-loop", .flag true)], [],
          [("salience", .number 1), ("no-loop", .flag false), ("duration", .number 7),
            ("dialect", .text "java")]] := by
  have hvalues : (parse 900 {} "orders" handedDown).toOption.map (fun r =>
      (r.errors.length, r.package.attributes.map (fun a => (a.name, a.value)),
        r.package.rules.map fun e => e.attributes.map fun a => (a.name, a.value))) =
      some (0, [("salience", .number (-10)), ("no-loop", .flag true)],
        [[("salience", .number (-10)), ("no-loop", .flag true)], [],
          [("salience", .number 1), ("no-loop", .flag false), ("duration", .number 7),
            ("dialect", .text "java")]]) := by
    decide +kernel
  cases h : parse 900 {} "orders" handedDown with
  | error f =>
    rw [h] at hvalues
    cases hvalues
  | ok r =>
    rw [h] at hvalues
    obtain ⟨herrors, hvalues⟩ := Prod.mk.inj (Option.some.inj hvalues)
    obtain ⟨hpackage, hrules⟩ := Prod.mk.inj hvalues
    have hclean := List.length_eq_zero_iff.1 herrors
    have hvalid : ({} : Settings).Valid := by simp [Settings.Valid]
    obtain ⟨opening, ds, attributes, rest, hall, -, hwritten, -, hassigned, -⟩ :=
      attributes_inherited hvalid h hclean
    exact ⟨r, opening, ds, attributes, rest, rfl, hclean, hall, hwritten, hassigned,
      hpackage, hrules⟩

end Rulebook
