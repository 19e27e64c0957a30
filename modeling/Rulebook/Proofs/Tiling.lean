import Rulebook.Proofs.Behind
import Rulebook.Proofs.Bounds
import Rulebook.Proofs.Declaring

/-!
# Statements tile a text

In a text without diagnostics the tokens behind the head fall into stretches, one for each
declaration of the package: nothing that was taken is dropped, because whatever drops tokens reports
or remarks on it first, and what was reported is recorded.
-/

namespace Rulebook

def Entry.keyword : Entry → Keyword
  | .rule _ => .rule
  | .query _ => .query

/-- The declarations of a package that are statements: what each begins with, and where
it stands. -/
def Package.statements (p : Package) : List (Keyword × Location) :=
  p.imports.map (fun i => (.import_, i.location)) ++
  p.functionImports.map (fun i => (.import_, i.location)) ++
  p.globals.map (fun g => (.global, g.location)) ++
  p.functions.map (fun f => (.function, f.location)) ++
  p.templates.map (fun t => (.template, t.location)) ++
  p.rules.map (fun e => (e.keyword, e.location))

section Adds

variable {p q : Package} {k : Keyword} {l : Location}

theorem Package.Adds.statements (h : p.Adds k l q) :
    q.statements.Perm (p.statements ++ [(k, l)]) := by
  refine List.perm_iff_count.2 fun x => ?_
  cases h <;>
    simp only [Package.statements, List.map_append, List.map_cons, List.map_nil, Entry.keyword,
      Entry.location, List.count_append] <;>
    omega

end Adds

/-! ### Stretches of tokens -/

/-- A statement spans a stretch of tokens: it begins with its keyword there, and its location
reaches from the first of them to the last. -/
structure Spans (x : Keyword × Location) (ts : List Token) : Prop where
  keyword : ts.head?.map (·.kind) = some (.keyword x.1)
  start : x.2.start = ts.head?.map (·.start)
  stop : x.2.stop = ts.getLast?.map (·.stop)

/-- Statements span the stretches of a list of tokens, one behind the other. -/
inductive Tiles : List (Keyword × Location) → List Token → Prop where
  | nil : Tiles [] []
  | snoc {xs : List (Keyword × Location)} {x : Keyword × Location} {ts us : List Token}
      (h : Tiles xs ts) (hx : Spans x us) : Tiles (xs ++ [x]) (ts ++ us)

namespace Parser

def AttributeTokens (ts : List Token) : Prop :=
  ∃ k value comma l, ts = k :: (value ++ comma) ∧ k.kind ∈ attributeKinds ∧
    Optional (.literal l) value ∧ Optional (.symbol .comma) comma

/-- The tokens before the statements: a package declaration if there is one, and attributes. -/
inductive Heading : List Token → Prop where
  | nil : Heading []
  | package {k : Token} {names semicolon : List Token} (hk : k.kind = .keyword .package)
      (hnames : Dotted names) (hsemicolon : Optional (.symbol .semicolon) semicolon) :
      Heading (k :: (names ++ semicolon))
  | attribute {ts us : List Token} (h : Heading ts) (hus : AttributeTokens us) : Heading (ts ++ us)

variable {text : String} {tokens : Array Token} {s t u : State}

/-- A heading and the statements declared so far make up what has been taken. -/
def Tiled (s : State) : Prop :=
  ∃ head body xs, s.cursor.behind = head ++ body ∧ Heading head ∧ Tiles xs body ∧
    s.package.statements.Perm xs

/-- Between two statements of a text of which nothing was dropped unless that was reported. -/
structure Complete (text : String) (tokens : Array Token) (s : State) : Prop extends Idle s where
  stays : s.cursor.Over text
  within : s.cursor.Within tokens
  tiled : s.collector.received = 0 → Tiled s

/-! ### Statements -/

theorem received_packageStatement (hs : s.trials = 0) (h : packageStatement true s = .ok () t) :
    0 < t.collector.received := by
  obtain ⟨token, u, hu, h⟩ := bind_eq_ok.1 h
  obtain ⟨name, v, hv, h⟩ := bind_eq_ok.1 h
  obtain ⟨_, w, hw, h⟩ := bind_eq_ok.1 h
  have hst :=
    ((Orderly.evolves_ok _ hu).trans (Orderly.evolves_ok _ hv)).trans (Orderly.evolves_ok _ hw)
  rw [if_pos rfl, report_eq, hst.trials, hs, if_neg (Nat.lt_irrefl 0)] at h
  cases h
  show 0 < (w.collector.report _ w.ruleName).received
  rw [Collector.received_report]
  omega

theorem Spans.of_declares {k : Keyword} {l : Location} (hs : s.cursor.Over text)
    (hwithin : t.cursor.Within tokens) (hst : s.Evolves t)
    (hlt : t.cursor.ahead.length < s.cursor.ahead.length) (hk : s.cursor.current.kind = .keyword k)
    (hl : l.Covers text s.cursor.coming t.cursor.past) : ∃ ts, s.Took t ts ∧ Spans (k, l) ts := by
  obtain ⟨ts, hahead, htook⟩ := State.Took.exists_of_evolves hst
  have hcurrent := Cursor.ahead_consume hs.hidden (by rw [hk]; simp)
  obtain ⟨first, more, rfl⟩ : ∃ first more, ts = first :: more := by
    cases ts with
    | nil =>
      rw [hahead] at hlt
      exact absurd hlt (Nat.lt_irrefl _)
    | cons first more => exact ⟨first, more, rfl⟩
  obtain rfl : first = s.cursor.current := by
    rw [hahead] at hcurrent
    exact (List.cons.inj hcurrent).1
  obtain ⟨x, hlast⟩ : ∃ x, (s.cursor.current :: more).getLast? = some x :=
    ⟨_, List.getLast?_eq_some_getLast (List.cons_ne_nil _ _)⟩
  have hprevious : t.cursor.previous = some x := by
    rw [Cursor.previous_eq_getLast? (by rw [hwithin.front]; exact hwithin.index), htook,
      List.getLast?_append, hlast, Option.some_or]
  refine ⟨_, htook, congrArg some hk, hl.start, hl.stop.trans ?_⟩
  unfold Cursor.past
  rw [hprevious, hlast]
  rfl

theorem statement_tiled (hs : Complete text tokens s) (hwithin : t.cursor.Within tokens)
    (h : statement s = .ok () t) (hclean : t.collector.received = 0) : Tiled t := by
  have hst := Orderly.evolves_ok _ h
  have hreceived := hst.collector.received_le
  rcases statement_declares hs.stays hs.trials h with ⟨k, l, hk, hadds, hl⟩ | hpackage
  · obtain ⟨head, body, xs, hbehind, hhead, htiles, hperm⟩ := hs.tiled (by omega)
    obtain ⟨ts, htook, hspans⟩ := Spans.of_declares hs.stays hwithin hst
      (Eager.shortens statement hs.hidden h) hk hl
    refine ⟨head, body ++ ts, xs ++ [(k, l)], ?_, hhead, .snoc htiles hspans,
      hadds.statements.trans (hperm.append_right _)⟩
    rw [htook, hbehind, List.append_assoc]
  · have := received_packageStatement hs.trials hpackage
    omega

theorem statementOrRecovery_clean (hs : Idle s) (h : statementOrRecovery s = .ok () t)
    (hclean : t.collector.received = 0) : statement s = .ok () t := by
  cases hp : statement s with
  | ok a u =>
    rw [statementOrRecovery_of_ok hp] at h
    cases h
    rfl
  | error f u =>
    have hu := hs.evolves (Orderly.evolves_error _ hp)
    cases f with
    | recognition e =>
      rw [statementOrRecovery_of_recognition hp hu.trials] at h
      cases h
      have hreported : (u.collector.report e u.ruleName).received = 0 := hclean
      rw [Collector.received_report] at hreported
      omega
    | nestingTooDeep =>
      rw [statementOrRecovery_of_nesting hp, dropDeepStatement_eq hu] at h
      cases h
      have hremarked : (u.collector.remark "nesting too deep" u.cursor.current
          u.ruleName).received = 0 := hclean
      rw [Collector.received_remark] at hremarked
      omega
    | tooManyDigits n =>
      rw [statementOrRecovery_of_digits hp] at h
      cases h
    | cursor f => exact (Orderly.expected hp).elim

theorem statementOrRecovery_complete (hs : Complete text tokens s)
    (h : statementOrRecovery s = .ok () t) : Complete text tokens t := by
  have hst := (statementOrRecovery_settles hs.toIdle).evolves_ok h
  have hwithin : t.cursor.Within tokens :=
    after_of_ok h ▸ Composed.within (p := statementOrRecovery) inferInstance hs.within
  exact ⟨hs.evolves hst, (State.Onward.of_evolves hs.stays hst).stays, hwithin, fun hclean =>
    statement_tiled hs hwithin (statementOrRecovery_clean hs.toIdle h hclean) hclean⟩

theorem statements_complete (hs : Complete text tokens s) {n : Nat} (h : statements s = .ok n t) :
    Complete text tokens t := by
  refine repeatWhile_invariant (I := fun u _ => Complete text tokens u) (fun h => by cases h; rfl)
    (fun {_ _ v w} _ hv hbody => ?_) hs h
  obtain ⟨_, x, hx, hbody⟩ := bind_eq_ok.1 hbody
  obtain ⟨-, rfl⟩ := pure_ok hbody
  exact statementOrRecovery_complete hv hx

/-! ### The head -/

/-- The head of a text has been read, and nothing of it was dropped unless that was reported. -/
structure Headed (text : String) (tokens : Array Token) (s : State) : Prop extends Idle s where
  stays : s.cursor.Over text
  within : s.cursor.Within tokens
  heading : s.collector.received = 0 → Heading s.cursor.behind ∧ s.package.statements = []

theorem Headed.complete (hs : Headed text tokens s) : Complete text tokens s :=
  ⟨hs.toIdle, hs.stays, hs.within, fun hclean =>
    ⟨s.cursor.behind, [], [], (List.append_nil _).symm, (hs.heading hclean).1, .nil,
      by rw [(hs.heading hclean).2]⟩⟩

theorem took_of_attributeValue {token : Token} {value : AttributeValue}
    (hs : s.cursor.triviaVisible = false) (h : attributeValue token s = .ok value t) :
    ∃ ts l, Optional (.literal l) ts ∧ s.Took t ts := by
  have hliteral : ∀ {l v u}, expect (.literal l) s = .ok v u →
      ∃ ts l, Optional (.literal l) ts ∧ s.Took u ts := fun {l v u} hu => by
    obtain ⟨hk, htook⟩ := took_of_expect hs (by simp) hu
    exact ⟨_, l, .inr ⟨_, rfl, hk⟩, htook⟩
  cases valueRead_of_attributeValue h with
  | number _ hdigits _ => exact hliteral hdigits
  | flag _ _ hfound =>
    obtain ⟨ts, hts, htook⟩ := took_of_accept hs (by simp) hfound
    exact ⟨ts, .bool, hts, htook⟩
  | text _ _ _ hgiven => exact hliteral hgiven

theorem took_of_packageAttribute (hs : s.cursor.triviaVisible = false)
    (hk : s.cursor.current.kind ∈ attributeKinds) (h : packageAttribute s = .ok () t) :
    (∃ ts, AttributeTokens ts ∧ s.Took t ts) ∧ t.package.statements = s.package.statements := by
  have hne : s.cursor.current.kind ≠ .endOfInput := fun heq => by
    rw [heq] at hk
    exact absurd hk (by decide)
  obtain ⟨a, u, hu, h⟩ := bind_eq_ok.1 h
  obtain ⟨_, _, hput, h⟩ := bind_eq_ok.1 h
  cases hput
  replace h : skip .comma (u.declared fun p => { p with attributes := p.attributes.put a }) =
    .ok () t := h
  have hpackage : t.package.statements = s.package.statements := by
    rw [Inert.package_ok _ h]
    show u.package.statements = _
    rw [Inert.package_ok _ hu]
  refine ⟨?_, hpackage⟩
  have hhidden := (Orderly.evolves_ok _ hu).triviaVisible.trans hs
  obtain ⟨token, v, hv, hu⟩ := bind_eq_ok.1 hu
  obtain ⟨value, w, hw, hu⟩ := bind_eq_ok.1 hu
  obtain ⟨l, x, hx, hu⟩ := bind_eq_ok.1 hu
  obtain ⟨-, rfl⟩ := pure_ok hu
  obtain ⟨rfl, -⟩ := close_ok hx
  have hhiddenv := (Orderly.evolves_ok _ hv).triviaVisible.trans hs
  obtain ⟨rfl, hkeyword⟩ := took_of_advance hs hne hv
  obtain ⟨value, l, hvalue, htook⟩ := took_of_attributeValue hhiddenv hw
  obtain ⟨comma, hcomma, htook'⟩ := took_of_skip (s := u.declared _) hhidden h
  refine ⟨_, ⟨_, value, comma, l, rfl, hk, hvalue, hcomma⟩, ?_⟩
  exact hkeyword.trans (htook.trans htook')

theorem took_of_packageStatement (hs : s.cursor.triviaVisible = false)
    (h : packageStatement false s = .ok () t) :
    ∃ k names semicolon, k.kind = .keyword .package ∧ Dotted names ∧
      Optional (.symbol .semicolon) semicolon ∧ s.Took t (k :: (names ++ semicolon)) ∧
      t.package.statements = s.package.statements := by
  obtain ⟨token, u, hu, h⟩ := bind_eq_ok.1 h
  obtain ⟨name, v, hv, h⟩ := bind_eq_ok.1 h
  obtain ⟨_, w, hw, h⟩ := bind_eq_ok.1 h
  cases h
  have hpackage : w.package = s.package :=
    ((Inert.package_ok _ hw).trans (Inert.package_ok _ hv)).trans (Inert.package_ok _ hu)
  have hhiddenu := (Orderly.evolves_ok _ hu).triviaVisible.trans hs
  have hhiddenv := (Orderly.evolves_ok _ hv).triviaVisible.trans hhiddenu
  obtain ⟨hk, hkeyword⟩ := took_of_expect hs (by simp) hu
  obtain ⟨names, hnames, htook⟩ := took_of_dottedName hhiddenu hv
  obtain ⟨semicolon, hsemicolon, htook'⟩ := took_of_skip hhiddenv hw
  refine ⟨token, names, semicolon, hk, hnames, hsemicolon, hkeyword.trans (htook.trans htook'), ?_⟩
  show w.package.statements = _
  rw [hpackage]

/-- A part of the head that was read without a report was read to its end. -/
theorem headOrRecovery_clean {p : Parser Unit} (hs : Idle s) (hp : OrderlyFrom p s)
    (h : headOrRecovery p s = .ok () t) (hclean : t.collector.received = 0) : p s = .ok () t := by
  cases hps : p s with
  | ok a u =>
    have heq : headOrRecovery p s = .ok () u := by
      unfold headOrRecovery
      rw [bind_of_ok (attempt_of_ok hps)]
      rfl
    rw [heq] at h
    cases h
    rfl
  | error f u =>
    cases f with
    | recognition e =>
      have hu := hs.evolves (hp.evolves_error hps)
      rw [headOrRecovery_of_recognition hps hu.trials] at h
      cases h
      have hreported : (u.collector.report e u.ruleName).received = 0 := hclean
      rw [Collector.received_report] at hreported
      omega
    | _ =>
      unfold headOrRecovery at h
      rw [bind_of_error (attempt_of_error hps (by simp))] at h
      cases h

theorem Headed.of_headOrRecovery {p : Parser Unit} [Composed p] (hs : Headed text tokens s)
    (hp : OrderlyFrom p s) [Shallow p] (h : headOrRecovery p s = .ok () t)
    (hread : s.collector.received = 0 → p s = .ok () t →
      Heading t.cursor.behind ∧ t.package.statements = []) : Headed text tokens t := by
  have hst := (headOrRecovery_settles hs.toIdle hp).evolves_ok h
  have hreceived := hst.collector.received_le
  exact ⟨hs.evolves hst, (State.Onward.of_evolves hs.stays hst).stays,
    after_of_ok h ▸ Composed.within inferInstance hs.within, fun hclean =>
      hread (by omega) (headOrRecovery_clean hs.toIdle hp h hclean)⟩

theorem unitHead_headed (hs : Headed text tokens s) (hbehind : s.cursor.behind = [])
    (h : unitHead s = .ok () t) : Headed text tokens t := by
  obtain ⟨isPackage, _, hlook, h⟩ := bind_eq_ok.1 h
  cases hlook
  have hattributes : ∀ {t u : State}, Headed text tokens t →
      repeatWhile () (fun _ => nextIs attributeKinds) (fun _ => headOrRecovery packageAttribute) t =
        .ok () u → Headed text tokens u := fun ht hu => by
    refine repeatWhile_invariant (I := fun u _ => Headed text tokens u) (fun h => by cases h; rfl)
      (fun {_ _ v w} hmore hv hbody => ?_) ht hu
    refine hv.of_headOrRecovery (packageAttribute_from hv.toIdle) hbody fun hclean hbody => ?_
    obtain ⟨⟨ts, hts, htook⟩, hpackage⟩ :=
      took_of_packageAttribute hv.hidden (kind_of_nextIs hmore).2 hbody
    obtain ⟨hheading, hstatements⟩ := hv.heading hclean
    exact ⟨htook ▸ .attribute hheading hts, hpackage.trans hstatements⟩
  split at h
  · obtain ⟨_, u, hu, h⟩ := bind_eq_ok.1 h
    refine hattributes (hs.of_headOrRecovery (packageStatement_from hs.toIdle false) hu ?_) h
    intro hclean hu
    obtain ⟨k, names, semicolon, hk, hnames, hsemicolon, htook, hpackage⟩ :=
      took_of_packageStatement hs.hidden hu
    refine ⟨?_, hpackage.trans (hs.heading hclean).2⟩
    rw [htook, hbehind]
    exact .package hk hnames hsemicolon
  · exact hattributes hs h

theorem compilationUnit_tiled (hs : Headed text tokens s) (hbehind : s.cursor.behind = [])
    {p : Package} (h : compilationUnit s = .ok p t) (hclean : t.collector.received = 0) :
    p = t.package ∧ Tiled t := by
  let start := s.declared fun p =>
    { p with location := { Location.ofToken s.cursor.current with stop := p.location.stop } }
  have hstart : Headed text tokens start :=
    ⟨hs.evolves (Orderly.evolves_declared _ hs.trials), hs.stays, hs.within, hs.heading⟩
  change (do unitHead; closeUnit (← statements) : Parser Package) start = _ at h
  obtain ⟨_, u, hu, h⟩ := bind_eq_ok.1 h
  obtain ⟨n, v, hv, h⟩ := bind_eq_ok.1 h
  have hv := statements_complete (unitHead_headed hstart hbehind hu).complete hv
  rw [closeUnit_eq] at h
  cases h
  have hreceived := (evolves_ended n hv.trials).collector.received_le
  obtain ⟨head, body, xs, hbehind, hrest⟩ := hv.tiled (by omega)
  refine ⟨rfl, head, body, xs, ?_, ?_⟩
  · rw [cursor_ended]
    exact hbehind
  · rw [package_ended]
    exact hrest

end Parser

end Rulebook
