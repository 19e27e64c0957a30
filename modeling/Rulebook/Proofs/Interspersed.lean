import Rulebook.Proofs.Boundaries
import Rulebook.Proofs.LedgerUnit
import Rulebook.Proofs.LocalityRules
import Rulebook.Proofs.Resumption

/-!
# Garbage between statements

Between two statements there may be tokens that are no part of either. They are reported once, at
the first of them, and passed over up to the next statement; the statements are read as they would
be alone. What one statement and one stretch of garbage do to the state is said by `Interim`, the
state between two statements: it knows what was declared so far and which tokens were reported.
-/

namespace Rulebook

open Rulebook.Parser

variable {frames : Nat}

/-! ### A single statement -/

namespace Package

/-- The number of declarations. -/
def size (p : Package) : Nat :=
  p.imports.length + p.functionImports.length + p.globals.length + p.functions.length +
    p.templates.length + p.rules.length

theorem Adds.size_eq {p q : Package} {k : Keyword} {l : Location} (h : p.Adds k l q) :
    q.size = p.size + 1 := by
  cases h <;> simp only [size, List.length_append, List.length_singleton] <;> omega

end Package

namespace Parser

variable {α : Type} {s t u : State}

theorem size_statement (hs : s.trials = 0) (h : statement s = .ok () t)
    (hclean : t.collector.received = 0) : t.package.size = s.package.size + 1 := by
  by_cases hk : s.cursor.current.kind = .keyword .package
  · unfold statement at h
    rw [bind_of_ok (current_eq s), hk] at h
    have hpos := received_packageStatement hs h
    omega
  · obtain ⟨k, -, l, hadds⟩ := (commits_statement hs hk).ok h
    exact hadds.size_eq

/-- Statements without complaint are as many as their declarations. -/
theorem size_rounds {n k m : Nat} (hs : Idle s)
    (h : rounds unfinished anotherStatement n k s = .ok m t) (hclean : t.collector.received = 0) :
    s.collector.received = 0 ∧ t.package.size + k = s.package.size + m := by
  let J (v : State) (j : Nat) : Prop := Idle v ∧ (v.collector.received = 0 →
    s.collector.received = 0 ∧ v.package.size + k = s.package.size + j)
  have hinvariant : J t m := by
    refine rounds_invariant (I := J) (fun h => by cases h; rfl) (fun {_ _ v w} _ hv hbody => ?_)
      ⟨hs, fun hzero => ⟨hzero, rfl⟩⟩ h
    obtain ⟨hidle, hbefore⟩ := hv
    obtain ⟨_, x, hx, hbody⟩ := bind_eq_ok.1 hbody
    obtain ⟨rfl, rfl⟩ := pure_ok hbody
    have hvx := (statementOrRecovery_settles hidle).evolves_ok hx
    refine ⟨hidle.evolves hvx, fun hclean => ?_⟩
    have hle := hvx.collector.received_le
    obtain ⟨hzero, hsize⟩ := hbefore (by omega)
    have hmore := size_statement hidle.trials (statementOrRecovery_clean hidle hx hclean) hclean
    exact ⟨hzero, by omega⟩
  exact hinvariant.2 hclean

theorem eq_of_rounds_statements {k n : Nat}
    (h : rounds unfinished anotherStatement k n s = .ok n u) : u = s := by
  cases k with
  | zero => cases h; rfl
  | succ k =>
    obtain ⟨c, hc⟩ := turns_statements.asks n s
    rw [Turns.rounds_succ hc] at h
    cases c with
    | false => cases h; rfl
    | true =>
      obtain ⟨m, v, hm, hrest⟩ := bind_eq_ok.1 h
      obtain ⟨_, w, -, hw⟩ := bind_eq_ok.1 hm
      cases hw
      exact absurd (le_of_rounds_statements hrest) (Nat.not_succ_le_self n)

end Parser

/-- A text that is one statement: it is parsed without a diagnostic, begins with the keyword of a
statement that declares something, ends with a delimiter, and holds one declaration. -/
structure Stands (frames : Nat) (settings : Settings) (sourceName text : String) (p : Package) :
    Prop where
  parsed : ∃ r, parse frames settings sourceName text = .ok r ∧ r.errors = [] ∧ r.package = p
  single : p.size = 1
  fence : ∃ t, (visible (tokens settings.hashComments text)).head? = some t ∧ t.kind ∈ fenceKinds
  closer : ∃ t, (visible (tokens settings.hashComments text)).getLast? = some t ∧
    t.kind ∈ closerKinds

section Stands

variable {settings : Settings} {sourceName text : String} {p : Package}

variable (frames sourceName) in
theorem current_ofText {t : Token}
    (h : (visible (tokens settings.hashComments text)).head? = some t) :
    (State.ofText frames settings sourceName text).cursor.current = t := by
  rw [Cursor.current_of_hidden (idle_ofText frames settings sourceName text).hidden, Cursor.ahead,
    rest_ofText, List.headD_eq_head?_getD, h]
  rfl

/-- A single declaration without diagnostics is read by `statement`, up to the end of the text. -/
theorem exists_sole_statement {r : ParseResult} (hmax : settings.maxErrors = none)
    (hr : parse frames settings sourceName text = .ok r) (hclean : r.errors = [])
    (hsingle : r.package.size = 1)
    (hfence : ∃ t, (visible (tokens settings.hashComments text)).head? = some t ∧
      t.kind ∈ fenceKinds) :
    ∃ t, statement (State.ofText frames settings sourceName text).begun = .ok () t ∧
      t.collector.received = 0 ∧ t.cursor.current.kind = .endOfInput ∧
      r.package = { t.package with location := r.package.location } := by
  let start := (State.ofText frames settings sourceName text).begun
  have hidle : Idle start := (idle_ofText frames settings sourceName text).begun
  have hkind : start.cursor.current.kind ∈ fenceKinds := by
    obtain ⟨t, ht, hk⟩ := hfence
    show (State.ofText frames settings sourceName text).cursor.current.kind ∈ fenceKinds
    rwa [current_ofText frames sourceName ht]
  have hvalid : settings.Valid := by
    unfold Settings.Valid
    rw [hmax]
    simp
  obtain ⟨t, hunit, -, hreceived⟩ := exists_clean_unit hvalid hr hclean
  obtain ⟨u, n, v, hhead, hstatements, hpackage, rfl⟩ := compilationUnit_eq_ok hunit
  rw [unitHead_of_fence (s := start) hkind] at hhead
  cases hhead
  have hstart : start.cursor.current.kind ≠ .endOfInput := fun heq =>
    absurd (heq ▸ hkind) (by decide)
  have hn : n ≠ 0 := ne_zero_of_statements hstart hstatements
  rw [ended_of_ne hn] at hreceived hpackage
  have hvclean : v.collector.received = 0 := hreceived
  have hend := (statements_settles hidle).2 hstatements
  obtain ⟨w, hw, hrest⟩ := first_of_statements (s := start) hkind hstatements
  have hwidle := hidle.evolves ((statementOrRecovery_settles hidle).evolves_ok hw)
  -- one declaration is one statement, so nothing is left for a second round
  obtain ⟨hwclean, hsizes⟩ := size_rounds hwidle hrest hvclean
  have hstatement := statementOrRecovery_clean hidle hw hwclean
  have hfirst := size_statement hidle.trials hstatement hwclean
  have hsize : v.package.size = 1 := by
    rw [hpackage] at hsingle
    exact hsingle
  have hzero : start.package.size = 0 := rfl
  obtain rfl : n = 1 := by omega
  obtain rfl := eq_of_rounds_statements hrest
  refine ⟨v, hstatement, hvclean, hend, ?_⟩
  rw [hpackage]
  rfl

theorem Stands.exists_statement (hmax : settings.maxErrors = none)
    (h : Stands frames settings sourceName text p) :
    ∃ t, statement (State.ofText frames settings sourceName text).begun = .ok () t ∧
      t.collector.received = 0 ∧ t.cursor.current.kind = .endOfInput ∧
      p = { t.package with location := p.location } := by
  obtain ⟨r, hr, hclean, rfl⟩ := h.parsed
  exact exists_sole_statement hmax hr hclean h.single h.fence

theorem Stands.ne_package (h : Stands frames settings sourceName text p) :
    (State.ofText frames settings sourceName text).begun.cursor.current.kind ≠
      .keyword .package := by
  obtain ⟨t, ht, hfence⟩ := h.fence
  have hcurrent : (State.ofText frames settings sourceName text).begun.cursor.current = t :=
    current_ofText frames sourceName ht
  rw [hcurrent]
  exact fun heq => absurd (heq ▸ hfence) (by decide)

end Stands

/-! ### Reports after a token -/

theorem Collector.Extends.errors_eq {c d : Collector} (h : c.Extends d)
    (hr : d.received = c.received) : d.errors = c.errors := by
  have hle := h.errors.length_le
  have hle' := h.suppressed
  unfold received at hr
  exact (h.errors.eq_of_length (by omega)).symm

namespace Parser

variable {s t u : State}

/-- What was heard outside of trials; without complaint the cursor stayed, or a token matched, so
that the next error is not suppressed. -/
structure State.Wakes (s t : State) : Prop extends s.Heard t where
  wakes : t.collector.received = s.collector.received →
    t.cursor.index = s.cursor.index ∨ t.collector.recovering = false

namespace State.Wakes

theorem of_heard (h : s.Wakes t) (htu : t.Heard u) (hindex : u.cursor.index = t.cursor.index) :
    s.Wakes u := by
  refine ⟨h.toHeard.trans htu, fun heq => ?_⟩
  have hle := h.received_le
  have hle' := htu.received_le
  rcases h.wakes (by omega) with hstays | hmatched
  · exact .inl (hindex.trans hstays)
  · refine .inr ?_
    rcases htu.collector (by omega) with hc | hc <;> rw [hc]
    · exact hmatched
    · rfl

theorem of_complaint (h : s.Wakes t) (htrials : u.trials = 0)
    (hlt : t.collector.received < u.collector.received) : s.Wakes u :=
  ⟨h.toHeard.trans (.of_lt htrials hlt), fun heq => by
    have hle := h.received_le
    omega⟩

theorem invariant (s : State) : StateInvariant s.Wakes where
  advanced {t} h := by
    refine ⟨h.toHeard.trans (.advanced h.trials), fun _ => .inr ?_⟩
    rw [show t.advanced.collector = t.collector.tokenMatched from if_pos h.trials]
    rfl
  showing h := h.of_heard (.of_eq h.trials rfl rfl rfl) rfl
  popTrivia {t} h :=
    h.of_heard ((State.Heard.invariant t).popTrivia (.refl h.trials)) (index_popTrivia t)
  relabelled name events h := h.of_heard (.of_eq h.trials rfl rfl rfl) rfl
  stacked stack h := h.of_heard (.of_eq h.trials rfl rfl rfl) rfl
  declared f h := h.of_heard (.of_eq h.trials rfl rfl rfl) rfl
  report {t} e h := by
    have htrials := h.trials
    rw [after_of_ok (report_eq e t), if_neg (by omega)]
    exact h.of_complaint h.trials (received_reported t e)
  remark {t} message token h := by
    have htrials := h.trials
    rw [after_of_ok (remark_eq message token t), if_neg (by omega)]
    exact h.of_complaint h.trials (received_remarked t message token)
  recover {t} e kinds h := by
    rw [after_recover h.trials]
    exact h.of_complaint h.trials (received_reported t e)
  dropDeepStatement {t} h := by
    rw [after_dropDeepStatement]
    exact h.of_complaint rfl (received_dropped t.cleared)

end State.Wakes

/-- Outside of trials, what moves on without complaint has matched a token, so that the next error
is not suppressed. -/
theorem Composed.not_recovering {α : Type} {p : Parser α} [Composed p] {a : α} (hs : s.trials = 0)
    (h : p s = .ok a t) (hclean : t.collector.received = s.collector.received)
    (hmoves : t.cursor.index ≠ s.cursor.index) : t.collector.recovering = false := by
  have hwakes :=
    (State.Wakes.invariant s).composed (p := p) inferInstance ⟨.refl hs, fun _ => .inl rfl⟩
  rw [after_of_ok h] at hwakes
  exact (hwakes.wakes hclean).resolve_left hmoves

/-! ### Garbage -/

def strayError (token : Token) : ParseError := .noViableAlternative "statement" token

/-- What is recorded of garbage that begins with this token. -/
def strayDiagnostic (sourceName : String) (token : Token) : Diagnostic :=
  .ofToken (strayError token).kind sourceName (strayError token).message (some token) none

theorem statement_of_stray (h : s.cursor.current.kind ∉ statementStart) :
    statement s = .error (.recognition (strayError s.cursor.current)) s := by
  unfold statement
  rw [bind_of_ok (current_eq s)]
  refine congrFun (g := (fail (strayError s.cursor.current) : Parser Unit)) ?_ s
  generalize s.cursor.current.kind = kind at h
  split
  all_goals first
    | rfl
    | exact absurd (by decide) h

theorem ahead_skipUntil {kinds : List TokenKind} {c : Cursor} {ts us : List Token} (n : Nat)
    (hc : c.triviaVisible = false) (hplain : ∀ t ∈ c.front.toList, t.kind ≠ .endOfInput)
    (hahead : c.ahead = ts ++ us) (hts : ∀ t ∈ ts, t.kind ∉ kinds)
    (hus : ∀ t ∈ us.head?, t.kind ∈ kinds) : (c.skipUntil kinds n).1.ahead = us := by
  have hlive : ∀ {t : Token} {r : List Token}, c.ahead = t :: r → c.current = t ∧
      t.kind ≠ .endOfInput := by
    intro t r hr
    have hmem : t ∈ c.ahead := hr ▸ List.mem_cons_self
    refine ⟨by rw [Cursor.current_of_hidden hc, hr]; rfl, ?_⟩
    exact hplain t (Cursor.mem_front_of_mem_ahead hmem)
  rw [Cursor.skipUntil]
  cases ts with
  | nil =>
    rw [List.nil_append] at hahead
    by_cases hend : c.current.kind = .endOfInput
    · rw [if_pos hend]
      exact hahead
    · cases us with
      | nil => exact absurd hahead (Cursor.ahead_ne_nil_of_current hc hend)
      | cons u us =>
        rw [if_neg hend, if_pos]
        · exact hahead
        · rw [(hlive hahead).1]
          exact hus u rfl
  | cons t ts =>
    obtain ⟨hcurrent, hend⟩ := hlive hahead
    rw [if_neg (hcurrent ▸ hend), if_neg (hcurrent ▸ hts t List.mem_cons_self)]
    refine ahead_skipUntil (n + 1) ((Cursor.triviaVisible_consume c).trans hc) ?_ ?_
      (fun t ht => hts t (List.mem_cons_of_mem _ ht)) hus
    · rw [Cursor.front_consume]
      exact hplain
    · rw [Cursor.ahead_consume hc (hcurrent ▸ hend), List.cons_append, List.cons.injEq] at hahead
      exact hahead.2
termination_by ts

end Parser

/-! ### Another text behind a statement -/

section Continued

variable {hashComments : Bool} {source text : String} {x y z r : List Token} {c : Token}

/-- A text that begins as another one does, up to a delimiter, and goes on with what is left of a
third one. -/
theorem exists_continued (hsource : tokens hashComments source = (y ++ [c]) ++ z)
    (hc : c.kind ∈ closerKinds) (htext : tokens hashComments text = x ++ r) :
    ∃ whole ks ms ns behind, ks.length = y.length + 1 ∧
      lexemes hashComments source.toList = ks ++ ms ∧
      lexemes hashComments whole.toList = ks ++ ns ∧
      tokens hashComments whole = (y ++ [c]) ++ behind ∧
      (visible behind).map Token.shape = (visible r).map Token.shape := by
  obtain ⟨ks, ms, hks, hbase, -⟩ := located_eq_append hsource
  have hletters : lexemes hashComments (letters ks) = ks :=
    @lexemes_between hashComments source.toList [] ks ms hks
  have hended : ∀ l, (lexemes hashComments (letters ks)).getLast? = some l →
      Lexeme.Ended '\n' l := by
    intro l hl
    rw [hletters] at hl
    obtain ⟨t, ht, hkind, -⟩ := getLast?_located (p := {}) hl
    rw [← hbase, List.getLast?_concat] at ht
    cases ht
    rw [hkind] at hc
    refine .of_kind ?_ fun heq => absurd (heq ▸ hc) (by decide)
    have hvisible : ∀ k ∈ closerKinds, k.isTrivia = false := by decide
    exact hvisible _ hc
  let ns := lexemes hashComments ('\n' :: (spell r).toList)
  have hwhole :
      lexemes hashComments (String.ofList (letters ks ++ '\n' :: (spell r).toList)).toList =
      ks ++ ns := by
    rw [String.toList_ofList, lexemes_divided (by decide) _ hended, hletters]
  refine ⟨_, ks, ms, ns, located (Position.advance {} (letters ks)) ns, ?_, hks, hwhole, ?_, ?_⟩
  · rw [← length_located {} ks, ← hbase, List.length_append, List.length_singleton]
  · rw [tokens, hwhole, located_append, hbase]
  · have hshape := @shape_spell hashComments text x r [] (by rw [htext, List.append_nil])
    rw [← hshape, tokens, shape_located, shape_located]
    refine congrArg _ ?_
    show (lexemes hashComments ('\n' :: (spell r).toList)).filter _ = _
    rw [← lexemes_dropWhile, List.dropWhile_cons_of_pos (by decide), lexemes_dropWhile]

end Continued

theorem exists_of_getLast? {ts : List Token} {c : Token} (h : (visible ts).getLast? = some c) :
    ∃ y z, ts = y ++ c :: z ∧ visible z = [] ∧ c.isTrivia = false := by
  obtain ⟨y, c', z, rfl, hz, hc⟩ := @exists_last_visible ts fun hnil => by
    rw [hnil] at h
    cases h
  rw [visible_append, visible_cons_of_not_trivia hc, hz, List.getLast?_concat] at h
  cases h
  exact ⟨y, z, rfl, hz, hc⟩

theorem Cursor.Lands.last {c d : Cursor} {y z : List Token} {a : Token} (h : c.Lands d)
    (hsize : d.index ≤ d.front.size) (hend : d.ahead = []) (hfront : d.front.toList = y ++ a :: z)
    (ha : a.isTrivia = false) (hz : visible z = []) :
    d.index = y.length + 1 ∧ d.previous = some a := by
  have hindex : d.index = y.length + 1 := by
    refine Nat.le_antisymm (Nat.le_of_not_lt fun hlt => ?_) (Nat.lt_of_not_le fun hle => ?_)
    · -- what it landed behind would be trivia
      obtain ⟨i, hi⟩ := Nat.exists_eq_add_of_lt hlt
      have hget : d.front.toList[d.index - 1]? = z[i]? := by
        rw [hfront, List.getElem?_append_right (by omega),
          show d.index - 1 - y.length = i + 1 by omega, List.getElem?_cons_succ]
      have hlt' : d.index - 1 < d.front.size := by omega
      have hmem : d.tokenAt (d.index - 1) ∈ z := by
        rw [Cursor.tokenAt_of_lt hlt']
        rw [Array.getElem?_toList, Array.getElem?_eq_getElem hlt'] at hget
        exact List.mem_of_getElem? hget.symm
      have htrivia := List.filter_eq_nil_iff.1 hz _ hmem
      rw [h.2] at htrivia
      exact htrivia rfl
    · have hmem : a ∈ d.ahead := by
        refine List.mem_filter.2 ⟨?_, by rw [ha]; rfl⟩
        show a ∈ d.front.toList.drop d.index
        rw [hfront, List.drop_append_of_le_length hle]
        exact List.mem_append_right _ List.mem_cons_self
      rw [hend] at hmem
      cases hmem
  refine ⟨hindex, ?_⟩
  rw [Cursor.previous_eq hsize, hfront, hindex, List.append_cons,
    List.take_left' (by rw [List.length_append, List.length_singleton]), visible_append,
    visible_cons_of_not_trivia ha, visible_nil, List.getLast?_concat]

/-- What is left of what was ahead is known by its words. -/
theorem Cursor.ahead_eq_of_shape {c d : Cursor} {ts us : List Token} (hfront : d.front = c.front)
    (hle : c.index ≤ d.index) (hahead : c.ahead = ts ++ us)
    (hshape : d.ahead.map Token.shape = us.map Token.shape) : d.ahead = us := by
  have hlength : d.ahead.length = us.length := by
    have hmapped := congrArg List.length hshape
    rwa [List.length_map, List.length_map] at hmapped
  have hsuffix := Cursor.ahead_suffix hfront hle
  rw [hahead] at hsuffix
  exact (List.suffix_of_suffix_length_le hsuffix (List.suffix_append _ _)
    (Nat.le_of_eq hlength)).eq_of_length hlength

/-! ### From one statement to the next -/

/-- A stretch of a text: a statement and the garbage behind it. -/
structure Segment where
  /-- The statement as a text of its own. -/
  source : String
  /-- What that text declares. -/
  declared : Package
  /-- The tokens of the statement in the whole text. -/
  statement : List Token
  garbage : List Token

/-- The statement is read alone in a text with the same tokens. The garbage holds no keyword of a
statement and does not go on with the statement. -/
structure Segment.Sound (frames : Nat) (settings : Settings) (sourceName : String) (g : Segment) :
    Prop where
  stands : Stands frames settings sourceName g.source g.declared
  same : (visible (tokens settings.hashComments g.source)).map Token.shape =
    g.statement.map Token.shape
  stray : ∀ t ∈ g.garbage, t.kind ∉ statementStart
  severed : ∀ t ∈ g.garbage.head?, t.kind ∉ [.symbol .semicolon, .symbol .dot]

namespace Parser

/-- A state of the parse of a text between two statements: what was declared is like `p`, and what
was reported, remarks on semicolons aside, is garbage that begins with the tokens `strays`. -/
structure Interim (frames : Nat) (settings : Settings) (sourceName text : String) (p : Package)
    (strays : List Token) (s : State) : Prop extends Balanced text False s where
  stack : s.stack = .ofFrames frames
  cursor : s.cursor = (Cursor.ofTokens (scan text settings.hashComments) text).rewind s.cursor.index
  index_le : s.cursor.index ≤ (Cursor.ofTokens (scan text settings.hashComments) text).front.size
  stale : ∀ k ∈ s.lastRecovery, k < s.cursor.index
  source : s.collector.sourceName = sourceName
  plain : p.attributes = []
  package : s.package.Like (respaced settings.hashComments) p
  strays_eq : (respaced settings.hashComments).kept s.collector.errors =
    strays.map (strayDiagnostic sourceName)

variable {settings : Settings} {sourceName text whole : String} {p q : Package}
  {strays us : List Token}
  {s u : State}

namespace Interim

theorem exists_tokens (h : Interim frames settings sourceName text p strays s) :
    ∃ x, tokens settings.hashComments text = x ++ s.cursor.rest := by
  refine ⟨(tokens settings.hashComments text).take s.cursor.index, ?_⟩
  rw [h.cursor, ofTokens_eq]
  exact (List.take_append_drop ..).symm

theorem ne_endOfInput (h : Interim frames settings sourceName text p strays s) :
    ∀ t ∈ s.cursor.front.toList, t.kind ≠ .endOfInput := by
  rw [h.cursor]
  exact (faithful_scan text).plain

/-- A statement read again from the beginning of another text. -/
def restart (frames : Nat) (settings : Settings) (sourceName whole : String) (p : Package)
    (s : State) : State :=
  { (State.ofText frames settings sourceName whole).begun with
    collector := s.collector, package := p }

theorem strays_like (strays : List Token) :
    List.Forall₂ (Diagnostic.Like (respaced settings.hashComments))
    (strays.map (strayDiagnostic sourceName)) (strays.map (strayDiagnostic sourceName)) := by
  induction strays with
  | nil => exact .nil
  | cons t ts ih =>
    exact .cons (.ofToken (like_respaced_iff.2 rfl) _ _ _ _) ih

theorem abreast_restart (h : Interim frames settings sourceName text p strays s)
    (hsame : (visible s.cursor.rest).map Token.shape =
      (visible (tokens settings.hashComments whole)).map Token.shape) :
    (Readings.respaced settings.hashComments text whole).Abreast s
      (restart frames settings sourceName whole p s) := by
  have hleft : LeftAlike settings.hashComments text whole s.cursor.rest
      (restart frames settings sourceName whole p s).cursor.rest := by
    obtain ⟨x, hx⟩ := h.exists_tokens
    have hrest : (restart frames settings sourceName whole p s).cursor.rest = _ :=
      rest_ofText frames settings sourceName whole
    rw [hrest]
    exact ⟨x, [], hx, rfl, hsame⟩
  refine
    { first := h.cursor
      second := rfl
      first_le := h.index_le
      second_le := ?_
      left := hleft
      after := fun _ => hleft
      previous := .inr ⟨previous_ofText frames settings sourceName whole, fun _ _ => trivial⟩
      trials := h.trials
      stack := h.stack
      ruleName := h.ruleName
      package := h.package
      recovered := ⟨?_, ?_, fun _ hk => by cases hk⟩
      reported := ⟨rfl, h.ledger.uncapped, h.ledger.uncapped, rfl, ?_⟩
      clean := fun hcut => hcut.elim }
  · show (State.ofText frames settings sourceName whole).cursor.index ≤ _
    rw [index_ofText]
    exact Nat.zero_le _
  · refine ⟨fun hhere => absurd (h.stale _ hhere) (Nat.lt_irrefl _), fun hhere => by cases hhere⟩
  · exact fun k hk => Nat.le_of_lt (h.stale k hk)
  · show List.Forall₂ _ ((respaced settings.hashComments).kept s.collector.errors)
      ((respaced settings.hashComments).kept s.collector.errors)
    rw [h.strays_eq]
    exact strays_like strays

theorem kind_of_same {c : Cursor} (hc : c.triviaVisible = false)
    (hshape : c.ahead.map Token.shape = us.map Token.shape) :
    us = [] ∧ c.current.kind = .endOfInput ∨ ∃ t ∈ us.head?, c.current.kind = t.kind := by
  cases us with
  | nil =>
    exact .inl
      ⟨rfl, congrArg Token.kind (Cursor.current_of_ahead_eq_nil hc (List.map_eq_nil_iff.1 hshape))⟩
  | cons t us =>
    obtain ⟨a, as, ha, hat, -⟩ := List.map_eq_cons_iff.1 hshape
    refine .inr ⟨t, rfl, ?_⟩
    rw [Cursor.current_of_hidden hc, ha]
    exact congrArg Prod.fst hat

theorem exists_visible_append {ts xs ys : List Token} (h : visible ts = xs ++ ys) :
    ∃ w r, ts = w ++ r ∧ visible w = xs ∧ visible r = ys :=
  List.filter_eq_append_iff.1 h

theorem ends_behind_closer {source : String} {y z : List Token} {c : Token} {a : State}
    (ha : statement (State.ofText frames settings sourceName source).begun = .ok () a)
    (hclean : a.collector.received = 0) (hend : a.cursor.current.kind = .endOfInput)
    (hsource : tokens settings.hashComments source = y ++ c :: z) (hc : c.isTrivia = false)
    (hz : visible z = []) : a.cursor.index = y.length + 1 ∧ a.cursor.previous = some c := by
  let start := (State.ofText frames settings sourceName source).begun
  have hidle : Idle start := (idle_ofText frames settings sourceName source).begun
  have hst := Orderly.evolves_ok statement ha
  have hwithin := Composed.within (p := statement) inferInstance (s := start)
    ⟨rfl, by
      rw [show start.cursor.index = 0 from index_ofText frames settings sourceName source]
      exact Nat.zero_le _⟩
  rw [after_of_ok ha] at hwithin
  have hfront : a.cursor.front.toList = y ++ c :: z := by
    rw [hst.front, ← hsource]
    exact front_ofText frames settings sourceName source
  have hahead : a.cursor.ahead = [] := Cursor.ahead_eq_nil_of_end (hidle.evolves hst).hidden
    (hst.front ▸ (faithful_scan source).plain) hend
  have hlands :=
    (Tokenwise.moves hidle.hidden ha hclean).resolve_left (Tokenwise.cursor_ne statement ha)
  exact hlands.last (hwithin.front ▸ hwithin.index) hahead hfront hc hz

theorem ahead_of_front {d : Cursor} {xs behind : List Token}
    (hfront : d.front.toList = xs ++ behind) (hindex : d.index = xs.length) :
    d.ahead = visible behind := by
  rw [Cursor.ahead, Cursor.rest, hfront, hindex, List.drop_left]

theorem uncontinued_of_same {k : Nat} {a t : State} (ht : t.cursor.triviaVisible = false)
    (hshape : (t.cursor.rewind a.cursor.index).ahead.map Token.shape = us.map Token.shape)
    (hus : ∀ t ∈ us.head?, t.kind ∉ [TokenKind.symbol .semicolon, .symbol .dot]) :
    Uncontinued Trails k a t := by
  intro _ htrails
  rcases kind_of_same (c := t.cursor.rewind a.cursor.index) ht hshape with
    ⟨-, hkind⟩ | ⟨u, hu, hkind⟩
  · rw [hkind] at htrails
    cases List.mem_cons.1 htrails with
    | inl h => cases h
    | inr h => simp at h
  · rw [hkind] at htrails
    exact hus u hu htrails

/-- The statement that is next is read again in a text of its own that goes on as the whole text
does, and declares there what it declares alone. -/
theorem exists_restarted (hmax : settings.maxErrors = none)
    (h : Interim frames settings sourceName text p strays s) {g : Segment}
    (hg : g.Sound frames settings sourceName) (hahead : s.cursor.ahead = g.statement ++ us)
    (hus : ∀ t ∈ us.head?, t.kind ∉ [TokenKind.symbol .semicolon, .symbol .dot]) :
    ∃ whole v, (visible s.cursor.rest).map Token.shape =
        (visible (tokens settings.hashComments whole)).map Token.shape ∧
      statement (restart frames settings sourceName whole p s) = .ok () v ∧
      v.collector.received = s.collector.received ∧ v.package = p ++ g.declared ∧
      v.cursor.ahead.map Token.shape = us.map Token.shape ∧ v.cursor.index ≠ 0 := by
  obtain ⟨a, ha, hclean, hend, hdeclared⟩ := hg.stands.exists_statement hmax
  let start := (State.ofText frames settings sourceName g.source).begun
  obtain ⟨c, hlast, hc⟩ := hg.stands.closer
  obtain ⟨y, z, hsource, hz, hvisible⟩ := exists_of_getLast? hlast
  obtain ⟨hindex, hprevious⟩ := ends_behind_closer ha hclean hend hsource hvisible hz
  -- what is left of the whole text behind the statement
  obtain ⟨x, hx⟩ := h.exists_tokens
  obtain ⟨w, r, hrest, hw, hr⟩ := exists_visible_append hahead
  obtain ⟨whole, ks, ms, ns, behind, hlength, hls, hlw, hwhole, hbehind⟩ :=
    exists_continued (x := x ++ w) (by rw [hsource, List.append_cons]) hc
      (by rw [hx, hrest, List.append_assoc])
  let t := restart frames settings sourceName whole p s
  have halong : start.Alongside ks.length t := ⟨alongside_ofTokens hls hlw, hidden_scan _, rfl, rfl⟩
  have hfront : t.cursor.front.toList = (y ++ [c]) ++ behind := by
    show (Cursor.ofTokens _ _).front.toList = _
    rw [ofTokens_eq, ← hwhole]
  have hleft : ∀ d : Cursor, d.front = t.cursor.front → d.index = y.length + 1 →
      d.ahead.map Token.shape = us.map Token.shape := by
    intro d hd hdindex
    rw [ahead_of_front (hd ▸ hfront) (by rw [hdindex, List.length_append, List.length_singleton]),
      hbehind, hr]
  obtain ⟨v, hv, hav, hvclean, d, had, hvd⟩ :=
    (statement_again halong rfl (h.plain ▸ rfl) hg.stands.ne_package).again ha hclean
      ⟨c, hprevious, hc⟩ (by rw [hindex, hlength])
      (uncontinued_of_same (hidden_scan _) (hleft _ rfl hindex) hus)
  have hvt := Orderly.evolves_ok statement hv
  refine ⟨whole, v, ?_, hv, hvclean, ?_, hleft _ hvt.front (hav.cursor.index ▸ hindex), ?_⟩
  · have hwords := hg.same
    rw [hsource, visible_append, visible_cons_of_not_trivia hvisible, hz] at hwords
    rw [hrest, hwhole, visible_append, visible_append, List.map_append, List.map_append,
      hw, hbehind, ← hwords, visible_append, visible_cons_of_not_trivia hvisible]
    rfl
  · have hd : (p ++ d : Package) = p ++ (start.package ++ d) := rfl
    rw [hvd, hdeclared, had]
    exact hd
  · rw [← hav.cursor.index, hindex]
    exact Nat.succ_ne_zero _

/-- One statement: it is read, it declares what it declares alone, and nothing but remarks is
reported. -/
theorem statement (hmax : settings.maxErrors = none)
    (h : Interim frames settings sourceName text p strays s) {g : Segment}
    (hg : g.Sound frames settings sourceName) (hahead : s.cursor.ahead = g.statement ++ us)
    (hus : ∀ t ∈ us.head?, t.kind ∉ [TokenKind.symbol .semicolon, .symbol .dot]) :
    ∃ u, statementOrRecovery s = .ok () u ∧
      Interim frames settings sourceName text (p ++ g.declared) strays u ∧ u.cursor.ahead = us ∧
      u.collector.recovering = false := by
  obtain ⟨whole, v, hsame, hv, hclean, hpackage, hshape, hindex⟩ :=
    h.exists_restarted hmax hg hahead hus
  have hst := h.abreast_restart hsame
  have hlive := hst.live_or_cut.resolve_right fun hcut => hcut.1
  have hvs := Orderly.evolves_ok Parser.statement hv
  have hheard := Composed.heard (p := Parser.statement) inferInstance
    (s := restart frames settings sourceName whole p s) rfl
  rw [after_of_ok hv] at hheard
  have hfresh : v.lastRecovery = none := hheard.lastRecovery hclean
  have hmatched := Composed.not_recovering (p := Parser.statement) rfl hv hclean fun heq => hindex
    (heq.trans (index_ofText frames settings sourceName whole))
  have herrors := hvs.collector.errors_eq hclean
  cases LiveTwin.statement hst hlive with
  | astray hcut _ => exact hcut.elim
  | error _ hy => rw [hv] at hy; cases hy
  | @ok _ _ u _ hx hy _ huv =>
    obtain ⟨-, rfl⟩ := EStateM.Result.ok.inj (hv.symm.trans hy)
    have hsu := Orderly.evolves_ok Parser.statement hx
    refine ⟨u, statementOrRecovery_of_ok hx,
      { h.toBalanced.of_ok (Sustains.from_ h.before) hx with
        stack := hsu.stack.trans h.stack
        cursor := huv.first
        index_le := huv.first_le
        stale := fun k hk => ?_
        source := huv.reported.sourceName.trans (hvs.collector.sourceName.trans h.source)
        plain := h.plain
        package := hpackage ▸ huv.package
        strays_eq := ?_ }, ?_, huv.reported.recovering.trans hmatched⟩
    · refine Nat.lt_of_le_of_ne (huv.recovered.first_le k hk) fun heq => ?_
      have hhere := huv.recovered.here.1 (heq ▸ hk)
      rw [hfresh] at hhere
      cases hhere
    · rw [← h.strays_eq]
      refine ((hsu.collector.errors.filter _).eq_of_length ?_).symm
      have hlength := huv.reported.errors.length_eq
      rw [herrors] at hlength
      exact hlength.symm
    · obtain ⟨-, -, -, -, hleft⟩ := huv.left
      exact Cursor.ahead_eq_of_shape hsu.front hsu.index hahead (hleft.trans hshape)

/-- Recovery begins where the garbage was met, as none has begun there before. -/
theorem recoveryStart_reported (h : Interim frames settings sourceName text p strays s)
    (e : ParseError) : (s.reported e).recoveryStart = s.cursor :=
  if_neg fun hhere => Nat.lt_irrefl _ (h.stale _ hhere)

theorem kept_report (h : Interim frames settings sourceName text p strays s)
    (hmatched : s.collector.recovering = false) (t : Token) :
    (respaced settings.hashComments).kept (s.collector.report (strayError t) s.ruleName).errors =
      (strays ++ [t]).map (strayDiagnostic sourceName) := by
  have hreport : (s.collector.report (strayError t) s.ruleName).errors =
      s.collector.errors ++ [strayDiagnostic sourceName t] := by
    rw [Collector.report_of_uncapped h.ledger.uncapped hmatched, h.source, h.ruleName]
    rfl
  rw [hreport, Likeness.kept, List.filter_append, List.map_append, ← h.strays_eq]
  rfl

theorem garbage (h : Interim frames settings sourceName text p strays s) {t : Token}
    {ts : List Token} (hahead : s.cursor.ahead = (t :: ts) ++ us)
    (hstray : ∀ t' ∈ t :: ts, t'.kind ∉ statementStart)
    (hus : ∀ u ∈ us.head?, u.kind ∈ statementStart) (hmatched : s.collector.recovering = false) :
    ∃ u, statementOrRecovery s = .ok () u ∧
      Interim frames settings sourceName text p (strays ++ [t]) u ∧ u.cursor.ahead = us := by
  have hcurrent : s.cursor.current = t := by
    rw [Cursor.current_of_hidden h.hidden, hahead]
    rfl
  have hfail := statement_of_stray (s := s) (hcurrent ▸ hstray t List.mem_cons_self)
  have hrun := statementOrRecovery_of_recognition hfail h.trials
  rw [hcurrent] at hrun
  let u := (s.reported (strayError t)).recovered statementStart
  have hsu : s.Evolves u := (Orderly.evolves_reported (strayError t) h.trials).trans
    (Orderly.evolves_recovered statementStart (s := s.reported (strayError t)) h.trials)
  have hstart := h.recoveryStart_reported (strayError t)
  have hcursor : u.cursor = (s.cursor.skipUntil statementStart 0).1 := by
    rw [← hstart]
    rfl
  have hskipped : u.cursor.ahead = us :=
    hcursor ▸ ahead_skipUntil 0 h.hidden h.ne_endOfInput hahead hstray hus
  have hmoved : s.cursor.index < u.cursor.index := by
    refine Nat.lt_of_le_of_ne hsu.index fun heq => ?_
    have hsuffix := (Cursor.ahead_suffix hsu.front.symm (Nat.le_of_eq heq.symm)).length_le
    rw [hskipped, hahead, List.length_append, List.length_cons] at hsuffix
    omega
  refine ⟨u, hrun,
    { h.toBalanced.recovered (hcurrent ▸ ⟨rfl, rfl⟩) statementStart with
      stack := hsu.stack.trans h.stack
      cursor := ?_
      index_le := ?_
      stale := fun k hk => ?_
      source := hsu.collector.sourceName.trans h.source
      plain := h.plain
      package := h.package
      strays_eq := h.kept_report hmatched t }, hskipped⟩
  · have heq := hsu.cursor
    rw [h.cursor] at heq
    exact heq
  · have hle := Cursor.index_skipUntil_le statementStart (c := s.cursor) 0
      (by rw [h.cursor]; exact h.index_le)
    rw [hcursor]
    rw [h.cursor] at hle ⊢
    exact hle
  · obtain rfl :=
      Option.some.inj ((show some (s.reported (strayError t)).recoveryStart.index = some k from hk))
    rw [hstart]
    exact hmoved

end Interim

theorem Reaches.round {k m : Nat} {v : State} (hs : s.cursor.triviaVisible = false)
    (hahead : s.cursor.ahead ≠ []) (hplain : ∀ t ∈ s.cursor.front.toList, t.kind ≠ .endOfInput)
    (h : statementOrRecovery s = .ok () u)
    (hrest : Reaches unfinished anotherStatement (k + 1) u m v) :
    Reaches unfinished anotherStatement k s m v := by
  have hkind : s.cursor.current.kind ≠ .endOfInput := by
    rw [Cursor.current_of_hidden hs]
    cases hts : s.cursor.ahead with
    | nil => exact absurd hts hahead
    | cons t ts =>
      have hmem : t ∈ s.cursor.ahead := hts ▸ List.mem_cons_self
      exact hplain t (Cursor.mem_front_of_mem_ahead hmem)
  have hmore : unfinished k s = .ok true s := congrArg (EStateM.Result.ok · s) (by simp [hkind])
  have hbody : anotherStatement k s = .ok (k + 1) u := (bind_of_ok h).trans rfl
  obtain ⟨j, hj⟩ := hrest
  refine ⟨j + 1, fun n => ?_⟩
  rw [← Nat.add_assoc, Turns.rounds_succ hmore, if_pos rfl, bind_of_ok hbody]
  exact hj n

end Parser

namespace Segment

/-- The tokens of a text that consists of segments. -/
def words (segments : List Segment) : List Token :=
  segments.flatMap fun g => g.statement ++ g.garbage

/-- What a text declares that consists of segments. -/
def declarations (segments : List Segment) : Package :=
  segments.foldl (fun p g => p ++ g.declared) {}

/-- The first tokens of the stretches of garbage. -/
def strays (segments : List Segment) : List Token := segments.filterMap (·.garbage.head?)

theorem strays_cons (g : Segment) (segments : List Segment) :
    strays (g :: segments) = g.garbage.head?.toList ++ strays segments := by
  rw [strays, strays, List.filterMap_cons]
  cases g.garbage.head? <;> rfl

variable {settings : Settings} {sourceName text : String} {g : Segment} {segments : List Segment}

theorem Sound.head (h : g.Sound frames settings sourceName) :
    ∃ t, g.statement.head? = some t ∧ t.kind ∈ fenceKinds := by
  obtain ⟨t, ht, hk⟩ := h.stands.fence
  have hshape := congrArg List.head? h.same
  rw [List.head?_map, List.head?_map, ht] at hshape
  obtain ⟨t', ht', hkind⟩ := Option.map_eq_some_iff.1 hshape.symm
  have hsame : t'.kind = t.kind := congrArg Prod.fst hkind
  exact ⟨t', ht', hsame ▸ hk⟩

theorem head_words (h : ∀ g ∈ segments, g.Sound frames settings sourceName) :
    ∀ t ∈ (words segments).head?, t.kind ∈ fenceKinds := by
  intro t ht
  cases segments with
  | nil => cases ht
  | cons g segments =>
    obtain ⟨t', ht', hk⟩ := (h g List.mem_cons_self).head
    obtain ⟨ts, hts⟩ := List.head?_eq_some_iff.1 ht'
    rw [words, List.flatMap_cons, hts] at ht
    cases ht
    exact hk

end Segment

namespace Parser

variable {settings : Settings} {sourceName text : String} {p : Package} {strays : List Token}
  {s : State}
  {segments : List Segment}

/-- One segment: the statement declares what it declares alone, and the garbage behind it is
reported once, if there is any. -/
theorem Interim.segment (hmax : settings.maxErrors = none)
    (h : Interim frames settings sourceName text p strays s) {g : Segment}
    (hg : g.Sound frames settings sourceName) {us : List Token}
    (hahead : s.cursor.ahead = g.statement ++ (g.garbage ++ us))
    (hus : ∀ t ∈ us.head?, t.kind ∈ fenceKinds) (k : Nat) :
    ∃ m u, k < m ∧ Reaches unfinished anotherStatement k s m u ∧
      Interim frames settings sourceName text (p ++ g.declared)
        (strays ++ g.garbage.head?.toList) u ∧
      u.cursor.ahead = us := by
  have hne : s.cursor.ahead ≠ [] := by
    obtain ⟨t, ht, -⟩ := hg.head
    obtain ⟨ts, hts⟩ := List.head?_eq_some_iff.1 ht
    rw [hahead, hts]
    exact List.cons_ne_nil _ _
  cases hgarbage : g.garbage with
  | nil =>
    rw [hgarbage, List.nil_append] at hahead
    obtain ⟨u, hu, hinterim, hrest, -⟩ := h.statement hmax hg hahead fun t ht hmem => by
      have hdisjoint : ∀ k ∈ fenceKinds, k ∉ [TokenKind.symbol .semicolon, .symbol .dot] := by
        decide
      exact hdisjoint _ (hus t ht) hmem
    refine ⟨k + 1, u, Nat.lt_succ_self k, .round h.hidden hne h.ne_endOfInput hu ⟨0, fun n => rfl⟩,
      ?_, hrest⟩
    rw [List.head?_nil, Option.toList_none, List.append_nil]
    exact hinterim
  | cons t ts =>
    have hsevered :
        ∀ t' ∈ (g.garbage ++ us).head?, t'.kind ∉ [TokenKind.symbol .semicolon, .symbol .dot] := by
      rw [hgarbage]
      intro t' ht'
      exact hg.severed t' (by rw [hgarbage]; exact ht')
    obtain ⟨u, hu, hinterim, hrest, hmatched⟩ := h.statement hmax hg hahead hsevered
    rw [hgarbage] at hrest
    obtain ⟨w, hw, hinterim', hrest'⟩ := hinterim.garbage hrest (hgarbage ▸ hg.stray)
      (fun t' ht' => by
        have hsubset : ∀ k ∈ fenceKinds, k ∈ statementStart := by decide
        exact hsubset _ (hus t' ht')) hmatched
    have hlast : Reaches unfinished anotherStatement (k + 1) u (k + 1 + 1) w :=
      .round hinterim.hidden (by rw [hrest]; exact List.cons_ne_nil _ _) hinterim.ne_endOfInput hw
        ⟨0, fun n => rfl⟩
    exact ⟨k + 1 + 1, w, by omega, .round h.hidden hne h.ne_endOfInput hu hlast, hinterim', hrest'⟩

/-- Segment by segment: the statements declare what they declare alone, and each stretch of garbage
is reported once. -/
theorem Interim.all_segments (hmax : settings.maxErrors = none)
    (h : Interim frames settings sourceName text p strays s)
    (hsound : ∀ g ∈ segments, g.Sound frames settings sourceName)
    (hahead : s.cursor.ahead = Segment.words segments) (k : Nat) :
    ∃ m u, k + segments.length ≤ m ∧ Reaches unfinished anotherStatement k s m u ∧
      Interim frames settings sourceName text (segments.foldl (fun p g => p ++ g.declared) p)
        (strays ++ Segment.strays segments) u ∧ u.cursor.ahead = [] := by
  induction segments generalizing p strays s k with
  | nil =>
    refine ⟨k, s, Nat.le_refl _, ⟨0, fun n => rfl⟩, ?_, hahead⟩
    rw [Segment.strays, List.filterMap_nil, List.append_nil]
    exact h
  | cons g segments ih =>
    have hsegments := fun g' hg' => hsound g' (List.mem_cons_of_mem g hg')
    rw [Segment.words, List.flatMap_cons, List.append_assoc] at hahead
    obtain ⟨m, u, hm, hfirst, hinterim, hrest⟩ :=
      h.segment hmax (hsound g List.mem_cons_self) hahead (Segment.head_words hsegments) k
    obtain ⟨n, v, hn, hreach, hv, hend⟩ := ih hinterim hsegments hrest m
    refine ⟨n, v, by rw [List.length_cons]; omega, hfirst.trans hreach, ?_, hend⟩
    rw [Segment.strays_cons, ← List.append_assoc]
    exact hv

theorem interim_begun (hmax : settings.maxErrors = none) :
    Interim frames settings sourceName text {} []
      (State.ofText frames settings sourceName text).begun where
  toIdle := (idle_ofText frames settings sourceName text).begun
  ledger := (balanced_ofText frames settings hmax sourceName text).ledger
  stack := rfl
  cursor := rfl
  index_le := by
    show (State.ofText frames settings sourceName text).cursor.index ≤ _
    rw [index_ofText]
    exact Nat.zero_le _
  stale _ hk := by cases hk
  source := rfl
  plain := rfl
  package :=
    have hempty : Package.Like (respaced settings.hashComments) {} {} := .empty rfl rfl rfl
    { hempty with }
  strays_eq := rfl

end Parser

/-- For every text that consists of statements and garbage between or behind them: it declares, in
order, what the statements declare alone, up to places and the spacing of embedded code, and each
stretch of garbage gives exactly one diagnostic, at its first token. All other diagnostics are
remarks on semicolons that end embedded code. -/
theorem garbage_costs_one {settings : Settings} (hmax : settings.maxErrors = none)
    {sourceName text : String} {segments : List Segment} (hne : segments ≠ [])
    (htext : visible (tokens settings.hashComments text) = Segment.words segments)
    (hsound : ∀ g ∈ segments, g.Sound frames settings sourceName) :
    ∃ r, parse frames settings sourceName text = .ok r ∧
      r.package.Like (respaced settings.hashComments) (Segment.declarations segments) ∧
      r.errors.filter (·.kind ≠ .general) =
        (Segment.strays segments).map (strayDiagnostic sourceName) ∧
      ∀ d ∈ r.errors, d.kind = .general → d.isSemicolonRemark = true := by
  let start := (State.ofText frames settings sourceName text).begun
  have hahead : start.cursor.ahead = Segment.words segments := by
    rw [← htext]
    exact congrArg visible (rest_ofText frames settings sourceName text)
  have hkind : start.cursor.current.kind ∈ fenceKinds := by
    have hhead := Segment.head_words hsound
    obtain ⟨g, segments, rfl⟩ := List.exists_cons_of_ne_nil hne
    obtain ⟨t, ht, -⟩ := (hsound g List.mem_cons_self).head
    obtain ⟨ts, hts⟩ := List.head?_eq_some_iff.1 ht
    have hfirst : (Segment.words (g :: segments)).head? = some t := by
      rw [Segment.words, List.flatMap_cons, hts]
      rfl
    have hcurrent : start.cursor.current = t := current_ofText frames sourceName (htext ▸ hfirst)
    rw [hcurrent]
    exact hhead t hfirst
  have hbegun : Interim frames settings sourceName text {} [] start := interim_begun hmax
  obtain ⟨m, u, hm, hreach, hu, hend⟩ := hbegun.all_segments hmax hsound hahead 0
  have hm' : m ≠ 0 := by
    have hpos := List.length_pos_iff.2 hne
    omega
  have hstop : unfinished m u = .ok false u := by
    have hkind := congrArg Token.kind (Cursor.current_of_ahead_eq_nil hu.hidden hend)
    exact congrArg (EStateM.Result.ok · u) (by simp [hkind, Cursor.last, Token.endOfInput])
  have hstatements : statements start = .ok m u :=
    (statements_of_reaches hbegun.toIdle hu.toIdle hreach).trans (repeatWhile_unasked hstop)
  have hunit : compilationUnit (.ofText frames settings sourceName text) =
      .ok (u.ended m).package (u.ended m) := by
    rw [compilationUnit_eq, bind_of_ok (unitHead_of_fence hkind), bind_of_ok hstatements,
      closeUnit_eq]
  unfold parse
  rw [hunit]
  refine ⟨_, rfl, ?_, ?_, ?_⟩
  · rw [ended_of_ne hm']
    exact { hu.package with }
  · rw [ended_of_ne hm']
    exact hu.strays_eq
  · rw [ended_of_ne hm']
    exact fun d hd hkind => (hu.ledger.general d hd hkind).resolve_right not_false

theorem exists_stands {settings : Settings} {sourceName text : String} {first last : Token}
    (h : (parse frames settings sourceName text).toOption.map
      (fun r => (r.errors, r.package.size)) = some ([], 1))
    (hfirst : (visible (tokens settings.hashComments text)).head? = some first)
    (hfence : first.kind ∈ fenceKinds)
    (hlast : (visible (tokens settings.hashComments text)).getLast? = some last)
    (hcloser : last.kind ∈ closerKinds) : ∃ p, Stands frames settings sourceName text p := by
  cases hparse : parse frames settings sourceName text with
  | error f => rw [hparse] at h; cases h
  | ok r =>
    rw [hparse] at h
    obtain ⟨herrors, hsize⟩ := Prod.mk.inj (Option.some.inj h)
    exact ⟨r.package, ⟨r, hparse, herrors, rfl⟩, hsize, ⟨first, hfirst, hfence⟩,
      ⟨last, hlast, hcloser⟩⟩

theorem stands_import : ∃ p, Stands 900 {} "orders" "import a.B;" p :=
  exists_stands (by decide +kernel)
    (show _ = some ⟨.keyword .import_, "import", 1, 0, 0, 6⟩ by decide +kernel)
    (by decide) (show _ = some ⟨.symbol .semicolon, ";", 1, 10, 10, 11⟩ by decide +kernel)
    (by decide)

/-- Two words between two imports. -/
theorem garbage_costs_one_between_imports :
    ∃ segments, segments ≠ [] ∧
      visible (tokens true "import a.B; foo bar import a . B ;") = Segment.words segments ∧
      (∀ g ∈ segments, g.Sound 900 {} "orders") ∧
      ∃ r, parse 900 {} "orders" "import a.B; foo bar import a . B ;" = .ok r ∧
        r.package.Like (respaced true) (Segment.declarations segments) ∧
        r.errors.filter (·.kind ≠ .general) =
          [strayDiagnostic "orders" ⟨.identifier, "foo", 1, 12, 12, 15⟩] ∧
        ∀ d ∈ r.errors, d.kind = .general → d.isSemicolonRemark = true := by
  obtain ⟨p, hp⟩ := stands_import
  obtain ⟨ws, hws⟩ : ∃ ws, visible (tokens true "import a.B; foo bar import a . B ;") = ws :=
    ⟨_, rfl⟩
  have hshape : ∀ n, n = 0 ∨ n = 7 → (visible (tokens true "import a.B;")).map Token.shape =
      ((ws.drop n).take 5).map Token.shape := by
    rw [← hws]
    rintro n (rfl | rfl) <;> decide +kernel
  have hgarbage : (ws.drop 5).take 2 =
      [⟨.identifier, "foo", 1, 12, 12, 15⟩, ⟨.identifier, "bar", 1, 16, 16, 19⟩] := by
    rw [← hws]
    decide +kernel
  have hstray : ∀ t ∈ (ws.drop 5).take 2, t.kind ∉ statementStart := by
    rw [hgarbage]
    decide
  have hsevered :
      ∀ t ∈ ((ws.drop 5).take 2).head?, t.kind ∉ [.symbol .semicolon, .symbol .dot] := by
    rw [hgarbage]
    decide
  have hsplit : ws = (ws.drop 0).take 5 ++ ((ws.drop 5).take 2 ++ (ws.drop 7).take 5) := by
    rw [← hws]
    decide +kernel
  let segments : List Segment := [⟨"import a.B;", p, (ws.drop 0).take 5, (ws.drop 5).take 2⟩,
    ⟨"import a.B;", p, (ws.drop 7).take 5, []⟩]
  have hsound : ∀ g ∈ segments, g.Sound 900 {} "orders" := by
    intro g hg
    rcases List.mem_cons.1 hg with rfl | hg
    · exact ⟨hp, hshape 0 (.inl rfl), hstray, hsevered⟩
    · obtain rfl := List.mem_singleton.1 hg
      exact ⟨hp, hshape 7 (.inr rfl), by simp, by simp⟩
  have htext :
      visible (tokens true "import a.B; foo bar import a . B ;") = Segment.words segments := by
    rw [hws]
    simpa [Segment.words, segments] using hsplit
  obtain ⟨r, hr, hlike, herrors, hgeneral⟩ :=
    @garbage_costs_one 900 {} rfl "orders" _ segments (by simp [segments]) htext hsound
  refine ⟨segments, by simp [segments], htext, hsound, r, hr, hlike, herrors.trans ?_, hgeneral⟩
  simp only [Segment.strays, segments, hgarbage]
  rfl

/-- The end of a comment in the code of a statement is remarked on, so that a text with the tokens
of a statement that has no diagnostics alone has one. -/
theorem comment_costs_one :
    ∃ g : Segment, g.Sound 900 {} "orders" ∧
      visible (tokens true "rule R when eval(x // a;\n) then end") = Segment.words [g] ∧
      (parse 900 {} "orders" "rule R when eval(x // a;\n) then end").toOption.map
      (·.errors.length) = some 1 := by
  obtain ⟨p, hp⟩ : ∃ p, Stands 900 {} "orders" "rule R when eval(x\n) then end" p :=
    exists_stands (by decide +kernel)
      (show _ = some ⟨.keyword .rule, "rule", 1, 0, 0, 4⟩ by decide +kernel)
      (by decide) (show _ = some ⟨.keyword .end_, "end", 2, 7, 26, 29⟩ by decide +kernel)
      (by decide)
  have hsame : (visible (tokens true "rule R when eval(x\n) then end")).map Token.shape =
      (visible (tokens true "rule R when eval(x // a;\n) then end")).map Token.shape := by
        decide +kernel
  refine ⟨⟨_, p, visible (tokens true "rule R when eval(x // a;\n) then end"), []⟩,
    ⟨hp, hsame, by simp, by simp⟩, ?_, by decide +kernel⟩
  simp [Segment.words]

end Rulebook
