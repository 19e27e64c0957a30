import Rulebook.Proofs.CodeTokens
import Rulebook.Proofs.Quiet
import Rulebook.Proofs.Totality

/-!
# The ledger of diagnostics

While a text is parsed without a cap, each diagnostic recorded so far is about a token of the text,
none is placed before an earlier one, and none is placed behind the next token. An error of the
grammar is placed before the next token unless errors are suppressed, so the next one recorded is
about another token. Quiet productions leave all of that as it is; a remark may be made about a
token already taken as long as nothing was reported since.

A remark on a semicolon is about code behind its place that ends in one, and there is no other such
remark at that place. Where no statement is dropped there are no remarks on anything else.
-/

namespace Rulebook

namespace Diagnostic

/-- The offset that a diagnostic is about. -/
def place (d : Diagnostic) : Nat := d.offset.getD 0

def IsAt (d : Diagnostic) (t : Token) : Prop :=
  d = .ofToken d.kind d.sourceName d.message (some t) d.ruleName

/-- A remark on code that ends in a semicolon. -/
def isSemicolonRemark (d : Diagnostic) : Bool :=
  d.kind = .general && d.message = "trailing semi-colon not allowed"

/-- A diagnostic may be recorded before another: they are in the order of the text, and not at the
same place if both are errors of the grammar or both are remarks on a semicolon. -/
structure Precedes (d d' : Diagnostic) : Prop where
  place_le : d.place ≤ d'.place
  apart : d.kind.isSyntactic = true → d'.kind.isSyntactic = true → d.place < d'.place
  remarked : d.isSemicolonRemark = true → d'.isSemicolonRemark = true → d.place < d'.place

end Diagnostic

def CodeEndsInSemicolon (ts : List Token) (place : Nat) : Prop :=
  Parser.endsInSemicolon (spell (codeTokens ts place)) = true

/-- The diagnostics of a text while its tokens up to a cursor have been read. All remarks are on
semicolons, unless statements are dropped. -/
structure Ledger (text : String) (drops : Prop) (c : Cursor) (k : Collector) : Prop where
  along : c.Over text
  faithful : c.Faithful
  uncapped : k.maxErrors = none
  real : ∀ d ∈ k.errors, ∃ i, (c.tokenAt i).isTrivia = false ∧ d.IsAt (c.tokenAt i)
  sorted : k.errors.Pairwise Diagnostic.Precedes
  reached : ∀ d ∈ k.errors, d.place ≤ c.coming
  passed : k.recovering = false → ∀ d ∈ k.errors, d.kind.isSyntactic = true → d.place < c.coming
  remarked : ∀ d ∈ k.errors, d.isSemicolonRemark = true →
    d.place < c.coming ∧ CodeEndsInSemicolon c.front.toList d.place
  general : ∀ d ∈ k.errors, d.kind = .general → d.isSemicolonRemark = true ∨ drops

/-- A token that has been looked at, and nothing is recorded that is placed behind it. -/
structure Heeded (c : Cursor) (k : Collector) (t : Token) : Prop where
  token : ∃ i, (c.tokenAt i).isTrivia = false ∧ t = c.tokenAt i
  start_le : t.start ≤ c.coming
  errors : ∀ d ∈ k.errors, d.place ≤ t.start
  remarked : ∀ d ∈ k.errors, d.isSemicolonRemark = true → d.place < t.start

namespace Ledger

variable {text : String} {drops : Prop} {c : Cursor} {k : Collector}

theorem heeded (h : Ledger text drops c k) : Heeded c k c.current where
  token := ⟨c.seek c.index, Cursor.current_not_trivia h.along.hidden, rfl⟩
  start_le := Nat.le_refl _
  errors := h.reached
  remarked d hd hnotes := (h.remarked d hd hnotes).1

theorem rewind (h : Ledger text drops c k) {j : Nat} (hj : c.index ≤ j) :
    Ledger text drops (c.rewind j) k := by
  have hle := h.along.coming_mono hj
  refine ⟨h.along.rewind j, h.faithful.rewind j, h.uncapped, h.real, h.sorted, fun d hd => ?_,
    fun hk d hd hsyn => ?_, fun d hd hnotes => ⟨?_, (h.remarked d hd hnotes).2⟩, h.general⟩
  · have := h.reached d hd
    omega
  · have := h.passed hk d hd hsyn
    omega
  · have := (h.remarked d hd hnotes).1
    omega

theorem tokenMatched (h : Ledger text drops c k) {j : Nat}
    (hlt : (c.rewind j).ahead.length < c.ahead.length) :
    Ledger text drops (c.rewind j) k.tokenMatched := by
  have hpast := h.along.coming_lt_past hlt
  have hcoming := (h.along.rewind j).past_le_coming
  have hplace : ∀ d ∈ k.errors, d.place < (c.rewind j).coming := fun d hd => by
    have := h.reached d hd
    omega
  exact ⟨h.along.rewind j, h.faithful.rewind j, h.uncapped, h.real, h.sorted,
    fun d hd => Nat.le_of_lt (hplace d hd), fun _ d hd _ => hplace d hd,
    fun d hd hnotes => ⟨hplace d hd, (h.remarked d hd hnotes).2⟩, h.general⟩

/-- A complaint at a token that has been looked at is entered. An error of the grammar has to be at
the next token, and errors are suppressed from then on. A remark on a semicolon is at a token that
has been taken. -/
theorem enter (h : Ledger text drops c k) {t : Token} (ht : Heeded c k t) (kind : ErrorKind)
    (message : String) (ruleName : Option String) (b : Bool)
    (hnew : kind.isSyntactic = true → k.recovering = false ∧ t = c.current ∧ b = true)
    (hold : b = false → k.recovering = false)
    (hsemicolon : kind = .general → message = "trailing semi-colon not allowed" →
      t.start < c.coming ∧ CodeEndsInSemicolon c.front.toList t.start)
    (hgeneral : kind = .general → message = "trailing semi-colon not allowed" ∨ drops) :
    Ledger text drops c
      { k with
        recovering := b
        errors := k.errors ++ [.ofToken kind k.sourceName message (some t) ruleName] } := by
  obtain ⟨i, htrivia, rfl⟩ := ht.token
  have hplace : (Diagnostic.ofToken kind k.sourceName message (some (c.tokenAt i)) ruleName).place =
      (c.tokenAt i).start := rfl
  refine ⟨h.along, h.faithful, h.uncapped, ?_, ?_, ?_, ?_, ?_, ?_⟩
  · intro d hd
    rcases List.mem_append.1 hd with hd | hd
    · exact h.real d hd
    · obtain rfl := List.mem_singleton.1 hd
      exact ⟨i, htrivia, rfl⟩
  · refine List.pairwise_append.2 ⟨h.sorted, List.pairwise_singleton .., fun d hd d' hd' => ?_⟩
    obtain rfl := List.mem_singleton.1 hd'
    refine ⟨ht.errors d hd, fun hsyn hsyn' => ?_, fun hnotes _ => ht.remarked d hd hnotes⟩
    obtain ⟨hrec, hcurrent, -⟩ := hnew hsyn'
    rw [hplace, hcurrent]
    exact h.passed hrec d hd hsyn
  · intro d hd
    rcases List.mem_append.1 hd with hd | hd
    · exact h.reached d hd
    · obtain rfl := List.mem_singleton.1 hd
      exact ht.start_le
  · intro hb d hd hsyn
    have hb : b = false := hb
    rcases List.mem_append.1 hd with hd | hd
    · exact h.passed (hold hb) d hd hsyn
    · obtain rfl := List.mem_singleton.1 hd
      rw [(hnew hsyn).2.2] at hb
      cases hb
  · intro d hd hnotes
    rcases List.mem_append.1 hd with hd | hd
    · exact h.remarked d hd hnotes
    · obtain rfl := List.mem_singleton.1 hd
      obtain ⟨hkind, hmessage⟩ := Bool.and_eq_true_iff.1 hnotes
      exact hsemicolon (of_decide_eq_true hkind) (of_decide_eq_true hmessage)
  · intro d hd hkind
    rcases List.mem_append.1 hd with hd | hd
    · exact h.general d hd hkind
    · obtain rfl := List.mem_singleton.1 hd
      exact (hgeneral hkind).imp_left fun hmessage =>
        Bool.and_eq_true_iff.2 ⟨decide_eq_true hkind, decide_eq_true hmessage⟩

theorem report (h : Ledger text drops c k) {e : ParseError} {t : Token} (ht : Heeded c k t)
    (he : e.token? = some t) (hnext : e.kind.isSyntactic = true → t = c.current)
    (hkind : e.kind ≠ .general) (ruleName : Option String) :
    Ledger text drops c (k.report e ruleName) := by
  unfold Collector.report
  split
  · exact ⟨h.along, h.faithful, h.uncapped, h.real, h.sorted, h.reached, h.passed, h.remarked,
      h.general⟩
  · next hrec =>
    have hrec : k.recovering = false := by simpa using hrec
    rw [he, Collector.add_of_uncapped (c := { k with recovering := true }) h.uncapped]
    exact h.enter ht e.kind e.message ruleName true (fun hsyn => ⟨hrec, hnext hsyn, rfl⟩) nofun
      (fun hgeneral => absurd hgeneral hkind) fun hgeneral => absurd hgeneral hkind

theorem remark (h : Ledger text drops c k) {t : Token} (ht : Heeded c k t) (message : String)
    (hsemicolon : message = "trailing semi-colon not allowed" →
      t.start < c.coming ∧ CodeEndsInSemicolon c.front.toList t.start)
    (hgeneral : message = "trailing semi-colon not allowed" ∨ drops)
    (ruleName : Option String) : Ledger text drops c (k.remark message (some t) ruleName) := by
  unfold Collector.remark
  rw [Collector.add_of_uncapped h.uncapped]
  exact h.enter ht .general message ruleName k.recovering nofun id (fun _ => hsemicolon)
    fun _ => hgeneral

end Ledger

theorem ParseError.Points.kind_ne {e : ParseError} {c : Cursor} (he : e.Points c) :
    e.kind ≠ .general := fun hkind => by
  have hsyn := he.syntactic
  rw [hkind] at hsyn
  cases hsyn

namespace Parser

variable {α β : Type} {text : String} {drops : Prop} {s t : State}

/-- The ledger is kept. It is about what happens outside trials, which report nothing. -/
def bookkeeping (text : String) (drops : Prop) : Discipline where
  before s := s.trials = 0 ∧ Ledger text drops s.cursor s.collector
  during _ t := Ledger text drops t.cursor t.collector
  hidden h := h.2.along.hidden
  hushed {s t} h hst hush := by
    have hcursor := hst.cursor
    rcases hush with hc | ⟨hc, hlt⟩
    · rw [hc, hcursor]
      exact h.2.rewind hst.index
    · unfold State.left at hlt
      rw [hcursor] at hlt
      rw [hc, hcursor]
      exact h.2.tokenMatched hlt
  trans _ _ _ h := h
  stable h hst h' := ⟨hst.trials.trans h.1, h'⟩
  within _ := id
  unwound _ := id

theorem heeded_of_quiet {p : Parser α} {a : α} {token : Token}
    (hs : (bookkeeping text drops).before s) (h : Heeded s.cursor s.collector token)
    (hquiet : SustainsFrom silence p s) (hp : p s = .ok a t) :
    Heeded t.cursor t.collector token := by
  have hst := hquiet.evolves_ok hp
  have hle := hs.2.along.coming_mono hst.index
  have herrors : t.collector.errors = s.collector.errors := by
    rcases hquiet.during_ok hp with hc | ⟨hc, -⟩
    · rw [hc]
    · rw [hc]
      rfl
  rw [hst.cursor]
  refine ⟨h.token, Nat.le_trans h.start_le hle, ?_, ?_⟩ <;> rw [herrors]
  · exact h.errors
  · exact h.remarked

/-! ### Remarks, reports and recovery -/

theorem checkSemicolon_kept {token : Token} (hs : (bookkeeping text drops).before s)
    (h : Heeded s.cursor s.collector token) (hlt : token.start < s.cursor.coming) :
    SustainsFrom (bookkeeping text drops)
      (checkSemicolon (spell (codeTokens s.cursor.front.toList token.start)) token) s := by
  unfold checkSemicolon
  split
  · next hends =>
    have heq := remark_eq "trailing semi-colon not allowed" token s
    rw [if_neg (by rw [hs.1]; omega)] at heq
    have hends : CodeEndsInSemicolon s.cursor.front.toList token.start := by
      rw [CodeEndsInSemicolon, hends]
    exact .of_ok heq (Orderly.evolves_ok _ heq)
      (hs.2.remark h _ (fun _ => ⟨hlt, hends⟩) (.inl rfl) s.ruleName)
  · exact .pure _ hs

theorem ledger_recovered (kinds : List TokenKind) (htrials : s.trials = 0)
    (h : Ledger text drops s.cursor s.collector) :
    Ledger text drops (s.recovered kinds).cursor (s.recovered kinds).collector := by
  have hst := Orderly.evolves_recovered kinds htrials
  rw [hst.cursor]
  exact h.rewind hst.index

theorem recoverFrom_kept {e : ParseError} (hs : (bookkeeping text drops).before s)
    (he : e.Points s.cursor) (kinds : List TokenKind) :
    SustainsFrom (bookkeeping text drops) (recoverFrom e kinds) s := by
  have heq := recoverFrom_eq e kinds s
  rw [if_neg (by rw [hs.1]; omega)] at heq
  exact .of_ok heq (Orderly.evolves_ok _ heq)
    (ledger_recovered (s := s.reported e) kinds hs.1
      (hs.2.report hs.2.heeded he.token (fun _ => rfl) he.kind_ne s.ruleName))

end Parser

end Rulebook

/-!
## The ledger along the grammar

Every production keeps the ledger. The places of recovery report an error that is pending, and the
remarks on semicolons come after quiet productions, so both are about a token that is heeded. Before
the code of a remark no parenthesis is opened since its token.
-/

namespace Rulebook.Parser

set_option synthInstance.maxSize 100000

open Sustains

variable {α β : Type} {text : String} {drops : Prop} {s t : State}

/-! ### Restrictions -/

theorem parenCode_kept {token : Token} {f : String → Parser β}
    [∀ code, Sustains (bookkeeping text drops) (f code)] (hs : (bookkeeping text drops).before s)
    (h : Heeded s.cursor s.collector token) (hplace : s.cursor.Unopened token.start) :
    SustainsFrom (bookkeeping text drops) (do
      let code ← parenCode
      checkSemicolon code token
      f code) s := by
  refine (from_ hs).bind hs fun {code t} ht hcode => ?_
  have htoken := heeded_of_quiet hs h (from_ (D := silence) hs.2.along.hidden) hcode
  obtain ⟨rfl, hlt, -⟩ := code_of_parenCode hs.2.along hs.2.faithful hplace hcode
  have hfront : t.cursor.front = s.cursor.front := (Orderly.evolves_ok parenCode hcode).front
  have hcheck := checkSemicolon_kept ht htoken hlt
  rw [hfront] at hcheck
  exact hcheck.bind ht fun hu _ => from_ hu

instance (operator : String) (token : Token) :
    Sustains (bookkeeping text drops) (restrictionValue operator token) :=
  of_current fun {s} hs => by
    split
    · next l h => exact .advance_bind hs (by rw [h]; simp) from_
    · exact parenCode_kept hs hs.2.heeded (Cursor.unopened_coming hs.2.along)
    · split
      · next hname =>
        refine SustainsFrom.bind hs (.look hs (peek_eq 1 s)) fun _ h => ?_
        cases h
        split
        · exact from_ hs
        · exact .advance_bind hs (Eager.ne_endOfInput_of_isName hname) from_
      · exact .fail hs ⟨rfl, rfl⟩

instance (operator : String) (c : Connective) :
    Sustains (bookkeeping text drops) (valueList operator c) := by
  unfold valueList; infer_instance

instance : Sustains (bookkeeping text drops) restriction := of_current fun {s} hs => by
  have hne : ∀ {k : TokenKind} {kinds : List TokenKind}, k ∈ kinds → TokenKind.endOfInput ∉ kinds →
      k ≠ .endOfInput := fun hk hkinds heq => hkinds (heq ▸ hk)
  split
  · next h => exact .advance_bind hs (hne h (by decide)) from_
  · split
    · next h => exact .advance_bind hs (by rw [h]; simp) from_
    · split
      · next h =>
        refine .advance_bind hs (by rw [h]; simp) fun ht => (of_current fun {t} ht => ?_).from_ ht
        split
        · next h => exact .advance_bind ht (by rw [h]; simp) from_
        · split
          · next h => exact .advance_bind ht (hne h (by decide)) from_
          · exact .fail ht ⟨rfl, rfl⟩
      · exact .fail hs ⟨rfl, rfl⟩

instance (x : List Restriction × Bool) :
    Sustains (bookkeeping text drops) (joinedRestriction x) := by
  obtain ⟨found, open_⟩ := x
  refine of_current fun {s} hs => ?_
  split
  · exact .pure _ hs
  · next c h =>
    have hk : s.cursor.current.kind ≠ .endOfInput := fun heq => by
      rw [heq] at h
      cases h
    have hcursor : ∀ {b t}, trial "restriction connective" connectedRestriction s = .ok b t →
        t.cursor = s.cursor := fun h => by rw [Orderly.trial_of_ok h]
    refine (from_ hs).bind hs fun {b t} ht h => ?_
    split
    · exact .advance_bind ht (by rw [hcursor h]; exact hk) from_
    · exact .pure _ ht

instance : Sustains (bookkeeping text drops) restrictions := by unfold restrictions; infer_instance

/-! ### Patterns -/

theorem predicate_kept {token : Token} (hs : (bookkeeping text drops).before s)
    (h : Heeded s.cursor s.collector token) (hplace : s.cursor.Unopened token.start)
    (field declaration : Option String) :
    SustainsFrom (bookkeeping text drops) (predicate token field declaration) s :=
  parenCode_kept hs h hplace

theorem heeded_advanced {token : Token} (hs : (bookkeeping text drops).before s)
    (hk : s.cursor.current.kind ≠ .endOfInput) (h : Heeded s.cursor s.collector token) :
    Heeded s.advanced.cursor s.advanced.collector token :=
  heeded_of_quiet hs h (.advance (D := silence) hs.2.along.hidden hk) (advance_eq s)

/-- Nor is a parenthesis opened if the next token opens none. -/
theorem unopened_advanced {place : Nat} (hs : (bookkeeping text drops).before s)
    (hk : s.cursor.current.kind ≠ .endOfInput) (hparen : s.cursor.current.kind ≠ .symbol .lparen)
    (hplace : s.cursor.Unopened place) : s.advanced.cursor.Unopened place :=
  (State.OpensNone.advanced hs.2.along.hidden hk hparen).unopened (Orderly.evolves_advanced s)
    hs.2.along hplace

theorem fieldConstraint_kept {token fieldToken : Token} {field : String}
    {declaration : Option String} (hs : (bookkeeping text drops).before s)
    (h : Heeded s.cursor s.collector token) (hplace : s.cursor.Unopened token.start) :
    SustainsFrom (bookkeeping text drops)
      (fieldConstraint token fieldToken field declaration) s := by
  refine SustainsFrom.bind hs (from_ (p := nextIsSymbol .arrow) hs) fun {b t} ht hb => ?_
  split
  · next hb' =>
    obtain ⟨rfl, harrow⟩ := kind_of_nextIsSymbol (hb' ▸ hb)
    have hk : s.cursor.current.kind ≠ .endOfInput := by rw [harrow]; simp
    have hplace := unopened_advanced hs hk (by rw [harrow]; simp) hplace
    exact .advance_bind hs hk fun ht =>
      (predicate_kept ht (heeded_advanced hs hk h) hplace _ _).bind ht fun hu _ => .pure _ hu
  · cases hb
    refine SustainsFrom.bind hs (from_ (p := nextIs operatorKinds) hs) fun {b t} ht hb => ?_
    split
    · exact from_ ht
    · split
      · exact .pure _ ht
      · exact (of_current fun hu => .fail hu ⟨rfl, rfl⟩).from_ ht

theorem boundField_kept {found : List Constraint} {token : Token}
    (hs : (bookkeeping text drops).before s) (h : Heeded s.cursor s.collector token)
    (hplace : s.cursor.Unopened token.start) :
    HarvestsFrom (bookkeeping text drops) (boundField found token) s := by
  have hhead : SustainsFrom (bookkeeping text drops) (attempt fieldHead) s ∧ _ :=
    attempt_from (from_ hs)
  have hquiet := (attempt_from (from_ (D := silence) (p := fieldHead) hs.2.along.hidden)).1
  refine .bind hs hhead.1 fun {r t} ht hr => ?_
  have htoken := heeded_of_quiet hs h hquiet hr
  cases r with
  | error e => exact .pure _ ht fun e' he => by cases he; exact hhead.2 hr
  | ok x =>
    obtain ⟨declaration, fieldToken, field⟩ := x
    obtain ⟨_, heq, hhead⟩ := (attempt_ok hr).resolve_right fun ⟨_, h, _⟩ => by cases h
    cases heq
    have hplace := (opensNone_of_fieldHead hs.2.along.hidden hhead).unopened
      (Orderly.evolves_ok fieldHead hhead) hs.2.along hplace
    refine .bind ht (from_ (p := fieldBinding token field declaration) ht) fun hu hbinding => ?_
    have hsame := state_of_fieldBinding hbinding
    exact .harvest _ _ hu (fieldConstraint_kept hu
      (heeded_of_quiet ht htoken (from_ (D := silence) ht.2.along.hidden) hbinding)
        (hsame ▸ hplace))

theorem constraint_kept (found : List Constraint) (hs : (bookkeeping text drops).before s) :
    HarvestsFrom (bookkeeping text drops) (constraint found) s := by
  have hplace : s.cursor.Unopened s.cursor.current.start := Cursor.unopened_coming hs.2.along
  refine .bind hs (.look hs (current_eq s)) fun _ h => ?_
  cases h
  split
  · exact .harvest _ _ hs (predicate_kept hs hs.2.heeded hplace _ _)
  · refine .bind hs (.look hs (peek_eq 1 s)) fun _ h => ?_
    cases h
    split
    · next h =>
      have heval := of_decide_eq_true (Bool.and_eq_true_iff.1 h).1
      have hk : s.cursor.current.kind ≠ .endOfInput := by rw [heval]; simp
      have hplace := unopened_advanced hs hk (by rw [heval]; simp) hplace
      exact .harvest _ _ hs (.advance_bind hs hk fun ht =>
        predicate_kept ht (heeded_advanced hs hk hs.2.heeded) hplace _ _)
    · exact boundField_kept hs hs.2.heeded hplace

theorem constraints_kept (hs : (bookkeeping text drops).before s) :
    HarvestsFrom (bookkeeping text drops) constraints s := by
  refine .bind hs (from_ (p := nextIsSymbol .rparen) hs) fun {b t} ht hb => ?_
  split
  · exact .pure _ ht fun e he => by cases he
  · have hfirst : HarvestsFrom (bookkeeping text drops) _ t := constraint_kept [] ht
    refine .bind ht hfirst.toSustainsFrom fun {first u} hu h => ?_
    refine .repeatWhile hu (hfirst.pending h) (fun _ _ => ⟨_, rfl⟩) fun {h s} hs hmore => ?_
    have hk : s.cursor.current.kind = .symbol .comma := by
      change EStateM.Result.ok (h.failure.isNone && decide _) s = _ at hmore
      exact of_decide_eq_true (Bool.and_eq_true_iff.1 (EStateM.Result.ok.inj hmore).1).2
    exact .bind hs (.advance hs (by rw [hk]; simp)) fun ht _ => constraint_kept _ ht

theorem recoverParen_kept {e : ParseError} (hs : (bookkeeping text drops).before s)
    (he : e.Points s.cursor) : SustainsFrom (bookkeeping text drops) (recoverParen e) s :=
  (recoverFrom_kept hs he patternFollow).bind hs fun ht _ => from_ ht

theorem rightParen_kept {failure : Option ParseError} (hs : (bookkeeping text drops).before s)
    (h : Pending failure s) : SustainsFrom (bookkeeping text drops) (rightParen failure) s := by
  cases failure with
  | none =>
    have hattempt : SustainsFrom (bookkeeping text drops) (attempt (symbol .rparen)) s ∧ _ :=
      attempt_from (from_ hs)
    refine hattempt.1.bind hs fun {r t} ht hr => ?_
    cases r with
    | ok token => exact .pure _ ht
    | error e => exact recoverParen_kept ht (hattempt.2 hr)
  | some e =>
    refine SustainsFrom.bind hs (.pure (Except.error e) hs) fun ht hr => ?_
    cases hr
    exact recoverParen_kept hs (h e rfl)

instance : Sustains (bookkeeping text drops) factPattern := by
  unfold factPattern
  refine seq inferInstance fun start => seq inferInstance fun name => seq inferInstance fun type =>
    seq inferInstance fun left => ⟨fun hs => ?_⟩
  have hbody := constraints_kept hs
  exact hbody.toSustainsFrom.bind hs fun ht h =>
    (rightParen_kept ht (hbody.pending h)).bind ht fun hu _ => from_ hu

/-! ### Sources -/

section Sources

variable {pattern : Parser Pattern} [Orderly pattern] [Sustains (bookkeeping text drops) pattern]

instance (token : Token) : Sustains (bookkeeping text drops) (accumulateBody pattern token) := by
  unfold accumulateBody; infer_instance

instance : Sustains (bookkeeping text drops) (accumulate pattern) := by
  unfold accumulate; infer_instance

instance (token : Token) : Sustains (bookkeeping text drops) (collectBody pattern token) := by
  unfold collectBody; infer_instance

instance : Sustains (bookkeeping text drops) (collect pattern) := by unfold collect; infer_instance

instance : Sustains (bookkeeping text drops) (fromSource pattern) := by
  unfold fromSource; infer_instance

end Sources

theorem nestingTooDeep_kept :
    Sustains (bookkeeping text drops) (throw .nestingTooDeep : Parser α) where
  from_ {s} hs := .of_error rfl (.refl s) (Discipline.refl hs) fun e he => by cases he

instance patternWithin_kept (levels : Nat) :
    Sustains (bookkeeping text drops) (patternWithin levels) := by
  induction levels with
  | zero => exact nestingTooDeep_kept
  | succ levels ih => unfold Parser.patternWithin; infer_instance

instance : Sustains (bookkeeping text drops) sourcedPattern := by
  unfold sourcedPattern; infer_instance

/-! ### Conditions -/

theorem infixGroup_kept {kind : Grouping} {connectives : List TokenKind}
    {operand : Parser Condition} (h : TokenKind.endOfInput ∉ connectives)
    [Sustains (bookkeeping text drops) operand] :
    Sustains (bookkeeping text drops) (infixGroup kind connectives operand) := by
  unfold infixGroup
  exact seq inferInstance fun first => seq (repeatKinds h _ _) fun others => inferInstance

section Conditions

variable {single : Parser Condition} [Sustains (bookkeeping text drops) single]

instance : Sustains (bookkeeping text drops) (disjunction single) :=
  have : Sustains (bookkeeping text drops) (infixGroup .and andKinds single) :=
    infixGroup_kept (by decide)
  infixGroup_kept (by decide)

theorem prefixGroup_kept (hs : (bookkeeping text drops).before s)
    (hk : s.cursor.current.kind ≠ .endOfInput) :
    SustainsFrom (bookkeeping text drops) (prefixGroup single) s := by
  refine .advance_bind hs hk (seq inferInstance fun operands => ?_).from_
  cases operands with
  | nil => exact of_current fun hu => .fail hu ⟨rfl, rfl⟩
  | cons first others => infer_instance

instance : Sustains (bookkeeping text drops) (parenthesised single) := by
  unfold parenthesised
  refine seq inferInstance fun _ => ⟨fun {s} hs => ?_⟩
  refine SustainsFrom.bind hs (from_ (p := nextIs [.keyword .or, .keyword .and]) hs)
    fun {b t} ht h => ?_
  split
  · next hb =>
    obtain ⟨rfl, hk⟩ := kind_of_nextIs (hb ▸ h)
    refine prefixGroup_kept hs fun heq => ?_
    rw [heq] at hk
    exact absurd hk (by decide)
  · exact from_ ht

instance : Sustains (bookkeeping text drops) (operand single) := by unfold operand; infer_instance

instance (k : Keyword) (kind : Grouping) :
    Sustains (bookkeeping text drops) (unaryGroup k kind single) := by
  unfold unaryGroup; infer_instance

instance : Sustains (bookkeeping text drops) evalCondition where
  from_ {s} hs := by
    refine SustainsFrom.bind hs (from_ (p := keyword .eval) hs) fun {token t} ht h => ?_
    have htoken := heeded_of_quiet hs hs.2.heeded (from_ (D := silence) hs.2.along.hidden) h
    obtain ⟨rfl, hk, rfl⟩ := expect_of_ok h
    exact parenCode_kept ht htoken (unopened_advanced hs (by rw [hk]; simp) (by rw [hk]; simp)
      (Cursor.unopened_coming hs.2.along))

instance : Sustains (bookkeeping text drops) forallCondition := by
  unfold forallCondition
  refine seq inferInstance fun token => seq inferInstance fun _ => seq inferInstance fun base =>
    seq inferInstance fun patterns => ?_
  split
  · exact of_current fun hs => by
      rw [fail_bind]
      exact .fail hs ⟨rfl, rfl⟩
  · infer_instance

instance : Sustains (bookkeeping text drops) (singleCondition single) := of_current fun {s} hs => by
  repeat' split
  case isFalse.isFalse.isFalse.isFalse.isFalse.isFalse =>
    rw [fail_bind]
    exact .fail hs ⟨rfl, rfl⟩
  all_goals exact from_ hs

end Conditions

instance conditionWithin_kept (levels : Nat) :
    Sustains (bookkeeping text drops) (conditionWithin levels) := by
  induction levels with
  | zero => exact nestingTooDeep_kept
  | succ levels ih => unfold Parser.conditionWithin; infer_instance

instance : Sustains (bookkeeping text drops) condition := by unfold condition; infer_instance

instance : Sustains (bookkeeping text drops) conditions := by unfold conditions; infer_instance

instance (elements : List Condition) :
    Sustains (bookkeeping text drops) (blockElement elements) where
  from_ {s} hs := by
    have hattempt : SustainsFrom (bookkeeping text drops) (attempt conditions) s ∧ _ :=
      attempt_from (from_ hs)
    refine hattempt.1.bind hs fun {r t} ht hr => ?_
    cases r with
    | ok c => exact .pure _ ht
    | error e =>
      exact (recoverFrom_kept ht (hattempt.2 hr) conditionFollow).bind ht fun hu _ => .pure _ hu

instance (anchor : Option Token) : Sustains (bookkeeping text drops) (block anchor) := by
  unfold block; infer_instance

end Rulebook.Parser
