import Rulebook.Proofs.Ledger
import Rulebook.Proofs.Onward

/-!
# The diagnostics of a text

The ledger along rules, statements and whole texts. A text that is parsed without a cap has its
diagnostics in the order of the text, each about a token, and no two errors of the grammar are about
the same one.
-/

namespace Rulebook

variable {frames : Nat}

namespace Parser

set_option synthInstance.maxSize 100000

open Sustains

variable {α β : Type} {text : String} {drops : Prop} {s t : State}

/-! ### Rules and queries -/

theorem addAttribute_kept {h : Harvest Rule} (hs : (bookkeeping text drops).before s)
    (hk : s.cursor.current.kind ∈ attributeKinds) :
    HarvestsFrom (bookkeeping text drops) (addAttribute h) s := by
  have hfirst := HarvestsFrom.harvest h.found
    (fun rule a => { rule with attributes := rule.attributes.put a }) hs
    (Sustains.ruleAttribute hs hk)
  refine .bind hs hfirst.toSustainsFrom fun {r t} ht hr => ?_
  have hpending := hfirst.pending hr
  split
  · next hnone =>
    refine .bind ht (from_ ht) fun hu _ => .pure _ hu fun e he => ?_
    rw [Option.isNone_iff_eq_none.1 hnone] at he
    cases he
  · exact .pure _ ht hpending

theorem ruleAttributes_kept (rule : Rule) (hs : (bookkeeping text drops).before s) :
    HarvestsFrom (bookkeeping text drops) (ruleAttributes rule) s := by
  have hhead : SustainsFrom (bookkeeping text drops) (attempt attributesHead) s ∧ _ :=
    attempt_from (from_ hs)
  refine .bind hs hhead.1 fun {r t} ht hr => ?_
  cases r with
  | error e => exact .pure _ ht fun e' he => by cases he; exact hhead.2 hr
  | ok _ =>
    refine .repeatWhile ht (fun e he => by cases he) (fun _ _ => ⟨_, rfl⟩) fun {h s} hs hmore => ?_
    change EStateM.Result.ok (h.failure.isNone && decide _) s = _ at hmore
    exact addAttribute_kept hs
      (of_decide_eq_true (Bool.and_eq_true_iff.1 (EStateM.Result.ok.inj hmore).1).2)

theorem ruleConditions_kept (rule : Rule) (hs : (bookkeeping text drops).before s) :
    HarvestsFrom (bookkeeping text drops) (ruleConditions rule) s := by
  refine .bind hs (from_ (p := nextIsKeyword .when_) hs) fun {b t} ht hb => ?_
  split
  · next hb' =>
    change EStateM.Result.ok (decide (s.cursor.current.kind = _)) s = _ at hb
    obtain ⟨hk, rfl⟩ := EStateM.Result.ok.inj hb
    have hk := of_decide_eq_true (hk.trans hb')
    exact .harvest _ _ hs (.advance_bind hs (by rw [hk]; simp) from_)
  · exact .pure _ ht fun e he => by cases he

theorem ruleConsequence_kept (rule : Rule) (hs : (bookkeeping text drops).before s) :
    HarvestsFrom (bookkeeping text drops) (ruleConsequence rule) s := by
  have hfirst := HarvestsFrom.harvest rule (fun rule c => { rule with consequence := c }) hs
    (from_ (p := consequence) hs)
  exact .bind hs hfirst.toSustainsFrom fun ht h =>
    .andThen ht (hfirst.pending h) (.harvest _ _ ht (from_ ht))

theorem ruleBody_kept (rule : Rule) (hs : (bookkeeping text drops).before s) :
    HarvestsFrom (bookkeeping text drops) (ruleBody rule) s := by
  have hattributes := ruleAttributes_kept rule hs
  refine .bind hs hattributes.toSustainsFrom fun {h t} ht hr => ?_
  have hconditions :=
    HarvestsFrom.andThen ht (hattributes.pending hr) (ruleConditions_kept h.found ht)
  exact .bind ht hconditions.toSustainsFrom fun hu hr =>
    .andThen hu (hconditions.pending hr) (ruleConsequence_kept _ hu)

instance : Sustains (bookkeeping text drops) queryBlock := by unfold queryBlock; infer_instance

theorem queryBody_kept (query : Query) (hs : (bookkeeping text drops).before s) :
    HarvestsFrom (bookkeeping text drops) (queryBody query) s := by
  have hparameters :=
    HarvestsFrom.harvest query (fun query ps => { query with parameters := ps }) hs
    (from_ (p := queryParameters) hs)
  refine .bind hs hparameters.toSustainsFrom fun {h t} ht hr => ?_
  have hblock : HarvestsFrom (bookkeeping text drops) (h.andThen fun query =>
      harvest query queryBlock fun query b => { query with conditions := some b }) t :=
    .andThen ht (hparameters.pending hr) (.harvest _ _ ht (from_ ht))
  exact .bind ht hblock.toSustainsFrom fun hu hr =>
    .andThen hu (hblock.pending hr) (.harvest _ _ hu (from_ hu))

theorem underName_kept {name : String} {p : Parser α} (hs : (bookkeeping text drops).before s)
    (h : ∀ {s}, (bookkeeping text drops).before s → SustainsFrom (bookkeeping text drops) p s) :
    SustainsFrom (bookkeeping text drops) (underName name p) s := by
  have hnamed := h (s := { s with ruleName := some name }) hs
  have hunnamed : ∀ {t : State}, State.Evolves { s with ruleName := some name } t →
      s.Evolves { t with ruleName := none } := fun ht =>
    ⟨ht.cursor, ht.index, ht.trials, ht.stack, ht.silent, ht.collector, .inr rfl⟩
  cases hp : p { s with ruleName := some name } with
  | ok a t =>
    have heq : underName name p s = .ok a { t with ruleName := none } :=
      (bind_of_ok (p := modify _) rfl).trans (ensuring_of_ok hp)
    have ht : Ledger text drops t.cursor t.collector := hnamed.during_ok hp
    exact .of_ok heq (hunnamed (hnamed.evolves_ok hp)) ht
  | error f t =>
    have heq : underName name p s = .error f { t with ruleName := none } :=
      (bind_of_ok (p := modify _) rfl).trans (ensuring_of_error hp)
    have ht : Ledger text drops t.cursor t.collector := hnamed.during_error hp
    refine .of_error heq (hunnamed (hnamed.evolves_error hp)) ht ?_
    rintro e rfl
    have he : e.Points t.cursor := hnamed.points hp
    exact he

theorem recovering_kept {name : String} {body : Parser (Harvest α)}
    {locate : α → Location → α} {location : Location} (hs : (bookkeeping text drops).before s)
    (h : ∀ {s}, (bookkeeping text drops).before s → HarvestsFrom (bookkeeping text drops) body s) :
    SustainsFrom (bookkeeping text drops) (recovering name body locate location) s := by
  unfold recovering
  refine underName_kept hs fun hs => ?_
  refine (h hs).toSustainsFrom.bind hs fun {r t} ht hr => ?_
  have hpending := (h hs).pending hr
  cases hfailure : r.failure with
  | none => exact from_ ht
  | some e =>
    exact (recoverFrom_kept ht (hpending e hfailure) ruleFollow).bind ht fun hu _ => from_ hu

instance : Sustains (bookkeeping text drops) ruleStatement := by
  unfold ruleStatement
  refine seq inferInstance fun token => seq inferInstance fun name => seq inferInstance fun _ => ?_
  exact seq ⟨fun hs => recovering_kept hs (ruleBody_kept _)⟩ fun rule => inferInstance

instance : Sustains (bookkeeping text drops) queryStatement := by
  unfold queryStatement
  refine seq inferInstance fun token => seq inferInstance fun name => ?_
  exact seq ⟨fun hs => recovering_kept hs (queryBody_kept _)⟩ fun query => inferInstance

/-! ### Statements -/

/-- A second package name is reported at its keyword, which has been taken by then. -/
instance : Sustains (bookkeeping text drops) (packageStatement true) where
  from_ {s} hs := by
    have hquiet : ∀ {α : Type} {p : Parser α} [Sustains silence p] {s t : State} {a : α}
        {token : Token}, (bookkeeping text drops).before s → Heeded s.cursor s.collector token →
        p s = .ok a t → Heeded t.cursor t.collector token := fun hs h =>
      heeded_of_quiet hs h (from_ (D := silence) hs.2.along.hidden)
    refine SustainsFrom.bind hs (from_ (p := keyword .package) hs) fun {token t} ht h => ?_
    have htoken := hquiet hs hs.2.heeded h
    rw [← (expect_of_ok h).1] at htoken
    refine SustainsFrom.bind ht (from_ (p := dottedName) ht) fun {_ u} hu h => ?_
    have htoken := hquiet ht htoken h
    refine SustainsFrom.bind hu (from_ (p := skip .semicolon) hu) fun {_ v} hv h => ?_
    have htoken := hquiet hu htoken h
    have heq := report_eq (.failedPredicate
      "package name can only be declared once, before any other statement" (some token)) v
    rw [if_neg (by rw [hv.1]; omega)] at heq
    exact .of_ok heq (Orderly.evolves_ok _ heq)
      (hv.2.report htoken rfl (fun hsyn => by cases hsyn) (fun hkind => by cases hkind) v.ruleName)

instance : Sustains (bookkeeping text drops) statement := of_current fun {s} hs => by
  split
  case h_8 => exact .fail hs ⟨rfl, rfl⟩
  all_goals exact from_ hs

/-! ### Whole files -/

/-- Between two statements of a text whose ledger is kept. -/
structure Balanced (text : String) (drops : Prop) (s : State) : Prop extends Idle s where
  ledger : Ledger text drops s.cursor s.collector

theorem Balanced.before (hs : Balanced text drops s) : (bookkeeping text drops).before s :=
  ⟨hs.trials, hs.ledger⟩

theorem Balanced.of_ok {p : Parser α} {a : α} (hs : Balanced text drops s)
    (hp : SustainsFrom (bookkeeping text drops) p s) (h : p s = .ok a t) :
    Balanced text drops t where
  toIdle := hs.evolves (hp.evolves_ok h)
  ledger := hp.during_ok h

theorem Balanced.recovered {e : ParseError} (hs : Balanced text drops s) (he : e.Points s.cursor)
    (kinds : List TokenKind) : Balanced text drops ((s.reported e).recovered kinds) where
  toIdle := hs.evolves ((Orderly.evolves_reported e hs.trials).trans
    (Orderly.evolves_recovered kinds (s := s.reported e) hs.trials))
  ledger := ledger_recovered (s := s.reported e) kinds hs.trials
    (hs.ledger.report hs.ledger.heeded he.token (fun _ => rfl) he.kind_ne s.ruleName)

theorem Balanced.dropped (hdrops : drops) (hs : Balanced text drops s) :
    Balanced text drops s.dropped where
  toIdle := hs.evolves (evolves_dropped hs.toIdle)
  ledger := by
    let event := Event.nestingTooDeep s.collector.sourceName s.cursor.current.line
      s.cursor.current.column
    exact ledger_recovered statementStart
      (s := { (s.noted event).remarked "nesting too deep" s.cursor.current with ruleName := none })
      hs.trials
      (hs.ledger.remark hs.ledger.heeded _ (fun h => absurd h (by decide)) (.inr hdrops) _)

theorem statementOrRecovery_balanced (hdrops : drops) (hs : Balanced text drops s)
    (h : statementOrRecovery s = .ok () t) : Balanced text drops t := by
  have hstatement : SustainsFrom (bookkeeping text drops) statement s := from_ hs.before
  cases hst : statement s with
  | ok a u =>
    rw [statementOrRecovery_of_ok hst] at h
    cases h
    exact hs.of_ok hstatement hst
  | error f u =>
    have hu : Balanced text drops u :=
      ⟨hs.evolves (hstatement.evolves_error hst), hstatement.during_error hst⟩
    cases f with
    | recognition e =>
      rw [statementOrRecovery_of_recognition hst hu.trials] at h
      cases h
      exact hu.recovered (hstatement.points hst) _
    | nestingTooDeep =>
      rw [statementOrRecovery_of_nesting hst, dropDeepStatement_eq hu.toIdle] at h
      cases h
      exact hu.dropped hdrops
    | tooManyDigits n =>
      rw [statementOrRecovery_of_digits hst] at h
      cases h
    | cursor f => exact (Orderly.expected hst).elim

theorem headOrRecovery_balanced {p : Parser Unit} (hs : Balanced text drops s)
    (hp : SustainsFrom (bookkeeping text drops) p s) (h : headOrRecovery p s = .ok () t) :
    Balanced text drops t := by
  cases hps : p s with
  | ok a u =>
    have heq : headOrRecovery p s = .ok () u := by
      unfold headOrRecovery
      rw [bind_of_ok (attempt_of_ok hps)]
      rfl
    rw [heq] at h
    cases h
    exact hs.of_ok hp hps
  | error f u =>
    have hu : Balanced text drops u := ⟨hs.evolves (hp.evolves_error hps), hp.during_error hps⟩
    cases f with
    | recognition e =>
      rw [headOrRecovery_of_recognition hps hu.trials] at h
      cases h
      exact hu.recovered (hp.points hps) _
    | _ =>
      unfold headOrRecovery at h
      rw [bind_of_error (attempt_of_error hps (by simp))] at h
      cases h

theorem declared_kept (change : Package → Package) (hs : (bookkeeping text drops).before s) :
    SustainsFrom (bookkeeping text drops)
      (modify fun s => { s with package := change s.package } : Parser Unit) s :=
  .of_ok rfl (Orderly.evolves_declared change hs.1) hs.2

theorem packageStatement_kept (hs : (bookkeeping text drops).before s) :
    SustainsFrom (bookkeeping text drops) (packageStatement false) s := by
  refine SustainsFrom.bind hs (from_ (p := keyword .package) hs) fun {_ t} ht _ => ?_
  refine SustainsFrom.bind ht (from_ (p := dottedName) ht) fun {name u} hu _ => ?_
  refine SustainsFrom.bind hu (from_ (p := skip .semicolon) hu) fun {_ v} hv _ => ?_
  exact declared_kept (fun p => { p with name }) hv

theorem packageAttribute_kept (hs : (bookkeeping text drops).before s)
    (hk : s.cursor.current.kind ∈ attributeKinds) :
    SustainsFrom (bookkeeping text drops) packageAttribute s := by
  refine (Sustains.ruleAttribute hs hk).bind hs fun {a t} ht _ => ?_
  refine SustainsFrom.bind ht ?_ fun hu _ => from_ hu
  exact declared_kept (fun p => { p with attributes := p.attributes.put a }) ht

theorem unitHead_balanced (hs : Balanced text drops s) (h : unitHead s = .ok () t) :
    Balanced text drops t := by
  obtain ⟨isPackage, _, hlook, h⟩ := bind_eq_ok.1 h
  cases hlook
  have hattributes : ∀ {t u : State}, Balanced text drops t →
    repeatWhile () (fun _ => nextIs attributeKinds)
      (fun _ => headOrRecovery packageAttribute) t = .ok () u →
      Balanced text drops u := fun ht hu =>
    repeatWhile_invariant (I := fun u _ => Balanced text drops u) (fun h => by cases h; rfl)
      (fun hmore hv hbody => headOrRecovery_balanced hv
        (packageAttribute_kept hv.before (kind_of_nextIs hmore).2) hbody) ht hu
  split at h
  · obtain ⟨_, u, hu, h⟩ := bind_eq_ok.1 h
    exact hattributes (headOrRecovery_balanced hs (packageStatement_kept hs.before) hu) h
  · exact hattributes hs h

theorem statements_balanced (hdrops : drops) (hs : Balanced text drops s) {n : Nat}
    (h : statements s = .ok n t) : Balanced text drops t := by
  refine repeatWhile_invariant (I := fun u _ => Balanced text drops u) (fun h => by cases h; rfl)
    (fun {_ _ v w} _ hv hbody => ?_) hs h
  obtain ⟨_, x, hx, hbody⟩ := bind_eq_ok.1 hbody
  obtain ⟨-, rfl⟩ := pure_ok hbody
  exact statementOrRecovery_balanced hdrops hv hx

theorem compilationUnit_ledger (hs : Balanced text True s) {p : Package}
    (h : compilationUnit s = .ok p t) : Ledger text True t.cursor t.collector := by
  let start := s.declared fun p =>
    { p with location := { Location.ofToken s.cursor.current with stop := p.location.stop } }
  have hstart : Balanced text True start :=
    ⟨hs.evolves (Orderly.evolves_declared _ hs.trials), hs.ledger⟩
  change (do unitHead; closeUnit (← statements) : Parser Package) start = _ at h
  obtain ⟨_, u, hu, h⟩ := bind_eq_ok.1 h
  obtain ⟨n, v, hv, h⟩ := bind_eq_ok.1 h
  have hv := statements_balanced trivial (unitHead_balanced hstart hu) hv
  rw [closeUnit_eq] at h
  cases h
  unfold State.ended
  split
  · exact hv.ledger.report hv.ledger.heeded rfl (fun _ => rfl) (fun hkind => by cases hkind)
      v.ruleName
  · exact hv.ledger

/-- Nothing is recorded yet where a text begins. -/
theorem balanced_ofText (frames : Nat) (settings : Settings) (hcap : settings.maxErrors = none)
    (sourceName text : String) : Balanced text drops (.ofText frames settings sourceName text) where
  toIdle := idle_ofText frames settings sourceName text
  ledger := ⟨Cursor.over_ofTokens settings.hashComments text, faithful_scan text, hcap, nofun, .nil,
    nofun, nofun, nofun, nofun⟩

end Parser

/-- A diagnostic is about a token: it has its place and its text. -/
structure Diagnostic.Concerns (d : Diagnostic) (t : Token) : Prop where
  line : d.line = t.line
  column : d.column = t.column
  offset : d.offset = some t.start
  tokenText : d.tokenText = t.text

theorem Diagnostic.Concerns.place {d : Diagnostic} {t : Token} (h : d.Concerns t) :
    d.place = t.start := by
  rw [Diagnostic.place, h.offset]
  rfl

theorem text_of_endOfInput {text : String} {hashComments : Bool} {t : Token}
    (ht : t ∈ scan text hashComments) (hk : t.kind = .endOfInput) : t.text = "" := by
  rw [scan_eq] at ht
  rcases List.mem_append.1 ht with ht | ht
  · have hplain := (@faithful_scan hashComments text).plain
    rw [ofTokens_eq] at hplain
    exact absurd hk (hplain t ht)
  · rw [List.mem_singleton.1 ht]
    rfl

theorem Diagnostic.IsAt.concerns {text : String} {hashComments : Bool} {d : Diagnostic} {t : Token}
    (h : d.IsAt t) (ht : t ∈ scan text hashComments) : d.Concerns t := by
  rw [h]
  refine ⟨rfl, rfl, rfl, ?_⟩
  show (if t.kind = .endOfInput then "" else t.text) = t.text
  split
  · next hk => exact (text_of_endOfInput ht hk).symm
  · rfl

theorem tokenAt_mem_scan (text : String) (hashComments : Bool) (i : Nat) :
    (Cursor.ofTokens (scan text hashComments) text).tokenAt i ∈ scan text hashComments := by
  rw [ofTokens_eq, scan_eq]
  by_cases hi : i < (tokens hashComments text).length
  · refine List.mem_append_left _ ?_
    simp [Cursor.tokenAt, Array.getD, hi]
  · refine List.mem_append_right _ (List.mem_singleton.2 ?_)
    rw [Cursor.tokenAt_of_le (by simpa using hi)]
    rfl

/-- Every diagnostic of a text that is parsed without a cap is about a token of the text that is no
trivia, or about the mark of its end. They are in the order of the text, and of two errors of the
grammar the later one is about a later token. -/
theorem parse_diagnostics_ordered (settings : Settings) (hcap : settings.maxErrors = none)
    (sourceName text : String) {r : ParseResult}
    (h : parse frames settings sourceName text = .ok r) :
    (∀ d ∈ r.errors, ∃ t ∈ scan text settings.hashComments, t.isTrivia = false ∧ d.Concerns t) ∧
    (r.errors.Pairwise fun d d' => ∀ t t', d.Concerns t → d'.Concerns t' → t.start ≤ t'.start) ∧
    r.errors.Pairwise fun d d' => d.kind.isSyntactic = true → d'.kind.isSyntactic = true →
      ∀ t t', d.Concerns t → d'.Concerns t' → t.start < t'.start := by
  obtain ⟨t, hunit, hst, herrors, -⟩ := exists_unit h
  have hledger :=
    Parser.compilationUnit_ledger (Parser.balanced_ofText frames settings hcap sourceName text)
      hunit
  rw [herrors]
  refine ⟨fun d hd => ?_, hledger.sorted.imp fun hdd u u' hu hu' => ?_,
    hledger.sorted.imp fun hdd hsyn hsyn' u u' hu hu' => ?_⟩
  · obtain ⟨i, htrivia, hat⟩ := hledger.real d hd
    have hmem : t.cursor.tokenAt i ∈ scan text settings.hashComments := by
      rw [hst.cursor]
      exact tokenAt_mem_scan text settings.hashComments i
    exact ⟨_, hmem, htrivia, hat.concerns hmem⟩
  · have := hdd.place_le
    rwa [hu.place, hu'.place] at this
  · have := hdd.apart hsyn hsyn'
    rwa [hu.place, hu'.place] at this

theorem parse_diagnostics_ordered_mixed :
    ∃ r, parse 900 {} "orders" "package p; x rule A when eval(a;) P(b c) end package q; rule" =
      .ok r ∧ r.errors.map (fun d => (d.kind, d.offset)) =
        [(.noViableAlternative, some 11), (.general, some 25), (.mismatchedSet, some 38),
          (.mismatchedToken, some 41), (.failedPredicate, some 45), (.mismatchedSet, some 60)] ∧
      (∀ d ∈ r.errors,
        ∃ t ∈ scan "package p; x rule A when eval(a;) P(b c) end package q; rule" true,
          t.isTrivia = false ∧ d.Concerns t) ∧
      (r.errors.Pairwise fun d d' => ∀ t t', d.Concerns t → d'.Concerns t' → t.start ≤ t'.start) ∧
      r.errors.Pairwise fun d d' => d.kind.isSyntactic = true → d'.kind.isSyntactic = true →
        ∀ t t', d.Concerns t → d'.Concerns t' → t.start < t'.start := by
  have herrors : (parse 900 {} "orders"
      "package p; x rule A when eval(a;) P(b c) end package q; rule").toOption.map
      (·.errors.map fun d => (d.kind, d.offset)) =
      some [(.noViableAlternative, some 11), (.general, some 25), (.mismatchedSet, some 38),
        (.mismatchedToken, some 41), (.failedPredicate, some 45), (.mismatchedSet, some 60)] := by
    decide +kernel
  cases h :
      parse 900 {} "orders" "package p; x rule A when eval(a;) P(b c) end package q; rule" with
  | error f =>
    rw [h] at herrors
    cases herrors
  | ok r =>
    rw [h] at herrors
    exact ⟨r, rfl, Option.some.inj herrors, parse_diagnostics_ordered {} rfl "orders" _ h⟩

end Rulebook
