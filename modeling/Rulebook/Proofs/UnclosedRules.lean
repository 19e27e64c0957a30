import Rulebook.Proofs.Blanked
import Rulebook.Proofs.Interspersed
import Rulebook.Proofs.SharedConditions
import Rulebook.Proofs.UnclosedPatterns
import Rulebook.Proofs.Unread

/-!
# Rules whose last pattern is not closed

In a rule without complaint, whose conditions end with a pattern that has constraints, the
parenthesis that closes the pattern is replaced by a space. This is one error, at the `then` behind
it. The rule keeps all that it had, and what stands behind the rule is read as it is alone.
-/

namespace Rulebook

open Rulebook.Parser

variable {frames : Nat}

/-! ### What is left of a text -/

theorem Cursor.current_of_rest {c : Cursor} {x r : List Token} {a : Token}
    (hc : c.triviaVisible = false) (h : c.rest = x ++ a :: r) (hx : visible x = [])
    (ha : a.isTrivia = false) : c.current = a := by
  rw [Cursor.current_of_hidden hc, Cursor.ahead, h, visible_append, hx,
    visible_cons_of_not_trivia ha]
  rfl

theorem Cursor.rest_consume_of_rest {c : Cursor} {x r : List Token} {a : Token}
    (hend : a.kind ≠ .endOfInput) (hc : c.triviaVisible = false) (h : c.rest = x ++ a :: r)
    (hx : visible x = []) (ha : a.isTrivia = false) : c.consume.rest = r := by
  have hcurrent := Cursor.current_of_rest hc h hx ha
  obtain ⟨trivia, htrivia, hrest, -⟩ := Cursor.rest_of_current (c := c) (hcurrent ▸ hend)
  rw [h, hcurrent] at hrest
  obtain ⟨z, rfl, hz⟩ := append_of_trivia_before hrest hx ha
  cases z with
  | nil => exact (List.cons.inj hz).2.symm
  | cons b z =>
    obtain ⟨rfl, -⟩ := List.cons.inj hz
    rw [visible_append, visible_cons_of_not_trivia ha] at htrivia
    exact absurd htrivia (by simp)

namespace Parser

variable {s t u v : State} {x y rest blanks behind : List Token} {next : Token}
  {found : Consequence}

theorem calm_consequence (h : consequence s = .ok found t)
    (hkind : s.cursor.current.kind = .keyword .then_) :
    s.Calm t ∧ s.cursor.index < t.cursor.index ∧
    (s.trials = 0 → t.collector = s.collector.tokenMatched) := by
  have hs := State.Calm.advanced s
  have hevolves := Orderly.evolves_ok consequence h
  have hmoved : s.cursor.index < s.advanced.cursor.index :=
    Cursor.index_lt_consume (by rw [hkind]; simp)
  rw [consequence_eq hkind] at h
  obtain ⟨-, rfl⟩ := EStateM.Result.ok.inj h
  exact ⟨⟨hevolves, hs.package, hs.ruleName, hs.lastRecovery, hs.collector⟩,
    Nat.lt_of_lt_of_le hmoved (Nat.le_add_right ..), fun htrials => if_pos htrials⟩

/-- A consequence is read alike in two texts that go on alike, where the first one ends behind the
`end` of the consequence. -/
theorem consequence_again (hs : s.cursor.triviaVisible = false)
    (ht : t.cursor.triviaVisible = false) (hsrest : s.cursor.rest = x ++ next :: (rest ++ blanks))
    (htrest : t.cursor.rest = y ++ next :: (rest ++ behind)) (hx : visible x = [])
    (hy : visible y = []) (hnext : next.kind = .keyword .then_) (hblanks : visible blanks = [])
    (hu : consequence s = .ok found u) (hend : u.cursor.current.kind = .keyword .end_) :
    ∃ v e z, consequence t = .ok found v ∧ e.kind = .keyword .end_ ∧
      u.cursor.rest = e :: (z ++ blanks) ∧ v.cursor.rest = e :: (z ++ behind) := by
  have hvisible : next.isTrivia = false := by rw [Token.isTrivia, hnext]; rfl
  have hlive : next.kind ≠ .endOfInput := by rw [hnext]; simp
  have hscurrent := Cursor.current_of_rest hs hsrest hx hvisible
  have htcurrent := Cursor.current_of_rest ht htrest hy hvisible
  have hsnext : s.advanced.cursor.rest = rest ++ blanks :=
    Cursor.rest_consume_of_rest hlive hs hsrest hx hvisible
  have htnext : t.advanced.cursor.rest = rest ++ behind :=
    Cursor.rest_consume_of_rest hlive ht htrest hy hvisible
  obtain ⟨r, hr, hstarts⟩ := beforeEnd_append (rest ++ blanks)
  rw [consequence_eq (hscurrent ▸ hnext), hscurrent, hsnext] at hu
  obtain ⟨rfl, rfl⟩ := EStateM.Result.ok.inj hu
  have hrest : (s.advanced.moved (beforeEnd (rest ++ blanks)).length).cursor.rest = r :=
    Cursor.rest_moved (hsnext.trans hr)
  have hhidden :
      (s.advanced.moved (beforeEnd (rest ++ blanks)).length).cursor.triviaVisible = false :=
    (Cursor.triviaVisible_consume _).trans hs
  cases r with
  | nil =>
    rw [Cursor.current_of_rest_nil hrest, Cursor.kind_last] at hend
    cases hend
  | cons e z =>
    have he : e.isTrivia = false := hstarts e rfl
    rw [Cursor.current_of_rest (x := []) hhidden hrest visible_nil he] at hend
    -- the `end` is among what the texts have in common
    obtain ⟨z, hz, rfl⟩ := append_of_trivia_behind hr hblanks he
    have hsame : beforeEnd (rest ++ behind) = beforeEnd (rest ++ blanks) := by
      refine beforeEnd_append_of_lt ?_ behind
      rw [congrArg List.length hz, List.length_append, List.length_cons]
      omega
    have hthen := consequence_eq (s := t) (htcurrent ▸ hnext)
    rw [htcurrent, htnext, hsame] at hthen
    refine ⟨_, e, z, hthen, hend, hrest, Cursor.rest_moved (htnext.trans ?_)⟩
    rw [← List.cons_append, ← List.append_assoc, ← hz]

theorem closing_of_end (h : s.cursor.current.kind = .keyword .end_) :
    closing s = skip .semicolon s.advanced := by
  have hkeyword : keyword .end_ s = .ok s.cursor.current s.advanced :=
    (expect_eq _ s).trans (if_pos h)
  unfold closing
  rw [bind_of_ok hkeyword]

/-- A rule ends with `end` or with a semicolon. -/
theorem closer_of_closing (hs : s.cursor.triviaVisible = false) (h : closing s = .ok () t) :
    ∃ last, t.cursor.previous = some last ∧ last.kind ∈ closerKinds := by
  have hkind := kind_of_expect_bind h
  have hprevious {s : State} (hs : s.cursor.triviaVisible = false) {kind : TokenKind}
      (hkind : s.cursor.current.kind = kind) (hcloser : kind ∈ closerKinds) :
      ∃ last, s.advanced.cursor.previous = some last ∧ last.kind ∈ closerKinds :=
    ⟨_, Cursor.previous_consume hs fun hno => absurd (hno ▸ hkind ▸ hcloser) (by decide),
      hkind ▸ hcloser⟩
  rw [closing_of_end hkind] at h
  by_cases hsemicolon : s.advanced.cursor.current.kind = .symbol .semicolon
  · have hskip : skip .semicolon s.advanced = .ok () s.advanced.advanced :=
      bind_of_ok (accept_of_eq hsemicolon)
    obtain ⟨-, rfl⟩ := EStateM.Result.ok.inj (hskip.symm.trans h)
    exact hprevious ((Cursor.triviaVisible_consume _).trans hs) hsemicolon (by decide)
  · have hskip : skip .semicolon s.advanced = .ok () s.advanced :=
      bind_of_ok (accept_of_ne hsemicolon)
    obtain ⟨-, rfl⟩ := EStateM.Result.ok.inj (hskip.symm.trans h)
    exact hprevious hs hkind (by decide)

theorem skip_semicolon_of_severed (hs : s.cursor.triviaVisible = false)
    (hrest : s.cursor.rest = x ++ behind) (hx : visible x = [])
    (hsevered : ∀ a ∈ (visible behind).head?, a.kind ≠ .symbol .semicolon) :
    skip .semicolon s = .ok () s := by
  refine bind_of_ok (accept_of_ne ?_)
  have hahead : s.cursor.ahead = visible behind := by
    rw [Cursor.ahead, hrest, visible_append, hx]
    rfl
  rw [Cursor.current_of_hidden hs, hahead]
  cases hbehind : visible behind with
  | nil => simp [Cursor.last, Token.endOfInput]
  | cons a more => exact hsevered a (by rw [hbehind]; rfl)

theorem skip_semicolon_of_rest {c : Token} (hs : s.cursor.triviaVisible = false)
    (hrest : s.cursor.rest = x ++ c :: behind) (hx : visible x = [])
    (hc : c.kind = .symbol .semicolon) :
    skip .semicolon s = .ok () s.advanced ∧ s.advanced.cursor.rest = behind ∧
      s.advanced.cursor.previous = some c := by
  have hvisible : c.isTrivia = false := by rw [Token.isTrivia, hc]; rfl
  have hlive : c.kind ≠ .endOfInput := by rw [hc]; simp
  have hcurrent := Cursor.current_of_rest hs hrest hx hvisible
  exact ⟨bind_of_ok (accept_of_eq (hcurrent ▸ hc)),
    Cursor.rest_consume_of_rest hlive hs hrest hx hvisible,
    hcurrent ▸ Cursor.previous_consume hs (hcurrent ▸ hlive)⟩

/-- The `end` of a rule and the semicolon that may follow it are read alike where the second text
goes on with no semicolon. -/
theorem closing_again {e : Token} {z : List Token} (hs : s.cursor.triviaVisible = false)
    (ht : t.cursor.triviaVisible = false) (he : e.kind = .keyword .end_)
    (hsrest : s.cursor.rest = e :: (z ++ blanks)) (htrest : t.cursor.rest = e :: (z ++ behind))
    (hblanks : visible blanks = [])
    (hsevered : ∀ a ∈ (visible behind).head?, a.kind ≠ .symbol .semicolon)
    (hu : closing s = .ok () u) (hend : u.cursor.ahead = []) :
    ∃ v r last, closing t = .ok () v ∧ visible r = [] ∧ v.cursor.rest = r ++ behind ∧
      u.cursor.previous = some last ∧ v.cursor.previous = some last ∧ t.Calm v := by
  have hvisible : e.isTrivia = false := by rw [Token.isTrivia, he]; rfl
  have hlive : e.kind ≠ .endOfInput := by rw [he]; simp
  have htaken {s : State} {more : List Token} (hs : s.cursor.triviaVisible = false)
      (hrest : s.cursor.rest = e :: (z ++ more)) : closing s = skip .semicolon s.advanced ∧
        s.advanced.cursor.triviaVisible = false ∧ s.advanced.cursor.rest = z ++ more ∧
        s.advanced.cursor.previous = some e := by
    have hcurrent := Cursor.current_of_rest (x := []) hs hrest visible_nil hvisible
    exact ⟨closing_of_end (hcurrent ▸ he), (Cursor.triviaVisible_consume _).trans hs,
      Cursor.rest_consume_of_rest (x := []) hlive hs hrest visible_nil hvisible,
      hcurrent ▸ Cursor.previous_consume hs (hcurrent ▸ hlive)⟩
  obtain ⟨hsclosing, hshidden, hsnext, hsprevious⟩ := htaken hs hsrest
  obtain ⟨htclosing, hthidden, htnext, htprevious⟩ := htaken ht htrest
  rw [hsclosing] at hu
  rw [htclosing]
  by_cases hz : visible z = []
  · have hstop := skip_semicolon_of_severed hshidden hsnext hz (by rw [hblanks]; rintro _ ⟨⟩)
    obtain ⟨-, rfl⟩ := EStateM.Result.ok.inj (hstop.symm.trans hu)
    exact ⟨_, z, e, skip_semicolon_of_severed hthidden htnext hz hsevered, hz, htnext, hsprevious,
      htprevious, .advanced t⟩
  · obtain ⟨before, c, after, rfl, hbefore, hc⟩ := exists_first_visible hz
    rw [List.append_assoc, List.cons_append] at hsnext htnext
    have hsemicolon : c.kind = .symbol .semicolon := by
      by_contra hno
      have hstop := skip_semicolon_of_severed hshidden hsnext hbefore (by
        rw [visible_cons_of_not_trivia hc]
        rintro _ ⟨⟩
        exact hno)
      obtain ⟨-, rfl⟩ := EStateM.Result.ok.inj (hstop.symm.trans hu)
      rw [Cursor.ahead, hsnext, visible_append, hbefore, visible_cons_of_not_trivia hc] at hend
      cases hend
    obtain ⟨hskip, hrest, hlast⟩ := skip_semicolon_of_rest hshidden hsnext hbefore hsemicolon
    obtain ⟨hskip', hrest', hlast'⟩ := skip_semicolon_of_rest hthidden htnext hbefore hsemicolon
    obtain ⟨-, rfl⟩ := EStateM.Result.ok.inj (hskip.symm.trans hu)
    rw [Cursor.ahead, hrest, visible_append, hblanks, List.append_nil] at hend
    exact ⟨_, after, c, hskip', hend, hrest', hlast, hlast',
      (State.Calm.advanced t).trans (.advanced _)⟩

/-! ### Rules in parts -/

theorem gathered_eq_ok {α : Type} {p : Parser (Harvest α)} {a : α} :
    (p >>= gathered) s = .ok a t ↔ p s = .ok { found := a } t := by
  constructor
  · intro h
    obtain ⟨⟨found, failure⟩, u, hu, h⟩ := bind_eq_ok.1 h
    cases failure with
    | none =>
      obtain ⟨rfl, rfl⟩ := pure_ok h
      exact hu
    | some e => cases h
  · intro h
    rw [bind_of_ok h]
    rfl

/-- The parts of a rule with conditions, none of which failed, and the states between them. -/
structure RuleRun (s : State) where
  token : Token
  name : String
  begun : Rule
  anchor : Token
  elements : List Condition
  consequence : Consequence
  entered : State
  titled : State
  attributed : State
  anchored : State
  opened : State
  read : State
  captured : State
  closed : State
  token_eq : keyword .rule s = .ok token entered
  name_eq : title entered = .ok name titled
  begun_eq :
    (ruleAttributes
      { location := .ofToken token, name, attributes := titled.package.attributes } >>= gathered)
      (titled.named name) = .ok begun attributed
  when_kind : attributed.cursor.current.kind = .keyword .when_
  anchor_eq : advance attributed = .ok anchor anchored
  opened_eq : skip .colon anchored = .ok () opened
  elements_eq : blockElements opened = .ok elements read
  consequence_eq : Parser.consequence read = .ok consequence captured
  closed_eq : Parser.closing captured = .ok () closed

namespace RuleRun

variable (run : RuleRun s)

/-- The rule that was read. -/
def rule : Rule := { run.begun with
  conditions := some ⟨blockLocation (some run.anchor) run.elements, run.elements⟩
  consequence := run.consequence
  location := (Location.ofToken run.token).closeAt (run.closed.cursor.previous.map (·.stop)) }

/-- The state after the rule has entered the package. -/
def last : State :=
  (State.declared (fun p => { p with rules := p.rules ++ [.rule run.rule] })
    { run.closed with ruleName := none }).noted (.ruleRead run.name run.token.line)

theorem ruleBody_eq :
    (ruleBody { location := .ofToken run.token, name := run.name
                attributes := run.titled.package.attributes } >>= gathered)
      (run.titled.named run.name) = .ok { run.begun with
        conditions := some ⟨blockLocation (some run.anchor) run.elements, run.elements⟩
        consequence := run.consequence } run.closed := by
  have hwhen : nextIsKeyword .when_ run.attributed = .ok true run.attributed :=
    congrArg (EStateM.Result.ok · run.attributed) (decide_eq_true run.when_kind)
  have hblock : conditionBlock run.attributed =
      .ok ⟨blockLocation (some run.anchor) run.elements, run.elements⟩ run.read := by
    unfold conditionBlock
    rw [bind_of_ok run.anchor_eq, bind_of_ok run.opened_eq]
    exact bind_of_ok run.elements_eq
  rw [ruleBody_gathered, bind_assoc, bind_of_ok run.begun_eq, Local.conditions_gathered, bind_assoc,
    bind_of_ok hwhen, if_pos rfl, bind_assoc, bind_of_ok hblock]
  refine (bind_of_ok (a := _) (t := run.read) rfl).trans ?_
  rw [ruleConsequence_gathered, bind_of_ok run.consequence_eq, bind_of_ok run.closed_eq]
  rfl

theorem trials_last (hs : s.trials = 0) : run.closed.trials = 0 := by
  have hentered := (Orderly.evolves_ok (keyword .rule) run.token_eq).trials
  have htitled := (Orderly.evolves_ok title run.name_eq).trials
  have hclosed : run.closed.trials = run.titled.trials :=
    (Orderly.evolves_ok _ run.ruleBody_eq).trials
  rw [hclosed, htitled, hentered, hs]

theorem ruleStatement_eq (hs : s.trials = 0) : ruleStatement s = .ok run.rule run.last := by
  let unnamed : State := { run.closed with ruleName := none }
  have hbody : recovering run.name
      (ruleBody { location := .ofToken run.token, name := run.name
                  attributes := run.titled.package.attributes })
      (fun rule location => { rule with location }) (.ofToken run.token) run.titled =
      .ok run.rule unnamed :=
    recovering_of_ok _ (gathered_eq_ok.1 run.ruleBody_eq)
  have htrials : unnamed.trials = 0 := run.trials_last hs
  have htrial : inTrial unnamed = .ok false unnamed :=
    congrArg (EStateM.Result.ok · unnamed) (decide_eq_false (by rw [htrials]; simp))
  unfold ruleStatement
  rw [bind_of_ok run.token_eq, bind_of_ok run.name_eq]
  refine (bind_of_ok (p := get) rfl).trans ?_
  rw [bind_of_ok hbody, bind_of_ok htrial, if_neg Bool.false_ne_true,
    bind_of_ok (declare_of_idle _ htrials)]
  rfl

end RuleRun

theorem recovering_of_ruleStatement {rule : Rule} (hs : s.trials = 0)
    (h : ruleStatement s = .ok rule t) :
    ∃ token name u v w, keyword .rule s = .ok token u ∧ title u = .ok name v ∧
      recovering name
        (ruleBody { location := .ofToken token, name, attributes := v.package.attributes })
        (fun rule location => { rule with location }) (.ofToken token) v = .ok rule w ∧
      t = (w.declared fun p => { p with rules := p.rules ++ [.rule rule] }).noted
        (.ruleRead name token.line) := by
  obtain ⟨token, u, htoken, h⟩ := bind_eq_ok.1 h
  obtain ⟨name, v, hname, h⟩ := bind_eq_ok.1 h
  obtain ⟨now, _, hnow, h⟩ := bind_eq_ok.1 h
  obtain ⟨rfl, rfl⟩ := EStateM.Result.ok.inj hnow
  obtain ⟨r, w, hw, h⟩ := bind_eq_ok.1 h
  have htrials : w.trials = 0 := by
    rw [(Orderly.evolves_ok _ hw).trials, (Orderly.evolves_ok title hname).trials,
      (Orderly.evolves_ok (keyword .rule) htoken).trials, hs]
  obtain ⟨trying, _, htrying, h⟩ := bind_eq_ok.1 h
  obtain ⟨rfl, rfl⟩ := EStateM.Result.ok.inj htrying
  rw [htrials, if_neg (by simp)] at h
  obtain ⟨_, x, hx, h⟩ := bind_eq_ok.1 h
  obtain ⟨_, y, hy, h⟩ := bind_eq_ok.1 h
  rw [declare_of_idle _ htrials] at hx
  obtain ⟨-, rfl⟩ := EStateM.Result.ok.inj hx
  obtain ⟨-, rfl⟩ := EStateM.Result.ok.inj hy
  obtain ⟨rfl, rfl⟩ := pure_ok h
  exact ⟨token, name, u, v, w, htoken, hname, hw, rfl⟩

/-- A rule with conditions of which nothing was complained is one whose parts were all read. -/
theorem exists_ruleRun {rule : Rule} {b : Block} (hs : s.trials = 0)
    (h : ruleStatement s = .ok rule t) (hclean : t.collector.received = 0)
    (hsome : rule.conditions = some b) : ∃ run : RuleRun s, rule = run.rule ∧ t = run.last := by
  obtain ⟨token, name, u, v, w, htoken, hname, hw, rfl⟩ := recovering_of_ruleStatement hs h
  have hwclean : w.collector.received = 0 := hclean
  have hle := (Orderly.evolves_ok _ hw).received_le
  rw [(strict_recovering ..).iff (by omega), strictly, underName_eq_ok] at hw
  obtain ⟨w', hw, rfl⟩ := hw
  obtain ⟨found, x, hfound, hw⟩ := bind_eq_ok.1 hw
  obtain ⟨l, y, hl, hw⟩ := bind_eq_ok.1 hw
  obtain ⟨rfl, rfl⟩ := pure_ok hw
  obtain ⟨rfl, rfl⟩ := close_ok hl
  rw [ruleBody_gathered, bind_assoc] at hfound
  obtain ⟨begun, attributed, hbegun, hfound⟩ := bind_eq_ok.1 hfound
  obtain ⟨conditioned, read, hconditioned, hfound⟩ := bind_eq_ok.1 hfound
  rw [Local.conditions_gathered] at hconditioned
  rw [ruleConsequence_gathered] at hfound
  obtain ⟨consequence, captured, hconsequence, hfound⟩ := bind_eq_ok.1 hfound
  obtain ⟨_, closed, hclosed, hfound⟩ := bind_eq_ok.1 hfound
  obtain ⟨rfl, rfl⟩ := pure_ok hfound
  obtain ⟨asked, _, hasked, hconditioned⟩ := bind_eq_ok.1 hconditioned
  obtain ⟨rfl, rfl⟩ := EStateM.Result.ok.inj hasked
  split at hconditioned
  case isFalse =>
    obtain ⟨heq, -⟩ := pure_ok hconditioned
    obtain ⟨attributes, hattributes⟩ := ruleAttributes_found (gathered_eq_ok.1 hbegun)
    rw [heq, show begun = _ from hattributes] at hsome
    cases hsome
  case isTrue hwhen =>
    obtain ⟨block, _, hblock, hconditioned⟩ := bind_eq_ok.1 hconditioned
    obtain ⟨rfl, rfl⟩ := pure_ok hconditioned
    obtain ⟨anchor, anchored, hanchor, hblock⟩ := bind_eq_ok.1 hblock
    obtain ⟨_, opened, hopened, hblock⟩ := bind_eq_ok.1 hblock
    obtain ⟨elements, _, helements, hblock⟩ := bind_eq_ok.1 hblock
    obtain ⟨rfl, rfl⟩ := pure_ok hblock
    exact ⟨⟨token, name, begun, anchor, elements, consequence, u, _, attributed, anchored, opened,
      _, captured,
      _, htoken, hname, hbegun, of_decide_eq_true hwhen, hanchor, hopened, helements, hconsequence,
        hclosed⟩,
      rfl, rfl⟩

/-! ### The rule in the second text -/

section Again

variable {stack : Stack} {hashComments : Bool} {a b : String} {U : Unclosing hashComments a b}
  {name : Option String} {p : Pattern} {init : List Condition}

instance {α : Type} (h : Harvest α) : Composed (gathered h) := by
  unfold gathered; split <;> infer_instance

instance {α : Type} (h : Harvest α) : Inert (gathered h) := by
  unfold gathered; split <;> infer_instance

instance {α : Type} (h : Harvest α) : KeepsName (gathered h) := by
  unfold gathered; split <;> infer_instance

theorem State.Before.named (h : s.Before stack U name t) (new : String) :
    (s.named new).Before stack U (some new) (t.named new) where
  alongside := ⟨h.alongside.cursor, h.alongside.hidden, h.alongside.trials, h.alongside.stack⟩
  first := { h.first with }
  second := { h.second with }
  ruleName := rfl

namespace RuleRun

theorem clean (run : RuleRun s) (hclean : run.closed.collector.received = 0) :
    run.entered.collector.received = 0 ∧ run.titled.collector.received = 0 ∧
      run.attributed.collector.received = 0 ∧ run.anchored.collector.received = 0 ∧
      run.opened.collector.received = 0 ∧ run.read.collector.received = 0 := by
  have htitled := (Orderly.evolves_ok title run.name_eq).received_le
  have hattributed : run.titled.collector.received ≤ run.attributed.collector.received :=
    (Orderly.evolves_ok _ run.begun_eq).received_le
  have hanchored := (Orderly.evolves_ok advance run.anchor_eq).received_le
  have hopened := (Orderly.evolves_ok (skip .colon) run.opened_eq).received_le
  have hread := (Orderly.evolves_ok blockElements run.elements_eq).received_le
  have hcaptured := (Orderly.evolves_ok Parser.consequence run.consequence_eq).received_le
  have hclosed := (Orderly.evolves_ok Parser.closing run.closed_eq).received_le
  omega

theorem elements_opened (run : RuleRun s) (h : s.Untroubled stack hashComments a)
    (hclean : run.closed.collector.received = 0) :
    run.opened.Untroubled stack hashComments a ∧ Elements run.opened run.elements run.read := by
  obtain ⟨hentered, htitled, hattributed, hanchored, hopened, hread⟩ := run.clean hclean
  have hnamed := (h.of_ok run.token_eq hentered).of_ok run.name_eq htitled
  have hbegun : (run.titled.named run.name).Untroubled stack hashComments a :=
    { hnamed with }
  have hfirst : run.opened.Untroubled stack hashComments a :=
    ((hbegun.of_ok run.begun_eq hattributed).of_ok run.anchor_eq hanchored).of_ok
      run.opened_eq hopened
  exact ⟨hfirst, elements_of_blockElements hfirst.trials run.elements_eq (hread.trans hopened.symm)⟩

/-- A rule that is read again in the second text, where the parenthesis of the pattern `p` is missed
behind the elements `init`. -/
structure Unclosed (run : RuleRun s) (U : Unclosing hashComments a b) (init : List Condition)
    (p : Pattern) (t : State) where
  again : RuleRun t
  closing : State
  missing : State
  left : List Token
  last : Token
  before : closing.Before s.stack U (some run.name) missing
  atClosing : U.AtClosing closing.cursor
  atNext : U.AtNext missing.cursor
  calm : missing.missed.Calm again.closed
  collector_eq : again.closed.collector = missing.missed.collector.tokenMatched
  elements_first : run.elements = init ++ [.pattern p]
  elements_eq :
      again.elements = init ++ [.pattern (p.unclosed (missing.cursor.previous.map (·.stop)))]
  rule_eq : again.rule = { run.rule with
    conditions := some ⟨blockLocation (some run.anchor) again.elements, again.elements⟩ }
  visible_left : visible left = []
  rest_eq : again.closed.cursor.rest = left ++ U.behind
  previous_first : run.closed.cursor.previous = some last
  previous_eq : again.closed.cursor.previous = some last
  index_lt : missing.cursor.index < again.closed.cursor.index

/-- What stands before the conditions is read again, where something is left behind it of what the
texts have in common. -/
theorem opening_again (run : RuleRun s) (h : s.Before stack U none t)
    (hclean : run.closed.collector.received = 0) (hbrink : ¬run.opened.cursor.AtBrink U.place) :
    ∃ t₁ t₂ t₃ t₄ t₅ : State, keyword .rule t = .ok run.token t₁ ∧ title t₁ = .ok run.name t₂ ∧
      (ruleAttributes
          { location := .ofToken run.token, name := run.name,
            attributes := t₂.package.attributes } >>= gathered)
        (t₂.named run.name) = .ok run.begun t₃ ∧
      t₃.cursor.current.kind = .keyword .when_ ∧ advance t₃ = .ok run.anchor t₄ ∧
      skip .colon t₄ = .ok () t₅ ∧ run.opened.Before stack U (some run.name) t₅ := by
  obtain ⟨hentered, htitled, hattributed, hanchored, hopened, -⟩ := run.clean hclean
  have hbrink₄ : ¬run.anchored.cursor.AtBrink U.place := fun hno =>
    hbrink ((Orderly.evolves_ok (skip .colon) run.opened_eq).atBrink hno)
  have hbrink₃ : ¬run.attributed.cursor.AtBrink U.place := fun hno =>
    hbrink₄ ((Orderly.evolves_ok advance run.anchor_eq).atBrink hno)
  have hbrink₂ : ¬run.titled.cursor.AtBrink U.place := fun hno =>
    hbrink₃ ((Orderly.evolves_ok _ run.begun_eq).atBrink hno)
  have hbrink₁ : ¬run.entered.cursor.AtBrink U.place := fun hno =>
    hbrink₂ ((Orderly.evolves_ok title run.name_eq).atBrink hno)
  obtain ⟨t₁, htoken, h₁⟩ := h.step _ run.token_eq hentered hbrink₁
  obtain ⟨t₂, hname, h₂⟩ := h₁.step title run.name_eq htitled hbrink₂
  obtain ⟨t₃, hbegun, h₃⟩ := (h₂.named run.name).step _ run.begun_eq hattributed hbrink₃
  obtain ⟨t₄, hanchor, h₄⟩ := h₃.step advance run.anchor_eq hanchored hbrink₄
  obtain ⟨t₅, hcolon, h₅⟩ := h₄.step (skip .colon) run.opened_eq hopened hbrink
  have hattributes : run.titled.package.attributes = t₂.package.attributes := by
    rw [h₂.first.package, h₂.second.package]
  have hwhen : t₃.cursor.current.kind = .keyword .when_ := by
    rw [← h₃.alongside.cursor.current_eq hbrink₃]
    exact run.when_kind
  exact ⟨t₁, t₂, t₃, t₄, t₅, htoken, hname, hattributes ▸ hbegun, hwhen, hanchor, hcolon, h₅⟩

theorem ending_again (run : RuleRun s) {w v : State} (hw : run.read = w.advanced)
    (h : w.Before stack U name v) (hclosing : U.AtClosing w.cursor) (hnext : U.AtNext v.cursor)
    (hend : run.closed.cursor.ahead = []) :
    ∃ t₆ t₇ left last, Parser.consequence v.missed = .ok run.consequence t₆ ∧
      Parser.closing t₆ = .ok () t₇ ∧
      v.missed.Calm t₇ ∧ t₇.collector = v.missed.collector.tokenMatched ∧
      v.missed.cursor.index < t₇.cursor.index ∧ visible left = [] ∧
      t₇.cursor.rest = left ++ U.behind ∧
      run.closed.cursor.previous = some last ∧ t₇.cursor.previous = some last := by
  obtain ⟨x, hx, hrest⟩ := hnext.rest
  have hread : run.read.cursor.triviaVisible = false := by
    rw [hw]
    exact (Cursor.triviaVisible_consume _).trans h.alongside.hidden
  have hmissed : v.missed.cursor.triviaVisible = false := h.alongside.symm.hidden
  have hthen : v.missed.cursor.current.kind = .keyword .then_ := by
    rw [← U.next_kind, ← hnext.current]
    rfl
  obtain ⟨t₆, e, z, hconsequence, he, hcaptured, hcaptured'⟩ := consequence_again hread hmissed
    (by rw [hw]; exact hclosing.rest_consume) hrest U.visible_beyond hx U.next_kind U.visible_blanks
    run.consequence_eq (kind_of_expect_bind run.closed_eq)
  obtain ⟨hcalm, hmoved, hmatched⟩ := calm_consequence hconsequence hthen
  obtain ⟨t₇, left, last, hclosed, hleft, hrest', hprevious, hprevious', hcalm'⟩ := closing_again
    ((Orderly.evolves_ok Parser.consequence run.consequence_eq).triviaVisible.trans hread)
    (hcalm.evolves.triviaVisible.trans hmissed) he hcaptured hcaptured' U.visible_blanks U.severed
    run.closed_eq hend
  have hcollector : t₇.collector = v.missed.collector.tokenMatched := by
    have hthen := hmatched h.second.trials
    rcases hcalm'.collector with hsame | hsame <;> rw [hsame, hthen]
    rfl
  exact ⟨t₆, t₇, left, last, hconsequence, hclosed, hcalm.trans hcalm', hcollector,
    Nat.lt_of_lt_of_le hmoved hcalm'.evolves.index, hleft, hrest', hprevious, hprevious'⟩

/-- Where the last element of the conditions is the pattern that is closed by the parenthesis, the
rule is read again up to its end, but for the parenthesis. -/
theorem exists_unclosed (run : RuleRun s) (h : s.Before stack U none t)
    (hclean : run.closed.collector.received = 0) (helements : run.elements = init ++ [.pattern p])
    (hsome : p.constraints ≠ []) (hparen : p.rightParen = some U.closing.start)
    (hend : run.closed.cursor.ahead = []) : Nonempty (run.Unclosed U init p t) := by
  obtain ⟨-, -, -, -, -, hread⟩ := run.clean hclean
  obtain ⟨hfirst, hlist⟩ := run.elements_opened h.first hclean
  rw [helements] at hlist
  -- before the last element there is something left of what the texts have in common
  have hbrink := not_atBrink_of_elements hfirst hlist hread hsome hparen
  obtain ⟨t₁, t₂, t₃, t₄, t₅, htoken, hname, hbegun, hwhen, hanchor, hcolon, hbefore⟩ :=
    run.opening_again h hclean hbrink
  obtain ⟨w, v, hw, hwv, hclosing, hnext, hitems⟩ :=
    items_of_elements hbefore hlist hread hsome hparen
  obtain ⟨t₆, t₇, left, last, hconsequence, hclosed, hcalm, hcollector, hmoved, hleft, hrest,
    hprevious, hprevious'⟩ := run.ending_again hw hwv hclosing hnext hend
  exact ⟨{
    again :=
      ⟨run.token, run.name, run.begun, run.anchor, _, run.consequence, t₁, t₂, t₃, t₄, t₅,
        v.missed, t₆,
      t₇, htoken, hname, hbegun, hwhen, hanchor, hcolon, blockElements_of_items hitems,
        hconsequence, hclosed⟩
    closing := w
    missing := v
    left
    last
    before := h.first.stack ▸ hwv
    atClosing := hclosing
    atNext := hnext
    calm := hcalm
    collector_eq := hcollector
    elements_first := helements
    elements_eq := rfl
    rule_eq := by
      unfold rule
      rw [hprevious, hprevious']
    visible_left := hleft
    rest_eq := hrest
    previous_first := hprevious
    previous_eq := hprevious'
    index_lt := hmoved }⟩

end RuleRun

end Again

end Parser

/-! ### The two texts of a rule -/

theorem length_blanked (text : String) (n : Nat) : (blanked text n).length = text.length := by
  rw [blanked, String.length_ofList, List.length_set, String.length_toList]

section Texts

variable {hashComments : Bool} {a b : String} {xs ys : List Token} {paren next : Token}

theorem exists_of_visible_eq_cons {ts us : List Token} {t : Token} (h : visible ts = t :: us) :
    ∃ x y, ts = x ++ t :: y ∧ visible x = [] ∧ visible y = us := by
  obtain ⟨x, y, rfl, hx, -, hy⟩ := List.filter_eq_cons_iff.1 h
  exact ⟨x, y, rfl, List.filter_eq_nil_iff.2 hx, hy⟩

/-- A rule whose last pattern is closed before `then`, and with a space for the parenthesis and
another text behind it. -/
theorem exists_unclosing (htokens : visible (tokens hashComments a) = xs ++ paren :: next :: ys)
    (hparen : paren.kind = .symbol .rparen) (hnext : next.kind = .keyword .then_)
    (hcloser : ∃ t, (visible (tokens hashComments a)).getLast? = some t ∧ t.kind ∈ closerKinds)
    (hcomment : ¬EndsInOpenComment hashComments a)
    (hfence : ∃ t, (visible (tokens hashComments b)).head? = some t ∧ t.kind ∈ fenceKinds) :
    ∃ (J : Juncture hashComments (blanked a paren.start) b)
      (U : Unclosing hashComments a (blanked a paren.start ++ "\n" ++ b)),
      U.closing = paren ∧ U.next = next ∧ visible U.base = xs ∧ U.behind = J.between ++ J.shared.map
        (Token.moved (blanked a paren.start ++ "\n").length
          (lineFeeds (blanked a paren.start ++ "\n"))) := by
  obtain ⟨x₀, z₀, ha, hx₀, hz₀⟩ := Interim.exists_visible_append htokens
  obtain ⟨x₁, z, rfl, hx₁, hz⟩ := exists_of_visible_eq_cons hz₀
  rw [← List.append_assoc] at ha
  obtain ⟨y, u, v, w, r, hbase, rfl, hu, hv, hw, hblanked⟩ := tokens_blanked ha hparen
  rw [visible_append, hv, List.nil_append] at hz
  obtain ⟨gap, more, rfl, hgap, hmore⟩ := exists_of_visible_eq_cons hz
  have hvisible : next.isTrivia = false := by rw [Token.isTrivia, hnext]; rfl
  -- the blanked text ends as the first one does
  have hlast : (tokens hashComments (blanked a paren.start)).getLast? =
      (tokens hashComments a).getLast? := by
    rw [hblanked, ha, ← List.append_assoc, ← List.append_assoc, List.getLast?_append_cons,
      List.append_cons, ← List.append_assoc, ← List.append_assoc, List.getLast?_append_cons]
  have hlast' : (visible (tokens hashComments (blanked a paren.start))).getLast? =
      (visible (tokens hashComments a)).getLast? := by
    have hvisible' : visible (gap ++ next :: more) = next :: visible more := by
      rw [visible_append, hgap, visible_cons_of_not_trivia hvisible]
      rfl
    rw [hblanked, htokens, visible_append, visible_append, hvisible', hmore, ← List.append_assoc,
      List.getLast?_append_cons, List.getLast?_append_cons, List.getLast?_cons_cons]
  obtain ⟨J⟩ := exists_juncture (a := blanked a paren.start) (hlast' ▸ hcloser)
    (fun ⟨t, ht, hrest⟩ => hcomment ⟨t, hlast ▸ ht, hrest⟩) hfence
  have hfirst := J.first_eq
  rw [hblanked, ← List.append_assoc, ← List.append_assoc] at hfirst
  obtain ⟨rest, hJ, rfl⟩ := append_of_trivia_behind hfirst.symm J.visible_blanks hvisible
  refine ⟨J, ⟨y, u, paren, v ++ gap, w ++ gap, next, rest, J.blanks, _, ?_, ?_, hu, ?_, ?_,
    J.visible_blanks, hparen, hnext, ?_⟩, rfl, rfl, ?_, rfl⟩
  · rw [ha, hbase]
    simp
  · rw [J.joined_eq, hJ]
    simp
  · rw [visible_append, hv, hgap]
    rfl
  · rw [visible_append, hw, hgap]
    rfl
  · obtain ⟨t, ts, ht, hk⟩ := J.fence
    rw [visible_append, J.visible_between, visible_map_moved, ht]
    rintro _ ⟨⟩ hsemicolon
    exact absurd (hsemicolon ▸ hk) (by decide)
  · have hxs := congrArg visible hbase
    rw [visible_append, visible_append, hx₀, hx₁, hu, List.append_nil, List.append_nil] at hxs
    exact hxs.symm

end Texts

/-! ### Statements behind the rule -/

section Behind

variable {settings : Settings} {sourceName a b : String} {J : Juncture settings.hashComments a b}
  {p : Package} {before : List Diagnostic} {s z : State} {q : ParseResult}

theorem Juncture.Past.idle (h : J.Past frames sourceName p s) : Idle s where
  hidden := by
    rw [h.cursor]
    exact hidden_scan _
  saved := by
    rw [h.cursor]
    exact (idle_ofText frames settings sourceName (a ++ "\n" ++ b)).saved
  trials := h.trials
  ruleName := h.ruleName

/-- Whatever was reported before, the second text is read behind the first one as it is alone. -/
theorem Juncture.Past.statements (h : J.Past frames sourceName p s)
    (hz : z.Beside (Collector.Follows before) s) (hmax : settings.maxErrors = none)
    (hq : parse frames settings sourceName b = .ok q) (hclean : q.errors = []) :
    ∃ n x, n ≠ 0 ∧ repeatWhile 1 unfinished anotherStatement z = .ok n x ∧
      (x.ended n).package.Like (sequel p (a ++ "\n")) q.package ∧
      (x.ended n).collector.errors = before := by
  let start := (State.ofText frames settings sourceName b).begun
  have hidle : Idle start := (idle_ofText frames settings sourceName b).begun
  have hst := h.abreast hmax
  have hst' : (J.trailing p).readings.Abreast s start :=
    { hst with package := { hst.package with } }
  have hkind : start.cursor.current.kind ∈ fenceKinds := J.kind_second frames sourceName
  have hunit : compilationUnit (.ofText frames settings sourceName b) =
      (Parser.statements >>= closeUnit) start := by
    rw [compilationUnit_eq, bind_of_ok (unitHead_of_fence hkind)]
  obtain ⟨t, hread, -, hquiet, -⟩ := exists_unit hq
  rw [hunit] at hread
  cases Agree.statements (T := (J.trailing p).readings) (fun h => h) (k := 1) hst' h.idle hidle with
  | astray hcut _ => exact hcut.elim
  | error _ hy => rw [bind_of_error hy] at hread; cases hread
  | @ok n m x y hx hy hcount hxy =>
    have hm : m ≠ 0 := ne_zero_of_statements (fun heq => absurd (heq ▸ hkind) (by decide)) hy
    have hn : n ≠ 0 := fun heq => hm (Nat.eq_zero_of_add_eq_zero (hcount.symm.trans heq)).2
    have hended : (J.trailing p).readings.Abreast (x.ended n) (y.ended m) := by
      rw [ended_of_ne hn, ended_of_ne hm]
      exact hxy.declared { hxy.package with }
    rw [bind_of_ok hy, closeUnit_eq] at hread
    obtain ⟨hdeclared, rfl⟩ := EStateM.Result.ok.inj hread
    have hnone : x.collector.errors = [] := by
      have hsilent : (y.ended m).collector.errors = [] := hquiet.symm.trans hclean
      have herrors := hended.reported.errors
      rw [Likeness.kept_eq _ fun _ => rfl, Likeness.kept_eq _ fun _ => rfl, hsilent,
        ended_of_ne hn] at herrors
      exact List.forall₂_nil_right_iff.1 herrors
    have hcomposed : Composed (repeatWhile 1 unfinished anotherStatement) := by
      unfold unfinished anotherStatement
      infer_instance
    obtain ⟨w, hw, hwx⟩ := hz.exists_ok_first (Collector.congruence_follows before) hx
    have hpackage : (w.ended n).package = (x.ended n).package := by
      rw [ended_of_ne hn, ended_of_ne hn]
      unfold State.declared
      rw [hwx.cursor, hwx.package]
    refine ⟨n, w, hn, hw, by rw [hpackage, ← hdeclared]; exact hended.package, ?_⟩
    rw [ended_of_ne hn]
    exact hwx.collector.errors.trans (by rw [hnone, List.append_nil])

end Behind

/-! ### The broken rule -/

/-- The block without the parenthesis that closes its last pattern. -/
def Block.unclosed (b : Block) (p : Pattern) (stop : Option Nat) : Block where
  location := { b.location with stop := (p.unclosed stop).location.stop }
  elements := b.elements.dropLast ++ [.pattern (p.unclosed stop)]

/-- The rule without the parenthesis that closes the last pattern of its conditions. -/
def Rule.unclosed (rule : Rule) (p : Pattern) (stop : Option Nat) : Rule :=
  { rule with conditions := rule.conditions.map (·.unclosed p stop) }

/-- What is recorded of a closing parenthesis that is missing before this token. -/
def missingDiagnostic (sourceName : String) (next : Token) (ruleName : String) : Diagnostic :=
  .ofToken (missingParen next).kind sourceName (missingParen next).message (some next)
    (some ruleName)

theorem blockLocation_concat (anchor : Option Token) (init : List Condition) (c : Condition) :
    blockLocation anchor (init ++ [c]) = { (init.headD c).location with
      stop := c.location.stop } := by
  unfold blockLocation
  rw [List.getLast?_concat]
  cases init <;> rfl

theorem unclosed_of_last (anchor : Option Token) (init : List Condition) (p : Pattern)
    (stop : Option Nat) :
    Block.unclosed ⟨blockLocation anchor (init ++ [.pattern p]), init ++ [.pattern p]⟩ p stop =
      ⟨blockLocation anchor (init ++ [.pattern (p.unclosed stop)]),
        init ++ [.pattern (p.unclosed stop)]⟩ := by
  unfold Block.unclosed
  rw [List.dropLast_concat, blockLocation_concat, blockLocation_concat]
  congr 1
  cases init with
  | nil => cases stop <;> rfl
  | cons c init => rfl

section Unclosed

variable {hashComments : Bool} {sourceName a b : String} {U : Unclosing hashComments a b}
  {init : List Condition}
  {p : Pattern} {s t : State} {run : RuleRun s} (m : run.Unclosed U init p t)

namespace Parser.RuleRun.Unclosed

theorem rule_unclosed :
    m.again.rule = run.rule.unclosed p ((visible U.base).getLast?.map (·.stop)) := by
  have hstop : m.missing.cursor.previous = (visible U.base).getLast? := by
    rw [← m.before.alongside.cursor.previous_eq, m.atClosing.previous m.before.first.cursor]
  rw [m.rule_eq, m.elements_eq, hstop, ← unclosed_of_last, ← m.elements_first]
  rfl

theorem package_last : m.again.last.package =
    { rules := [.rule (run.rule.unclosed p ((visible U.base).getLast?.map (·.stop)))]
      location := m.again.last.package.location } := by
  have hkept : m.again.closed.package = { location := m.again.closed.package.location } := by
    rw [m.calm.package]
    exact m.before.second.package
  show State.package { m.again.closed with package := { m.again.closed.package with
    rules := m.again.closed.package.rules ++ [.rule m.again.rule] } } = _
  rw [m.rule_unclosed, hkept]
  rfl

/-- The parenthesis is the one thing that was complained of. -/
theorem errors_last (hmax : m.again.last.collector.maxErrors = none)
    (hsource : m.again.last.collector.sourceName = sourceName) :
    m.again.last.collector.errors = [missingDiagnostic sourceName U.next run.name] ∧
      m.again.last.collector.recovering = false := by
  have hreported : m.again.last.collector =
      (m.missing.collector.report (missingParen U.next) (some run.name)).tokenMatched := by
    rw [← m.atNext.current, ← m.before.ruleName]
    exact m.collector_eq
  have hextends :=
    (Collector.extends_report m.missing.collector (missingParen U.next) (some run.name)).trans
    (Collector.extends_tokenMatched _)
  rw [← hreported] at hextends
  have hsilent : m.missing.collector.errors = [] := by
    have hreceived := m.before.second.received
    unfold Collector.received at hreceived
    exact List.eq_nil_of_length_eq_zero (by omega)
  rw [Collector.report_of_uncapped (hextends.maxErrors.symm.trans hmax) m.before.second.recovering,
    hsilent, hextends.sourceName.symm.trans hsource] at hreported
  rw [hreported]
  exact ⟨rfl, rfl⟩

end Parser.RuleRun.Unclosed

end Unclosed

section Broken

variable {settings : Settings} {sourceName a b : String} {rule : Rule} {block : Block}
  {init : List Condition}
  {p : Pattern} {first second : ParseResult}

theorem statement_of_rule {s t : State} (hk : s.cursor.current.kind = .keyword .rule)
    (h : ruleStatement s = .ok rule t) : statement s = .ok () t := by
  unfold statement
  rw [bind_of_ok (current_eq s)]
  simp only [hk]
  exact bind_of_ok h

theorem exists_run_of_parse (hmax : settings.maxErrors = none)
    (hfirst : parse frames settings sourceName a = .ok first) (hclean : first.errors = [])
    (hsize : first.package.size = 1) (hrules : first.package.rules = [.rule rule])
    (hhead : ∃ t, (visible (tokens settings.hashComments a)).head? = some t ∧
      t.kind = .keyword .rule)
    (hconditions : rule.conditions = some block) :
    ∃ run : RuleRun (State.ofText frames settings sourceName a).begun, rule = run.rule ∧
      run.closed.collector.received = 0 ∧ run.closed.cursor.ahead = [] := by
  have hidle := (idle_ofText frames settings sourceName a).begun
  obtain ⟨t, ht, hk⟩ := hhead
  obtain ⟨u, hstatement, huclean, hend, hpackage⟩ :=
    exists_sole_statement hmax hfirst hclean hsize ⟨t, ht, by rw [hk]; decide⟩
  have hkind :
      (State.ofText frames settings sourceName a).begun.cursor.current.kind = .keyword .rule := by
    rw [← hk, ← current_ofText frames sourceName ht]
    rfl
  obtain ⟨read, hread⟩ := ruleStatement_of_statement hkind hstatement
  have hadded : u.package.rules = [.rule read] := rules_of_ruleStatement hidle.trials hread
  have hsame : [Entry.rule rule] = [.rule read] := by
    rw [← hrules, ← hadded, hpackage]
  obtain rfl := Entry.rule.inj (List.cons.inj hsame).1
  obtain ⟨run, hrule, rfl⟩ := exists_ruleRun hidle.trials hread huclean hconditions
  have hevolves := Orderly.evolves_ok ruleStatement hread
  exact ⟨run, hrule, huclean, Cursor.ahead_eq_nil_of_end (hidle.evolves hevolves).hidden
    (hevolves.front ▸ (faithful_scan a).plain) hend⟩

theorem index_le_of_run (run : RuleRun (State.ofText frames settings sourceName a).begun) :
    run.closed.cursor.index ≤ run.closed.cursor.front.size := by
  have hindex := index_ofText frames settings sourceName a
  have hwithin := Composed.within (p := ruleStatement) inferInstance
    (s := (State.ofText frames settings sourceName a).begun)
    ⟨rfl, by
      rw [show (State.ofText frames settings sourceName a).begun.cursor.index = 0 from hindex]
      exact Nat.zero_le _⟩
  rw [after_of_ok
    (run.ruleStatement_eq (idle_ofText frames settings sourceName a).trials)] at hwithin
  exact hwithin.front ▸ hwithin.index

theorem getLast?_of_run (run : RuleRun (State.ofText frames settings sourceName a).begun)
    (hend : run.closed.cursor.ahead = []) :
    (visible (tokens settings.hashComments a)).getLast? = run.closed.cursor.previous := by
  have hidle := (idle_ofText frames settings sourceName a).begun
  have hevolves := Orderly.evolves_ok ruleStatement (run.ruleStatement_eq hidle.trials)
  have hfront : run.closed.cursor.front.toList = tokens settings.hashComments a := by
    rw [show run.closed.cursor.front = _ from hevolves.front]
    show (Cursor.ofTokens _ _).front.toList = _
    rw [ofTokens_eq]
  have hsplit : visible run.closed.cursor.front.toList =
      visible (run.closed.cursor.front.toList.take run.closed.cursor.index) := by
    have happend := congrArg visible
      (List.take_append_drop run.closed.cursor.index run.closed.cursor.front.toList)
    rw [visible_append, show visible (run.closed.cursor.front.toList.drop _) = [] from hend,
      List.append_nil] at happend
    exact happend.symm
  rw [Cursor.previous_eq (index_le_of_run run), ← hsplit, hfront]

/-- In the second text the rule is read with one error, and what stands behind it is left. -/
theorem exists_past {a' : String} {J : Juncture settings.hashComments a' b}
    {U : Unclosing settings.hashComments a (a' ++ "\n" ++ b)} (hmax : settings.maxErrors = none)
    (hbehind : U.behind = J.between ++
      J.shared.map (Token.moved (a' ++ "\n").length (lineFeeds (a' ++ "\n"))))
    (hlength : a'.length = a.length)
    (run : RuleRun (State.ofText frames settings sourceName a).begun)
    (hclean : run.closed.collector.received = 0) (hend : run.closed.cursor.ahead = [])
    (helements : run.elements = init ++ [.pattern p]) (hsome : p.constraints ≠ [])
    (hparen : p.rightParen = some U.closing.start) :
    ∃ z s, (State.ofText frames settings sourceName (a' ++ "\n" ++ b)).begun.cursor.current.kind =
      .keyword .rule ∧
      statement (State.ofText frames settings sourceName (a' ++ "\n" ++ b)).begun = .ok () z ∧
      J.Past frames sourceName
        { rules := [.rule (run.rule.unclosed p ((visible U.base).getLast?.map (·.stop)))] } s ∧
      z.Beside (Collector.Follows [missingDiagnostic sourceName U.next run.name]) s := by
  let start := (State.ofText frames settings sourceName (a' ++ "\n" ++ b)).begun
  have hidle : Idle start := (idle_ofText frames settings sourceName (a' ++ "\n" ++ b)).begun
  have hbefore :
      (State.ofText frames settings sourceName a).begun.Before (.ofFrames frames) U none start :=
    ⟨⟨U.alongside, hidden_scan _, rfl, rfl⟩, ⟨rfl, rfl, rfl, rfl, rfl, rfl, rfl⟩,
      ⟨rfl, rfl, rfl, rfl, rfl, rfl, rfl⟩, rfl⟩
  obtain ⟨m⟩ := run.exists_unclosed hbefore hclean helements hsome hparen hend
  have hread := m.again.ruleStatement_eq hidle.trials
  have hevolves := Orderly.evolves_ok ruleStatement hread
  have hkind : start.cursor.current.kind = .keyword .rule := by
    obtain ⟨htoken, hkind, -⟩ := expect_of_ok m.again.token_eq
    exact htoken ▸ hkind
  have huncapped : m.again.last.collector.maxErrors = none :=
    hevolves.collector.maxErrors.trans hmax
  have hsource : m.again.last.collector.sourceName = sourceName := hevolves.collector.sourceName
  obtain ⟨herrors, hrecovering⟩ := m.errors_last huncapped hsource
  have hlast : m.last.stop ≤ a.length := by
    have hmem : m.last ∈ visible (tokens settings.hashComments a) :=
      List.mem_of_getLast? ((getLast?_of_run run hend).trans m.previous_first)
    exact stop_le_of_mem_tokens (List.mem_of_mem_filter hmem)
  -- the same state without the error
  refine ⟨m.again.last,
    { m.again.last with collector := { m.again.last.collector with errors := [] } }, hkind,
    statement_of_rule hkind hread, ?_,
      ⟨rfl, ⟨huncapped, huncapped, rfl, rfl, herrors⟩, rfl, rfl, rfl, rfl, rfl⟩⟩
  exact {
    cursor := hevolves.cursor
    index_le := index_le_of_run m.again
    rest := ⟨m.left, m.visible_left, m.rest_eq.trans (congrArg _ hbehind)⟩
    previous := fun t ht => by
      obtain rfl := Option.some.inj (m.previous_eq.symm.trans ht)
      rw [String.length_append]
      omega
    trials := m.again.trials_last hidle.trials
    stack := hevolves.stack
    ruleName := rfl
    package := m.package_last
    stale := fun k hk => by
      obtain rfl := Option.some.inj (m.calm.lastRecovery.symm.trans hk)
      exact m.index_lt
    source := hsource
    uncapped := huncapped
    recovering := hrecovering
    errors := rfl }

theorem name_of_run {s : State} (run : RuleRun s) : run.rule.name = run.name := by
  obtain ⟨attributes, hattributes⟩ := ruleAttributes_found (gathered_eq_ok.1 run.begun_eq)
  exact congrArg Rule.name hattributes

theorem statements_of_first {s t : State} (hs : Idle s)
    (hplain : ∀ t ∈ s.cursor.front.toList, t.kind ≠ .endOfInput)
    (hkind : s.cursor.current.kind ∈ fenceKinds) (h : statement s = .ok () t) :
    statements s = repeatWhile 1 unfinished anotherStatement t := by
  have hahead : s.cursor.ahead ≠ [] := by
    intro hno
    rw [Cursor.current_of_ahead_eq_nil hs.hidden hno, Cursor.kind_last] at hkind
    exact absurd hkind (by decide)
  exact statements_of_reaches hs (hs.evolves (Orderly.evolves_ok statement h))
    (Reaches.round hs.hidden hahead hplain (statementOrRecovery_of_ok h) ⟨0, fun _ => rfl⟩)

end Broken

/-! ### The missing parenthesis -/

def Package.soleRule (p : Package) : Option Rule :=
  match p.rules with
  | [.rule rule] => if p.size = 1 then some rule else none
  | _ => none

def Rule.lastPattern (rule : Rule) : Option Pattern :=
  match rule.conditions.bind (·.elements.getLast?) with
  | some (.pattern p) => some p
  | _ => none

theorem Package.eq_of_soleRule {p : Package} {rule : Rule} (h : p.soleRule = some rule) :
    p.rules = [.rule rule] ∧ p.size = 1 := by
  unfold soleRule at h
  split at h
  · next hrules =>
    split at h
    · next hsize =>
      obtain rfl := Option.some.inj h
      exact ⟨hrules, hsize⟩
    · cases h
  · cases h

theorem Rule.eq_of_lastPattern {rule : Rule} {p : Pattern} (h : rule.lastPattern = some p) :
    ∃ b, rule.conditions = some b ∧ b.elements.getLast? = some (.pattern p) := by
  unfold lastPattern at h
  split at h
  · next hlast =>
    obtain rfl := Option.some.inj h
    exact Option.bind_eq_some_iff.1 hlast
  · cases h

/-- A text that is one rule, parsed without a diagnostic. Its conditions end with a pattern that has
constraints, and `then` follows the parenthesis that closes the pattern. -/
structure EndsInPattern (frames : Nat) (settings : Settings) (sourceName text : String)
    (rule : Rule) (p : Pattern) (before : List Token) (paren next : Token) : Prop where
  parsed : ∃ r, parse frames settings sourceName text = .ok r ∧ r.errors = [] ∧
    r.package.soleRule = some rule
  head : ∃ t, (visible (tokens settings.hashComments text)).head? = some t ∧ t.kind = .keyword .rule
  pattern : rule.lastPattern = some p
  constrained : p.constraints ≠ []
  tokens : ∃ behind, visible (tokens settings.hashComments text) = before ++ paren :: next :: behind
  closed : paren.kind = .symbol .rparen
  place : p.rightParen = some paren.start
  next_kind : next.kind = .keyword .then_

section Unclosed

variable {settings : Settings} {sourceName a b : String} {rule : Rule} {p : Pattern}
  {before : List Token}
  {paren next : Token} {second : ParseResult}

theorem EndsInPattern.uncapped
    (h : EndsInPattern frames settings sourceName a rule p before paren next)
    (hvalid : settings.Valid) :
    EndsInPattern frames { settings with maxErrors := none } sourceName a rule p before paren
      next := by
  obtain ⟨r, hr, hclean, hrule⟩ := h.parsed
  obtain ⟨q, hq, hpackage, herrors⟩ := exists_uncapped hr
  exact { h with
    parsed := ⟨q, hq, hvalid.eq_nil_of_recorded (herrors.symm.trans hclean), hpackage ▸ hrule⟩ }

/-- Without a cap. -/
theorem exists_parse_unclosed (hmax : settings.maxErrors = none)
    (h : EndsInPattern frames settings sourceName a rule p before paren next)
    (hcomment : ¬EndsInOpenComment settings.hashComments a)
    (hsecond : parse frames settings sourceName b = .ok second) (hnone : second.errors = [])
    (hfence : ∃ t, (visible (tokens settings.hashComments b)).head? = some t ∧
      t.kind ∈ fenceKinds) :
    ∃ r, parse frames settings sourceName (blanked a paren.start ++ "\n" ++ b) = .ok r ∧
      r.errors = [missingDiagnostic sourceName next rule.name] ∧
      r.package.Like (sequel { rules := [.rule (rule.unclosed p (before.getLast?.map (·.stop)))] }
        (blanked a paren.start ++ "\n")) second.package := by
  obtain ⟨first, hfirst, hclean, hsole⟩ := h.parsed
  obtain ⟨behind, htokens⟩ := h.tokens
  obtain ⟨hrules, hsize⟩ := Package.eq_of_soleRule hsole
  obtain ⟨block, hconditions, hlast⟩ := Rule.eq_of_lastPattern h.pattern
  obtain ⟨run, rfl, hrun, hend⟩ :=
    exists_run_of_parse hmax hfirst hclean hsize hrules h.head hconditions
  obtain rfl := Option.some.inj hconditions
  obtain ⟨init, helements⟩ := List.getLast?_eq_some_iff.1 hlast
  have hidle := (idle_ofText frames settings sourceName a).begun
  have hhidden : run.captured.cursor.triviaVisible = false :=
    (Orderly.evolves_ok closing run.closed_eq).triviaVisible.symm.trans
      (hidle.evolves (Orderly.evolves_ok ruleStatement (run.ruleStatement_eq hidle.trials))).hidden
  obtain ⟨last, hprevious, hcloser⟩ := closer_of_closing hhidden run.closed_eq
  obtain ⟨J, U, hclosing, rfl, rfl, hbehind⟩ := exists_unclosing htokens h.closed h.next_kind
    ⟨last, (getLast?_of_run run hend).trans hprevious, hcloser⟩ hcomment hfence
  obtain ⟨z, s, hkind, hstatement, hpast, hbeside⟩ :=
    exists_past hmax hbehind (length_blanked ..) run hrun hend helements h.constrained
      (hclosing.symm ▸ h.place)
  obtain ⟨n, x, hn, hx, hpackage, herrors⟩ := hpast.statements hbeside hmax hsecond hnone
  let whole := blanked a paren.start ++ "\n" ++ b
  let start := (State.ofText frames settings sourceName whole).begun
  have hidle' : Idle start := (idle_ofText frames settings sourceName whole).begun
  have hfence : start.cursor.current.kind ∈ fenceKinds := hkind ▸ (by decide)
  have hunit : compilationUnit (.ofText frames settings sourceName whole) =
      .ok (x.ended n).package (x.ended n) := by
    rw [compilationUnit_eq, bind_of_ok (unitHead_of_fence hfence)]
    refine (bind_of_ok ?_).trans (closeUnit_eq n x)
    rw [statements_of_first hidle' (faithful_scan whole).plain hfence hstatement]
    exact hx
  unfold parse
  rw [hunit, name_of_run run]
  exact ⟨_, rfl, herrors, hpackage⟩

/-- In a rule without complaint a space takes the place of the parenthesis that closes the last
pattern of the conditions, right before `then`, and statements follow the rule. This is one error,
at `then`, with the name of the rule. The rule has all that it had but the parenthesis, and the
statements behind it are read as they are alone. The rule does not end in a comment that is not
closed, which would go on behind it. -/
theorem parse_unclosed (hvalid : settings.Valid)
    (h : EndsInPattern frames settings sourceName a rule p before paren next)
    (hcomment : ¬EndsInOpenComment settings.hashComments a)
    (hsecond : parse frames settings sourceName b = .ok second) (hnone : second.errors = [])
    (hfence : ∃ t, (visible (tokens settings.hashComments b)).head? = some t ∧
      t.kind ∈ fenceKinds) :
    ∃ r, parse frames settings sourceName (blanked a paren.start ++ "\n" ++ b) = .ok r ∧
      r.errors = [missingDiagnostic sourceName next rule.name] ∧
      r.package.Like (sequel { rules := [.rule (rule.unclosed p (before.getLast?.map (·.stop)))] }
        (blanked a paren.start ++ "\n")) second.package := by
  obtain ⟨alone, halone, hpackage, herrors⟩ := exists_uncapped hsecond
  obtain ⟨q, hq, hqerrors, hlike⟩ := exists_parse_unclosed (by rfl)
    (h.uncapped hvalid) hcomment halone (hvalid.eq_nil_of_recorded (herrors.symm.trans hnone))
    hfence
  obtain ⟨r, hr, hrpackage, hrerrors⟩ := exists_capped hq
  refine ⟨r, hr, ?_, ?_⟩
  · rw [hrerrors, hqerrors, hvalid.recorded_singleton]
  · rw [hrpackage, hpackage]
    exact hlike

theorem exists_endsInPattern {name : String} {k : Nat} {first : Token} {behind : List Token}
    (h : (parse frames settings sourceName a).toOption.map
      (fun r => (r.errors, r.package.soleRule.bind fun rule =>
      rule.lastPattern.map fun p => (rule.name, p.constraints.length, p.rightParen))) =
      some ([], some (name, k + 1, some paren.start)))
    (hfirst : (visible (tokens settings.hashComments a)).head? = some first)
    (hrule : first.kind = .keyword .rule)
    (htokens : visible (tokens settings.hashComments a) = before ++ paren :: next :: behind)
    (hclosed : paren.kind = .symbol .rparen) (hnext : next.kind = .keyword .then_) :
    ∃ rule p, EndsInPattern frames settings sourceName a rule p before paren next ∧
      rule.name = name := by
  cases hparse : parse frames settings sourceName a with
  | error f => rw [hparse] at h; cases h
  | ok r =>
    rw [hparse] at h
    obtain ⟨herrors, h⟩ := Prod.mk.inj (Option.some.inj h)
    obtain ⟨rule, hsole, h⟩ := Option.bind_eq_some_iff.1 h
    obtain ⟨p, hlast, h⟩ := Option.map_eq_some_iff.1 h
    obtain ⟨hname, h⟩ := Prod.mk.inj h
    obtain ⟨hlength, hplace⟩ := Prod.mk.inj h
    exact ⟨rule, p, ⟨⟨r, hparse, herrors, hsole⟩, ⟨first, hfirst, hrule⟩, hlast,
      List.ne_nil_of_length_eq_add_one hlength, ⟨behind, htokens⟩, hclosed, hplace, hnext⟩, hname⟩

theorem exists_import :
    ∃ second, parse 900 {} "orders" "import a;" = .ok second ∧
    second.errors = [] ∧ second.package.imports.length = 1 := by
  have h : (parse 900 {} "orders" "import a;").toOption.map
    (fun r => (r.errors, r.package.imports.length)) =
      some ([], 1) := by decide +kernel
  cases hparse : parse 900 {} "orders" "import a;" with
  | error f => rw [hparse] at h; cases h
  | ok r =>
    rw [hparse] at h
    obtain ⟨herrors, hlength⟩ := Prod.mk.inj (Option.some.inj h)
    exact ⟨r, rfl, herrors, hlength⟩

theorem parse_unclosed_before_import :
    ∃ rule p before second r, EndsInPattern 900 {} "orders" "rule R when P(x > 1) then end"
      rule p before
        ⟨.symbol .rparen, ")", 1, 19, 19, 20⟩ ⟨.keyword .then_, "then", 1, 21, 21, 25⟩ ∧
      ¬EndsInOpenComment true "rule R when P(x > 1) then end" ∧
      parse 900 {} "orders" "import a;" = .ok second ∧ second.errors = [] ∧
      parse 900 {} "orders" ("rule R when P(x > 1  then end" ++ "\n" ++ "import a;") = .ok r ∧
      r.errors = [missingDiagnostic "orders" ⟨.keyword .then_, "then", 1, 21, 21, 25⟩ "R"] ∧
      r.package.Like (sequel { rules := [.rule (rule.unclosed p (before.getLast?.map (·.stop)))] }
        ("rule R when P(x > 1  then end" ++ "\n")) second.package := by
  obtain ⟨rule, p, h, hname⟩ :
      ∃ rule p, EndsInPattern 900 {} "orders" "rule R when P(x > 1) then end" rule p
      ((visible (tokens true "rule R when P(x > 1) then end")).take 8)
      ⟨.symbol .rparen, ")", 1, 19, 19, 20⟩ ⟨.keyword .then_, "then", 1, 21, 21, 25⟩ ∧
      rule.name = "R" :=
    exists_endsInPattern (k := 0) (by decide +kernel)
      (show _ = some ⟨.keyword .rule, "rule", 1, 0, 0, 4⟩ by decide +kernel) rfl
      (show _ = _ ++ _ :: _ :: [⟨.keyword .end_, "end", 1, 26, 26, 29⟩] by decide +kernel) rfl rfl
  have hcomment : ¬EndsInOpenComment true "rule R when P(x > 1) then end" := by
    rintro ⟨t, ht, hk, -⟩
    have hlast : (tokens true "rule R when P(x > 1) then end").getLast? =
        some ⟨.keyword .end_, "end", 1, 26, 26, 29⟩ := by decide +kernel
    obtain rfl := Option.some.inj (hlast.symm.trans ht)
    cases hk
  have hblanked : blanked "rule R when P(x > 1) then end" 19 = "rule R when P(x > 1  then end" := by
    decide +kernel
  obtain ⟨second, hsecond, hnone, -⟩ := exists_import
  obtain ⟨r, hr, herrors, hlike⟩ :=
    parse_unclosed (by simp [Settings.Valid]) h hcomment hsecond hnone
    ⟨⟨.keyword .import_, "import", 1, 0, 0, 6⟩, by decide +kernel, by decide⟩
  rw [hblanked] at hr hlike
  exact ⟨rule, p, _, second, r, h, hcomment, hsecond, hnone, hr, hname ▸ herrors, hlike⟩

/-- A comment that is not closed at the end of the rule goes on behind it, so that what stands there
is not read. -/
theorem not_parse_unclosed_of_open_comment :
    ¬∀ (frames : Nat) (settings : Settings) (sourceName a b : String) (rule : Rule) (p : Pattern)
      (before : List Token) (paren next : Token) (second : ParseResult), settings.Valid →
      EndsInPattern frames settings sourceName a rule p before paren next →
      parse frames settings sourceName b = .ok second → second.errors = [] →
      (∃ t, (visible (tokens settings.hashComments b)).head? = some t ∧ t.kind ∈ fenceKinds) →
      ∃ r, parse frames settings sourceName (blanked a paren.start ++ "\n" ++ b) = .ok r ∧
        r.errors = [missingDiagnostic sourceName next rule.name] ∧
        r.package.Like (sequel { rules := [.rule (rule.unclosed p (before.getLast?.map (·.stop)))] }
          (blanked a paren.start ++ "\n")) second.package := by
  intro hall
  obtain ⟨rule, p, h, -⟩ :
      ∃ rule p, EndsInPattern 900 {} "orders" "rule R when P(x > 1) then end /*" rule p
      ((visible (tokens true "rule R when P(x > 1) then end /*")).take 8)
      ⟨.symbol .rparen, ")", 1, 19, 19, 20⟩ ⟨.keyword .then_, "then", 1, 21, 21, 25⟩ ∧
      rule.name = "R" :=
    exists_endsInPattern (k := 0) (by decide +kernel)
      (show _ = some ⟨.keyword .rule, "rule", 1, 0, 0, 4⟩ by decide +kernel) rfl
      (show _ = _ ++ _ :: _ :: [⟨.keyword .end_, "end", 1, 26, 26, 29⟩] by decide +kernel) rfl rfl
  obtain ⟨second, hsecond, hnone, hlength⟩ := exists_import
  obtain ⟨r, hr, -, hlike⟩ :=
    hall 900 {} "orders" _ _ _ _ _ _ _ _ (by simp [Settings.Valid]) h hsecond hnone
    ⟨⟨.keyword .import_, "import", 1, 0, 0, 6⟩, by decide +kernel, by decide⟩
  have hblanked :
      blanked "rule R when P(x > 1) then end /*" 19 = "rule R when P(x > 1  then end /*" := by
    decide +kernel
  have hswallowed :
      (parse 900 {} "orders"
        ("rule R when P(x > 1  then end /*" ++ "\n" ++ "import a;")).toOption.map
        (·.package.imports) = some [] := by decide +kernel
  rw [hblanked] at hr
  rw [hr] at hswallowed
  obtain ⟨imports, hsplit, himports⟩ := hlike.imports
  have hnothing : r.package.imports = [] := Option.some.inj hswallowed
  obtain rfl := (List.append_eq_nil_iff.1 (hsplit.symm.trans hnothing)).2
  rw [← himports.length_eq] at hlength
  cases hlength

end Unclosed

end Rulebook
