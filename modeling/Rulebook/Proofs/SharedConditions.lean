import Rulebook.Proofs.CleanRules
import Rulebook.Proofs.WrittenUnit

/-!
# Rules and queries have the same conditions

The conditions of a rule are also conditions of a query, and are read alike there, if they end with
the `then` that is written behind them and do not begin with what stands for something else before
them: a colon behind `when`, or the parameters of a query.
-/

namespace Rulebook

variable {frames : Nat}

open Lexeme
open Rulebook.Parser

variable {hashComments : Bool} {settings : Settings} {sourceName conditions : String} {r q : Name}
  {l m : List Piece}

/-! ### The texts -/

def ruleText (r : Name) (conditions : String) : String :=
  "rule " ++ r.text ++ " when " ++ conditions ++ " then end"

def queryText (q : Name) (conditions : String) : String :=
  "query " ++ q.text ++ " " ++ conditions ++ " end"

theorem toList_ruleText (r : Name) (conditions : String) : (ruleText r conditions).toList =
    letters [Piece.keyword .rule, Piece.blank, r.piece, Piece.blank, Piece.keyword .when_] ++
      ' ' :: (conditions ++ " then end").toList := by
  simp [ruleText, Keyword.text]

theorem toList_queryText (q : Name) (conditions : String) : (queryText q conditions).toList =
    letters [Piece.keyword .query, Piece.blank, q.piece] ++
      ' ' :: (conditions ++ " end").toList := by
  simp [queryText, Keyword.text]

theorem lexemes_ruleText (r : Name) (conditions : String) :
    lexemes hashComments (ruleText r conditions).toList =
      [Piece.keyword .rule, Piece.blank, r.piece, Piece.blank, Piece.keyword .when_] ++
        lexemes hashComments (' ' :: (conditions ++ " then end").toList) := by
  rw [toList_ruleText]
  refine Scans.keyword_blank _ (.blank_piece r _ _) (.cons (.name r (.cons (by decide) _)) ?_)
  exact .cons (.blank (Name.not_separator (.ofKeyword .when_) _)) (.keyword _ (.cons (by decide) _))

theorem lexemes_queryText (q : Name) (conditions : String) :
    lexemes hashComments (queryText q conditions).toList =
      [Piece.keyword .query, Piece.blank, q.piece] ++
        lexemes hashComments (' ' :: (conditions ++ " end").toList) := by
  rw [toList_queryText]
  exact Scans.keyword_blank _ (.blank_piece q _ _) (.name q (.cons (by decide) _))

theorem nextKind_blank_cons (cs : List Char) :
    nextKind (lexemes hashComments (' ' :: cs)) = nextKind (lexemes hashComments cs) := by
  have hblank : ∀ cs, lexemes hashComments (' ' :: cs) =
      (.trivia .whitespace, ' ' :: cs.takeWhile isSeparator) ::
        lexemes hashComments (cs.dropWhile isSeparator) := fun cs => by
    rw [lexemes_cons, lexeme_separator (by decide)]
  rw [hblank, nextKind, solid_cons_of_trivia rfl]
  cases cs with
  | nil => rfl
  | cons c cs =>
    cases hc : isSeparator c with
    | false => rw [List.dropWhile_cons_of_neg (by simp [hc])]; rfl
    | true =>
      rw [List.dropWhile_cons_of_pos hc, lexemes_cons, lexeme_separator hc, nextKind,
        solid_cons_of_trivia rfl]

namespace Parser

variable {s t : State} {text : String} {stack : Stack}

/-! ### The rule -/

theorem State.Untroubled.begun (h : s.Untroubled stack hashComments text) :
    s.begun.Untroubled stack hashComments text where
  cursor := h.cursor
  trials := h.trials
  package := by
    show ({ s.package with location := s.begun.package.location } : Package) = _
    rw [h.package]
  lastRecovery := h.lastRecovery
  recovering := h.recovering
  received := h.received
  stack := h.stack

theorem exists_elements_of_rule (hvalid : settings.Valid) {x : ParseResult} {rule : Rule}
    (h : parse frames settings sourceName (ruleText r conditions) = .ok x) (hclean : x.errors = [])
    (hrule : x.package.rules.head? = some (.rule rule)) :
    ∃ anchor s es t found u,
      s.Untroubled (.ofFrames frames) settings.hashComments (ruleText r conditions) ∧
      s.Faces
        (afterColon (lexemes settings.hashComments (' ' :: (conditions ++ " then end").toList))) ∧
      blockElements s = .ok es t ∧ consequence t = .ok found u ∧ t.collector.received = 0 ∧
      rule.conditions = some ⟨blockLocation (some anchor) es, es⟩ ∧ rule.consequence = found := by
  let start := (State.ofText frames settings sourceName (ruleText r conditions)).begun
  have hbegun : start.Untroubled (.ofFrames frames) settings.hashComments (ruleText r conditions) :=
    (amid_ofText frames settings sourceName _).untroubled.begun
  have hface : start.Faces (lexemes settings.hashComments (ruleText r conditions).toList) :=
    ⟨(faces_ofText frames settings sourceName _).hidden,
      (faces_ofText frames settings sourceName _).rest⟩
  rw [lexemes_ruleText] at hface
  have hkind : start.cursor.current.kind = .keyword .rule := hface.kind
  obtain ⟨t, hstatement, hreceived, hrules⟩ := exists_first_statement hvalid h hclean
    (by rw [show (State.ofText ..).cursor.current.kind = _ from hkind]; decide)
  obtain ⟨first, hfirst⟩ := ruleStatement_of_statement hkind hstatement
  obtain ⟨hpackage, anchor, s, es, t, found, u, hs, hsface, hes, hfound, ht, hread⟩ :=
    ruleStatement_clean hbegun hface hfirst hreceived
  obtain ⟨more, hmore⟩ := hrules
  rw [hpackage] at hmore
  rw [← hmore] at hrule
  obtain rfl : first = rule := Entry.rule.inj (Option.some.inj hrule)
  exact ⟨anchor, s, es, t, found, u, hs, hsface, hes, hfound, ht, hread⟩

/-- Where no colon stands before them, all that is behind `when` is left to the conditions. -/
theorem exists_conditions_of_rule (hvalid : settings.Valid) {x : ParseResult} {rule : Rule}
    (h : parse frames settings sourceName (ruleText r conditions) = .ok x) (hclean : x.errors = [])
    (hrule : x.package.rules.head? = some (.rule rule))
    (hcolon : nextKind (lexemes settings.hashComments (conditions ++ " then end").toList) ≠
      .symbol .colon) :
    ∃ anchor s es t found u,
      s.Untroubled (.ofFrames frames) settings.hashComments (ruleText r conditions) ∧
      s.Faces (lexemes settings.hashComments (' ' :: (conditions ++ " then end").toList)) ∧
      blockElements s = .ok es t ∧ consequence t = .ok found u ∧ t.collector.received = 0 ∧
      rule.conditions = some ⟨blockLocation (some anchor) es, es⟩ ∧ rule.consequence = found := by
  rw [← nextKind_blank_cons] at hcolon
  rw [← afterColon_of_ne hcolon]
  exact exists_elements_of_rule hvalid h hclean hrule

/-! ### The query -/

theorem recovering_of_ok {α : Type} {name : String} {body : Parser (Harvest α)}
    {locate : α → Location → α} (location : Location) {a : α}
    (h : body { s with ruleName := some name } = .ok { found := a } t) :
    recovering name body locate location s =
      .ok (locate a (location.closeAt (t.cursor.previous.map (·.stop)))) { t with
        ruleName := none } := by
  unfold recovering underName
  refine (bind_of_ok (p := modify _) rfl).trans (ensuring_of_ok ?_)
  exact bind_of_ok h

theorem harvest_of_ok {α β : Type} {found : α} {p : Parser β} {add : α → β → α} {b : β}
    (h : p s = .ok b t) : harvest found p add s = .ok { found := add found b } t :=
  map_of_ok (attempt_of_ok h)

theorem queryBody_of_elements (query : Query) {anchor : Token} {es : List Condition}
    (hface : s.Faces l) (hparen : nextKind l ≠ .symbol .lparen)
    (hprevious : s.cursor.previous = some anchor) (hes : blockElements s = .ok es t)
    (ht : t.Faces [.keyword .end_]) : ∃ u, queryBody query s = .ok { found := { query with
        parameters := [], conditions := some ⟨blockLocation (some anchor) es, es⟩ } } u ∧
      u.Faces [] ∧ t.Calm u := by
  have hparameters : queryParameters s = .ok [] s := by
    unfold queryParameters
    rw [bind_of_ok (a := false) (t := s)]
    · rfl
    · show EStateM.Result.ok (decide (s.cursor.current.kind = _)) s = _
      rw [hface.kind, decide_eq_false hparen]
  have hblock : queryBlock s = .ok ⟨blockLocation (some anchor) es, es⟩ t := by
    show block s.cursor.previous s = _
    rw [hprevious]
    exact bind_of_ok hes
  have hclosing : Parses (fun _ => True) closing [.keyword .end_] [] fun _ => True :=
    (Parses.keyword .end_).before fun _ _ => Parses.skip_of_ne .semicolon (by simp)
  obtain ⟨_, u, hu, -, huface, htu⟩ := hclosing trivial ht
  refine ⟨u, ?_, huface, htu⟩
  unfold queryBody
  rw [bind_of_ok (harvest_of_ok hparameters)]
  refine (bind_of_ok (harvest_of_ok hblock)).trans ?_
  exact harvest_of_ok hu

theorem queryHead_of_faces (hs : s.Untroubled stack hashComments text)
    (hface : s.Faces (.keyword .query :: .blank :: q.piece :: l)) :
    ∃ token a t anchor, keyword .query s = .ok token a ∧ title a = .ok q.text t ∧
      t.Untroubled stack hashComments text ∧ t.Faces l ∧ t.cursor.previous = some anchor ∧
      t.package = s.package := by
  obtain ⟨token, a, hkeyword, -, hface, hsa⟩ :=
    Parses.keyword (I := State.Untroubled stack hashComments text) .query hs hface
  have ha : a.Untroubled stack hashComments text := Lasting.calm hs hsa
  obtain ⟨_, t, htitle, rfl, hface, hat⟩ := (parses_title q).blank ha hface
  have hprevious : t.cursor.previous.isSome = true := by
    obtain ⟨rfl, hkind, rfl⟩ := expect_of_ok hkeyword
    have hhidden : s.cursor.triviaVisible = false := by
      rw [hs.cursor]
      exact hidden_scan text
    refine hat.evolves.previous_isSome ?_
    rw [show s.advanced.cursor.previous = _ from
      Cursor.previous_consume hhidden (by rw [hkind]; simp)]
    rfl
  obtain ⟨anchor, hanchor⟩ := Option.isSome_iff_exists.1 hprevious
  exact ⟨token, a, t, anchor, hkeyword, htitle, Lasting.calm ha hat, hface, hanchor,
    hat.package.trans hsa.package⟩

theorem queryStatement_of_elements {P : List Condition → Prop}
    (hs : s.Untroubled stack hashComments text)
    (hface : s.Faces (.keyword .query :: .blank :: q.piece :: l))
    (hparen : nextKind l ≠ .symbol .lparen)
    (helements : ∀ t, t.Untroubled stack hashComments text → t.Faces l → ∃ es u,
      blockElements t = .ok es u ∧ P es ∧ u.collector.received = 0 ∧ u.Faces [.keyword .end_]) :
    ∃ query t anchor es, queryStatement s = .ok query t ∧
      t.package.rules = s.package.rules ++ [.query query] ∧ t.trials = 0 ∧
      t.collector.received = 0 ∧ t.Faces [] ∧ query.name = q.text ∧ query.parameters = [] ∧
      query.conditions = some ⟨blockLocation (some anchor) es, es⟩ ∧ P es := by
  obtain ⟨token, a, b, anchor, hkeyword, htitle, hb, hface, hanchor, hpackage⟩ :=
    queryHead_of_faces hs hface
  let begun : State := { b with ruleName := some q.text }
  have hbegun : begun.Untroubled stack hashComments text :=
    ⟨hb.cursor, hb.trials, hb.package, hb.lastRecovery, hb.recovering, hb.received, hb.stack⟩
  have hface : begun.Faces l := ⟨hface.hidden, hface.rest⟩
  obtain ⟨es, t, hes, hP, hreceived, htface⟩ := helements _ hbegun hface
  obtain ⟨u, hbody, huface, htu⟩ :=
    queryBody_of_elements { location := .ofToken token, name := q.text } hface hparen hanchor
      hes htface
  have hutrials : u.trials = 0 :=
    htu.evolves.trials.trans ((Orderly.evolves_ok _ hes).trials.trans hb.trials)
  have hupackage : u.package = s.package :=
    htu.package.trans ((Inert.package_ok _ hes).trans hpackage)
  let query : Query :=
    { location := (Location.ofToken token).closeAt (u.cursor.previous.map (·.stop))
      name := q.text
      conditions := some ⟨blockLocation (some anchor) es, es⟩ }
  let last : State := { u with ruleName := none }
  have hquery : recovering q.text (queryBody { location := .ofToken token, name := q.text })
      (fun query location => { query with location }) (.ofToken token) b = .ok query last :=
    recovering_of_ok _ hbody
  let add (p : Package) : Package := { p with rules := p.rules ++ [.query query] }
  refine ⟨query, last.declared add, anchor, es, ?_, ?_, hutrials, ?_, ⟨huface.hidden, huface.rest⟩,
    rfl, rfl, rfl, hP⟩
  · unfold queryStatement
    rw [bind_of_ok hkeyword, bind_of_ok htitle, bind_of_ok hquery,
      bind_of_ok (declare_of_idle add (s := last) hutrials)]
    rfl
  · exact congrArg (fun p : Package => p.rules ++ [Entry.query query]) hupackage
  · rcases htu.collector with hc | hc <;> exact (congrArg Collector.received hc).trans hreceived

theorem parse_of_statement
    (hkind : (State.ofText frames settings sourceName text).cursor.current.kind ∈
      fenceKinds)
    (h : statement (State.ofText frames settings sourceName text).begun = .ok () t)
    (hface : t.Faces []) (hclean : t.collector.received = 0) :
    ∃ x, parse frames settings sourceName text = .ok x ∧ x.errors = [] ∧
      x.package.rules = t.package.rules := by
  let start := (State.ofText frames settings sourceName text).begun
  have hmore : unfinished 0 start = .ok true start := unfinished_of_fence 0 hkind
  have hround : anotherStatement 0 start = .ok 1 t := bind_of_ok (statementOrRecovery_of_ok h)
  have hstop : unfinished 1 t = .ok false t := unfinished_of_faces 1 hface
  have hstatements : statements start = .ok 1 t := by
    show rounds unfinished anotherStatement (start.cursor.remaining + 1) 0 start = _
    rw [Turns.rounds_succ hmore, if_pos rfl, bind_of_ok hround]
    cases start.cursor.remaining with
    | zero => rfl
    | succ n => exact Turns.rounds_succ hstop n
  have hparsed : compilationUnit (.ofText frames settings sourceName text) =
      .ok (t.ended 1).package (t.ended 1) := by
    rw [compilationUnit_eq, bind_of_ok (unitHead_of_fence (s := start) hkind),
      bind_of_ok hstatements]
    exact closeUnit_eq 1 t
  unfold parse
  rw [hparsed, ended_of_ne Nat.one_ne_zero]
  exact ⟨_, rfl, errors_of_received hclean, rfl⟩

theorem statement_of_query {query : Query} (hk : s.cursor.current.kind = .keyword .query)
    (h : queryStatement s = .ok query t) : statement s = .ok () t := by
  unfold statement
  rw [bind_of_ok (current_eq s)]
  simp only [hk]
  exact bind_of_ok h

end Parser

/-! ### Both -/

/-- The words behind the conditions of a rule. -/
def thenEnd : List Piece := [.keyword .then_, .blank, .keyword .end_]

theorem isClosing_thenEnd : IsClosing thenEnd := by
  refine ⟨_, _, rfl, by decide, fun y hy => ?_⟩
  simp only [List.mem_cons, List.not_mem_nil, or_false] at hy
  rcases hy with rfl | rfl
  · exact .inl rfl
  · exact .inr (by decide)

theorem isClosing_end : IsClosing [.keyword .end_] :=
  ⟨_, _, rfl, by decide, fun _ hy => by cases hy⟩

theorem nextKind_append_eq_iff (hm : IsClosing m) (l : List Piece) {kind : TokenKind}
    (hkind : kind ∉ .endOfInput :: closingWords) :
    nextKind (l ++ m) = kind ↔ nextKind l = kind := by
  rw [List.mem_cons, not_or] at hkind
  rw [nextKind, nextKind, solid_append_of_isClosing hm]
  cases solid l with
  | nil =>
    obtain ⟨x, xs, rfl, hx, -⟩ := hm
    exact iff_of_false (fun heq => hkind.2 (heq ▸ hx)) fun heq => hkind.1 heq.symm
  | cons x xs => exact Iff.rfl

/-- Where the written `then` ends the conditions, they are scanned apart from what is before them
and from the words behind them. -/
theorem exists_lexemes_before_then {ks : List Piece}
    (h : lexemes hashComments (ruleText r conditions).toList = ks ++ thenEnd)
    (hks : letters ks = ("rule " ++ r.text ++ " when " ++ conditions ++ " ").toList) :
    ∃ l, lexemes hashComments ((' ' :: conditions.toList) ++ ' ' :: "then end".toList) = l ++
      thenEnd ∧ letters l = ' ' :: conditions.toList ++ [' '] := by
  have hfront : letters ks = letters [Piece.keyword .rule, Piece.blank, r.piece, Piece.blank,
      Piece.keyword .when_] ++ (' ' :: conditions.toList ++ [' ']) := by
    rw [hks]
    simp [Keyword.text]
  rw [lexemes_ruleText] at h
  rcases List.append_eq_append_iff.1 h with ⟨l, rfl, hl⟩ | ⟨l, hl, -⟩
  · rw [letters_append] at hfront
    refine ⟨l, ?_, List.append_cancel_left hfront⟩
    rw [← hl]
    simp
  · rw [hl, letters_append, List.append_assoc] at hfront
    have hlength := congrArg List.length hfront
    simp at hlength

theorem exists_lexemes_conditions {ks : List Piece}
    (h : lexemes hashComments (ruleText r conditions).toList = ks ++ thenEnd)
    (hks : letters ks = ("rule " ++ r.text ++ " when " ++ conditions ++ " ").toList) :
    ∃ l, lexemes hashComments (' ' :: (conditions ++ " then end").toList) = l ++ thenEnd ∧
      lexemes hashComments (' ' :: (conditions ++ " end").toList) =
        l ++ [Piece.keyword .end_] := by
  obtain ⟨l, hl, hletters⟩ := exists_lexemes_before_then h hks
  have hbehind : ∀ ds : String, ' ' :: (conditions ++ (" " ++ ds)).toList =
      (' ' :: conditions.toList) ++ ' ' :: ds.toList := fun ds => by
    simp
  refine ⟨l, ?_, ?_⟩
  · rw [show " then end" = " " ++ "then end" from rfl, hbehind]
    exact hl
  · rw [show " end" = " " ++ "end" from rfl, hbehind, lexemes_before_word (List.cons_ne_nil _ _)
      (by decide) (by simp [isSeparator]) hl hletters (by simp [thenEnd]) (by simp [isSeparator])]
    congr 1
    cases hashComments <;> decide +kernel

/-- The conditions of a rule are conditions of a query, and the same there but for their positions:
if they end with the `then` that is written behind them, and begin with neither a colon nor a
parenthesis. -/
theorem queries_share_conditions (hvalid : settings.Valid) (sourceName : String) (r q : Name)
    (conditions : String) {x : ParseResult} {rule : Rule}
    (h : parse frames settings sourceName (ruleText r conditions) = .ok x) (hclean : x.errors = [])
    (hrule : x.package.rules.head? = some (.rule rule))
    (hthen : rule.consequence.location.start =
      some ("rule " ++ r.text ++ " when " ++ conditions ++ " then ").length)
    (hfirst : nextKind (lexemes settings.hashComments (conditions ++ " then end").toList) ∉
      [.symbol .colon, .symbol .lparen]) :
    ∃ y query, parse frames settings sourceName (queryText q conditions) = .ok y ∧ y.errors = [] ∧
      y.package.rules = [.query query] ∧ query.name = q.text ∧ query.parameters = [] ∧
      ∃ b b', rule.conditions = some b ∧ query.conditions = some b' ∧ b.Like .elsewhere b' := by
  simp only [List.mem_cons, List.not_mem_nil, or_false, not_or] at hfirst
  obtain ⟨anchor, s, es, t, found, u, hs, hface, hes, hfound, hreceived, hconditions, rfl⟩ :=
    exists_conditions_of_rule hvalid h hclean hrule hfirst.1
  have hcursor : t.cursor = (Cursor.ofTokens (scan (ruleText r conditions) settings.hashComments)
      (ruleText r conditions)).rewind t.cursor.index := by
    have heq := (Orderly.evolves_ok blockElements hes).cursor
    rwa [hs.cursor] at heq
  have htext : (ruleText r conditions).toList =
      ("rule " ++ r.text ++ " when " ++ conditions ++ " ").toList ++ "then end".toList := by
    simp [ruleText]
  obtain ⟨ks, hlexemes, hks, htface⟩ := faces_of_consequence hcursor hfound htext (by
    rw [hthen]
    simp only [String.length_append, String.length_toList]
    rfl)
  obtain ⟨l, hbefore, hbehind⟩ := exists_lexemes_conditions hlexemes hks
  rw [← nextKind_blank_cons, hbefore] at hfirst
  have hparen : nextKind (l ++ [Piece.keyword .end_]) ≠ .symbol .lparen := fun hparen =>
    hfirst.2 ((nextKind_append_eq_iff isClosing_thenEnd l (by decide)).2
      ((nextKind_append_eq_iff isClosing_end l (by decide)).1 hparen))
  let start := (State.ofText frames settings sourceName (queryText q conditions)).begun
  have hstart : start.Faces
      ([Piece.keyword .query, Piece.blank, q.piece] ++ (l ++ [Piece.keyword .end_])) := by
    have hface := faces_ofText frames settings sourceName (queryText q conditions)
    rw [lexemes_queryText, hbehind] at hface
    exact ⟨hface.hidden, hface.rest⟩
  have hkind : start.cursor.current.kind = .keyword .query := hstart.kind
  obtain ⟨query, v, behind, es', hquery, hrules, -, hclean', hvface, hname, hparameters,
    hconditions',
    hlike⟩ := queryStatement_of_elements (P := List.Forall₂ (Condition.Like .elsewhere) es)
      (amid_ofText frames settings sourceName (queryText q conditions)).untroubled.begun
      hstart hparen
      fun v hv hvface => by
        obtain ⟨es', w, hes', hlike, hw, hwface⟩ := blockElements_shared hs (hbefore ▸ hface)
          isClosing_thenEnd hbefore hv hvface isClosing_end hbehind hes hreceived htface
        exact ⟨es', w, hes', hlike, hw, hwface⟩
  obtain ⟨y, hy, hyclean, hyrules⟩ := parse_of_statement
    (by rw [show (State.ofText ..).cursor.current.kind = _ from hkind]; decide)
    (statement_of_query hkind hquery) hvface hclean'
  exact ⟨y, query, hy, hyclean, hyrules.trans hrules, hname, hparameters, _, _, hconditions,
    hconditions', blockLocation_like (.some ⟨trivial, trivial, trivial⟩) hlike, hlike⟩

/-- Conditions in which `then` is a name, a comment and code. -/
def thenConditions : String := "$p : Person(then == 1) || not Dog() /* then */; eval(x then y)"

theorem queries_share_conditions_then :
    ∃ x rule, parse 900 {} "orders" (ruleText orders thenConditions) = .ok x ∧ x.errors = [] ∧
      x.package.rules.head? = some (.rule rule) ∧ rule.consequence.location.start = some 85 ∧
      ∃ y query, parse 900 {} "orders" (queryText (.ofKeyword .query) thenConditions) = .ok y ∧
        y.errors = [] ∧ y.package.rules = [.query query] ∧ query.name = "query" ∧
        query.parameters = [] ∧
        ∃ b b', rule.conditions = some b ∧ query.conditions = some b' ∧ b.Like .elsewhere b' := by
  have hread : (parse 900 {} "orders" (ruleText orders thenConditions)).toOption.map (fun x =>
      (x.errors.isEmpty, x.package.rules.head?.bind fun e =>
        e.casesOn (fun rule => rule.consequence.location.start) fun _ => none)) =
      some (true, some 85) := by
    decide +kernel
  have hvalid : ({} : Settings).Valid := by simp [Settings.Valid]
  have hfirst :
      nextKind (lexemes ({} : Settings).hashComments (thenConditions ++ " then end").toList) ∉
      [.symbol .colon, .symbol .lparen] := by
    decide +kernel
  cases h : parse 900 {} "orders" (ruleText orders thenConditions) with
  | error f =>
    rw [h] at hread
    cases hread
  | ok x =>
    rw [h] at hread
    obtain ⟨hempty, hstart⟩ := Prod.mk.inj (Option.some.inj hread)
    have hclean := List.isEmpty_iff.1 hempty
    obtain ⟨e, hrule, hstart⟩ := Option.bind_eq_some_iff.1 hstart
    cases e with
    | rule rule =>
      exact ⟨x, rule, rfl, hclean, hrule, hstart, queries_share_conditions hvalid "orders" orders
        (.ofKeyword .query) thenConditions h hclean hrule (hstart.trans rfl) hfirst⟩
    | query _ => cases hstart

/-- A query takes a parenthesis for that of its parameters, has no `then` that ends its conditions,
and no colon before them. -/
theorem queries_refuse_conditions :
    ["(A() or B())", "A() then x", " : A()"].map (fun conditions =>
      ((parse 900 {} "orders" ("rule R when " ++ conditions ++ " then end")).toOption.map
          (·.errors.length),
        (parse 900 {} "orders" ("query Q " ++ conditions ++ " end")).toOption.map
          (·.errors.length))) =
      [(some 0, some 1), (some 0, some 1), (some 0, some 1)] := by
  decide +kernel

end Rulebook
