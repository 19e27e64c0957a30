import Rulebook.Proofs.ConditionParts
import Rulebook.Proofs.Continuations
import Rulebook.Proofs.Naming
import Rulebook.Proofs.Resumption

/-!
# Patterns whose parenthesis is missing

A text in which a pattern is closed right before `then`, and the same text without that parenthesis.
Both are read alike up to the end of the last constraint. There the second one has `then` where the
parenthesis should be; this is reported once, nothing is skipped, and the pattern has all that the
first one has but the parenthesis.
-/

namespace Rulebook

open Lexeme
open Rulebook.Parser

/-! ### The two texts -/

theorem eq_of_same_start {x x' y y' : List Token} {a a' : Token} (h : x ++ a :: y = x' ++ a' :: y')
    (hsorted : (x ++ a :: y).Pairwise (·.stop ≤ ·.start))
    (hlong : ∀ t ∈ x ++ a :: y, t.start < t.stop) (hstart : a.start = a'.start) :
    x = x' ∧ a = a' ∧ y = y' := by
  have hapart : ∀ {b b' : Token}, b.start < b.stop → b.stop ≤ b'.start → b.start ≠ b'.start :=
    fun hlt hle heq => absurd (Nat.lt_of_lt_of_le hlt hle) (heq ▸ Nat.lt_irrefl _)
  induction x generalizing x' with
  | nil =>
    cases x' with
    | nil =>
      obtain ⟨rfl, rfl⟩ := List.cons.inj h
      exact ⟨rfl, rfl, rfl⟩
    | cons b x' =>
      obtain ⟨rfl, rfl⟩ := List.cons.inj h
      have hle := (List.pairwise_cons.1 hsorted).1 a' (List.mem_append_right _ List.mem_cons_self)
      exact absurd hstart (hapart (hlong a List.mem_cons_self) hle)
  | cons b x ih =>
    cases x' with
    | nil =>
      obtain ⟨rfl, rfl⟩ := List.cons.inj h
      have hle := (List.pairwise_cons.1 hsorted).1 a (List.mem_append_right _ List.mem_cons_self)
      exact absurd hstart.symm (hapart (hlong b List.mem_cons_self) hle)
    | cons b' x' =>
      obtain ⟨rfl, htail⟩ := List.cons.inj h
      obtain ⟨rfl, heq⟩ := ih htail (List.pairwise_cons.1 hsorted).2
        (fun t ht => hlong t (List.mem_cons_of_mem _ ht))
      exact ⟨rfl, heq⟩

/-- Two texts that begin alike. Then the first one has a closing parenthesis, the second one has
not, and both go on with `then` and what is behind it. -/
structure Unclosing (hashComments : Bool) (a b : String) where
  base : List Token
  gap : List Token
  closing : Token
  beyond : List Token
  between : List Token
  next : Token
  rest : List Token
  blanks : List Token
  behind : List Token
  first_eq :
      tokens hashComments a = base ++ (gap ++ closing :: (beyond ++ next :: (rest ++ blanks)))
  second_eq : tokens hashComments b = base ++ (between ++ next :: (rest ++ behind))
  visible_gap : visible gap = []
  visible_beyond : visible beyond = []
  visible_between : visible between = []
  visible_blanks : visible blanks = []
  closing_kind : closing.kind = .symbol .rparen
  next_kind : next.kind = .keyword .then_
  severed : ∀ t ∈ (visible behind).head?, t.kind ≠ .symbol .semicolon

namespace Unclosing

variable {hashComments : Bool} {a b : String} (U : Unclosing hashComments a b) {c d : Cursor}

/-- How many tokens the two texts have in common before the parenthesis. -/
def place : Nat := U.base.length

theorem lexemes_eq (text : String) : lexemes hashComments text.toList =
    (tokens hashComments text).map Token.piece := by
  rw [tokens, map_piece_located]

theorem alongside : Cursor.Alongside U.place (.ofTokens (scan a hashComments) a)
    (.ofTokens (scan b hashComments) b) := by
  have halong := alongside_ofTokens (l := U.base.map Token.piece)
    (by rw [lexemes_eq, U.first_eq, List.map_append])
    (by rw [lexemes_eq, U.second_eq, List.map_append])
  rwa [List.length_map] at halong

theorem next_not_trivia : U.next.isTrivia = false := by
  unfold Token.isTrivia
  rw [U.next_kind]
  rfl

/-- Where the next token of the first text is the parenthesis, `then` is behind it, and nothing but
trivia is left before it. -/
structure AtClosing (c : Cursor) : Prop where
  rest : ∃ x, visible x = [] ∧
    c.rest = x ++ U.closing :: (U.beyond ++ U.next :: (U.rest ++ U.blanks))
  current : c.current = U.closing
  rest_consume : c.consume.rest = U.beyond ++ U.next :: (U.rest ++ U.blanks)
  current_consume : c.consume.current = U.next

theorem atClosing (hc : c = (Cursor.ofTokens (scan a hashComments) a).rewind c.index)
    (hkind : c.current.kind = .symbol .rparen) (hstart : c.current.start = U.closing.start) :
    U.AtClosing c := by
  have hhidden : c.triviaVisible = false := by
    rw [hc]
    exact hidden_scan a
  obtain ⟨x, hx, hrest, -⟩ := Cursor.rest_of_current (c := c) (by rw [hkind]; simp)
  have hfront : c.front.toList = tokens hashComments a := by
    rw [hc, ofTokens_eq]
    rfl
  have hsplit : tokens hashComments a =
      (c.front.toList.take c.index ++ x) ++ c.current :: c.consume.rest := by
    rw [List.append_assoc, ← hrest, ← hfront]
    exact (List.take_append_drop ..).symm
  have hfirst := U.first_eq
  rw [← List.append_assoc] at hfirst
  obtain ⟨-, hcurrent, hconsume⟩ := eq_of_same_start (hsplit.symm.trans hfirst)
    (hsplit ▸ pairwise_located {} _) (fun t ht => (standsIn_of_mem_tokens (hsplit ▸ ht)).2) hstart
  have hnext : c.consume.current = U.next := by
    rw [Cursor.current_of_hidden ((Cursor.triviaVisible_consume c).trans hhidden), Cursor.ahead,
      hconsume,
      visible_append, U.visible_beyond, List.nil_append,
        visible_cons_of_not_trivia U.next_not_trivia]
    rfl
  exact ⟨⟨x, hx, by rw [hrest, hcurrent, hconsume]⟩, hcurrent, hconsume, hnext⟩

/-- Nothing but trivia is left of what stands before the parenthesis. -/
theorem AtClosing.exists_taken {U : Unclosing hashComments a b} (h : U.AtClosing c)
    (hc : c = (Cursor.ofTokens (scan a hashComments) a).rewind c.index) :
    ∃ x, visible x = [] ∧ c.front.toList.take c.index ++ x = U.base ++ U.gap ∧
      c.index ≤ c.front.size := by
  obtain ⟨x, hx, hrest⟩ := h.rest
  have hpos : 0 < c.rest.length := by
    rw [hrest, List.length_append, List.length_cons]
    omega
  rw [Cursor.rest, List.length_drop, Array.length_toList] at hpos
  refine ⟨x, hx, ?_, by omega⟩
  have htokens : c.front.toList.take c.index ++ c.rest = tokens hashComments a := by
    rw [Cursor.rest, List.take_append_drop, hc, ofTokens_eq]
    rfl
  rw [hrest, U.first_eq, ← List.append_assoc, ← List.append_assoc] at htokens
  exact List.append_cancel_right htokens

theorem AtClosing.previous {U : Unclosing hashComments a b} (h : U.AtClosing c)
    (hc : c = (Cursor.ofTokens (scan a hashComments) a).rewind c.index) :
    c.previous = (visible U.base).getLast? := by
  obtain ⟨x, hx, hsplit, hsize⟩ := h.exists_taken hc
  have hvisible := congrArg visible hsplit
  rw [visible_append, visible_append, hx, U.visible_gap, List.append_nil,
    List.append_nil] at hvisible
  rw [Cursor.previous_eq hsize, hvisible]

theorem AtClosing.passed {U : Unclosing hashComments a b} (h : U.AtClosing c)
    (hc : c = (Cursor.ofTokens (scan a hashComments) a).rewind c.index)
    (hlands : (c.tokenAt (c.index - 1)).isTrivia = false) :
    c.index ≤ U.place ∧ visible (U.base.drop c.index) = [] := by
  obtain ⟨x, hx, hsplit, hsize⟩ := h.exists_taken hc
  obtain ⟨taken, htaken⟩ : ∃ taken, taken = c.front.toList.take c.index := ⟨_, rfl⟩
  have hlength : taken.length = c.index := by
    rw [htaken, List.length_take_of_le hsize]
  rw [← htaken] at hsplit
  rcases List.append_eq_append_iff.1 hsplit with ⟨extra, hbase, rfl⟩ | ⟨extra, rfl, hgap⟩
  · rw [visible_append, List.append_eq_nil_iff] at hx
    rw [place, hbase, List.length_append, ← hlength, List.drop_left]
    exact ⟨Nat.le_add_right .., hx.1⟩
  · rcases List.eq_nil_or_concat extra with rfl | ⟨more, t, rfl⟩
    · rw [List.append_nil] at hlength
      rw [place, hlength, List.drop_eq_nil_of_le (Nat.le_of_eq hlength)]
      exact ⟨Nat.le_refl _, rfl⟩
    · -- what it is behind would be trivia
      have hlast : c.tokenAt (c.index - 1) = t := by
        have hget : (c.front.toList.take c.index)[c.index - 1]? = some t := by
          rw [← htaken, ← hlength]
          simp
        rw [List.getElem?_take_of_lt (by rw [← hlength]; simp), Array.getElem?_toList] at hget
        rw [Cursor.tokenAt, Array.getD_eq_getD_getElem?, hget]
        rfl
      have hmem : t ∈ U.gap := hgap ▸ List.mem_append_left x (by simp)
      have htrivia := isTrivia_of_visible_eq_nil U.visible_gap t hmem
      rw [← hlast, hlands] at htrivia
      cases htrivia

/-- In the second text `then` is the next token. -/
structure AtNext (d : Cursor) : Prop where
  rest : ∃ x, visible x = [] ∧ d.rest = x ++ U.next :: (U.rest ++ U.behind)
  current : d.current = U.next

theorem atNext {i : Nat} (hbase : visible (U.base.drop i) = []) (hi : i ≤ U.place)
    (hd : d = (Cursor.ofTokens (scan b hashComments) b).rewind i) : U.AtNext d := by
  have hrest : d.rest = (U.base.drop i ++ U.between) ++ U.next :: (U.rest ++ U.behind) := by
    have hfront : d.front.toList = tokens hashComments b := by
      rw [hd, ofTokens_eq]
      rfl
    rw [Cursor.rest, hfront, U.second_eq, show d.index = i by rw [hd]; rfl,
      List.drop_append_of_le_length hi, List.append_assoc]
  have hpassed : visible (U.base.drop i ++ U.between) = [] := by
    rw [visible_append, hbase, U.visible_between]
    rfl
  refine ⟨⟨_, hpassed, hrest⟩, ?_⟩
  rw [Cursor.current_of_hidden (by rw [hd]; exact hidden_scan b), Cursor.ahead, hrest,
    visible_append, hpassed, List.nil_append, visible_cons_of_not_trivia U.next_not_trivia]
  rfl

end Unclosing

/-- The pattern without its closing parenthesis, so that it ends where its last constraint does. -/
def Pattern.unclosed (p : Pattern) (stop : Option Nat) : Pattern :=
  { p with rightParen := none, location := p.location.closeAt stop }

namespace Parser

set_option synthInstance.maxSize 100000

variable {α : Type} {stack : Stack} {s t u v : State} {p : Pattern} {hashComments : Bool}
  {a b : String}
  {U : Unclosing hashComments a b} {name : Option String}

/-! ### Up to the parenthesis -/

/-- Two states at the same place of the two texts, before the parenthesis, with nothing complained
of; the second one in a rule of the given name. -/
structure State.Before (stack : Stack) (U : Unclosing hashComments a b) (name : Option String)
    (s t : State) : Prop where
  alongside : s.Alongside U.place t
  first : s.Untroubled stack hashComments a
  second : t.Untroubled stack hashComments b
  ruleName : t.ruleName = name

namespace State.Before

theorem again {q : Parser α} [Orderly q] [Composed q] [Inert q] [KeepsName q] {x : α}
    (h : s.Before stack U name t) (hu : q s = .ok x u) (hv : q t = .ok x v)
    (halong : u.Alongside U.place v) (hclean : u.collector.received = 0)
    (hclean' : v.collector.received = t.collector.received) : u.Before stack U name v where
  alongside := halong
  first := h.first.of_ok hu hclean
  second := h.second.of_ok hv (hclean'.trans h.second.received)
  ruleName := (KeepsName.ruleName_ok q hv).trans h.ruleName

/-- What ends before the parenthesis is read alike in both texts. -/
theorem step (q : Parser α) [Local anything q] [Orderly q] [Composed q] [Inert q]
    [KeepsName q] {x : α} (h : s.Before stack U name t) (hu : q s = .ok x u)
    (hclean : u.collector.received = 0) (hbrink : ¬u.cursor.AtBrink U.place) :
    ∃ v, q t = .ok x v ∧ u.Before stack U name v := by
  obtain ⟨v, hv, halong, hclean'⟩ :=
    Local.again_before q h.alongside hu (hclean.trans h.first.received.symm) hbrink
  exact ⟨v, hv, h.again hu hv halong hclean hclean'⟩

end State.Before

/-! ### The missing parenthesis -/

def missingParen (next : Token) : ParseError := .mismatchedToken (.symbol .rparen) next

def State.missed (s : State) : State :=
  { s.reported (missingParen s.cursor.current) with lastRecovery := some s.cursor.index }

theorem rightParen_of_then (hs : s.trials = 0) (hfresh : s.lastRecovery = none)
    (hkind : s.cursor.current.kind = .keyword .then_) : rightParen none s = .ok none s.missed := by
  have hfail : symbol .rparen s = .error (.recognition (missingParen s.cursor.current)) s :=
    (expect_eq _ s).trans (if_neg (by rw [hkind]; simp))
  have hrecovered :
      (s.reported (missingParen s.cursor.current)).recovered patternFollow = s.missed := by
    have hstart : (s.reported (missingParen s.cursor.current)).recoveryStart = s.cursor :=
      if_neg fun hno => by cases hfresh.symm.trans hno
    unfold State.recovered
    rw [hstart, Cursor.skipUntil_of_mem 0 (by rw [hkind]; decide)]
    rfl
  have hrecover :
      recoverFrom (missingParen s.cursor.current) patternFollow s = .ok () s.missed := by
    rw [recoverFrom_eq, if_neg (by omega), hrecovered]
  have hclosed : nextIsSymbol .rparen s.missed = .ok false s.missed :=
    congrArg (EStateM.Result.ok · s.missed) (decide_eq_false (by
      show s.cursor.current.kind ≠ _
      rw [hkind]
      simp))
  unfold rightParen
  refine (bind_of_ok (attempt_of_recognition hfail)).trans ?_
  refine (bind_of_ok hrecover).trans ?_
  rw [bind_of_ok hclosed]
  rfl

/-! ### The pattern -/

instance : Composed Recurs.someConstraints := by
  unfold Recurs.someConstraints Recurs.commaFollows Recurs.nextConstraint; infer_instance

instance : Inert Recurs.someConstraints := by
  unfold Recurs.someConstraints Recurs.commaFollows Recurs.nextConstraint; infer_instance

def unlessClosing (_ : Cursor) (kind : TokenKind) : Prop := kind ∉ closingWords

instance : Proceeds unlessClosing := ⟨id⟩

/-- The parts of a pattern that was read without complaint and has constraints. -/
structure PatternParts (p : Pattern) (s u : State) where
  name : Option String
  objectType : String
  opening : Token
  typed : State
  opened : State
  constrained : State
  head_eq :
      (bindingName >>= fun name => do return (name, ← dottedName)) s = .ok (name, objectType) typed
  opening_eq : symbol .lparen typed = .ok opening opened
  constraints_eq : Recurs.someConstraints opened = .ok { found := p.constraints } constrained
  unclosed : opened.cursor.current.kind ≠ .symbol .rparen
  closed : constrained.cursor.current.kind = .symbol .rparen
  pattern_eq :
      p = ⟨(Location.ofToken s.cursor.current).closeAt (u.cursor.previous.map (·.stop)), objectType,
    name, p.constraints, .workingMemory, opening.start, some constrained.cursor.current.start⟩
  state_eq : u = constrained.advanced
  received_le : constrained.collector.received ≤ u.collector.received

theorem exists_patternParts (h : factPattern s = .ok p u) (hclean : u.collector.received = 0)
    (hsome : p.constraints ≠ []) : Nonempty (PatternParts p s u) := by
  rw [factPattern_eq, bind_of_ok (current_eq s)] at h
  obtain ⟨⟨name, objectType⟩, v, hv, h⟩ := bind_eq_ok.1 h
  obtain ⟨opening, w, hw, h⟩ := bind_eq_ok.1 h
  obtain ⟨⟨body, stop⟩, x, hx, h⟩ := bind_eq_ok.1 h
  obtain ⟨l, y, hy, h⟩ := bind_eq_ok.1 h
  obtain ⟨rfl, rfl⟩ := pure_ok h
  obtain ⟨rfl, rfl⟩ := close_ok hy
  obtain ⟨body', y, hconstraints, hx⟩ := bind_eq_ok.1 hx
  obtain ⟨stop', z, hright, hx⟩ := bind_eq_ok.1 hx
  obtain ⟨heq, rfl⟩ := pure_ok hx
  obtain ⟨rfl, rfl⟩ := Prod.mk.inj heq
  have hyz := (Orderly.evolves_ok (rightParen _) hright).received_le
  obtain ⟨hnone, token, htoken, rfl⟩ := symbol_of_rightParen hright (by omega)
  obtain ⟨rfl, hkind, rfl⟩ := expect_of_ok htoken
  rw [Recurs.constraints_eq] at hconstraints
  obtain ⟨closed, w', hclosed, hconstraints⟩ := bind_eq_ok.1 hconstraints
  obtain ⟨rfl, rfl⟩ := EStateM.Result.ok.inj hclosed
  split at hconstraints
  · obtain ⟨rfl, -⟩ := pure_ok hconstraints
    exact absurd rfl hsome
  · next hopen =>
    obtain ⟨found, failure⟩ := body
    cases hnone
    exact ⟨⟨name, objectType, opening, v, w, y, hv, hw, hconstraints, by simpa using hopen,
      hkind, rfl, rfl, hyz⟩⟩

theorem closeAt_closeAt (l : Location) (m n : Option Nat) :
    (l.closeAt m).closeAt n = l.closeAt n := by
  cases m <;> cases n <;> rfl

namespace PatternParts

variable (parts : PatternParts p s u)

theorem evolves_typed : s.Evolves parts.typed := Orderly.evolves_ok _ parts.head_eq

theorem evolves_opened : parts.typed.Evolves parts.opened :=
  Orderly.evolves_ok (symbol .lparen) parts.opening_eq

theorem evolves_constrained : parts.opened.Evolves parts.constrained :=
  Orderly.evolves_ok Recurs.someConstraints parts.constraints_eq

theorem clean (hclean : u.collector.received = 0) : parts.typed.collector.received = 0 ∧
    parts.opened.collector.received = 0 ∧ parts.constrained.collector.received = 0 := by
  have hopened := parts.evolves_opened.received_le
  have hconstrained := parts.evolves_constrained.received_le
  have hle := parts.received_le
  omega

/-- The constraints end right before the parenthesis, behind all that the texts have in common. -/
theorem passed (hs : s.Untroubled stack hashComments a) (hclean : u.collector.received = 0)
    (hparen : p.rightParen = some U.closing.start) :
    U.AtClosing parts.constrained.cursor ∧ parts.constrained.cursor.index ≤ U.place ∧
      visible (U.base.drop parts.constrained.cursor.index) = [] ∧
      ¬parts.opened.cursor.AtBrink U.place := by
  obtain ⟨htyped, hopened, hconstrained⟩ := parts.clean hclean
  have hfirst : parts.constrained.Untroubled stack hashComments a :=
    ((hs.of_ok parts.head_eq htyped).of_ok parts.opening_eq hopened).of_ok parts.constraints_eq
      hconstrained
  have hhidden : parts.opened.cursor.triviaVisible = false := by
    rw [(parts.evolves_typed.trans parts.evolves_opened).triviaVisible, hs.cursor]
    exact hidden_scan a
  have hlands : parts.opened.cursor.Lands parts.constrained.cursor := by
    refine (@Recurs.someConstraints_recurs anything _).moves hhidden parts.constraints_eq
      (hconstrained.trans hopened.symm) rfl |>.resolve_left fun hsame => parts.unclosed ?_
    rw [← hsame]
    exact parts.closed
  have hclosing : U.AtClosing parts.constrained.cursor := by
    refine U.atClosing hfirst.cursor parts.closed ?_
    rw [parts.pattern_eq] at hparen
    exact Option.some.inj hparen
  obtain ⟨hindex, hbase⟩ := hclosing.passed hfirst.cursor hlands.2
  exact ⟨hclosing, hindex, hbase, Nat.not_le.2 (Nat.lt_of_lt_of_le hlands.1 hindex)⟩

include parts in
theorem not_atBrink (hs : s.Untroubled stack hashComments a) (hclean : u.collector.received = 0)
    (hparen : p.rightParen = some U.closing.start) : ¬s.cursor.AtBrink U.place := fun hbrink =>
  (parts.passed hs hclean hparen).2.2.2
    ((parts.evolves_typed.trans parts.evolves_opened).atBrink hbrink)

theorem again (h : s.Before stack U name t) (hclean : u.collector.received = 0)
    (hparen : p.rightParen = some U.closing.start) :
    ∃ v : State, factPattern t = .ok (p.unclosed (v.cursor.previous.map (·.stop))) v.missed ∧
      parts.constrained.Before stack U name v ∧ U.AtNext v.cursor := by
  obtain ⟨htyped, hopened, hconstrained⟩ := parts.clean hclean
  obtain ⟨hclosing, hindex, hbase, hlt⟩ := parts.passed h.first hclean hparen
  have hlocal : Local anything (bindingName >>= fun name => do return (name, ← dottedName)) :=
    Local.bindingName_bind _
  obtain ⟨x, hhead, hbefore⟩ := h.step _ parts.head_eq htyped fun hbrink =>
    hlt (parts.evolves_opened.atBrink hbrink)
  obtain ⟨y, hopening, hbefore⟩ := hbefore.step _ parts.opening_eq hopened hlt
  have hnext {v : State} (hv : v.Untroubled stack hashComments b) :
      U.AtNext (v.cursor.rewind parts.constrained.cursor.index) :=
    U.atNext hbase hindex (by rw [hv.cursor]; rfl)
  obtain ⟨v, hv, halong, hvclean⟩ :=
    (@Recurs.someConstraints_recurs unlessClosing _).again hbefore.alongside parts.constraints_eq
      (hconstrained.trans hopened.symm) rfl hindex
      (fun _ hno => hno (by rw [(hnext hbefore.second).current, U.next_kind]; decide))
      (by rw [parts.closed]; rfl)
  have hread := hbefore.again parts.constraints_eq hv halong hconstrained hvclean
  have hthen : U.AtNext v.cursor := by
    have hagain := hnext hread.second
    rw [halong.cursor.index] at hagain
    exact hagain
  refine ⟨v, ?_, hread, hthen⟩
  have hopen : nextIsSymbol .rparen y = .ok false y := congrArg (EStateM.Result.ok · y)
    (decide_eq_false (by rw [← hbefore.alongside.cursor.current_eq hlt]; exact parts.unclosed))
  have hall : Parser.constraints y = .ok { found := p.constraints } v := by
    rw [Recurs.constraints_eq, bind_of_ok hopen]
    exact hv
  have hright : rightParen none v = .ok none v.missed :=
    rightParen_of_then hread.second.trials hread.second.lastRecovery
      (by rw [hthen.current, U.next_kind])
  rw [factPattern_eq, bind_of_ok (current_eq t),
    ← h.alongside.cursor.current_eq (parts.not_atBrink h.first hclean hparen), bind_of_ok hhead,
    bind_of_ok hopening]
  refine (bind_of_ok (a := ({ found := p.constraints }, none)) (t := v.missed) ?_).trans ?_
  · exact (bind_of_ok hall).trans (bind_of_ok hright)
  · refine congrArg (EStateM.Result.ok · v.missed) ?_
    refine ((congrArg (Pattern.unclosed · _) parts.pattern_eq).trans ?_).symm
    unfold Pattern.unclosed
    dsimp only
    rw [closeAt_closeAt]
    rfl

end PatternParts

/-! ### The pattern as a condition -/

/-- From here on the parenthesis that closes the pattern is met, and behind it another token than
`then`. -/
def Followed (p : Pattern) (s : State) : Prop :=
  ∃ w, s.Evolves w ∧ w.cursor.current.kind = .symbol .rparen ∧
    p.rightParen = some w.cursor.current.start ∧ w.advanced.cursor.current.kind ≠ .keyword .then_

theorem Followed.after (h : Followed p t) (hst : s.Evolves t) : Followed p s :=
  let ⟨w, hw, hrest⟩ := h
  ⟨w, hst.trans hw, hrest⟩

theorem Followed.unwound {n : Nesting} (h : Followed p (s.within n)) : Followed p s :=
  let ⟨w, hw, hrest⟩ := h
  ⟨s.unwound w, hw.restacked s.stack, hrest⟩

theorem PatternParts.followed {q : Pattern} (parts : PatternParts q s u)
    (hparen : p.rightParen = q.rightParen) (hnext : u.cursor.current.kind ≠ .keyword .then_) :
    Followed p s := by
  obtain ⟨binding, objectType, opening, typed, opened, constrained, hhead, hopening,
    hconstraints, hopen, hclosed, heq, rfl, hle⟩ := parts
  refine ⟨constrained, ?_, hclosed, ?_, hnext⟩
  · exact (Orderly.evolves_ok _ hhead).trans ((Orderly.evolves_ok (symbol .lparen) hopening).trans
      (Orderly.evolves_ok Recurs.someConstraints hconstraints))
  · rw [hparen, heq]

def ReadsPattern (p : Pattern) (s t : State) : Prop :=
  s.cursor.current.kind ∉ conditionKeywords ∧ factPattern s = .ok p t ∨ Followed p s

theorem ReadsPattern.followed (h : ReadsPattern p s t) (hclean : t.collector.received = 0)
    (hsome : p.constraints ≠ []) (hnext : t.cursor.current.kind ≠ .keyword .then_) :
    Followed p s := by
  rcases h with ⟨-, h⟩ | h
  · obtain ⟨parts⟩ := exists_patternParts h hclean hsome
    exact parts.followed rfl hnext
  · exact h

theorem eq_of_join {kind : Grouping} {c : Condition} {others : List Condition}
    (h : Condition.pattern p = join kind c others) : c = .pattern p ∧ others = [] := by
  cases hlast : others.getLast? with
  | none =>
    unfold join at h
    rw [hlast] at h
    exact ⟨h.symm, List.getLast?_eq_none_iff.1 hlast⟩
  | some last =>
    unfold join at h
    rw [hlast] at h
    cases h

theorem operand_of_infixGroup {kind : Grouping} {connectives : List TokenKind}
    (hkinds : connectives ∈ [orKinds, andKinds]) {operand : Parser Condition} [Orderly operand]
    (h : infixGroup kind connectives operand s = .ok (.pattern p) t) :
    operand s = .ok (.pattern p) t := by
  obtain ⟨first, u, others, hfirst, hitems, hjoin⟩ := (infixGroup_ok_iff hkinds).1 h
  obtain ⟨rfl, rfl⟩ := eq_of_join hjoin
  cases hitems
  exact hfirst

theorem operand_of_disjunction {single : Parser Condition} [Orderly single]
    (h : disjunction single s = .ok (.pattern p) t) : single s = .ok (.pattern p) t :=
  operand_of_infixGroup (by simp) (operand_of_infixGroup (by simp) h)

theorem readsPattern_of_sourcedPattern (hkind : s.cursor.current.kind ∉ conditionKeywords)
    (h : sourcedPattern s = .ok p t) (hclean : t.collector.received = 0)
    (hsome : p.constraints ≠ []) : ReadsPattern p s t := by
  rw [sourcedPattern_eq] at h
  obtain ⟨q, u, hq, h⟩ := bind_eq_ok.1 h
  obtain ⟨asked, v, hasked, h⟩ := bind_eq_ok.1 h
  obtain ⟨rfl, rfl⟩ := EStateM.Result.ok.inj hasked
  split at h
  · next hfrom =>
    obtain ⟨source, w, hw, h⟩ := bind_eq_ok.1 h
    obtain ⟨rfl, rfl⟩ := pure_ok h
    have hle := (Orderly.evolves_ok (fromSource _) hw).received_le
    obtain ⟨parts⟩ := exists_patternParts hq (by omega) hsome
    refine .inr (parts.followed rfl ?_)
    rw [of_decide_eq_true hfrom]
    simp
  · obtain ⟨rfl, rfl⟩ := pure_ok h
    exact .inl ⟨hkind, hq⟩

/-- Where a pattern stands in parentheses, one more follows its own. -/
theorem ReadsPattern.closed {x y z : State} {n : Nesting} {closing : Token}
    (h : ReadsPattern p (x.within n) y) (hsx : s.Evolves x)
    (hclosing : symbol .rparen (x.unwound y) = .ok closing z) (hclean : z.collector.received = 0)
    (hsome : p.constraints ≠ []) : Followed p s := by
  obtain ⟨rfl, hkind, rfl⟩ := expect_of_ok hclosing
  have hkind : y.cursor.current.kind = .symbol .rparen := hkind
  have hfollowed := h.followed ((received_advanced (x.unwound y)).symm.trans hclean) hsome (by
    rw [hkind]
    simp)
  exact hfollowed.unwound.after hsx

theorem followed_of_parenthesised {levels : Nat}
    (hsingle : ∀ {s t}, conditionWithin levels s = .ok (.pattern p) t → t.collector.received = 0 →
      ReadsPattern p s t)
    (h : parenthesised (conditionWithin levels) s = .ok (.pattern p) t)
    (hclean : t.collector.received = 0) (hsome : p.constraints ≠ []) : Followed p s := by
  cases parenthesised_ok h with
  | disjunction hopening hc hclosing =>
    have hle := (Orderly.evolves_ok (symbol .rparen) hclosing).received_le
    obtain ⟨-, y, hy, rfl⟩ := nested_eq_ok.1 (operand_of_disjunction hc)
    have hyclean : y.collector.received = 0 := Nat.eq_zero_of_le_zero (hclean ▸ hle)
    exact (hsingle hy hyclean).closed (Orderly.evolves_ok _ hopening) hclosing hclean hsome
  | prefixed hopening _ hc =>
    obtain ⟨_, x, first, others, y, closing, hadvance, hitems, hclosing, hjoin⟩ := prefixGroup_ok hc
    obtain ⟨rfl, rfl⟩ := eq_of_join hjoin
    cases hitems with
    | more _ hfirst hrest =>
      cases hrest
      have hle := (Orderly.evolves_ok (symbol .rparen) hclosing).received_le
      obtain ⟨-, y, hy, rfl⟩ := nested_eq_ok.1 hfirst
      have hyclean : y.collector.received = 0 := Nat.eq_zero_of_le_zero (hclean ▸ hle)
      exact (hsingle hy hyclean).closed
        ((Orderly.evolves_ok _ hopening).trans (Orderly.evolves_ok advance hadvance)) hclosing
        hclean hsome

theorem readsPattern_of_sole {levels : Nat}
    (hsingle : ∀ {s t}, conditionWithin levels s = .ok (.pattern p) t → t.collector.received = 0 →
      ReadsPattern p s t)
    (h : Sole (conditionWithin levels) s (.pattern p) t) (hclean : t.collector.received = 0)
    (hsome : p.constraints ≠ []) : ReadsPattern p s t := by
  cases h with
  | unary hk h =>
    obtain ⟨_, _, _, _, -, -, hgroup⟩ := unaryGroup_ok h
    cases hgroup
  | eval h =>
    obtain ⟨_, _, heval⟩ := evalCondition_ok h
    cases heval
  | forall_ h =>
    obtain ⟨_, _, _, _, _, _, _, _, _, _, -, -, -, -, -, hgroup⟩ := forallCondition_ok h
    cases hgroup
  | pattern hkind h => exact readsPattern_of_sourcedPattern hkind h hclean hsome
  | parens h => exact .inr (followed_of_parenthesised hsingle h hclean hsome)

theorem readsPattern_of_conditionWithin {levels : Nat}
    (h : conditionWithin levels s = .ok (.pattern p) t) (hclean : t.collector.received = 0)
    (hsome : p.constraints ≠ []) : ReadsPattern p s t := by
  induction levels generalizing s t with
  | zero => cases h
  | succ levels ih =>
    unfold conditionWithin at h
    rw [singleCondition_eq] at h
    obtain ⟨c, u, hu, h⟩ := bind_eq_ok.1 h
    obtain ⟨_, v, hskip, h⟩ := bind_eq_ok.1 h
    obtain ⟨rfl, rfl⟩ := pure_ok h
    have hle := (Orderly.evolves_ok (skip .semicolon) hskip).received_le
    have huclean : u.collector.received = 0 := by omega
    have hread : ReadsPattern p s u :=
      readsPattern_of_sole (fun h hclean => ih h hclean) (sole_of_ok hu) huclean hsome
    by_cases hsemicolon : u.cursor.current.kind = .symbol .semicolon
    · refine .inr (hread.followed huclean hsome ?_)
      rw [hsemicolon]
      simp
    · have hstays : skip .semicolon u = .ok () u := bind_of_ok (accept_of_ne hsemicolon)
      obtain ⟨-, rfl⟩ := EStateM.Result.ok.inj (hskip.symm.trans hstays)
      exact hread

theorem exists_parts_of_conditions (hs : s.Untroubled stack hashComments a)
    (h : conditions s = .ok (.pattern p) t) (hclean : t.collector.received = 0)
    (hsome : p.constraints ≠ []) (hparen : p.rightParen = some U.closing.start) :
    s.cursor.current.kind ∉ conditionKeywords ∧ Nonempty (PatternParts p s t) := by
  rw [conditions_eq] at h
  rcases readsPattern_of_conditionWithin (operand_of_disjunction h) hclean hsome with
    ⟨hkind, h⟩ | ⟨w, hw, hclosed, hw', hnext⟩
  · exact ⟨hkind, exists_patternParts h hclean hsome⟩
  · have hcursor := hw.cursor
    rw [hs.cursor] at hcursor
    have hclosing := U.atClosing hcursor hclosed (Option.some.inj (hw'.symm.trans hparen))
    refine absurd ?_ hnext
    rw [show w.advanced.cursor.current = U.next from hclosing.current_consume, U.next_kind]

/-! ### The elements of a block -/

/-- Before the parenthesis is closed there is something left of what the texts have in common. -/
theorem not_atBrink_of_elements {init : List Condition} (hs : s.Untroubled stack hashComments a)
    (h : Elements s (init ++ [.pattern p]) t) (hclean : t.collector.received = 0)
    (hsome : p.constraints ≠ []) (hparen : p.rightParen = some U.closing.start) :
    ¬s.cursor.AtBrink U.place := by
  induction init generalizing s with
  | nil =>
    cases h with
    | more _ hc _ hrest =>
      cases hrest
      obtain ⟨-, ⟨parts⟩⟩ := exists_parts_of_conditions hs hc hclean hsome hparen
      exact parts.not_atBrink hs hclean hparen
  | cons c init ih =>
    cases h with
    | more _ hc hsame hrest =>
      have hcclean := hsame.trans hs.received
      exact fun hbrink =>
        ih (hs.of_ok hc hcclean) hrest ((Orderly.evolves_ok conditions hc).atBrink hbrink)

theorem items_of_elements {init : List Condition} (h : s.Before stack U name t)
    (hread : Elements s (init ++ [.pattern p]) u) (hclean : u.collector.received = 0)
    (hsome : p.constraints ≠ []) (hparen : p.rightParen = some U.closing.start) :
    ∃ w v : State, u = w.advanced ∧ w.Before stack U name v ∧ U.AtClosing w.cursor ∧
      U.AtNext v.cursor ∧ Items opensElement conditions t
        (init ++ [.pattern (p.unclosed (v.cursor.previous.map (·.stop)))]) v.missed := by
  have hcurrent : ∀ {s t : State}, s.Before stack U name t →
      ¬s.cursor.AtBrink U.place → s.cursor.current.kind ∉ .endOfInput :: conditionFollow →
      opensElement t.cursor.current.kind = true := by
    intro s t h hbrink hopens
    rw [opensElement, ← h.alongside.cursor.current_eq hbrink, decide_eq_false hopens]
    rfl
  have hbrink := not_atBrink_of_elements h.first hread hclean hsome hparen
  induction init generalizing s t with
  | nil =>
    cases hread with
    | more hopens hc _ hrest =>
      cases hrest
      obtain ⟨hkind, ⟨parts⟩⟩ := exists_parts_of_conditions h.first hc hclean hsome hparen
      obtain ⟨v, hv, hbefore, hnext⟩ := parts.again h hclean hparen
      have hend : v.missed.cursor.current.kind = .keyword .then_ := by
        rw [← U.next_kind, ← hnext.current]
        rfl
      have hsevered : v.missed.cursor.current.kind ∉ continuingKinds := by
        rw [hend]
        decide
      rw [h.alongside.cursor.current_eq hbrink] at hkind
      have hwithin : patternWithin 1 t = .ok _ v.missed := patternWithin_of_factPattern hv hsevered
      have hpattern := conditions_of_pattern (Nat.le_add_left 1 _) hkind hwithin hsevered
      refine ⟨parts.constrained, v, parts.state_eq, hbefore, (parts.passed h.first hclean hparen).1,
        hnext, .more (hcurrent h hbrink hopens) hpattern (.done ?_)⟩
      rw [hend]
      rfl
  | cons c init ih =>
    cases hread with
    | more hopens hc hsame hrest =>
      have hcclean := hsame.trans h.first.received
      have hbrink' := not_atBrink_of_elements (h.first.of_ok hc hcclean) hrest hclean hsome hparen
      have hlocal : Local anything conditions := Local.conditions.mono fun _ _ _ => trivial
      obtain ⟨x, hx, hbefore⟩ := h.step conditions hc hcclean hbrink'
      obtain ⟨w, v, hu, hwv, hclosing, hnext, hitems⟩ := ih hbefore hrest hbrink'
      exact ⟨w, v, hu, hwv, hclosing, hnext, .more (hcurrent h hbrink hopens) hx hitems⟩

end Parser

end Rulebook
