import Rulebook.Parse
import Rulebook.Proofs.Orderly
import Rulebook.Proofs.ScannedText

/-!
# Reading what is written

What a state has yet to read, as kinds and characters of tokens, wherever they stand. A production
parses a list of these if, from every state with the list and more ahead, it succeeds, ends with the
rest ahead, reports nothing and declares nothing.
-/

namespace Rulebook

variable {frames : Nat}

/-- What a token is, wherever it stands: its kind and its characters. -/
abbrev Piece := TokenKind × List Char

def Token.piece (t : Token) : Piece := (t.kind, t.text.toList)

theorem Token.text_of_piece {t : Token} {k : TokenKind} {text : String}
    (h : t.piece = (k, text.toList)) : t.text = text :=
  String.toList_injective (congrArg Prod.snd h)

namespace Piece

def isTrivia (x : Piece) : Bool := x.1.isTrivia

/-- A keyword as it is written. -/
def keyword (k : Keyword) : Piece := (.keyword k, k.text.toList)

/-- A symbol as it is written. -/
def symbol (k : Symbol) : Piece := (.symbol k, k.text.toList)

def blank : Piece := (.trivia .whitespace, [' '])

@[simp] theorem isTrivia_keyword (k : Keyword) : (keyword k).isTrivia = false := rfl

@[simp] theorem isTrivia_symbol (k : Symbol) : (symbol k).isTrivia = false := rfl

@[simp] theorem isTrivia_blank : blank.isTrivia = true := rfl

end Piece

theorem map_piece_located (p : Position) (l : List Piece) : (located p l).map Token.piece = l := by
  induction l generalizing p with
  | nil => rfl
  | cons x l ih =>
    obtain ⟨kind, cs⟩ := x
    rw [located, List.map_cons, ih]
    simp [Token.piece, Token.at]

def solid (l : List Piece) : List Piece := l.dropWhile (·.isTrivia)

section Solid

variable {x : Piece} {l m : List Piece}

@[simp] theorem solid_nil : solid [] = [] := rfl

theorem solid_cons_of_trivia (h : x.isTrivia = true) (l : List Piece) : solid (x :: l) = solid l :=
  List.dropWhile_cons_of_pos h

theorem solid_cons_of_not_trivia (h : x.isTrivia = false) (l : List Piece) :
    solid (x :: l) = x :: l :=
  List.dropWhile_cons_of_neg (by simp [h])

theorem isTrivia_of_solid {xs : List Piece} (h : solid l = x :: xs) : x.isTrivia = false := by
  have hhead := List.head?_dropWhile_not Piece.isTrivia l
  rw [show l.dropWhile Piece.isTrivia = x :: xs from h] at hhead
  exact hhead

theorem filter_solid (l : List Piece) :
    (solid l).filter (fun x => !x.isTrivia) = l.filter fun x => !x.isTrivia := by
  induction l with
  | nil => rfl
  | cons x l ih =>
    cases hx : x.isTrivia with
    | true => rw [solid_cons_of_trivia hx, ih, List.filter_cons_of_neg (by simp [hx])]
    | false => rw [solid_cons_of_not_trivia hx]

/-- The kind of the first piece that is no trivia. -/
def nextKind (l : List Piece) : TokenKind := ((solid l).head?.map Prod.fst).getD .endOfInput

@[simp] theorem nextKind_nil : nextKind [] = .endOfInput := rfl

@[simp] theorem nextKind_blank (l : List Piece) : nextKind (.blank :: l) = nextKind l := rfl

@[simp] theorem nextKind_keyword (k : Keyword) (l : List Piece) :
    nextKind (.keyword k :: l) = .keyword k := rfl

@[simp] theorem nextKind_symbol (k : Symbol) (l : List Piece) :
    nextKind (.symbol k :: l) = .symbol k := rfl

theorem nextKind_cons (h : x.isTrivia = false) (l : List Piece) : nextKind (x :: l) = x.1 := by
  rw [nextKind, solid_cons_of_not_trivia h]
  rfl

theorem nextKind_of_filter_eq_nil (h : (l.filter fun x => !x.isTrivia) = []) :
    nextKind l = .endOfInput := by
  induction l with
  | nil => rfl
  | cons x l ih =>
    cases hx : x.isTrivia with
    | true =>
      rw [List.filter_cons_of_neg (by simp [hx])] at h
      rw [nextKind, solid_cons_of_trivia hx]
      exact ih h
    | false =>
      rw [List.filter_cons_of_pos (by simp [hx])] at h
      cases h

end Solid

theorem map_piece_visible (ts : List Token) :
    (visible ts).map Token.piece = (ts.map Token.piece).filter fun x => !x.isTrivia := by
  rw [List.filter_map]
  rfl

namespace Parser

variable {α β : Type} {s t u : State} {x : Piece} {l m more : List Piece}

/-- The pieces that are left to read, trivia before them aside. -/
structure State.Faces (s : State) (l : List Piece) : Prop where
  hidden : s.cursor.triviaVisible = false
  rest : solid (s.cursor.rest.map Token.piece) = solid l

namespace State.Faces

theorem ahead (h : s.Faces l) :
    s.cursor.ahead.map Token.piece = l.filter fun x => !x.isTrivia := by
  rw [Cursor.ahead, map_piece_visible, ← filter_solid, h.rest, filter_solid]

theorem of_trivia (h : s.Faces (x :: l)) (hx : x.isTrivia = true) : s.Faces l :=
  ⟨h.hidden, by rw [h.rest, solid_cons_of_trivia hx]⟩

theorem kind (h : s.Faces l) : s.cursor.current.kind = nextKind l := by
  have hahead := h.ahead
  rw [Cursor.current_of_hidden h.hidden, nextKind]
  rw [← filter_solid] at hahead
  cases hls : solid l with
  | nil =>
    rw [hls] at hahead
    rw [List.map_eq_nil_iff.1 hahead]
    rfl
  | cons x l' =>
    have hx : x.isTrivia = false := by
      have := List.head?_dropWhile_not Piece.isTrivia l
      rw [show l.dropWhile Piece.isTrivia = x :: l' from hls] at this
      simpa using this
    rw [hls, List.filter_cons_of_pos (by simp [hx])] at hahead
    obtain ⟨token, ts, hts, htoken, -⟩ := List.map_eq_cons_iff.1 hahead
    rw [hts, ← htoken]
    rfl

theorem current (h : s.Faces (x :: l)) (hx : x.isTrivia = false) : s.cursor.current.piece = x := by
  have hahead := h.ahead
  rw [List.filter_cons_of_pos (by simp [hx])] at hahead
  obtain ⟨token, ts, hts, htoken, -⟩ := List.map_eq_cons_iff.1 hahead
  rw [Cursor.current_of_hidden h.hidden, hts]
  exact htoken

theorem rest_advanced (h : s.Faces (x :: l)) (hx : x.isTrivia = false) (hk : x.1 ≠ .endOfInput) :
    s.advanced.cursor.rest.map Token.piece = l := by
  have hcurrent := h.current hx
  obtain ⟨trivia, htrivia, hrest⟩ := Cursor.rest_consume
    (c := s.cursor)
    (by rw [show s.cursor.current.kind = x.1 from congrArg Prod.fst hcurrent]; exact hk)
  have hsolid := h.rest
  have hall : ∀ y ∈ trivia.map Token.piece, y.isTrivia = true := fun y hy => by
    obtain ⟨token, htoken, rfl⟩ := List.mem_map.1 hy
    exact htrivia token htoken
  rw [hrest, List.map_append, List.map_cons, hcurrent, solid,
    List.dropWhile_append_of_pos hall, solid_cons_of_not_trivia hx] at hsolid
  exact (List.cons.inj ((solid_cons_of_not_trivia hx _).symm.trans hsolid)).2

theorem advanced (h : s.Faces (x :: l)) (hx : x.isTrivia = false) (hk : x.1 ≠ .endOfInput) :
    s.advanced.Faces l :=
  ⟨(Cursor.triviaVisible_consume _).trans h.hidden, by rw [h.rest_advanced hx hk]⟩

end State.Faces

theorem faces_ofText (frames : Nat) (settings : Settings) (sourceName text : String) :
    (State.ofText frames settings sourceName text).Faces
    (lexemes settings.hashComments text.toList) := by
  constructor
  · show (Cursor.ofTokens _ text).triviaVisible = false
    rw [ofTokens_eq]
  · refine congrArg solid ?_
    show (Cursor.rest (Cursor.ofTokens _ text)).map Token.piece = _
    rw [ofTokens_eq]
    exact map_piece_located _ _

/-! ### States that differ in little -/

/-- One state comes after another, and nothing was reported or declared in between. -/
structure State.Calm (s t : State) : Prop where
  evolves : s.Evolves t
  package : t.package = s.package
  ruleName : t.ruleName = s.ruleName
  lastRecovery : t.lastRecovery = s.lastRecovery
  collector : t.collector = s.collector ∨ t.collector = s.collector.tokenMatched

namespace State.Calm

theorem refl (s : State) : s.Calm s := ⟨.refl s, rfl, rfl, rfl, .inl rfl⟩

theorem trans (h : s.Calm t) (h' : t.Calm u) : s.Calm u where
  evolves := h.evolves.trans h'.evolves
  package := h'.package.trans h.package
  ruleName := h'.ruleName.trans h.ruleName
  lastRecovery := h'.lastRecovery.trans h.lastRecovery
  collector := by
    rcases h.collector with hst | hst <;> rcases h'.collector with htu | htu <;> rw [htu, hst]
    · exact .inl rfl
    all_goals exact .inr rfl

theorem withPackage (h : s.Calm t) (p : Package) :
    State.Calm { s with package := p } { t with package := p } where
  evolves :=
    { cursor := h.evolves.cursor
      index := h.evolves.index
      trials := h.evolves.trials
      stack := h.evolves.stack
      silent := fun hs => ⟨(h.evolves.silent hs).1, rfl, (h.evolves.silent hs).2.2⟩
      collector := h.evolves.collector
      ruleName := h.evolves.ruleName }
  package := rfl
  ruleName := h.ruleName
  lastRecovery := h.lastRecovery
  collector := h.collector

theorem unwound {n : Nesting} (h : (s.within n).Calm t) : s.Calm (s.unwound t) :=
  { h with evolves := Orderly.evolves_unwound h.evolves }

theorem advanced (s : State) : s.Calm s.advanced := by
  refine ⟨Orderly.evolves_advanced s, rfl, rfl, rfl, ?_⟩
  show (if s.trials = 0 then _ else _) = _ ∨ (if s.trials = 0 then _ else _) = _
  split
  · exact .inr rfl
  · exact .inl rfl

theorem errors (h : s.Calm t) : t.collector.errors = s.collector.errors := by
  rcases h.collector with h | h <;> rw [h]
  rfl

end State.Calm

/-- A property of states that lasts while nothing is reported or declared. -/
class Lasting (I : State → Prop) : Prop where
  calm : ∀ {s t : State}, I s → s.Calm t → I t

instance : Lasting fun _ => True := ⟨fun _ _ => trivial⟩

def State.Roomy (I : State → Prop) (room : Nat) (s : State) : Prop := I s ∧ room ≤ s.stack.room

instance {I : State → Prop} [Lasting I] (room : Nat) : Lasting (State.Roomy I room) :=
  ⟨fun {_ _} hs h => ⟨Lasting.calm hs.1 h, h.evolves.stack ▸ hs.2⟩⟩

/-- A property of states that the stack has no part in. -/
class Stackless (I : State → Prop) : Prop where
  within : ∀ {s : State} (n : Nesting), I s → I (s.within n)

instance : Stackless fun _ => True := ⟨fun _ _ => trivial⟩

/-! ### Productions that parse what is written -/

/-- From every state for which `I` holds and where `l` and then `more` is left to read, a production
ends where `more` is left, with something for which `Q` holds, and reports and declares nothing. -/
def Parses (I : State → Prop) (p : Parser α) (l more : List Piece) (Q : α → Prop) : Prop :=
  ∀ ⦃s : State⦄, I s → s.Faces (l ++ more) →
    ∃ a t, p s = .ok a t ∧ Q a ∧ t.Faces more ∧ s.Calm t

namespace Parses

variable {I : State → Prop} {Q : α → Prop} {R : β → Prop}

theorem mono {p : Parser α} {Q' : α → Prop} (h : Parses I p l more Q) (hQ : ∀ a, Q a → Q' a) :
    Parses I p l more Q' := by
  intro s hs hface
  obtain ⟨a, t, hp, ha, ht, hst⟩ := h hs hface
  exact ⟨a, t, hp, hQ a ha, ht, hst⟩

theorem of_imp {p : Parser α} {J : State → Prop} (h : Parses I p l more Q) (hJ : ∀ s, J s → I s) :
    Parses J p l more Q :=
  fun s hs hface => h (hJ s hs) hface

theorem roomier {p : Parser α} {room room' : Nat} (h : Parses (State.Roomy I room) p l more Q)
    (hle : room ≤ room') : Parses (State.Roomy I room') p l more Q :=
  h.of_imp fun _ hs => ⟨hs.1, Nat.le_trans hle hs.2⟩

theorem nested [Stackless I] {p : Parser α} {room : Nat}
    (h : Parses (State.Roomy I room) p l more Q) (n : Nesting) :
    Parses (State.Roomy I (n.frames + room)) (nested n p) l more Q := by
  intro s hs hface
  have hroom : room ≤ s.stack.room - n.frames := Nat.le_sub_of_add_le' hs.2
  obtain ⟨a, t, ha, hQ, ht, hst⟩ := h (s := s.within n) ⟨Stackless.within n hs.1, hroom⟩
    ⟨hface.hidden, hface.rest⟩
  exact ⟨a, s.unwound t, nested_of_ok (Nat.le_trans (Nat.le_add_right ..) hs.2) ha, hQ,
    ⟨ht.hidden, ht.rest⟩, hst.unwound⟩

theorem pure {a : α} (ha : Q a) : Parses I (pure a) [] more Q :=
  fun s _ hface => ⟨a, s, rfl, ha, hface, .refl s⟩

theorem bind [Lasting I] {p : Parser α} {f : α → Parser β} (hp : Parses I p l (m ++ more) Q)
    (hf : ∀ a, Q a → Parses I (f a) m more R) : Parses I (p >>= f) (l ++ m) more R := by
  intro s hs hface
  rw [List.append_assoc] at hface
  obtain ⟨a, t, ha, hQ, ht, hst⟩ := hp hs hface
  obtain ⟨b, u, hb, hR, hu, htu⟩ := hf a hQ (Lasting.calm hs hst) ht
  exact ⟨b, u, (bind_of_ok ha).trans hb, hR, hu, hst.trans htu⟩

/-- A sequence whose first part only looks. -/
theorem after [Lasting I] {p : Parser α} {f : α → Parser β} (hp : Parses I p [] (l ++ more) Q)
    (hf : ∀ a, Q a → Parses I (f a) l more R) : Parses I (p >>= f) l more R :=
  hp.bind hf

/-- A sequence whose second part takes nothing. -/
theorem before [Lasting I] {p : Parser α} {f : α → Parser β} (hp : Parses I p l more Q)
    (hf : ∀ a, Q a → Parses I (f a) [] more R) : Parses I (p >>= f) l more R := by
  rw [← List.append_nil l]
  exact hp.bind hf

theorem map {p : Parser α} {f : α → β} (h : Parses I p l more Q) (hf : ∀ a, Q a → R (f a)) :
    Parses I (f <$> p) l more R := by
  intro s hs hface
  obtain ⟨a, t, hp, ha, ht, hst⟩ := h hs hface
  exact ⟨f a, t, map_of_ok hp, hf a ha, ht, hst⟩

theorem trivia {p : Parser α} (h : Parses I p l more Q) (hx : x.isTrivia = true) :
    Parses I p (x :: l) more Q :=
  fun _ hs hface => h hs (hface.of_trivia hx)

theorem blank {p : Parser α} (h : Parses I p l more Q) : Parses I p (.blank :: l) more Q :=
  h.trivia rfl

theorem blank_after {p : Parser α} (h : Parses I p l (.blank :: more) Q) :
    Parses I p (l ++ [.blank]) more Q := by
  intro s hs hface
  rw [List.append_assoc] at hface
  obtain ⟨a, t, hp, ha, ht, hst⟩ := h hs hface
  exact ⟨a, t, hp, ha, ht.of_trivia rfl, hst⟩

/-! ### Looking and consuming -/

theorem current {f : Token → Parser β} (hx : x.isTrivia = false)
    (hf : ∀ token : Token, token.piece = x → Parses I (f token) (x :: l) more R) :
    Parses I (current >>= f) (x :: l) more R := by
  intro s hs hface
  obtain ⟨b, t, hb, h⟩ := hf _ (hface.current hx) hs hface
  exact ⟨b, t, (bind_of_ok (current_eq s)).trans hb, h⟩

theorem ofCurrent {f : Token → Parser β}
    (hf : ∀ token : Token, token.kind = nextKind (l ++ more) → Parses I (f token) l more R) :
    Parses I (Parser.current >>= f) l more R := by
  intro s hs hface
  obtain ⟨b, t, hb, h⟩ := hf _ hface.kind hs hface
  exact ⟨b, t, (bind_of_ok (current_eq s)).trans hb, h⟩

theorem seen {f : State → Parser β}
    (hf : ∀ s : State, s.Faces (l ++ more) → Parses I (f s) l more R) :
    Parses I (get >>= f) l more R := by
  intro s hs hface
  exact hf s hface hs hface

theorem nextIs (kinds : List TokenKind) :
    Parses I (nextIs kinds) [] more (· = decide (nextKind more ∈ kinds)) := by
  intro s _ hface
  refine ⟨_, s, nextIs_eq kinds s, ?_, hface, .refl s⟩
  rw [hface.kind]
  rfl

theorem nextIsSymbol (k : Symbol) :
    Parses I (nextIsSymbol k) [] more (· = decide (nextKind more = .symbol k)) := by
  intro s _ hface
  refine ⟨_, s, rfl, ?_, hface, .refl s⟩
  rw [hface.kind]
  rfl

theorem nextIsKeyword (k : Keyword) :
    Parses I (nextIsKeyword k) [] more (· = decide (nextKind more = .keyword k)) := by
  intro s _ hface
  refine ⟨_, s, rfl, ?_, hface, .refl s⟩
  rw [hface.kind]
  rfl

theorem advance (hx : x.isTrivia = false) (hk : x.1 ≠ .endOfInput) :
    Parses I advance [x] more (·.piece = x) := by
  intro s _ hface
  exact ⟨_, _, advance_eq s, hface.current hx, hface.advanced hx hk, .advanced s⟩

theorem advance_symbol (k : Symbol) :
    Parses I Parser.advance [.symbol k] more (·.piece = .symbol k) :=
  advance (x := .symbol k) rfl (by simp [Piece.symbol])

theorem expect (hx : x.isTrivia = false) (hk : x.1 ≠ .endOfInput) :
    Parses I (expect x.1) [x] more (·.piece = x) := by
  intro s _ hface
  have hcurrent := hface.current hx
  have hkind : s.cursor.current.kind = x.1 := congrArg Prod.fst hcurrent
  refine ⟨_, _, ?_, hcurrent, hface.advanced hx hk, .advanced s⟩
  rw [expect_eq, if_pos hkind]

theorem symbol (k : Symbol) : Parses I (symbol k) [.symbol k] more (·.piece = .symbol k) :=
  expect (x := .symbol k) rfl (by simp [Piece.symbol])

theorem keyword (k : Keyword) : Parses I (keyword k) [.keyword k] more (·.piece = .keyword k) :=
  expect (x := .keyword k) rfl (by simp [Piece.keyword])

theorem keyword_of_kind {k : Keyword} (h : x.1 = .keyword k) :
    Parses I (Parser.keyword k) [x] more fun _ => True := by
  have hexpect := @expect x more I (by rw [Piece.isTrivia, h]; rfl) (by rw [h]; simp)
  rw [h] at hexpect
  exact hexpect.mono fun _ _ => trivial

theorem skip (k : Symbol) : Parses I (skip k) [.symbol k] more fun _ => True := by
  intro s _ hface
  have hkind : s.cursor.current.kind = .symbol k := hface.kind
  have haccept : accept (.symbol k) s = .ok (some s.cursor.current) s.advanced := by
    show (if s.cursor.current.kind = .symbol k then _ else _ : Parser (Option Token)) s = _
    rw [if_pos hkind]
    rfl
  exact ⟨(), _, bind_of_ok haccept, trivial, hface.advanced rfl (by simp [Piece.symbol]),
    .advanced s⟩

/-- Nothing is skipped where something else is next. -/
theorem skip_of_ne (k : Symbol) (h : nextKind more ≠ .symbol k) :
    Parses I (Parser.skip k) [] more fun _ => True := by
  intro s _ hface
  have hkind : s.cursor.current.kind = nextKind more := hface.kind
  have haccept : accept (.symbol k) s = .ok none s := by
    show (if s.cursor.current.kind = .symbol k then _ else _ : Parser (Option Token)) s = _
    rw [if_neg (by rw [hkind]; exact h)]
    rfl
  exact ⟨(), s, bind_of_ok haccept, trivial, hface, .refl s⟩

theorem name (h : x.1.isName = true) : Parses I name [x] more (·.piece = x) := by
  intro s _ hface
  have hx : x.isTrivia = false := by
    unfold Piece.isTrivia
    cases hk : x.1 <;> rw [hk] at h <;> first | rfl | cases h
  have hcurrent := hface.current hx
  refine ⟨_, _, ?_, hcurrent, hface.advanced hx (fun hk => by rw [hk] at h; cases h), .advanced s⟩
  rw [name_eq, if_pos]
  unfold Token.isName
  rw [show s.cursor.current.kind = x.1 from congrArg Prod.fst hcurrent]
  exact h

/-! ### Repetition -/

theorem length_le_flatMap {γ : Type} {piece : γ → List Piece} (items : List γ)
    (h : ∀ x ∈ items, nextKind (piece x) ≠ .endOfInput) :
    items.length ≤ ((items.flatMap piece).filter fun x => !x.isTrivia).length := by
  induction items with
  | nil => exact Nat.le_refl 0
  | cons y ys ih =>
    have hrest := ih fun x hx => h x (List.mem_cons_of_mem _ hx)
    have hpos : 0 < ((piece y).filter fun x => !x.isTrivia).length := by
      refine List.length_pos_iff.2 fun hnil => ?_
      exact h y List.mem_cons_self (nextKind_of_filter_eq_nil hnil)
    rw [List.flatMap_cons, List.filter_append, List.length_append, List.length_cons]
    omega

theorem length_filter_le_remaining (hface : s.Faces l) :
    (l.filter fun x => !x.isTrivia).length ≤ s.cursor.remaining := by
  rw [← hface.ahead, List.length_map]
  exact Cursor.length_ahead_le_remaining _

/-- A loop parses items one after the other: it goes on before each of them, its body parses it, and
it stops behind the last one. -/
theorem repeatWhile [Lasting I] {γ : Type} {piece : γ → List Piece} {first : α}
    {goOn : α → Parser Bool} {body : α → Parser α} (items : List γ) (Q : List γ → α → Prop)
    (hfirst : Q [] first)
    (hsolid : ∀ x ∈ items, nextKind (piece x) ≠ .endOfInput)
    (hgoOn : ∀ done x left a, items = done ++ x :: left → Q done a →
      Parses I (goOn a) [] (piece x ++ (left.flatMap piece ++ more)) (· = true))
    (hbody : ∀ done x left a, items = done ++ x :: left → Q done a →
      Parses I (body a) (piece x) (left.flatMap piece ++ more) (Q (done ++ [x])))
    (hstop : ∀ a, Q items a → Parses I (goOn a) [] more (· = false)) :
    Parses I (repeatWhile first goOn body) (items.flatMap piece) more (Q items) := by
  have hrounds : ∀ (left done : List γ) (a : α) (n : Nat), items = done ++ left → Q done a →
      left.length < n →
      Parses I (rounds goOn body n a) (left.flatMap piece) more (Q items) := by
    intro left
    induction left with
    | nil =>
      intro done a n hitems ha hn
      obtain ⟨n, rfl⟩ : ∃ m, n = m + 1 := ⟨n - 1, by simp at hn; omega⟩
      rw [List.append_nil] at hitems
      subst hitems
      unfold rounds
      refine (hstop a ha).after fun b hb => ?_
      rw [if_neg (by simp [hb])]
      exact .pure ha
    | cons x left ih =>
      intro done a n hitems ha hn
      obtain ⟨n, rfl⟩ : ∃ m, n = m + 1 := ⟨n - 1, by simp at hn; omega⟩
      unfold rounds
      rw [List.flatMap_cons]
      refine Parses.after (Q := (· = true)) ?_ fun b hb => ?_
      · rw [List.append_assoc]
        exact hgoOn done x left a hitems ha
      rw [if_pos hb]
      refine (hbody done x left a hitems ha).bind fun c hc => ?_
      refine ih (done ++ [x]) c n (by rw [hitems]; simp) hc ?_
      rw [List.length_cons] at hn
      omega
  intro s hs hface
  refine hrounds items [] first (s.cursor.remaining + 1) rfl hfirst ?_ hs hface
  have hlength := length_filter_le_remaining hface
  rw [List.filter_append, List.length_append] at hlength
  have hitems := length_le_flatMap items hsolid
  omega

/-- A loop that does not go on takes nothing. -/
theorem repeatWhile_stop [Lasting I] {a : α} {goOn : α → Parser Bool} {body : α → Parser α}
    (h : Parses I (goOn a) [] more (· = false)) :
    Parses I (Parser.repeatWhile a goOn body) [] more (· = a) :=
  @repeatWhile α more I _ Unit (fun _ => []) a goOn body [] (fun _ b => b = a) rfl
    (fun _ hx => absurd hx List.not_mem_nil) (fun done _ _ _ hitems => by simp at hitems)
    (fun done _ _ _ hitems => by simp at hitems) fun _ hb => hb ▸ h

theorem close (l : Location) : Parses I (close l) [] more fun _ => True :=
  fun s _ hface => ⟨_, s, rfl, trivial, hface, .refl s⟩

end Parses

/-- A production parses what another one does, and takes so many more frames for it. -/
structure Costs (k : Nat) (p q : Parser α) : Prop where
  parses : ∀ {I : State → Prop} [Stackless I] {room : Nat} {l more : List Piece} {Q : α → Prop},
    Parses (State.Roomy I room) q l more Q → Parses (State.Roomy I (k + room)) p l more Q

namespace Costs

theorem refl (p : Parser α) : Costs 0 p p := ⟨fun {_ _ room _ _ _} h => by rwa [Nat.zero_add]⟩

theorem nested (n : Nesting) (p : Parser α) : Costs n.frames (nested n p) p := ⟨fun h => h.nested n⟩

end Costs

end Parser

end Rulebook
