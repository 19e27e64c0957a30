import Rulebook.Proofs.Facing

/-!
# Choosing by what is written

Some choices look further ahead than the next token, and one is made by a trial. What is seen there
is a matter of what is written. A declaration changes the package besides, and nothing else.
-/

namespace Rulebook

def kindAt (n : Nat) (l : List Piece) : TokenKind :=
  (((l.filter fun x => !x.isTrivia).drop n).head?.map Prod.fst).getD .endOfInput

section KindAt

variable {x : Piece} {l m : List Piece}

theorem kindAt_of_trivia (h : x.isTrivia = true) (n : Nat) (l : List Piece) :
    kindAt n (x :: l) = kindAt n l := by
  rw [kindAt, List.filter_cons_of_neg (by simp [h])]
  rfl

theorem kindAt_succ (h : x.isTrivia = false) (n : Nat) (l : List Piece) :
    kindAt (n + 1) (x :: l) = kindAt n l := by
  rw [kindAt, List.filter_cons_of_pos (by simp [h])]
  rfl

theorem kindAt_zero (l : List Piece) : kindAt 0 l = nextKind l := by
  induction l with
  | nil => rfl
  | cons x l ih =>
    cases hx : x.isTrivia with
    | true => rw [kindAt_of_trivia hx, ih, nextKind, nextKind, solid_cons_of_trivia hx]
    | false =>
      rw [nextKind_cons hx, kindAt, List.filter_cons_of_pos (by simp [hx])]
      rfl

@[simp] theorem kindAt_blank (n : Nat) (l : List Piece) : kindAt n (.blank :: l) = kindAt n l :=
  kindAt_of_trivia rfl n l

@[simp] theorem kindAt_keyword (n : Nat) (k : Keyword) (l : List Piece) :
    kindAt (n + 1) (.keyword k :: l) = kindAt n l :=
  kindAt_succ rfl n l

@[simp] theorem kindAt_symbol (n : Nat) (k : Symbol) (l : List Piece) :
    kindAt (n + 1) (.symbol k :: l) = kindAt n l :=
  kindAt_succ rfl n l

end KindAt

namespace Parser

variable {α β : Type} {I : State → Prop} {l m more : List Piece} {Q : α → Prop}
  {f : α → Parser β} {p : Parser α}

theorem Parses.look : Parses I Parser.current [] more (·.kind = nextKind more) := by
  intro s _ hface
  exact ⟨_, s, current_eq s, hface.kind, hface, .refl s⟩

theorem Parses.peek (n : Nat) : Parses I (peek n) [] more (·.kind = kindAt n more) := by
  intro s _ hface
  refine ⟨_, s, peek_eq n s, ?_, hface, .refl s⟩
  have hahead : more.filter (fun x => !x.isTrivia) = s.cursor.ahead.map Token.piece :=
    hface.ahead.symm
  show (s.cursor.lookahead (n + 1)).kind = kindAt n more
  rw [Cursor.lookahead_of_hidden hface.hidden, kindAt, hahead, ← List.map_drop, List.head?_map,
    List.head?_drop, List.getD_eq_getElem?_getD]
  cases s.cursor.ahead[n]? <;> rfl

/-! ### Productions that fail on what is written -/

/-- From every state for which `I` holds and where `l` is left to read, a production fails with a
failure of which `F` holds, and leaves the name of the rule alone. -/
def Fails (I : State → Prop) (p : Parser α) (l : List Piece) (F : Failure → Prop) : Prop :=
  ∀ ⦃s : State⦄, I s → s.Faces l → ∃ f t, p s = .error f t ∧ F f ∧ t.ruleName = s.ruleName

def Unrecognised (f : Failure) : Prop := ∃ e, f = .recognition e

namespace Fails

variable {F : Failure → Prop}

theorem bind (h : Fails I p l F) : Fails I (p >>= f) l F := by
  intro s hs hface
  obtain ⟨e, t, hp, hF, ht⟩ := h hs hface
  exact ⟨e, t, bind_of_error hp, hF, ht⟩

theorem after [Lasting I] (hp : Parses I p l m Q) (hf : ∀ a, Q a → Fails I (f a) m F) :
    Fails I (p >>= f) (l ++ m) F := by
  intro s hs hface
  obtain ⟨a, t, ha, hQ, ht, hst⟩ := hp hs hface
  obtain ⟨e, u, hu, hF, hname⟩ := hf a hQ (Lasting.calm hs hst) ht
  exact ⟨e, u, (bind_of_ok ha).trans hu, hF, hname.trans hst.ruleName⟩

theorem blank (h : Fails I p l F) : Fails I p (.blank :: l) F :=
  fun _ hs hface => h hs (hface.of_trivia rfl)

theorem keyword {k : Keyword} (h : nextKind l ≠ .keyword k) :
    Fails I (keyword k) l Unrecognised := by
  intro s _ hface
  exact ⟨_, s, (expect_eq _ s).trans (if_neg (by rw [hface.kind]; exact h)), ⟨_, rfl⟩, rfl⟩

theorem name (h : (nextKind l).isName = false) : Fails I name l Unrecognised := by
  intro s _ hface
  refine ⟨_, s, (name_eq s).trans (if_neg ?_), ⟨_, rfl⟩, rfl⟩
  rw [Token.isName, hface.kind, h]
  exact Bool.false_ne_true

end Fails

/-! ### Productions that declare what is written -/

/-- From every state for which `I` holds and where `l` and then `more` is left to read, a production
ends where `more` is left, reports nothing, and changes the package as `G` says. -/
def Declares (I : State → Prop) (p : Parser α) (l more : List Piece)
    (G : Package → Package → Prop) : Prop :=
  ∀ ⦃s : State⦄, I s → s.Faces (l ++ more) →
    ∃ a t, p s = .ok a t ∧ t.Faces more ∧ G s.package t.package ∧
      s.Calm { t with package := s.package }

/-- A trial is running. -/
def Tried (s : State) : Prop := 0 < s.trials

def Holds (p : Package) (s : State) : Prop := s.trials = 0 ∧ s.package = p

instance : Lasting Tried := ⟨fun {_ _} hs h => by rw [Tried, h.evolves.trials]; exact hs⟩

instance (p : Package) : Lasting (Holds p) :=
  ⟨fun {_ _} hs h => ⟨h.evolves.trials.trans hs.1, h.package.trans hs.2⟩⟩

variable {G : Package → Package → Prop}

namespace Declares

theorem bind [Lasting I] (hp : Parses I p l (m ++ more) Q)
    (hf : ∀ a, Q a → Declares I (f a) m more G) : Declares I (p >>= f) (l ++ m) more G := by
  intro s hs hface
  rw [List.append_assoc] at hface
  obtain ⟨a, t, ha, hQ, ht, hst⟩ := hp hs hface
  obtain ⟨b, u, hb, hu, hG, htu⟩ := hf a hQ (Lasting.calm hs hst) ht
  rw [hst.package] at hG htu
  exact ⟨b, u, (bind_of_ok ha).trans hb, hu, hG, hst.trans htu⟩

theorem of_imp {J : State → Prop} (h : Declares I p l more G) (hJ : ∀ s, J s → I s) :
    Declares J p l more G :=
  fun s hs hface => h (hJ s hs) hface

/-- A sequence whose first part only looks. -/
theorem after [Lasting I] (hp : Parses I p [] (l ++ more) Q)
    (hf : ∀ a, Q a → Declares I (f a) l more G) : Declares I (p >>= f) l more G :=
  bind hp hf

/-- A sequence that begins with all that is taken. -/
theorem before [Lasting I] (hp : Parses I p l more Q)
    (hf : ∀ a, Q a → Declares I (f a) [] more G) : Declares I (p >>= f) l more G := by
  rw [← List.append_nil l]
  exact bind hp hf

theorem seen {q : Package} {room : Nat} {f : State → Parser β}
    (hf : ∀ s, s.package = q → Declares (State.Roomy (Holds q) room) (f s) l more G) :
    Declares (State.Roomy (Holds q) room) (get >>= f) l more G := by
  intro s hs hface
  exact hf s hs.1.2 hs hface

/-- A sequence whose second part only looks. -/
theorem andThen (hp : Declares I p l more G)
    (hf : ∀ a, Parses (fun _ => True) (f a) [] more fun _ => True) :
    Declares I (p >>= f) l more G := by
  intro s hs hface
  obtain ⟨a, t, ha, ht, hG, hst⟩ := hp hs hface
  obtain ⟨b, u, hb, -, hu, htu⟩ := hf a trivial ht
  refine ⟨b, u, (bind_of_ok ha).trans hb, hu, ?_, hst.trans (htu.withPackage s.package)⟩
  rw [htu.package]
  exact hG

/-- A result that is passed over. -/
theorem ignored {b : β} (h : Declares I p l more G) :
    Declares I (do let _ ← p; return b) l more G := by
  intro s hs hface
  obtain ⟨a, t, ha, ht, hG, hst⟩ := h hs hface
  exact ⟨b, t, bind_of_ok ha, ht, hG, hst⟩

theorem declare {q : Package} {change : Package → Package} {a : α} (h : G q (change q)) :
    Declares (Holds q) (do Parser.declare change; return a) [] more G := by
  rintro s ⟨htrials, rfl⟩ hface
  have hdeclare := declare_eq change s
  rw [if_neg (by omega)] at hdeclare
  exact ⟨a, s.declared change, bind_of_ok hdeclare, ⟨hface.hidden, hface.rest⟩, h, .refl s⟩

theorem declare_tried {change : Package → Package} {a : α} :
    Declares Tried (do Parser.declare change; return a) [] more fun q q' => q' = q := by
  intro s hs hface
  have hdeclare := declare_eq change s
  rw [if_pos (show 0 < s.trials from hs)] at hdeclare
  exact ⟨a, s, bind_of_ok hdeclare, hface, rfl, .refl s⟩

end Declares

/-! ### Trials -/

theorem State.Faces.trying {s : State} (h : s.Faces l) : s.trying.Faces l := ⟨h.hidden, h.rest⟩

theorem State.Faces.of_trial [Orderly p] {alternative : String} {s t : State} {answer : Bool}
    (h : trial alternative p s = .ok answer t) (hface : s.Faces l) : t.Faces l := by
  rw [Orderly.trial_of_ok h]
  exact ⟨hface.hidden, hface.rest⟩

theorem State.Calm.of_trial [Orderly p] {alternative : String} {s t : State} {answer : Bool}
    (h : trial alternative p s = .ok answer t) (hname : t.ruleName = s.ruleName) : s.Calm t := by
  refine ⟨Orderly.evolves_ok _ h, ?_, hname, ?_, .inl ?_⟩
  all_goals rw [Orderly.trial_of_ok h]

theorem Parses.trial [Orderly p] (alternative : String) (h : Declares Tried p l more G) :
    Parses I (trial alternative p) [] (l ++ more) (· = true) := by
  intro s _ hface
  obtain ⟨a, t, ha, -, -, hst⟩ := h (s := s.trying) (Nat.succ_pos s.trials) hface.trying
  have htrial : Parser.trial alternative p s = _ := trial_of_passed ha
  exact ⟨true, _, htrial, rfl, .of_trial htrial hface, .of_trial htrial hst.ruleName⟩

theorem Parses.trial_of_fails [Orderly p] (alternative : String)
    (h : Fails Tried p more Unrecognised) :
    Parses I (Parser.trial alternative p) [] more (· = false) := by
  intro s _ hface
  obtain ⟨f, t, ha, ⟨e, rfl⟩, hname⟩ := h (s := s.trying) (Nat.succ_pos s.trials) hface.trying
  have htrial : Parser.trial alternative p s = _ := trial_of_recognition ha
  exact ⟨false, _, htrial, rfl, .of_trial htrial hface, .of_trial htrial hname⟩

end Parser

end Rulebook
