import Rulebook.Proofs.Enclosed
import Rulebook.Proofs.Likeness

/-!
# Two readings side by side

Two texts are read by the same productions. The visible tokens of the second text are like those of
the first one; the first one may have more of them after these. `Readings` says what else has to be
known of the two texts, `Abreast` when two states are at the same place of them, and `Agree` what
two productions have in common that were run from such states.

If the second text is cut off, a production may see its end where it sees a further token in the
first text, and the readings part. What is shown then is that the second reading has gone astray: a
diagnostic is recorded, or is sure to be recorded.
-/

namespace Rulebook

open Rulebook.Parser

/-- What may follow a statement at whose end the second text is cut off. -/
def fenceKinds : List TokenKind :=
  [.keyword .import_, .keyword .global, .keyword .function, .keyword .template, .keyword .rule,
   .keyword .query]

/-- What may follow where the second text is cut off: a statement, or what may stand behind a
pattern in a condition. -/
def borderKinds : List TokenKind :=
  fenceKinds ++ [.keyword .or, .symbol .doublePipe, .keyword .and, .symbol .doubleAmper,
    .symbol .comma, .symbol .rparen]

/-- What the second text may end with if it is cut off between statements. -/
def closerKinds : List TokenKind := [.symbol .semicolon, .symbol .rbrace, .keyword .end_]

def Starts (ts : List Token) : Prop := ∀ t ∈ ts.head?, t.isTrivia = false

theorem Starts.eq_nil {ts : List Token} (h : Starts ts) (hnil : visible ts = []) : ts = [] := by
  cases ts with
  | nil => rfl
  | cons t ts =>
    rw [visible_cons_of_not_trivia (h t rfl)] at hnil
    cases hnil

/-- Two texts that are read side by side. -/
structure Readings where
  likeness : Likeness
  first : Cursor
  second : Cursor
  /-- The second text is cut off where the first one goes on. -/
  cut : Prop
  /-- The visible tokens of the first text after those that are in both. -/
  beyond : List Token
  /-- The kinds of what may follow where the second text is cut off. -/
  borders : List TokenKind
  /-- What may be left of the two texts at the same place. -/
  left : List Token → List Token → Prop
  /-- What may be left of the two texts after a visible token. -/
  leftAfter : List Token → List Token → Prop
  /-- Ends of tokens of the first text that may stand before all that the second one has. -/
  early : Nat → Prop
  first_hidden : first.triviaVisible = false
  second_hidden : second.triviaVisible = false
  first_faithful : first.Faithful
  second_faithful : second.Faithful
  left_of_after : ∀ {r q : List Token}, leftAfter r q → left r q
  visible_left : ∀ {r q : List Token}, left r q →
    ∃ v, visible r = v ++ beyond ∧ List.Forall₂ (Token.Like likeness) v (visible q)
  consume : ∀ {x y r q : List Token} {a b : Token}, left (x ++ a :: r) (y ++ b :: q) →
    visible x = [] → visible y = [] → a.isTrivia = false → b.isTrivia = false → leftAfter r q
  pass : ∀ {x y r q : List Token}, leftAfter (x ++ r) (y ++ q) → visible x = [] → visible y = [] →
    Starts r → Starts q → (q = [] → ¬cut) → leftAfter r q
  code_inner : ∀ {x y r q : List Token} {a b : Token}, leftAfter (x ++ a :: r) (y ++ b :: q) →
    (visible x).length = (visible y).length → a.isTrivia = false → b.isTrivia = false →
    likeness.code (spell x) (spell y)
  code_stretch : ∀ {w x r z y q : List Token}, left (w ++ (x ++ r)) (z ++ (y ++ q)) →
    visible w = [] → visible z = [] → x ≠ [] → y ≠ [] → Starts x → Starts y →
    Starts x.reverse → Starts y.reverse → (visible x).length = (visible y).length →
    likeness.code (spell x) (spell y)
  consequence : ∀ {x y r q : List Token} {a b : Token}, leftAfter (x ++ r) (y ++ q) →
    (visible x).length = (visible y).length → Starts r → Starts q → (q = [] → ¬cut) →
    a.Like likeness b →
    (consequenceOf a (spell x)).Like likeness (consequenceOf b (spell y))
  last : ¬cut → beyond = [] ∧ first.last.Like likeness second.last
  border : cut → ∃ b bs, beyond = b :: bs ∧ b.kind ∈ borders
  borders_subset : borders ⊆ borderKinds
  max_of_early : ∀ {m a b : Nat}, early m → likeness.offset a b → likeness.offset (max m a) b
  offset_max : ∀ {a b c d : Nat}, likeness.offset a b → likeness.offset c d →
    likeness.offset (max a c) (max b d)
  semicolon : ∀ {c d : String}, likeness.keep .general = true → likeness.code c d →
    endsInSemicolon c = endsInSemicolon d
  code_nil : likeness.code "" ""
  attributes_put : ∀ {as bs : Attributes} {a b : Attribute}, likeness.attributes as bs →
    a.Like likeness b → likeness.attributes (as.put a) (bs.put b)
  attributes_of_defaults : ∀ {as bs : Attributes}, likeness.defaults as bs →
    likeness.attributes as bs
  dialect : ∀ {as bs : Attributes}, likeness.defaults as bs →
    likeness.dialect (dialectOf as) (dialectOf bs)

namespace Readings

variable (T : Readings)

class BetweenStatements : Prop where
  fence : T.borders ⊆ fenceKinds
  closer : T.cut → ∀ b, (visible T.second.front.toList).getLast? = some b → b.kind ∈ closerKinds

theorem apart {kinds : List TokenKind} (h : ∀ k ∈ .endOfInput :: borderKinds, k ∉ kinds) :
    ∀ k ∈ .endOfInput :: T.borders, k ∉ kinds :=
  fun k hk => h k (List.cons_subset_cons _ T.borders_subset hk)

theorem apartFromStatements [T.BetweenStatements] {kinds : List TokenKind}
    (h : ∀ k ∈ .endOfInput :: fenceKinds, k ∉ kinds) : ∀ k ∈ .endOfInput :: T.borders, k ∉ kinds :=
  fun k hk => h k (List.cons_subset_cons _ BetweenStatements.fence hk)

theorem notMem_borders {k : TokenKind} (hk : k ∉ borderKinds) : k ∉ T.borders :=
  fun h => hk (T.borders_subset h)

theorem notMem_ends {k : TokenKind} (hk : k ∉ .endOfInput :: borderKinds) :
    k ∉ .endOfInput :: T.borders :=
  fun h => hk (List.cons_subset_cons _ T.borders_subset h)

theorem symbol_notMem_borders [T.BetweenStatements] (k : Symbol) : .symbol k ∉ T.borders :=
  fun h => absurd (BetweenStatements.fence h) (by simp [fenceKinds])

def Previous (p q : Option Token) : Prop :=
  Option.Rel (Token.Like T.likeness) p q ∨ q = none ∧ ∀ a ∈ p, T.early a.stop

/-- The diagnostics of the two readings. -/
structure Reported (c d : Collector) : Prop where
  sourceName : c.sourceName = d.sourceName
  first_uncapped : c.maxErrors = none
  second_uncapped : d.maxErrors = none
  recovering : c.recovering = d.recovering
  errors : List.Forall₂ (Diagnostic.Like T.likeness) (T.likeness.kept c.errors)
    (T.likeness.kept d.errors)

/-- The places of the last recovery, if it was at index `i` of the first text and `j` of the second
one that the readings are now. -/
structure Recovered (m n : Option Nat) (i j : Nat) : Prop where
  here : m = some i ↔ n = some j
  first_le : ∀ k ∈ m, k ≤ i
  second_le : ∀ k ∈ n, k ≤ j

/-- Two states at the same place of the two texts. If the second text is cut off, no error has been
found in it so far. -/
structure Abreast (s t : State) : Prop where
  first : s.cursor = T.first.rewind s.cursor.index
  second : t.cursor = T.second.rewind t.cursor.index
  first_le : s.cursor.index ≤ T.first.front.size
  second_le : t.cursor.index ≤ T.second.front.size
  left : T.left s.cursor.rest t.cursor.rest
  after : t.cursor.previous.isSome = true → T.leftAfter s.cursor.rest t.cursor.rest
  previous : T.Previous s.cursor.previous t.cursor.previous
  trials : s.trials = t.trials
  stack : s.stack = t.stack
  ruleName : s.ruleName = t.ruleName
  package : s.package.Like T.likeness t.package
  recovered : Recovered s.lastRecovery t.lastRecovery s.cursor.index t.cursor.index
  reported : T.Reported s.collector t.collector
  clean : T.cut → t.collector.errors = [] ∧ t.collector.Honest ∧ s.lastRecovery = none

/-- The next tokens are alike. -/
def Live (s t : State) : Prop := s.cursor.current.Like T.likeness t.cursor.current

end Readings

namespace Parser

/-! ### Going astray -/

/-- With `d` pairs of parentheses open, each closing one among the tokens closes one of them or one
that is opened among the tokens. -/
def ClosesAtMost : Nat → List Token → Prop
  | _, [] => True
  | d, t :: ts =>
    if t.kind = .symbol .lparen then ClosesAtMost (d + 1) ts
    else if t.kind = .symbol .rparen then 0 < d ∧ ClosesAtMost (d - 1) ts
    else ClosesAtMost d ts

theorem closesAtMost_lparen {d : Nat} {t : Token} {ts : List Token}
    (h : t.kind = .symbol .lparen) : ClosesAtMost d (t :: ts) ↔ ClosesAtMost (d + 1) ts := by
  rw [ClosesAtMost, if_pos h]

theorem closesAtMost_rparen {d : Nat} {t : Token} {ts : List Token}
    (h : t.kind = .symbol .rparen) :
    ClosesAtMost d (t :: ts) ↔ 0 < d ∧ ClosesAtMost (d - 1) ts := by
  rw [ClosesAtMost, if_neg (by rw [h]; simp), if_pos h]

theorem closesAtMost_other {d : Nat} {t : Token} {ts : List Token}
    (h : t.kind ≠ .symbol .lparen) (h' : t.kind ≠ .symbol .rparen) :
    ClosesAtMost d (t :: ts) ↔ ClosesAtMost d ts := by
  rw [ClosesAtMost, if_neg h, if_neg h']

theorem ClosesAtMost.mono {d e : Nat} {ts : List Token} (h : ClosesAtMost d ts) (hde : d ≤ e) :
    ClosesAtMost e ts := by
  induction ts generalizing d e with
  | nil => trivial
  | cons t ts ih =>
    by_cases hl : t.kind = .symbol .lparen
    · rw [closesAtMost_lparen hl] at h ⊢
      exact ih h (Nat.succ_le_succ hde)
    by_cases hr : t.kind = .symbol .rparen
    · rw [closesAtMost_rparen hr] at h ⊢
      exact ⟨Nat.lt_of_lt_of_le h.1 hde, ih h.2 (Nat.sub_le_sub_right hde 1)⟩
    · rw [closesAtMost_other hl hr] at h ⊢
      exact ih h hde

namespace State

/-- An error was recorded. -/
def Dead (t : State) : Prop := t.collector.errors ≠ []

structure Steady (t : State) : Prop where
  hidden : t.cursor.triviaVisible = false
  uncapped : t.collector.maxErrors = none
  honest : t.collector.Honest

/-- No tokens are ahead. -/
def AtEnd (t : State) : Prop := t.cursor.ahead = []

/-- No pair of parentheses that is open is closed any more. -/
def Spent (t : State) : Prop := ClosesAtMost 0 t.cursor.ahead

theorem AtEnd.kind {t : State} (h : t.AtEnd) (ht : t.cursor.triviaVisible = false) :
    t.cursor.current.kind = .endOfInput :=
  congrArg Token.kind (Cursor.current_of_ahead_eq_nil ht h)

theorem AtEnd.spent {t : State} (h : t.AtEnd) : t.Spent := by
  unfold Spent
  rw [h]
  trivial

end State

variable {α β : Type} {K : α → State → Prop} {K' : β → State → Prop}

def Doomed (K : α → State → Prop) : EStateM.Result Failure State α → Prop
  | .ok b t => t.Dead ∨ t.Steady ∧ K b t
  | .error f t => t.Dead ∨ t.Steady ∧ t.Spent ∨ ∀ e, f ≠ .recognition e

theorem State.Evolves.steady {s t : State} (h : s.Evolves t) (hs : s.Steady) : t.Steady :=
  ⟨h.triviaVisible.trans hs.hidden, h.collector.maxErrors.trans hs.uncapped,
    h.collector.honest hs.honest⟩

theorem State.Evolves.dead {s t : State} (h : s.Evolves t) (hs : s.Dead) : t.Dead :=
  h.collector.errors_ne_nil hs

theorem doomed_of_dead {p : Parser α} [Orderly p] {s : State} (hs : s.Dead) : Doomed K (p s) := by
  cases h : p s with
  | ok a t => exact .inl ((Orderly.evolves_ok p h).dead hs)
  | error f t => exact .inl ((Orderly.evolves_error p h).dead hs)

theorem Doomed.bind {q : Parser α} {g : α → Parser β} {t : State} (h : Doomed K (q t))
    [∀ b, Orderly (g b)] (hk : ∀ b u, u.Steady → K b u → Doomed K' (g b u)) :
    Doomed K' ((q >>= g) t) := by
  cases hq : q t with
  | ok b u =>
    rw [hq] at h
    rw [bind_of_ok hq]
    rcases h with hdead | ⟨hu, hb⟩
    · exact doomed_of_dead hdead
    · exact hk b u hu hb
  | error f u =>
    rw [hq] at h
    rw [bind_of_error hq]
    exact h

theorem Doomed.bind_cases {q : Parser α} {g : α → Parser β} {t : State} (h : Doomed K (q t))
    (hg : ∀ b, Orderly (g b)) (hk : ∀ b u, u.Steady → K b u → Doomed K' (g b u)) :
    Doomed K' ((q >>= g) t) :=
  h.bind hk

theorem Doomed.mono {K' : α → State → Prop} {y : EStateM.Result Failure State α} (h : Doomed K y)
    (hk : ∀ b u, K b u → K' b u) : Doomed K' y := by
  cases y with
  | ok b u => exact h.imp_right (.imp_right (hk b u))
  | error f u => exact h

/-! ### Agreement -/

variable (T : Readings)

/-- Failures of two readings. If the second text is cut off, it does not matter at which token they
were. -/
inductive SameFailure : Failure → Failure → Prop where
  | recognition {e e' : ParseError} (h : T.cut ∨ e.Like T.likeness e') :
      SameFailure (.recognition e) (.recognition e')
  | other {f : Failure} (h : ∀ e, f ≠ .recognition e) : SameFailure f f

/-- What two readings that began abreast have in common. If `cut` holds, the second one may have
gone astray. -/
inductive Agree (cut : Prop) (R : α → α → Prop) (K : α → State → Prop)
    (x y : EStateM.Result Failure State α) : Prop where
  | ok {a b : α} {s t : State} (hx : x = .ok a s) (hy : y = .ok b t) (hab : R a b)
      (hst : T.Abreast s t)
  | error {f g : Failure} {s t : State} (hx : x = .error f s) (hy : y = .error g t)
      (hfg : SameFailure T f g) (hst : T.Abreast s t)
  | astray (hcut : cut) (hy : Doomed K y)

variable {T} {cut : Prop} {R : α → α → Prop} {R' : β → β → Prop}

namespace Agree

theorem mono {x y : EStateM.Result Failure State α} {cut' : Prop} {R' : α → α → Prop}
    {K' : α → State → Prop} (h : Agree T cut R K x y) (hcut : cut → cut')
    (hR : ∀ a b, R a b → R' a b) (hK : ∀ b u, K b u → K' b u) : Agree T cut' R' K' x y := by
  cases h with
  | ok hx hy hab hst => exact .ok hx hy (hR _ _ hab) hst
  | error hx hy hfg hst => exact .error hx hy hfg hst
  | astray h hy => exact .astray (hcut h) (hy.mono hK)

theorem bind {p q : Parser α} {f g : α → Parser β} {s t : State}
    (h : Agree T cut R K (p s) (q t)) [∀ b, Orderly (g b)]
    (hf : ∀ {a b u v}, R a b → T.Abreast u v → p s = .ok a u → q t = .ok b v →
      Agree T cut R' K' (f a u) (g b v))
    (hk : ∀ b v, v.Steady → K b v → Doomed K' (g b v)) :
    Agree T cut R' K' ((p >>= f) s) ((q >>= g) t) := by
  cases h with
  | ok hx hy hab hst =>
    rw [bind_of_ok hx, bind_of_ok hy]
    exact hf hab hst hx hy
  | error hx hy hfg hst => exact .error (bind_of_error hx) (bind_of_error hy) hfg hst
  | astray h hy => exact .astray h (hy.bind hk)

theorem step {p q : Parser α} {f g : α → Parser β} {s t u v : State} {a b : α}
    (hx : p s = .ok a u) (hy : q t = .ok b v) (h : Agree T cut R' K' (f a u) (g b v)) :
    Agree T cut R' K' ((p >>= f) s) ((q >>= g) t) := by
  rw [bind_of_ok hx, bind_of_ok hy]
  exact h

/-- A sequence whose first part cannot go astray alone. -/
theorem seq {p q : Parser α} {f g : α → Parser β} {s t : State}
    (h : Agree T cut R (fun _ _ => False) (p s) (q t)) [∀ b, Orderly (g b)]
    (hf : ∀ {a b u v}, R a b → T.Abreast u v → p s = .ok a u → q t = .ok b v →
      Agree T cut R' K' (f a u) (g b v)) :
    Agree T cut R' K' ((p >>= f) s) ((q >>= g) t) :=
  h.bind hf fun _ _ _ hno => hno.elim

end Agree

def Twin (T : Readings) (R : α → α → Prop) (p q : Parser α)
    (K : α → State → Prop := fun _ _ => False) : Prop :=
  ∀ ⦃s t : State⦄, T.Abreast s t → Agree T T.cut R K (p s) (q t)

/-- Two productions agree if the next tokens are alike. -/
def LiveTwin (T : Readings) (R : α → α → Prop) (p q : Parser α)
    (K : α → State → Prop := fun _ _ => False) : Prop :=
  ∀ ⦃s t : State⦄, T.Abreast s t → T.Live s t → Agree T T.cut R K (p s) (q t)

end Parser

end Rulebook
