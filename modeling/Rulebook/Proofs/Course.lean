import Rulebook.Proofs.Ahead
import Rulebook.Proofs.Reports
import Rulebook.Proofs.Steps

/-!
# The course of a parse

What a production may do to the state it runs in, said once for all of them. It moves the cursor
forward and leaves the rest of it alone; it gives back what it takes off the stack; it adds to the
diagnostics; and during a trial it changes nothing but its place in the tokens. A production that
fails does so for its tokens, for the nesting, or for an integer with too many digits.
-/

namespace Rulebook

/-! ### Failures -/

def Token.digits (t : Token) : List Char := (Text.minusOf t.text.toList).2

/-- An attribute that takes an integer is followed by one with `n` digits, which are too many. -/
def LongInteger (ts : List Token) (n : Nat) : Prop :=
  ∃ before a between b after, ts = before ++ a :: (between ++ b :: after) ∧
    a.kind ∈ [TokenKind.keyword .salience, .keyword .duration] ∧
    (∀ t ∈ between, t.isTrivia = true) ∧ b.kind = .literal .int ∧
    b.digits.length = n ∧ Text.digitLimit < n

theorem LongInteger.append {ts : List Token} {n : Nat} (h : LongInteger ts n) (us : List Token) :
    LongInteger (ts ++ us) n := by
  obtain ⟨before, a, between, b, after, rfl, hrest⟩ := h
  exact ⟨before, a, between, b, after ++ us, by simp, hrest⟩

def Failure.Expected (ts : List Token) : Failure → Prop
  | .recognition _ => True
  | .tooManyDigits n => LongInteger ts n
  | .nestingTooDeep => True
  | .cursor _ => False

namespace Parser

variable {α β : Type}

/-! ### The course of a parse -/

/-- What a production may do to the state. -/
structure State.Evolves (s t : State) : Prop where
  cursor : t.cursor = s.cursor.rewind t.cursor.index
  index : s.cursor.index ≤ t.cursor.index
  trials : t.trials = s.trials
  stack : t.stack = s.stack
  silent : 0 < s.trials →
    t.collector = s.collector ∧ t.package = s.package ∧ t.lastRecovery = s.lastRecovery
  collector : s.collector.Extends t.collector
  ruleName : t.ruleName = s.ruleName ∨ t.ruleName = none

namespace State.Evolves

variable {s t u : State}

theorem refl (s : State) : s.Evolves s :=
  ⟨rfl, Nat.le_refl _, rfl, rfl, fun _ => ⟨rfl, rfl, rfl⟩, .refl _, .inl rfl⟩

theorem trans (h : s.Evolves t) (h' : t.Evolves u) : s.Evolves u where
  cursor := by
    have heq := h'.cursor
    rw [h.cursor] at heq
    exact heq
  index := Nat.le_trans h.index h'.index
  trials := h'.trials.trans h.trials
  stack := h'.stack.trans h.stack
  silent hs := by
    obtain ⟨hc, hp, hl⟩ := h.silent hs
    obtain ⟨hc', hp', hl'⟩ := h'.silent (h.trials ▸ hs)
    exact ⟨hc'.trans hc, hp'.trans hp, hl'.trans hl⟩
  collector := h.collector.trans h'.collector
  ruleName := by
    rcases h'.ruleName with heq | heq
    · rw [heq]; exact h.ruleName
    · exact .inr heq

theorem restacked (h : s.Evolves t) (stack : Stack) :
    State.Evolves { s with stack } { t with stack } where
  cursor := h.cursor
  index := h.index
  trials := h.trials
  stack := rfl
  silent := h.silent
  collector := h.collector
  ruleName := h.ruleName

theorem front (h : s.Evolves t) : t.cursor.front = s.cursor.front := by rw [h.cursor]; rfl

theorem triviaVisible (h : s.Evolves t) : t.cursor.triviaVisible = s.cursor.triviaVisible := by
  rw [h.cursor]; rfl

theorem saved (h : s.Evolves t) : t.cursor.saved = s.cursor.saved := by rw [h.cursor]; rfl

end State.Evolves

/-- A production keeps to what productions may do, from one state. -/
structure OrderlyFrom (p : Parser α) (s : State) : Prop where
  evolves : s.Evolves (after p s)
  expected : ∀ {t : State} {f : Failure}, p s = .error f t → f.Expected s.cursor.front.toList

/-- A production that keeps to what productions may do. -/
class Orderly (p : Parser α) : Prop where
  from_ : ∀ s : State, OrderlyFrom p s

namespace OrderlyFrom

theorem of_ok {p : Parser α} {s t : State} {a : α} (h : p s = .ok a t) (hst : s.Evolves t) :
    OrderlyFrom p s where
  evolves := after_of_ok h ▸ hst
  expected h' := by rw [h] at h'; cases h'

theorem of_error {p : Parser α} {s t : State} {f : Failure} (h : p s = .error f t)
    (hst : s.Evolves t) (hf : f.Expected s.cursor.front.toList) : OrderlyFrom p s where
  evolves := after_of_error h ▸ hst
  expected h' := by rw [h] at h'; cases h'; exact hf

theorem evolves_ok {p : Parser α} {s t : State} {a : α} (hp : OrderlyFrom p s) (h : p s = .ok a t) :
    s.Evolves t :=
  after_of_ok h ▸ hp.evolves

theorem evolves_error {p : Parser α} {s t : State} {f : Failure} (hp : OrderlyFrom p s)
    (h : p s = .error f t) : s.Evolves t :=
  after_of_error h ▸ hp.evolves

theorem bind {p : Parser α} {f : α → Parser β} {s : State} (hp : OrderlyFrom p s)
    (hf : ∀ {a t}, p s = .ok a t → OrderlyFrom (f a) t) : OrderlyFrom (p >>= f) s := by
  cases h : p s with
  | ok a t =>
    have hst := hp.evolves_ok h
    have ht := hf h
    cases h' : f a t with
    | ok b u => exact of_ok ((bind_of_ok h).trans h') (hst.trans (ht.evolves_ok h'))
    | error e u =>
      exact of_error ((bind_of_ok h).trans h') (hst.trans (ht.evolves_error h'))
        (hst.front ▸ ht.expected h')
  | error e t => exact of_error (bind_of_error h) (hp.evolves_error h) (hp.expected h)

end OrderlyFrom

namespace Orderly

theorem evolves_ok (p : Parser α) [Orderly p] {s t : State} {a : α} (h : p s = .ok a t) :
    s.Evolves t :=
  (from_ s).evolves_ok h

theorem evolves_error (p : Parser α) [Orderly p] {s t : State} {f : Failure}
    (h : p s = .error f t) : s.Evolves t :=
  (from_ s).evolves_error h

theorem expected {p : Parser α} [Orderly p] {s t : State} {f : Failure} (h : p s = .error f t) :
    f.Expected s.cursor.front.toList :=
  (from_ s).expected h

end Orderly

end Parser

end Rulebook
