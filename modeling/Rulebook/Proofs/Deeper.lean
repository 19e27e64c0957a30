import Rulebook.Proofs.OrderlyGrammar

/-!
# Levels of nesting

What is read within a number of levels is read alike where there are more of them: the one thing
that a production does otherwise for fewer levels is to give up.
-/

namespace Rulebook.Parser

variable {α β : Type} {s t : State} {a : α}

/-- The second production does what the first one does, unless that gives up for its levels. -/
def Extends (p q : Parser α) : Prop := ∀ s, (∃ t, p s = .error .nestingTooDeep t) ∨ q s = p s

namespace Extends

theorem refl (p : Parser α) : Extends p p := fun _ => .inr rfl

theorem ok {p q : Parser α} (h : Extends p q) (hp : p s = .ok a t) : q s = .ok a t := by
  rcases h s with ⟨u, hu⟩ | hq
  · rw [hp] at hu
    cases hu
  · rw [hq, hp]

theorem bind {p q : Parser α} {f g : α → Parser β} (h : Extends p q)
    (hf : ∀ a, Extends (f a) (g a)) : Extends (p >>= f) (q >>= g) := fun s => by
  rcases h s with ⟨t, ht⟩ | hq
  · exact .inl ⟨t, bind_of_error ht⟩
  · cases hp : p s with
    | error e t => exact .inr (by rw [bind_of_error hp, bind_of_error (hq.trans hp)])
    | ok a t =>
      rw [bind_of_ok hp, bind_of_ok (hq.trans hp)]
      exact hf a t

/-- The same production first, then one with more levels. -/
theorem after {p : Parser α} {f g : α → Parser β} (hf : ∀ a, Extends (f a) (g a)) :
    Extends (p >>= f) (p >>= g) :=
  (refl p).bind hf

/-- A production with more levels, then the same one. -/
theorem before {p q : Parser α} {f : α → Parser β} (h : Extends p q) :
    Extends (p >>= f) (q >>= f) :=
  h.bind fun a => refl (f a)

theorem ite {c : Prop} [Decidable c] {p q p' q' : Parser α} (h : Extends p q) (h' : Extends p' q') :
    Extends (if c then p else p') (if c then q else q') := by
  split
  · exact h
  · exact h'

theorem trial {p q : Parser α} (h : Extends p q) (alternative : String) :
    Extends (trial alternative p) (trial alternative q) := fun s => by
  rcases h s.trying with ⟨t, ht⟩ | hq
  · exact .inl ⟨s.restored t, by rw [trial_eq, ht]⟩
  · exact .inr (by rw [trial_eq, trial_eq, hq])

theorem rounds {more : α → Parser Bool} {body body' : α → Parser α}
    (h : ∀ a, Extends (body a) (body' a)) (n : Nat) (a : α) :
    Extends (rounds more body n a) (rounds more body' n a) := by
  induction n generalizing a with
  | zero => exact refl _
  | succ n ih => exact after fun c => ite ((h a).bind ih) (refl _)

theorem repeatWhile {more : α → Parser Bool} {body body' : α → Parser α}
    (h : ∀ a, Extends (body a) (body' a)) (first : α) :
    Extends (repeatWhile first more body) (repeatWhile first more body') :=
  after fun s => rounds h (s.cursor.remaining + 1) first

theorem nested {p q : Parser α} (h : Extends p q) (n : Nesting) :
    Extends (nested n p) (nested n q) :=
  fun s => by
    by_cases hroom : n.frames ≤ s.stack.room
    · rcases h (s.within n) with ⟨t, ht⟩ | hq
      · exact .inl ⟨s.unwound t, nested_of_error hroom ht⟩
      · cases hp : p (s.within n) with
        | ok a t => exact .inr (by rw [nested_of_ok hroom hp, nested_of_ok hroom (hq.trans hp)])
        | error f t =>
          exact .inr (by rw [nested_of_error hroom hp, nested_of_error hroom (hq.trans hp)])
    · have hdeep := Nat.lt_of_not_le hroom
      exact .inr (by rw [nested_of_deep p hdeep, nested_of_deep q hdeep])

theorem withTrivia {p q : Parser α} [Orderly p] [Orderly q] (h : Extends p q) :
    Extends (withTrivia p) (withTrivia q) := fun s => by
  rcases h s.showing with ⟨t, ht⟩ | hq
  · exact .inl ⟨s.hidingAs t, Orderly.withTrivia_of_error ht⟩
  · exact .inr (by rw [withTrivia_eq, withTrivia_eq, hq])

theorem throw (p : Parser α) : Extends (MonadExcept.throw Failure.nestingTooDeep : Parser α) p :=
  fun s => .inl ⟨s, rfl⟩

/-! ### Embedded code -/

theorem chunkPart {inner inner' : Parser String} (h : Extends inner inner')
    (opening closing : Symbol) (stops : List Symbol) (x : String × Bool) :
    Extends (chunkPart opening closing stops inner x) (chunkPart opening closing stops inner' x) :=
  after fun _ => ite h.before (refl _)

theorem chunkWithin (opening closing : Symbol) (stops : List Symbol) {m n : Nat} (h : m ≤ n) :
    Extends (chunkWithin opening closing stops m) (chunkWithin opening closing stops n) := by
  induction m generalizing n with
  | zero => exact throw _
  | succ m ih =>
    obtain ⟨n, rfl⟩ : ∃ k, n = k + 1 := ⟨n - 1, by omega⟩
    have hinner := (ih (Nat.le_of_succ_le_succ h)).nested .code
    unfold Parser.chunkWithin
    exact after fun _ => (repeatWhile (hinner.chunkPart opening closing stops) _).withTrivia.before

/-! ### Sources -/

section Pattern

variable {pattern pattern' : Parser Pattern}

theorem accumulateBody (h : Extends pattern pattern') (token : Token) :
    Extends (accumulateBody pattern token) (accumulateBody pattern' token) :=
  (h.nested .source).before

theorem collectBody (h : Extends pattern pattern') (token : Token) :
    Extends (collectBody pattern token) (collectBody pattern' token) := (h.nested .source).before

theorem accumulate (h : Extends pattern pattern') :
    Extends (accumulate pattern) (accumulate pattern') :=
  after fun token => after fun _ => accumulateBody h token

theorem collect (h : Extends pattern pattern') : Extends (collect pattern) (collect pattern') :=
  after fun token => after fun _ => collectBody h token

theorem fromSource (h : Extends pattern pattern') :
    Extends (fromSource pattern) (fromSource pattern') := by
  refine after fun _ => after fun _ => ite ?_ (after fun _ => ite ?_ (refl _))
  · exact (h.accumulate.trial _).bind fun _ => ite h.accumulate (refl _)
  · exact (h.collect.trial _).bind fun _ => ite h.collect (refl _)

end Pattern

theorem patternWithin {m n : Nat} (h : m ≤ n) : Extends (patternWithin m) (patternWithin n) := by
  induction m generalizing n with
  | zero => exact throw _
  | succ m ih =>
    obtain ⟨n, rfl⟩ : ∃ k, n = k + 1 := ⟨n - 1, by omega⟩
    have hsource := fromSource (ih (Nat.le_of_succ_le_succ h))
    exact after fun p => after fun _ => ite hsource.before (refl _)

/-! ### Conditions -/

section Single

variable {single single' : Parser Condition}

theorem infixGroup (h : Extends single single') (kind : Grouping) (connectives : List TokenKind) :
    Extends (infixGroup kind connectives single) (infixGroup kind connectives single') :=
  h.bind fun _ => (repeatWhile (fun _ => after fun _ => h.before) []).before

theorem disjunction (h : Extends single single') :
    Extends (disjunction single) (disjunction single') :=
  (h.infixGroup .and andKinds).infixGroup .or orKinds

theorem prefixGroup (h : Extends single single') :
    Extends (prefixGroup single) (prefixGroup single') :=
  after fun _ => (repeatWhile (fun _ => h.before) []).before

theorem parenthesised (h : Extends single single') :
    Extends (parenthesised single) (parenthesised single') :=
  after fun _ => after fun _ =>
    ite (h.nested .prefixed).prefixGroup (h.nested .group).disjunction.before

theorem operand (h : Extends single single') : Extends (operand single) (operand single') :=
  after fun _ => ite h.parenthesised (refl _)

theorem unaryGroup (h : Extends single single') (k : Keyword) (kind : Grouping) :
    Extends (unaryGroup k kind single) (unaryGroup k kind single') :=
  after fun _ => (h.operand.nested .operand).before

theorem singleCondition (h : Extends single single') :
    Extends (singleCondition single) (singleCondition single') := by
  unfold Parser.singleCondition
  refine after fun token => ?_
  exact ite (h.unaryGroup _ _).before <| ite (h.unaryGroup _ _).before <| ite (refl _) <|
    ite (refl _) <| ite h.parenthesised.before (refl _)

end Single

theorem conditionWithin {m n : Nat} (h : m ≤ n) :
    Extends (conditionWithin m) (conditionWithin n) := by
  induction m generalizing n with
  | zero => exact throw _
  | succ m ih =>
    obtain ⟨n, rfl⟩ : ∃ k, n = k + 1 := ⟨n - 1, by omega⟩
    exact (ih (Nat.le_of_succ_le_succ h)).singleCondition

end Extends

/-! ### The levels of the stack -/

def SameAt (frames : Nat) (p q : Parser α) : Prop := ∀ s, s.stack.frames = frames → p s = q s

namespace SameAt

variable {frames : Nat}

theorem refl (p : Parser α) : SameAt frames p p := fun _ _ => rfl

theorem bind {p q : Parser α} [Orderly p] {f g : α → Parser β} (h : SameAt frames p q)
    (hf : ∀ a, SameAt frames (f a) (g a)) : SameAt frames (p >>= f) (q >>= g) := fun s hs => by
  cases hp : p s with
  | error e t => rw [bind_of_error hp, bind_of_error ((h s hs).symm.trans hp)]
  | ok a t =>
    rw [bind_of_ok hp, bind_of_ok ((h s hs).symm.trans hp)]
    exact hf a t (by rw [(Orderly.evolves_ok p hp).stack, hs])

theorem rounds {more : α → Parser Bool} {body body' : α → Parser α} [∀ a, Orderly (more a)]
    [∀ a, Orderly (body a)] (h : ∀ a, SameAt frames (body a) (body' a)) (n : Nat) (a : α) :
    SameAt frames (rounds more body n a) (rounds more body' n a) := by
  induction n generalizing a with
  | zero => exact refl _
  | succ n ih =>
    refine (refl _).bind fun c => ?_
    split
    · exact (h a).bind ih
    · exact refl _

theorem infixGroup {operand operand' : Parser Condition} [Orderly operand]
    (h : SameAt frames operand operand') (kind : Grouping) (connectives : List TokenKind) :
    SameAt frames (infixGroup kind connectives operand) (infixGroup kind connectives operand') := by
  refine h.bind fun _ => SameAt.bind ?_ fun _ => refl _
  exact (refl get).bind fun s =>
    rounds (fun _ => (refl _).bind fun _ => h.bind fun _ => refl _) (s.cursor.remaining + 1) []

end SameAt

theorem sourcedPattern_eq (s : State) :
    sourcedPattern s = Parser.patternWithin (s.stack.frames + 1) s :=
  bind_of_ok (levels_eq s)

theorem conditions_eq (s : State) :
    conditions s = disjunction (conditionWithin (s.stack.frames + 1)) s := by
  have h : SameAt s.stack.frames condition (conditionWithin (s.stack.frames + 1)) := fun t ht => by
    rw [← ht]
    exact bind_of_ok (levels_eq t)
  exact (h.infixGroup .and andKinds).infixGroup .or orKinds s rfl

end Rulebook.Parser

