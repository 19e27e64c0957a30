import Rulebook.Proofs.Alongside
import Rulebook.Proofs.PartingConditions
import Rulebook.Proofs.TwinSources

/-!
# Where a success ends

A production that succeeds without complaint, with trivia hidden before and after it, leaves the
cursor where it was or right behind a visible token. So the place where it ends does not depend on
the trivia that follows.
-/

namespace Rulebook

/-- The second cursor is right behind a visible token that was not passed by the first one. -/
def Cursor.Lands (c d : Cursor) : Prop :=
  c.seek c.index < d.index ∧ (d.tokenAt (d.index - 1)).isTrivia = false

theorem Cursor.moves_trans {c d e : Cursor} (h : d = c ∨ c.Lands d) (h' : e = d ∨ d.Lands e)
    (hle : d.index ≤ e.index) : e = c ∨ c.Lands e := by
  rcases h with rfl | hlands
  · exact h'
  · rcases h' with rfl | hlands'
    · exact .inr hlands
    · exact .inr ⟨Nat.lt_of_lt_of_le hlands.1 hle, hlands'.2⟩

theorem Cursor.tokenAt_of_rest {c : Cursor} {ks r : List Token} {x : Token}
    (h : c.rest = ks ++ x :: r) : c.tokenAt (c.index + ks.length) = x := by
  have hget : c.front.toList[c.index + ks.length]? = some x := by
    rw [← List.getElem?_drop, show c.front.toList.drop c.index = _ from h,
      List.getElem?_append_right (Nat.le_refl _), Nat.sub_self]
    rfl
  rw [tokenAt, Array.getD_eq_getD_getElem?, ← Array.getElem?_toList, hget]
  rfl

namespace Parser

set_option synthInstance.maxSize 100000

variable {α β : Type} {k : Nat} {s t u : State}

/-- Where fewer tokens are ahead, the next one was passed. -/
theorem State.Evolves.seek_lt (h : s.Evolves t) (hs : s.cursor.triviaVisible = false)
    (hlt : t.cursor.shown.length < s.cursor.shown.length) :
    s.cursor.seek s.cursor.index < t.cursor.index := by
  refine Nat.lt_of_not_le fun hle => ?_
  rw [Cursor.shown_of_hidden hs, Cursor.shown_of_hidden (h.triviaVisible.trans hs)] at hlt
  have hsuffix : visible (s.cursor.front.toList.drop (s.cursor.seek s.cursor.index)) <:+
      t.cursor.ahead := by
    rw [Cursor.ahead, Cursor.rest, h.front]
    exact (List.drop_suffix_drop_left _ hle).filter _
  rw [Cursor.visible_seek hs] at hsuffix
  exact absurd hlt (Nat.not_lt.2 hsuffix.length_le)

theorem received_advanced (s : State) : s.advanced.collector.received = s.collector.received := by
  show (if s.trials = 0 then _ else _ : Collector).received = _
  split <;> rfl

/-- What was complained of was not read without complaint. -/
theorem clean_of_bind {p : Parser α} {f : α → Parser β} [Orderly p] [∀ a, Orderly (f a)] {a : α}
    {b : β} (h : p s = .ok a u) {v : State} (h' : f a u = .ok b v)
    (hclean : v.collector.received = s.collector.received) :
    u.collector.received = s.collector.received ∧ v.collector.received = u.collector.received := by
  have hle := (Orderly.evolves_ok p h).received_le
  have hle' := (Orderly.evolves_ok (f a) h').received_le
  omega

/-- Success without complaint leaves the cursor where it is, or right behind a visible token. -/
class Tokenwise (p : Parser α) : Prop where
  moves : ∀ {s t : State} {a : α}, s.cursor.triviaVisible = false → p s = .ok a t →
    t.collector.received = s.collector.received → t.cursor = s.cursor ∨ s.cursor.Lands t.cursor

namespace Tokenwise

theorem seek_lt (p : Parser α) [Tokenwise p] {a : α} (hs : s.cursor.triviaVisible = false)
    (h : p s = .ok a t) (hclean : t.collector.received = s.collector.received) :
    t.cursor = s.cursor ∨ s.cursor.seek s.cursor.index < t.cursor.index :=
  (moves hs h hclean).imp_right And.left

/-! ### Combinators -/

theorem of_look {p : Parser α} {a : State → α} (hp : ∀ s, p s = .ok (a s) s) : Tokenwise p where
  moves {s t _} _ h _ := by
    rw [hp s] at h
    cases h
    exact .inl rfl

theorem of_error {p : Parser α} (hp : ∀ s a t, p s ≠ .ok a t) : Tokenwise p where
  moves _ h := absurd h (hp _ _ _)

instance (a : α) : Tokenwise (pure a : Parser α) := of_look fun _ => rfl

instance : Tokenwise (get : Parser State) := of_look fun _ => rfl

instance (e : ParseError) : Tokenwise (fail e : Parser α) := of_error fun _ _ _ h => by cases h

instance (f : Failure) : Tokenwise (throw f : Parser α) := of_error fun _ _ _ h => by cases h

instance bind (p : Parser α) (f : α → Parser β) [Tokenwise p] [∀ a, Tokenwise (f a)] [Orderly p]
    [∀ a, Orderly (f a)] : Tokenwise (p >>= f) where
  moves {s u b} hs h hclean := by
    obtain ⟨a, t, ht, hu⟩ := bind_eq_ok.1 h
    obtain ⟨hclean₁, hclean₂⟩ := clean_of_bind ht hu hclean
    exact Cursor.moves_trans (moves hs ht hclean₁)
      (moves ((Orderly.evolves_ok p ht).triviaVisible.trans hs) hu hclean₂)
      (Orderly.evolves_ok (f a) hu).index

theorem bind_of_moving {p : Parser α} {f : α → Parser β} [Orderly p] [∀ a, Orderly (f a)]
    [∀ a, Tokenwise (f a)] (hf : ∀ {a : α} {b : β} {s t : State}, f a s = .ok b t →
      t.collector.received = s.collector.received → t.cursor ≠ s.cursor) : Tokenwise (p >>= f) where
  moves {s u b} hs h hclean := by
    obtain ⟨a, t, ht, hu⟩ := bind_eq_ok.1 h
    obtain ⟨-, hclean₂⟩ := clean_of_bind ht hu hclean
    have hst := Orderly.evolves_ok p ht
    have hlands := (moves (hst.triviaVisible.trans hs) hu hclean₂).resolve_left (hf hu hclean₂)
    exact .inr ⟨Nat.lt_of_le_of_lt (hst.atBrink (Nat.le_refl _)) hlands.1, hlands.2⟩

theorem cursor_ne (p : Parser α) [Eager p] {a : α} (h : p s = .ok a t) : t.cursor ≠ s.cursor :=
  fun heq => Nat.lt_irrefl _ (heq ▸ Eager.takes p h)

instance bind_eager (p : Parser α) (f : α → Parser β) [Orderly p] [∀ a, Orderly (f a)]
    [∀ a, Eager (f a)] [∀ a, Tokenwise (f a)] : Tokenwise (p >>= f) :=
  bind_of_moving fun {a _ _ _} h _ => cursor_ne (f a) h

instance map (p : Parser α) (f : α → β) [Tokenwise p] [Orderly p] : Tokenwise (f <$> p) := by
  rw [map_eq_bind]; infer_instance

instance (c : Prop) [Decidable c] (p q : Parser α) [Tokenwise p] [Tokenwise q] :
    Tokenwise (if c then p else q) := by
  split <;> infer_instance

instance : Tokenwise levels := of_look levels_eq

instance nested (n : Nesting) (p : Parser α) [Tokenwise p] : Tokenwise (nested n p) where
  moves {s t a} hs h hclean := by
    obtain ⟨-, u, hu, rfl⟩ := nested_eq_ok.1 h
    exact @moves _ p _ (s.within n) u a hs hu hclean

instance trial (alternative : String) (p : Parser α) [Orderly p] :
    Tokenwise (trial alternative p) where
  moves _ h _ := .inl (by rw [Orderly.trial_of_ok h])

instance rounds (more : α → Parser Bool) (body : α → Parser α) [∀ a, Tokenwise (more a)]
    [∀ a, Tokenwise (body a)] [∀ a, Orderly (more a)] [∀ a, Orderly (body a)] (n : Nat) (a : α) :
    Tokenwise (rounds more body n a) := by
  induction n generalizing a with
  | zero => unfold Parser.rounds; infer_instance
  | succ n ih => unfold Parser.rounds; infer_instance

instance repeatWhile (first : α) (more : α → Parser Bool) (body : α → Parser α)
    [∀ a, Tokenwise (more a)] [∀ a, Tokenwise (body a)] [∀ a, Orderly (more a)]
    [∀ a, Orderly (body a)] : Tokenwise (repeatWhile first more body) := by
  unfold Parser.repeatWhile; infer_instance

/-! ### Looking and consuming -/

instance : Tokenwise current := of_look current_eq

instance (n : Nat) : Tokenwise (peek n) := of_look (peek_eq n)

instance (kinds : List TokenKind) : Tokenwise (nextIs kinds) := of_look (nextIs_eq kinds)

instance (c : Symbol) : Tokenwise (nextIsSymbol c) := of_look fun _ => rfl

instance (w : Keyword) : Tokenwise (nextIsKeyword w) := of_look fun _ => rfl

instance : Tokenwise lastStop := of_look fun _ => rfl

instance (l : Location) : Tokenwise (close l) := of_look fun _ => rfl

instance : Tokenwise advance where
  moves {s t _} hs h _ := by
    cases h
    by_cases hk : s.cursor.current.kind = .endOfInput
    · exact .inl (Cursor.consume_of_end hk)
    · refine .inr ?_
      show s.cursor.Lands s.cursor.consume
      rw [Cursor.consume_eq hk]
      exact ⟨Nat.lt_succ_self _, Cursor.current_not_trivia hs⟩

instance (kind : TokenKind) : Tokenwise (expect kind) := by unfold expect; infer_instance

instance (c : Symbol) : Tokenwise (symbol c) := by unfold symbol; infer_instance

instance (w : Keyword) : Tokenwise (keyword w) := by unfold keyword; infer_instance

instance : Tokenwise name := by unfold name; infer_instance

instance (kind : TokenKind) : Tokenwise (accept kind) := by unfold accept; infer_instance

instance (c : Symbol) : Tokenwise (skip c) := by unfold skip; infer_instance

instance (message : String) (token : Token) : Tokenwise (remark message token) where
  moves {s t _} _ h _ := by
    rw [remark_eq] at h
    cases h
    refine .inl ?_
    split <;> rfl

instance (code : String) (token : Token) : Tokenwise (checkSemicolon code token) := by
  unfold checkSemicolon; infer_instance

instance : Tokenwise dottedName := by unfold dottedName; infer_instance

end Tokenwise

/-! ### Embedded code -/

namespace Tokenwise

instance chunk (opening closing : Symbol) (stops : List Symbol) :
    Tokenwise (chunk opening closing stops) where
  moves {s t _} hs h _ := by
    have hlt :=
      (Orderly.evolves_ok (Parser.chunk opening closing stops) h).seek_lt hs (Eager.takes _ h)
    obtain ⟨-, inner, x, r, henclosed, -, rfl⟩ := enclosed_of_chunk h
    refine .inr ⟨hlt, ?_⟩
    show (s.advanced.cursor.tokenAt (s.advanced.cursor.index + inner.length)).isTrivia = false
    rw [Cursor.tokenAt_of_rest (append_of_enclosed henclosed).symm, Token.isTrivia,
      closing_of_enclosed henclosed]
    rfl

instance : Tokenwise parenChunk := by unfold parenChunk; infer_instance

instance : Tokenwise squareChunk := by unfold squareChunk; infer_instance

instance : Tokenwise parenCode := by unfold parenCode; infer_instance

end Tokenwise

/-! ### Patterns -/

theorem received_lt_of_recoverParen {e : ParseError} {stop : Option Nat}
    (h : recoverParen e s = .ok stop u) : s.collector.received < u.collector.received := by
  obtain ⟨_, v, hv, hu⟩ := bind_eq_ok.1 h
  have hvu : v.collector.received ≤ u.collector.received :=
    (Orderly.evolves_ok (do
      if ← nextIsSymbol .rparen then return some (← advance).start else return none :
        Parser (Option Nat)) hu).received_le
  rw [recoverFrom_eq] at hv
  split at hv
  · cases hv
  · cases hv
    refine Nat.lt_of_lt_of_le ?_ hvu
    show _ < (s.collector.report e s.ruleName).received
    rw [Collector.received_report]
    exact Nat.lt_succ_self _

/-- Without complaint, the closing parenthesis is there and the constraints before it are not
broken. -/
theorem symbol_of_rightParen {failure : Option ParseError} {stop : Option Nat}
    (h : rightParen failure s = .ok stop u)
    (hclean : u.collector.received = s.collector.received) :
    failure = none ∧ ∃ token, symbol .rparen s = .ok token u ∧ stop = some token.start := by
  have hbroken : ∀ e, recoverParen e s ≠ .ok stop u := fun e hno =>
    absurd hclean (Nat.ne_of_gt (received_lt_of_recoverParen hno))
  cases failure with
  | some e => exact absurd h (hbroken e)
  | none =>
    obtain ⟨r, v, hv, hu⟩ := bind_eq_ok.1 h
    rcases attempt_ok (p := symbol .rparen) hv with ⟨token, rfl, htoken⟩ | ⟨e, rfl, he⟩
    · obtain ⟨rfl, rfl⟩ := pure_ok hu
      exact ⟨rfl, token, htoken, rfl⟩
    · obtain rfl : v = s := by
        unfold symbol at he
        rw [expect_eq] at he
        split at he <;> cases he
        rfl
      exact absurd hu (hbroken e)

theorem factPattern_eq : factPattern = (do
    let start ← current
    let head ← bindingName >>= fun name => do return (name, ← dottedName)
    let opening ← symbol .lparen
    let body ← constraints >>= fun body => do return (body, ← rightParen body.failure)
    return ⟨← close (.ofToken start), head.2, head.1, body.1.found, .workingMemory, opening.start,
      body.2⟩) := by
  unfold factPattern
  simp only [bind_assoc, pure_bind]

namespace Tokenwise

instance (failure : Option ParseError) : Tokenwise (rightParen failure) where
  moves hs h hclean := by
    obtain ⟨-, token, htoken, -⟩ := symbol_of_rightParen h hclean
    exact moves hs htoken hclean

instance : Tokenwise factPattern := by
  have hbody : Tokenwise (constraints >>= fun body => do
      return (body, ← rightParen body.failure)) :=
    bind_of_moving fun h hclean => by
      obtain ⟨stop, v, hv, hu⟩ := bind_eq_ok.1 h
      obtain ⟨rfl, rfl⟩ := pure_ok hu
      obtain ⟨-, token, htoken, -⟩ := symbol_of_rightParen hv hclean
      exact cursor_ne (symbol .rparen) htoken
  rw [factPattern_eq]
  infer_instance

/-! ### Sources -/

instance (chain : List Access) (bracket : Token) : Eager (indexAccess chain bracket) := by
  unfold indexAccess; infer_instance

instance (chain : List Access) : Eager (memberAccess chain) := by
  unfold memberAccess; infer_instance

instance (chain : List Access) : Eager (access chain) := by unfold access; infer_instance

instance : Eager retrievalParts := by unfold retrievalParts; infer_instance

instance : Eager retrieval := by rw [retrieval_eq]; infer_instance

instance : Tokenwise arguments? := by unfold arguments?; infer_instance

instance (chain : List Access) (bracket : Token) : Tokenwise (indexAccess chain bracket) := by
  unfold indexAccess; infer_instance

instance (chain : List Access) : Tokenwise (memberAccess chain) := by
  unfold memberAccess; infer_instance

instance (chain : List Access) : Tokenwise (access chain) := by unfold access; infer_instance

instance (start : Token) (parts : Token × Option String × List Access) :
    Tokenwise (retrievalOf start parts) :=
  of_look (retrievalOf_eq start parts)

instance : Tokenwise retrieval := by
  rw [retrieval_eq]
  unfold retrievalParts
  infer_instance

section Within

variable (pattern : Parser Pattern) [Orderly pattern]

instance (token : Token) : Tokenwise (accumulateBody pattern token) := by
  unfold accumulateBody; infer_instance

instance (token : Token) : Tokenwise (collectBody pattern token) := by
  unfold collectBody; infer_instance

instance : Tokenwise (accumulate pattern) := by unfold accumulate; infer_instance

instance : Tokenwise (collect pattern) := by unfold collect; infer_instance

instance : Tokenwise (fromSource pattern) := by unfold fromSource; infer_instance

end Within

instance patternWithin (levels : Nat) : Tokenwise (patternWithin levels) := by
  cases levels <;> unfold Parser.patternWithin <;> infer_instance

instance : Tokenwise sourcedPattern := by unfold sourcedPattern; infer_instance

/-! ### Conditions -/

instance (kind : Grouping) (connectives : List TokenKind) (operand : Parser Condition)
    [Tokenwise operand] [Orderly operand] : Tokenwise (infixGroup kind connectives operand) := by
  unfold infixGroup; infer_instance

instance (connective : Token) (operands : List Condition) :
    Eager (closeOperands connective operands) := by
  cases operands <;> unfold closeOperands <;> infer_instance

instance (connective : Token) (operands : List Condition) :
    Tokenwise (closeOperands connective operands) := by
  cases operands <;> unfold closeOperands <;> infer_instance

instance (patterns : List Pattern) : Orderly (anotherPattern patterns) := by
  unfold anotherPattern; infer_instance

section Within

variable (single : Parser Condition) [Orderly single]

instance (operands : List Condition) : Orderly (anotherOperand single operands) := by
  unfold anotherOperand; infer_instance

instance : Eager (prefixGroup single) := by rw [prefixGroup_eq_join]; infer_instance

instance : Tokenwise (prefixGroup single) := by
  rw [prefixGroup_eq_join]
  infer_instance

instance : Tokenwise (parenthesised single) := by unfold parenthesised; infer_instance

instance : Tokenwise (operand single) := by unfold operand; infer_instance

instance (k : Keyword) (kind : Grouping) : Tokenwise (unaryGroup k kind single) := by
  unfold unaryGroup; infer_instance

instance : Tokenwise evalCondition := by unfold evalCondition; infer_instance

instance : Tokenwise forallCondition := by unfold forallCondition; infer_instance

instance : Tokenwise (singleCondition single) := by unfold singleCondition; infer_instance

end Within

instance conditionWithin (levels : Nat) : Tokenwise (conditionWithin levels) := by
  cases levels <;> unfold Parser.conditionWithin <;> infer_instance

instance : Tokenwise condition := by unfold condition; infer_instance

instance : Tokenwise conditions := by unfold conditions disjunction; infer_instance

end Tokenwise

end Parser

end Rulebook
