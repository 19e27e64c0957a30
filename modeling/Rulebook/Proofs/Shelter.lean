import Rulebook.Proofs.LocalityGrammar
import Rulebook.Proofs.PartingConditions
import Rulebook.Proofs.TwinSources

/-!
# What is tried inside parentheses

In a trial no production goes past a closing parenthesis that it has not opened. So what stands
inside a pair of parentheses is read, or fails, in the same way whatever is behind that pair. Other
than for a reading that succeeds, this holds for every way to end.
-/

namespace Rulebook.Parser

set_option synthInstance.maxSize 100000

variable {α β : Type} {k : Nat} {s t u v : State}

/-- A production ends from two states in the same way, at the same place. -/
inductive Alike (k : Nat) (s t : State) (p : Parser α) : Prop where
  | ok {a : α} {u v : State} (hs : p s = .ok a u) (ht : p t = .ok a v) (h : u.Alongside k v)
  | error {f : Failure} {u v : State} (hs : p s = .error f u) (ht : p t = .error f v)
    (h : u.Alongside k v)

/-- Two states of trials at the same place inside a pair of parentheses. The text of the first one
ends where this pair is closed, or further on; up to there the second one has the same tokens. -/
structure State.Sheltered (k : Nat) (s t : State) : Prop where
  alongside : s.Alongside k t
  cut : s.cursor.front.size = k
  tried : s.Tried
  closed : ¬s.Spent

namespace State.Sheltered

theorem not_atBrink (h : s.Sheltered k t) : ¬s.cursor.AtBrink k := fun hbrink => by
  refine h.closed (State.AtEnd.spent ?_)
  show visible (s.cursor.front.toList.drop s.cursor.index) = []
  rw [← Cursor.visible_seek h.tried.hidden, List.drop_eq_nil_of_le]
  · rfl
  · show s.cursor.front.size ≤ _
    rw [h.cut]
    exact hbrink

theorem current_eq (h : s.Sheltered k t) : s.cursor.current = t.cursor.current :=
  h.alongside.cursor.current_eq h.not_atBrink

/-- A state that was come to with no closing parenthesis too many. -/
theorem ok {p : Parser α} [Orderly p] {a : α} (h : s.Sheltered k t) (hlevel : LevelFrom 0 p s)
    (hu : p s = .ok a u) (huv : u.Alongside k v) : u.Sheltered k v where
  alongside := huv
  cut := by rw [(Orderly.evolves_ok p hu).front, h.cut]
  tried := (Orderly.evolves_ok p hu).tried h.tried
  closed hspent := h.closed (hlevel.ok hu 0 hspent)

theorem trying (h : s.Sheltered k t) : s.trying.Sheltered k t.trying :=
  ⟨h.alongside.trying, h.cut, ⟨h.tried.hidden, Nat.succ_pos _⟩, h.closed⟩

theorem within (h : s.Sheltered k t) (n : Nesting) : (s.within n).Sheltered k (t.within n) :=
  ⟨h.alongside.within n, h.cut, ⟨h.tried.hidden, h.tried.trials⟩, h.closed⟩

theorem advanced (h : s.Sheltered k t) (hk : s.cursor.current.kind ≠ .symbol .rparen) :
    s.advanced.Sheltered k t.advanced :=
  h.ok (Level.advance h.tried hk) (advance_eq s) (h.alongside.advanced h.not_atBrink)

end State.Sheltered

theorem Alike.symm {p : Parser α} (h : Alike k s t p) : Alike k t s p := by
  cases h with
  | ok hs ht h => exact .ok ht hs h.symm
  | error hs ht h => exact .error ht hs h.symm

theorem Alike.trans {p : Parser α} (h : Alike k s t p) (h' : Alike k t u p) : Alike k s u p := by
  cases h with
  | ok hs ht h =>
    cases h' with
    | ok ht' hu h' =>
      obtain ⟨rfl, rfl⟩ := EStateM.Result.ok.inj (ht.symm.trans ht')
      exact .ok hs hu (h.trans h')
    | error ht' => rw [ht] at ht'; cases ht'
  | error hs ht h =>
    cases h' with
    | ok ht' => rw [ht] at ht'; cases ht'
    | error ht' hu h' =>
      obtain ⟨rfl, rfl⟩ := EStateM.Result.error.inj (ht.symm.trans ht')
      exact .error hs hu (h.trans h')

theorem Alike.bind {p : Parser α} {f : α → Parser β} (hp : Alike k s t p)
    (hf : ∀ {a u v}, p s = .ok a u → p t = .ok a v → u.Alongside k v → Alike k u v (f a)) :
    Alike k s t (p >>= f) := by
  cases hp with
  | ok hs ht huv =>
    cases hf hs ht huv with
    | ok hu hv h => exact .ok ((bind_of_ok hs).trans hu) ((bind_of_ok ht).trans hv) h
    | error hu hv h => exact .error ((bind_of_ok hs).trans hu) ((bind_of_ok ht).trans hv) h
  | error hs ht huv => exact .error (bind_of_error hs) (bind_of_error ht) huv

/-- Something that both look up, where they are, before they go on. -/
theorem Alike.step {p : Parser α} {f : α → Parser β} {a : α} (hs : p s = .ok a s)
    (ht : p t = .ok a t) (h : Alike k s t (f a)) : Alike k s t (p >>= f) := by
  cases h with
  | ok hu hv h => exact .ok ((bind_of_ok hs).trans hu) ((bind_of_ok ht).trans hv) h
  | error hu hv h => exact .error ((bind_of_ok hs).trans hu) ((bind_of_ok ht).trans hv) h

/-- A production that ends alike from any two states at the same place. -/
class Unmoved (p : Parser α) : Prop where
  alike : ∀ {k : Nat} {s t : State}, s.Alongside k t → Alike k s t p

namespace Unmoved

instance (a : α) : Unmoved (pure a : Parser α) := ⟨.ok rfl rfl⟩

instance (e : ParseError) : Unmoved (fail e : Parser α) := ⟨.error rfl rfl⟩

instance (f : Failure) : Unmoved (throw f : Parser α) := ⟨.error rfl rfl⟩

instance bind (p : Parser α) (f : α → Parser β) [Unmoved p] [∀ a, Unmoved (f a)] :
    Unmoved (p >>= f) where
  alike h := (alike h).bind fun _ _ huv => alike huv

instance : Unmoved lastStop where
  alike {k s t} h := by
    have hlast : ∀ s, lastStop s = .ok (s.cursor.previous.map (·.stop)) s := fun _ => rfl
    exact .ok (hlast s) ((hlast t).trans (by rw [h.cursor.previous_eq])) h

instance (l : Location) : Unmoved (close l) := by unfold close; infer_instance

instance : Unmoved levels where
  alike {k s t} h := .ok (levels_eq s) ((levels_eq t).trans (by rw [h.stack])) h

end Unmoved

/-- The text of a retrieval is among what the two texts have in common. -/
theorem retrievalOf_alike (h : u.Alongside k v) {i : Nat} (hi : i < k) {start : Token}
    (parts : Token × Option String × List Access) (hstart : start = u.cursor.tokenAt i) :
    Alike k u v (retrievalOf start parts) := by
  refine .ok (retrievalOf_eq start parts u) ((retrievalOf_eq start parts v).trans ?_) h
  have htext :
      ∀ n : Nat, (∃ j < k, n ≤ (u.cursor.tokenAt j).start ∨ n ≤ (u.cursor.tokenAt j).stop) →
      ∀ m, v.cursor.text m n = u.cursor.text m n := fun n hn m => (h.cursor.text_eq hn).symm
  rw [← h.cursor.previous_eq, htext]
  cases hprevious : u.cursor.previous with
  | none =>
    exact ⟨i, hi, .inl (Nat.le_of_eq (congrArg Token.start hstart))⟩
  | some token =>
    obtain ⟨j, hj, rfl⟩ := Cursor.Over.exists_of_lastBefore hprevious
    have hjk : j < k := Nat.lt_of_lt_of_le hj h.cursor.index_le
    have hstop : ((Location.ofToken start).closeAt (some (u.cursor.tokenAt j).stop)).stop.getD 0 =
        max (u.cursor.tokenAt j).stop start.start := rfl
    rw [Option.map_some, hstop]
    rcases Nat.le_total (u.cursor.tokenAt j).stop start.start with hle | hle
    · rw [Nat.max_eq_right hle]
      exact ⟨i, hi, .inl (Nat.le_of_eq (congrArg Token.start hstart))⟩
    · rw [Nat.max_eq_left hle]
      exact ⟨j, hjk, .inr (Nat.le_refl _)⟩

/-- A production that ends alike inside parentheses, whatever is behind them. -/
class Sheltered (p : Parser α) : Prop where
  alike : ∀ {k : Nat} {s t : State}, s.Sheltered k t → Alike k s t p

namespace Sheltered

/-! ### Combinators -/

instance (priority := low) unmoved (p : Parser α) [Unmoved p] : Sheltered p :=
  ⟨fun h => Unmoved.alike h.alongside⟩

instance bind (p : Parser α) (f : α → Parser β) [Sheltered p] [Level 0 p] [Orderly p]
    [∀ a, Sheltered (f a)] : Sheltered (p >>= f) where
  alike h := (alike h).bind fun hu _ huv => alike (h.ok (Level.from_ _ h.tried) hu huv)

instance bind_unmoved (p : Parser α) (f : α → Parser β) [Sheltered p] [∀ a, Unmoved (f a)] :
    Sheltered (p >>= f) where
  alike h := (alike h).bind fun _ _ huv => Unmoved.alike huv

instance map (p : Parser α) (f : α → β) [Sheltered p] : Sheltered (f <$> p) := by
  rw [map_eq_bind]; infer_instance

instance (c : Prop) [Decidable c] (p q : Parser α) [Sheltered p] [Sheltered q] :
    Sheltered (if c then p else q) := by
  split <;> infer_instance

instance nested (n : Nesting) (p : Parser α) [Sheltered p] : Sheltered (nested n p) where
  alike {k s t} h := by
    by_cases hroom : n.frames ≤ s.stack.room
    · have hroom' : n.frames ≤ t.stack.room := h.alongside.stack ▸ hroom
      cases alike (p := p) (h.within n) with
      | ok hs ht huv =>
        exact .ok (nested_of_ok hroom hs) (nested_of_ok hroom' ht) (h.alongside.unwound huv)
      | error hs ht huv =>
        exact .error (nested_of_error hroom hs) (nested_of_error hroom' ht)
          (h.alongside.unwound huv)
    · have hdeep := Nat.lt_of_not_le hroom
      exact .error (nested_of_deep p hdeep) (nested_of_deep p (h.alongside.stack ▸ hdeep))
        h.alongside

theorem attempt {p : Parser α} (h : Alike k s t p) : Alike k s t (Parser.attempt p) := by
  cases h with
  | ok hs ht huv => exact .ok (attempt_of_ok hs) (attempt_of_ok ht) huv
  | @error f _ _ hs ht huv =>
    cases f with
    | recognition e => exact .ok (attempt_of_recognition hs) (attempt_of_recognition ht) huv
    | _ => exact .error (attempt_of_error hs (by simp)) (attempt_of_error ht (by simp)) huv

instance (p : Parser α) [Sheltered p] : Sheltered (Parser.attempt p) := ⟨fun h => attempt (alike h)⟩

theorem harvest {p : Parser β} (h : Alike k s t p) (found : α) (add : α → β → α) :
    Alike k s t (Parser.harvest found p add) := by
  unfold Parser.harvest
  rw [map_eq_bind]
  exact (attempt h).bind fun _ _ huv => Unmoved.alike huv

instance (found : α) (p : Parser β) (add : α → β → α) [Sheltered p] :
    Sheltered (Parser.harvest found p add) :=
  ⟨fun h => harvest (alike h) found add⟩

theorem trial {p : Parser α} [Orderly p] (alternative : String) (hst : s.Alongside k t)
    (h : Alike k s.trying t.trying p) : Alike k s t (Parser.trial alternative p) := by
  have hrestored : ∀ {u v : State}, s.trying.Evolves u → t.trying.Evolves v →
      (s.restored u).Alongside k (t.restored v) := fun hu hv => by
    rw [Orderly.restored_eq hu, Orderly.restored_eq hv]
    exact ⟨hst.cursor, hst.hidden, hst.trials, hst.stack⟩
  cases h with
  | ok hs ht =>
    exact .ok (trial_of_passed hs) (trial_of_passed ht)
      (hrestored (Orderly.evolves_ok p hs) (Orderly.evolves_ok p ht))
  | @error f u v hs ht =>
    have hu := Orderly.evolves_error p hs
    have hv := Orderly.evolves_error p ht
    cases f with
    | recognition e =>
      exact .ok (trial_of_recognition hs) (trial_of_recognition ht)
        (hrestored (hu.trans (Orderly.evolves_noted _ u)) (hv.trans (Orderly.evolves_noted _ v)))
    | _ =>
      exact .error (trial_of_failure hs (by simp)) (trial_of_failure ht (by simp)) (hrestored hu hv)

instance (alternative : String) (p : Parser α) [Orderly p] [Sheltered p] :
    Sheltered (Parser.trial alternative p) :=
  ⟨fun h => trial alternative h.alongside (alike h.trying)⟩

instance (message : String) (token : Token) : Sheltered (remark message token) where
  alike {k s t} h := by
    refine .ok ((remark_eq message token s).trans (by rw [if_pos h.tried.trials]))
      ((remark_eq message token t).trans ?_) h.alongside
    rw [if_pos (h.alongside.trials ▸ h.tried.trials)]

/-! ### Tokens -/

instance : Sheltered current where
  alike {k s t} h := .ok (current_eq s) ((current_eq t).trans (by rw [h.current_eq])) h.alongside

instance (kinds : List TokenKind) : Sheltered (nextIs kinds) := by unfold nextIs; infer_instance

instance (c : Symbol) : Sheltered (nextIsSymbol c) := by unfold nextIsSymbol; infer_instance

instance (w : Keyword) : Sheltered (nextIsKeyword w) := by unfold nextIsKeyword; infer_instance

instance : Sheltered advance where
  alike {k s t} h := .ok (advance_eq s) ((advance_eq t).trans (by rw [h.current_eq]))
    (h.alongside.advanced h.not_atBrink)

theorem advance_bind {f : Token → Parser β} (h : s.Sheltered k t)
    (hk : s.cursor.current.kind ≠ .symbol .rparen)
    (hf : s.advanced.Sheltered k t.advanced →
      Alike k s.advanced t.advanced (f s.cursor.current)) : Alike k s t (Parser.advance >>= f) :=
  (alike h).bind fun hu hv _ => by
    obtain ⟨rfl, rfl⟩ := EStateM.Result.ok.inj ((advance_eq s).symm.trans hu)
    obtain ⟨-, rfl⟩ := EStateM.Result.ok.inj ((advance_eq t).symm.trans hv)
    exact hf (h.advanced hk)

theorem current_bind {f : Token → Parser β} (h : s.Sheltered k t)
    (hf : Alike k s t (f s.cursor.current)) : Alike k s t (current >>= f) :=
  .step (current_eq s) ((current_eq t).trans (by rw [h.current_eq])) hf

theorem of_current {f : Token → Parser β}
    (h : ∀ {k s t}, s.Sheltered k t → Alike k s t (f s.cursor.current)) :
    Sheltered (current >>= f) :=
  ⟨fun hst => current_bind hst (h hst)⟩

theorem peek_bind {f : Token → Parser β} (h : s.Sheltered k t)
    (hname : s.cursor.current.isName = true) (hf : Alike k s t (f (s.cursor.lookahead 2))) :
    Alike k s t (peek 1 >>= f) := by
  have hadvanced := h.advanced (Level.isName_ne hname)
  refine .step (peek_eq 1 s) ((peek_eq 1 t).trans ?_) hf
  show EStateM.Result.ok (t.cursor.lookahead 2) t = .ok (s.cursor.lookahead 2) t
  rw [← Cursor.current_consume h.tried.hidden (Eager.ne_endOfInput_of_isName hname),
    ← Cursor.current_consume h.alongside.symm.hidden
      (Eager.ne_endOfInput_of_isName (h.current_eq ▸ hname))]
  exact congrArg (EStateM.Result.ok · t) hadvanced.current_eq.symm

theorem expect (kind : TokenKind) : Sheltered (expect kind) := by
  unfold Parser.expect; infer_instance

instance (w : Keyword) : Sheltered (keyword w) := expect _

instance (c : Symbol) : Sheltered (symbol c) := expect _

instance : Sheltered name := by unfold name; infer_instance

instance (c : Symbol) : Sheltered (skip c) := by unfold skip accept; infer_instance

/-! ### Repetition -/

theorem rounds {more : α → Parser Bool} {body : α → Parser α} [∀ a, Sheltered (more a)]
    [∀ a, Level 0 (more a)] [∀ a, Orderly (more a)] [∀ a, Orderly (body a)]
    (hbody : ∀ {k : Nat} {a : α} {s t u : State}, s.Sheltered k t → more a u = .ok true s →
      LevelFrom 0 (body a) s ∧ Alike k s t (body a)) (n : Nat) (a : α) :
    Sheltered (rounds more body n a) := by
  induction n generalizing a with
  | zero => unfold Parser.rounds; infer_instance
  | succ n ih =>
    unfold Parser.rounds
    refine ⟨fun h => (alike h).bind fun {c u v} hu hv huv => ?_⟩
    have hnext := h.ok (p := more a) (Level.from_ _ h.tried) hu huv
    cases c with
    | false => exact .ok rfl rfl huv
    | true =>
      obtain ⟨hlevel, halike⟩ := hbody hnext hu
      exact halike.bind fun hx _ hxy => (ih _).alike (hnext.ok hlevel hx hxy)

theorem repeatWhile {more : α → Parser Bool} {body : α → Parser α} (hrolls : Rolls more body)
    (first : α) [∀ a, Sheltered (more a)] [∀ a, Level 0 (more a)] [∀ a, Orderly (more a)]
    [∀ a, Orderly (body a)]
    (hbody : ∀ {k : Nat} {a : α} {s t u : State}, s.Sheltered k t → more a u = .ok true s →
      LevelFrom 0 (body a) s ∧ Alike k s t (body a)) :
    Sheltered (repeatWhile first more body) where
  alike {k s t} h := by
    obtain ⟨n, hs, ht⟩ := hrolls.exists_rounds first s t
    cases (rounds @hbody n first).alike h with
    | ok hu hv huv => exact .ok (hs.trans hu) (ht.trans hv) huv
    | error hu hv huv => exact .error (hs.trans hu) (ht.trans hv) huv

/-- A repetition whose rounds each begin with a given symbol. -/
theorem repeat_symbol (first : α) {c : Symbol} (hc : c ≠ .rparen) {f : α → Token → Parser α}
    (hrolls : Rolls (fun _ => nextIsSymbol c) fun a => Parser.advance >>= f a)
    [∀ a t, Sheltered (f a t)] [∀ a t, Level 0 (f a t)] [∀ a t, Orderly (f a t)] :
    Sheltered (Parser.repeatWhile first (fun _ => nextIsSymbol c) fun a => Parser.advance >>=
      f a) :=
  repeatWhile hrolls first fun {k a s t u} h hmore => by
    obtain ⟨rfl, hkind⟩ := kind_of_nextIsSymbol hmore
    have hk : u.cursor.current.kind ≠ .symbol .rparen := by rw [hkind]; simpa using hc
    exact ⟨Level.advance_bind h.tried hk (Level.from_ _ h.tried.advanced),
      advance_bind h hk fun h' => alike h'⟩

instance : Sheltered dottedName := by
  have := fun text : String => repeat_symbol text (by simp) Repetition.dottedName.rolls
  unfold dottedName
  exact @bind _ _ _ _ _ _ _ fun first => this first.text

/-! ### Embedded code -/

/-- Embedded code inside parentheses ends before they are closed. -/
theorem chunk {opening closing : Symbol} {stops : List Symbol}
    (hlevel : Level 0 (chunk opening closing stops)) : Sheltered (chunk opening closing stops) where
  alike {k s t} h := by
    by_cases hk : s.cursor.current.kind = .symbol opening
    · have hadvanced := h.alongside.advanced h.not_atBrink
      obtain ⟨r', hrest', hlength⟩ := hadvanced.cursor.exists_rest_of_cut
        ((congrArg Array.size (Cursor.front_consume _)).trans h.cut)
      generalize hrest : s.advanced.cursor.rest = shared at hrest' hlength
      have hspent : (enclosed opening closing stops s.stack.room 1 shared).behind ≠ [] := by
        intro hnil
        obtain ⟨u, hu, hbehind⟩ := @chunk_rest _ closing stops _ hk
        rw [hrest, hnil] at hbehind
        have hspent : u.Spent := State.AtEnd.spent (congrArg visible hbehind)
        cases hs : Parser.chunk opening closing stops s with
        | ok a v =>
          rw [after_of_ok hs] at hu
          exact h.closed ((hlevel.from_ s h.tried).ok hs 0 (hu ▸ hspent))
        | error f v =>
          rw [after_of_error hs] at hu
          exact h.closed ((hlevel.from_ s h.tried).error hs 0 (hu ▸ hspent))
      have happend := @enclosed_append opening closing stops s.stack.room 1 shared
      have hs := @chunk_eq _ closing stops _ hk
      have ht := @chunk_eq _ closing stops _ (h.current_eq ▸ hk)
      rw [hrest] at hs
      rw [hrest', ← h.current_eq, ← h.alongside.stack] at ht
      generalize he : enclosed opening closing stops s.stack.room 1 shared = e at hspent happend hs
      obtain ⟨inner, verdict, left⟩ := e
      cases left with
      | nil => exact absurd (by cases verdict <;> rfl) hspent
      | cons x more =>
        have hsecond : enclosed opening closing stops s.stack.room 1 (shared ++ r') =
            ⟨inner, verdict, x :: (more ++ r')⟩ := by
          rw [← happend, List.append_assoc]
          exact enclosed_of_next he _
        have hmoved : s.advanced.cursor.index + (inner.length + 1) ≤ k := by
          rw [← hlength, ← happend]
          simp only [List.length_append, List.length_cons]
          omega
        rw [hsecond] at ht
        cases verdict with
        | closed => exact .ok hs ht (hadvanced.moved hmoved)
        | _ => exact .error hs ht (hadvanced.moved (Nat.le_of_succ_le hmoved))
    · exact .error (chunk_of_ne hk) ((chunk_of_ne (h.current_eq ▸ hk)).trans (by rw [h.current_eq]))
        h.alongside

instance : Sheltered parenChunk := chunk (inferInstanceAs (Level 0 parenChunk))

instance : Sheltered squareChunk := chunk (inferInstanceAs (Level 0 squareChunk))

instance : Sheltered parenCode := by unfold parenCode; infer_instance

instance (code : String) (token : Token) : Sheltered (checkSemicolon code token) := by
  unfold checkSemicolon; infer_instance

/-! ### Restrictions -/

instance (operator : String) (token : Token) : Sheltered (restrictionValue operator token) :=
  of_current fun {k s t} h => by
    dsimp only
    split
    · next l hk => exact advance_bind h (by rw [hk]; simp) fun h' => alike h'
    · exact alike (p := parenCode >>= _) h
    · split
      · next hname =>
        refine peek_bind h hname ?_
        split
        · exact alike (p := dottedName >>= _) h
        · exact advance_bind h (Level.isName_ne hname) fun h' => alike h'
      · exact .error rfl rfl h.alongside

instance (operator : String) (c : Connective) : Sheltered (valueList operator c) := by
  have hloop := fun first : List Restriction => repeat_symbol first (by simp)
    (Repetition.valueList operator c).rolls
  have hlevel := fun first : List Restriction => @Level.repeat_symbol _ first .comma (by simp)
    (fun found comma => do
      let next ← restrictionValue operator (← current)
      return found ++ [connectiveAt c comma, next])
  have hlparen := Level.symbol (k := .lparen) (by simp)
  unfold valueList
  infer_instance

theorem comparison_ne {kind : TokenKind} (h : kind ∈ comparisonKinds ++ negatableKinds) :
    kind ≠ .symbol .rparen := by
  rintro rfl
  exact absurd h (by decide)

instance : Sheltered restriction := of_current fun {k s t} h => by
  split
  · next hk => exact advance_bind h (comparison_ne hk) fun h' => alike h'
  split
  · next hk => exact advance_bind h (by rw [hk]; simp) fun h' => alike h'
  split
  · next hk =>
    refine advance_bind h (by rw [hk]; simp) fun h' => current_bind h' ?_
    split
    · next hin => exact advance_bind h' (by rw [hin]; simp) fun h'' => alike h''
    split
    · next hin =>
      exact advance_bind h' (comparison_ne (List.mem_append_right _ hin)) fun h'' => alike h''
    · exact .error rfl rfl h'.alongside
  · exact .error rfl rfl h.alongside

theorem connectedRestriction {c : Connective} (h : s.Sheltered k t)
    (hc : connective? s.cursor.current.kind = some c) : Alike k s t connectedRestriction :=
  advance_bind h (Level.connective_ne hc) fun h' => alike h'

instance (x : List Restriction × Bool) : Sheltered (joinedRestriction x) :=
  of_current fun {k s t} h => by
    split
    · exact .ok rfl rfl h.alongside
    · next c hc =>
      refine (trial _ h.alongside (connectedRestriction h.trying hc)).bind fun {b u v} hu _ huv =>
        ?_
      have hcursor : u.cursor = s.cursor := by rw [Orderly.trial_of_ok hu]
      have hnext := h.ok (Level.from_ _ h.tried) hu huv
      split
      · refine advance_bind hnext ?_ fun h' => alike h'
        rw [hcursor]
        exact Level.connective_ne hc
      · exact .ok rfl rfl huv

instance : Sheltered restrictions := by
  have hloop := fun first : List Restriction => repeatWhile rolls_joinedRestriction (first, true)
    fun h _ => ⟨Level.from_ _ h.tried, alike h⟩
  unfold restrictions
  infer_instance

/-! ### Patterns -/

instance (token : Token) (field declaration : Option String) :
    Sheltered (predicate token field declaration) := by
  unfold predicate; infer_instance

instance : Sheltered bindingName := of_current fun {k s t} h => by
  cases hname : s.cursor.current.isName with
  | false => exact .ok rfl rfl h.alongside
  | true =>
    refine peek_bind h hname ?_
    split
    · next hcolon =>
      rw [Bool.true_and, decide_eq_true_eq] at hcolon
      refine advance_bind h (Level.isName_ne hname) fun h' => advance_bind h' ?_ fun h'' =>
        alike h''
      rw [show s.advanced.cursor.current = s.cursor.lookahead 2 from
        Cursor.current_consume h.tried.hidden (Eager.ne_endOfInput_of_isName hname), hcolon]
      simp
    · exact .ok rfl rfl h.alongside

instance : Sheltered fieldHead := by unfold fieldHead; infer_instance

instance (token : Token) (field : String) (declaration : Option String) :
    Sheltered (fieldBinding token field declaration) := by
  cases declaration <;> unfold fieldBinding <;> infer_instance

instance (token fieldToken : Token) (field : String) (declaration : Option String) :
    Sheltered (fieldConstraint token fieldToken field declaration) where
  alike {k s t} h := by
    unfold fieldConstraint
    refine (alike h).bind fun {c u v} hu _ huv => ?_
    have hnext := h.ok (Level.from_ _ h.tried) hu huv
    split
    · next hk =>
      subst hk
      obtain ⟨rfl, hkind⟩ := kind_of_nextIsSymbol hu
      exact advance_bind hnext (by rw [hkind]; simp) fun h' => alike h'
    · exact alike hnext

instance (found : List Constraint) (token : Token) : Sheltered (boundField found token) := by
  unfold boundField
  refine @bind _ _ _ _ _ _ _ fun head => ?_
  cases head <;> infer_instance

instance (found : List Constraint) : Sheltered (constraint found) := of_current fun {k s t} h => by
  split
  · exact alike h
  next hparen =>
  cases hname : s.cursor.current.isName with
  | false =>
    have hk : s.cursor.current.kind ≠ .keyword .eval := fun hk => by
      rw [Token.isName, hk] at hname
      cases hname
    have hother : ∀ u : State, (do
        if s.cursor.current.kind = .keyword .eval && (← peek 1).kind = .symbol .lparen then
          Parser.harvest found (evalPredicate s.cursor.current) fun found c => found ++ [c]
        else boundField found s.cursor.current : Parser (Harvest (List Constraint))) u =
          boundField found s.cursor.current u := fun u => by
      rw [bind_of_ok (peek_eq 1 u), decide_eq_false hk]
      rfl
    cases alike (p := boundField found s.cursor.current) h with
    | ok hs ht huv => exact .ok ((hother s).trans hs) ((hother t).trans ht) huv
    | error hs ht huv => exact .error ((hother s).trans hs) ((hother t).trans ht) huv
  | true =>
    refine peek_bind h hname ?_
    split
    · exact harvest (advance_bind h (Level.isName_ne hname) fun h' => alike h') _ _
    · exact alike h

instance : Sheltered constraints := by
  have hloop := fun first : Harvest (List Constraint) => repeatWhile rolls_constraints first
    fun {k a s t u} h hmore => by
      have hmore' : (do return a.failure.isNone && (← nextIsSymbol .comma) : Parser Bool) u =
          .ok (a.failure.isNone && decide (u.cursor.current.kind = .symbol .comma)) u := rfl
      rw [hmore'] at hmore
      simp only [EStateM.Result.ok.injEq, Bool.and_eq_true, decide_eq_true_eq] at hmore
      obtain ⟨⟨-, hcomma⟩, rfl⟩ := hmore
      have hk : u.cursor.current.kind ≠ .symbol .rparen := by rw [hcomma]; simp
      exact ⟨Level.advance_bind h.tried hk (Level.from_ _ h.tried.advanced),
        advance_bind h hk fun h' => alike h'⟩
  unfold constraints
  infer_instance

theorem recoverParen {β : Type} {e : ParseError} {f : Option Nat → Parser β} (h : s.Sheltered k t) :
    Alike k s t (recoverParen e >>= f) := by
  have hbroken : ∀ u : State, 0 < u.trials →
      (Parser.recoverParen e >>= f) u = .error (.recognition e) u := fun u hu =>
    bind_of_error (bind_of_error ((recoverFrom_eq e patternFollow u).trans (if_pos hu)))
  exact .error (hbroken s h.tried.trials) (hbroken t (h.alongside.trials ▸ h.tried.trials))
    h.alongside

/-- The parenthesis that closes a pattern. -/
instance (failure : Option ParseError) (f : Option Nat → Parser β) [∀ a, Unmoved (f a)] :
    Sheltered (rightParen failure >>= f) where
  alike {k s t} h := by
    cases failure with
    | some e => exact recoverParen h
    | none =>
      have hsymbol : ∀ u : State, symbol .rparen u =
          if u.cursor.current.kind = .symbol .rparen then .ok u.cursor.current u.advanced
          else .error (.recognition (.mismatchedToken (.symbol .rparen) u.cursor.current)) u :=
        expect_eq _
      unfold Parser.rightParen
      rw [bind_assoc]
      by_cases hk : s.cursor.current.kind = .symbol .rparen
      · refine (attempt (alike (p := symbol .rparen) h)).bind fun {r u v} hu _ huv => ?_
        obtain ⟨rfl, rfl⟩ := EStateM.Result.ok.inj
          ((attempt_of_ok ((hsymbol s).trans (if_pos hk))).symm.trans hu)
        exact Unmoved.alike huv
      · exact .step (attempt_of_recognition ((hsymbol s).trans (if_neg hk)))
          (attempt_of_recognition ((hsymbol t).trans (by rw [← h.current_eq, if_neg hk])))
          (recoverParen h)

instance : Sheltered factPattern := by
  have hlparen := Level.symbol (k := .lparen) (by simp)
  unfold factPattern
  infer_instance

/-! ### Sources -/

instance : Sheltered arguments? := by unfold arguments?; infer_instance

instance (chain : List Access) (bracket : Token) : Sheltered (indexAccess chain bracket) := by
  unfold indexAccess; infer_instance

theorem access {chain : List Access} (h : s.Sheltered k t)
    (hk : s.cursor.current.kind ≠ .symbol .rparen) : Alike k s t (access chain) := by
  unfold Parser.access memberAccess
  refine current_bind h ?_
  split
  · exact alike h
  · exact advance_bind h hk fun h' => alike h'

instance : Sheltered retrieval where
  alike {k s t} h := by
    have hloop := repeatWhile Repetition.accesses.rolls [] fun {k a s t u} h hmore => by
      obtain ⟨rfl, hkind⟩ := kind_of_nextIs hmore
      have hk : u.cursor.current.kind ≠ .symbol .rparen := fun heq => by
        rw [heq] at hkind
        simp at hkind
      exact ⟨Level.access h.tried hk, access h hk⟩
    have hparts : Sheltered retrievalParts := by
      unfold retrievalParts
      infer_instance
    rw [retrieval_eq]
    refine current_bind h ((alike h).bind fun {parts u v} hu _ huv => ?_)
    refine retrievalOf_alike huv (Nat.lt_of_not_le h.not_atBrink) parts ?_
    rw [(Orderly.evolves_ok retrievalParts hu).cursor]
    rfl

section Within

variable (pattern : Parser Pattern) [Sheltered pattern] [Level 0 pattern] [Orderly pattern]

instance (token : Token) : Sheltered (accumulateBody pattern token) := by
  have h := Level.skip (k := .comma) (by simp)
  unfold accumulateBody
  infer_instance

instance : Sheltered (accumulate pattern) := by
  have hlparen := Level.symbol (k := .lparen) (by simp)
  unfold accumulate
  infer_instance

instance (token : Token) : Sheltered (collectBody pattern token) := by
  unfold collectBody
  infer_instance

instance : Sheltered (collect pattern) := by
  have hlparen := Level.symbol (k := .lparen) (by simp)
  unfold collect
  infer_instance

instance : Sheltered (fromSource pattern) := by unfold fromSource; infer_instance

end Within

instance patternWithin (levels : Nat) : Sheltered (patternWithin levels) := by
  induction levels with
  | zero => unfold Parser.patternWithin; infer_instance
  | succ levels ih => unfold Parser.patternWithin; infer_instance

end Sheltered

end Rulebook.Parser
