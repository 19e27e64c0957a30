import Rulebook.Proofs.Eager
import Rulebook.Proofs.Readings

/-!
# Productions that keep to their parentheses

In a trial a production takes no closing parenthesis that it has not opened. So if one fails at the
end of the text, none of the pairs that were open before it is closed by what is ahead of it.
-/

namespace Rulebook.Parser

set_option synthInstance.maxSize 100000

variable {α β : Type}

/-- From this state, success takes `n` closing parentheses more than opening ones, and failure takes
none. -/
structure LevelFrom (n : Nat) (p : Parser α) (s : State) : Prop where
  ok : ∀ {a : α} {t : State}, p s = .ok a t →
    ∀ d, ClosesAtMost d t.cursor.ahead → ClosesAtMost (d + n) s.cursor.ahead
  error : ∀ {f : Failure} {t : State}, p s = .error f t →
    ∀ d, ClosesAtMost d t.cursor.ahead → ClosesAtMost d s.cursor.ahead

structure State.Tried (s : State) : Prop where
  hidden : s.cursor.triviaVisible = false
  trials : 0 < s.trials

/-- A production that closes `n` of the pairs around it where it succeeds. -/
class Level (n : Nat) (p : Parser α) : Prop where
  from_ : ∀ s : State, s.Tried → LevelFrom n p s

theorem State.Evolves.tried {s t : State} (h : s.Evolves t) (hs : s.Tried) : t.Tried :=
  ⟨h.triviaVisible.trans hs.hidden, h.trials ▸ hs.trials⟩

theorem State.Tried.advanced {s : State} (hs : s.Tried) : s.advanced.Tried :=
  (Orderly.evolves_advanced s).tried hs

namespace LevelFrom

variable {s : State} {n : Nat}

theorem of_ok {p : Parser α} {a : α} {t : State} (h : p s = .ok a t)
    (ht : ∀ d, ClosesAtMost d t.cursor.ahead → ClosesAtMost (d + n) s.cursor.ahead) :
    LevelFrom n p s where
  ok h' := by rw [h] at h'; cases h'; exact ht
  error h' := by rw [h] at h'; cases h'

theorem of_error {p : Parser α} {f : Failure} {t : State} (h : p s = .error f t)
    (ht : ∀ d, ClosesAtMost d t.cursor.ahead → ClosesAtMost d s.cursor.ahead) :
    LevelFrom n p s where
  ok h' := by rw [h] at h'; cases h'
  error h' := by rw [h] at h'; cases h'; exact ht

theorem of_still {p : Parser α} (h : ∀ t, after p s = t → t.cursor = s.cursor) :
    LevelFrom 0 p s where
  ok {a t} h' d ht := by rw [← h t (after_of_ok h')]; exact ht
  error {f t} h' d ht := by rw [← h t (after_of_error h')]; exact ht

theorem bind {p : Parser α} {f : α → Parser β} (hp : LevelFrom 0 p s)
    (hf : ∀ {a t}, p s = .ok a t → LevelFrom n (f a) t) : LevelFrom n (p >>= f) s := by
  cases h : p s with
  | ok a t =>
    have ht := hp.ok h
    refine ⟨fun {b u} h' d hd => ?_, fun {e u} h' d hd => ?_⟩
    · rw [bind_of_ok h] at h'
      exact ht (d + n) ((hf h).ok h' d hd)
    · rw [bind_of_ok h] at h'
      exact ht d ((hf h).error h' d hd)
  | error e t => exact of_error (bind_of_error h) (hp.error h)

/-- What follows a closing parenthesis must not fail. -/
theorem bind_closing {p : Parser α} {f : α → Parser β} (hp : LevelFrom n p s)
    (hf : ∀ {a t}, p s = .ok a t → ∃ b u, f a t = .ok b u ∧ u.cursor = t.cursor) :
    LevelFrom n (p >>= f) s := by
  cases h : p s with
  | ok a t =>
    obtain ⟨b, u, hu, hcursor⟩ := hf h
    refine of_ok ((bind_of_ok h).trans hu) fun d hd => ?_
    rw [hcursor] at hd
    exact hp.ok h d hd
  | error e t => exact of_error (bind_of_error h) (hp.error h)

end LevelFrom

namespace Level

theorem keeps (p : Parser α) {n : Nat} [Level n p] {s t : State} {f : Failure} (hs : s.Tried)
    (h : p s = .error f t) {d : Nat} (hd : ClosesAtMost d t.cursor.ahead) :
    ClosesAtMost d s.cursor.ahead :=
  (from_ (n := n) s hs).error h d hd

/-! ### Combinators -/

instance (a : α) : Level 0 (pure a : Parser α) where
  from_ _ _ := .of_still fun _ h => h ▸ rfl

instance : Level 0 (get : Parser State) where
  from_ _ _ := .of_still fun _ h => h ▸ rfl

instance (e : ParseError) : Level 0 (fail e : Parser α) where
  from_ _ _ := .of_still fun _ h => h ▸ rfl

instance (f : Failure) : Level 0 (throw f : Parser α) where
  from_ _ _ := .of_still fun _ h => h ▸ rfl

instance bind (n : Nat) (p : Parser α) (f : α → Parser β) [Level 0 p] [Orderly p]
    [∀ a, Level n (f a)] : Level n (p >>= f) where
  from_ s hs := (from_ s hs).bind fun h => from_ _ ((Orderly.evolves_ok p h).tried hs)

instance map (p : Parser α) (f : α → β) [Level 0 p] [Orderly p] : Level 0 (f <$> p) := by
  rw [map_eq_bind]; infer_instance

instance (n : Nat) (c : Prop) [Decidable c] (p q : Parser α) [Level n p] [Level n q] :
    Level n (if c then p else q) := by
  split <;> infer_instance

instance : Level 0 levels := by unfold levels; infer_instance

instance nested (n : Nesting) (p : Parser α) [Level 0 p] : Level 0 (nested n p) where
  from_ s hs := by
    by_cases hroom : n.frames ≤ s.stack.room
    · have hp : LevelFrom 0 p (s.within n) := from_ (s.within n) ⟨hs.hidden, hs.trials⟩
      cases h : p (s.within n) with
      | ok a t =>
        have hahead := hp.ok h
        exact .of_ok (nested_of_ok hroom h) hahead
      | error f t =>
        have hahead := hp.error h
        exact .of_error (nested_of_error hroom h) hahead
    · exact .of_error (nested_of_deep p (Nat.lt_of_not_le hroom)) fun _ h => h

instance : Level 0 current := by unfold current; infer_instance

instance (n : Nat) : Level 0 (peek n) := by unfold peek; infer_instance

instance (kinds : List TokenKind) : Level 0 (nextIs kinds) := by unfold nextIs; infer_instance

instance (s : Symbol) : Level 0 (nextIsSymbol s) := by unfold nextIsSymbol; infer_instance

instance (k : Keyword) : Level 0 (nextIsKeyword k) := by unfold nextIsKeyword; infer_instance

instance : Level 0 lastStop := by unfold lastStop; infer_instance

instance (l : Location) : Level 0 (close l) := by unfold close; infer_instance

theorem attempt {p : Parser α} {s : State} (hp : LevelFrom 0 p s) : LevelFrom 0 (attempt p) s := by
  cases h : p s with
  | ok a t => exact .of_ok (attempt_of_ok h) (hp.ok h)
  | error f t =>
    cases f with
    | recognition e => exact .of_ok (attempt_of_recognition h) (hp.error h)
    | _ => exact .of_error (attempt_of_error h (by simp)) (hp.error h)

instance (p : Parser α) [Level 0 p] : Level 0 (Parser.attempt p) :=
  ⟨fun s hs => attempt (from_ s hs)⟩

theorem harvest {p : Parser β} {s : State} (hs : s.Tried) [Orderly p] (hp : LevelFrom 0 p s)
    (found : α) (add : α → β → α) : LevelFrom 0 (harvest found p add) s := by
  unfold Parser.harvest
  rw [map_eq_bind]
  exact (attempt hp).bind fun h => from_ _ ((Orderly.evolves_ok _ h).tried hs)

instance (found : α) (p : Parser β) (add : α → β → α) [Level 0 p] [Orderly p] :
    Level 0 (Parser.harvest found p add) :=
  ⟨fun s hs => harvest hs (from_ s hs) found add⟩

instance trial (alternative : String) (p : Parser α) [Orderly p] :
    Level 0 (trial alternative p) where
  from_ s hs := .of_still fun t ht => by
    cases h : Parser.trial alternative p s with
    | ok b u =>
      rw [after_of_ok h] at ht
      rw [← ht, Orderly.trial_of_ok h]
    | error f u =>
      rw [after_of_error h] at ht
      rw [← ht, (Orderly.trial_of_error h).2]

instance (message : String) (token : Token) : Level 0 (remark message token) where
  from_ s hs := .of_ok (remark_eq message token s) fun d hd => by rwa [if_pos hs.trials] at hd

theorem rounds {more : α → Parser Bool} {body : α → Parser α} [∀ a, Level 0 (more a)]
    [∀ a, Orderly (more a)] [∀ a, Orderly (body a)]
    (hbody : ∀ {a : α} {s t : State}, s.Tried → more a s = .ok true t → LevelFrom 0 (body a) t)
    (n : Nat) (a : α) : Level 0 (rounds more body n a) := by
  induction n generalizing a with
  | zero => unfold Parser.rounds; infer_instance
  | succ n ih =>
    refine ⟨fun s hs => (from_ (p := more a) s hs).bind fun {c t} h => ?_⟩
    have ht := (Orderly.evolves_ok _ h).tried hs
    cases c with
    | false => exact from_ (p := (pure a : Parser α)) t ht
    | true =>
      exact (hbody hs h).bind fun h' => (ih _).from_ _ ((Orderly.evolves_ok _ h').tried ht)

theorem repeatWhile {first : α} {more : α → Parser Bool} {body : α → Parser α}
    [∀ a, Level 0 (more a)] [∀ a, Orderly (more a)] [∀ a, Orderly (body a)]
    (hbody : ∀ {a : α} {s t : State}, s.Tried → more a s = .ok true t → LevelFrom 0 (body a) t) :
    Level 0 (repeatWhile first more body) :=
  ⟨fun s hs => (from_ (p := get) s hs).bind fun {_ t} h =>
    (@rounds _ more body _ _ _ hbody _ first).from_ t ((Orderly.evolves_ok _ h).tried hs)⟩

/-! ### Tokens -/

theorem closesAtMost_consume {s : State} (hs : s.cursor.triviaVisible = false)
    (hk : s.cursor.current.kind ≠ .symbol .rparen) {d : Nat}
    (h : ClosesAtMost d s.cursor.consume.ahead) : ClosesAtMost d s.cursor.ahead := by
  by_cases hend : s.cursor.current.kind = .endOfInput
  · rwa [Cursor.consume_of_end hend] at h
  · rw [Cursor.ahead_consume hs hend]
    by_cases hl : s.cursor.current.kind = .symbol .lparen
    · exact (closesAtMost_lparen hl).2 (h.mono (Nat.le_succ d))
    · exact (closesAtMost_other hl hk).2 h

theorem advance {s : State} (hs : s.Tried) (hk : s.cursor.current.kind ≠ .symbol .rparen) :
    LevelFrom 0 advance s :=
  .of_ok (advance_eq s) fun _ h => closesAtMost_consume hs.hidden hk h

theorem advance_bind {f : Token → Parser β} {n : Nat} {s : State} (hs : s.Tried)
    (hk : s.cursor.current.kind ≠ .symbol .rparen)
    (hf : LevelFrom n (f s.cursor.current) s.advanced) : LevelFrom n (Parser.advance >>= f) s :=
  (advance hs hk).bind fun h => by cases h; exact hf

theorem of_current {n : Nat} {f : Token → Parser β}
    (h : ∀ s : State, s.Tried → LevelFrom n (f s.cursor.current) s) : Level n (current >>= f) where
  from_ s hs := (from_ (p := current) s hs).bind fun h' => by cases h'; exact h s hs

theorem expect {kind : TokenKind} (hk : kind ≠ .symbol .rparen) : Level 0 (expect kind) :=
  of_current fun s hs => by
    split
    · next h => exact advance hs (h ▸ hk)
    · exact from_ s hs

instance (k : Keyword) : Level 0 (keyword k) := expect (by simp)

theorem symbol {k : Symbol} (hk : k ≠ .rparen) : Level 0 (symbol k) := expect (by simpa using hk)

theorem skip {k : Symbol} (hk : k ≠ .rparen) : Level 0 (skip k) := by
  have : Level 0 (accept (.symbol k)) := of_current fun s hs => by
    split
    · next h => exact advance_bind hs (by rw [h]; simpa using hk) (from_ _ hs.advanced)
    · exact from_ s hs
  unfold Parser.skip
  infer_instance

theorem isName_ne {t : Token} (h : t.isName = true) : t.kind ≠ .symbol .rparen := by
  intro heq
  simp [Token.isName, heq, TokenKind.isName] at h

instance : Level 0 name := of_current fun s hs => by
  split
  · next h => exact advance hs (isName_ne h)
  · exact from_ s hs

/-- A repetition whose rounds each begin with a given symbol. -/
theorem repeat_symbol {first : α} {k : Symbol} (hk : k ≠ .rparen) {f : α → Token → Parser α}
    [∀ a t, Level 0 (f a t)] [∀ a t, Orderly (f a t)] :
    Level 0 (Parser.repeatWhile first (fun _ => nextIsSymbol k) fun a => Parser.advance >>= f a) :=
  repeatWhile fun {a s t} hs h => by
    obtain ⟨rfl, hkind⟩ := kind_of_nextIsSymbol h
    exact advance_bind hs (by rw [hkind]; simpa using hk) (from_ _ hs.advanced)

instance : Level 0 dottedName := by
  have := fun text : String => @repeat_symbol _ text .dot (by simp)
    (fun text _ => do return text ++ "." ++ (← name).text)
  unfold dottedName
  exact @bind _ _ _ _ _ _ _ fun first => this first.text

/-! ### Embedded code -/

theorem closesAtMost_visible {d : Nat} {ts : List Token} :
    ClosesAtMost d (visible ts) ↔ ClosesAtMost d ts := by
  induction ts generalizing d with
  | nil => rfl
  | cons t ts ih =>
    cases ht : t.isTrivia with
    | true =>
      have hsymbol : ∀ k, t.kind ≠ .symbol k := by
        intro k hk
        simp [Token.isTrivia, hk, TokenKind.isTrivia] at ht
      rw [visible_cons_of_trivia ht, closesAtMost_other (hsymbol _) (hsymbol _), ih]
    | false =>
      rw [visible_cons_of_not_trivia ht, ClosesAtMost, ClosesAtMost, ih, ih, ih]

/-- Code in parentheses closes as many pairs as it opens, and those that are open around it. -/
theorem closesAtMost_paren {d room depth : Nat} {ts : List Token} (hdepth : 0 < depth)
    (h : ClosesAtMost d (enclosed .lparen .rparen [] room depth ts).behind) :
    ClosesAtMost (d + depth) ts := by
  induction ts generalizing depth with
  | nil => trivial
  | cons t ts ih =>
    unfold enclosed at h
    split at h
    · next hl =>
      split at h
      · exact ClosesAtMost.mono h (Nat.le_add_right _ _)
      · exact (closesAtMost_lparen hl).2 (ih (Nat.succ_pos depth) h)
    next hl =>
    split at h
    · next hr =>
      split at h
      · exact (closesAtMost_rparen hr).2 ⟨by omega, ClosesAtMost.mono h (by omega)⟩
      · next hdeep =>
        refine (closesAtMost_rparen hr).2 ⟨by omega, ?_⟩
        rw [Nat.add_sub_assoc hdepth]
        exact ih (by omega) h
    next hr =>
    split at h
    · exact ClosesAtMost.mono h (Nat.le_add_right _ _)
    · rw [if_neg (by simp)] at h
      exact (closesAtMost_other hl hr).2 (ih hdepth h)

/-- Code in brackets takes no closing parenthesis at all. -/
theorem closesAtMost_square {d room depth : Nat} {ts : List Token}
    (h : ClosesAtMost d (enclosed .lbracket .rbracket [.rparen, .rbrace] room depth ts).behind) :
    ClosesAtMost d ts := by
  induction ts generalizing depth with
  | nil => trivial
  | cons t ts ih =>
    have hnext : ClosesAtMost d ts → t.kind ≠ .symbol .rparen → ClosesAtMost d (t :: ts) := by
      intro hts hr
      by_cases hl : t.kind = .symbol .lparen
      · exact (closesAtMost_lparen hl).2 (hts.mono (Nat.le_succ d))
      · exact (closesAtMost_other hl hr).2 hts
    unfold enclosed at h
    split at h
    · next hopening =>
      split at h
      · exact h
      · exact hnext (ih h) (by rw [hopening]; simp)
    split at h
    · next hclosing =>
      split at h
      · exact hnext h (by rw [hclosing]; simp)
      · exact hnext (ih h) (by rw [hclosing]; simp)
    split at h
    · exact h
    split at h
    · exact h
    · next hstop => exact hnext (ih h) fun hr => hstop (by simp [hr])

theorem chunk {opening closing : Symbol} {stops : List Symbol} (n : Nat)
    (hopening : ∀ {t : Token} {d : Nat} {ts : List Token}, t.kind = .symbol opening →
      ClosesAtMost (d + n) ts → ClosesAtMost d (t :: ts))
    (hinner : ∀ {d room : Nat} {ts : List Token},
      ClosesAtMost d (enclosed opening closing stops room 1 ts).behind → ClosesAtMost (d + n) ts) :
    Level 0 (chunk opening closing stops) where
  from_ s hs := by
    by_cases h : s.cursor.current.kind = .symbol opening
    · have hend : s.cursor.current.kind ≠ .endOfInput := by rw [h]; simp
      have hahead : ∀ {t : State}, t.cursor.rest =
          (enclosed opening closing stops s.stack.room 1 s.advanced.cursor.rest).behind →
          ∀ d, ClosesAtMost d t.cursor.ahead → ClosesAtMost d s.cursor.ahead := by
        intro t ht d hd
        rw [Cursor.ahead_consume hs.hidden hend]
        rw [Cursor.ahead, ht, closesAtMost_visible] at hd
        exact hopening h (closesAtMost_visible.2 (hinner hd))
      obtain ⟨t, ht, hrest⟩ := @chunk_rest _ closing stops _ h
      refine ⟨fun h' => ?_, fun h' => ?_⟩
      · rw [after_of_ok h'] at ht
        exact hahead (ht ▸ hrest)
      · rw [after_of_error h'] at ht
        exact hahead (ht ▸ hrest)
    · exact .of_error (chunk_of_ne h) fun _ h => h

instance : Level 0 parenChunk := by
  unfold parenChunk
  exact chunk 1 (fun h hd => (closesAtMost_lparen h).2 hd) (closesAtMost_paren Nat.one_pos)

instance : Level 0 squareChunk := by
  unfold squareChunk
  refine chunk 0 (fun {t d ts} h hd => ?_) closesAtMost_square
  exact (closesAtMost_other (by rw [h]; simp) (by rw [h]; simp)).2 hd

instance : Level 0 parenCode := by unfold parenCode; infer_instance

instance (code : String) (token : Token) : Level 0 (checkSemicolon code token) := by
  unfold checkSemicolon; infer_instance

/-! ### Restrictions -/

instance (operator : String) (token : Token) : Level 0 (restrictionValue operator token) :=
  of_current fun s hs => by
    split
    · next l h => exact advance_bind hs (by rw [h]; simp) (from_ _ hs.advanced)
    · exact from_ (p := parenCode >>= _) s hs
    · split
      · next h =>
        refine (from_ (p := peek 1) s hs).bind fun {a t} hpeek => ?_
        obtain rfl : s = t := by cases hpeek; rfl
        split
        · exact from_ (p := dottedName >>= _) s hs
        · exact advance_bind hs (isName_ne h) (from_ _ hs.advanced)
      · exact from_ s hs

/-! ### Parentheses -/

/-- A production that always succeeds, where it is. -/
class Still (p : Parser α) : Prop where
  ok : ∀ s : State, ∃ a t, p s = .ok a t ∧ t.cursor = s.cursor

instance (a : α) : Still (pure a : Parser α) := ⟨fun s => ⟨a, s, rfl, rfl⟩⟩

instance (l : Location) : Still (close l) := ⟨fun s => ⟨_, s, rfl, rfl⟩⟩

instance (p : Parser α) (f : α → Parser β) [Still p] [∀ a, Still (f a)] : Still (p >>= f) where
  ok s := by
    obtain ⟨a, t, h, ht⟩ := Still.ok (p := p) s
    obtain ⟨b, u, h', hu⟩ := Still.ok (p := f a) t
    exact ⟨b, u, (bind_of_ok h).trans h', hu.trans ht⟩

theorem lparen {f : Token → Parser β} {s : State} (hs : s.Tried)
    (hf : LevelFrom 1 (f s.cursor.current) s.advanced) :
    LevelFrom 0 (Parser.symbol .lparen >>= f) s := by
  by_cases hk : s.cursor.current.kind = .symbol .lparen
  · have hsymbol : Parser.symbol .lparen s = .ok s.cursor.current s.advanced := by
      unfold Parser.symbol
      rw [expect_eq, if_pos hk]
    have hahead : s.cursor.ahead = s.cursor.current :: s.advanced.cursor.ahead :=
      Cursor.ahead_consume hs.hidden (by rw [hk]; simp)
    refine ⟨fun h d hd => ?_, fun h d hd => ?_⟩
    · rw [bind_of_ok hsymbol] at h
      rw [hahead]
      exact (closesAtMost_lparen hk).2 (hf.ok h d hd)
    · rw [bind_of_ok hsymbol] at h
      rw [hahead]
      exact (closesAtMost_lparen hk).2 ((hf.error h d hd).mono (Nat.le_succ d))
  · have hsymbol : Parser.symbol .lparen s =
        .error (.recognition (.mismatchedToken (.symbol .lparen) s.cursor.current)) s := by
      unfold Parser.symbol
      rw [expect_eq, if_neg hk]
    exact .of_error (bind_of_error hsymbol) fun _ h => h

instance (f : Token → Parser β) [∀ a, Level 1 (f a)] : Level 0 (Parser.symbol .lparen >>= f) where
  from_ _ hs := lparen hs (from_ _ hs.advanced)

theorem rparen {s : State} (hs : s.Tried) : LevelFrom 1 (Parser.symbol .rparen) s := by
  by_cases hk : s.cursor.current.kind = .symbol .rparen
  · have hsymbol : Parser.symbol .rparen s = .ok s.cursor.current s.advanced := by
      unfold Parser.symbol
      rw [expect_eq, if_pos hk]
    have hahead : s.cursor.ahead = s.cursor.current :: s.advanced.cursor.ahead :=
      Cursor.ahead_consume hs.hidden (by rw [hk]; simp)
    refine .of_ok hsymbol fun d hd => ?_
    rw [hahead]
    exact (closesAtMost_rparen hk).2 ⟨Nat.succ_pos d, hd⟩
  · have hsymbol : Parser.symbol .rparen s =
        .error (.recognition (.mismatchedToken (.symbol .rparen) s.cursor.current)) s := by
      unfold Parser.symbol
      rw [expect_eq, if_neg hk]
    exact .of_error hsymbol fun _ h => h

instance : Level 1 (Parser.symbol .rparen) := ⟨fun _ hs => rparen hs⟩

/-- Nothing fails behind the closing parenthesis. -/
theorem bind_still {n : Nat} (p : Parser α) (f : α → Parser β) [Level n p] [∀ a, Still (f a)] :
    Level n (p >>= f) where
  from_ s hs := (from_ s hs).bind_closing fun {a t} _ => Still.ok (p := f a) t

instance (f : Token → Parser β) [∀ a, Still (f a)] : Level 1 (Parser.symbol .rparen >>= f) :=
  bind_still _ f

/-! ### Restrictions, continued -/

instance (operator : String) (c : Connective) : Level 0 (valueList operator c) := by
  have := fun first : List Restriction => @repeat_symbol _ first .comma (by simp)
    (fun found comma => do
      let next ← restrictionValue operator (← current)
      return found ++ [connectiveAt c comma, next])
  unfold valueList
  infer_instance

instance : Level 0 restriction := of_current fun s hs => by
  split
  · next h =>
    refine advance_bind hs ?_ (from_ _ hs.advanced)
    intro heq
    rw [heq] at h
    exact absurd h (by decide)
  split
  · next h => exact advance_bind hs (by rw [h]; simp) (from_ _ hs.advanced)
  split
  · next h =>
    refine advance_bind hs (by rw [h]; simp) ?_
    have : Level 0 (Parser.current >>= fun operator =>
        if operator.kind = .keyword .in_ then (do let _ ← Parser.advance; valueList "!=" .and)
        else if operator.kind ∈ negatableKinds then (do
          let _ ← Parser.advance
          return [← restrictionValue ("not " ++ operator.text) s.cursor.current])
        else fail (.mismatchedSet (negatableKinds ++ [.keyword .in_]) operator)) :=
      of_current fun s hs => by
        split
        · next h => exact advance_bind hs (by rw [h]; simp) (from_ _ hs.advanced)
        split
        · next h =>
          refine advance_bind hs ?_ (from_ _ hs.advanced)
          intro heq
          rw [heq] at h
          exact absurd h (by decide)
        · exact from_ s hs
    exact from_ _ hs.advanced
  · exact from_ s hs

theorem connective_ne {t : Token} {c : Connective} (h : connective? t.kind = some c) :
    t.kind ≠ .symbol .rparen := by
  intro heq
  rw [heq] at h
  cases h

theorem connectedRestriction {s : State} (hs : s.Tried) {c : Connective}
    (h : connective? s.cursor.current.kind = some c) : LevelFrom 0 connectedRestriction s :=
  advance_bind hs (connective_ne h) (from_ (p := Parser.restriction) _ hs.advanced)

instance (x : List Restriction × Bool) : Level 0 (joinedRestriction x) := of_current fun s hs => by
  split
  · exact from_ s hs
  · next c h =>
    refine (from_ (p := Parser.trial _ Parser.connectedRestriction) s hs).bind fun {b t} htrial =>
      ?_
    have hcursor : t.cursor = s.cursor := by rw [Orderly.trial_of_ok htrial]
    have ht := (Orderly.evolves_ok _ htrial).tried hs
    split
    · refine advance_bind ht ?_ (from_ _ ht.advanced)
      rw [hcursor]
      exact connective_ne h
    · exact from_ t ht

instance : Level 0 restrictions := by
  have := fun first : List Restriction => @repeatWhile _ (first, true)
    (fun (_, open_) => do return open_ && (connective? (← current).kind).isSome)
    joinedRestriction _ _ _
    fun {a s t} hs h => from_ t ((Orderly.evolves_ok _ h).tried hs)
  unfold restrictions
  infer_instance

/-! ### Patterns -/

instance (token : Token) (field declaration : Option String) :
    Level 0 (predicate token field declaration) := by
  unfold predicate; infer_instance

instance : Level 0 bindingName := of_current fun s hs => by
  refine (from_ (p := peek 1) s hs).bind fun {a t} hpeek => ?_
  obtain rfl : s = t := by cases hpeek; rfl
  split
  · next h =>
    rw [Bool.and_eq_true, decide_eq_true_eq] at h
    refine advance_bind hs (isName_ne h.1)
      (advance_bind hs.advanced ?_ (from_ _ hs.advanced.advanced))
    have hcolon : s.advanced.cursor.current = a := by
      cases hpeek
      exact Cursor.current_consume hs.hidden (Eager.ne_endOfInput_of_isName h.1)
    rw [hcolon, h.2]
    simp
  · exact from_ s hs

instance : Level 0 fieldHead := by unfold fieldHead; infer_instance

instance (token : Token) (field : String) (declaration : Option String) :
    Level 0 (fieldBinding token field declaration) := by
  cases declaration <;> unfold fieldBinding <;> infer_instance

theorem advance_of_symbol {k : Symbol} (hk : k ≠ .rparen) {f : Token → Parser β}
    [∀ a, Level 0 (f a)] {q : Parser β} [Level 0 q] :
    Level 0 (nextIsSymbol k >>= fun c => if c then (Parser.advance >>= f) else q) where
  from_ s hs := (from_ (p := nextIsSymbol k) s hs).bind fun {c t} h => by
    cases c with
    | true =>
      obtain ⟨rfl, hkind⟩ := kind_of_nextIsSymbol h
      exact advance_bind hs (by rw [hkind]; simpa using hk) (from_ _ hs.advanced)
    | false => exact from_ (p := q) t ((Orderly.evolves_ok _ h).tried hs)

instance (token fieldToken : Token) (field : String) (declaration : Option String) :
    Level 0 (fieldConstraint token fieldToken field declaration) := by
  unfold fieldConstraint
  exact advance_of_symbol (by simp)

instance (found : List Constraint) (token : Token) : Level 0 (boundField found token) := by
  unfold boundField
  refine @bind _ _ _ _ _ _ _ fun head => ?_
  cases head <;> infer_instance

instance (found : List Constraint) : Level 0 (constraint found) := of_current fun s hs => by
  split
  · exact from_ s hs
  · refine (from_ (p := peek 1) s hs).bind fun {a t} hpeek => ?_
    obtain rfl : s = t := by cases hpeek; rfl
    split
    · next h =>
      rw [Bool.and_eq_true, decide_eq_true_eq] at h
      exact harvest hs (advance_bind hs (by rw [h.1]; simp) (from_ _ hs.advanced)) _ _
    · exact from_ s hs

instance : Level 0 constraints := by
  have := fun first : Harvest (List Constraint) => @repeatWhile _ first
    (fun h => do return h.failure.isNone && (← nextIsSymbol .comma))
    (fun h => Parser.advance >>= fun _ => constraint h.found) _ _ _
    fun {a s t} hs h => by
      have hmore : (do return a.failure.isNone && (← nextIsSymbol .comma) : Parser Bool) s =
          .ok (a.failure.isNone && decide (s.cursor.current.kind = .symbol .comma)) s := rfl
      rw [hmore] at h
      simp only [EStateM.Result.ok.injEq, Bool.and_eq_true, decide_eq_true_eq] at h
      obtain ⟨⟨-, hcomma⟩, rfl⟩ := h
      exact advance_bind hs (by rw [hcomma]; simp) (from_ _ hs.advanced)
  unfold constraints
  infer_instance

theorem recoverParen {e : ParseError} {n : Nat} {s : State} (hs : s.Tried) :
    LevelFrom n (recoverParen e) s := by
  have h : recoverFrom e patternFollow s = .error (.recognition e) s := by
    rw [recoverFrom_eq, if_pos hs.trials]
  exact .of_error (bind_of_error h) fun _ h => h

instance (failure : Option ParseError) : Level 1 (rightParen failure) where
  from_ s hs := by
    unfold Parser.rightParen
    cases failure with
    | some e => exact recoverParen hs
    | none =>
      by_cases hk : s.cursor.current.kind = .symbol .rparen
      · have hsymbol : Parser.symbol .rparen s = .ok s.cursor.current s.advanced := by
          unfold Parser.symbol
          rw [expect_eq, if_pos hk]
        exact .of_ok ((bind_of_ok (attempt_of_ok hsymbol)).trans rfl) ((rparen hs).ok hsymbol)
      · have hsymbol : Parser.symbol .rparen s =
            .error (.recognition (.mismatchedToken (.symbol .rparen) s.cursor.current)) s := by
          unfold Parser.symbol
          rw [expect_eq, if_neg hk]
        have hbroken := recoverParen (n := 1)
          (e := .mismatchedToken (.symbol .rparen) s.cursor.current) hs
        have heq : Parser.rightParen none s =
            Parser.recoverParen (.mismatchedToken (.symbol .rparen) s.cursor.current) s :=
          bind_of_ok (attempt_of_recognition hsymbol)
        exact ⟨fun {a t} h => hbroken.ok (heq.symm.trans h),
          fun {f t} h => hbroken.error (heq.symm.trans h)⟩

instance (failure : Option ParseError) (f : Option Nat → Parser β) [∀ a, Still (f a)] :
    Level 1 (Parser.rightParen failure >>= f) :=
  bind_still _ f

instance : Level 0 factPattern := by unfold factPattern; infer_instance

/-! ### Sources -/

instance : Level 0 arguments? := by unfold arguments?; infer_instance

instance (chain : List Access) (bracket : Token) : Level 0 (indexAccess chain bracket) := by
  unfold indexAccess; infer_instance

theorem access {chain : List Access} {s : State} (hs : s.Tried)
    (hk : s.cursor.current.kind ≠ .symbol .rparen) : LevelFrom 0 (access chain) s := by
  unfold Parser.access memberAccess
  refine (from_ (p := Parser.current) s hs).bind fun {token t} h => ?_
  obtain ⟨rfl, rfl⟩ : s.cursor.current = token ∧ s = t := by cases h; exact ⟨rfl, rfl⟩
  split
  · exact from_ s hs
  · exact advance_bind hs hk (from_ _ hs.advanced)

instance : Level 0 retrieval := by
  have := @repeatWhile _ [] (fun _ => nextIs [.symbol .dot, .symbol .lbracket])
    Parser.access _ _ _ fun {a s t} hs h => by
      obtain ⟨rfl, hkind⟩ := kind_of_nextIs h
      refine access hs ?_
      intro heq
      rw [heq] at hkind
      simp at hkind
  unfold retrieval
  infer_instance

section Within

variable (pattern : Parser Pattern) [Level 0 pattern] [Orderly pattern]

instance (token : Token) : Level 1 (accumulateBody pattern token) := by
  have h := skip (k := .comma) (by simp)
  unfold accumulateBody
  infer_instance

instance : Level 0 (accumulate pattern) := by unfold accumulate; infer_instance

instance (token : Token) : Level 1 (collectBody pattern token) := by
  unfold collectBody; infer_instance

instance : Level 0 (collect pattern) := by unfold collect; infer_instance

instance : Level 0 (fromSource pattern) := by unfold fromSource; infer_instance

end Within

instance patternWithin (levels : Nat) : Level 0 (patternWithin levels) := by
  induction levels with
  | zero => unfold Parser.patternWithin; infer_instance
  | succ levels ih => unfold Parser.patternWithin; infer_instance

end Level

end Rulebook.Parser
