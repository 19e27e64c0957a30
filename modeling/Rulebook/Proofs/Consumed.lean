import Rulebook.Proofs.Bounds
import Mathlib.Data.List.GetD
import Mathlib.Logic.Function.Iterate

/-!
# Looking ahead and consuming

Both read one list, the tokens that the cursor shows: the `k`-th token ahead is the one that the
`k`-th of successive consumptions gives. Behind that list there is the mark of the end of input,
again and again.
-/

namespace Rulebook

namespace Cursor

/-- The token that the `k`-th of successive consumptions gives, counted from one. -/
def consumed (c : Cursor) (k : Nat) : Token := (consume^[k - 1] c).current

/-- All tokens, the mark of the end of input as the last one. -/
def all (c : Cursor) : List Token := c.front.toList ++ [c.last]

def Ended (c : Cursor) : Prop := ∀ t ∈ c.front, t.kind ≠ .endOfInput

/-- The cursor over the same tokens at some index, with some visibility of trivia. -/
def placed (c : Cursor) (index : Nat) (triviaVisible : Bool) (saved : List Bool) : Cursor :=
  { c with index, triviaVisible, saved }

variable {c : Cursor}

/-! ### Consuming -/

theorem mem_front_of_shown {t : Token} (h : t ∈ c.shown) : t ∈ c.front := by
  have hrest : t ∈ c.rest := by
    unfold shown at h
    split at h
    · exact h
    · exact (List.mem_filter.1 h).1
  exact Array.mem_toList_iff.1 (List.mem_of_mem_drop hrest)

theorem Ended.consume (h : c.Ended) : c.consume.Ended := by
  unfold Ended
  rw [front_consume]
  exact h

theorem Ended.shown_consume (h : c.Ended) : c.consume.shown = c.shown.tail := by
  by_cases hk : c.current.kind = .endOfInput
  · rw [consume_of_end hk]
    have hcurrent := current_eq_head c
    cases hshown : c.shown with
    | nil => rfl
    | cons t ts =>
      rw [hshown, List.headD_cons] at hcurrent
      exact absurd (hcurrent ▸ hk) (h t (mem_front_of_shown (hshown ▸ List.mem_cons_self)))
  · rw [Cursor.shown_consume hk, List.tail_cons]

theorem last_iterate_consume (c : Cursor) (n : Nat) : (consume^[n] c).last = c.last := by
  induction n generalizing c with
  | zero => rfl
  | succ n ih => rw [Function.iterate_succ_apply, ih, last_consume]

theorem front_iterate_consume (c : Cursor) (n : Nat) : (consume^[n] c).front = c.front := by
  induction n generalizing c with
  | zero => rfl
  | succ n ih => rw [Function.iterate_succ_apply, ih, front_consume]

theorem Ended.shown_iterate_consume (h : c.Ended) (n : Nat) :
    (Cursor.consume^[n] c).shown = c.shown.drop n := by
  induction n generalizing c with
  | zero => rfl
  | succ n ih =>
    rw [Function.iterate_succ_apply, ih h.consume, h.shown_consume, List.drop_tail]

theorem Ended.current_iterate_consume (h : c.Ended) (n : Nat) :
    (Cursor.consume^[n] c).current = c.shown.getD n c.last := by
  rw [current_eq_head, h.shown_iterate_consume, last_iterate_consume, List.headD_eq_head?_getD,
    List.head?_drop, List.getD_eq_getElem?_getD]

/-- No consumption leaves the tokens. -/
theorem index_iterate_consume_lt (h : c.index < c.size) (n : Nat) :
    (consume^[n] c).index < c.size := by
  induction n generalizing c with
  | zero => exact h
  | succ n ih =>
    have hsize : c.consume.size = c.size := by rw [size, front_consume, size]
    rw [Function.iterate_succ_apply, ← hsize]
    refine ih ?_
    rw [hsize]
    exact Nat.lt_succ_of_le (index_consume_le (Nat.le_of_lt_succ h))

/-! ### Looking ahead -/

theorem indexAhead_le (c : Cursor) (n : Nat) : c.indexAhead n ≤ c.front.size := by
  cases n with
  | zero => exact seek_le c c.index
  | succ n => exact seek_le c (c.indexAhead n + 1)

theorem indexAhead_of_visible (h : c.triviaVisible = true) (n : Nat) :
    c.indexAhead n = min (c.index + n) c.front.size := by
  have hseek : ∀ i, c.seek i = min i c.front.size := fun i => by rw [seek, if_pos h]
  induction n with
  | zero => exact hseek c.index
  | succ n ih =>
    rw [indexAhead, hseek, ih]
    omega

/-- The token at an index is the one that stands there, since the mark of the end is the last. -/
theorem getElem?_all {i : Nat} (h : i ≤ c.front.size) : c.all[i]? = some (c.tokenAt i) := by
  unfold all tokenAt
  rcases Nat.lt_or_eq_of_le h with hlt | rfl
  · rw [List.getElem?_append_left (by simpa using hlt)]
    simp [Array.getD, hlt]
  · rw [List.getElem?_append_right (by simp)]
    simp [Array.getD]

theorem lookahead_eq_getD (c : Cursor) (n : Nat) : c.lookahead (n + 1) = c.shown.getD n c.last := by
  cases h : c.triviaVisible with
  | false => rw [lookahead_of_hidden h, shown_of_hidden h]
  | true =>
    rw [shown_of_visible h, rest, List.getD_eq_getElem?_getD, List.getElem?_drop]
    show c.tokenAt (c.indexAhead n) = _
    rw [indexAhead_of_visible h, tokenAt]
    by_cases hlt : c.index + n < c.front.size
    · rw [Nat.min_eq_left (Nat.le_of_lt hlt)]
      simp [Array.getD, hlt]
    · rw [Nat.min_eq_right (Nat.le_of_not_lt hlt)]
      simp [Array.getD, hlt]

theorem Ended.lookahead_eq_consumed (h : c.Ended) (k : Nat) : c.lookahead k = c.consumed k := by
  rw [consumed, h.current_iterate_consume, ← lookahead_eq_getD]
  rfl

/-! ### Cursors over given tokens -/

theorem all_ofTokens_of_mark {tokens : List Token} (source : String) {t : Token}
    (ht : tokens.getLast? = some t) (hmark : t.kind = .endOfInput) :
    (ofTokens tokens source).all =
      tokens.dropLast ++ [.endOfInput ⟨t.start, t.line, t.column⟩] := by
  unfold ofTokens
  simp [ht, hmark, all, last]

theorem all_ofTokens_of_no_mark {tokens : List Token} (source : String)
    (h : ∀ t, tokens.getLast? = some t → t.kind ≠ .endOfInput) :
    (ofTokens tokens source).all =
      tokens ++ [.endOfInput ⟨source.length, (tokens.getLast?.map (·.line)).getD 1, 0⟩] := by
  unfold ofTokens
  cases hlast : tokens.getLast? with
  | none =>
    rw [List.getLast?_eq_none_iff.1 hlast]
    simp [all, last, String.length_toList]
  | some t => simp [h t hlast, all, last, String.length_toList]

theorem ended_ofTokens {tokens : List Token} (source : String)
    (h : ∀ t ∈ tokens.dropLast, t.kind ≠ .endOfInput) : (ofTokens tokens source).Ended := by
  unfold ofTokens Ended
  cases hlast : tokens.getLast? with
  | none => simp
  | some last =>
    by_cases hmark : last.kind = .endOfInput
    · simpa [hmark] using h
    · intro t ht
      have hmem : t ∈ tokens := by simpa [hmark] using ht
      obtain ⟨front, rfl⟩ := List.getLast?_eq_some_iff.1 hlast
      rw [List.dropLast_concat] at h
      rcases List.mem_append.1 hmem with hmem | hmem
      · exact h t hmem
      · rw [List.mem_singleton.1 hmem]
        exact hmark

theorem shown_ofTokens (tokens : List Token) (source : String) :
    (ofTokens tokens source).shown = visible (ofTokens tokens source).front.toList := by
  unfold ofTokens
  repeat' split
  all_goals rfl

theorem visible_all (c : Cursor) : visible c.all = visible c.front.toList ++ [c.last] :=
  visible_append ..

theorem getD_append_last {α : Type} (xs : List α) (x : α) (k : Nat) :
    (xs ++ [x]).getD k x = xs.getD k x := by
  rcases Nat.lt_or_ge k xs.length with hlt | hge
  · rw [List.getD_append _ _ _ _ hlt]
  · rw [List.getD_append_right _ _ _ _ hge, List.getD_eq_default _ _ hge]
    cases k - xs.length <;> rfl

/-- Over tokens of which only the last one may mark the end of input, wherever the cursor stands,
even beyond them, and whatever it shows: the `k`-th token ahead is what the `k`-th of successive
consumptions gives. From the first token on with trivia hidden these are the tokens that are no
trivia, in order, and then the mark again and again. Consuming does not leave the tokens, so looking
back does not fail there, and what is ahead always stands at an index within them. The mark that
ends the given tokens keeps its place; if there is none, it is put at the end of the source. -/
theorem consumption_foreseen (tokens : List Token) (source : String)
    (hinner : ∀ t ∈ tokens.dropLast, t.kind ≠ .endOfInput) :
    let c := ofTokens tokens source
    (∀ index triviaVisible saved k,
      (c.placed index triviaVisible saved).lookahead k =
        (c.placed index triviaVisible saved).consumed k) ∧
    (∀ k, c.consumed (k + 1) = (visible c.all).getD k c.last) ∧
    (∀ index triviaVisible saved, index < c.size → ∀ n,
      (consume^[n] (c.placed index triviaVisible saved)).index < c.size ∧
        ∃ t, (consume^[n] (c.placed index triviaVisible saved)).previous? = .ok t) ∧
    (∀ index triviaVisible saved k,
      (c.placed index triviaVisible saved).indexAhead k < c.size ∧
        c.all[(c.placed index triviaVisible saved).indexAhead k]? =
          some ((c.placed index triviaVisible saved).lookahead (k + 1))) ∧
    (∀ t, tokens.getLast? = some t → t.kind = .endOfInput →
      c.all = tokens.dropLast ++ [.endOfInput ⟨t.start, t.line, t.column⟩]) ∧
    ((∀ t ∈ tokens, t.kind ≠ .endOfInput) → c.all =
      tokens ++ [.endOfInput ⟨source.length, (tokens.getLast?.map (·.line)).getD 1, 0⟩]) := by
  intro c
  have hended : c.Ended := ended_ofTokens source hinner
  have hplaced : ∀ index triviaVisible saved, (c.placed index triviaVisible saved).Ended :=
    fun _ _ _ => hended
  refine ⟨fun _ _ _ => (hplaced _ _ _).lookahead_eq_consumed, fun k => ?_,
    fun index triviaVisible saved h n => ?_, fun index triviaVisible saved k => ⟨?_, ?_⟩,
    fun t => all_ofTokens_of_mark source, fun hnone => ?_⟩
  · have hshown : c.shown = visible c.front.toList := shown_ofTokens tokens source
    rw [consumed, Nat.add_sub_cancel, hended.current_iterate_consume, visible_all, hshown,
      getD_append_last]
  · have hlt := index_iterate_consume_lt (c := c.placed index triviaVisible saved) h n
    refine ⟨hlt, _, previous?_of_le ?_⟩
    rw [size, front_iterate_consume]
    exact Nat.le_of_lt hlt
  · exact Nat.lt_succ_of_le (indexAhead_le (c.placed index triviaVisible saved) k)
  · exact getElem?_all (indexAhead_le (c.placed index triviaVisible saved) k)
  · exact all_ofTokens_of_no_mark source fun t ht => hnone t (List.mem_of_getLast? ht)

/-- Two names with blanks behind them, and no mark of the end. -/
def unmarked : List Token :=
  [⟨.identifier, "a", 1, 0, 0, 1⟩, ⟨.trivia .whitespace, " ", 1, 1, 1, 2⟩,
    ⟨.identifier, "b", 1, 2, 2, 3⟩, ⟨.trivia .whitespace, " ", 1, 3, 3, 4⟩]

theorem consumption_foreseen_unmarked :
    (∀ t ∈ unmarked.dropLast, t.kind ≠ .endOfInput) ∧
    (∀ k, ((ofTokens unmarked "a b ").placed 7 true [false]).lookahead k =
      ((ofTokens unmarked "a b ").placed 7 true [false]).consumed k) ∧
    (ofTokens unmarked "a b ").consumed 2 = ⟨.identifier, "b", 1, 2, 2, 3⟩ ∧
    (ofTokens unmarked "a b ").consumed 3 = .endOfInput ⟨4, 1, 0⟩ ∧
    (ofTokens unmarked "a b ").consumed 4 = .endOfInput ⟨4, 1, 0⟩ := by
  have hinner : ∀ t ∈ unmarked.dropLast, t.kind ≠ .endOfInput := by decide
  obtain ⟨hlookahead, hconsumed, -⟩ := consumption_foreseen unmarked "a b " hinner
  exact ⟨hinner, hlookahead 7 true [false], (hconsumed 1).trans rfl, (hconsumed 2).trans rfl,
    (hconsumed 3).trans rfl⟩

end Cursor

end Rulebook
