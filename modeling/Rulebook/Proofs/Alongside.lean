import Rulebook.Proofs.Enclosed
import Rulebook.Proofs.Offsets

/-!
# Texts with the same beginning

Two cursors at the same place of two texts whose first tokens are the same. As long as one of these
is left, both see the same token next; behind them each text goes on in its own way.
-/

namespace Rulebook

namespace Cursor

theorem tokenAt_of_lt {c : Cursor} {i : Nat} (h : i < c.front.size) : c.tokenAt i = c.front[i] := by
  simp [tokenAt, Array.getD, h]

def AtBrink (k : Nat) (c : Cursor) : Prop := k ≤ c.seek c.index

/-- Two cursors at the same place, index `k` or before it. Up to there they have the same tokens,
and the same source up to where these tokens end. -/
structure Alongside (k : Nat) (c d : Cursor) : Prop where
  index : c.index = d.index
  index_le : c.index ≤ k
  first_le : k ≤ c.front.size
  second_le : k ≤ d.front.size
  triviaVisible : c.triviaVisible = d.triviaVisible
  tokens : ∀ i < k, c.tokenAt i = d.tokenAt i
  source : ∀ i < k, ∀ n, n ≤ (c.tokenAt i).start ∨ n ≤ (c.tokenAt i).stop →
    c.source.toList.take n = d.source.toList.take n

namespace Alongside

variable {c d e : Cursor} {i j k : Nat}

theorem symm (h : Alongside k c d) : Alongside k d c where
  index := h.index.symm
  index_le := h.index ▸ h.index_le
  first_le := h.second_le
  second_le := h.first_le
  triviaVisible := h.triviaVisible.symm
  tokens i hi := (h.tokens i hi).symm
  source i hi n hn := (h.source i hi n (h.tokens i hi ▸ hn)).symm

theorem trans (h : Alongside k c d) (h' : Alongside k d e) : Alongside k c e where
  index := h.index.trans h'.index
  index_le := h.index_le
  first_le := h.first_le
  second_le := h'.second_le
  triviaVisible := h.triviaVisible.trans h'.triviaVisible
  tokens i hi := (h.tokens i hi).trans (h'.tokens i hi)
  source i hi n hn := (h.source i hi n hn).trans (h'.source i hi n (h.tokens i hi ▸ hn))

/-- Fewer tokens may be compared. -/
theorem mono (h : Alongside k c d) (hjk : j ≤ k) (hj : c.index ≤ j) : Alongside j c d where
  index := h.index
  index_le := hj
  first_le := Nat.le_trans hjk h.first_le
  second_le := Nat.le_trans hjk h.second_le
  triviaVisible := h.triviaVisible
  tokens i hi := h.tokens i (Nat.lt_of_lt_of_le hi hjk)
  source i hi := h.source i (Nat.lt_of_lt_of_le hi hjk)

theorem rewind (h : Alongside k c d) (hi : i ≤ k) : Alongside k (c.rewind i) (d.rewind i) :=
  { h with index := rfl, index_le := hi }

/-! ### The next token -/

theorem skipTrivia_cases (h : Alongside k c d) {i : Nat} (hi : i ≤ k) :
    skipTrivia c.front i < k ∧ skipTrivia d.front i = skipTrivia c.front i ∨
      k ≤ skipTrivia c.front i ∧ k ≤ skipTrivia d.front i := by
  rcases Nat.eq_or_lt_of_le hi with rfl | hik
  · exact .inr ⟨le_skipTrivia h.first_le, le_skipTrivia h.second_le⟩
  have hlt := Nat.lt_of_lt_of_le hik h.first_le
  have hlt' := Nat.lt_of_lt_of_le hik h.second_le
  have hsame : c.front[i] = d.front[i] := by
    rw [← tokenAt_of_lt hlt, ← tokenAt_of_lt hlt', h.tokens i hik]
  rw [skipTrivia.eq_def c.front i, skipTrivia.eq_def d.front i, dif_pos hlt, dif_pos hlt', hsame]
  split
  · exact h.skipTrivia_cases hik
  · exact .inl ⟨hik, rfl⟩
termination_by k - i

/-- The next visible token is the same, or it is none of those that are compared. -/
theorem seek_cases (h : Alongside k c d) (hi : i ≤ k) :
    c.seek i < k ∧ d.seek i = c.seek i ∨ k ≤ c.seek i ∧ k ≤ d.seek i := by
  unfold seek
  rw [← h.triviaVisible]
  split
  · rw [Nat.min_eq_left (Nat.le_trans hi h.first_le), Nat.min_eq_left (Nat.le_trans hi h.second_le)]
    rcases Nat.eq_or_lt_of_le hi with rfl | hlt
    · exact .inr ⟨Nat.le_refl _, Nat.le_refl _⟩
    · exact .inl ⟨hlt, rfl⟩
  · exact h.skipTrivia_cases hi

theorem seek_eq (h : Alongside k c d) (hi : i ≤ k) (hlt : c.seek i < k) : d.seek i = c.seek i := by
  rcases h.seek_cases hi with ⟨-, heq⟩ | ⟨hle, -⟩
  · exact heq
  · exact absurd hlt (Nat.not_lt.2 hle)

theorem atBrink (h : Alongside k c d) (hbrink : c.AtBrink k) : d.AtBrink k := by
  rcases h.seek_cases h.index_le with ⟨hlt, -⟩ | ⟨-, hle⟩
  · exact absurd hbrink (Nat.not_le.2 hlt)
  · unfold AtBrink
    rwa [← h.index]

theorem current_eq (h : Alongside k c d) (hbrink : ¬c.AtBrink k) : c.current = d.current := by
  have hlt := Nat.lt_of_not_le hbrink
  unfold current
  rw [← h.index, h.seek_eq h.index_le hlt]
  exact h.tokens _ hlt

theorem lookahead_eq (h : Alongside k c d) (hlt : c.seek (c.seek c.index + 1) < k) :
    c.lookahead 2 = d.lookahead 2 := by
  have hbrink : c.seek c.index < k := by
    have hle := c.seek_le c.index
    refine Nat.lt_of_le_of_lt ?_ hlt
    by_cases hsize : c.seek c.index + 1 ≤ c.front.size
    · exact Nat.le_trans (Nat.le_succ _) (le_seek hsize)
    · rw [seek_of_le (Nat.le_of_not_le hsize)]
      exact hle
  show c.tokenAt (c.seek (c.seek c.index + 1)) = d.tokenAt (d.seek (d.seek d.index + 1))
  rw [← h.index, h.seek_eq h.index_le hbrink, h.seek_eq (i := c.seek c.index + 1) hbrink hlt]
  exact h.tokens _ hlt

theorem consume (h : Alongside k c d) (hbrink : ¬c.AtBrink k) :
    Alongside k c.consume d.consume := by
  have hlt := Nat.lt_of_not_le hbrink
  unfold Cursor.consume
  rw [← h.current_eq hbrink, ← h.index, h.seek_eq h.index_le hlt]
  split
  · exact h
  · exact h.rewind hlt

/-- What is left of the two texts begins with the same tokens. -/
theorem exists_rest (h : Alongside k c d) :
    ∃ x r r', c.rest = x ++ r ∧ d.rest = x ++ r' ∧ c.index + x.length = k := by
  have hsize : k ≤ c.front.toList.length := h.first_le
  have hsize' : k ≤ d.front.toList.length := h.second_le
  have htake : c.front.toList.take k = d.front.toList.take k := by
    refine List.ext_getElem ?_ fun i hi hi' => ?_
    · rw [List.length_take_of_le hsize, List.length_take_of_le hsize']
    · rw [List.length_take_of_le hsize] at hi
      have htoken := h.tokens i hi
      rw [tokenAt_of_lt (Nat.lt_of_lt_of_le hi h.first_le),
        tokenAt_of_lt (Nat.lt_of_lt_of_le hi h.second_le)] at htoken
      rw [List.getElem_take, List.getElem_take]
      exact htoken
  refine ⟨c.rest.take (k - c.index), _, d.rest.drop (k - c.index),
    (List.take_append_drop ..).symm, ?_, ?_⟩
  · have hsame : c.rest.take (k - c.index) = d.rest.take (k - c.index) := by
      unfold rest
      rw [← h.index, List.take_drop, List.take_drop, Nat.add_sub_cancel' h.index_le, htake]
    rw [hsame, List.take_append_drop]
  · rw [List.length_take_of_le]
    · exact Nat.add_sub_cancel' h.index_le
    · unfold rest
      rw [List.length_drop]
      omega

/-- If the first text ends with what both have in common, the second one goes on behind that. -/
theorem exists_rest_of_cut (h : Alongside k c d) (hcut : c.front.size = k) :
    ∃ r, d.rest = c.rest ++ r ∧ c.index + c.rest.length = k := by
  obtain ⟨x, r, r', hrest, hrest', hlength⟩ := h.exists_rest
  obtain rfl : r = [] := by
    refine List.eq_nil_of_length_eq_zero ?_
    have hsize := congrArg List.length hrest
    rw [Cursor.length_rest, List.length_append] at hsize
    unfold Cursor.remaining at hsize
    omega
  rw [List.append_nil] at hrest
  exact ⟨r', by rw [hrest, hrest'], by rw [hrest, hlength]⟩

/-! ### What was read -/

theorem lastBefore_eq (h : Alongside k c d) {n : Nat} (hn : n ≤ k) :
    c.lastBefore n = d.lastBefore n := by
  induction n with
  | zero => rfl
  | succ n ih => rw [lastBefore, lastBefore, h.tokens n hn, ih (Nat.le_of_succ_le hn)]

theorem previous_eq (h : Alongside k c d) : c.previous = d.previous := by
  unfold previous
  rw [← h.index, h.lastBefore_eq h.index_le]

theorem text_eq (h : Alongside k c d) {start stop : Nat}
    (hstop : ∃ i < k, stop ≤ (c.tokenAt i).start ∨ stop ≤ (c.tokenAt i).stop) :
    c.text start stop = d.text start stop := by
  obtain ⟨i, hi, hle⟩ := hstop
  unfold text
  rw [Array.toList_extract, Array.toList_extract, List.extract_eq_drop_take',
    List.extract_eq_drop_take', h.source i hi stop hle]

end Alongside

/-! ### Passing over tokens -/

/-- A cursor that was moved past what it saw next is at the brink if it was there before. -/
theorem AtBrink.mono {c d : Cursor} {k : Nat} (h : c.AtBrink k) (hd : d = c.rewind d.index)
    (hle : c.index ≤ d.index) : d.AtBrink k := by
  unfold AtBrink
  have hseek : c.seek c.index ≤ c.seek d.index := by
    unfold seek
    split
    · exact Nat.le_min.2 ⟨Nat.le_trans (Nat.min_le_left _ _) hle, Nat.min_le_right _ _⟩
    · exact skipTrivia_mono c.front hle
  rw [hd]
  exact Nat.le_trans h hseek

/-- Passing over trivia does not change what is next. -/
theorem current_rewind_of_seek {c : Cursor} (hc : c.triviaVisible = false) {i : Nat}
    (hi : c.index ≤ i) (hseek : i ≤ c.seek c.index) : (c.rewind i).current = c.current := by
  have hmono : c.seek c.index ≤ c.seek i := by
    rw [seek_of_hidden hc, seek_of_hidden hc]
    exact skipTrivia_mono c.front hi
  have hback : c.seek i ≤ c.seek (c.seek c.index) := by
    rw [seek_of_hidden hc i, seek_of_hidden hc (c.seek _)]
    exact skipTrivia_mono c.front hseek
  show c.tokenAt (c.seek i) = c.tokenAt (c.seek c.index)
  rw [Nat.le_antisymm (seek_seek hc c.index ▸ hback) hmono]

theorem Alongside.current_rewind {c d : Cursor} {i k : Nat} (h : Alongside k c d)
    (hc : c.triviaVisible = false) (hbrink : c.AtBrink k) (hi : c.index ≤ i) (hik : i ≤ k) :
    (d.rewind i).current = d.current :=
  current_rewind_of_seek (h.triviaVisible ▸ hc) (h.index ▸ hi) (Nat.le_trans hik (h.atBrink hbrink))

end Cursor

namespace Parser

variable {α : Type} {s t u v : State} {k : Nat}

/-- Two states at the same place of two texts with the same beginning, with trivia hidden and the
same stack. -/
structure State.Alongside (k : Nat) (s t : State) : Prop where
  cursor : s.cursor.Alongside k t.cursor
  hidden : s.cursor.triviaVisible = false
  trials : s.trials = t.trials
  stack : s.stack = t.stack

namespace State.Alongside

theorem symm (h : s.Alongside k t) : t.Alongside k s :=
  ⟨h.cursor.symm, h.cursor.triviaVisible ▸ h.hidden, h.trials.symm, h.stack.symm⟩

theorem trans (h : s.Alongside k t) (h' : t.Alongside k u) : s.Alongside k u :=
  ⟨h.cursor.trans h'.cursor, h.hidden, h.trials.trans h'.trials, h.stack.trans h'.stack⟩

theorem trying (h : s.Alongside k t) : s.trying.Alongside k t.trying :=
  ⟨h.cursor, h.hidden, congrArg (· + 1) h.trials, h.stack⟩

theorem within (h : s.Alongside k t) (n : Nesting) : (s.within n).Alongside k (t.within n) :=
  ⟨h.cursor, h.hidden, h.trials, congrArg (·.take n) h.stack⟩

theorem unwound (h : s.Alongside k t) (huv : u.Alongside k v) :
    (s.unwound u).Alongside k (t.unwound v) :=
  ⟨huv.cursor, huv.hidden, huv.trials, h.stack⟩

theorem mono {j : Nat} (h : s.Alongside k t) (hjk : j ≤ k) (hj : s.cursor.index ≤ j) :
    s.Alongside j t :=
  ⟨h.cursor.mono hjk hj, h.hidden, h.trials, h.stack⟩

theorem advanced (h : s.Alongside k t) (hbrink : ¬s.cursor.AtBrink k) :
    s.advanced.Alongside k t.advanced :=
  ⟨h.cursor.consume hbrink, (Cursor.triviaVisible_consume _).trans h.hidden, h.trials, h.stack⟩

theorem moved (h : s.Alongside k t) {n : Nat} (hn : s.cursor.index + n ≤ k) :
    (s.moved n).Alongside k (t.moved n) := by
  refine ⟨?_, h.hidden, h.trials, h.stack⟩
  show (s.cursor.rewind (s.cursor.index + n)).Alongside k (t.cursor.rewind (t.cursor.index + n))
  rw [← h.cursor.index]
  exact h.cursor.rewind hn

end State.Alongside

theorem State.Evolves.atBrink (h : s.Evolves u) (hbrink : s.cursor.AtBrink k) :
    u.cursor.AtBrink k :=
  hbrink.mono h.cursor h.index

theorem State.Evolves.received_le (h : s.Evolves u) :
    s.collector.received ≤ u.collector.received :=
  h.collector.received_le

end Parser

end Rulebook
