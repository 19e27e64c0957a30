import Rulebook.Cursor

/-!
# The tokens ahead of a cursor

While trivia is hidden a cursor reads a list: the tokens from its index on that are no trivia. The
next token is the head of that list, consuming takes it off, and looking further ahead counts along
it.
-/

namespace Rulebook

/-- The tokens that are no trivia. -/
def visible (ts : List Token) : List Token := ts.filter fun t => !t.isTrivia

@[simp] theorem visible_nil : visible [] = [] := rfl

theorem visible_append (ts us : List Token) : visible (ts ++ us) = visible ts ++ visible us :=
  List.filter_append ..

theorem visible_cons_of_trivia {t : Token} (h : t.isTrivia = true) (ts : List Token) :
    visible (t :: ts) = visible ts := by
  simp [visible, h]

theorem visible_cons_of_not_trivia {t : Token} (h : t.isTrivia = false) (ts : List Token) :
    visible (t :: ts) = t :: visible ts := by
  simp [visible, h]

theorem visible_eq_nil {ts : List Token} (h : ∀ t ∈ ts, t.isTrivia = true) : visible ts = [] := by
  simpa [visible] using h

theorem isTrivia_of_visible_eq_nil {ts : List Token} (h : visible ts = []) :
    ∀ t ∈ ts, t.isTrivia = true := by
  simpa [visible] using h

theorem not_trivia_of_mem_visible {ts : List Token} {t : Token} (h : t ∈ visible ts) :
    t.isTrivia = false := by
  simpa using (List.mem_filter.1 h).2

namespace Cursor

/-- The tokens not yet passed, trivia included. -/
def rest (c : Cursor) : List Token := c.front.toList.drop c.index

/-- The tokens not yet passed that are no trivia. -/
def ahead (c : Cursor) : List Token := visible c.rest

theorem rest_of_lt {front : Array Token} {i : Nat} (h : i < front.size) :
    front.toList.drop i = front[i] :: front.toList.drop (i + 1) := by
  have hl : i < front.toList.length := by simpa using h
  rw [List.drop_eq_getElem_cons hl, Array.getElem_toList]

theorem drop_skipTrivia (front : Array Token) (i : Nat) :
    ∃ trivia, (∀ t ∈ trivia, t.isTrivia = true) ∧
      front.toList.drop i = trivia ++ front.toList.drop (skipTrivia front i) := by
  fun_induction skipTrivia front i with
  | case1 i h ht ih =>
    obtain ⟨trivia, htrivia, heq⟩ := ih
    refine ⟨front[i] :: trivia, ?_, ?_⟩
    · intro t hmem
      rcases List.mem_cons.1 hmem with rfl | hmem
      · exact ht
      · exact htrivia t hmem
    · rw [rest_of_lt h, heq, List.cons_append]
  | case2 i h ht => exact ⟨[], by simp, rfl⟩
  | case3 i h =>
    refine ⟨[], by simp, ?_⟩
    rw [List.nil_append, List.drop_eq_nil_of_le (by simpa using Nat.le_of_not_lt h),
      List.drop_eq_nil_of_le (by simp)]

theorem not_trivia_skipTrivia {front : Array Token} {i : Nat}
    (h : skipTrivia front i < front.size) : front[skipTrivia front i].isTrivia = false := by
  fun_induction skipTrivia front i with
  | case1 i h' ht ih => exact ih h
  | case2 i h' ht => simpa using ht
  | case3 i h' => exact absurd h (Nat.lt_irrefl _)

theorem visible_skipTrivia (front : Array Token) (i : Nat) :
    visible (front.toList.drop (skipTrivia front i)) = visible (front.toList.drop i) := by
  obtain ⟨trivia, htrivia, heq⟩ := drop_skipTrivia front i
  rw [heq, visible_append, visible_eq_nil htrivia, List.nil_append]

theorem seek_of_hidden {c : Cursor} (h : c.triviaVisible = false) (i : Nat) :
    c.seek i = skipTrivia c.front i := by
  simp [seek, h]

theorem visible_seek {c : Cursor} (h : c.triviaVisible = false) (i : Nat) :
    visible (c.front.toList.drop (c.seek i)) = visible (c.front.toList.drop i) := by
  rw [seek_of_hidden h, visible_skipTrivia]

theorem visible_drop_seek {c : Cursor} (h : c.triviaVisible = false) {i : Nat}
    (hlt : c.seek i < c.front.size) :
    visible (c.front.toList.drop i) =
      c.tokenAt (c.seek i) :: visible (c.front.toList.drop (c.seek i + 1)) := by
  have hs := seek_of_hidden h i
  have ht : c.front[c.seek i].isTrivia = false := by
    simp only [hs]
    exact not_trivia_skipTrivia (hs ▸ hlt)
  have htok : c.tokenAt (c.seek i) = c.front[c.seek i] := by
    simp [tokenAt, Array.getD, hlt]
  rw [← visible_seek h i, rest_of_lt hlt, visible_cons_of_not_trivia ht, htok]

theorem kind_last (c : Cursor) : c.last.kind = .endOfInput := rfl

theorem current_of_rest_nil {c : Cursor} (h : c.rest = []) : c.current = c.last := by
  have hle : c.front.size ≤ c.index := by
    simpa [rest] using h
  rw [current, seek_of_le hle, tokenAt_of_le (Nat.le_refl _)]

/-- While trivia is hidden, the token at a sought index is the first one that is visible from there
on, or the mark of the end. -/
theorem tokenAt_seek {c : Cursor} (h : c.triviaVisible = false) (i : Nat) :
    c.tokenAt (c.seek i) = (visible (c.front.toList.drop i)).headD c.last := by
  by_cases hlt : c.seek i < c.front.size
  · rw [visible_drop_seek h hlt, List.headD_cons]
  · have hge : c.front.size ≤ c.seek i := Nat.le_of_not_lt hlt
    rw [← visible_seek h i, List.drop_eq_nil_of_le (by simpa using hge), tokenAt_of_le hge]
    rfl

theorem current_of_hidden {c : Cursor} (h : c.triviaVisible = false) :
    c.current = c.ahead.headD c.last :=
  tokenAt_seek h c.index

theorem seek_seek {c : Cursor} (h : c.triviaVisible = false) (i : Nat) :
    c.seek (c.seek i) = c.seek i := by
  rw [seek_of_hidden h, seek_of_hidden h]
  by_cases hlt : skipTrivia c.front i < c.front.size
  · rw [skipTrivia]
    simp [hlt, not_trivia_skipTrivia hlt]
  · rw [skipTrivia]
    have := skipTrivia_le c.front i
    simp only [hlt, dite_false]
    omega

theorem visible_drop_indexAhead {c : Cursor} (h : c.triviaVisible = false) (n : Nat) :
    visible (c.front.toList.drop (c.indexAhead n)) = c.ahead.drop n := by
  induction n with
  | zero => exact visible_seek h c.index
  | succ n ih =>
    have hseek : c.indexAhead n = c.seek (c.indexAhead n) := by
      cases n with
      | zero => exact (seek_seek h c.index).symm
      | succ n => exact (seek_seek h (c.indexAhead n + 1)).symm
    show visible (c.front.toList.drop (c.seek (c.indexAhead n + 1))) = c.ahead.drop (n + 1)
    rw [visible_seek h]
    have htail : c.ahead.drop (n + 1) = (c.ahead.drop n).tail := by rw [List.tail_drop]
    by_cases hlt : c.indexAhead n < c.front.size
    · have hlt' : c.seek (c.indexAhead n) < c.front.size := by rw [← hseek]; exact hlt
      have hcons := visible_drop_seek h hlt'
      rw [ih, ← hseek] at hcons
      rw [htail, hcons, List.tail_cons]
    · have hnil : c.ahead.drop n = [] := by
        rw [← ih, List.drop_eq_nil_of_le (by simpa using Nat.le_of_not_lt hlt)]
        rfl
      rw [List.drop_eq_nil_of_le (by simp; omega), htail, hnil]
      rfl

theorem lookahead_of_hidden {c : Cursor} (h : c.triviaVisible = false) (n : Nat) :
    c.lookahead (n + 1) = c.ahead.getD n c.last := by
  have hat : c.lookahead (n + 1) = (c.ahead.drop n).headD c.last := by
    rw [← visible_drop_indexAhead h n]
    cases n with
    | zero =>
      show c.tokenAt (c.seek c.index) = _
      rw [tokenAt_seek h, ← visible_seek h c.index]
      rfl
    | succ n =>
      show c.tokenAt (c.seek (c.indexAhead n + 1)) = _
      rw [tokenAt_seek h, ← visible_seek h (c.indexAhead n + 1)]
      rfl
  rw [hat, List.headD_eq_head?_getD, List.head?_drop, List.getD_eq_getElem?_getD]

/-! ### Consuming -/

theorem consume_of_end {c : Cursor} (h : c.current.kind = .endOfInput) : c.consume = c :=
  if_pos h

theorem consume_eq {c : Cursor} (h : c.current.kind ≠ .endOfInput) :
    c.consume = { c with index := c.seek c.index + 1 } :=
  if_neg h

theorem triviaVisible_consume (c : Cursor) : c.consume.triviaVisible = c.triviaVisible := by
  unfold consume; split <;> rfl

theorem last_consume (c : Cursor) : c.consume.last = c.last := by
  unfold consume; split <;> rfl

theorem rest_consume {c : Cursor} (hk : c.current.kind ≠ .endOfInput) :
    ∃ trivia, (∀ t ∈ trivia, t.isTrivia = true) ∧
      c.rest = trivia ++ c.current :: c.consume.rest := by
  have hlt := seek_lt_of_current hk
  have htok : c.current = c.front[c.seek c.index] := by
    simp [current, tokenAt, Array.getD, hlt]
  have hrest : c.front.toList.drop (c.seek c.index) = c.current :: c.consume.rest := by
    have hnext : c.consume.rest = c.front.toList.drop (c.seek c.index + 1) := by
      rw [consume_eq hk]; rfl
    rw [hnext, htok, ← rest_of_lt hlt]
  cases h : c.triviaVisible with
  | false =>
    obtain ⟨trivia, htrivia, heq⟩ := drop_skipTrivia c.front c.index
    refine ⟨trivia, htrivia, ?_⟩
    rw [← hrest, seek_of_hidden h]
    exact heq
  | true =>
    have hseek : c.seek c.index = min c.index c.front.size := by simp [seek, h]
    refine ⟨[], by simp, ?_⟩
    rw [List.nil_append, ← hrest, hseek, Nat.min_eq_left (by omega)]
    rfl

theorem current_mem_rest {c : Cursor} (hk : c.current.kind ≠ .endOfInput) : c.current ∈ c.rest := by
  obtain ⟨trivia, -, heq⟩ := rest_consume hk
  rw [heq]
  exact List.mem_append_right _ List.mem_cons_self

theorem current_not_trivia {c : Cursor} (h : c.triviaVisible = false) :
    c.current.isTrivia = false := by
  rw [current_of_hidden h]
  cases hs : c.ahead with
  | nil => rfl
  | cons t ts =>
    have hmem : t ∈ c.ahead := hs ▸ List.mem_cons_self
    exact not_trivia_of_mem_visible hmem

theorem ahead_consume {c : Cursor} (h : c.triviaVisible = false)
    (hk : c.current.kind ≠ .endOfInput) : c.ahead = c.current :: c.consume.ahead := by
  obtain ⟨trivia, htrivia, heq⟩ := rest_consume hk
  rw [ahead, heq, visible_append, visible_eq_nil htrivia, List.nil_append,
    visible_cons_of_not_trivia (current_not_trivia h)]
  rfl

theorem current_consume {c : Cursor} (h : c.triviaVisible = false)
    (hk : c.current.kind ≠ .endOfInput) : c.consume.current = c.lookahead 2 := by
  rw [lookahead_of_hidden h, ahead_consume h hk,
    current_of_hidden ((triviaVisible_consume c).trans h), last_consume]
  cases c.consume.ahead <;> rfl

theorem current_of_ahead_eq_nil {c : Cursor} (h : c.triviaVisible = false) (hnil : c.ahead = []) :
    c.current = c.last := by
  rw [current_of_hidden h, hnil]; rfl

theorem mem_front_of_mem_ahead {c : Cursor} {t : Token} (h : t ∈ c.ahead) : t ∈ c.front.toList :=
  List.mem_of_mem_drop (List.mem_filter.1 h).1

theorem ahead_eq_nil_of_end {c : Cursor} (h : c.triviaVisible = false)
    (hplain : ∀ t ∈ c.front.toList, t.kind ≠ .endOfInput) (hk : c.current.kind = .endOfInput) :
    c.ahead = [] := by
  rw [current_of_hidden h] at hk
  cases hahead : c.ahead with
  | nil => rfl
  | cons t ts =>
    rw [hahead] at hk
    exact absurd hk (hplain t (mem_front_of_mem_ahead (hahead ▸ List.mem_cons_self)))

theorem ahead_ne_nil_of_current {c : Cursor} (h : c.triviaVisible = false)
    (hk : c.current.kind ≠ .endOfInput) : c.ahead ≠ [] := by
  rw [ahead_consume h hk]; simp

theorem index_lt_consume {c : Cursor} (hk : c.current.kind ≠ .endOfInput) :
    c.index < c.consume.index := by
  have hlt := seek_lt_of_current hk
  have hi : c.index < c.front.size := by
    refine Nat.lt_of_not_le fun hle => ?_
    rw [seek_of_le hle] at hlt
    exact Nat.lt_irrefl _ hlt
  have hle := le_seek (Nat.le_of_lt hi)
  rw [consume_eq hk]
  show c.index < c.seek c.index + 1
  omega

theorem index_le_consume (c : Cursor) : c.index ≤ c.consume.index := by
  by_cases hk : c.current.kind = .endOfInput
  · exact Nat.le_of_eq (by rw [consume_of_end hk])
  · exact Nat.le_of_lt (index_lt_consume hk)

theorem consume_eq_rewind (c : Cursor) : c.consume = c.rewind c.consume.index := by
  unfold consume; split <;> rfl

theorem rest_suffix {c d : Cursor} (hfront : d.front = c.front) (hle : c.index ≤ d.index) :
    d.rest <:+ c.rest := by
  unfold rest
  rw [hfront, show d.index = c.index + (d.index - c.index) by omega, ← List.drop_drop]
  exact List.drop_suffix _ _

/-- A cursor further on has fewer tokens ahead, namely the last ones of those. -/
theorem ahead_suffix {c d : Cursor} (hfront : d.front = c.front) (hle : c.index ≤ d.index) :
    d.ahead <:+ c.ahead :=
  (rest_suffix hfront hle).filter _

theorem length_ahead_le {c d : Cursor} (hfront : d.front = c.front) (hle : c.index ≤ d.index) :
    d.ahead.length ≤ c.ahead.length :=
  (ahead_suffix hfront hle).length_le

theorem length_ahead_le_remaining (c : Cursor) : c.ahead.length ≤ c.remaining := by
  have h : c.ahead.length ≤ c.rest.length := List.length_filter_le _ _
  simpa [rest, remaining] using h

/-! ### What the cursor shows -/

def shown (c : Cursor) : List Token := if c.triviaVisible then c.rest else c.ahead

theorem shown_of_hidden {c : Cursor} (h : c.triviaVisible = false) : c.shown = c.ahead := by
  rw [shown, h, if_neg Bool.false_ne_true]

theorem shown_of_visible {c : Cursor} (h : c.triviaVisible = true) : c.shown = c.rest := if_pos h

theorem current_of_visible {c : Cursor} (h : c.triviaVisible = true) :
    c.current = c.rest.headD c.last := by
  have hseek : c.seek c.index = min c.index c.front.size := by
    rw [seek, h, if_pos rfl]
  rw [current, hseek]
  by_cases hlt : c.index < c.front.size
  · rw [rest, rest_of_lt hlt, List.headD_cons, Nat.min_eq_left (Nat.le_of_lt hlt)]
    simp [tokenAt, Array.getD, hlt]
  · have hge := Nat.le_of_not_lt hlt
    rw [rest, List.drop_eq_nil_of_le (by simpa using hge), Nat.min_eq_right hge, List.headD_nil]
    simp [tokenAt, Array.getD]

/-- The token ahead is the first that is shown, or the mark of the end. -/
theorem current_eq_head (c : Cursor) : c.current = c.shown.headD c.last := by
  cases h : c.triviaVisible with
  | true => rw [current_of_visible h, shown_of_visible h]
  | false => rw [current_of_hidden h, shown_of_hidden h]

theorem shown_consume {c : Cursor} (hk : c.current.kind ≠ .endOfInput) :
    c.shown = c.current :: c.consume.shown := by
  cases h : c.triviaVisible with
  | false =>
    rw [shown_of_hidden h, shown_of_hidden ((triviaVisible_consume c).trans h), ahead_consume h hk]
  | true =>
    rw [shown_of_visible h, shown_of_visible ((triviaVisible_consume c).trans h)]
    have hhead := current_of_visible h
    have hlt := seek_lt_of_current hk
    have hseek : c.seek c.index = min c.index c.front.size := by
      rw [seek, h, if_pos rfl]
    rw [hseek] at hlt
    have hindex : c.index < c.front.size := by omega
    rw [rest, rest_of_lt hindex, consume_eq hk, rest, hseek, Nat.min_eq_left (Nat.le_of_lt hindex)]
    rw [rest, rest_of_lt hindex, List.headD_cons] at hhead
    rw [hhead]

/-- A cursor further on shows the last ones of the same tokens. -/
theorem shown_suffix {c d : Cursor} (hfront : d.front = c.front)
    (hvisible : d.triviaVisible = c.triviaVisible) (hle : c.index ≤ d.index) :
    d.shown <:+ c.shown := by
  unfold shown
  rw [hvisible]
  split
  · exact rest_suffix hfront hle
  · exact ahead_suffix hfront hle

theorem length_rest_lt {c d : Cursor} (hfront : d.front = c.front)
    (hvisible : d.triviaVisible = c.triviaVisible) (hle : c.index ≤ d.index)
    (h : d.shown.length < c.shown.length) : d.rest.length < c.rest.length := by
  have hsuffix := rest_suffix hfront hle
  refine Nat.lt_of_le_of_ne hsuffix.length_le fun heq => ?_
  unfold shown ahead at h
  rw [hvisible, hsuffix.eq_of_length heq] at h
  exact Nat.lt_irrefl _ h

theorem length_rest (c : Cursor) : c.rest.length = c.remaining := by
  simp [rest, remaining]

theorem index_lt_of_rest {c d : Cursor} (hfront : d.front = c.front)
    (h : d.rest.length < c.rest.length) : c.index < d.index := by
  rw [length_rest, length_rest, remaining, remaining, hfront] at h
  omega

/-! ### Skipping -/

theorem skipUntil_eq_rewind (kinds : List TokenKind) (c : Cursor) (n : Nat) :
    (c.skipUntil kinds n).1 = c.rewind (c.skipUntil kinds n).1.index ∧
      c.index ≤ (c.skipUntil kinds n).1.index := by
  fun_induction skipUntil kinds c n with
  | case1 => exact ⟨rfl, Nat.le_refl _⟩
  | case2 => exact ⟨rfl, Nat.le_refl _⟩
  | case3 c n hend hkind ih =>
    refine ⟨?_, Nat.le_trans c.index_le_consume ih.2⟩
    rw [ih.1, c.consume_eq_rewind]
    rfl

end Cursor

end Rulebook
