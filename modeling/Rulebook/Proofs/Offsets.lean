import Rulebook.Proofs.Course
import Rulebook.Proofs.ScannedText
import Mathlib.Data.List.Induction

/-!
# Offsets, lines and columns

An offset into a text has a line and a column, which are counted from the text alone. The tokens of
a scan carry the line and the column of their first character, none of them but the mark of the end
is empty, and they stand one behind the other. So while a cursor moves forward, neither the place up
to which it has read nor the place of the next token goes back, and what is read stays between them.
-/

namespace Rulebook

variable {hashComments : Bool} {text : String}

/-! ### Lines and columns -/

/-- The line of an offset: one more than the line feeds before it. -/
def lineAt (text : String) (n : Nat) : Nat := 1 + (text.toList.take n).count '\n'

/-- The column of an offset: its distance from the start of its line. -/
def columnAt (text : String) (n : Nat) : Nat :=
  ((text.toList.take n).reverse.takeWhile (· ≠ '\n')).length

theorem Position.advance_eq (cs : List Char) :
    Position.advance {} cs =
      ⟨cs.length, 1 + cs.count '\n', (cs.reverse.takeWhile (· ≠ '\n')).length⟩ := by
  induction cs using List.reverseRecOn with
  | nil => rfl
  | append_singleton cs c ih =>
    rw [Position.advance_append, ih, Position.advance_cons, Position.advance_nil, Position.step]
    by_cases hc : c = '\n'
    · simp [hc, Nat.add_assoc]
    · simp [hc]

structure Token.StandsIn (text : String) (t : Token) : Prop where
  line : t.line = lineAt text t.start
  column : t.column = columnAt text t.start
  start_le : t.start ≤ t.stop
  stop_le : t.stop ≤ text.length

theorem standsIn_finish (text : String) : (Token.endOfInput (finish text)).StandsIn text := by
  have hlast : Token.endOfInput (finish text) = ⟨.endOfInput, "", 1 + text.toList.count '\n',
      (text.toList.reverse.takeWhile (· ≠ '\n')).length, text.toList.length,
        text.toList.length⟩ := by
    rw [Token.endOfInput, finish, Position.advance_eq]
  rw [hlast]
  refine ⟨?_, ?_, Nat.le_refl _, Nat.le_of_eq String.length_toList⟩
  · exact (congrArg (fun cs => 1 + List.count '\n' cs) List.take_length).symm
  · exact (congrArg (fun cs => (List.takeWhile (· ≠ '\n') cs.reverse).length)
      List.take_length).symm

theorem ne_nil_of_mem_lexemes {cs : List Char} {l : TokenKind × List Char}
    (h : l ∈ lexemes hashComments cs) : l.2 ≠ [] := by
  fun_induction lexemes hashComments cs with
  | case1 => cases h
  | case2 c rest k ih =>
    rcases List.mem_cons.1 h with rfl | h
    · exact List.cons_ne_nil _ _
    · exact ih h

theorem standsIn_of_mem_tokens {t : Token} (h : t ∈ tokens hashComments text) :
    t.StandsIn text ∧ t.start < t.stop := by
  obtain ⟨x, y, hxy⟩ := List.append_of_mem h
  obtain ⟨ks, ms, hls, -, hms⟩ := located_eq_append hxy
  cases ms with
  | nil => cases hms
  | cons m ms =>
    obtain ⟨kind, cs⟩ := m
    obtain ⟨rfl, -⟩ := List.cons.inj hms
    have htake : text.toList.take (letters ks).length = letters ks := by
      rw [← @letters_lexemes hashComments text.toList, hls, letters_append,
        List.take_left]
    have hne : cs ≠ [] :=
      @ne_nil_of_mem_lexemes hashComments text.toList (kind, cs)
        (hls ▸ List.mem_append_right _ List.mem_cons_self)
    have hlt : (Token.at (Position.advance {} (letters ks)) kind cs).start <
        (Token.at (Position.advance {} (letters ks)) kind cs).stop := by
      show (Position.advance {} (letters ks)).offset < (Position.advance _ cs).offset
      rw [Position.offset_advance _ cs]
      exact Nat.lt_add_of_pos_right (List.length_pos_iff.2 hne)
    refine ⟨⟨?_, ?_, Nat.le_of_lt hlt, stop_le_of_mem_tokens h⟩, hlt⟩
    · show (Position.advance {} (letters ks)).line =
        lineAt text (Position.advance {} (letters ks)).offset
      rw [Position.advance_eq, lineAt, htake]
    · show (Position.advance {} (letters ks)).column =
        columnAt text (Position.advance {} (letters ks)).offset
      rw [Position.advance_eq, columnAt, htake]

theorem offset_le_of_mem_located {p : Position} {ls : List (TokenKind × List Char)} {t : Token}
    (h : t ∈ located p ls) : p.offset ≤ t.start := by
  induction ls generalizing p with
  | nil => cases h
  | cons l ls ih =>
    obtain ⟨kind, cs⟩ := l
    rcases List.mem_cons.1 h with rfl | h
    · exact Nat.le_refl _
    · have hstart := ih h
      rw [Position.offset_advance] at hstart
      exact Nat.le_trans (Nat.le_add_right _ _) hstart

theorem pairwise_located (p : Position) (ls : List (TokenKind × List Char)) :
    (located p ls).Pairwise (·.stop ≤ ·.start) := by
  induction ls generalizing p with
  | nil => exact .nil
  | cons l ls ih => exact .cons (fun _ h => offset_le_of_mem_located h) (ih _)

/-! ### Cursors over a text -/

namespace Cursor

/-- Where the most recently consumed token ends. -/
def past (c : Cursor) : Nat := (c.previous.map (·.stop)).getD 0

/-- Where the next token begins. -/
def coming (c : Cursor) : Nat := c.current.start

structure Over (text : String) (c : Cursor) : Prop where
  hidden : c.triviaVisible = false
  stands : ∀ i, (c.tokenAt i).StandsIn text
  solid : ∀ {i}, i < c.front.size → (c.tokenAt i).start < (c.tokenAt i).stop
  ordered : ∀ {i j}, i < j → (c.tokenAt i).stop ≤ (c.tokenAt j).start

theorem over_of_front {c : Cursor} (hfront : c.front.toList = tokens hashComments text)
    (hfinish : c.finish = Rulebook.finish text) (hhidden : c.triviaVisible = false) :
    c.Over text := by
  have hlast : c.last = Token.endOfInput (Rulebook.finish text) := congrArg Token.endOfInput hfinish
  have hstop : c.last.start = text.length := by
    rw [hlast]
    show (Position.advance {} text.toList).offset = text.length
    rw [Position.advance_eq, String.length_toList]
  have hget : ∀ {i}, (h : i < c.front.size) → c.tokenAt i = c.front[i] := fun {i} h => by
    simp [tokenAt, Array.getD, h]
  have hmem : ∀ {i}, i < c.front.size → c.tokenAt i ∈ tokens hashComments text := fun {i} h => by
    rw [← hfront, hget h]
    exact Array.getElem_mem_toList h
  have hstands : ∀ i, (c.tokenAt i).StandsIn text := fun i => by
    by_cases hi : i < c.front.size
    · exact (standsIn_of_mem_tokens (hmem hi)).1
    · rw [tokenAt_of_le (Nat.le_of_not_lt hi), hlast]
      exact standsIn_finish text
  refine ⟨hhidden, hstands, fun h => (standsIn_of_mem_tokens (hmem h)).2, fun {i j} hij => ?_⟩
  by_cases hj : j < c.front.size
  · have hpairs : c.front.toList.Pairwise (·.stop ≤ ·.start) := hfront ▸ pairwise_located _ _
    rw [hget (Nat.lt_trans hij hj), hget hj]
    exact List.pairwise_iff_getElem.1 hpairs i j _ _ hij
  · rw [tokenAt_of_le (Nat.le_of_not_lt hj), hstop]
    exact (hstands i).stop_le

theorem over_ofTokens (hashComments : Bool) (text : String) :
    (Cursor.ofTokens (scan text hashComments) text).Over text := by
  rw [ofTokens_eq]
  exact over_of_front rfl rfl rfl

theorem skipTrivia_mono (front : Array Token) {i j : Nat} (h : i ≤ j) :
    skipTrivia front i ≤ skipTrivia front j := by
  have hend : front.size < j → skipTrivia front j = front.size := fun hj => by
    rw [skipTrivia, dif_neg (Nat.not_lt.2 (Nat.le_of_lt hj))]
  fun_induction skipTrivia front i with
  | case1 i hi ht ih =>
    rcases Nat.eq_or_lt_of_le h with rfl | hlt
    · have hstep : skipTrivia front i = skipTrivia front (i + 1) := by
        rw [skipTrivia, dif_pos hi, if_pos ht]
      exact Nat.le_of_eq hstep.symm
    · exact ih hlt
  | case2 i hi ht =>
    by_cases hj : j ≤ front.size
    · exact Nat.le_trans h (le_skipTrivia hj)
    · rw [hend (Nat.lt_of_not_le hj)]
      exact Nat.le_of_lt hi
  | case3 i hi => rw [skipTrivia, dif_neg (fun hj => hi (Nat.lt_of_le_of_lt h hj))]

theorem lastBefore_rewind (c : Cursor) (i n : Nat) :
    (c.rewind i).lastBefore n = c.lastBefore n := by
  induction n with
  | zero => rfl
  | succ n ih => rw [lastBefore, lastBefore, ih]; rfl

namespace Over

variable {c d : Cursor}

theorem rewind (h : c.Over text) (i : Nat) : (c.rewind i).Over text :=
  ⟨h.hidden, h.stands, h.solid, h.ordered⟩

theorem current (h : c.Over text) : c.current.StandsIn text := h.stands _

theorem exists_of_lastBefore {t : Token} {n : Nat} (ht : c.lastBefore n = some t) :
    ∃ i < n, t = c.tokenAt i := by
  induction n with
  | zero => cases ht
  | succ n ih =>
    rw [lastBefore] at ht
    split at ht
    · obtain ⟨i, hi, rfl⟩ := ih ht
      exact ⟨i, Nat.lt_succ_of_lt hi, rfl⟩
    · cases ht
      exact ⟨n, Nat.lt_succ_self n, rfl⟩

theorem stop_le_lastBefore (h : c.Over text) {i n : Nat} (hi : i < n)
    (ht : (c.tokenAt i).isTrivia = false) :
    (c.tokenAt i).stop ≤ ((c.lastBefore n).map (·.stop)).getD 0 := by
  induction n with
  | zero => exact absurd hi (Nat.not_lt_zero i)
  | succ n ih =>
    rw [lastBefore]
    rcases Nat.eq_or_lt_of_le (Nat.le_of_lt_succ hi) with rfl | hlt
    · rw [ht]
      exact Nat.le_refl _
    · split
      · exact ih hlt
      · exact Nat.le_trans (h.ordered hlt) (h.stands n).start_le

theorem past_le_coming (h : c.Over text) : c.past ≤ c.coming := by
  unfold past previous
  cases ht : c.lastBefore c.index with
  | none => exact Nat.zero_le _
  | some t =>
    obtain ⟨i, hi, rfl⟩ := exists_of_lastBefore ht
    by_cases hle : c.index ≤ c.front.size
    · exact h.ordered (Nat.lt_of_lt_of_le hi (le_seek hle))
    · have hseek := seek_of_le (Nat.le_of_lt (Nat.lt_of_not_le hle))
      have hend : c.coming = (c.tokenAt (i + c.front.size + 1)).start := by
        rw [coming, Cursor.current, hseek, tokenAt_of_le (Nat.le_refl _), tokenAt_of_le (by omega)]
      rw [hend]
      exact h.ordered (by omega)

theorem past_le (h : c.Over text) : c.past ≤ text.length :=
  Nat.le_trans h.past_le_coming (Nat.le_trans h.current.start_le h.current.stop_le)

theorem coming_mono (h : c.Over text) {j : Nat} (hj : c.index ≤ j) :
    c.coming ≤ (c.rewind j).coming := by
  have hseek : c.seek c.index ≤ c.seek j := by
    rw [seek_of_hidden h.hidden, seek_of_hidden h.hidden]
    exact skipTrivia_mono c.front hj
  show (c.tokenAt (c.seek c.index)).start ≤ (c.tokenAt (c.seek j)).start
  rcases Nat.eq_or_lt_of_le hseek with heq | hlt
  · rw [heq]
  · exact Nat.le_trans (h.stands _).start_le (h.ordered hlt)

theorem past_mono (h : c.Over text) {j : Nat} (hj : c.index ≤ j) : c.past ≤ (c.rewind j).past := by
  have hnot : ∀ t, c.lastBefore c.index = some t → t.isTrivia = false := fun t ht =>
    previous_not_trivia (c := c) ht
  unfold past previous
  rw [lastBefore_rewind]
  cases ht : c.lastBefore c.index with
  | none => exact Nat.zero_le _
  | some t =>
    have htrivia := hnot t ht
    obtain ⟨i, hi, rfl⟩ := exists_of_lastBefore ht
    exact h.stop_le_lastBefore (Nat.lt_of_lt_of_le hi hj) htrivia

/-- Where a token has been taken, the cursor has passed the one that was next. -/
theorem stop_le_past (h : c.Over text) {j : Nat}
    (hlt : (c.rewind j).ahead.length < c.ahead.length) : c.current.stop ≤ (c.rewind j).past := by
  have hi : c.seek c.index < j := by
    refine Nat.lt_of_not_le fun hle => ?_
    have hahead : c.ahead = (c.rewind (c.seek c.index)).ahead :=
      (visible_seek h.hidden c.index).symm
    have hsuffix := length_ahead_le (c := c.rewind j) (d := c.rewind (c.seek c.index)) rfl hle
    rw [← hahead] at hsuffix
    exact Nat.lt_irrefl _ (Nat.lt_of_lt_of_le hlt hsuffix)
  unfold past previous
  rw [lastBefore_rewind]
  exact h.stop_le_lastBefore hi (current_not_trivia h.hidden)

theorem coming_lt_past (h : c.Over text) {j : Nat}
    (hlt : (c.rewind j).ahead.length < c.ahead.length) : c.coming < (c.rewind j).past := by
  have hseek : c.seek c.index < c.front.size := by
    refine Nat.lt_of_not_le fun hle => ?_
    have hnil : c.ahead = [] := by
      rw [ahead, rest, ← visible_seek h.hidden, List.drop_eq_nil_of_le (by simpa using hle)]
      rfl
    rw [hnil] at hlt
    exact Nat.not_lt_zero _ hlt
  exact Nat.lt_of_lt_of_le (h.solid hseek) (h.stop_le_past hlt)

end Over

end Cursor

end Rulebook
