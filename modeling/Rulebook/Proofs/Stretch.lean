import Rulebook.Proofs.Ahead

/-!
# Stretches of tokens

A stretch is what lies between two places of a cursor, trivia included. Its text is that of its
tokens one after the other; in a cursor over a scanned text that is the source between the start of
its first token and the end of its last.
-/

namespace Rulebook

def spell : List Token → String
  | [] => ""
  | t :: ts => t.text ++ spell ts

@[simp] theorem spell_nil : spell [] = "" := rfl

@[simp] theorem spell_cons (t : Token) (ts : List Token) : spell (t :: ts) = t.text ++ spell ts :=
  rfl

theorem spell_append (ts us : List Token) : spell (ts ++ us) = spell ts ++ spell us := by
  induction ts with
  | nil => simp
  | cons t ts ih => rw [List.cons_append, spell_cons, spell_cons, ih, String.append_assoc]

/-! ### Cuts at visible tokens -/

theorem cut_unique {x x' r r' : List Token} {a a' : Token} (ha : a.isTrivia = false)
    (ha' : a'.isTrivia = false) (h : x ++ a :: r = x' ++ a' :: r')
    (hn : (visible x).length = (visible x').length) : x = x' ∧ a = a' ∧ r = r' := by
  induction x generalizing x' with
  | nil =>
    cases x' with
    | nil =>
      rw [List.nil_append, List.nil_append, List.cons.injEq] at h
      exact ⟨rfl, h⟩
    | cons t x' =>
      rw [List.nil_append, List.cons_append, List.cons.injEq] at h
      rw [← h.1, visible_cons_of_not_trivia ha] at hn
      simp at hn
  | cons t x ih =>
    cases x' with
    | nil =>
      rw [List.nil_append, List.cons_append, List.cons.injEq] at h
      rw [h.1, visible_cons_of_not_trivia ha'] at hn
      simp at hn
    | cons t' x' =>
      rw [List.cons_append, List.cons_append, List.cons.injEq] at h
      obtain ⟨rfl, h⟩ := h
      have hn' : (visible x).length = (visible x').length := by
        cases ht : t.isTrivia with
        | true => rwa [visible_cons_of_trivia ht, visible_cons_of_trivia ht] at hn
        | false =>
          rw [visible_cons_of_not_trivia ht, visible_cons_of_not_trivia ht] at hn
          simpa using hn
      obtain ⟨rfl, hrest⟩ := ih h hn'
      exact ⟨rfl, hrest⟩

theorem visible_reverse (ts : List Token) : visible ts.reverse = (visible ts).reverse :=
  List.filter_reverse ..

theorem exists_first_visible {ts : List Token} (h : visible ts ≠ []) :
    ∃ before a after, ts = before ++ a :: after ∧ visible before = [] ∧ a.isTrivia = false := by
  induction ts with
  | nil => exact absurd rfl h
  | cons t ts ih =>
    cases ht : t.isTrivia with
    | false => exact ⟨[], t, ts, rfl, rfl, ht⟩
    | true =>
      rw [visible_cons_of_trivia ht] at h
      obtain ⟨before, a, after, rfl, hbefore, ha⟩ := ih h
      exact ⟨t :: before, a, after, rfl, by rw [visible_cons_of_trivia ht, hbefore], ha⟩

theorem exists_last_visible {ts : List Token} (h : visible ts ≠ []) :
    ∃ before a after, ts = before ++ a :: after ∧ visible after = [] ∧ a.isTrivia = false := by
  have hr : visible ts.reverse ≠ [] := by rw [visible_reverse]; simpa using h
  obtain ⟨before, a, after, heq, hbefore, ha⟩ := exists_first_visible hr
  refine ⟨after.reverse, a, before.reverse, ?_, ?_, ha⟩
  · rw [← List.reverse_reverse ts, heq]; simp
  · rw [visible_reverse, hbefore, List.reverse_nil]

theorem exists_trimmed {ts : List Token} (h : visible ts ≠ []) :
    ∃ before x after, ts = before ++ (x ++ after) ∧ visible before = [] ∧ visible after = [] ∧
      x.head? = (visible ts).head? ∧ x.getLast? = (visible ts).getLast? := by
  obtain ⟨before, a, rest, rfl, hbefore, ha⟩ := exists_first_visible h
  have hvisible : visible (before ++ a :: rest) = a :: visible rest := by
    rw [visible_append, hbefore, List.nil_append, visible_cons_of_not_trivia ha]
  rw [hvisible]
  by_cases hrest : visible rest = []
  · exact ⟨before, [a], rest, rfl, hbefore, hrest, rfl, by rw [hrest]⟩
  · obtain ⟨mid, b, after, rfl, hafter, hb⟩ := exists_last_visible hrest
    refine ⟨before, a :: (mid ++ [b]), after, by simp, hbefore, hafter, rfl, ?_⟩
    have hmid : visible (mid ++ b :: after) = visible mid ++ [b] := by
      rw [visible_append, visible_cons_of_not_trivia hb, hafter]
    rw [hmid, ← List.cons_append, ← List.cons_append, List.getLast?_concat, List.getLast?_concat]

namespace Cursor

/-! ### The token before -/

theorem previous_eq {c : Cursor} (h : c.index ≤ c.front.size) :
    c.previous = (visible (c.front.toList.take c.index)).getLast? := by
  unfold previous
  generalize hi : c.index = i at h
  clear hi
  induction i with
  | zero => simp [lastBefore]
  | succ i ih =>
    have hlt : i < c.front.size := h
    have htoken : c.tokenAt i = c.front[i] := by simp [tokenAt, Array.getD, hlt]
    have htake : c.front.toList.take (i + 1) = c.front.toList.take i ++ [c.front[i]] := by
      rw [List.take_add_one, List.getElem?_eq_getElem (by simpa using hlt)]
      rfl
    rw [lastBefore, htoken, htake, visible_append]
    cases ht : c.front[i].isTrivia with
    | true =>
      rw [visible_cons_of_trivia ht, visible_nil, List.append_nil, if_pos rfl]
      exact ih (by omega)
    | false =>
      rw [visible_cons_of_not_trivia ht, visible_nil, List.getLast?_concat]
      exact if_neg Bool.false_ne_true

theorem previous_not_trivia {c : Cursor} {t : Token} (h : c.previous = some t) :
    t.isTrivia = false := by
  have hlast : ∀ i, c.lastBefore i = some t → t.isTrivia = false := by
    intro i
    induction i with
    | zero => exact fun h => by cases h
    | succ i ih =>
      intro h
      rw [lastBefore] at h
      split at h
      · exact ih h
      · next ht =>
        cases h
        exact Bool.eq_false_iff.2 ht
  exact hlast c.index h

theorem previous_mem {c : Cursor} (h : c.index ≤ c.front.size) {t : Token}
    (ht : c.previous = some t) : t ∈ c.front.toList := by
  rw [previous_eq h] at ht
  exact List.mem_of_mem_take (List.mem_filter.1 (List.mem_of_getLast? ht)).1

theorem previous_of_rest {c : Cursor} {x r : List Token} {a : Token} (h : c.rest = x ++ a :: r)
    (ha : a.isTrivia = false) : (c.rewind (c.index + (x.length + 1))).previous = some a := by
  have hat : c.tokenAt (c.index + x.length) = a := by
    have hget : c.front.toList[c.index + x.length]? = some a := by
      have hdrop : (c.front.toList.drop c.index)[x.length]? = some a := by
        rw [show c.front.toList.drop c.index = x ++ a :: r from h]; simp
      rwa [List.getElem?_drop] at hdrop
    simp only [tokenAt, Array.getD_eq_getD_getElem?, ← Array.getElem?_toList, hget,
      Option.getD_some]
  show lastBefore (c.rewind _) (c.index + x.length + 1) = some a
  rw [lastBefore]
  show (if (c.tokenAt (c.index + x.length)).isTrivia = true then _ else some (c.tokenAt _)) = _
  rw [hat, if_neg (by simp [ha])]

theorem rest_moved {c : Cursor} {x r : List Token} (h : c.rest = x ++ r) :
    (c.rewind (c.index + x.length)).rest = r := by
  show c.front.toList.drop (c.index + x.length) = r
  rw [← List.drop_drop, show c.front.toList.drop c.index = x ++ r from h, List.drop_left]

theorem le_size_of_rest {c : Cursor} {x r : List Token} (h : c.rest = x ++ r)
    (hc : c.index ≤ c.front.size) : c.index + x.length ≤ c.front.size := by
  have hlength : c.front.size - c.index = x.length + r.length := by
    simpa [rest] using congrArg List.length h
  exact Nat.add_le_of_le_sub' hc (hlength ▸ Nat.le_add_right _ _)

theorem rest_of_current {c : Cursor} (hk : c.current.kind ≠ .endOfInput) :
    ∃ trivia, visible trivia = [] ∧ c.rest = trivia ++ c.current :: c.consume.rest ∧
      c.consume = c.rewind (c.index + (trivia.length + 1)) := by
  obtain ⟨trivia, htrivia, heq⟩ := rest_consume hk
  refine ⟨trivia, visible_eq_nil htrivia, heq, ?_⟩
  have hlt := seek_lt_of_current hk
  have hi : c.index ≤ c.front.size := by
    refine Nat.le_of_lt (Nat.lt_of_not_le fun hle => ?_)
    rw [seek_of_le hle] at hlt
    exact Nat.lt_irrefl _ hlt
  have hle := le_seek hi
  have hlength : c.front.size - c.index =
      trivia.length + (c.front.size - (c.seek c.index + 1) + 1) := by
    simpa [consume_eq hk, rest] using congrArg List.length heq
  have hindex : c.seek c.index + 1 = c.index + (trivia.length + 1) := by omega
  rw [consume_eq hk, hindex]
  rfl

/-- A token that was just consumed is the one before. -/
theorem previous_consume {c : Cursor} (hhidden : c.triviaVisible = false)
    (hk : c.current.kind ≠ .endOfInput) : c.consume.previous = some c.current := by
  obtain ⟨trivia, -, hrest, hconsume⟩ := rest_of_current hk
  rw [hconsume]
  exact previous_of_rest hrest (current_not_trivia hhidden)

theorem exists_stretch {c : Cursor} {j : Nat} (hc : c.triviaVisible = false) (hj : c.index ≤ j)
    (hsize : j ≤ c.front.size) (hlt : (c.rewind j).ahead.length < c.ahead.length) :
    ∃ before x after, c.rest = before ++ (x ++ (after ++ (c.rewind j).rest)) ∧
      visible before = [] ∧ visible after = [] ∧ x.head? = some c.current ∧
      x.getLast? = (c.rewind j).previous ∧
      (visible x).length + (c.rewind j).ahead.length = c.ahead.length := by
  let passed := (c.front.toList.drop c.index).take (j - c.index)
  have hrest : c.rest = passed ++ (c.rewind j).rest := by
    show c.front.toList.drop c.index = passed ++ c.front.toList.drop j
    have hdrop : c.front.toList.drop j = (c.front.toList.drop c.index).drop (j - c.index) := by
      rw [List.drop_drop, show c.index + (j - c.index) = j by omega]
    rw [hdrop, List.take_append_drop]
  have hahead : c.ahead = visible passed ++ (c.rewind j).ahead := by
    rw [ahead, hrest, visible_append]; rfl
  have hne : visible passed ≠ [] := by
    intro hnil
    rw [hahead, hnil, List.nil_append] at hlt
    exact Nat.lt_irrefl _ hlt
  obtain ⟨before, x, after, hpassed, hbefore, hafter, hhead, hlast⟩ := exists_trimmed hne
  refine ⟨before, x, after, ?_, hbefore, hafter, ?_, ?_, ?_⟩
  · rw [hrest, hpassed]; simp
  · rw [hhead, current_of_hidden hc, hahead]
    cases hv : visible passed with
    | nil => exact absurd hv hne
    | cons t ts => rfl
  · have htake : c.front.toList.take j = c.front.toList.take c.index ++ passed := by
      have hsum : j = c.index + (j - c.index) := by omega
      exact (congrArg (c.front.toList.take ·) hsum).trans List.take_add
    rw [previous_eq (c := c.rewind j) hsize, hlast]
    show _ = (visible (c.front.toList.take j)).getLast?
    rw [htake, visible_append, List.getLast?_append]
    cases hv : (visible passed).getLast? with
    | none => exact absurd (List.getLast?_eq_none_iff.1 hv) hne
    | some t => rfl
  · have hx : visible x = visible passed := by
      rw [hpassed, visible_append, visible_append, hbefore, hafter, List.nil_append,
        List.append_nil]
    rw [hx, hahead, List.length_append]

/-! ### Cursors over a source -/

/-- The tokens of a cursor are cut out of its source, its symbols are spelled as they are, and the
mark of the end is not among them. -/
structure Faithful (c : Cursor) : Prop where
  plain : ∀ t ∈ c.front.toList, t.kind ≠ .endOfInput
  symbol : ∀ t ∈ c.front.toList, ∀ k, t.kind = .symbol k → t.text = k.text
  stretch : ∀ {x y z : List Token} {a b : Token}, c.front.toList = x ++ (y ++ z) →
    y.head? = some a → y.getLast? = some b →
    a.start ≤ b.stop ∧ c.text a.start b.stop = spell y

theorem Faithful.rewind {c : Cursor} (h : c.Faithful) (i : Nat) : (c.rewind i).Faithful :=
  ⟨h.plain, h.symbol, h.stretch⟩

end Cursor

end Rulebook
