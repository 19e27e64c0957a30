import Rulebook.Parser.Condition
import Rulebook.Proofs.ScannedText

/-!
# Outlines of conditions

The outline of an `and` or `or` is what is written in it outside of the conditions that it joins:
its connectives and parentheses, and the semicolons between its operands. An `and` or `or` among the
operands has its outline in that of the whole.
-/

namespace Rulebook

open Rulebook.Parser

/-! ### Parentheses -/

def nest (open_ : Nat) (kind : TokenKind) : Option Nat :=
  if kind = .symbol .lparen then some (open_ + 1)
  else if kind = .symbol .rparen then if open_ = 0 then none else some (open_ - 1)
  else some open_

/-- All parentheses that are opened are closed, and no others. -/
def Paired (kinds : List TokenKind) : Prop := kinds.foldlM nest 0 = some 0

instance (kinds : List TokenKind) : Decidable (Paired kinds) := inferInstanceAs (Decidable (_ = _))

/-- A connective stands outside of all parentheses. -/
def Exposed (kinds : List TokenKind) : Prop :=
  ∃ i : Fin kinds.length, kinds[i] ∈ orKinds ++ andKinds ∧ Paired (kinds.take i)

instance (kinds : List TokenKind) : Decidable (Exposed kinds) :=
  inferInstanceAs (Decidable (∃ _, _))

section Paired

variable {kinds ls ms : List TokenKind} {kind : TokenKind} {d e n : Nat}

theorem nest_add (h : nest d kind = some e) (n : Nat) : nest (d + n) kind = some (e + n) := by
  unfold nest at h ⊢
  by_cases hl : kind = .symbol .lparen
  · rw [if_pos hl] at h ⊢
    cases h
    rw [Nat.add_right_comm]
  rw [if_neg hl] at h ⊢
  by_cases hr : kind = .symbol .rparen
  · rw [if_pos hr] at h ⊢
    by_cases hd : d = 0
    · rw [if_pos hd] at h
      cases h
    · rw [if_neg hd] at h
      cases h
      rw [if_neg (by omega)]
      congr 1
      omega
  · rw [if_neg hr] at h ⊢
    cases h
    rfl

/-- What can be closed within fewer parentheses can be closed within more. -/
theorem foldlM_nest_add (h : kinds.foldlM nest d = some e) (n : Nat) :
    kinds.foldlM nest (d + n) = some (e + n) := by
  induction kinds generalizing d with
  | nil =>
    cases h
    rfl
  | cons k ks ih =>
    rw [List.foldlM_cons] at h ⊢
    obtain ⟨d', hd', h⟩ := Option.bind_eq_some_iff.1 h
    exact Option.bind_eq_some_iff.2 ⟨d' + n, nest_add hd' n, ih h⟩

theorem Paired.foldlM (h : Paired ls) (d : Nat) : ls.foldlM nest d = some d := by
  have hadd := foldlM_nest_add h d
  rwa [Nat.zero_add] at hadd

theorem paired_nil : Paired [] := rfl

theorem foldlM_append_eq : (ls ++ ms).foldlM nest d = some e ↔
    ∃ n, ls.foldlM nest d = some n ∧ ms.foldlM nest n = some e := by
  rw [List.foldlM_append]
  exact Option.bind_eq_some_iff

theorem Paired.append (h : Paired ls) (h' : Paired ms) : Paired (ls ++ ms) :=
  foldlM_append_eq.2 ⟨0, h, h'⟩

theorem Paired.append_iff (h : Paired ls) : Paired (ls ++ ms) ↔ Paired ms := by
  refine ⟨fun h' => ?_, h.append⟩
  obtain ⟨n, hn, hms⟩ := foldlM_append_eq.1 h'
  obtain rfl := Option.some.inj (h.symm.trans hn)
  exact hms

theorem nest_of_ne (h : kind ≠ .symbol .lparen) (h' : kind ≠ .symbol .rparen) (d : Nat) :
    nest d kind = some d := by
  rw [nest, if_neg h, if_neg h']

theorem paired_of_no_parens (h : ∀ k ∈ ls, k ≠ .symbol .lparen ∧ k ≠ .symbol .rparen) :
    Paired ls := by
  induction ls with
  | nil => rfl
  | cons k ks ih =>
    obtain ⟨hk, hks⟩ := List.forall_mem_cons.1 h
    rw [Paired, List.foldlM_cons, nest_of_ne hk.1 hk.2]
    exact ih hks

theorem Paired.enclose (h : Paired ls) : Paired (.symbol .lparen :: (ls ++ [.symbol .rparen])) := by
  rw [Paired, List.foldlM_cons]
  refine Option.bind_eq_some_iff.2 ⟨1, rfl, foldlM_append_eq.2 ⟨1, h.foldlM 1, rfl⟩⟩

/-- Where nothing is closed, as many parentheses are open as were opened. -/
theorem foldlM_of_no_rparen (h : .symbol .rparen ∉ ls) (d : Nat) :
    ls.foldlM nest d = some (d + ls.count (.symbol .lparen)) := by
  induction ls generalizing d with
  | nil => rfl
  | cons k ks ih =>
    rw [List.mem_cons, not_or] at h
    rw [List.foldlM_cons, nest]
    by_cases hk : k = .symbol .lparen
    · rw [if_pos hk, hk, List.count_cons_self]
      refine (ih h.2 (d + 1)).trans ?_
      congr 1
      omega
    · rw [if_neg hk, if_neg fun hr => h.1 hr.symm, List.count_cons_of_ne (by simpa using hk)]
      exact ih h.2 d

/-- Where none is open and none opened, none can be closed. -/
theorem no_rparen_of_foldlM (h : .symbol .lparen ∉ ls) (hls : ls.foldlM nest 0 = some e) :
    .symbol .rparen ∉ ls := by
  induction ls with
  | nil => exact List.not_mem_nil
  | cons k ks ih =>
    rw [List.mem_cons, not_or] at h
    rw [List.foldlM_cons, nest, if_neg fun hk => h.1 hk.symm] at hls
    by_cases hk : k = .symbol .rparen
    · rw [if_pos hk, if_pos rfl] at hls
      cases hls
    · rw [if_neg hk] at hls
      rw [List.mem_cons, not_or]
      exact ⟨fun heq => hk heq.symm, ih h.2 hls⟩

end Paired

section Exposed

variable {kinds ls ms : List TokenKind}

theorem exposed_iff : Exposed kinds ↔
    ∃ ls k ms, kinds = ls ++ k :: ms ∧ k ∈ orKinds ++ andKinds ∧ Paired ls := by
  constructor
  · rintro ⟨i, hk, hpaired⟩
    refine ⟨kinds.take i, kinds[i], kinds.drop (i + 1), ?_, hk, hpaired⟩
    exact (kinds.take_append_drop i).symm.trans
      (congrArg (kinds.take i ++ ·) (List.drop_eq_getElem_cons i.isLt))
  · rintro ⟨ls, k, ms, rfl, hk, hpaired⟩
    refine ⟨⟨ls.length, by simp⟩, ?_, ?_⟩
    · simpa using hk
    · simpa using hpaired

/-- Of two paired stretches one exposes a connective if both together do. -/
theorem Exposed.of_append (hls : Paired ls) (h : Exposed (ls ++ ms)) : Exposed ls ∨ Exposed ms := by
  obtain ⟨xs, k, ys, hsplit, hk, hxs⟩ := exposed_iff.1 h
  rcases List.append_eq_append_iff.1 hsplit with ⟨zs, rfl, hms⟩ | ⟨zs, rfl, hzs⟩
  · exact .inr (exposed_iff.2 ⟨zs, k, ys, hms, hk, (hls.append_iff).1 hxs⟩)
  · cases zs with
    | nil =>
      rw [List.append_nil] at hls
      exact .inr (exposed_iff.2 ⟨[], k, ys, hzs.symm, hk, paired_nil⟩)
    | cons z zs =>
      rw [List.cons_append, List.cons.injEq] at hzs
      obtain ⟨rfl, -⟩ := hzs
      exact .inl (exposed_iff.2 ⟨xs, k, zs, rfl, hk, hxs⟩)

theorem not_exposed_of_no_connective (h : ∀ k ∈ kinds, k ∉ orKinds ++ andKinds) :
    ¬Exposed kinds := by
  rintro ⟨i, hk, -⟩
  exact h _ (List.getElem_mem i.isLt) hk

theorem not_exposed_enclosed (h : Paired ls) :
    ¬Exposed (.symbol .lparen :: (ls ++ [.symbol .rparen])) := by
  intro hexposed
  obtain ⟨xs, k, ys, hsplit, hk, hxs⟩ := exposed_iff.1 hexposed
  cases xs with
  | nil =>
    rw [List.nil_append, List.cons.injEq] at hsplit
    rw [← hsplit.1] at hk
    exact absurd hk (by decide)
  | cons x xs =>
    rw [List.cons_append, List.cons.injEq] at hsplit
    obtain ⟨rfl, hsplit⟩ := hsplit
    have hfold : xs.foldlM nest 1 = some 0 := hxs
    rcases List.append_eq_append_iff.1 hsplit with ⟨zs, rfl, hzs⟩ | ⟨zs, rfl, -⟩
    · -- behind the closing parenthesis no connective is left
      cases zs with
      | nil =>
        rw [List.nil_append, List.cons.injEq] at hzs
        rw [← hzs.1] at hk
        exact absurd hk (by decide)
      | cons z zs => simp at hzs
    · -- the parentheses that are open at the connective are those before and the enclosing one
      obtain ⟨n, hn, -⟩ := foldlM_append_eq.1 h
      rw [foldlM_nest_add hn 1] at hfold
      cases hfold

end Exposed

/-! ### The outline -/

def kindsBetween (hashComments : Bool) (text : String) (a b : Nat) : List TokenKind :=
  ((visible (tokens hashComments text)).filter fun t => decide (a ≤ t.start ∧ t.stop ≤ b)).map
    (·.kind)

section Outline

variable (gap : Nat → Nat → List TokenKind)

mutual

/-- What is written in a condition outside of those that it joins, given what is written between two
offsets. -/
def Condition.outline : Condition → List TokenKind
  | .group kind _ operands => if kind = .and ∨ kind = .or then Condition.listOutline
    operands else []
  | .eval .. => []
  | .pattern _ => []

def Condition.listOutline : List Condition → List TokenKind
  | [] => []
  | c :: cs =>
    c.outline ++ match cs with
      | [] => []
      | c' :: cs' => gap (c.location.stop.getD 0) (c'.location.start.getD 0) ++
          Condition.listOutline (c' :: cs')

end

end Outline

end Rulebook
