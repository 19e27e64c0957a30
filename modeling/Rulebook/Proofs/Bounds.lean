import Rulebook.Proofs.Ahead
import Rulebook.Proofs.Composed

/-!
# The cursor stays within the tokens

No production moves the cursor beyond the mark of the end: consuming stops there, and a trial goes
back to a place where the cursor has been.
-/

namespace Rulebook

namespace Cursor

theorem index_consume_le {c : Cursor} (h : c.index ≤ c.front.size) :
    c.consume.index ≤ c.front.size := by
  by_cases hk : c.current.kind = .endOfInput
  · rw [consume_of_end hk]
    exact h
  · have hlt := seek_lt_of_current hk
    rw [consume_eq hk]
    show c.seek c.index + 1 ≤ c.front.size
    omega

theorem index_skipUntil_le (kinds : List TokenKind) {c : Cursor} (n : Nat)
    (h : c.index ≤ c.front.size) : (c.skipUntil kinds n).1.index ≤ c.front.size := by
  fun_induction skipUntil kinds c n with
  | case1 => exact h
  | case2 => exact h
  | case3 c n hend hkind ih =>
    rw [← front_consume c]
    exact ih (by rw [front_consume]; exact index_consume_le h)

/-- A cursor over given tokens that has not been moved beyond them. -/
structure Within (tokens : Array Token) (c : Cursor) : Prop where
  front : c.front = tokens
  index : c.index ≤ tokens.size

variable {tokens : Array Token} {c : Cursor}

theorem Within.consume (h : c.Within tokens) : c.consume.Within tokens where
  front := by rw [front_consume, h.front]
  index := by
    have hindex := h.index
    rw [← h.front] at hindex ⊢
    exact index_consume_le hindex

theorem Within.skipUntil (h : c.Within tokens) (kinds : List TokenKind) (n : Nat) :
    (c.skipUntil kinds n).1.Within tokens where
  front := by
    rw [(skipUntil_eq_rewind kinds c n).1]
    exact h.front
  index := by
    have hindex := h.index
    rw [← h.front] at hindex ⊢
    exact index_skipUntil_le kinds n hindex

end Cursor

namespace Parser

variable {α β : Type} {tokens : Array Token} {s t : State}

theorem within_popTrivia (h : s.cursor.Within tokens) :
    (after popTrivia s).cursor.Within tokens := by
  unfold after
  rw [popTrivia_eq]
  unfold Cursor.popTrivia?
  cases s.cursor.saved with
  | nil => exact h
  | cons visible saved => exact ⟨h.front, h.index⟩

theorem within_recovered (h : s.cursor.Within tokens) (kinds : List TokenKind) :
    (s.recovered kinds).cursor.Within tokens := by
  have hstart : s.recoveryStart.Within tokens := by
    unfold State.recoveryStart
    split
    · exact h.consume
    · exact h
  exact hstart.skipUntil kinds 0

theorem within_report (h : s.cursor.Within tokens) (e : ParseError) :
    (after (report e) s).cursor.Within tokens := by
  rw [after_of_ok (report_eq e s)]
  split <;> exact h

theorem within_remark (h : s.cursor.Within tokens) (message : String) (token : Token) :
    (after (remark message token) s).cursor.Within tokens := by
  rw [after_of_ok (remark_eq message token s)]
  split <;> exact h

theorem within_recover (h : s.cursor.Within tokens) (kinds : List TokenKind) :
    (after (recover kinds) s).cursor.Within tokens := by
  rw [after_of_ok (recover_eq kinds s)]
  exact within_recovered h kinds

theorem within_dropDeepStatement (h : s.cursor.Within tokens) :
    (after dropDeepStatement s).cursor.Within tokens := by
  let P (t : State) : Prop := t.cursor.Within tokens
  unfold dropDeepStatement
  refine after_bind (P := P) (p := modify _) ⟨h.front, h.index⟩ fun h => ?_
  refine after_bind (P := P) (p := current) h fun h => ?_
  refine after_bind (P := P) (p := get) h fun h => ?_
  refine after_bind (P := P) (p := note _) h fun h => ?_
  refine after_bind (P := P) (within_remark h _ _) fun h => ?_
  exact after_bind (P := P) (p := modify _) h fun h => within_recover h _

theorem within_invariant : StateInvariant fun s => s.cursor.Within tokens where
  advanced h := h.consume
  showing h := ⟨h.front, h.index⟩
  popTrivia := within_popTrivia
  relabelled _ _ h := h
  stacked _ h := h
  declared _ h := h
  report e h := within_report h e
  remark message token h := within_remark h message token
  recover e kinds h := after_bind (P := fun t => t.cursor.Within tokens) (within_report h e)
    fun h => within_recover h kinds
  dropDeepStatement := within_dropDeepStatement

theorem Composed.within {p : Parser α} (hp : Composed p) (h : s.cursor.Within tokens) :
    (after p s).cursor.Within tokens :=
  within_invariant.composed hp h

end Parser

end Rulebook
