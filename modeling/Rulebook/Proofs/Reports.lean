import Rulebook.Collector

/-!
# Diagnostics that grow

What reporting does to the diagnostics of a parse: those recorded stay, in their order, the count of
those held back does not fall, and nothing is held back unless something was recorded or the cap
admits nothing.
-/

namespace Rulebook

namespace Collector

/-- If errors are held back then some error was recorded, unless the cap admits none. -/
def Honest (c : Collector) : Prop :=
  c.maxErrors ≠ some 0 → c.recovering = true ∨ 0 < c.suppressed → c.errors ≠ []

/-- How many errors were reported, recorded or not. -/
def received (c : Collector) : Nat := c.errors.length + c.suppressed

theorem received_add (c : Collector) (kind : ErrorKind) (message : String) (token : Option Token)
    (ruleName : Option String) : (c.add kind message token ruleName).received = c.received + 1 := by
  unfold add received
  split
  · simp only; omega
  · simp only [List.length_append, List.length_singleton]; omega

theorem received_report (c : Collector) (e : ParseError) (ruleName : Option String) :
    (c.report e ruleName).received = c.received + 1 := by
  unfold report
  split
  · simp only [received]; omega
  · rw [received_add]; rfl

theorem received_remark (c : Collector) (message : String) (token : Option Token)
    (ruleName : Option String) : (c.remark message token ruleName).received = c.received + 1 :=
  received_add ..

theorem recovering_add (c : Collector) (kind : ErrorKind) (message : String) (token : Option Token)
    (ruleName : Option String) : (c.add kind message token ruleName).recovering = c.recovering := by
  unfold add
  split <;> rfl

theorem recovering_report (c : Collector) (e : ParseError) (ruleName : Option String) :
    (c.report e ruleName).recovering = true := by
  unfold report
  split
  · assumption
  · exact recovering_add ..

theorem add_of_uncapped {c : Collector} (h : c.maxErrors = none) (kind : ErrorKind)
    (message : String) (token : Option Token) (ruleName : Option String) :
    c.add kind message token ruleName =
      { c with errors := c.errors ++ [.ofToken kind c.sourceName message token ruleName] } := by
  unfold Collector.add Collector.isFull
  rw [h]
  rfl

theorem report_of_uncapped {c : Collector} (h : c.maxErrors = none) (hr : c.recovering = false)
    (e : ParseError) (ruleName : Option String) :
    c.report e ruleName =
      { c with
        recovering := true
        errors := c.errors ++ [.ofToken e.kind c.sourceName e.message e.token? ruleName] } := by
  unfold Collector.report
  rw [hr, if_neg Bool.false_ne_true]
  exact add_of_uncapped (c := { c with recovering := true }) h _ _ _ _

/-- What the course of a parse does to its diagnostics. -/
structure Extends (c d : Collector) : Prop where
  sourceName : d.sourceName = c.sourceName
  maxErrors : d.maxErrors = c.maxErrors
  errors : c.errors <+: d.errors
  suppressed : c.suppressed ≤ d.suppressed
  honest : c.Honest → d.Honest

theorem Extends.refl (c : Collector) : c.Extends c :=
  ⟨rfl, rfl, List.prefix_rfl, Nat.le_refl _, id⟩

theorem Extends.trans {c d e : Collector} (h : c.Extends d) (h' : d.Extends e) : c.Extends e where
  sourceName := h'.sourceName.trans h.sourceName
  maxErrors := h'.maxErrors.trans h.maxErrors
  errors := h.errors.trans h'.errors
  suppressed := Nat.le_trans h.suppressed h'.suppressed
  honest hc := h'.honest (h.honest hc)

theorem Extends.errors_ne_nil {c d : Collector} (h : c.Extends d) (hc : c.errors ≠ []) :
    d.errors ≠ [] := by
  obtain ⟨added, heq⟩ := h.errors
  rw [← heq]
  simp [hc]

theorem Extends.received_le {c d : Collector} (h : c.Extends d) : c.received ≤ d.received :=
  Nat.add_le_add h.errors.length_le h.suppressed

theorem extends_tokenMatched (c : Collector) : c.Extends c.tokenMatched where
  sourceName := rfl
  maxErrors := rfl
  errors := List.prefix_rfl
  suppressed := Nat.le_refl _
  honest hc hcap hheld := by
    refine hc hcap ?_
    rcases hheld with hheld | hheld
    · exact absurd hheld Bool.false_ne_true
    · exact .inr hheld

theorem honest_add (c : Collector) (kind : ErrorKind) (message : String) (token : Option Token)
    (ruleName : Option String) : (c.add kind message token ruleName).Honest := by
  intro hcap _ hnil
  by_cases hfull : c.isFull = true
  · have heq : c.add kind message token ruleName = { c with suppressed := c.suppressed + 1 } :=
      if_pos hfull
    rw [heq] at hcap hnil
    simp only at hcap hnil
    unfold isFull at hfull
    split at hfull
    · exact absurd hfull Bool.false_ne_true
    · next n hn =>
      have hzero : n = 0 := by simpa [hnil] using hfull
      exact hcap (by rw [hn, hzero])
  · have heq : c.add kind message token ruleName =
        { c with errors := c.errors ++ [.ofToken kind c.sourceName message token ruleName] } :=
      if_neg hfull
    rw [heq] at hnil
    simp at hnil

theorem extends_add (c : Collector) (kind : ErrorKind) (message : String) (token : Option Token)
    (ruleName : Option String) : c.Extends (c.add kind message token ruleName) := by
  have hhonest := honest_add c kind message token ruleName
  unfold add at hhonest ⊢
  split at hhonest
  · next hfull =>
    rw [if_pos hfull]
    exact ⟨rfl, rfl, List.prefix_rfl, Nat.le_succ _, fun _ => hhonest⟩
  · next hfull =>
    rw [if_neg hfull]
    exact ⟨rfl, rfl, List.prefix_append .., Nat.le_refl _, fun _ => hhonest⟩

theorem extends_report (c : Collector) (e : ParseError) (ruleName : Option String) :
    c.Extends (c.report e ruleName) := by
  unfold report
  split
  · next hrec =>
    exact ⟨rfl, rfl, List.prefix_rfl, Nat.le_succ _, fun hc hcap _ => hc hcap (.inl hrec)⟩
  · have hadd := extends_add { c with recovering := true } e.kind e.message e.token? ruleName
    exact ⟨hadd.sourceName, hadd.maxErrors, hadd.errors, hadd.suppressed,
      fun _ => honest_add _ _ _ _ _⟩

/-- After a token that matched, an error is recorded unless the cap is reached. -/
theorem mem_report {c : Collector} (hc : c.recovering = false) (e : ParseError)
    (ruleName : Option String) : c.isFull = true ∨
      Diagnostic.ofToken e.kind c.sourceName e.message e.token? ruleName ∈
        (c.report e ruleName).errors := by
  refine Classical.or_iff_not_imp_left.2 fun hfull => ?_
  have hadded : c.report e ruleName = { c with
      recovering := true
      errors := c.errors ++ [.ofToken e.kind c.sourceName e.message e.token? ruleName] } := by
    unfold report add
    rw [if_neg (by rw [hc]; exact Bool.false_ne_true)]
    exact if_neg hfull
  rw [hadded]
  exact List.mem_append_right _ List.mem_cons_self

/-- A cap that is reached stays so. -/
theorem Extends.isFull {c d : Collector} (h : c.Extends d) (hc : c.isFull = true) :
    ∃ n, d.maxErrors = some n ∧ n ≤ d.errors.length := by
  unfold Collector.isFull at hc
  split at hc
  · exact absurd hc Bool.false_ne_true
  · next n hn =>
    exact ⟨n, h.maxErrors.trans hn, Nat.le_trans (of_decide_eq_true hc) h.errors.length_le⟩

theorem extends_remark (c : Collector) (message : String) (token : Option Token)
    (ruleName : Option String) : c.Extends (c.remark message token ruleName) :=
  extends_add ..

/-! ### Calls -/

/-- What a collector is told. -/
inductive Call where
  | report (e : ParseError) (ruleName : Option String)
  | remark (message : String) (token : Option Token) (ruleName : Option String)
  | tokenMatched
  deriving DecidableEq, Repr

namespace Call

def isReport : Call → Bool
  | report .. => true
  | _ => false

def isMatch : Call → Bool
  | tokenMatched => true
  | _ => false

/-- An error or a remark. -/
def isComplaint (call : Call) : Bool := !call.isMatch

end Call

def tell (c : Collector) : Call → Collector
  | .report e ruleName => c.report e ruleName
  | .remark message token ruleName => c.remark message token ruleName
  | .tokenMatched => c.tokenMatched

/-- The collector after calls in turn. -/
def told (c : Collector) (calls : List Call) : Collector := calls.foldl tell c

theorem told_append (c : Collector) (calls more : List Call) :
    c.told (calls ++ more) = (c.told calls).told more :=
  List.foldl_append

theorem exists_told_tell {c d : Collector} (h : ∃ calls, d = c.told calls) (call : Call) :
    ∃ calls, d.tell call = c.told calls := by
  obtain ⟨calls, rfl⟩ := h
  exact ⟨calls ++ [call], (told_append c calls [call]).symm⟩

theorem received_tell (c : Collector) (call : Call) :
    (c.tell call).received = c.received + [call].countP Call.isComplaint := by
  cases call with
  | report e ruleName => exact received_report ..
  | remark message token ruleName => exact received_remark ..
  | tokenMatched => rfl

theorem received_told (c : Collector) (calls : List Call) :
    (c.told calls).received = c.received + calls.countP Call.isComplaint := by
  induction calls generalizing c with
  | nil => rfl
  | cons call calls ih =>
    have hcons : call :: calls = [call] ++ calls := rfl
    show ((c.tell call).told calls).received = _
    rw [ih, received_tell, hcons, List.countP_append, Nat.add_assoc]

end Collector

end Rulebook
