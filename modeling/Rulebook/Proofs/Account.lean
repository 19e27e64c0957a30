import Rulebook.Proofs.Unread
import Mathlib.Data.List.DropRight
import Mathlib.Data.List.Induction
import Mathlib.Data.List.ReduceOption

/-!
# The account of a collector

A collector is told of recognition errors, of remarks and of tokens that match, in any order. What
it records is told by the calls alone: every remark, and every error that is the first one since the
latest match. A cap keeps the first ones of these. Whatever is not recorded is counted.
-/

namespace Rulebook

namespace Collector

/-! ### What is due -/

def reportedSinceMatch (calls : List Call) : Bool :=
  (calls.rtakeWhile fun call => !call.isMatch).any Call.isReport

/-- The diagnostic that is due for a call behind others: one for every remark, and for an error if
no other was reported since the latest match. -/
def Call.due? (sourceName : String) (before : List Call) : Call → Option Diagnostic
  | report e ruleName =>
    if reportedSinceMatch before then none
    else some (.ofToken e.kind sourceName e.message e.token? ruleName)
  | remark message token ruleName => some (.ofToken .general sourceName message token ruleName)
  | tokenMatched => none

def due (sourceName : String) (calls : List Call) : List Diagnostic :=
  (calls.mapIdx fun i call => call.due? sourceName (calls.take i)).reduceOption

theorem due_snoc (sourceName : String) (calls : List Call) (call : Call) :
    due sourceName (calls ++ [call]) =
      due sourceName calls ++ (call.due? sourceName calls).toList := by
  have hbefore : (calls.mapIdx fun i other => other.due? sourceName ((calls ++ [call]).take i)) =
      calls.mapIdx fun i other => other.due? sourceName (calls.take i) := by
    refine List.mapIdx_eq_mapIdx_iff.2 fun i hi => ?_
    rw [List.take_append_of_le_length (Nat.le_of_lt hi)]
  rw [due, List.mapIdx_concat, List.reduceOption_append, hbefore, List.take_left, due]
  cases call.due? sourceName calls <;> rfl

theorem reportedSinceMatch_snoc (calls : List Call) (call : Call) :
    reportedSinceMatch (calls ++ [call]) =
      (!call.isMatch && (call.isReport || reportedSinceMatch calls)) := by
  unfold reportedSinceMatch
  rw [List.rtakeWhile_concat]
  cases call <;> simp [Call.isMatch, Call.isReport, Bool.or_comm]

/-! ### One call -/

theorem extends_tell (c : Collector) (call : Call) : c.Extends (c.tell call) := by
  cases call with
  | report e ruleName => exact extends_report ..
  | remark message token ruleName => exact extends_remark ..
  | tokenMatched => exact extends_tokenMatched c

/-- A collector without a cap to which some calls were made: it holds what is due for them, and
recovers if an error was reported since the latest match. -/
structure Accounts (name : String) (calls : List Call) (c : Collector) : Prop where
  sourceName : c.sourceName = name
  uncapped : c.maxErrors = none
  recovering : c.recovering = reportedSinceMatch calls
  errors : c.errors = due name calls

theorem Accounts.tell {name : String} {calls : List Call} {c : Collector}
    (h : Accounts name calls c) (call : Call) : Accounts name (calls ++ [call]) (c.tell call) := by
  have hextends := extends_tell c call
  refine ⟨hextends.sourceName.trans h.sourceName, hextends.maxErrors.trans h.uncapped, ?_, ?_⟩
  · rw [reportedSinceMatch_snoc, ← h.recovering]
    cases call with
    | report e ruleName => exact recovering_report ..
    | remark message token ruleName => exact recovering_add ..
    | tokenMatched => rfl
  · rw [due_snoc, ← h.errors]
    cases call with
    | report e ruleName =>
      show (c.report e ruleName).errors = _
      unfold Call.due?
      rw [← h.recovering, ← h.sourceName]
      cases hr : c.recovering with
      | true =>
        unfold Collector.report
        rw [hr]
        exact (List.append_nil c.errors).symm
      | false =>
        rw [report_of_uncapped h.uncapped hr]
        rfl
    | remark message token ruleName =>
      show (c.add .general message token ruleName).errors = _
      rw [add_of_uncapped h.uncapped, ← h.sourceName]
      rfl
    | tokenMatched => exact (List.append_nil c.errors).symm

/-! ### Calls in turn -/

theorem extends_told (c : Collector) (calls : List Call) : c.Extends (c.told calls) := by
  induction calls generalizing c with
  | nil => exact .refl c
  | cons call calls ih => exact (extends_tell c call).trans (ih (c.tell call))

theorem accounts_told (sourceName : String) (calls : List Call) :
    Accounts sourceName calls (told { sourceName } calls) := by
  induction calls using List.reverseRecOn with
  | nil => exact ⟨rfl, rfl, rfl, rfl⟩
  | append_singleton calls call ih =>
    rw [told_append]
    exact ih.tell call

theorem Congruence.told {R : Collector → Collector → Prop} (hR : Congruence R) {c d : Collector}
    (h : R c d) (calls : List Call) : R (c.told calls) (d.told calls) := by
  induction calls generalizing c d with
  | nil => exact h
  | cons call calls ih =>
    refine ih ?_
    cases call with
    | report e ruleName => exact hR.report h e ruleName
    | remark message token ruleName => exact hR.remark h message token ruleName
    | tokenMatched => exact hR.tokenMatched h

/-- Whatever the calls and the cap: what is recorded stays in front of all that is recorded later;
the recorded diagnostics and the suppressed ones are as many as the errors and remarks; without a
cap exactly what is due is recorded, and with a cap of `n` its first `n`. -/
theorem calls_accounted_for (sourceName : String) (calls : List Call) :
    (∀ maxErrors more, (told { sourceName, maxErrors } calls).errors <+:
      (told { sourceName, maxErrors } (calls ++ more)).errors) ∧
    (∀ maxErrors, (told { sourceName, maxErrors } calls).errors.length +
      (told { sourceName, maxErrors } calls).suppressed = calls.countP Call.isComplaint) ∧
    (told { sourceName } calls).errors = due sourceName calls ∧
    ∀ n, (told { sourceName, maxErrors := some n } calls).errors = (due sourceName calls).take n ∧
      (told { sourceName, maxErrors := some n } calls).errors.length ≤ n := by
  have hdue := (accounts_told sourceName calls).errors
  refine ⟨fun maxErrors more => ?_, fun maxErrors => ?_, hdue, fun n => ?_⟩
  · rw [told_append]
    exact (extends_told _ more).errors
  · exact (received_told { sourceName, maxErrors } calls).trans (Nat.zero_add _)
  · have hstart : Truncates n { sourceName } { sourceName, maxErrors := some n } :=
      ⟨rfl, rfl, rfl, rfl, List.take_nil.symm⟩
    have htake := ((congruence_truncates n).told hstart calls).errors
    rw [hdue] at htake
    exact ⟨htake, htake ▸ List.length_take_le n _⟩

end Collector

end Rulebook
