import Rulebook.Proofs.Inert
import Rulebook.Proofs.Onward
import Rulebook.Proofs.Totality

/-!
# What whole files keep of the package

A property of packages that every statement keeps, whether it is broken or not, and that the
attributes at the head of a file keep holds of the package of the file: recovery leaves the package
as it is.
-/

namespace Rulebook.Parser

set_option synthInstance.maxSize 100000

variable {α β : Type} {C : Cursor → Prop} {I : Package → Prop} {s t : State}

def Keeps (I : Package → Prop) (p : Parser α) (s : State) : Prop :=
  I s.package → I (after p s).package

namespace Keeps

theorem of_inert (p : Parser α) [Inert p] : Keeps I p s := fun h => by
  rw [Inert.package]
  exact h

theorem bind_of {p : Parser α} {f : α → Parser β} (hp : Keeps I p s)
    (hf : ∀ {a t}, p s = .ok a t → Keeps I (f a) t) : Keeps I (p >>= f) s := by
  intro h
  have hp := hp h
  cases hps : p s with
  | ok a t =>
    rw [after_of_ok hps] at hp
    rw [after_bind_of_ok hps]
    exact hf hps hp
  | error e t =>
    rw [after_of_error hps] at hp
    rw [after_of_error (bind_of_error hps)]
    exact hp

theorem bind {p : Parser α} [Inert p] {f : α → Parser β}
    (hf : ∀ {a t}, p s = .ok a t → Keeps I (f a) t) : Keeps I (p >>= f) s :=
  bind_of (of_inert p) hf

theorem declare {change : Package → Package} (h : ∀ p, I p → I (change p)) :
    Keeps I (declare change) s := by
  intro hs
  rw [after_of_ok (declare_eq change s)]
  split
  · exact hs
  · exact h _ hs

theorem attempt {p : Parser α} (hp : Keeps I p s) : Keeps I (attempt p) s := by
  intro hpackage
  rw [after_attempt]
  exact hp hpackage

theorem headOrRecovery {p : Parser Unit} (hp : Keeps I p s) : Keeps I (headOrRecovery p) s := by
  unfold Parser.headOrRecovery
  refine bind_of (attempt hp) fun {r t} _ => ?_
  cases r with
  | ok a => exact of_inert _
  | error e => exact of_inert _

theorem statementOrRecovery (hs : Idle s) (hp : Keeps I statement s) :
    Keeps I statementOrRecovery s := by
  intro hpackage
  have hstatement := hp hpackage
  cases h : statement s with
  | ok a t =>
    rw [after_of_ok h] at hstatement
    rw [after_of_ok (statementOrRecovery_of_ok h)]
    exact hstatement
  | error f t =>
    rw [after_of_error h] at hstatement
    have ht := hs.evolves (Orderly.evolves_error _ h)
    cases f with
    | recognition e =>
      rw [after_of_ok (statementOrRecovery_of_recognition h ht.trials)]
      exact hstatement
    | tooManyDigits n =>
      rw [after_of_error (statementOrRecovery_of_digits h)]
      exact hstatement
    | nestingTooDeep =>
      rw [after_of_ok ((statementOrRecovery_of_nesting h).trans (dropDeepStatement_eq ht))]
      exact hstatement
    | cursor f => exact (Orderly.expected h).elim

theorem packageStatement (hname : ∀ {p : Package} (name : String), I p → I { p with name })
    (duplicate : Bool) : Keeps I (packageStatement duplicate) s := by
  unfold Parser.packageStatement
  refine bind fun _ => bind fun _ => bind fun _ => ?_
  split
  · exact of_inert _
  · exact fun hp => hname _ hp

end Keeps

/-! ### Whole files -/

/-- A property of packages that every part of a file keeps, from states whose cursor has another
property, which no production takes from it. -/
structure UnitInvariant (C : Cursor → Prop) (I : Package → Prop) : Prop where
  rewind : ∀ {c : Cursor} (n : Nat), C c → C (c.rewind n)
  named : ∀ {p : Package} (name : String), I p → I { p with name }
  attributes : ∀ {s : State}, C s.cursor → s.cursor.current.kind ∈ attributeKinds →
    Keeps I packageAttribute s
  functionImport : ∀ {s : State}, C s.cursor → Keeps I functionImport s
  importStatement : ∀ {s : State}, C s.cursor → Keeps I importStatement s
  globalStatement : ∀ {s : State}, C s.cursor → Keeps I globalStatement s
  functionStatement : ∀ {s : State}, C s.cursor → Keeps I functionStatement s
  templateStatement : ∀ {s : State}, C s.cursor → Keeps I templateStatement s
  ruleStatement : ∀ {s : State}, C s.cursor → Keeps I ruleStatement s
  queryStatement : ∀ {s : State}, C s.cursor → Keeps I queryStatement s

/-- Between two statements, with an invariant that holds. -/
structure Holding (C : Cursor → Prop) (I : Package → Prop) (s : State) : Prop extends Idle s where
  cursor : C s.cursor
  package : I s.package

theorem package_ended (n : Nat) (s : State) :
    (s.ended n).package = { s.package with
      location := s.package.location.closeAt (s.cursor.previous.map (·.stop)) } := by
  unfold State.ended
  split <;> rfl

namespace UnitInvariant

theorem statement (hI : UnitInvariant C I) (hs : C s.cursor) : Keeps I statement s := by
  unfold Parser.statement
  refine .bind fun {token t} ht => ?_
  cases ht
  split
  · refine .bind fun {b u} hu => ?_
    have hu : C u.cursor := (trial_ok hu).1 ▸ hs
    split
    · exact .bind_of (hI.functionImport hu) fun _ => .of_inert _
    · exact .bind_of (hI.importStatement hu) fun _ => .of_inert _
  · exact .bind_of (hI.globalStatement hs) fun _ => .of_inert _
  · exact .bind_of (hI.functionStatement hs) fun _ => .of_inert _
  · exact .bind_of (hI.templateStatement hs) fun _ => .of_inert _
  · exact .bind_of (hI.ruleStatement hs) fun _ => .of_inert _
  · exact .bind_of (hI.queryStatement hs) fun _ => .of_inert _
  · exact .packageStatement hI.named true
  · exact .of_inert _

theorem of_ok (hI : UnitInvariant C I) {p : Parser α} {a : α} (hs : Holding C I s)
    (hp : OrderlyFrom p s) (hkeeps : Keeps I p s) (h : p s = .ok a t) : Holding C I t where
  toIdle := hs.evolves (hp.evolves_ok h)
  cursor := by
    rw [(hp.evolves_ok h).cursor]
    exact hI.rewind _ hs.cursor
  package := after_of_ok h ▸ hkeeps hs.package

theorem unitHead (hI : UnitInvariant C I) (hs : Holding C I s) (h : unitHead s = .ok () t) :
    Holding C I t := by
  obtain ⟨isPackage, _, hlook, h⟩ := bind_eq_ok.1 h
  cases hlook
  have hattributes : ∀ {t u : State}, Holding C I t →
      repeatWhile () (fun _ => nextIs attributeKinds)
        (fun _ => headOrRecovery packageAttribute) t = .ok () u → Holding C I u := by
    intro t u ht hu
    refine repeatWhile_invariant (I := fun u _ => Holding C I u) (fun h => by cases h; rfl)
      (fun {_ _ v w} hmore hv hbody => ?_) ht hu
    exact hI.of_ok hv
      (headOrRecovery_settles hv.toIdle (packageAttribute_from hv.toIdle)).toOrderlyFrom
      (.headOrRecovery (hI.attributes hv.cursor (kind_of_nextIs hmore).2)) hbody
  split at h
  · obtain ⟨_, u, hu, h⟩ := bind_eq_ok.1 h
    have hsettles := headOrRecovery_settles hs.toIdle (packageStatement_from hs.toIdle false)
    exact hattributes (hI.of_ok hs hsettles.toOrderlyFrom
      (.headOrRecovery (.packageStatement hI.named false)) hu) h
  · exact hattributes hs h

theorem statements (hI : UnitInvariant C I) (hs : Holding C I s) {n : Nat}
    (h : statements s = .ok n t) : Holding C I t := by
  refine repeatWhile_invariant (I := fun u _ => Holding C I u) (fun h => by cases h; rfl)
    (fun {_ _ v w} _ hv hbody => ?_) hs h
  obtain ⟨_, x, hx, hbody⟩ := bind_eq_ok.1 hbody
  obtain ⟨-, rfl⟩ := pure_ok hbody
  exact hI.of_ok hv (statementOrRecovery_settles hv.toIdle).toOrderlyFrom
    (.statementOrRecovery hv.toIdle (hI.statement hv.cursor)) hx

theorem compilationUnit (hI : UnitInvariant C I) (hs : Idle s) (hcursor : C s.cursor)
    (hpackage : I { s.package with
      location := { Location.ofToken s.cursor.current with stop := s.package.location.stop } })
    {p : Package} (h : compilationUnit s = .ok p t) :
    ∃ w, Holding C I w ∧ p = { w.package with
      location := w.package.location.closeAt (w.cursor.previous.map (·.stop)) } := by
  obtain ⟨first, _, hfirst, h⟩ := bind_eq_ok.1 h
  cases hfirst
  obtain ⟨_, u, hu, h⟩ := bind_eq_ok.1 h
  obtain ⟨_, v, hv, h⟩ := bind_eq_ok.1 h
  obtain ⟨n, w, hw, h⟩ := bind_eq_ok.1 h
  have hbegin : Holding C I u := by
    rw [locatePackage_eq] at hu
    cases hu
    exact ⟨⟨hs.hidden, hs.saved, hs.trials, hs.ruleName⟩, hcursor, hpackage⟩
  have hend := hI.statements (hI.unitHead hbegin hv) hw
  rw [closeUnit_eq, package_ended] at h
  cases h
  exact ⟨w, hend, rfl⟩

end UnitInvariant

end Rulebook.Parser
