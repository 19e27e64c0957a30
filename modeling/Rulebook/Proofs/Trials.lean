import Rulebook.Parse
import Rulebook.Proofs.OrderlyGrammar

/-!
# Trials leave no trace

A trial runs a production of the grammar and takes it back. The productions watch the count of
trials themselves: each that reports, recovers, declares or notes that a token matched does so only
outside trials. So a trial cannot be judged by the cursor alone, and what is shown here is that of
the state only the name of the rule and the events differ after it, however it ended.
-/

namespace Rulebook.Parser

def settled {α : Type} (p : Parser (Harvest α)) : Parser α := do
  let h ← p
  match h.failure with
  | some e => fail e
  | none => return h.found

/-- What may be tried: the productions of the grammar, other than a whole file and the declaration
of its package, their parts, and in any sequence further trials of these. -/
inductive Speculable : {α : Type} → Parser α → Prop where
  | production {p : Production} (notUnit : p ≠ .compilationUnit)
      (notPackage : ∀ duplicate, p ≠ .packageStatement duplicate) : Speculable p.run
  | operand : Speculable (operand condition)
  | constraint (found : List Constraint) : Speculable (settled (constraint found))
  | constraints : Speculable (settled constraints)
  | predicate (token : Token) (field declaration : Option String) :
      Speculable (predicate token field declaration)
  | restrictions : Speculable restrictions
  | connectedRestriction : Speculable connectedRestriction
  | valueList (operator : String) (c : Connective) : Speculable (valueList operator c)
  | restrictionValue (operator : String) (token : Token) :
      Speculable (restrictionValue operator token)
  | parameter : Speculable parameter
  | ruleAttributes (rule : Rule) : Speculable (settled (ruleAttributes rule))
  | block (anchor : Option Token) : Speculable (block anchor)
  | ruleConsequence (rule : Rule) : Speculable (settled (ruleConsequence rule))
  | chunk (opening closing : Symbol) (stops : List Symbol) :
      Speculable (chunk opening closing stops)
  | trial {α : Type} {p : Parser α} (alternative : String) (h : Speculable p) :
      Speculable (trial alternative p)
  | done {α : Type} (a : α) : Speculable (pure a)
  | andThen {α β : Type} {p : Parser α} {f : α → Parser β} (h : Speculable p)
      (h' : ∀ a, Speculable (f a)) : Speculable (p >>= f)

variable {α : Type}

namespace Orderly

instance settled (p : Parser (Harvest α)) [Orderly p] : Orderly (settled p) := by
  unfold Parser.settled
  refine @bind _ _ _ _ _ fun h => ?_
  cases h.failure <;> infer_instance

theorem run (p : Production) (hunit : p ≠ .compilationUnit)
    (hpackage : ∀ duplicate, p ≠ .packageStatement duplicate) : Orderly p.run := by
  cases p with
  | compilationUnit => exact absurd rfl hunit
  | packageStatement duplicate => exact absurd rfl (hpackage duplicate)
  | _ => unfold Production.run; infer_instance

end Orderly

theorem Speculable.orderly {p : Parser α} (h : Speculable p) : Orderly p := by
  induction h with
  | production hunit hpackage => exact Orderly.run _ hunit hpackage
  | trial alternative h ih => infer_instance
  | done a => infer_instance
  | andThen h h' ih ih' => infer_instance
  | _ => infer_instance

/-- After a trial the state is that before it, but for the name of the rule and the events. The
trial gives an answer unless it met what is no failure to recognise. -/
theorem trial_leaves_state {p : Parser α} (h : Speculable p) (alternative : String) (s : State) :
    (match trial alternative p s with
      | .ok _ t => t = { s with ruleName := t.ruleName, events := t.events }
      | .error f t =>
        (∀ e, f ≠ .recognition e) ∧ t = { s with ruleName := t.ruleName, events := t.events }) := by
  have hp := h.orderly
  cases htrial : trial alternative p s with
  | ok answer t => exact Orderly.trial_of_ok htrial
  | error f t => exact Orderly.trial_of_error htrial

theorem trial_leaves_state_nested :
    (match trial "statement"
        (trial "function import" Production.functionImport.run >>= fun _ =>
          Production.importStatement.run)
        (.ofText 900 {} "orders" "import function a.b;") with
      | .ok _ t =>
        t = { State.ofText 900 {} "orders" "import function a.b;" with
          ruleName := t.ruleName, events := t.events }
      | .error f t =>
        (∀ e, f ≠ .recognition e) ∧
          t = { State.ofText 900 {} "orders" "import function a.b;" with
            ruleName := t.ruleName, events := t.events }) :=
  trial_leaves_state
    (.andThen (.trial "function import" (.production (by decide) (by simp)))
      fun _ => .production (by decide) (by simp))
    "statement" (.ofText 900 {} "orders" "import function a.b;")

end Rulebook.Parser

/-!
## Productions give the channel back

Which tokens a production sees, and whether what it does counts, are decided outside of it: by the
visibility of trivia, by the visibilities saved before, and by the trials that run. Embedded code is
read with trivia visible, and a choice may be made by a trial, but however a production ends, all
three are again what they were, so no visibility is restored that was not saved.
-/

namespace Rulebook.Parser

variable {α β : Type}

/-- Two states see the same tokens and are in as many trials. -/
structure State.SameChannel (s t : State) : Prop where
  triviaVisible : t.cursor.triviaVisible = s.cursor.triviaVisible
  saved : t.cursor.saved = s.cursor.saved
  trials : t.trials = s.trials

namespace State.SameChannel

variable {s t u : State}

theorem trans (h : s.SameChannel t) (h' : t.SameChannel u) : s.SameChannel u :=
  ⟨h'.triviaVisible.trans h.triviaVisible, h'.saved.trans h.saved, h'.trials.trans h.trials⟩

theorem of_evolves (h : s.Evolves t) : s.SameChannel t := ⟨h.triviaVisible, h.saved, h.trials⟩

end State.SameChannel

/-- A production that gives the channel back, and never restores a visibility that is not saved. -/
class Restoring (p : Parser α) : Prop where
  channel : ∀ s : State, s.SameChannel (after p s)
  faultless : ∀ {s t : State} {f : Cursor.Fault}, p s ≠ .error (.cursor f) t

namespace Restoring

theorem of_ok {p : Parser α} [Restoring p] {s t : State} {a : α} (h : p s = .ok a t) :
    s.SameChannel t :=
  after_of_ok h ▸ channel s

theorem of_error {p : Parser α} [Restoring p] {s t : State} {f : Failure} (h : p s = .error f t) :
    s.SameChannel t :=
  after_of_error h ▸ channel s

/-- What only goes on in the tokens gives the channel back. -/
instance (priority := low) ofOrderly (p : Parser α) [Orderly p] : Restoring p where
  channel s := .of_evolves (Orderly.from_ s).evolves
  faultless h := Orderly.expected h

theorem modifyPackage (change : Package → Package) :
    Restoring (modify fun s : State => { s with package := change s.package }) where
  channel _ := ⟨rfl, rfl, rfl⟩
  faultless h := by cases h

instance bind (p : Parser α) (f : α → Parser β) [Restoring p] [∀ a, Restoring (f a)] :
    Restoring (p >>= f) where
  channel s := by
    cases h : p s with
    | ok a t =>
      have hafter : after (p >>= f) s = after (f a) t := by
        unfold after
        rw [bind_of_ok h]
      rw [hafter]
      exact (of_ok h).trans (channel t)
    | error e t =>
      rw [after_of_error (bind_of_error h)]
      exact of_error h
  faultless {s t fault} hfault := by
    cases h : p s with
    | ok a u =>
      rw [bind_of_ok h] at hfault
      exact faultless hfault
    | error e u =>
      rw [bind_of_error h] at hfault
      cases hfault
      exact faultless h

/-- Whatever was tried, the count of trials is that before, and the place too. -/
theorem sameChannel_restored {s t : State} (h : s.trying.SameChannel t) :
    s.SameChannel (s.restored t) where
  triviaVisible := h.triviaVisible
  saved := h.saved
  trials := by
    have htrials : t.trials = s.trials + 1 := h.trials
    show t.trials - 1 = s.trials
    omega

instance trial (alternative : String) (p : Parser α) [Restoring p] :
    Restoring (trial alternative p) where
  channel s := by
    unfold after
    rw [trial_eq]
    cases h : p s.trying with
    | ok a t => exact sameChannel_restored (of_ok h)
    | error f t =>
      have hrestored := sameChannel_restored (of_error h)
      cases f with
      | recognition e => exact ⟨hrestored.triviaVisible, hrestored.saved, hrestored.trials⟩
      | _ => exact hrestored
  faultless {s t fault} hfault := by
    obtain ⟨u, h⟩ := Orderly.failure_of_trial hfault
    exact faultless h

theorem packageStatement (duplicate : Bool) : Restoring (packageStatement duplicate) := by
  unfold Parser.packageStatement
  refine @bind _ _ _ _ _ fun token => @bind _ _ _ _ _ fun name => @bind _ _ _ _ _ fun _ => ?_
  split
  · infer_instance
  · exact modifyPackage fun p => { p with name }

end Restoring

/-- The productions but a whole file, their parts, and trials and sequences of these. -/
inductive Delimited : {α : Type} → Parser α → Prop where
  | production {p : Production} (notUnit : p ≠ .compilationUnit) : Delimited p.run
  | part {α : Type} {p : Parser α} (h : Speculable p) : Delimited p
  | consequence : Delimited consequence
  | connectedRestriction : Delimited connectedRestriction
  | isUntyped : Delimited isUntyped
  | trial {α : Type} {p : Parser α} (alternative : String) (h : Delimited p) :
      Delimited (trial alternative p)
  | andThen {α β : Type} {p : Parser α} {f : α → Parser β} (h : Delimited p)
      (h' : ∀ a, Delimited (f a)) : Delimited (p >>= f)

theorem Delimited.restoring {p : Parser α} (h : Delimited p) : Restoring p := by
  induction h with
  | @production p notUnit =>
    by_cases hpackage : ∃ duplicate, p = .packageStatement duplicate
    · obtain ⟨duplicate, rfl⟩ := hpackage
      have hstatement := Restoring.packageStatement duplicate
      unfold Production.run
      infer_instance
    · have horderly := Orderly.run p notUnit fun duplicate heq => hpackage ⟨duplicate, heq⟩
      infer_instance
  | part h =>
    have horderly := h.orderly
    infer_instance
  | _ => infer_instance

/-- From any visibility of trivia, with any visibilities saved and in any number of trials:
however a production ends, all three are what they were, and it never ends for want of a
saved visibility. -/
theorem channel_restored {p : Parser α} (h : Delimited p) (s : State) :
    s.SameChannel (after p s) ∧ ∀ fault t, p s ≠ .error (.cursor fault) t := by
  have hp := h.restoring
  exact ⟨Restoring.channel s, fun fault t => Restoring.faultless⟩

/-- The beginning of a text in the middle of a trial, with trivia visible. -/
def amidTrial (text : String) : State :=
  let s := State.ofText 900 {} "shown" text
  { s with cursor := (s.cursor.pushTrivia false).pushTrivia true, trials := 1 }

/-- A chunk that is never closed, tried and then read. -/
theorem channel_restored_unclosed :
    (amidTrial "( a b").SameChannel
        (after (trial "code" Production.parenChunk.run >>= fun _ => Production.parenChunk.run)
          (amidTrial "( a b")) ∧
      ∀ fault t, (trial "code" Production.parenChunk.run >>= fun _ => Production.parenChunk.run)
        (amidTrial "( a b") ≠ .error (.cursor fault) t := by
  have hchunk : Delimited Production.parenChunk.run := .production (by decide)
  exact channel_restored (.andThen (.trial "code" hchunk) fun _ => hchunk) (amidTrial "( a b")

end Rulebook.Parser
