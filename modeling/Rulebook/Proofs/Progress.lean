import Rulebook.Proofs.Eager

/-!
# Progress from statement to statement

A statement that fails has taken its keyword before it fails, or else recovery skips the token that
begins no statement. So reading goes on behind the place where it was, and the statements of a file
are read up to its end. A trial gives its tokens back, so the one that comes before an import must
not fail for the nesting; it is shallow.
-/

namespace Rulebook.Parser

set_option synthInstance.maxSize 100000

variable {α β : Type}

/-! ### Shallow productions -/

/-- A production that does not nest. -/
class Shallow (p : Parser α) : Prop where
  ne_nestingTooDeep : ∀ {s t : State} {f : Failure}, p s = .error f t → f ≠ .nestingTooDeep

namespace Shallow

instance (a : α) : Shallow (pure a : Parser α) := ⟨fun h => by cases h⟩

instance : Shallow (get : Parser State) := ⟨fun h => by cases h⟩

instance (change : State → State) : Shallow (modify change : Parser Unit) := ⟨fun h => by cases h⟩

instance (e : ParseError) : Shallow (fail e : Parser α) := ⟨fun h => by cases h; simp⟩

instance (digits : Nat) : Shallow (throw (.tooManyDigits digits) : Parser α) :=
  ⟨fun h => by cases h; simp⟩

instance bind (p : Parser α) (f : α → Parser β) [Shallow p] [∀ a, Shallow (f a)] :
    Shallow (p >>= f) where
  ne_nestingTooDeep {s u e} h := by
    cases hp : p s with
    | ok a t => rw [bind_of_ok hp] at h; exact ne_nestingTooDeep h
    | error e t => rw [bind_of_error hp] at h; cases h; exact ne_nestingTooDeep hp

instance (c : Prop) [Decidable c] (p q : Parser α) [Shallow p] [Shallow q] :
    Shallow (if c then p else q) := by
  split <;> infer_instance

instance : Shallow current := by unfold current; infer_instance

instance : Shallow advance := by unfold advance; infer_instance

instance (s : Symbol) : Shallow (nextIsSymbol s) := by unfold nextIsSymbol; infer_instance

instance (kind : TokenKind) : Shallow (expect kind) := by unfold expect; infer_instance

instance (k : Keyword) : Shallow (keyword k) := by unfold keyword; infer_instance

instance (kind : TokenKind) : Shallow (accept kind) := by unfold accept; infer_instance

instance (s : Symbol) : Shallow (skip s) := by unfold skip; infer_instance

instance : Shallow name := by unfold name; infer_instance

instance (l : Location) : Shallow (close l) := by unfold close lastStop; infer_instance

instance rounds (more : α → Parser Bool) (body : α → Parser α) [∀ a, Shallow (more a)]
    [∀ a, Shallow (body a)] (n : Nat) (a : α) : Shallow (rounds more body n a) := by
  induction n generalizing a with
  | zero => unfold Parser.rounds; infer_instance
  | succ n ih => unfold Parser.rounds; infer_instance

instance repeatWhile (first : α) (more : α → Parser Bool) (body : α → Parser α)
    [∀ a, Shallow (more a)] [∀ a, Shallow (body a)] : Shallow (repeatWhile first more body) := by
  unfold Parser.repeatWhile; infer_instance

instance (change : Package → Package) : Shallow (declare change) := by
  unfold declare inTrial; infer_instance

instance : Shallow dottedName := by unfold dottedName; infer_instance

instance (x : String × Bool) : Shallow (importPart x) := by unfold importPart; infer_instance

instance : Shallow importTarget := by unfold importTarget; infer_instance

instance : Shallow functionImport := by unfold functionImport; infer_instance

instance (e : ParseError) : Shallow (report e) := by unfold report inTrial note; infer_instance

instance (duplicate : Bool) : Shallow (packageStatement duplicate) := by
  unfold packageStatement; infer_instance

instance (text : String) : Shallow (integer text) := by
  unfold integer; infer_instance

instance (token : Token) : Shallow (attributeValue token) := by
  unfold attributeValue
  split
  · infer_instance
  · split
    · refine @bind _ _ _ _ _ fun value => ?_
      cases value <;> infer_instance
    · infer_instance

instance : Shallow ruleAttribute := by unfold ruleAttribute; infer_instance

instance : Shallow packageAttribute := by unfold packageAttribute; infer_instance

end Shallow

/-! ### Statements and their keywords -/

/-- A production that takes its keyword before it can fail. -/
class Led (k : Keyword) (p : Parser α) : Prop where
  takes : ∀ {s t : State} {f : Failure}, s.cursor.current.kind = .keyword k → p s = .error f t →
    t.cursor.shown.length < s.cursor.shown.length

namespace Led

instance (k : Keyword) : Led k (keyword k) where
  takes {s t f} hk h := by
    unfold keyword at h
    rw [expect_eq, if_pos hk] at h
    cases h

instance bind (k : Keyword) (p : Parser α) (f : α → Parser β) [Led k p] [Eager p]
    [∀ a, Orderly (f a)] : Led k (p >>= f) where
  takes {s u e} hk h := by
    cases hp : p s with
    | ok a t =>
      rw [bind_of_ok hp] at h
      exact Nat.lt_of_le_of_lt (Orderly.evolves_error (f a) h).length_shown_le (Eager.takes p hp)
    | error e t => rw [bind_of_error hp] at h; cases h; exact takes hk hp

instance : Led .import_ importStatement := by unfold importStatement; infer_instance

instance : Led .import_ functionImport := by unfold functionImport; infer_instance

instance : Led .global globalStatement := by unfold globalStatement; infer_instance

instance : Led .function functionStatement := by unfold functionStatement; infer_instance

instance : Led .template templateStatement := by unfold templateStatement; infer_instance

instance : Led .rule ruleStatement := by unfold ruleStatement; infer_instance

instance : Led .query queryStatement := by unfold queryStatement; infer_instance

instance : Led .package (packageStatement true) := by
  unfold packageStatement
  simp only [if_true]
  infer_instance

end Led

namespace Eager

instance : Eager importStatement := by unfold importStatement; infer_instance

instance : Eager functionImport := by unfold functionImport; infer_instance

instance : Eager globalStatement := by unfold globalStatement; infer_instance

instance : Eager functionStatement := by unfold functionStatement; infer_instance

instance : Eager templateStatement := by unfold templateStatement; infer_instance

instance : Eager ruleStatement := by unfold ruleStatement; infer_instance

instance : Eager queryStatement := by unfold queryStatement; infer_instance

instance : Eager (packageStatement true) := by
  unfold packageStatement
  simp only [if_true]
  infer_instance

instance : Eager statement := by
  unfold statement
  refine @bind_right _ _ _ _ _ fun token => ?_
  split <;> infer_instance

end Eager

/-- A statement that fails has taken a token, unless none of the keywords is there. -/
theorem statement_of_error {s t : State} {f : Failure} (h : statement s = .error f t) :
    (∃ n, f = .tooManyDigits n) ∨ t.cursor.shown.length < s.cursor.shown.length ∨
      t = s ∧ s.cursor.current.kind ∉ statementStart ∧ ∃ e, f = .recognition e := by
  have hled : ∀ {α : Type} {s : State} (k : Keyword) (p : Parser α) [Led k p],
      s.cursor.current.kind = .keyword k → (p >>= fun _ => pure ()) s = .error f t →
      t.cursor.shown.length < s.cursor.shown.length := by
    intro α s k p _ hk h
    cases hp : p s with
    | ok a u => rw [bind_of_ok hp] at h; cases h
    | error e u => rw [bind_of_error hp] at h; cases h; exact Led.takes hk hp
  unfold statement at h
  rw [bind_of_ok (current_eq s)] at h
  obtain ⟨p, hp, h⟩ : ∃ p : Parser Unit, p = _ ∧ p s = .error f t := ⟨_, rfl, h⟩
  split at hp <;> subst hp
  · next hk =>
    cases htrial : trial "function import" functionImport s with
    | ok b u =>
      have hus : u.cursor = s.cursor := by rw [Orderly.trial_of_ok htrial]
      rw [bind_of_ok htrial] at h
      rw [← hus] at hk ⊢
      split at h
      · exact .inr (.inl (hled .import_ functionImport hk h))
      · exact .inr (.inl (hled .import_ importStatement hk h))
    | error e u =>
      rw [bind_of_error htrial] at h
      cases h
      refine .inl ?_
      obtain ⟨t, hfails⟩ := Orderly.failure_of_trial htrial
      have hexpected := Orderly.expected hfails
      have hshallow := Shallow.ne_nestingTooDeep hfails
      cases f with
      | recognition e => exact absurd rfl ((Orderly.trial_of_error htrial).1 e)
      | tooManyDigits n => exact ⟨n, rfl⟩
      | nestingTooDeep => exact absurd rfl hshallow
      | cursor f => exact hexpected.elim
  · next hk => exact .inr (.inl (hled .global _ hk h))
  · next hk => exact .inr (.inl (hled .function _ hk h))
  · next hk => exact .inr (.inl (hled .template _ hk h))
  · next hk => exact .inr (.inl (hled .rule _ hk h))
  · next hk => exact .inr (.inl (hled .query _ hk h))
  · next hk => exact .inr (.inl (Led.takes hk h))
  · next himport hglobal hfunction htemplate hrule hquery hpackage =>
    cases h
    refine .inr (.inr ⟨rfl, ?_, _, rfl⟩)
    simp only [statementStart, List.mem_cons, List.not_mem_nil, or_false, not_or]
    exact ⟨hpackage, himport, hglobal, hfunction, htemplate, hrule, hquery⟩

end Rulebook.Parser
