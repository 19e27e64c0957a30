import Rulebook.Proofs.Declaring
import Rulebook.Proofs.Resumption

/-!
# Statements are added whole

Outside trials, a statement that is read adds one declaration at the end of one list of the package
and changes nothing else of it, and a statement that is not read, whatever stopped it, changes
nothing at all: each production declares what it read as the last thing it does. A second package
declaration is read as well, but it is reported at its keyword and adds nothing.
-/

namespace Rulebook.Parser

set_option synthInstance.maxSize 100000

variable {α β : Type} {R : α → Package → Package → Prop} {s t u : State}

/-! ### Productions that declare as the last thing they do -/

/-- From this state, success changes the package in a way that the result tells, and failure does
not change it. -/
structure CommitsFrom (R : α → Package → Package → Prop) (p : Parser α) (s : State) : Prop where
  ok : ∀ {a t}, p s = .ok a t → R a s.package t.package
  error : ∀ {f t}, p s = .error f t → t.package = s.package

namespace CommitsFrom

theorem bind {p : Parser β} [Orderly p] [Inert p] {f : β → Parser α} (hs : s.trials = 0)
    (hf : ∀ {a t}, t.trials = 0 → p s = .ok a t → CommitsFrom R (f a) t) :
    CommitsFrom R (p >>= f) s where
  ok h := by
    obtain ⟨a, t, ht, h⟩ := bind_eq_ok.1 h
    rw [← Inert.package_ok p ht]
    exact (hf ((Orderly.evolves_ok p ht).trials.trans hs) ht).ok h
  error {e u} h := by
    cases hp : p s with
    | ok a t =>
      rw [bind_of_ok hp] at h
      rw [← Inert.package_ok p hp]
      exact (hf ((Orderly.evolves_ok p hp).trials.trans hs) hp).error h
    | error e t =>
      obtain ⟨-, rfl⟩ := EStateM.Result.error.inj ((bind_of_error hp).symm.trans h)
      exact Inert.package_error p hp

/-- After the declaration nothing can fail. -/
theorem declared {change : Package → Package} {q : Parser α} {a : α} [Inert q] (hs : s.trials = 0)
    (hq : ∀ t, ∃ u, q t = .ok a u) (h : ∀ p, R a p (change p)) :
    CommitsFrom R (declare change >>= fun _ => q) s := by
  obtain ⟨u, hu⟩ := hq (s.declared change)
  have hrun : (declare change >>= fun _ => q) s = .ok a u :=
    (bind_of_ok (declare_of_idle change hs)).trans hu
  refine ⟨fun h' => ?_, fun h' => ?_⟩
  · obtain ⟨rfl, rfl⟩ := EStateM.Result.ok.inj (hrun.symm.trans h')
    rw [Inert.package_ok q hu]
    exact h s.package
  · rw [hrun] at h'
    cases h'

theorem closing {node : Location → α} {change : Location → Package → Package} {l : Location}
    (hs : s.trials = 0) (h : ∀ l p, R (node l) p (change l p)) :
    CommitsFrom R (do
      let l ← close l
      declare (change l)
      return node l) s :=
  bind hs fun ht _ => declared ht (fun t => ⟨t, rfl⟩) (h _)

theorem current {f : Token → Parser α} (h : CommitsFrom R (f s.cursor.current) s) :
    CommitsFrom R (Parser.current >>= f) s where
  ok h' := h.ok ((bind_of_ok (current_eq s)).symm.trans h')
  error h' := h.error ((bind_of_ok (current_eq s)).symm.trans h')

theorem fail {e : ParseError} : CommitsFrom R (Parser.fail e : Parser α) s where
  ok h := by cases h
  error h := by
    cases h
    rfl

theorem ignoring {R' : Package → Package → Prop} {p : Parser α} (h : CommitsFrom R p s)
    (hR : ∀ {a q r}, R a q r → R' q r) :
    CommitsFrom (fun _ => R') (p >>= fun _ => pure ()) s where
  ok h' := by
    obtain ⟨a, t, ht, h'⟩ := bind_eq_ok.1 h'
    obtain ⟨-, rfl⟩ := pure_ok h'
    exact hR (h.ok ht)
  error h' := by
    cases hp : p s with
    | ok a t =>
      rw [bind_of_ok hp] at h'
      cases h'
    | error e t =>
      obtain ⟨-, rfl⟩ := EStateM.Result.error.inj ((bind_of_error hp).symm.trans h')
      exact h.error hp

end CommitsFrom

/-- One declaration that begins with a given keyword is added to a package. -/
def Grows (k : Keyword) (p q : Package) : Prop := ∃ l, p.Adds k l q

variable (hs : s.trials = 0)

include hs

theorem commits_importStatement : CommitsFrom
    (fun x p q => q = { p with imports := p.imports ++ [x] }) importStatement s := by
  unfold importStatement
  refine .bind hs fun hs _ => .bind hs fun hs _ => .bind hs fun hs _ => ?_
  exact .closing hs fun _ _ => rfl

theorem commits_functionImport : CommitsFrom
    (fun x p q => q = { p with functionImports := p.functionImports ++ [x] }) functionImport s := by
  unfold functionImport
  refine .bind hs fun hs _ => .bind hs fun hs _ => .bind hs fun hs _ => .bind hs fun hs _ => ?_
  exact .closing hs fun _ _ => rfl

theorem commits_globalStatement : CommitsFrom
    (fun x p q => q = { p with globals := p.globals ++ [x] }) globalStatement s := by
  unfold globalStatement
  refine .bind hs fun hs _ => .bind hs fun hs _ => .bind hs fun hs _ => .bind hs fun hs _ => ?_
  exact .closing hs fun _ _ => rfl

theorem commits_functionStatement : CommitsFrom
    (fun x p q => q = { p with functions := p.functions ++ [x] }) functionStatement s := by
  unfold functionStatement
  refine .bind hs fun hs _ => .bind hs fun hs _ => .bind hs fun hs _ => .bind hs fun hs _ => ?_
  refine .bind hs fun hs _ => .bind hs fun hs _ => ?_
  exact .closing hs fun _ _ => rfl

theorem commits_templateStatement : CommitsFrom
    (fun x p q => q = { p with templates := p.templates ++ [x] }) templateStatement s := by
  unfold templateStatement
  refine .bind hs fun hs _ => .bind hs fun hs _ => .bind hs fun hs _ => .bind hs fun hs _ => ?_
  have hrest : ∀ {s : State} {token : Token} {title : String} {slots : List Slot}, s.trials = 0 →
      CommitsFrom (fun x p q => q = { p with templates := p.templates ++ [x] }) (do
        let _ ← keyword .end_
        skip .semicolon
        let node : Template := ⟨← close (.ofToken token), title, slots⟩
        declare fun p => { p with templates := p.templates ++ [node] }
        return node) s := fun hs =>
    .bind hs fun hs _ => .bind hs fun hs _ => .closing hs fun _ _ => rfl
  dsimp only
  split
  · exact .bind hs fun hs _ => .bind hs fun hs _ => hrest hs
  · exact hrest hs

theorem commits_ruleStatement : CommitsFrom
    (fun x p q => q = { p with rules := p.rules ++ [.rule x] }) ruleStatement s := by
  unfold ruleStatement
  refine .bind hs fun hs _ => .bind hs fun hs _ => .bind hs fun hs _ => .bind hs fun hs _ => ?_
  refine .bind hs fun {trying t} ht htrying => ?_
  obtain ⟨rfl, rfl⟩ := EStateM.Result.ok.inj htrying
  split
  · next hpos => simp [hs] at hpos
  · exact .declared ht (fun t => ⟨_, (bind_of_ok (note_eq _ t)).trans rfl⟩) fun p => rfl

theorem commits_queryStatement : CommitsFrom
    (fun x p q => q = { p with rules := p.rules ++ [.query x] }) queryStatement s := by
  unfold queryStatement
  refine .bind hs fun hs _ => .bind hs fun hs _ => .bind hs fun hs _ => ?_
  exact .declared hs (fun t => ⟨t, rfl⟩) fun p => rfl

/-! ### A second package declaration -/

/-- A repeated package declaration was refused: it is reported at its keyword, and nothing of the
package is changed. -/
structure State.Refuses (s t : State) : Prop where
  package : t.package = s.package
  collector : t.collector = s.collector.tokenMatched.report (.failedPredicate
    "package name can only be declared once, before any other statement" (some s.cursor.current))
    s.ruleName

omit hs in
structure State.Matches (s t : State) : Prop where
  collector : t.collector = s.collector.tokenMatched
  trials : t.trials = 0
  ruleName : t.ruleName = s.ruleName

omit hs in
theorem State.Matches.advanced (h : s.Matches t) : s.Matches t.advanced where
  collector := by
    show (if t.trials = 0 then t.collector.tokenMatched else t.collector) = _
    rw [if_pos h.trials, h.collector]
    rfl
  trials := h.trials
  ruleName := h.ruleName

omit hs in
theorem matches_dottedName {text : String} (h : s.Matches t) (hname : dottedName t = .ok text u) :
    s.Matches u := by
  have hpart : ∀ {t u : State} {token : Token}, s.Matches t → name t = .ok token u →
      s.Matches u := fun h hname => by
    rw [name_eq] at hname
    split at hname
    · cases hname
      exact h.advanced
    · cases hname
  obtain ⟨first, v, hv, hname⟩ := bind_eq_ok.1 hname
  refine repeatWhile_invariant (I := fun t _ => s.Matches t) (fun h => ?_) (fun _ h hbody => ?_)
    (hpart h hv) hname
  · cases h
    rfl
  · obtain ⟨_, w, hw, hbody⟩ := bind_eq_ok.1 hbody
    cases hw
    obtain ⟨part, x, hx, hbody⟩ := bind_eq_ok.1 hbody
    obtain ⟨-, rfl⟩ := pure_ok hbody
    exact hpart h.advanced hx

omit hs in
theorem matches_skip {k : Symbol} (h : s.Matches t) (hskip : skip k t = .ok () u) :
    s.Matches u := by
  obtain ⟨found, v, hv, hskip⟩ := bind_eq_ok.1 hskip
  obtain ⟨-, rfl⟩ := pure_ok hskip
  obtain ⟨token, w, hw, hv⟩ := bind_eq_ok.1 hv
  obtain ⟨rfl, rfl⟩ := current_ok hw
  split at hv
  · cases hv
    exact h.advanced
  · cases hv
    exact h

omit hs in
theorem package_packageStatement : (after (packageStatement true) s).package = s.package := by
  have hinert : Inert (packageStatement true) := by
    unfold packageStatement
    simp only [if_true]
    infer_instance
  exact hinert.package s

theorem refuses_packageStatement (h : packageStatement true s = .ok () t) : s.Refuses t := by
  have hpackage : t.package = s.package := by
    rw [← package_packageStatement (s := s), after_of_ok h]
  obtain ⟨token, u, hu, h⟩ := bind_eq_ok.1 h
  obtain ⟨rfl, -, rfl⟩ := expect_of_ok hu
  obtain ⟨name, v, hv, h⟩ := bind_eq_ok.1 h
  obtain ⟨_, w, hw, h⟩ := bind_eq_ok.1 h
  have hadvanced : s.Matches s.advanced := ⟨if_pos hs, hs, rfl⟩
  have hmatches : s.Matches w := matches_skip (matches_dottedName hadvanced hv) hw
  rw [if_pos rfl, report_eq, if_neg (Nat.not_lt.2 (Nat.le_of_eq hmatches.trials))] at h
  obtain ⟨-, rfl⟩ := EStateM.Result.ok.inj h
  refine ⟨hpackage, ?_⟩
  rw [← hmatches.collector, ← hmatches.ruleName]
  rfl

/-- Every statement but a package declaration adds a declaration when it is read. -/
theorem commits_statement (hpackage : s.cursor.current.kind ≠ .keyword .package) :
    CommitsFrom (fun _ p q => ∃ k, s.cursor.current.kind = .keyword k ∧ Grows k p q)
      statement s := by
  unfold statement
  refine .current ?_
  split
  · next hk =>
    refine .bind hs fun hs _ => ?_
    split
    · exact (commits_functionImport hs).ignoring fun h =>
        ⟨_, hk, by rw [h]; exact ⟨_, .functionImport _⟩⟩
    · exact (commits_importStatement hs).ignoring fun h => ⟨_, hk, by rw [h]; exact ⟨_, .import_ _⟩⟩
  · next hk =>
      exact (commits_globalStatement hs).ignoring fun h => ⟨_, hk, by rw [h]; exact ⟨_, .global _⟩⟩
  · next hk =>
      exact (commits_functionStatement hs).ignoring fun h =>
        ⟨_, hk, by rw [h]; exact ⟨_, .function _⟩⟩
  · next hk =>
      exact (commits_templateStatement hs).ignoring fun h =>
        ⟨_, hk, by rw [h]; exact ⟨_, .template _⟩⟩
  · next hk =>
      exact (commits_ruleStatement hs).ignoring fun h => ⟨_, hk, by rw [h]; exact ⟨_, .rule _⟩⟩
  · next hk =>
      exact (commits_queryStatement hs).ignoring fun h => ⟨_, hk, by rw [h]; exact ⟨_, .query _⟩⟩
  · next hk => exact absurd hk hpackage
  · exact .fail

/-- For every state outside trials: a statement that is read adds one declaration of the kind that
its keyword tells to the end of its list and leaves the rest of the package as it is, or it is a
repeated package declaration and is refused; a statement that is not read leaves the package as it
is. -/
theorem statement_whole :
    (∀ t, statement s = .ok () t →
      (∃ k, s.cursor.current.kind = .keyword k ∧ Grows k s.package t.package) ∨
        s.cursor.current.kind = .keyword .package ∧ s.Refuses t) ∧
      ∀ f t, statement s = .error f t → t.package = s.package := by
  by_cases hpackage : s.cursor.current.kind = .keyword .package
  · have hstatement : statement s = packageStatement true s := by
      unfold statement
      rw [bind_of_ok (current_eq s), hpackage]
    rw [hstatement]
    refine ⟨fun t h => .inr ⟨hpackage, refuses_packageStatement hs h⟩, fun f t h => ?_⟩
    rw [← package_packageStatement (s := s), after_of_error h]
  · have hcommits := commits_statement hs hpackage
    exact ⟨fun t h => .inl (hcommits.ok h), fun f t h => hcommits.error h⟩

omit hs in
/-- A rule with an unclosed pattern is reported and added, and a global without a name is not added
in part. -/
theorem statement_whole_broken :
    (∃ s t, s = State.ofText 900 {} "orders" "rule R when A( then end" ∧ s.trials = 0 ∧
      statement s = .ok () t ∧ t.collector.errors.length = 1 ∧
      Grows .rule s.package t.package) ∧
    ∃ s f t, s = State.ofText 900 {} "orders" "global List" ∧ s.trials = 0 ∧
      statement s = .error f t ∧ s.cursor.index < t.cursor.index ∧ t.package = s.package := by
  constructor
  · have h : statement (.ofText 900 {} "orders" "rule R when A( then end") = .ok () _ :=
      ok_of_run' (by decide +kernel)
    have hkind : (State.ofText 900 {} "orders" "rule R when A( then end").cursor.current.kind =
      .keyword .rule := by decide +kernel
    refine ⟨_, _, rfl, rfl, h, by decide +kernel, ?_⟩
    rcases (statement_whole rfl).1 _ h with ⟨k, hk, hgrows⟩ | ⟨hk, -⟩
    · obtain rfl : k = .rule := TokenKind.keyword.inj (hk.symm.trans hkind)
      exact hgrows
    · rw [hkind] at hk
      cases hk
  · cases h : statement (.ofText 900 {} "orders" "global List") with
    | ok a t =>
      have hrun : (statement.run' (.ofText 900 {} "orders" "global List")).isSome = false := by
        decide +kernel
      unfold EStateM.run' EStateM.run at hrun
      rw [h] at hrun
      cases hrun
    | error f t =>
      refine ⟨_, f, t, rfl, rfl, h, ?_, (statement_whole rfl).2 f t h⟩
      rw [← after_of_error h]
      decide +kernel

end Rulebook.Parser
