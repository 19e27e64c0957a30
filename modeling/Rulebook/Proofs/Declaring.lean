import Rulebook.Proofs.LayoutUnit

/-!
# What a statement declares

Outside trials, a statement that is read adds one declaration to the end of its list in the package
and changes nothing else of it. The declaration covers the text from the keyword of the statement up
to the last token that was taken, also where recovery skipped a part of it. Only a second package
declaration adds nothing.
-/

namespace Rulebook

/-- One declaration is added to a package, at the end of its list. It begins with a keyword and has
a location. -/
inductive Package.Adds (p : Package) : Keyword → Location → Package → Prop where
  | import_ (i : Import) : Adds p .import_ i.location { p with imports := p.imports ++ [i] }
  | functionImport (i : Import) :
      Adds p .import_ i.location { p with functionImports := p.functionImports ++ [i] }
  | global (g : Global) : Adds p .global g.location { p with globals := p.globals ++ [g] }
  | function (f : Function) : Adds p .function f.location { p with functions := p.functions ++ [f] }
  | template (t : Template) : Adds p .template t.location { p with templates := p.templates ++ [t] }
  | rule (r : Rule) : Adds p .rule r.location { p with rules := p.rules ++ [.rule r] }
  | query (q : Query) : Adds p .query q.location { p with rules := p.rules ++ [.query q] }

namespace Parser

set_option synthInstance.maxSize 100000

variable {α β : Type} {text : String} {s t u v : State}

/-- One state is not before another in a text, and nothing was declared in between. -/
structure State.Reads (text : String) (s t : State) : Prop extends s.Onward text t where
  package : t.package = s.package
  trials : t.trials = s.trials

namespace State.Reads

theorem of_ok {p : Parser α} [Orderly p] [Inert p] {a : α} (hs : s.cursor.Over text)
    (h : p s = .ok a t) : s.Reads text t :=
  ⟨.of_ok hs h, Inert.package_ok p h, (Orderly.evolves_ok p h).trials⟩

theorem trans (h : s.Reads text t) (h' : t.Reads text u) : s.Reads text u :=
  ⟨h.toOnward.trans h'.toOnward, h'.package.trans h.package, h'.trials.trans h.trials⟩

theorem next {p : Parser α} [Orderly p] [Inert p] {a : α} (h : s.Reads text t)
    (hp : p t = .ok a u) : s.Reads text u :=
  h.trans (.of_ok h.stays hp)

end State.Reads

/-- A statement declared something. -/
def State.Declares (text : String) (s t : State) : Prop :=
  ∃ k l, s.cursor.current.kind = .keyword k ∧ s.package.Adds k l t.package ∧
    l.Covers text s.cursor.coming t.cursor.past

theorem declared_of_close {k : Keyword} {token : Token} {a : α} (node : Location → α)
    (location : α → Location) (change : α → Package → Package)
    (hlocation : ∀ l, location (node l) = l)
    (hadds : ∀ a (p : Package), p.Adds k (location a) (change a p)) (hs : s.cursor.Over text)
    (htrials : s.trials = 0) (hkeyword : keyword k s = .ok token t) (hread : t.Reads text u)
    (h : (do
      let l ← close (.ofToken token)
      declare (change (node l))
      return node l : Parser α) u = .ok a v) : s.Declares text v := by
  have htaken := taken_of_keyword hs hkeyword
  have hst : s.Reads text t := .of_ok hs hkeyword
  have hlt : token.start < u.cursor.past := Nat.lt_of_lt_of_le htaken.lt_past hread.past_le
  obtain ⟨rfl, hk, -⟩ := expect_of_ok hkeyword
  obtain ⟨l, w, hl, hrest⟩ := bind_eq_ok.1 h
  obtain ⟨hw, hcovers⟩ := covers_of_close hl htaken.stands (by rwa [(close_ok hl).1])
  subst hw
  have hdeclare := declare_eq (change (node l)) w
  have htw : w.trials = 0 := (hread.trials.trans hst.trials).trans htrials
  rw [htw, if_neg (Nat.lt_irrefl 0)] at hdeclare
  obtain ⟨_, x, hx, hrest⟩ := bind_eq_ok.1 hrest
  obtain ⟨-, rfl⟩ := EStateM.Result.ok.inj (hdeclare.symm.trans hx)
  obtain ⟨-, rfl⟩ := pure_ok hrest
  refine ⟨k, location (node l), hk, ?_, ?_⟩
  · show s.package.Adds k _ (change (node l) w.package)
    rw [hread.package, hst.package]
    exact hadds (node l) s.package
  · rw [hlocation l]
    exact hcovers

theorem importStatement_declares (hs : s.cursor.Over text) (htrials : s.trials = 0) {i : Import}
    (h : importStatement s = .ok i t) : s.Declares text t := by
  obtain ⟨token, u, hu, h⟩ := bind_eq_ok.1 h
  obtain ⟨target, v, hv, h⟩ := bind_eq_ok.1 h
  obtain ⟨_, w, hw, h⟩ := bind_eq_ok.1 h
  have hread := (State.Reads.of_ok (State.Reads.of_ok hs hu).stays hv).next hw
  exact declared_of_close (fun l => Import.mk l target) Import.location
    (fun i p => { p with imports := p.imports ++ [i] }) (fun _ => rfl) (fun i _ => .import_ i)
    hs htrials hu hread h

theorem functionImport_declares (hs : s.cursor.Over text) (htrials : s.trials = 0) {i : Import}
    (h : functionImport s = .ok i t) : s.Declares text t := by
  obtain ⟨token, u, hu, h⟩ := bind_eq_ok.1 h
  obtain ⟨_, u', hu', h⟩ := bind_eq_ok.1 h
  obtain ⟨target, v, hv, h⟩ := bind_eq_ok.1 h
  obtain ⟨_, w, hw, h⟩ := bind_eq_ok.1 h
  have hread := ((State.Reads.of_ok (State.Reads.of_ok hs hu).stays hu').next hv).next hw
  exact declared_of_close (fun l => Import.mk l target) Import.location
    (fun i p => { p with functionImports := p.functionImports ++ [i] }) (fun _ => rfl)
    (fun i _ => .functionImport i) hs htrials hu hread h

theorem globalStatement_declares (hs : s.cursor.Over text) (htrials : s.trials = 0) {g : Global}
    (h : globalStatement s = .ok g t) : s.Declares text t := by
  obtain ⟨token, u, hu, h⟩ := bind_eq_ok.1 h
  obtain ⟨type, u', hu', h⟩ := bind_eq_ok.1 h
  obtain ⟨name, v, hv, h⟩ := bind_eq_ok.1 h
  obtain ⟨_, w, hw, h⟩ := bind_eq_ok.1 h
  have hread := ((State.Reads.of_ok (State.Reads.of_ok hs hu).stays hu').next hv).next hw
  exact declared_of_close (fun l => Global.mk l type name.text) Global.location
    (fun g p => { p with globals := p.globals ++ [g] }) (fun _ => rfl) (fun g _ => .global g)
    hs htrials hu hread h

theorem functionStatement_declares (hs : s.cursor.Over text) (htrials : s.trials = 0) {f : Function}
    (h : functionStatement s = .ok f t) : s.Declares text t := by
  obtain ⟨token, u, hu, h⟩ := bind_eq_ok.1 h
  obtain ⟨type, u', hu', h⟩ := bind_eq_ok.1 h
  obtain ⟨name, v, hv, h⟩ := bind_eq_ok.1 h
  obtain ⟨ps, w, hw, h⟩ := bind_eq_ok.1 h
  obtain ⟨body, x, hx, h⟩ := bind_eq_ok.1 h
  obtain ⟨now, y, hy, h⟩ := bind_eq_ok.1 h
  have hread := ((((State.Reads.of_ok (State.Reads.of_ok hs hu).stays hu').next hv).next hw).next
    hx).next hy
  exact declared_of_close (fun l => Function.mk l name.text type ps (withoutDelimiters body)
      (dialectOf now.package.attributes)) Function.location
    (fun f p => { p with functions := p.functions ++ [f] }) (fun _ => rfl) (fun f _ => .function f)
    hs htrials hu hread h

instance : Inert slot := by unfold slot; infer_instance

theorem templateStatement_declares (hs : s.cursor.Over text) (htrials : s.trials = 0) {x : Template}
    (h : templateStatement s = .ok x t) : s.Declares text t := by
  obtain ⟨token, u, hu, h⟩ := bind_eq_ok.1 h
  obtain ⟨title, v, hv, h⟩ := bind_eq_ok.1 h
  obtain ⟨_, w, hw, h⟩ := bind_eq_ok.1 h
  obtain ⟨slots, y, hy, h⟩ := bind_eq_ok.1 h
  split at h
  · obtain ⟨_, _, _, h⟩ := bind_eq_ok.1 h
    cases h
  · obtain ⟨_, z, hz, h⟩ := bind_eq_ok.1 h
    obtain ⟨_, z', hz', h⟩ := bind_eq_ok.1 h
    have hread := ((((State.Reads.of_ok (State.Reads.of_ok hs hu).stays hv).next hw).next hy).next
      hz).next hz'
    exact declared_of_close (fun l => Template.mk l title slots) Template.location
      (fun t p => { p with templates := p.templates ++ [t] }) (fun _ => rfl)
      (fun t _ => .template t) hs htrials hu hread h

/-! ### Rules and queries -/

theorem covers_of_recovering {k : Keyword} {token : Token} {name name' : String}
    {body : Parser (Harvest α)} [Orderly body] [Inert body] {locate : α → Location → α} {x : α}
    (hs : s.cursor.Over text) (hkeyword : keyword k s = .ok token t)
    (htitle : title t = .ok name' u)
    (h : recovering name body locate (.ofToken token) u = .ok x v) :
    s.cursor.current.kind = .keyword k ∧ s.Reads text v ∧
      ∃ found l, x = locate found l ∧ l.Covers text s.cursor.coming v.cursor.past := by
  have htaken := taken_of_keyword hs hkeyword
  have hst : s.Reads text t := .of_ok hs hkeyword
  have hsu := hst.next htitle
  have hlt : token.start < u.cursor.past :=
    Nat.lt_of_lt_of_le htaken.lt_past (State.Onward.of_ok hst.stays htitle).past_le
  obtain ⟨r, x, l, -, -, rfl, hcovers⟩ := recovering_ok hsu.stays htaken.stands hlt h
  obtain ⟨rfl, hk, -⟩ := expect_of_ok hkeyword
  exact ⟨hk, hsu.next h, r.found, l, rfl, hcovers⟩

theorem ruleStatement_declares (hs : s.cursor.Over text) (htrials : s.trials = 0) {r : Rule}
    (h : ruleStatement s = .ok r t) : s.Declares text t := by
  obtain ⟨token, u, hu, h⟩ := bind_eq_ok.1 h
  obtain ⟨name, v, hv, h⟩ := bind_eq_ok.1 h
  obtain ⟨now, _, hnow, h⟩ := bind_eq_ok.1 h
  cases hnow
  obtain ⟨rule, w, hw, h⟩ := bind_eq_ok.1 h
  obtain ⟨hk, hread, found, l, rfl, hcovers⟩ := covers_of_recovering hs hu hv hw
  have htw : w.trials = 0 := hread.trials.trans htrials
  obtain ⟨trying, _, htrying, h⟩ := bind_eq_ok.1 h
  cases htrying
  split at h
  · next hpos => simp [htw] at hpos
  · obtain ⟨_, x, hx, h⟩ := bind_eq_ok.1 h
    obtain ⟨_, y, hy, h⟩ := bind_eq_ok.1 h
    rw [declare_eq, htw, if_neg (Nat.lt_irrefl 0)] at hx
    cases hx
    cases hy
    obtain ⟨-, rfl⟩ := pure_ok h
    refine ⟨.rule, l, hk, ?_, hcovers⟩
    show s.package.Adds .rule l { w.package with rules := _ }
    rw [hread.package]
    exact .rule { found with location := l }

theorem queryStatement_declares (hs : s.cursor.Over text) (htrials : s.trials = 0) {q : Query}
    (h : queryStatement s = .ok q t) : s.Declares text t := by
  obtain ⟨token, u, hu, h⟩ := bind_eq_ok.1 h
  obtain ⟨name, v, hv, h⟩ := bind_eq_ok.1 h
  obtain ⟨query, w, hw, h⟩ := bind_eq_ok.1 h
  obtain ⟨hk, hread, found, l, rfl, hcovers⟩ := covers_of_recovering hs hu hv hw
  have htw : w.trials = 0 := hread.trials.trans htrials
  obtain ⟨_, x, hx, h⟩ := bind_eq_ok.1 h
  rw [declare_eq, htw, if_neg (Nat.lt_irrefl 0)] at hx
  cases hx
  obtain ⟨-, rfl⟩ := pure_ok h
  refine ⟨.query, l, hk, ?_, hcovers⟩
  show s.package.Adds .query l { w.package with rules := _ }
  rw [hread.package]
  exact .query { found with location := l }

/-! ### Statements -/

theorem statement_declares (hs : s.cursor.Over text) (htrials : s.trials = 0)
    (h : statement s = .ok () t) : s.Declares text t ∨ packageStatement true s = .ok () t := by
  have hread : ∀ {α : Type} {p : Parser α} {s : State},
      (∀ {a t}, p s = .ok a t → s.Declares text t) → (p >>= fun _ => pure ()) s = .ok () t →
      s.Declares text t := fun hp h => by
    obtain ⟨a, u, hu, h⟩ := bind_eq_ok.1 h
    obtain ⟨-, rfl⟩ := pure_ok h
    exact hp hu
  unfold statement at h
  rw [bind_of_ok (current_eq s)] at h
  obtain ⟨p, hp, h⟩ : ∃ p : Parser Unit, p = _ ∧ p s = .ok () t := ⟨_, rfl, h⟩
  split at hp <;> subst hp
  · obtain ⟨b, u, hu, h⟩ := bind_eq_ok.1 h
    obtain ⟨hcursor, hpackage⟩ := trial_ok hu
    have htrials : u.trials = 0 := (Orderly.evolves_ok _ hu).trials.trans htrials
    have hs : u.cursor.Over text := hcursor ▸ hs
    have hdeclares : u.Declares text t := by
      split at h
      · exact hread (functionImport_declares hs htrials) h
      · exact hread (importStatement_declares hs htrials) h
    unfold State.Declares at hdeclares
    rw [hcursor, hpackage] at hdeclares
    exact .inl hdeclares
  · exact .inl (hread (globalStatement_declares hs htrials) h)
  · exact .inl (hread (functionStatement_declares hs htrials) h)
  · exact .inl (hread (templateStatement_declares hs htrials) h)
  · exact .inl (hread (ruleStatement_declares hs htrials) h)
  · exact .inl (hread (queryStatement_declares hs htrials) h)
  · exact .inr h
  · cases h

end Parser

end Rulebook
