import Rulebook.Proofs.TwinCode

/-!
# Names and types in two readings
-/

namespace Rulebook.Parser

variable {α : Type} {T : Readings}

theorem Rolls.of_symbol {k : Symbol} {body : α → Parser α} {f : α → Token → Parser α}
    [∀ a t, Orderly (f a t)] (hbody : ∀ a, body a = advance >>= f a) :
    Rolls (fun _ => nextIsSymbol k) body :=
  .of_advance hbody (fun _ _ => ⟨_, rfl⟩) fun _ s h => by
    rw [(kind_of_nextIsSymbol h).2]
    simp

section RepeatSymbol

variable {R : α → α → Prop} {k : Symbol} {body body' : α → Parser α}
  {f f' : α → Token → Parser α} [∀ a t, Orderly (f a t)] [∀ a t, Orderly (f' a t)]

/-- A repetition whose rounds each begin with a given symbol. -/
theorem Twin.repeatSymbol (hk : .symbol k ∉ T.borders) (hbody : ∀ a, body a = advance >>= f a)
    (hbody' : ∀ a, body' a = advance >>= f' a)
    (h : ∀ {a b c d}, R a b → c.Like T.likeness d → Twin T R (f a c) (f' b d)) {a b : α}
    (hab : R a b) :
    Twin T R (Parser.repeatWhile a (fun _ => nextIsSymbol k) body)
      (Parser.repeatWhile b (fun _ => nextIsSymbol k) body') := by
  have : ∀ a, Orderly (body a) := fun a => by rw [hbody]; infer_instance
  have : ∀ a, Orderly (body' a) := fun a => by rw [hbody']; infer_instance
  refine .repeatWhile (.of_symbol hbody) (.of_symbol hbody') (fun _ => .nextIsSymbol hk)
    (fun {a b} hab => ?_) (fun _ _ _ hno => hno.elim) hab
  rw [hbody, hbody']
  exact .bind .advance fun hcd => h hab hcd

/-- The same with a symbol that may follow where the second text is cut off. There the repetition
ends in the second reading alone. -/
theorem Twin.repeatSymbol_end (hbody : ∀ a, body a = advance >>= f a)
    (hbody' : ∀ a, body' a = advance >>= f' a)
    (h : ∀ {a b c d}, R a b → c.Like T.likeness d → Twin T R (f a c) (f' b d)) {a b : α}
    (hab : R a b) :
    Twin T R (Parser.repeatWhile a (fun _ => nextIsSymbol k) body)
      (Parser.repeatWhile b (fun _ => nextIsSymbol k) body') fun _ => State.AtEnd := by
  have : ∀ a, Orderly (body a) := fun a => by rw [hbody]; infer_instance
  have : ∀ a, Orderly (body' a) := fun a => by rw [hbody']; infer_instance
  refine .repeatWhile (.of_symbol hbody) (.of_symbol hbody') (fun _ => .nextIsSymbol_end k)
    (fun {a b} hab => ?_) (fun _ u hu hend => ?_) hab
  · rw [hbody, hbody']
    exact LiveTwin.bind .advance fun hcd => (h hab hcd).weaken
  · exact congrArg (EStateM.Result.ok · u) (decide_eq_false (by rw [hend.kind hu.hidden]; simp))

end RepeatSymbol

/-! ### Names -/

theorem Twin.dottedName : Twin T (· = ·) dottedName dottedName := by
  unfold Parser.dottedName
  refine .bind .name fun {a b} hab => .repeatSymbol (T.notMem_borders (by decide)) (fun _ => rfl)
    (fun _ => rfl) ?_ hab.text
  rintro text _ - - rfl -
  exact .bind .name fun hcd => .pure (by rw [hcd.text])

theorem Twin.arraySuffixes {first first' : α} {grow : α → α} (h : first = first') :
    Twin T (· = ·) (arraySuffixes first grow) (arraySuffixes first' grow) := by
  unfold Parser.arraySuffixes
  refine .repeatSymbol (T.notMem_borders (by decide)) (fun _ => rfl) (fun _ => rfl) ?_ h
  rintro a _ - - rfl -
  exact .bind (.symbol _) fun _ => .pure rfl

instance Eager.genericRound (x : String × Nat) : Eager (genericRound x) :=
  .of_current fun s => by
    by_cases h : s.cursor.current.kind = .endOfInput
    · rw [if_pos h]
      exact .of_fail _ s
    · rw [if_neg h]
      exact .bind_left (.advance h)

theorem Twin.genericRound (x : String × Nat) :
    Twin T (· = ·) (genericRound x) (genericRound x) := by
  refine .of_live (.current fun hab => .ite (by rw [hab.kind]) (.fail (.mismatchedToken _ hab)) ?_)
  dsimp only
  rw [hab.kind]
  exact .bind .advance fun _ => .pure (by rw [hab.text])

theorem LiveTwin.genericArguments : LiveTwin T (· = ·) genericArguments genericArguments := by
  have hrolls : Rolls (fun x => return x.2 ≠ 0) Parser.genericRound :=
    .of_eager fun _ s => ⟨_, rfl⟩
  unfold Parser.genericArguments
  refine .bind .advance fun {a b} hab => .bind (R := (· = ·)) (fun s t hst => ?_) ?_
  · refine .repeatWhile hrolls hrolls ?_ (fun _ _ _ hno => hno.elim) (by rw [hab.text]) hst
    rintro x _ s t rfl hst
    exact .inl ⟨_, rfl, rfl, fun _ => Twin.genericRound x hst⟩
  · rintro x - rfl
    exact .pure rfl

theorem Twin.typeName : Twin T (· = ·) typeName typeName := by
  unfold Parser.typeName
  refine .bind .dottedName ?_
  rintro base - rfl
  have harguments : LiveTwin T (· = ·) ((base ++ ·) <$> genericArguments)
      ((base ++ ·) <$> genericArguments) := by
    rw [map_eq_bind]
    exact .bind .genericArguments fun h => .pure (by rw [h])
  exact (Tests.nextIsSymbol (T.notMem_borders (by decide))).choose
    (.bind harguments fun h => .arraySuffixes h)
    (.bind (R := (· = ·)) (.pure rfl) fun h => .arraySuffixes h)

theorem LiveTwin.title : LiveTwin T (· = ·) title title := by
  unfold Parser.title
  refine .current fun {a b} hab => .ite (by rw [hab.kind]) ?_ (.ite (by rw [hab.isName]) ?_ ?_)
  · exact .bind .advance fun _ => .pure hab.stringValue
  · exact .bind .advance fun _ => .pure hab.text
  · exact .fail (.mismatchedSet _ hab)

/-! ### Parameters -/

variable [T.BetweenStatements]

theorem Twin.parameter : Twin T (· = ·) parameter parameter := by
  have hrest : ∀ type : Option String, Twin T (· = ·)
      (do
        let name ← Parser.name
        let type ← Parser.arraySuffixes type fun t => some (t.getD "Object" ++ "[]")
        return (⟨type, name.text⟩ : Parameter))
      (do
        let name ← Parser.name
        let type ← Parser.arraySuffixes type fun t => some (t.getD "Object" ++ "[]")
        return (⟨type, name.text⟩ : Parameter)) := fun type =>
    .bind .name fun hab => .bind (.arraySuffixes rfl) fun h => .pure (by rw [hab.text, h])
  refine .of_live ?_
  unfold Parser.parameter
  refine .bind .isUntyped ?_
  rintro untyped - rfl
  refine .ite Iff.rfl (.bind (R := (· = ·)) (.pure rfl) ?_)
    (.bind (R := (· = ·)) (.map .typeName (fun h => by rw [h]) fun _ _ hno => hno) ?_)
  · rintro type - rfl
    exact hrest type
  · rintro type - rfl
    exact hrest type

theorem Twin.parameterList : Twin T (· = ·) parameterList parameterList := by
  unfold Parser.parameterList
  refine .bind .parameter ?_
  rintro first - rfl
  refine .repeatSymbol (T.symbol_notMem_borders _) (fun _ => rfl) (fun _ => rfl) ?_ rfl
  rintro ps _ - - rfl -
  exact .bind .parameter fun h => .pure (by rw [h])

theorem Twin.parameters : Twin T (· = ·) parameters parameters := by
  unfold Parser.parameters
  refine .bind (.symbol _) fun _ => ?_
  exact (Tests.nextIsSymbol (T.symbol_notMem_borders _)).choose
    (.bind (R := (· = ·)) (Twin.pure rfl).live fun h => .bind (.symbol _) fun _ => .pure h)
    (.bind .parameterList fun h => .bind (.symbol _) fun _ => .pure h)

/-! ### Import targets -/

variable {s t : State}

omit [T.BetweenStatements] in
/-- Behind a token that does not end a statement, a name cannot be missing in one of the readings
alone. -/
theorem Agree.name (hst : T.Abreast s t) (hlive : T.Live s t) :
    Agree T False (Token.Like T.likeness) (fun _ _ => False) (name s) (name t) := by
  rw [name_eq, name_eq, hlive.isName]
  split
  · exact .ok rfl rfl hlive (hst.advanced hlive)
  · exact .error rfl rfl (.recognition (.inr (.mismatchedToken _ hlive))) hst

instance Eager.importPart (x : String × Bool) : Eager (importPart x) := by
  obtain ⟨text, closed⟩ := x
  unfold Parser.importPart
  refine @Eager.bind_right _ _ _ _ _ fun _ => .of_current fun s => ?_
  split
  · next h => exact .bind_left (.advance (by rw [h.1]; simp))
  · exact Eager.from_ s

theorem Agree.importPart (hst : T.Abreast s t) (hlive : T.Live s t)
    (hk : t.cursor.current.kind = .symbol .dot) (x : String × Bool) :
    Agree T False (· = ·) (fun _ _ => False) (importPart x s) (importPart x t) := by
  have hlive' := hst.live_advanced hlive (by rw [hk]; decide)
  have hst' := hst.advanced hlive
  obtain ⟨text, closed⟩ := x
  refine Agree.step (advance_eq s) (advance_eq t)
    (Agree.step (current_eq s.advanced) (current_eq t.advanced) ?_)
  rw [hlive'.kind, hlive'.text]
  split
  · exact .ok rfl rfl rfl (hst'.advanced hlive')
  · exact (Agree.name hst' hlive').seq fun hab huv _ _ => .ok rfl rfl (by rw [hab.text]) huv

theorem Agree.dottedName (hst : T.Abreast s t) (hlive : T.Live s t) :
    Agree T False (· = ·) (fun _ _ => False) (dottedName s) (dottedName t) := by
  have hrolls : Rolls (fun _ : String => nextIsSymbol .dot) (fun text => do
      let _ ← advance
      let part ← Parser.name
      return text ++ "." ++ part.text) :=
    .of_symbol fun _ => rfl
  unfold Parser.dottedName
  refine (Agree.name hst hlive).seq fun {a b u v} hab huv _ _ => ?_
  refine .repeatWhile hrolls hrolls ?_ (fun _ _ _ hno => hno.elim) hab.text huv
  rintro text _ u v rfl huv
  rcases Tests.nextIsSymbol (T.symbol_notMem_borders .dot) huv with ⟨c, hx, hy, hlive'⟩ |
    ⟨-, -, hno⟩
  · refine .inl ⟨c, hx, hy, fun hc => ?_⟩
    subst hc
    have hk : v.cursor.current.kind = .symbol .dot := (kind_of_nextIsSymbol hy).2
    refine Agree.step (advance_eq u) (advance_eq v) ?_
    exact (Agree.name (huv.advanced (hlive' rfl))
      (huv.live_advanced (hlive' rfl) (by rw [hk]; decide))).seq fun hcd hwx _ _ =>
        .ok rfl rfl (by rw [hcd.text]) hwx
  · exact hno.elim

theorem Agree.importTarget (hst : T.Abreast s t) (hlive : T.Live s t) :
    Agree T False (· = ·) (fun _ _ => False) (importTarget s) (importTarget t) := by
  have hrolls : Rolls (fun x => do return !x.2 && (← nextIsSymbol .dot))
      Parser.importPart := .of_eager fun _ s => ⟨_, rfl⟩
  unfold Parser.importTarget
  refine (Agree.name hst hlive).seq fun {a b u v} hab huv _ _ => ?_
  refine Agree.seq (R := (· = ·)) ?_ fun {x y u v} h huv _ _ => ?_
  · refine .repeatWhile hrolls hrolls ?_ (fun _ _ _ hno => hno.elim) (by rw [hab.text]) huv
    rintro ⟨text, closed⟩ _ u v rfl huv
    have htests := (Tests.nextIsSymbol (T.symbol_notMem_borders .dot)).and (x := !closed) rfl
    rcases htests huv with ⟨c, hx, hy, hlive'⟩ | ⟨-, -, hno⟩
    · refine .inl ⟨c, hx, hy, fun hc => ?_⟩
      subst hc
      have hk : (!closed && decide (v.cursor.current.kind = .symbol .dot)) = true :=
        (EStateM.Result.ok.inj hy).1
      rw [Bool.and_eq_true, decide_eq_true_eq] at hk
      exact Agree.importPart huv (hlive' rfl) hk.2 (text, closed)
    · exact hno.elim
  · subst h
    exact .ok rfl rfl rfl huv

end Rulebook.Parser
