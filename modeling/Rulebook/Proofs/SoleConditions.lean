import Rulebook.Proofs.Deeper
import Rulebook.Proofs.LocalityConditions
import Rulebook.Proofs.Steps

/-!
# Single conditions without a semicolon

A single condition is one of a few productions, which its first token tells, and a semicolon that
may follow. Where nothing continues it, it is all of a disjunction.
-/

namespace Rulebook.Parser

set_option synthInstance.maxSize 100000

variable {s t u : State} {c : Condition} {single single' : Parser Condition}

def soleCondition (single : Parser Condition) : Parser Condition := do
  let token ← current
  if token.kind = .keyword .exists_ then unaryGroup .exists_ .exists_ single
  else if token.kind = .keyword .not then unaryGroup .not .not single
  else if token.kind = .keyword .eval then evalCondition
  else if token.kind = .keyword .forall_ then forallCondition
  else if token.kind = .symbol .lparen then parenthesised single
  else if token.isName then .pattern <$> sourcedPattern
  else fail (.noViableAlternative "conditional element" token)

theorem singleCondition_eq (single : Parser Condition) :
    singleCondition single = soleCondition single >>= fun c => do
      skip .semicolon
      return c := by
  unfold singleCondition soleCondition
  rw [bind_assoc]
  congr
  funext token
  repeat' split
  all_goals rfl

instance (levels : Nat) : Local Continues (soleCondition (conditionWithin levels)) := by
  unfold soleCondition sourcedPattern
  infer_instance

section Single

variable (single) [Orderly single]

instance : Orderly (soleCondition single) := by unfold soleCondition; infer_instance

instance : Tokenwise (soleCondition single) := by unfold soleCondition; infer_instance

instance : Eager (soleCondition single) := by unfold soleCondition; infer_instance

end Single

/-! ### The productions of single conditions -/

def conditionKeywords : List TokenKind :=
  [.keyword .exists_, .keyword .not, .keyword .eval, .keyword .forall_]

inductive Sole (single : Parser Condition) (s : State) : Condition → State → Prop where
  | unary {k : Keyword} {kind : Grouping} {c : Condition} {t : State}
      (hk : (k, kind) ∈ [(Keyword.exists_, Grouping.exists_), (.not, .not)])
      (h : unaryGroup k kind single s = .ok c t) : Sole single s c t
  | eval {c : Condition} {t : State} (h : evalCondition s = .ok c t) : Sole single s c t
  | forall_ {c : Condition} {t : State} (h : forallCondition s = .ok c t) : Sole single s c t
  | parens {c : Condition} {t : State} (h : parenthesised single s = .ok c t) : Sole single s c t
  | pattern {p : Pattern} {t : State} (hkind : s.cursor.current.kind ∉ conditionKeywords)
      (h : sourcedPattern s = .ok p t) : Sole single s (.pattern p) t

theorem sole_of_ok (h : soleCondition single s = .ok c t) : Sole single s c t := by
  unfold soleCondition at h
  rw [bind_of_ok (current_eq s)] at h
  split at h
  · exact .unary (by simp) h
  next hexists =>
  split at h
  · exact .unary (by simp) h
  next hnot =>
  split at h
  · exact .eval h
  next heval =>
  split at h
  · exact .forall_ h
  next hforall =>
  split at h
  · exact .parens h
  split at h
  · obtain ⟨p, hp, rfl⟩ := map_eq_ok h
    exact .pattern (by simp [conditionKeywords, hexists, hnot, heval, hforall]) hp
  · cases h

/-- What a production that begins with a token takes first. -/
theorem kind_of_expect_bind {α : Type} {kind : TokenKind} {f : Token → Parser α} {a : α}
    (h : (expect kind >>= f) s = .ok a t) : s.cursor.current.kind = kind := by
  obtain ⟨token, u, hu, -⟩ := bind_eq_ok.1 h
  obtain ⟨rfl, hkind, -⟩ := expect_of_ok hu
  exact hkind

theorem isName_of_factPattern {p : Pattern} (h : factPattern s = .ok p t) :
    s.cursor.current.isName = true := by
  unfold factPattern at h
  rw [bind_of_ok (current_eq s)] at h
  obtain ⟨binding, u, hu, h⟩ := bind_eq_ok.1 h
  unfold bindingName at hu
  rw [bind_of_ok (current_eq s), bind_of_ok (peek_eq 1 s)] at hu
  split at hu
  · next hname => exact (Bool.and_eq_true_iff.1 hname).1
  · obtain ⟨-, rfl⟩ := pure_ok hu
    obtain ⟨_, v, hv, -⟩ := bind_eq_ok.1 h
    obtain ⟨token, w, hw, -⟩ := bind_eq_ok.1 hv
    rw [name_eq] at hw
    split at hw
    · assumption
    · cases hw

theorem exists_factPattern {levels : Nat} {p : Pattern} (h : patternWithin levels s = .ok p t) :
    ∃ q u, factPattern s = .ok q u := by
  cases levels with
  | zero => cases h
  | succ levels =>
    obtain ⟨q, u, hq, -⟩ := bind_eq_ok.1 h
    exact ⟨q, u, hq⟩

theorem isName_of_patternWithin {levels : Nat} {p : Pattern}
    (h : patternWithin levels s = .ok p t) : s.cursor.current.isName = true :=
  let ⟨_, _, hq⟩ := exists_factPattern h
  isName_of_factPattern hq

theorem Sole.ok (h : Sole single s c t) : soleCondition single s = .ok c t := by
  unfold soleCondition
  rw [bind_of_ok (current_eq s)]
  cases h with
  | unary hk h =>
    have hkind := kind_of_expect_bind h
    rcases List.mem_cons.1 hk with heq | hk
    · cases heq
      rw [if_pos hkind]
      exact h
    · cases List.mem_singleton.1 hk
      rw [hkind, if_neg (by decide), if_pos rfl]
      exact h
  | eval h =>
    rw [kind_of_expect_bind h, if_neg (by decide), if_neg (by decide), if_pos rfl]
    exact h
  | forall_ h =>
    rw [kind_of_expect_bind h, if_neg (by decide), if_neg (by decide), if_neg (by decide),
      if_pos rfl]
    exact h
  | parens h =>
    rw [kind_of_expect_bind h, if_neg (by decide), if_neg (by decide), if_neg (by decide),
      if_neg (by decide), if_pos rfl]
    exact h
  | pattern hkind h =>
    have hname := isName_of_patternWithin ((sourcedPattern_eq s).symm.trans h)
    have hparen : s.cursor.current.kind ≠ .symbol .lparen := fun heq => by
      rw [Token.isName, heq] at hname
      cases hname
    simp only [conditionKeywords, List.mem_cons, not_or, List.not_mem_nil, not_false_eq_true,
      and_true] at hkind
    rw [if_neg hkind.1, if_neg hkind.2.1, if_neg hkind.2.2.1, if_neg hkind.2.2.2, if_neg hparen,
      if_pos hname, map_of_ok h]

theorem Sole.mono (h : Extends single single') (hsole : Sole single s c t) :
    Sole single' s c t := by
  cases hsole with
  | unary hk hc => exact .unary hk ((h.unaryGroup _ _).ok hc)
  | eval hc => exact .eval hc
  | forall_ hc => exact .forall_ hc
  | parens hc => exact .parens (h.parenthesised.ok hc)
  | pattern hkind hp => exact .pattern hkind hp

/-! ### Before what does not continue a condition -/

theorem skip_of_end (h : s.cursor.current.kind ∉ continuingKinds) :
    skip .semicolon s = .ok () s := by
  unfold skip
  rw [bind_of_ok (accept_of_ne fun heq => absurd (heq ▸ h) (by decide))]
  rfl

theorem infixGroup_of_end {kind : Grouping} {connectives : List TokenKind}
    (hkinds : connectives ∈ [orKinds, andKinds]) (h : single s = .ok c t)
    (hend : t.cursor.current.kind ∉ continuingKinds) :
    infixGroup kind connectives single s = .ok c t := by
  have hsubset : ∀ kinds ∈ [orKinds, andKinds], kinds ⊆ continuingKinds := by decide
  have hstop : nextIs connectives t = .ok false t := by
    rw [nextIs_eq, decide_eq_false fun hno => hend (hsubset _ hkinds hno)]
  unfold infixGroup
  rw [bind_of_ok h]
  have hnone : repeatWhile [] (fun _ => nextIs connectives) (fun others => do
      let _ ← advance
      return others ++ [← single]) t = .ok [] t := repeatWhile_unasked hstop
  exact bind_of_ok hnone

variable {levels : Nat}

theorem conditions_of_conjunction (hlevels : levels ≤ s.stack.frames + 1)
    (h : infixGroup .and andKinds (conditionWithin levels) s = .ok c t)
    (hend : t.cursor.current.kind ∉ continuingKinds) : conditions s = .ok c t := by
  rw [conditions_eq]
  exact infixGroup_of_end (by simp) (((Extends.conditionWithin hlevels).infixGroup _ _).ok h) hend

theorem conditions_of_disjunction (hlevels : levels ≤ s.stack.frames + 1)
    (h : disjunction (conditionWithin levels) s = .ok c t) : conditions s = .ok c t := by
  rw [conditions_eq]
  exact (Extends.conditionWithin hlevels).disjunction.ok h

theorem conditions_of_sole (hlevels : levels ≤ s.stack.frames)
    (h : Sole (conditionWithin levels) s c t) (hend : t.cursor.current.kind ∉ continuingKinds) :
    conditions s = .ok c t := by
  have hsole := (h.mono (Extends.conditionWithin hlevels)).ok
  have hsingle : conditionWithin (s.stack.frames + 1) s = .ok c t := by
    rw [conditionWithin, singleCondition_eq, bind_of_ok hsole, bind_of_ok (skip_of_end hend)]
    rfl
  rw [conditions_eq]
  exact infixGroup_of_end (by simp) (infixGroup_of_end (by simp) hsingle hend) hend

theorem patternWithin_of_factPattern {p : Pattern} (h : factPattern s = .ok p t)
    (hend : t.cursor.current.kind ∉ continuingKinds) : patternWithin (levels + 1) s = .ok p t := by
  have hfrom : nextIsKeyword .from_ t = .ok false t :=
    congrArg (EStateM.Result.ok · t) (decide_eq_false fun heq => absurd (heq ▸ hend) (by decide))
  unfold patternWithin
  rw [bind_of_ok h, bind_of_ok hfrom]
  rfl

theorem conditions_of_pattern {p : Pattern} (hlevels : levels ≤ s.stack.frames + 1)
    (hkind : s.cursor.current.kind ∉ conditionKeywords) (h : patternWithin levels s = .ok p t)
    (hend : t.cursor.current.kind ∉ continuingKinds) : conditions s = .ok (.pattern p) t := by
  have hp : sourcedPattern s = .ok p t :=
    (sourcedPattern_eq s).trans ((Extends.patternWithin hlevels).ok h)
  exact conditions_of_sole (Nat.zero_le _) (.pattern hkind hp) hend

theorem notMem_continuingKinds_of_end {kind : TokenKind} (h : kind = .endOfInput) :
    kind ∉ continuingKinds := by
  rw [h]
  decide

end Rulebook.Parser
