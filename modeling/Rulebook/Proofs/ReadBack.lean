import Rulebook.Parser.Condition
import Rulebook.Proofs.Deeper
import Rulebook.Proofs.WrittenConditions

/-!
# Reading written conditions

Every tree of conditions is read back from any of its phrases. A phrase is read by the production
for single conditions, for conjunctions or for disjunctions, by how loosely it is joined, and what
follows it may not go on with it there.
-/

namespace Rulebook

namespace Parser

open Lexeme

variable {I : State → Prop} [Lasting I] {l more : List Piece} {Q : Condition → Prop}

/-! ### Groups between connectives -/

theorem join_of_ne_nil (kind : Grouping) (c : Condition) {cs : List Condition} (h : cs ≠ []) :
    ∃ location, join kind c cs = .group kind location (c :: cs) := by
  unfold join
  cases hlast : cs.getLast? with
  | none => exact absurd (List.getLast?_eq_none_iff.1 hlast) h
  | some last => exact ⟨_, rfl⟩

section InfixGroups

variable {kind : Grouping} {connectives : List TokenKind} {operand : Parser Condition} {γ : Type}
  {connective : γ → Piece} {piece : γ → List Piece} {R : γ → Condition → Prop}

theorem parses_infixGroup (others : List γ)
    (hconnectives : ∀ k ∈ connectives, k.isTrivia = false ∧ k ≠ .endOfInput)
    (hothers : ∀ y ∈ others, (connective y).1 ∈ connectives)
    (hmore : nextKind more ∉ connectives)
    (hfirst : ∀ {left}, left = more ∨ nextKind left ∈ connectives → Parses I operand l left Q)
    (hoperand : ∀ y ∈ others, ∀ {left}, left = more ∨ nextKind left ∈ connectives →
      Parses I operand (piece y) left (R y)) :
    Parses I (infixGroup kind connectives operand)
      (l ++ others.flatMap fun y => .blank :: connective y :: .blank :: piece y) more
      fun c => ∃ first cs, Q first ∧ List.Forall₂ R others cs ∧ c = join kind first cs := by
  have hsolid : ∀ y ∈ others, (connective y).isTrivia = false := fun y hy =>
    (hconnectives _ (hothers y hy)).1
  have hkind : ∀ y ∈ others, ∀ m, nextKind (.blank :: connective y :: m) = (connective y).1 :=
    fun y hy m => by rw [nextKind_blank, nextKind_cons (hsolid y hy)]
  have hleft : ∀ left : List γ, (∀ y ∈ left, y ∈ others) →
      left.flatMap (fun y => Piece.blank :: connective y :: .blank :: piece y) ++ more = more ∨
        nextKind
        (left.flatMap (fun y => Piece.blank :: connective y :: .blank :: piece y) ++ more) ∈
          connectives := by
    intro left hmem
    cases left with
    | nil => exact .inl rfl
    | cons y left =>
      refine .inr ?_
      have hy := hmem y List.mem_cons_self
      have hnext := hkind y hy (.blank :: piece y ++ (left.flatMap (fun y =>
        Piece.blank :: connective y :: .blank :: piece y) ++ more))
      rw [List.flatMap_cons, List.append_assoc]
      exact hnext ▸ hothers y hy
  unfold infixGroup
  refine Parses.bind (hfirst (hleft others fun _ => id)) fun first hfirst => ?_
  refine Parses.before (Parses.repeatWhile others (fun done cs => List.Forall₂ R done cs) .nil ?_ ?_
    ?_ ?_) fun cs hcs => .pure ⟨first, cs, hfirst, hcs, rfl⟩
  · intro y hy
    rw [hkind y hy]
    exact (hconnectives _ (hothers y hy)).2
  · intro done y left cs hitems _
    have hy : y ∈ others := by rw [hitems]; simp
    refine (Parses.nextIs connectives).mono fun b hb => ?_
    rw [hb]
    exact decide_eq_true ((hkind y hy _).symm ▸ hothers y hy)
  · intro done y left cs hitems hdone
    have hy : y ∈ others := by rw [hitems]; simp
    refine Parses.bind (l := [.blank, connective y])
      (Parses.advance (hsolid y hy) (hconnectives _ (hothers y hy)).2).blank fun _ _ => ?_
    refine Parses.blank (Parses.before (hoperand y hy (hleft left fun z hz => ?_)) fun c hc => ?_)
    · rw [hitems]
      simp [hz]
    · exact .pure (List.rel_append hdone (.cons hc .nil))
  · intro cs _
    refine (Parses.nextIs connectives).mono fun b hb => ?_
    rw [hb]
    exact decide_eq_false hmore

theorem parses_infixGroup_single (hmore : nextKind more ∉ connectives)
    (h : Parses I operand l more Q) : Parses I (infixGroup kind connectives operand) l more Q := by
  unfold infixGroup
  refine Parses.before h fun c hc => Parses.before (Parses.repeatWhile_stop ?_) fun cs hcs => ?_
  · refine (Parses.nextIs connectives).mono fun b hb => ?_
    rw [hb]
    exact decide_eq_false hmore
  · subst hcs
    exact .pure hc

end InfixGroups

/-! ### Parentheses -/

variable {single : Parser Condition}

theorem parses_parenthesised
    (hstart : nextKind (l ++ .symbol .rparen :: more) ∉ [.keyword .or, .keyword .and])
    (h : Parses I (disjunction (nested .group single)) l (.symbol .rparen :: more) Q) :
    Parses I (parenthesised single) (.symbol .lparen :: (l ++ [.symbol .rparen])) more Q := by
  unfold parenthesised
  refine Parses.bind (l := [.symbol .lparen]) (Parses.symbol .lparen) fun _ _ => ?_
  refine Parses.after (Parses.nextIs _) fun b hb => ?_
  rw [List.append_eq, List.append_assoc] at hb
  rw [if_neg (by rw [hb, decide_eq_true_eq]; exact hstart)]
  refine Parses.bind h fun c hc => ?_
  exact Parses.before (Parses.symbol .rparen) fun _ _ => .pure hc

/-- The operands of a group behind its connective, in parentheses. -/
theorem parses_prefixGroup {γ : Type} {piece : γ → List Piece} {R : γ → Condition → Prop}
    (kind : Junction) (first : γ) {others : List γ} (more : List Piece) (hne : others ≠ [])
    (hstart : ∀ y m, nextKind (piece y ++ m) ∈ startKinds)
    (hoperand : ∀ y ∈ first :: others, ∀ {left}, nextKind left ≠ .symbol .semicolon →
      Parses I (nested .prefixed single) (piece y) left (R y)) :
    Parses I (parenthesised single)
      (.symbol .lparen :: .keyword kind.keyword ::
        ((first :: others).flatMap (fun y => .blank :: piece y) ++ [.symbol .rparen])) more
      fun c => ∃ location c₀ cs, R first c₀ ∧ List.Forall₂ R others cs ∧
        c = .group kind.grouping location (c₀ :: cs) := by
  have hnext : ∀ y m, nextKind ((.blank :: piece y) ++ m) ∈ startKinds := fun y m => hstart y m
  unfold parenthesised
  refine Parses.bind (l := [.symbol .lparen]) (Parses.symbol .lparen) fun _ _ => ?_
  refine Parses.after (Parses.nextIs _) fun b hb => ?_
  have hb : b = decide (TokenKind.keyword kind.keyword ∈ [.keyword .or, .keyword .and]) := hb
  rw [if_pos (by rw [hb]; cases kind <;> rfl)]
  unfold prefixGroup
  refine Parses.bind (l := [.keyword kind.keyword]) (Q := (·.piece = .keyword kind.keyword))
    (Parses.advance rfl (by simp [Piece.keyword])) fun connective hconnective => ?_
  refine Parses.bind (l := (first :: others).flatMap fun y => .blank :: piece y)
    (m := [.symbol .rparen]) (Q := fun cs => List.Forall₂ R (first :: others) cs)
    (Parses.repeatWhile (first :: others) (fun done cs => List.Forall₂ R done cs)
    .nil ?_ ?_ ?_ ?_) fun cs hall => ?_
  · intro y _ hend
    have hmem := hnext y []
    rw [List.append_nil, hend] at hmem
    exact absurd hmem (by decide)
  · intro done y left cs _ _
    refine Parses.before (Parses.nextIs _) fun b hb => .pure ?_
    rw [hb, decide_eq_false ((by decide : ∀ k ∈ startKinds, k ∉ _) _ (hnext y _))]
    rfl
  · intro done y left cs hitems hdone
    have hy : y ∈ first :: others := by rw [hitems]; simp
    refine Parses.blank (Parses.before (hoperand y hy ?_) fun c hc => ?_)
    · cases left with
      | nil => simp
      | cons z left =>
        rw [List.flatMap_cons, List.append_assoc]
        exact (by decide : ∀ k ∈ startKinds, k ≠ _) _ (hnext z _)
    · exact .pure (List.rel_append hdone (.cons hc .nil))
  · intro cs _
    refine Parses.before (Parses.nextIs _) fun b hb => .pure ?_
    rw [hb]
    rfl
  · obtain ⟨c₀, cs, hc, hcs, rfl⟩ := List.forall₂_cons_left_iff.1 hall
    refine Parses.before (Parses.symbol .rparen) fun _ _ => .pure ?_
    have hkind :
        (if connective.kind = .keyword .or then Grouping.or else .and) = kind.grouping := by
      rw [show connective.kind = .keyword kind.keyword from congrArg Prod.fst hconnective]
      cases kind <;> rfl
    obtain ⟨location, hjoin⟩ := join_of_ne_nil kind.grouping c₀ fun (hnil : cs = []) => by
      rw [hnil] at hcs
      exact hne (List.forall₂_nil_right_iff.1 hcs)
    exact ⟨location, c₀, cs, hc, hcs, by rw [hkind, hjoin]⟩

/-! ### Single conditions -/

section Singles

theorem parses_unterminated {p : Parser Condition} (hmore : nextKind more ≠ .symbol .semicolon)
    (h : Parses I p l more Q) :
    Parses I (p >>= fun c => skip .semicolon >>= fun _ => pure c) l more Q :=
  h.before fun _ hc => Parses.after (Parses.skip_of_ne _ hmore) fun _ _ => .pure hc

theorem parses_single_parenthesised (hmore : nextKind more ≠ .symbol .semicolon)
    (h : Parses I (parenthesised single) (.symbol .lparen :: l) more Q) :
    Parses I (singleCondition single) (.symbol .lparen :: l) more Q := by
  unfold singleCondition
  refine Parses.ofCurrent fun token htoken => ?_
  have htoken : token.kind = .symbol .lparen := htoken
  simp only [htoken, reduceCtorEq, if_false, if_true]
  exact parses_unterminated hmore h

theorem parses_single_pattern (hfirst : nextKind (l ++ more) = .identifier)
    (hmore : nextKind more ≠ .symbol .semicolon) {R : Pattern → Prop}
    (h : Parses I sourcedPattern l more R) :
    Parses I (singleCondition single) l more fun c => ∃ p, R p ∧ c = .pattern p := by
  unfold singleCondition
  refine Parses.ofCurrent fun token htoken => ?_
  rw [hfirst] at htoken
  have hname : token.isName = true := by rw [Token.isName, htoken]; rfl
  simp only [htoken, hname, reduceCtorEq, if_false, if_true]
  exact parses_unterminated hmore (h.map fun p hp => ⟨p, hp, rfl⟩)

theorem parses_operand_pattern (hfirst : nextKind (l ++ more) = .identifier) {R : Pattern → Prop}
    (h : Parses I sourcedPattern l more R) :
    Parses I (operand single) l more fun c => ∃ p, R p ∧ c = .pattern p := by
  unfold operand
  refine Parses.after (Parses.nextIsSymbol _) fun b hb => ?_
  rw [if_neg (by rw [hb, hfirst]; simp)]
  exact h.map fun p hp => ⟨p, hp, rfl⟩

theorem parses_operand_parenthesised
    (h : Parses I (parenthesised single) (.symbol .lparen :: l) more Q) :
    Parses I (operand single) (.symbol .lparen :: l) more Q := by
  unfold operand
  refine Parses.after (Parses.nextIsSymbol _) fun b hb => ?_
  rw [if_pos (by rw [hb]; rfl)]
  exact h

theorem parses_unaryGroup (kind : Unary)
    (h : Parses I (nested .operand (operand single)) l more Q) :
    Parses I (unaryGroup kind.keyword kind.grouping single) (.keyword kind.keyword :: l) more
      fun c => ∃ location c₀, Q c₀ ∧ c = .group kind.grouping location [c₀] := by
  unfold unaryGroup
  refine Parses.bind (l := [.keyword kind.keyword]) (Parses.keyword _) fun _ _ => ?_
  refine h.before fun c hc => ?_
  exact Parses.after (Parses.close _) fun location _ => .pure ⟨location, c, hc, rfl⟩

theorem parses_single_unary (kind : Unary) (hmore : nextKind more ≠ .symbol .semicolon)
    (h : Parses I (nested .operand (operand single)) l more Q) :
    Parses I (singleCondition single) (.keyword kind.keyword :: l) more
      fun c => ∃ location c₀, Q c₀ ∧ c = .group kind.grouping location [c₀] := by
  have hgroup := parses_unterminated hmore (parses_unaryGroup kind h)
  unfold singleCondition
  refine Parses.ofCurrent fun token htoken => ?_
  have htoken : token.kind = .keyword kind.keyword := htoken
  cases kind with
  | exists_ =>
    simp only [htoken, Unary.keyword, if_true]
    exact hgroup
  | not =>
    simp only [htoken, Unary.keyword, TokenKind.keyword.injEq, reduceCtorEq, if_false, if_true]
    exact hgroup

variable {settings : Settings}

theorem parses_single_eval (code : EvalText settings) (hmore : nextKind more ≠ .symbol .semicolon) :
    Parses (State.Roomy I code.frames) (singleCondition single)
      (.keyword .eval :: .symbol .lparen :: (code.pieces ++ [.symbol .rparen])) more
      fun c => ∃ location, c = .eval location code.text := by
  unfold singleCondition
  refine Parses.ofCurrent fun token htoken => ?_
  have htoken : token.kind = .keyword .eval := htoken
  simp only [htoken, TokenKind.keyword.injEq, reduceCtorEq, if_false, if_true]
  refine parses_unterminated hmore ?_
  unfold evalCondition
  refine Parses.bind (l := [.keyword .eval]) (Parses.keyword _) fun token _ => ?_
  have hcode : Parses (State.Roomy I code.frames) parenCode
    (.symbol .lparen :: (code.pieces ++ [.symbol .rparen])) more
      (· = code.text) :=
    (parses_chunk code.nests (by decide)).map fun chunk hchunk => by
      rw [hchunk]
      exact withoutDelimiters_chunk '(' ')' code.text
  refine hcode.before fun text htext => ?_
  subst htext
  have hsemicolon : checkSemicolon code.text token = pure () := by
    rw [checkSemicolon, if_neg (by rw [code.ends]; simp)]
  rw [hsemicolon]
  exact Parses.after (Q := fun _ => True) (.pure trivial) fun _ _ =>
    Parses.after (Parses.close _) fun location _ => .pure ⟨location, rfl⟩

theorem le_framesOf {p : Sourceless settings} {ps : List (Sourceless settings)} (h : p ∈ ps) :
    p.frames ≤ framesOf ps := by
  induction ps with
  | nil => cases h
  | cons x ps ih =>
    rw [framesOf, List.map_cons, List.foldr_cons]
    rcases List.mem_cons.1 h with rfl | h
    · exact Nat.le_max_left ..
    · exact Nat.le_trans (ih h) (Nat.le_max_right ..)

/-- What follows a pattern among others behind commas does not go on with it. -/
theorem bordered_commas (ps : List (Sourceless settings)) (hmore : Bordered more) :
    Bordered (ps.flatMap commaPattern ++ more) := by
  cases ps with
  | nil => exact hmore
  | cons p ps => exact fun _ => (by decide : TokenKind.symbol .comma ∈ borderKinds)

theorem Bordered.ne_semicolon (hmore : Bordered more) : nextKind more ≠ .symbol .semicolon := by
  cases more with
  | nil => exact nofun
  | cons x more => exact (by decide : ∀ k ∈ borderKinds, k ≠ _) _ (hmore nofun)

theorem bordered_rparen (more : List Piece) : Bordered (.symbol .rparen :: more) :=
  fun _ => (by decide : TokenKind.symbol .rparen ∈ borderKinds)

theorem parses_single_forall {whole : String} (base next : Sourceless settings)
    (others : List (Sourceless settings)) (hmore : nextKind more ≠ .symbol .semicolon) :
    Parses
      (State.Roomy (State.Amid settings.hashComments whole) (framesOf (base :: next :: others)))
      (singleCondition single) (.keyword .forall_ :: .symbol .lparen ::
        (base.pieces ++ ((next :: others).flatMap commaPattern ++ [.symbol .rparen]))) more
      fun c => ∃ location bs,
        List.Forall₂ (fun p => p.toPatternText.Describes) (base :: next :: others) bs ∧
          c = .group .forall_ location (bs.map .pattern) := by
  have hpattern : ∀ p ∈ base :: next :: others, ∀ {left : List Piece}, Bordered left →
      Parses
      (State.Roomy (State.Amid settings.hashComments whole) (framesOf (base :: next :: others)))
        factPattern p.pieces left p.Describes :=
    fun p hp _ hleft => (p.parses_sourceless p.source hleft).roomier (le_framesOf hp)
  unfold singleCondition
  refine Parses.ofCurrent fun token htoken => ?_
  have htoken : token.kind = .keyword .forall_ := htoken
  simp only [htoken, TokenKind.keyword.injEq, reduceCtorEq, if_false, if_true]
  refine parses_unterminated hmore ?_
  unfold forallCondition
  refine Parses.bind (l := [.keyword .forall_]) (Parses.keyword _) fun token _ => ?_
  refine Parses.bind (l := [.symbol .lparen]) (Parses.symbol _) fun _ _ => ?_
  refine Parses.bind (hpattern base List.mem_cons_self ?_) fun b hb => ?_
  · rw [List.append_assoc]
    exact bordered_commas _ (bordered_rparen more)
  refine Parses.bind (Q := fun bs => List.Forall₂ (fun p => p.toPatternText.Describes)
    (base :: next :: others) bs) (Parses.repeatWhile (next :: others)
    (fun done bs => List.Forall₂ (fun p => p.toPatternText.Describes) (base :: done) bs)
    (.cons hb .nil) ?_ ?_ ?_ ?_) fun bs hbs => ?_
  · intro p _
    exact (by decide : TokenKind.symbol .comma ≠ .endOfInput)
  · intro done p left bs _ _
    refine Parses.before (Parses.nextIs _) fun b hb => .pure ?_
    rw [hb]
    rfl
  · intro done p left bs hitems hdone
    have hp : p ∈ next :: others := by rw [hitems]; simp
    refine Parses.bind (l := [.symbol .comma]) (Parses.skip .comma) fun _ _ => ?_
    refine Parses.blank
      ((hpattern p (List.mem_cons_of_mem _ hp) (bordered_commas left (bordered_rparen more))).before
      fun b hb => ?_)
    exact .pure (List.rel_append hdone (.cons hb .nil))
  · intro bs _
    refine Parses.before (Parses.nextIs _) fun b hb => .pure ?_
    rw [hb]
    rfl
  · have hlength := hbs.length_eq
    rw [if_neg (by rw [← hlength]; simp)]
    refine Parses.before (Parses.symbol .rparen) fun _ _ => ?_
    exact Parses.after (Parses.close _) fun location _ => .pure ⟨location, bs, hbs, rfl⟩

end Singles

end Parser

open Rulebook.Parser

variable {settings : Settings} {whole : String}

/-! ### Operands -/

namespace Operands

theorem list_ne_nil (others : Operands settings) : others.list ≠ [] := by
  cases others <;> exact List.cons_ne_nil _ _

theorem joined_eq (kind : Junction) (others : Operands settings) :
    others.joined kind = others.list.flatMap fun y =>
      .blank :: kind.connective y.1 :: .blank :: wrap (y.2.wrapsIn kind) y.2.pieces := by
  cases others with
  | one s x => simp [joined, list]
  | cons s x others => simp [joined, list, others.joined_eq kind]
termination_by structural others

theorem listed_eq (others : Operands settings) :
    others.listed = others.list.flatMap fun y => .blank :: wrap (!y.2.isEnclosed) y.2.pieces := by
  cases others with
  | one s x => simp [listed, list]
  | cons s x others => simp [listed, list, others.listed_eq]
termination_by structural others

theorem le_joinedFrames (kind : Junction) : (others : Operands settings) → ∀ y ∈ others.list,
    framesIn (y.2.wrapsIn kind) y.2.frames ≤ others.joinedFrames kind
  | .one s x, y, hy => by
    obtain rfl := List.mem_singleton.1 hy
    exact Nat.le_refl _
  | .cons s x others, y, hy => by
    rcases List.mem_cons.1 hy with rfl | hy
    · exact Nat.le_max_left ..
    · exact Nat.le_trans (others.le_joinedFrames kind y hy) (Nat.le_max_right ..)

theorem le_listedFrames : (others : Operands settings) → ∀ y ∈ others.list,
    framesIn (!y.2.isEnclosed) y.2.frames ≤ others.listedFrames
  | .one s x, y, hy => by
    obtain rfl := List.mem_singleton.1 hy
    exact Nat.le_refl _
  | .cons s x others, y, hy => by
    rcases List.mem_cons.1 hy with rfl | hy
    · exact Nat.le_max_left ..
    · exact Nat.le_trans (others.le_listedFrames y hy) (Nat.le_max_right ..)

theorem describe_of_forall₂ : (others : Operands settings) → {cs : List Condition} →
    List.Forall₂ (fun y c => y.2.Describes c) others.list cs → others.Describe cs
  | .one s _, _, .cons h .nil => .one s h
  | .cons s _ others, _, .cons h hs => .cons s h (others.describe_of_forall₂ hs)

end Operands

/-- In the midst of a text, with so many frames left. -/
abbrev AmidRoom (settings : Settings) (whole : String) (room : Nat) : State → Prop :=
  State.Roomy (State.Amid settings.hashComments whole) room

namespace Phrase

def joint : Phrase settings → Option Junction
  | .group kind .between _ _ => some kind
  | _ => none

/-- What needs no parentheses between connectives is joined more tightly. -/
theorem joint_of_not_wrapsIn {kind : Junction} {x : Phrase settings} (h : x.wrapsIn kind = false) :
    x.joint = none ∨ kind = .or ∧ x.joint = some .and := by
  unfold wrapsIn isEnclosed at h
  unfold joint
  split
  · next k first others =>
    refine .inr ?_
    cases k <;> cases kind <;> simp at h ⊢
  · exact .inl rfl

theorem isEnclosed_of_wrapsIn {kind : Junction} {x : Phrase settings} (h : x.wrapsIn kind = true) :
    x.isEnclosed = false := by
  cases x with
  | group k style first others => simpa [wrapsIn] using (Bool.and_eq_true_iff.1 h).2
  | _ => rfl

/-- Parentheses that are needed stand around a phrase then. -/
theorem exists_wrap (x : Phrase settings) :
    ∃ l, wrap (!x.isEnclosed) x.pieces = .symbol .lparen :: l := by
  unfold isEnclosed
  split
  · next kind further first others =>
    cases further with
    | false =>
      rw [pieces]
      exact ⟨_, rfl⟩
    | true => exact ⟨_, rfl⟩
  · exact ⟨_, rfl⟩

theorem le_frames_between {kind : Junction} {first x : Phrase settings} {others : Operands settings}
    (hx : x ∈ first :: others.list.map Prod.snd) :
    framesIn (x.wrapsIn kind) x.frames ≤ (Phrase.group kind .between first others).frames := by
  rcases List.mem_cons.1 hx with rfl | hx
  · exact Nat.le_max_left ..
  · obtain ⟨y, hy, rfl⟩ := List.mem_map.1 hx
    exact Nat.le_trans (others.le_joinedFrames kind y hy) (Nat.le_max_right ..)

theorem describes_join {kind : Junction} {style : Style} {first : Phrase settings}
    {others : Operands settings} {c : Condition} {cs : List Condition} (h : first.Describes c)
    (hs : List.Forall₂ (fun y c => y.2.Describes c) others.list cs) :
    (Phrase.group kind style first others).Describes (join kind.grouping c cs) := by
  obtain ⟨location, hjoin⟩ := join_of_ne_nil kind.grouping c fun (hnil : cs = []) => by
    rw [hnil] at hs
    exact others.list_ne_nil (List.forall₂_nil_right_iff.1 hs)
  rw [hjoin]
  exact .group kind style location h (others.describe_of_forall₂ hs)

/-- A phrase is read back: in parentheses, alone, among conjuncts and among disjuncts. The
production for single conditions may be run within others. -/
structure Reads (whole : String) (x : Phrase settings) : Prop where
  parenthesised : ∀ {n : Nat} {more : List Piece}, framesIn (!x.isEnclosed) x.frames ≤ n →
    Parses (AmidRoom settings whole (framesIn (!x.isEnclosed) x.frames))
      (parenthesised (conditionWithin n)) (wrap (!x.isEnclosed) x.pieces) more x.Describes
  single : ∀ {p : Parser Condition} {k n : Nat} {more : List Piece}, x.joint = none →
    Costs k p (conditionWithin n) → x.frames < n → Bordered more →
    Parses (AmidRoom settings whole (k + x.frames)) p x.pieces more x.Describes
  conjunction : ∀ {p : Parser Condition} {k n : Nat} {more : List Piece}, x.joint ≠ some .or →
    Costs k p (conditionWithin n) → x.frames < n → Bordered more → nextKind more ∉ andKinds →
    Parses (AmidRoom settings whole (k + x.frames)) (infixGroup .and andKinds p) x.pieces more
      x.Describes
  disjunction : ∀ {p : Parser Condition} {k n : Nat} {more : List Piece},
    Costs k p (conditionWithin n) → x.frames < n → Bordered more → nextKind more ∉ andKinds →
    nextKind more ∉ orKinds →
    Parses (AmidRoom settings whole (k + x.frames)) (disjunction p) x.pieces more x.Describes

namespace Reads

variable {x : Phrase settings} {p : Parser Condition} {k n : Nat} {more : List Piece}

theorem around (henclosed : x.isEnclosed = false)
    (h : ∀ {more : List Piece}, Bordered more → nextKind more ∉ andKinds → nextKind more ∉ orKinds →
      Parses (AmidRoom settings whole (Nesting.group.frames + x.frames))
        (Parser.disjunction (nested .group (conditionWithin n))) x.pieces more x.Describes) :
    Parses (AmidRoom settings whole (framesIn (!x.isEnclosed) x.frames))
      (Parser.parenthesised (conditionWithin n))
      (wrap (!x.isEnclosed) x.pieces) more x.Describes := by
  rw [henclosed]
  exact parses_parenthesised ((by decide : ∀ k ∈ startKinds, k ∉ _) _ (x.nextKind_mem _))
    (h (bordered_rparen more) (by simp [andKinds]) (by simp [orKinds]))

theorem lt_of_not_enclosed (henclosed : x.isEnclosed = false)
    (hn : framesIn (!x.isEnclosed) x.frames ≤ n) : x.frames < n := by
  rw [henclosed] at hn
  exact Nat.lt_of_lt_of_le (Nat.lt_add_of_pos_left (by decide)) hn

/-- What is no group with connectives between its operands is read by the production for single
conditions. -/
theorem ofSingle
    (hsingle : ∀ {n : Nat} {more : List Piece}, x.frames < n → Bordered more →
      Parses (AmidRoom settings whole x.frames) (conditionWithin n) x.pieces more x.Describes)
    (henclosed : x.isEnclosed = true → ∀ {n : Nat} {more : List Piece}, x.frames ≤ n →
      Parses (AmidRoom settings whole x.frames) (Parser.parenthesised (conditionWithin n)) x.pieces
        more x.Describes) : x.Reads whole := by
  have hdisjunction : ∀ {p : Parser Condition} {k n : Nat} {more : List Piece},
      Costs k p (conditionWithin n) → x.frames < n → Bordered more → nextKind more ∉ andKinds →
      nextKind more ∉ orKinds →
      Parses (AmidRoom settings whole (k + x.frames)) (Parser.disjunction p) x.pieces more
        x.Describes := fun hp hn hmore hand hor =>
    parses_infixGroup_single hor (parses_infixGroup_single hand (hp.parses (hsingle hn hmore)))
  refine ⟨fun {n more} hn => ?_, fun _ hp hn hmore => hp.parses (hsingle hn hmore),
    fun _ hp hn hmore hand => parses_infixGroup_single hand (hp.parses (hsingle hn hmore)),
      hdisjunction⟩
  cases h : x.isEnclosed with
  | true =>
    rw [h] at hn
    exact henclosed h hn
  | false => exact h ▸ around h (hdisjunction (.nested .group _) (lt_of_not_enclosed h hn))

/-- An operand in the parentheses that it needs. -/
theorem inside (h : x.Reads whole) (hp : Costs k p (conditionWithin n))
    (hn : framesIn (!x.isEnclosed) x.frames < n) (hmore : nextKind more ≠ .symbol .semicolon) :
    Parses (AmidRoom settings whole (k + framesIn (!x.isEnclosed) x.frames)) p
      (wrap (!x.isEnclosed) x.pieces) more x.Describes := by
  obtain ⟨m, rfl⟩ : ∃ m, n = m + 1 := ⟨n - 1, by omega⟩
  have hread := @h.parenthesised m more (Nat.le_of_lt_succ hn)
  obtain ⟨l, hl⟩ := x.exists_wrap
  rw [hl] at hread ⊢
  exact hp.parses (parses_single_parenthesised hmore hread)

/-- An operand of a conjunction. -/
theorem conjunct (h : x.Reads whole) (hp : Costs k p (conditionWithin n))
    (hn : framesIn (x.wrapsIn .and) x.frames < n) (hmore : Bordered more) :
    Parses (AmidRoom settings whole (k + framesIn (x.wrapsIn .and) x.frames)) p
      (wrap (x.wrapsIn .and) x.pieces) more x.Describes := by
  cases hwraps : x.wrapsIn .and with
  | true =>
    have henclosed := isEnclosed_of_wrapsIn hwraps
    have hread := h.inside hp (by rw [henclosed]; rwa [hwraps] at hn) hmore.ne_semicolon
    rwa [henclosed] at hread
  | false =>
    rw [hwraps] at hn
    rcases joint_of_not_wrapsIn hwraps with hjoint | ⟨hkind, -⟩
    · exact h.single hjoint hp hn hmore
    · cases hkind

/-- An operand of a disjunction. -/
theorem disjunct (h : x.Reads whole) (hp : Costs k p (conditionWithin n))
    (hn : framesIn (x.wrapsIn .or) x.frames < n) (hmore : Bordered more)
    (hand : nextKind more ∉ andKinds) :
    Parses (AmidRoom settings whole (k + framesIn (x.wrapsIn .or) x.frames))
      (infixGroup .and andKinds p) (wrap (x.wrapsIn .or) x.pieces) more x.Describes := by
  cases hwraps : x.wrapsIn .or with
  | true =>
    have henclosed := isEnclosed_of_wrapsIn hwraps
    have hread := h.inside hp (by rw [henclosed]; rwa [hwraps] at hn) hmore.ne_semicolon
    rw [henclosed] at hread
    exact parses_infixGroup_single hand hread
  | false =>
    rw [hwraps] at hn
    refine h.conjunction ?_ hp hn hmore hand
    rcases joint_of_not_wrapsIn hwraps with hjoint | ⟨-, hjoint⟩ <;> rw [hjoint] <;> simp

theorem operand (h : x.Reads whole) (hn : framesIn x.wrapsAlone x.frames ≤ n)
    (hmore : Bordered more) :
    Parses (AmidRoom settings whole (framesIn x.wrapsAlone x.frames))
      (Parser.operand (conditionWithin n)) (wrap x.wrapsAlone x.pieces) more x.Describes := by
  have hread : x.wrapsAlone = !x.isEnclosed →
      Parses (AmidRoom settings whole (framesIn x.wrapsAlone x.frames))
        (Parser.operand (conditionWithin n)) (wrap x.wrapsAlone x.pieces) more
        x.Describes := fun hwraps => by
    rw [hwraps] at hn ⊢
    have hread := @h.parenthesised n more hn
    obtain ⟨l, hl⟩ := x.exists_wrap
    rw [hl] at hread ⊢
    exact parses_operand_parenthesised hread
  cases x with
  | pattern p =>
    exact (parses_operand_pattern (p.nextKind_pieces more) (p.parses hmore)).mono
      fun c ⟨b, hb, hc⟩ => hc ▸ .pattern hb
  | _ => exact hread rfl

/-! ### Groups -/

variable {kind : Junction} {first : Phrase settings} {others : Operands settings}

theorem bordered_of_connective {left : List Piece} (hmore : Bordered more)
    (h : left = more ∨ nextKind left ∈ kind.connectives) : Bordered left := by
  rcases h with rfl | h
  · exact hmore
  · intro _
    cases kind with
    | and => exact (by decide : ∀ k ∈ andKinds, k ∈ borderKinds) _ h
    | or => exact (by decide : ∀ k ∈ orKinds, k ∈ borderKinds) _ h

theorem between {q : Parser Condition} (hmore : nextKind more ∉ kind.connectives)
    (hoperand : ∀ x ∈ first :: others.list.map Prod.snd, ∀ {left : List Piece},
      left = more ∨ nextKind left ∈ kind.connectives →
      Parses (AmidRoom settings whole (k + framesIn (x.wrapsIn kind) x.frames)) q
        (wrap (x.wrapsIn kind) x.pieces) left x.Describes) :
    Parses (AmidRoom settings whole (k + (Phrase.group kind .between first others).frames))
      (infixGroup kind.grouping kind.connectives q)
      (Phrase.group kind .between first others).pieces more
      (Phrase.group kind .between first others).Describes := by
  have hsolid : ∀ k ∈ kind.connectives, k.isTrivia = false ∧ k ≠ .endOfInput := by
    cases kind <;> decide
  have hroomy : ∀ x ∈ first :: others.list.map Prod.snd, ∀ {left : List Piece},
      left = more ∨ nextKind left ∈ kind.connectives →
      Parses (AmidRoom settings whole (k + (Phrase.group kind .between first others).frames)) q
        (wrap (x.wrapsIn kind) x.pieces) left x.Describes := fun x hx _ hleft =>
    (hoperand x hx hleft).roomier (Nat.add_le_add_left (le_frames_between hx) k)
  rw [pieces, others.joined_eq]
  refine Parses.mono (parses_infixGroup others.list hsolid ?_ hmore
    (hroomy first List.mem_cons_self) fun y hy =>
      hroomy y.2 (List.mem_cons_of_mem _ (List.mem_map_of_mem hy))) ?_
  · intro y _
    cases kind <;> cases y.1 <;> decide
  · rintro _ ⟨c, cs, hc, hcs, rfl⟩
    exact describes_join hc hcs

theorem conjoined (h : ∀ x ∈ first :: others.list.map Prod.snd, x.Reads whole) :
    (Phrase.group .and .between first others).Reads whole := by
  have hconjunction : ∀ {p : Parser Condition} {k n : Nat} {more : List Piece},
      Costs k p (conditionWithin n) → (Phrase.group .and .between first others).frames < n →
      Bordered more → nextKind more ∉ andKinds →
      Parses (AmidRoom settings whole (k + (Phrase.group .and .between first others).frames))
        (infixGroup .and andKinds p) (Phrase.group .and .between first others).pieces more
        (Phrase.group .and .between first others).Describes := fun hp hn hmore hand =>
    between hand fun x hx _ hleft =>
      (h x hx).conjunct hp (Nat.lt_of_le_of_lt (le_frames_between hx) hn)
        (bordered_of_connective hmore hleft)
  refine ⟨fun hn => ?_, fun hjoint => absurd hjoint (Option.some_ne_none _), fun _ => hconjunction,
    fun hp hn hmore hand hor => parses_infixGroup_single hor (hconjunction hp hn hmore hand)⟩
  exact around rfl fun hmore hand hor =>
    parses_infixGroup_single hor
      (hconjunction (.nested .group _) (lt_of_not_enclosed rfl hn) hmore hand)

theorem disjoined (h : ∀ x ∈ first :: others.list.map Prod.snd, x.Reads whole) :
    (Phrase.group .or .between first others).Reads whole := by
  have hdisjunction : ∀ {p : Parser Condition} {k n : Nat} {more : List Piece},
      Costs k p (conditionWithin n) → (Phrase.group .or .between first others).frames < n →
      Bordered more → nextKind more ∉ andKinds → nextKind more ∉ orKinds →
      Parses (AmidRoom settings whole (k + (Phrase.group .or .between first others).frames))
        (Parser.disjunction p) (Phrase.group .or .between first others).pieces more
        (Phrase.group .or .between first others).Describes := fun hp hn hmore hand hor =>
    between hor fun x hx left hleft =>
      (h x hx).disjunct hp (Nat.lt_of_le_of_lt (le_frames_between hx) hn)
        (bordered_of_connective hmore hleft) <| by
          rcases hleft with rfl | hleft
          · exact hand
          · exact (by decide : ∀ k ∈ orKinds, k ∉ andKinds) _ hleft
  refine ⟨fun hn => ?_, fun hjoint => absurd hjoint (Option.some_ne_none _),
    fun hjoint => absurd rfl hjoint, hdisjunction⟩
  exact around rfl fun hmore hand hor =>
    hdisjunction (.nested .group _) (lt_of_not_enclosed rfl hn) hmore hand hor

theorem before {further : Bool}
    (h : ∀ x ∈ first :: others.list.map Prod.snd, x.Reads whole)
    (hn : (Phrase.group kind (.before further) first others).frames ≤ n) (more : List Piece) :
    Parses (AmidRoom settings whole (Phrase.group kind (.before further) first others).frames)
      (Parser.parenthesised (conditionWithin n))
      (Phrase.group kind (.before further) first others).pieces more
      (Phrase.group kind (.before further) first others).Describes := by
  have hoperand : ∀ y ∈ (Spelling.word, first) :: others.list, ∀ {left : List Piece},
      nextKind left ≠ .symbol .semicolon →
      Parses (AmidRoom settings whole (Phrase.group kind (.before further) first others).frames)
        (nested .prefixed (conditionWithin n)) (wrap (!y.2.isEnclosed) y.2.pieces) left
        y.2.Describes := by
    intro y hy left hleft
    have hle : framesIn (!y.2.isEnclosed) y.2.frames ≤
        max (framesIn (!first.isEnclosed) first.frames) others.listedFrames := by
      rcases List.mem_cons.1 hy with rfl | hy
      · exact Nat.le_max_left ..
      · exact Nat.le_trans (others.le_listedFrames y hy) (Nat.le_max_right ..)
    have hy : y.2 ∈ first :: others.list.map Prod.snd := List.mem_map_of_mem hy
    have hsum := Nat.add_le_add_left hle Nesting.prefixed.frames
    have hlt : framesIn (!y.2.isEnclosed) y.2.frames < n :=
      Nat.lt_of_lt_of_le (Nat.lt_add_of_pos_left (by decide)) (Nat.le_trans hsum hn)
    exact ((h y.2 hy).inside (.nested .prefixed _) hlt hleft).roomier hsum
  have hgroup := parses_prefixGroup (R := fun y => y.2.Describes) kind (.word, first) more
    others.list_ne_nil (fun y m => nextKind_wrap_mem (!y.2.isEnclosed) y.2 m) hoperand
  rw [List.flatMap_cons, List.append_assoc] at hgroup
  rw [pieces, others.listed_eq]
  refine hgroup.mono fun _ ⟨location, c, cs, hc, hcs, hgroup⟩ => ?_
  rw [hgroup]
  exact .group kind _ location hc (others.describe_of_forall₂ hcs)

end Reads

end Phrase

mutual

theorem Phrase.reads : (x : Phrase settings) → x.Reads whole
  | .pattern p => by
    refine .ofSingle (fun {n more} hn hmore => ?_) nofun
    obtain ⟨m, rfl⟩ := Nat.exists_eq_add_of_lt hn
    refine Parses.mono (parses_single_pattern (p.nextKind_pieces more)
      hmore.ne_semicolon (p.parses hmore)) ?_
    rintro _ ⟨b, hb, rfl⟩
    exact .pattern hb
  | .eval code => by
    refine .ofSingle (fun {n more} hn hmore => ?_) nofun
    obtain ⟨m, rfl⟩ := Nat.exists_eq_add_of_lt hn
    rw [Phrase.pieces]
    refine Parses.mono (parses_single_eval code hmore.ne_semicolon) ?_
    rintro _ ⟨location, rfl⟩
    exact .eval code location
  | .unary kind x => by
    refine .ofSingle (fun {n more} hn hmore => ?_) nofun
    have hlt : framesIn x.wrapsAlone x.frames < n :=
      Nat.lt_of_le_of_lt (Nat.le_add_left ..) hn
    obtain ⟨m, rfl⟩ : ∃ m, n = m + 1 := ⟨n - 1, by omega⟩
    rw [Phrase.pieces]
    refine Parses.mono (parses_single_unary kind hmore.ne_semicolon
      ((x.reads.operand (Nat.le_of_lt_succ hlt) hmore).nested .operand).blank) ?_
    rintro _ ⟨location, c, hc, rfl⟩
    exact .unary kind location hc
  | .forall_ base next others => by
    refine .ofSingle (fun {n more} hn hmore => ?_) nofun
    obtain ⟨m, rfl⟩ := Nat.exists_eq_add_of_lt hn
    rw [Phrase.pieces]
    refine Parses.mono (parses_single_forall base next others hmore.ne_semicolon) ?_
    rintro _ ⟨location, bs, hbs, rfl⟩
    exact .forall_ location hbs
  | .group .and .between first others =>
    .conjoined (List.forall_mem_cons.2 ⟨first.reads, others.reads⟩)
  | .group .or .between first others =>
    .disjoined (List.forall_mem_cons.2 ⟨first.reads, others.reads⟩)
  | .group kind (.before further) first others => by
    have hoperands := List.forall_mem_cons.2 ⟨first.reads, others.reads⟩
    refine .ofSingle (fun {n more} hn hmore => ?_) fun _ _ _ hn =>
      Phrase.Reads.before hoperands hn _
    obtain ⟨m, rfl⟩ : ∃ m, n = m + 1 := ⟨n - 1, by omega⟩
    have hread := Phrase.Reads.before hoperands (Nat.le_of_lt_succ hn) more
    rw [Phrase.pieces] at hread ⊢
    exact parses_single_parenthesised hmore.ne_semicolon hread

theorem Operands.reads : (others : Operands settings) →
    ∀ x ∈ others.list.map Prod.snd, x.Reads whole
  | .one _ x => List.forall_mem_singleton.2 x.reads
  | .cons _ x others => List.forall_mem_cons.2 ⟨x.reads, others.reads⟩

end

/-- Every condition that is written is read back where there are as many frames as it takes: all of
the text is taken, nothing is reported, and the tree is the one that was written. -/
theorem conditions_read_back {frames : Nat} (settings : Settings) (sourceName : String)
    (x : Phrase settings) (h : x.frames ≤ frames) :
    ∃ c t, conditions (.ofText frames settings sourceName x.text) = .ok c t ∧ x.Describes c ∧
      t.cursor.ahead = [] ∧ t.collector.errors = [] ∧ t.collector.suppressed = 0 := by
  have hs := amid_ofText frames settings sourceName x.text
  have hface := faces_ofText frames settings sourceName x.text
  rw [x.lexemes_text, ← List.append_nil x.pieces] at hface
  obtain ⟨c, t, hread, hc, ht, hst⟩ := (@Phrase.reads settings x.text x).disjunction
    (.refl (conditionWithin (frames + 1))) (Nat.lt_succ_of_le h) bordered_nil (by decide)
    (by decide) ⟨hs, by rw [Nat.zero_add]; exact h⟩ hface
  have hreceived : t.collector.errors.length + t.collector.suppressed = 0 :=
    (Lasting.calm hs hst).received
  obtain ⟨herrors, hsuppressed⟩ := Nat.add_eq_zero_iff.1 hreceived
  exact ⟨c, t, (conditions_eq _).trans hread, hc, List.map_eq_nil_iff.1 ht.ahead,
    List.length_eq_zero_iff.1 herrors, hsuppressed⟩

def patternOfOrders : Sourceless {} where
  toPatternText := .ofAccepted 0 {} "Order(total > 1)" (by decide +kernel) (by decide +kernel)
    (by decide +kernel)
  source := by decide +kernel

def patternFromDesk : PatternText {} :=
  .ofAccepted 0 {} "Order() from desk.open" (by decide +kernel) (by decide +kernel)
    (by decide +kernel)

def evalOfParentheses : EvalText {} where
  text := "f(\")\", 1); 2"
  frames := 1
  code := .of_scans 1 (by decide +kernel) (by decide +kernel)
  nests := by decide +kernel
  ends := by decide +kernel

/-- Groups of every kind, between connectives and behind them. -/
def assortedPhrase : Phrase {} :=
  .group .and .between
    (.unary .not (.group .or .between (.pattern patternFromDesk)
      (.one .symbol (.unary .exists_ (.eval evalOfParentheses)))))
    (.cons .symbol (.forall_ patternOfOrders patternOfOrders [])
      (.one .word (.group .or (.before false) (.pattern patternFromDesk)
        (.one .word (.eval evalOfParentheses)))))

theorem conditions_read_back_assorted :
    assortedPhrase.text = "not (Order() from desk.open || exists (eval(f(\")\", 1); 2))) && " ++
        "forall(Order(total > 1), Order(total > 1)) and " ++
        "(or (Order() from desk.open) (eval(f(\")\", 1); 2)))" ∧
      assortedPhrase.frames ≤ 900 ∧
      ∃ c t, conditions (.ofText 900 {} "orders" assortedPhrase.text) = .ok c t ∧
        assortedPhrase.Describes c ∧ t.cursor.ahead = [] ∧ t.collector.errors = [] ∧
        t.collector.suppressed = 0 :=
  ⟨by decide +kernel, by decide +kernel,
    conditions_read_back {} "orders" assortedPhrase (by decide +kernel)⟩

/-- It is not enough that code does not end in a semicolon: blanks behind one do not hide it. -/
theorem conditions_remark_hidden_semicolon :
    IsCode true .lparen .rparen "x; " ∧ Nests true .lparen .rparen 0 "x; " ∧
      "x; ".toList.getLast? ≠ some ';' ∧
      ∃ c t, conditions (.ofText 900 {} "orders" "eval(x; )") = .ok c t ∧
        t.collector.errors.map (·.message) = ["trailing semi-colon not allowed"] := by
  refine ⟨.of_scans 1 (by decide +kernel) (by decide +kernel), by decide +kernel, by decide, ?_⟩
  have hread : (match conditions (.ofText 900 {} "orders" "eval(x; )") with
      | .ok _ t => t.collector.errors.map (·.message)
      | .error _ _ => []) = ["trailing semi-colon not allowed"] := by decide +kernel
  cases h : conditions (.ofText 900 {} "orders" "eval(x; )") with
  | error e t =>
    rw [h] at hread
    cases hread
  | ok c t =>
    rw [h] at hread
    exact ⟨c, t, rfl, hread⟩

end Rulebook
