import Rulebook.Proofs.Fragments
import Rulebook.Proofs.SoleConditions

/-!
# The parts of conditions

What a production of conditions that succeeds has read, part by part. The repetitions among them
read one item after the other, each of which is begun because of the kind of the next token. A block
that is read without complaint is a sequence of conditions, up to a token that ends a block.
-/

namespace Rulebook.Parser

set_option synthInstance.maxSize 100000

variable {α : Type} {s t u : State} {c : Condition} {cs : List Condition}

/-! ### What a condition begins with -/

theorem exists_first_operand {kind : Grouping} {connectives : List TokenKind}
    {operand : Parser Condition} (h : infixGroup kind connectives operand s = .ok c t) :
    ∃ first u, operand s = .ok first u := by
  obtain ⟨first, u, hfirst, -⟩ := bind_eq_ok.1 h
  exact ⟨first, u, hfirst⟩

theorem kind_of_singleCondition {single : Parser Condition}
    (h : singleCondition single s = .ok c t) :
    s.cursor.current.kind = .symbol .lparen ∨ s.cursor.current.kind.isName = true := by
  unfold singleCondition at h
  rw [bind_of_ok (current_eq s)] at h
  split at h
  case isTrue hkind => exact .inr (hkind ▸ rfl)
  split at h
  case isTrue hkind => exact .inr (hkind ▸ rfl)
  split at h
  case isTrue hkind => exact .inr (hkind ▸ rfl)
  split at h
  case isTrue hkind => exact .inr (hkind ▸ rfl)
  split at h
  case isTrue hkind => exact .inl hkind
  split at h
  case isTrue hname => exact .inr hname
  obtain ⟨_, _, hfail, -⟩ := bind_eq_ok.1 h
  cases hfail

theorem kind_of_conditionWithin {levels : Nat} (h : conditionWithin levels s = .ok c t) :
    s.cursor.current.kind = .symbol .lparen ∨ s.cursor.current.kind.isName = true := by
  cases levels with
  | zero => cases h
  | succ levels => exact kind_of_singleCondition h

theorem kind_of_conditions (h : conditions s = .ok c t) :
    s.cursor.current.kind = .symbol .lparen ∨ s.cursor.current.kind.isName = true := by
  unfold conditions disjunction condition at h
  obtain ⟨_, _, hconjunction⟩ := exists_first_operand h
  obtain ⟨_, _, hsingle⟩ := exists_first_operand hconjunction
  exact kind_of_conditionWithin hsingle

/-! ### Items -/

/-- A repetition has as many rounds as it needs, also after the first one. -/
theorem repeatWhile_round {α : Type} {more : α → Parser Bool} {body : α → Parser α} {a b : α}
    (h : Rolls more body) (hmore : more a s = .ok true s) (hbody : body a s = .ok b t) :
    repeatWhile a more body s = repeatWhile b more body t := by
  obtain ⟨n, hn⟩ : ∃ n, n = max s.cursor.remaining (t.cursor.remaining + 1) := ⟨_, rfl⟩
  have hs : s.cursor.remaining + 1 ≤ n + 1 := by omega
  have ht : t.cursor.remaining + 1 ≤ n := by omega
  rw [h.repeatWhile_eq hs, h.repeatWhile_eq ht, Turns.rounds_succ hmore, if_pos rfl,
    bind_of_ok hbody]

/-- From the first state on items are read one after the other, until the next token, at the second
state, does not go on with them. -/
inductive Items (goes : TokenKind → Bool) (item : Parser α) : State → List α → State → Prop where
  | done {s : State} (h : goes s.cursor.current.kind = false) : Items goes item s [] s
  | more {s t u : State} {x : α} {xs : List α} (h : goes s.cursor.current.kind = true)
      (hx : item s = .ok x t) (hrest : Items goes item t xs u) : Items goes item s (x :: xs) u

section Items

variable {goes : TokenKind → Bool} {item : Parser α} {more : List α → Parser Bool}
  {body : List α → Parser (List α)}

theorem Items.evolves [Orderly item] {xs : List α} (h : Items goes item s xs u) : s.Evolves u := by
  induction h with
  | done => exact .refl _
  | more _ hx _ ih => exact (Orderly.evolves_ok item hx).trans ih

/-- A repetition that adds items to those before reads them one after the other. -/
theorem repeatWhile_iff_items (hrolls : Rolls more body)
    (hmore : ∀ xs s, more xs s = .ok (goes s.cursor.current.kind) s)
    (hbody : ∀ xs, body xs = item >>= fun x => pure (xs ++ [x])) {xs ys : List α} :
    repeatWhile xs more body s = .ok ys u ↔ ∃ zs, ys = xs ++ zs ∧ Items goes item s zs u := by
  constructor
  · intro h
    have hends := hrolls.ends xs s
    rw [h] at hends
    obtain ⟨r, hr⟩ : ∃ r, r = EStateM.Result.ok (ε := Failure) ys u := ⟨_, rfl⟩
    rw [← hr] at hends
    clear h
    induction hends with
    | unasked | broken => cases hr
    | @stopped xs s v hstop =>
      cases hr
      rw [hmore] at hstop
      obtain ⟨hgoes, rfl⟩ := EStateM.Result.ok.inj hstop
      exact ⟨[], (List.append_nil _).symm, .done hgoes⟩
    | @round xs ys' s v w r hgo hround _ ih =>
      rw [hmore] at hgo
      obtain ⟨hgoes, rfl⟩ := EStateM.Result.ok.inj hgo
      rw [hbody] at hround
      obtain ⟨x, w, hx, hround⟩ := bind_eq_ok.1 hround
      obtain ⟨rfl, rfl⟩ := pure_ok hround
      obtain ⟨zs, rfl, hzs⟩ := ih hr
      exact ⟨x :: zs, by rw [List.append_assoc]; rfl, .more hgoes hx hzs⟩
  · rintro ⟨zs, rfl, h⟩
    induction h generalizing xs with
    | @done s h =>
      rw [hrolls.repeatWhile_eq (Nat.le_refl _), Turns.rounds_succ ((hmore xs s).trans (by rw [h])),
        List.append_nil]
      rfl
    | @more s t u x zs h hx _ ih =>
      have hround : body xs s = .ok (xs ++ [x]) t := by
        rw [hbody, bind_of_ok hx]
        rfl
      rw [repeatWhile_round hrolls ((hmore xs s).trans (by rw [h])) hround, ih, List.append_assoc]
      rfl

end Items

/-! ### The elements of a block -/

/-- The conditions `cs` are read from the first state, one after the other and without complaint,
and a block ends at the second one. -/
inductive Elements : State → List Condition → State → Prop where
  | done {s : State} (h : s.cursor.current.kind ∈ .endOfInput :: conditionFollow) : Elements s [] s
  | more {s t u : State} {c : Condition} {cs : List Condition}
      (h : s.cursor.current.kind ∉ .endOfInput :: conditionFollow) (hc : conditions s = .ok c t)
      (hclean : t.collector.received = s.collector.received) (hrest : Elements t cs u) :
      Elements s (c :: cs) u

theorem elementFollows_eq (cs : List Condition) (s : State) : elementFollows cs s =
    .ok (!decide (s.cursor.current.kind ∈ .endOfInput :: conditionFollow)) s :=
  rfl

def opensElement (kind : TokenKind) : Bool := !decide (kind ∈ .endOfInput :: conditionFollow)

theorem blockElements_of_items (h : Items opensElement conditions s cs t) :
    blockElements s = .ok cs t := by
  suffices hfrom : ∀ before, repeatWhile before elementFollows blockElement s =
      .ok (before ++ cs) t from hfrom []
  induction h with
  | @done s h =>
    intro before
    rw [List.append_nil, Repetition.block.rolls.repeatWhile_eq (Nat.le_refl _)]
    exact Turns.rounds_succ
      ((elementFollows_eq before s).trans (congrArg (EStateM.Result.ok · s) h)) _
  | @more s t u c cs h hc _ ih =>
    intro before
    have hmore : elementFollows before s = .ok true s :=
      (elementFollows_eq before s).trans (congrArg (EStateM.Result.ok · s) h)
    have hbody : blockElement before s = .ok (before ++ [c]) t := bind_of_ok (attempt_of_ok hc)
    rw [repeatWhile_round Repetition.block.rolls hmore hbody, ih, List.append_assoc]
    rfl

theorem Elements.items (h : Elements s cs t) : Items opensElement conditions s cs t := by
  induction h with
  | done h => exact .done (by rw [opensElement, decide_eq_true h]; rfl)
  | more h hc _ _ ih => exact .more (by rw [opensElement, decide_eq_false h]; rfl) hc ih

theorem blockElements_of_elements (h : Elements s cs t) : blockElements s = .ok cs t :=
  blockElements_of_items h.items

/-- What is recovered from was reported. -/
theorem blockElement_clean {before after : List Condition} (hs : s.trials = 0)
    (h : blockElement before s = .ok after t)
    (hclean : t.collector.received = s.collector.received) :
    ∃ c, conditions s = .ok c t ∧ after = before ++ [c] := by
  obtain ⟨r, u, hu, h⟩ := bind_eq_ok.1 h
  rcases attempt_ok hu with ⟨c, rfl, hc⟩ | ⟨e, rfl, he⟩
  · obtain ⟨rfl, rfl⟩ := pure_ok h
    exact ⟨c, hc, rfl⟩
  · have hsu := Orderly.evolves_error conditions he
    have hle := hsu.received_le
    obtain ⟨_, v, hv, h⟩ := bind_eq_ok.1 h
    obtain ⟨-, rfl⟩ := pure_ok h
    rw [recoverFrom_eq, hsu.trials, hs, if_neg (Nat.lt_irrefl 0)] at hv
    cases hv
    have hreported : (u.collector.report e u.ruleName).received = s.collector.received := hclean
    rw [Collector.received_report] at hreported
    omega

/-- A run of the repetition without complaint adds its elements to those before it. -/
theorem elements_of_ends {before after : List Condition}
    {r : EStateM.Result Failure State (List Condition)}
    (h : Ends elementFollows blockElement before s r) (hr : r = .ok after t) (hs : s.trials = 0) :
    s.collector.received ≤ t.collector.received ∧
      (t.collector.received = s.collector.received → ∃ cs, after = before ++ cs ∧
        Elements s cs t) := by
  induction h with
  | unasked | broken => cases hr
  | @stopped a s v h =>
    cases hr
    rw [elementFollows_eq] at h
    obtain ⟨hstop, rfl⟩ := EStateM.Result.ok.inj h
    rw [Bool.not_eq_false', decide_eq_true_eq] at hstop
    exact ⟨Nat.le_refl _, fun _ => ⟨[], (List.append_nil _).symm, .done hstop⟩⟩
  | @round a b s v w r h hbody hrest ih =>
    rw [elementFollows_eq] at h
    obtain ⟨hmore, rfl⟩ := EStateM.Result.ok.inj h
    rw [Bool.not_eq_true', decide_eq_false_iff_not] at hmore
    have hsw := Orderly.evolves_ok (blockElement a) hbody
    have hle := hsw.received_le
    obtain ⟨hle', hrest⟩ := ih hr (hsw.trials.trans hs)
    refine ⟨Nat.le_trans hle hle', fun hclean => ?_⟩
    obtain ⟨c, hc, rfl⟩ := blockElement_clean hs hbody (by omega)
    obtain ⟨cs, rfl, hcs⟩ := hrest (by omega)
    exact ⟨c :: cs, by rw [List.append_assoc]; rfl, .more hmore hc (by omega) hcs⟩

theorem elements_of_blockElements (hs : s.trials = 0) (h : blockElements s = .ok cs t)
    (hclean : t.collector.received = s.collector.received) : Elements s cs t := by
  obtain ⟨ds, rfl, hds⟩ := (elements_of_ends (Repetition.block.rolls.ends [] s) h hs).2 hclean
  exact hds

/-! ### Groups -/

def nextOperand (operand : Parser Condition) : Parser Condition := do
  let _ ← advance
  operand

theorem infixGroup_ok_iff {kind : Grouping} {connectives : List TokenKind}
    (hkinds : connectives ∈ [orKinds, andKinds]) {operand : Parser Condition} [Orderly operand] :
    infixGroup kind connectives operand s = .ok c u ↔ ∃ first t others, operand s = .ok first t ∧
      Items (fun k => decide (k ∈ connectives)) (nextOperand operand) t others u ∧
      c = join kind first others := by
  have hitems : ∀ {t others}, repeatWhile [] (fun _ => nextIs connectives) (fun others => do
      let _ ← advance
      return others ++ [← operand]) t = .ok others u ↔
        Items (fun k => decide (k ∈ connectives)) (nextOperand operand) t others
        u := fun {t others} => by
    refine (repeatWhile_iff_items (Repetition.infix_ hkinds operand).rolls
      (fun _ _ => rfl) fun xs => ?_).trans ⟨fun ⟨zs, hzs, h⟩ => hzs ▸ h, fun h => ⟨_, rfl, h⟩⟩
    rw [nextOperand, bind_assoc]
  constructor
  · intro h
    obtain ⟨first, t, hfirst, h⟩ := bind_eq_ok.1 h
    obtain ⟨others, v, hothers, h⟩ := bind_eq_ok.1 h
    obtain ⟨rfl, rfl⟩ := pure_ok h
    exact ⟨first, t, others, hfirst, hitems.1 hothers, rfl⟩
  · rintro ⟨first, t, others, hfirst, hothers, rfl⟩
    unfold infixGroup
    rw [bind_of_ok hfirst, bind_of_ok (hitems.2 hothers)]
    rfl

def isOpen (kind : TokenKind) : Bool := !decide (kind ∈ [TokenKind.symbol .rparen, .endOfInput])

theorem unclosed_eq (a : α) (s : State) : unclosed a s = .ok (isOpen s.cursor.current.kind) s := rfl

variable {levels : Nat}

theorem prefixGroup_ok (h : prefixGroup (nested .prefixed (conditionWithin levels)) s = .ok c u) :
    ∃ connective t first others v closing, advance s = .ok connective t ∧
      Items isOpen (nested .prefixed (conditionWithin levels)) t (first :: others) v ∧
      symbol .rparen v = .ok closing u ∧
      c = join (if connective.kind = .keyword .or then .or else .and) first others := by
  rw [prefixGroup_eq_join] at h
  obtain ⟨connective, t, ht, h⟩ := bind_eq_ok.1 h
  obtain ⟨operands, v, hv, h⟩ := bind_eq_ok.1 h
  obtain ⟨_, rfl, hitems⟩ :=
    (repeatWhile_iff_items (Repetition.prefix_ levels).rolls unclosed_eq fun _ => rfl).1 hv
  cases operands with
  | nil =>
    obtain ⟨_, _, hcurrent, h⟩ := bind_eq_ok.1 h
    cases h
  | cons first others =>
    obtain ⟨closing, w, hw, h⟩ := bind_eq_ok.1 h
    obtain ⟨rfl, rfl⟩ := pure_ok h
    exact ⟨connective, t, first, others, v, closing, ht, hitems, hw, rfl⟩

/-- What stands in parentheses: a disjunction, or a connective and its operands. -/
inductive Parenthesised (single : Parser Condition) (s : State) : Condition → State → Prop where
  | disjunction {c : Condition} {opening closing : Token} {t u v : State}
      (hopen : symbol .lparen s = .ok opening t)
      (hc : disjunction (nested .group single) t = .ok c u)
      (hclose : symbol .rparen u = .ok closing v) : Parenthesised single s c v
  | prefixed {c : Condition} {opening : Token} {t u : State}
    (hopen : symbol .lparen s = .ok opening t)
      (hkind : t.cursor.current.kind ∈ [.keyword .or, .keyword .and])
      (hc : prefixGroup (nested .prefixed single) t = .ok c u) : Parenthesised single s c u

theorem parenthesised_ok {single : Parser Condition} (h : parenthesised single s = .ok c u) :
    Parenthesised single s c u := by
  obtain ⟨opening, t, ht, h⟩ := bind_eq_ok.1 h
  rw [bind_of_ok (nextIs_eq _ t)] at h
  split at h
  · next hkind => exact .prefixed ht (of_decide_eq_true hkind) h
  · obtain ⟨d, v, hd, h⟩ := bind_eq_ok.1 h
    obtain ⟨closing, w, hw, h⟩ := bind_eq_ok.1 h
    obtain ⟨rfl, rfl⟩ := pure_ok h
    exact .disjunction ht hd hw

theorem unaryGroup_ok {k : Keyword} {kind : Grouping} {single : Parser Condition}
    (h : unaryGroup k kind single s = .ok c u) :
    ∃ token t d l, keyword k s = .ok token t ∧ nested .operand (operand single) t = .ok d u ∧
      c = .group kind l [d] := by
  obtain ⟨token, t, ht, h⟩ := bind_eq_ok.1 h
  obtain ⟨d, v, hd, h⟩ := bind_eq_ok.1 h
  obtain ⟨l, w, hl, h⟩ := bind_eq_ok.1 h
  obtain ⟨rfl, rfl⟩ := pure_ok h
  cases hl
  exact ⟨token, t, d, _, ht, hd, rfl⟩

theorem evalCondition_ok (h : evalCondition s = .ok c u) : ∃ l code, c = .eval l code := by
  obtain ⟨_, t, -, h⟩ := bind_eq_ok.1 h
  obtain ⟨code, v, -, h⟩ := bind_eq_ok.1 h
  obtain ⟨_, w, -, h⟩ := bind_eq_ok.1 h
  obtain ⟨l, x, -, h⟩ := bind_eq_ok.1 h
  obtain ⟨rfl, -⟩ := pure_ok h
  exact ⟨l, code, rfl⟩

def nextPattern : Parser Pattern := do
  skip .comma
  factPattern

instance : Orderly nextPattern := by unfold nextPattern; infer_instance

theorem forallCondition_ok (h : forallCondition s = .ok c u) :
    ∃ token opening base t v w closing patterns x l, keyword .forall_ s = .ok token t ∧
      symbol .lparen t = .ok opening v ∧ factPattern v = .ok base w ∧
      Items isOpen nextPattern w patterns x ∧ symbol .rparen x = .ok closing u ∧
      c = .group .forall_ l ((base :: patterns).map .pattern) := by
  rw [forallCondition_eq] at h
  obtain ⟨token, t, ht, h⟩ := bind_eq_ok.1 h
  obtain ⟨opening, v, hv, h⟩ := bind_eq_ok.1 h
  obtain ⟨base, w, hw, h⟩ := bind_eq_ok.1 h
  obtain ⟨all, x, hx, h⟩ := bind_eq_ok.1 h
  have hbody : ∀ xs, anotherPattern xs = nextPattern >>= fun p => pure (xs ++ [p]) := fun xs => by
    rw [nextPattern, bind_assoc]
    rfl
  obtain ⟨patterns, rfl, hitems⟩ :=
    (repeatWhile_iff_items Repetition.forall_.rolls unclosed_eq hbody).1 hx
  split at h
  · obtain ⟨_, _, -, h⟩ := bind_eq_ok.1 h
    cases h
  · obtain ⟨closing, y, hy, h⟩ := bind_eq_ok.1 h
    obtain ⟨l, z, hl, h⟩ := bind_eq_ok.1 h
    obtain ⟨rfl, rfl⟩ := pure_ok h
    cases hl
    exact ⟨token, opening, base, t, v, w, closing, patterns, x, _, ht, hv, hw, hitems, hy, rfl⟩

end Rulebook.Parser
