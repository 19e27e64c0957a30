import Rulebook.Proofs.Yields
import Rulebook.Proofs.LayoutConditions
import Rulebook.Proofs.WellFormed

/-!
# The grammar gives well-formed trees

Each production gives a well-formed tree if the productions within it do. What is kept of a broken
constraint list, block or rule are parts that were complete, so it is well-formed as well.
-/

namespace Rulebook.Parser

set_option synthInstance.maxSize 100000

variable {text : String}

namespace Yields

/-! ### Restrictions -/

theorem restrictionValue {operator : String} {token : Token} :
    Yields text (fun r => r.isConnective = false) (restrictionValue operator token) := by
  unfold Parser.restrictionValue
  refine after fun value => ?_
  dsimp only
  split
  · exact after fun _ => after fun _ => pure rfl
  · exact after fun _ => after fun _ => after fun _ => pure rfl
  · refine ite (fun _ => after fun _ => ite (fun _ => ?_) fun _ => ?_) fun _ => fail
    · exact after fun _ => after fun _ => pure rfl
    · exact after fun _ => after fun _ => pure rfl

theorem valueList {operator : String} {c : Connective} :
    Yields text Alternating (valueList operator c) := by
  unfold Parser.valueList
  refine after fun _ => after fun _ => bind restrictionValue fun first hfirst => ?_
  refine bind (repeatWhile (.single hfirst) fun found hfound => ?_) fun found hfound =>
    after fun _ => pure hfound
  exact after fun comma => after fun _ => bind restrictionValue fun next hnext =>
    pure (hfound.append _ c (.single hnext))

theorem restriction : Yields text Alternating restriction := by
  unfold Parser.restriction
  refine after fun token => ite (fun _ => ?_) fun _ => ite (fun _ => ?_) fun _ =>
    ite (fun _ => ?_) fun _ => fail
  · exact after fun _ => bind restrictionValue fun r hr => pure (.single hr)
  · exact after fun _ => valueList
  · refine after fun _ => after fun operator => ite (fun _ => ?_) fun _ =>
        ite (fun _ => ?_) fun _ =>
      fail
    · exact after fun _ => valueList
    · exact after fun _ => bind restrictionValue fun r hr => pure (.single hr)

theorem joinedRestriction {x : List Restriction × Bool} (hx : Alternating x.1) :
    Yields text (fun y => Alternating y.1) (joinedRestriction x) := by
  obtain ⟨found, _⟩ := x
  unfold Parser.joinedRestriction
  refine after fun token => ?_
  split
  · exact pure hx
  · next c _ =>
    refine after fun _ => ite (fun _ => ?_) fun _ => pure hx
    exact after fun _ => bind restriction fun rs hrs => pure (hx.append _ c hrs)

theorem restrictions : Yields text Alternating restrictions := by
  unfold Parser.restrictions
  refine bind restriction fun first hfirst =>
    bind (P := fun x : List Restriction × Bool => Alternating x.1)
      (repeatWhile hfirst fun x hx => joinedRestriction hx) ?_
  rintro ⟨found, _⟩ hfound
  exact pure hfound

/-! ### Constraints -/

theorem predicate {token : Token} {field declaration : Option String} :
    Yields text Constraint.WellFormed (predicate token field declaration) := by
  unfold Parser.predicate
  exact after fun _ => after fun _ => after fun _ => pure True.intro

theorem fieldConstraint {token fieldToken : Token} {field : String} {declaration : Option String} :
    Yields text (fun cs => ∀ c ∈ cs, c.WellFormed)
      (fieldConstraint token fieldToken field declaration) := by
  unfold Parser.fieldConstraint
  refine after fun _ => ite (fun _ => ?_) fun _ => after fun _ => ite (fun _ => ?_) fun _ =>
    ite (fun _ => pure fun _ h => by cases h) fun _ => after fun _ => fail
  · exact after fun _ => bind predicate fun c hc => pure (List.forall_mem_singleton.2 hc)
  · exact bind restrictions fun found hfound => after fun _ =>
      pure (List.forall_mem_singleton.2 hfound)

theorem fieldBinding {token : Token} {field : String} {declaration : Option String} :
    Yields text (fun cs => ∀ c ∈ cs, c.WellFormed) (fieldBinding token field declaration) := by
  cases declaration with
  | none => exact pure fun _ h => by cases h
  | some name => exact after fun _ => pure (List.forall_mem_singleton.2 True.intro)

theorem constraint {found : List Constraint} (hfound : ∀ c ∈ found, c.WellFormed) :
    Yields text (fun r => ∀ c ∈ r.found, c.WellFormed) (constraint found) := by
  have hone : ∀ {p : Parser Constraint}, Yields text Constraint.WellFormed p →
      Yields text (fun r => ∀ c ∈ r.found, c.WellFormed)
        (Parser.harvest found p fun found c => found ++ [c]) := fun hp =>
    harvest (P := fun cs : List Constraint => ∀ c ∈ cs, c.WellFormed) hfound hp fun c hc =>
      List.forall_mem_append.2 ⟨hfound, List.forall_mem_singleton.2 hc⟩
  unfold Parser.constraint
  refine after fun token => ite (fun _ => hone predicate) fun _ => after fun _ =>
    ite (fun _ => hone ?_) fun _ => ?_
  · unfold Parser.evalPredicate
    exact after fun _ => predicate
  · unfold Parser.boundField
    refine after fun r => ?_
    rcases r with e | ⟨declaration, fieldToken, field⟩
    · exact pure hfound
    · refine bind fieldBinding fun binding hbinding => ?_
      have hboth := List.forall_mem_append.2 ⟨hfound, hbinding⟩
      exact harvest (P := fun cs : List Constraint => ∀ c ∈ cs, c.WellFormed) hboth fieldConstraint
          fun cs hcs =>
        List.forall_mem_append.2 ⟨hboth, hcs⟩

theorem constraints : Yields text (fun r => ∀ c ∈ r.found, c.WellFormed) constraints := by
  unfold Parser.constraints
  refine after fun _ => ite (fun _ => pure fun _ h => by cases h) fun _ => ?_
  refine bind (constraint fun _ h => by cases h) fun first hfirst => ?_
  exact repeatWhile hfirst fun r hr => after fun _ => constraint hr

theorem factPattern :
    Yields text (fun p => p.WellFormed text ∧ p.source = .workingMemory) factPattern := by
  unfold Parser.factPattern
  refine after fun _ => after fun _ => after fun _ => after fun _ => ?_
  refine bind constraints fun body hbody => after fun _ => after fun _ => pure ⟨?_, rfl⟩
  exact .mk hbody .workingMemory

/-! ### Data sources -/

theorem named_index {chain : List Access} (h : ∀ x ∈ chain, x.Named) (bracket : Token)
    (argument : String) (stop : Option Nat) :
    ∀ x ∈ Access.index chain bracket argument stop, x.Named := by
  unfold Access.index
  split
  · exact List.forall_mem_append.2 ⟨fun x hx => h x (List.dropLast_subset chain hx),
      List.forall_mem_singleton.2 fun _ => rfl⟩
  · exact List.forall_mem_append.2 ⟨h, List.forall_mem_singleton.2 fun _ => rfl⟩

theorem named_ofMember {location : Location} {name : String} (h : name ≠ "")
    (arguments : Option String) : (Access.ofMember location name arguments).Named := by
  cases arguments with
  | none => exact fun hempty => absurd hempty h
  | some arguments => exact True.intro

theorem access {chain : List Access} (h : ∀ x ∈ chain, x.Named) :
    Yields text (fun chain => ∀ x ∈ chain, x.Named) (access chain) := by
  unfold Parser.access
  refine after fun token => ite (fun _ => ?_) fun _ => ?_
  · unfold Parser.indexAccess
    exact after fun argument => after fun stop => pure (named_index h token argument stop)
  · unfold Parser.memberAccess
    refine after fun _ => after fun member => bind name fun name hname => ?_
    exact after fun arguments => after fun location => pure
      (List.forall_mem_append.2 ⟨h, List.forall_mem_singleton.2 (named_ofMember hname arguments)⟩)

theorem retrieval : Yields text (Retrieval.WellFormed text) retrieval where
  of_ok {s t r} hs h := by
    obtain ⟨hlocation, -, -⟩ := retrieval_laid hs.toOver h
    obtain ⟨start, _, hstart, h⟩ := bind_eq_ok.1 h
    cases hstart
    obtain ⟨head, u, hu, h⟩ := bind_eq_ok.1 h
    obtain ⟨arguments, v, hv, h⟩ := bind_eq_ok.1 h
    obtain ⟨chain, w, hw, h⟩ := bind_eq_ok.1 h
    obtain ⟨location, x, hx, h⟩ := bind_eq_ok.1 h
    obtain ⟨y, _, hy, h⟩ := bind_eq_ok.1 h
    cases hy
    obtain ⟨rfl, rfl⟩ := pure_ok h
    have hv' := scans_ok (scans_ok hs hu) hv
    have ht := scans_ok (scans_ok hv' hw) hx
    have hchain := (repeatWhile (P := fun chain => ∀ x ∈ chain, x.Named)
      (fun _ h => by cases h) fun _ h => access h).of_ok hv' hw
    refine ⟨⟨_, _, hlocation.start, hlocation.stop, ?_⟩, hchain⟩
    show t.cursor.text (location.start.getD 0) (location.stop.getD 0) = _
    rw [ht.slice, hlocation.start, hlocation.stop]
    rfl

section Within

variable {pattern : Parser Pattern} [Orderly pattern]

theorem fromSource (h : Yields text (Pattern.WellFormed text) pattern) :
    Yields text (Source.WellFormed text) (fromSource pattern) := by
  have hretrieval : Yields text (Source.WellFormed text) (Source.retrieval <$> Parser.retrieval) :=
    map retrieval fun r hr => .retrieval hr
  have haccumulate : Yields text (Source.WellFormed text) (accumulate pattern) := by
    unfold accumulate accumulateBody
    refine after fun _ => after fun _ => bind (h.nested .source) fun input hinput => ?_
    refine after fun _ => after fun _ => after fun _ => after fun _ => after fun _ =>
      after fun _ => ?_
    exact after fun _ => after fun _ => after fun _ => after fun _ => after fun l =>
      pure (.accumulate l hinput _ _ _)
  have hcollect : Yields text (Source.WellFormed text) (collect pattern) := by
    unfold collect collectBody
    exact after fun _ => after fun _ => bind (h.nested .source) fun input hinput => after fun _ =>
        after fun l =>
      pure (.collect l hinput)
  unfold Parser.fromSource
  refine after fun _ => after fun _ => ite (fun _ => ?_) fun _ => after fun _ =>
    ite (fun _ => ?_) fun _ => hretrieval
  · exact after fun _ => ite (fun _ => haccumulate) fun _ => hretrieval
  · exact after fun _ => ite (fun _ => hcollect) fun _ => hretrieval

end Within

theorem wellFormed_attachSource {p : Pattern} (hp : p.WellFormed text) {source : Source}
    (hsource : source.WellFormed text) : (attachSource p source).WellFormed text := by
  cases hp with
  | mk constraints => exact .mk constraints hsource

theorem patternWithin (levels : Nat) :
    Yields text (Pattern.WellFormed text) (patternWithin levels) := by
  induction levels with
  | zero => exact throw
  | succ levels ih =>
    refine bind factPattern fun p hp => after fun _ => ite (fun _ => ?_) fun _ => pure hp.1
    exact bind (fromSource ih) fun source hsource => pure (wellFormed_attachSource hp.1 hsource)

theorem sourcedPattern :
    Yields text (Condition.WellFormed text) (Condition.pattern <$> sourcedPattern) :=
  map (byLevels patternWithin) fun _ hp => .pattern hp

/-! ### Conditions -/

theorem wellFormed_join {kind : Grouping} (hkind : kind = .and ∨ kind = .or) {first : Condition}
    {others : List Condition} (hfirst : first.WellFormed text)
    (hothers : ∀ c ∈ others, c.WellFormed text) : (join kind first others).WellFormed text := by
  unfold join
  cases others with
  | nil => exact hfirst
  | cons second others =>
    rw [List.getLast?_cons]
    exact .several hkind rfl (List.forall_mem_cons.2 ⟨hfirst, hothers⟩)

theorem infixGroup {kind : Grouping} (hkind : kind = .and ∨ kind = .or)
    {connectives : List TokenKind} {operand : Parser Condition} [Orderly operand]
    (hoperand : Yields text (Condition.WellFormed text) operand) :
    Yields text (Condition.WellFormed text) (infixGroup kind connectives operand) := by
  unfold Parser.infixGroup
  refine bind hoperand fun first hfirst => ?_
  refine bind (P := fun others => ∀ c ∈ others, c.WellFormed text)
    (repeatWhile (fun _ h => by cases h) fun others hothers => ?_) fun others hothers =>
      pure (wellFormed_join hkind hfirst hothers)
  exact after fun _ => bind hoperand fun c hc =>
    pure (List.forall_mem_append.2 ⟨hothers, List.forall_mem_singleton.2 hc⟩)

section Single

variable {single : Parser Condition} [Orderly single]
  (hsingle : Yields text (Condition.WellFormed text) single)

include hsingle

theorem disjunction : Yields text (Condition.WellFormed text) (disjunction single) :=
  infixGroup (.inr rfl) (infixGroup (.inl rfl) hsingle)

theorem prefixGroup : Yields text (Condition.WellFormed text) (prefixGroup single) := by
  unfold Parser.prefixGroup
  refine after fun connective => bind (P := fun operands => ∀ c ∈ operands, c.WellFormed text)
    (repeatWhile (fun _ h => by cases h) fun operands hoperands => ?_) fun operands hoperands => ?_
  · exact bind hsingle fun c hc =>
      pure (List.forall_mem_append.2 ⟨hoperands, List.forall_mem_singleton.2 hc⟩)
  · cases operands with
    | nil => exact after fun _ => fail
    | cons first others =>
      obtain ⟨hfirst, hothers⟩ := List.forall_mem_cons.1 hoperands
      refine after fun _ => pure (wellFormed_join ?_ hfirst hothers)
      split
      · exact .inr rfl
      · exact .inl rfl

theorem parenthesised : Yields text (Condition.WellFormed text) (parenthesised single) := by
  unfold Parser.parenthesised
  refine after fun _ => after fun _ =>
    ite (fun _ => prefixGroup (hsingle.nested .prefixed)) fun _ => ?_
  exact bind (disjunction (hsingle.nested .group)) fun c hc => after fun _ => pure hc

theorem unaryGroup {k : Keyword} {kind : Grouping} (hkind : kind = .not ∨ kind = .exists_) :
    Yields text (Condition.WellFormed text) (unaryGroup k kind single) := by
  have hoperand : Yields text (Condition.WellFormed text) (operand single) := by
    unfold operand
    exact after fun _ => ite (fun _ => parenthesised hsingle) fun _ => sourcedPattern
  unfold Parser.unaryGroup
  exact after fun _ => bind (hoperand.nested .operand) fun c hc => after fun l =>
    pure (.single hkind l hc)

end Single

theorem evalCondition : Yields text (Condition.WellFormed text) evalCondition := by
  unfold Parser.evalCondition
  exact after fun _ => after fun code => after fun _ => after fun l => pure (.eval l code)

def Demanded (text : String) (base : Pattern) (patterns : List Pattern) : Prop :=
  (∃ others, patterns = base :: others) ∧
    ∀ p ∈ patterns, p.WellFormed text ∧ p.source = .workingMemory

theorem start_closeAt (l : Location) (stop : Option Nat) : (l.closeAt stop).start = l.start := by
  cases stop <;> rfl

theorem forallCondition : Yields text (Condition.WellFormed text) forallCondition where
  of_ok {s t c} hs h := by
    obtain ⟨token, u, hu, h⟩ := bind_eq_ok.1 h
    obtain ⟨_, v, hv, h⟩ := bind_eq_ok.1 h
    obtain ⟨base, w, hw, h⟩ := bind_eq_ok.1 h
    have hsu := scans_ok hs hu
    have hsv := scans_ok hsu hv
    have htaken := taken_of_keyword hs.toOver hu
    have honv := State.Onward.of_ok hsu.toOver hv
    have hstart := (factPattern_laid hsv.toOver hw).location.start
    have hlt : token.start < v.cursor.coming := by
      have hcoming := honv.past_le_coming
      have hpast := honv.past_le
      have htoken := htaken.lt_past
      omega
    have hrest : Yields text (Condition.WellFormed text) (do
        let patterns ← Parser.repeatWhile [base]
          (fun _ => do return !(← nextIs [.symbol .rparen, .endOfInput]))
          fun patterns => do
            skip .comma
            return patterns ++ [← Parser.factPattern]
        if patterns.length < 2 then Parser.fail (.earlyExit "forall" (← Parser.current))
        let _ ← symbol .rparen
        return .group .forall_ (← close (.ofToken token)) (patterns.map .pattern)) := by
      refine bind (P := Demanded text base) (repeatWhile ?_ fun patterns hpatterns => ?_)
        fun patterns hpatterns => ?_
      · exact ⟨⟨[], rfl⟩, List.forall_mem_singleton.2 (factPattern.of_ok hsv hw)⟩
      · refine after fun _ => bind factPattern fun p hp => pure ?_
        obtain ⟨⟨others, rfl⟩, hall⟩ := hpatterns
        exact ⟨⟨others ++ [p], rfl⟩,
          List.forall_mem_append.2 ⟨hall, List.forall_mem_singleton.2 hp⟩⟩
      · obtain ⟨⟨others, rfl⟩, hall⟩ := hpatterns
        refine ite (fun _ => after fun _ => fail) fun hlength => ?_
        cases others with
        | nil => exact absurd (Nat.lt_succ_self 1) hlength
        | cons other others =>
          have hclosed : ∀ l' : Location, l'.start = some token.start →
              ∃ a b, l'.start = some a ∧ base.location.start = some b ∧ a < b :=
            fun l' hl' => ⟨_, _, hl', hstart, hlt⟩
          refine after fun _ => ⟨fun {s t c} _ h => ?_⟩
          obtain ⟨l, x, hx, h⟩ := bind_eq_ok.1 h
          obtain ⟨rfl, rfl⟩ := close_ok hx
          obtain ⟨rfl, rfl⟩ := pure_ok h
          exact .universal (hclosed _ (start_closeAt _ _)) hall
    exact hrest.of_ok (scans_ok hsv hw) h

theorem singleCondition {single : Parser Condition} [Orderly single]
    (hsingle : Yields text (Condition.WellFormed text) single) :
    Yields text (Condition.WellFormed text) (singleCondition single) := by
  have hended : ∀ {p : Parser Condition} [Orderly p], Yields text (Condition.WellFormed text) p →
      Yields text (Condition.WellFormed text) (do
        let condition ← p
        skip .semicolon
        return condition) :=
    fun hp => bind hp fun c hc => after fun _ => pure hc
  unfold Parser.singleCondition
  refine after fun token => ?_
  refine ite (fun _ => hended (unaryGroup hsingle (.inr rfl))) fun _ => ?_
  refine ite (fun _ => hended (unaryGroup hsingle (.inl rfl))) fun _ => ?_
  refine ite (fun _ => hended evalCondition) fun _ => ?_
  refine ite (fun _ => hended forallCondition) fun _ => ?_
  refine ite (fun _ => hended (parenthesised hsingle)) fun _ => ?_
  exact ite (fun _ => hended sourcedPattern) fun _ => hended fail

theorem conditionWithin (levels : Nat) :
    Yields text (Condition.WellFormed text) (conditionWithin levels) := by
  induction levels with
  | zero => exact throw
  | succ levels ih => exact singleCondition ih

theorem conditions : Yields text (Condition.WellFormed text) conditions :=
  disjunction (byLevels conditionWithin)

theorem block {anchor : Option Token} :
    Yields text (fun b => ∀ c ∈ b.elements, c.WellFormed text) (block anchor) := by
  unfold Parser.block
  refine bind (P := fun cs => ∀ c ∈ cs, c.WellFormed text)
    (repeatWhile (fun _ h => by cases h) fun elements helements => ?_) fun elements helements =>
      pure helements
  unfold Parser.blockElement
  refine bind (attempt conditions) fun r hr => ?_
  cases r with
  | ok c =>
    exact pure (List.forall_mem_append.2 ⟨helements, List.forall_mem_singleton.2 (hr c rfl)⟩)
  | error e => exact after fun _ => pure helements

end Yields

end Rulebook.Parser
