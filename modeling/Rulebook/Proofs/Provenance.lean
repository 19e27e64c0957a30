import Rulebook.Proofs.Entries
import Rulebook.Proofs.Framing
import Rulebook.Proofs.Provides
import Rulebook.Tree.Node

/-!
# Where the parts of a tree come from

The parts of a tree that hold a stretch of the source are retrievals, embedded code as a condition
or a predicate, and return values. Each of them was read by a production, from a state as states of
the parse are, whatever went wrong around it. A predicate is the last of what its constraint adds.
-/

namespace Rulebook

variable {frames : Nat}

open Rulebook.Parser

def Node.ReadFrom (C : Parser.State → Parser.State → Prop) : Node → Prop
  | .source (.retrieval r) => ∃ s t, C s t ∧ retrieval s = .ok r t
  | .condition (.eval location code) => ∃ s t, C s t ∧ evalCondition s = .ok (.eval location code) t
  | .constraint (.predicate location code field declaration) =>
    ∃ found r s t, C s t ∧ Parser.constraint found s = .ok r t ∧ r.failure = none ∧
      r.found.getLast? = some (.predicate location code field declaration)
  | .restriction (.returnValue location operator code) =>
    ∃ o token s t, C s t ∧ restrictionValue o token s = .ok (.returnValue location operator code) t
  | _ => True

/-- All of some nodes were read by their productions. -/
def AllRead (C : Parser.State → Parser.State → Prop) (ns : List Node) : Prop :=
  ∀ n ∈ ns, n.ReadFrom C

namespace AllRead

variable {C : Parser.State → Parser.State → Prop} {n : Node} {ns ms : List Node}

theorem nil : AllRead C [] := fun _ h => by cases h

theorem cons (h : n.ReadFrom C) (hs : AllRead C ns) : AllRead C (n :: ns) :=
  List.forall_mem_cons.2 ⟨h, hs⟩

theorem append (h : AllRead C ns) (h' : AllRead C ms) : AllRead C (ns ++ ms) :=
  List.forall_mem_append.2 ⟨h, h'⟩

theorem flatMap {α : Type} {f : α → List Node} {xs : List α} (h : ∀ x ∈ xs, AllRead C (f x)) :
    AllRead C (xs.flatMap f) := fun n hn => by
  obtain ⟨x, hx, hn⟩ := List.mem_flatMap.1 hn
  exact h x hx n hn

theorem map {α : Type} {f : α → Node} {xs : List α} (h : ∀ x ∈ xs, (f x).ReadFrom C) :
    AllRead C (xs.map f) := fun n hn => by
  obtain ⟨x, hx, rfl⟩ := List.mem_map.1 hn
  exact h x hx

theorem listNodes {cs : List Condition} (h : ∀ c ∈ cs, AllRead C c.nodes) :
    AllRead C (Condition.listNodes cs) := by
  induction cs with
  | nil =>
    rw [Condition.listNodes]
    exact nil
  | cons c cs ih =>
    obtain ⟨hc, hcs⟩ := List.forall_mem_cons.1 h
    rw [Condition.listNodes]
    exact append hc (ih hcs)

theorem group {kind : Grouping} {location : Location} {operands : List Condition}
    (h : ∀ c ∈ operands, AllRead C c.nodes) :
    AllRead C (Condition.group kind location operands).nodes := by
  rw [Condition.nodes]
  exact cons True.intro (listNodes h)

theorem pattern {p : Pattern}
    (hconstraints : ∀ c ∈ p.constraints, AllRead C (Pattern.nodes.constraintNodes c))
    (hsource : AllRead C p.source.nodes) : AllRead C p.nodes := by
  obtain ⟨location, objectType, name, constraints, source, left, right⟩ := p
  rw [Pattern.nodes]
  exact cons True.intro (append (flatMap hconstraints) hsource)

end AllRead

namespace Parser

def RestrictionsRead (C : State → State → Prop) (rs : List Restriction) : Prop :=
  ∀ r ∈ rs, (Node.restriction r).ReadFrom C

def ConstraintsRead (C : State → State → Prop) (cs : List Constraint) : Prop :=
  ∀ c ∈ cs, AllRead C (Pattern.nodes.constraintNodes c)

def ConditionsRead (C : State → State → Prop) (cs : List Condition) : Prop :=
  ∀ c ∈ cs, AllRead C c.nodes

set_option synthInstance.maxSize 100000

variable {β : Type} {C : State → State → Prop}

theorem RestrictionsRead.single {r : Restriction} (h : (Node.restriction r).ReadFrom C) :
    RestrictionsRead C [r] := List.forall_mem_singleton.2 h

theorem RestrictionsRead.append_connective {rs more : List Restriction} (h : RestrictionsRead C rs)
    (c : Connective) (token : Token) (hmore : RestrictionsRead C more) :
    RestrictionsRead C (rs ++ connectiveAt c token :: more) :=
  List.forall_mem_append.2 ⟨h, List.forall_mem_cons.2 ⟨True.intro, hmore⟩⟩

theorem nodes_read_of_fact {p : Pattern}
    (h : ConstraintsRead C p.constraints ∧ p.source = .workingMemory) : AllRead C p.nodes := by
  refine .pattern h.1 ?_
  rw [h.2, Source.nodes]
  exact .nil

theorem join_read {kind : Grouping} {first : Condition} {others : List Condition}
    (hfirst : AllRead C first.nodes) (hothers : ConditionsRead C others) :
    AllRead C (join kind first others).nodes := by
  unfold join
  split
  · exact hfirst
  · exact .group (List.forall_mem_cons.2 ⟨hfirst, hothers⟩)

namespace Provides

/-! ### Restrictions -/

theorem restrictionValue_read {operator : String} {token : Token} :
    Provides C (fun r => (Node.restriction r).ReadFrom C) (restrictionValue operator token) where
  of_ok hs h := by
    rename_i r
    cases r with
    | returnValue location operator' code => exact ⟨operator, token, _, _, hs, h⟩
    | _ => exact True.intro

theorem predicate_provides {token : Token} {field declaration : Option String} :
    Provides C (fun c => ∃ l code, c = .predicate l code field declaration)
      (predicate token field declaration) where
  of_ok _ h := by
    obtain ⟨code, _, -, h⟩ := bind_eq_ok.1 h
    obtain ⟨_, _, -, h⟩ := bind_eq_ok.1 h
    obtain ⟨l, _, -, h⟩ := bind_eq_ok.1 h
    exact ⟨l, code, (pure_ok h).1⟩

def ReadUpTo (C : State → State → Prop) (cs : List Constraint) : Prop :=
  ∀ c ∈ cs, AllRead C (Pattern.nodes.constraintNodes c) ∨
    cs.getLast? = some c ∧ ∃ l code field declaration, c = .predicate l code field declaration

theorem readUpTo_predicate {found : List Constraint} (hfound : ConstraintsRead C found)
    {l : Location} {code : String} {field declaration : Option String} :
    ReadUpTo C (found ++ [.predicate l code field declaration]) := fun c hc => by
  rcases List.mem_append.1 hc with hc | hc
  · exact .inl (hfound c hc)
  · obtain rfl := List.mem_singleton.1 hc
    exact .inr ⟨List.getLast?_concat, l, code, field, declaration, rfl⟩

def HarvestRead (C : State → State → Prop) (r : Harvest (List Constraint)) : Prop :=
  (r.failure = none → ReadUpTo C r.found) ∧ (r.failure ≠ none → ConstraintsRead C r.found)

theorem harvest_read {found : List Constraint} (hfound : ConstraintsRead C found) {q : Parser β}
    {add : List Constraint → β → List Constraint}
    (hq : Provides C (fun b => ReadUpTo C (add found b)) q) :
    Provides C (HarvestRead C) (Parser.harvest found q add) where
  of_ok hs h := by
    rcases harvest_ok h with ⟨b, hb, rfl⟩ | ⟨e, -, rfl⟩
    · exact ⟨fun _ => hq.of_ok hs hb, fun hne => absurd rfl hne⟩
    · exact ⟨nofun, fun _ => hfound⟩

theorem retrieval_read :
    Provides C (fun r => AllRead C (Source.nodes (.retrieval r))) retrieval where
  of_ok hs h := by
    rw [Source.nodes]
    exact .cons ⟨_, _, hs, h⟩ (.cons True.intro (.map fun _ _ => True.intro))

theorem evalCondition_read : Provides C (fun c => AllRead C c.nodes) evalCondition where
  of_ok hs h := by
    obtain ⟨_, _, -, h'⟩ := bind_eq_ok.1 h
    obtain ⟨_, _, -, h'⟩ := bind_eq_ok.1 h'
    obtain ⟨_, _, -, h'⟩ := bind_eq_ok.1 h'
    obtain ⟨_, _, -, h'⟩ := bind_eq_ok.1 h'
    obtain ⟨rfl, rfl⟩ := pure_ok h'
    rw [Condition.nodes]
    exact .cons ⟨_, _, hs, h⟩ .nil

section Enduring

variable [Enduring C]

theorem valueList_read {operator : String} {c : Connective} :
    Provides C (RestrictionsRead C) (valueList operator c) := by
  unfold valueList
  refine after fun _ => after fun _ => bind restrictionValue_read fun first hfirst => ?_
  refine bind (repeatWhile (.single hfirst) fun found hfound => ?_)
    fun found hfound => after fun _ => pure hfound
  exact after fun comma => after fun _ => bind restrictionValue_read fun next hnext =>
    pure (hfound.append_connective c comma (.single hnext))

theorem restriction_read : Provides C (RestrictionsRead C) restriction := by
  unfold restriction
  refine after fun token => ite (fun _ => ?_) fun _ => ite (fun _ => ?_) fun _ =>
    ite (fun _ => ?_) fun _ => fail
  · exact after fun _ => bind restrictionValue_read fun r hr => pure (.single hr)
  · exact after fun _ => valueList_read
  · refine after fun _ => after fun operator => ite (fun _ => ?_) fun _ =>
        ite (fun _ => ?_) fun _ =>
      fail
    · exact after fun _ => valueList_read
    · exact after fun _ => bind restrictionValue_read fun r hr =>
        pure (.single hr)

theorem joinedRestriction_read {x : List Restriction × Bool} (hx : RestrictionsRead C x.1) :
    Provides C (fun y => RestrictionsRead C y.1) (joinedRestriction x) := by
  obtain ⟨found, _⟩ := x
  unfold joinedRestriction
  refine afterOf (fun token => ?_) fun token => ?_
  · split <;> infer_instance
  split
  · exact pure hx
  · next c _ =>
    refine after fun _ => ite (fun _ => ?_) fun _ => pure hx
    exact after fun token => bind restriction_read fun rs hrs =>
      pure (RestrictionsRead.append_connective hx c token hrs)

theorem restrictions_read_from : Provides C (RestrictionsRead C) restrictions := by
  unfold restrictions
  refine bind restriction_read fun first hfirst =>
    bind (P := fun x : List Restriction × Bool => RestrictionsRead C x.1)
      (repeatWhile hfirst fun x hx => joinedRestriction_read hx) ?_
  rintro ⟨found, _⟩ hfound
  exact pure hfound

/-! ### Constraints -/

theorem fieldConstraint_read {token fieldToken : Token} {field : String}
    {declaration : Option String} {found : List Constraint} (hfound : ConstraintsRead C found) :
    Provides C (fun cs => ReadUpTo C (found ++ cs))
      (fieldConstraint token fieldToken field declaration) := by
  have hread : ∀ {cs : List Constraint}, ConstraintsRead C cs → ReadUpTo C (found ++ cs) :=
    fun hcs c hc => .inl (List.forall_mem_append.2 ⟨hfound, hcs⟩ c hc)
  unfold fieldConstraint
  refine after fun _ => ite (fun _ => ?_) fun _ => after fun _ => ite (fun _ => ?_) fun _ =>
    ite (fun _ => pure (hread fun _ h => by cases h)) fun _ => after fun _ => fail
  · refine after fun _ => bind predicate_provides fun c hc => pure ?_
    obtain ⟨l, code, rfl⟩ := hc
    exact readUpTo_predicate hfound
  · exact bind restrictions_read_from fun found hfound => after fun _ =>
      pure (hread (List.forall_mem_singleton.2 (.cons True.intro (.map hfound))))

theorem fieldBinding_read {token : Token} {field : String} {declaration : Option String} :
    Provides C (ConstraintsRead C) (fieldBinding token field declaration) := by
  cases declaration with
  | none => exact pure fun _ h => by cases h
  | some name => exact after fun _ => pure (List.forall_mem_singleton.2 (.cons True.intro .nil))

theorem constraint_readUpTo {found : List Constraint} (hfound : ConstraintsRead C found) :
    Provides C (HarvestRead C) (constraint found) := by
  have hpredicate : ∀ {token : Token}, Provides C (fun c => ReadUpTo C (found ++ [c]))
      (predicate token none none) :=
    predicate_provides.mono fun c hc => by
      obtain ⟨l, code, rfl⟩ := hc
      exact readUpTo_predicate hfound
  unfold constraint
  refine after fun token => ite (fun _ => harvest_read hfound hpredicate) fun _ => after fun _ =>
    ite (fun _ => harvest_read hfound ?_) fun _ => ?_
  · unfold evalPredicate
    exact after fun _ => hpredicate
  · unfold boundField
    refine afterOf (fun r => ?_) fun r => ?_
    · rcases r with e | ⟨declaration, fieldToken, field⟩ <;> infer_instance
    · rcases r with e | ⟨declaration, fieldToken, field⟩
      · exact pure ⟨nofun, fun _ => hfound⟩
      · refine bind fieldBinding_read fun binding hbinding => ?_
        have hboth : ConstraintsRead C (found ++ binding) :=
          List.forall_mem_append.2 ⟨hfound, hbinding⟩
        exact harvest_read hboth (fieldConstraint_read hboth)

theorem constraint_read {found : List Constraint} (hfound : ConstraintsRead C found) :
    Provides C (fun r => ConstraintsRead C r.found) (constraint found) where
  of_ok {_ _ r} hs h := by
    obtain ⟨hdone, hbroken⟩ := (constraint_readUpTo hfound).of_ok hs h
    by_cases hfailure : r.failure = none
    · intro c hc
      rcases hdone hfailure c hc with hread | ⟨hlast, l, code, field, declaration, rfl⟩
      · exact hread
      · exact .cons ⟨found, r, _, _, hs, h, hfailure, hlast⟩ .nil
    · exact hbroken hfailure

theorem constraints_read : Provides C (fun r => ConstraintsRead C r.found) constraints := by
  unfold constraints
  refine after fun _ => ite (fun _ => pure fun _ h => by cases h) fun _ => ?_
  refine bind (constraint_read fun _ h => by cases h) fun first hfirst => ?_
  exact repeatWhile hfirst fun r hr => after fun _ => constraint_read hr

theorem factPattern_read : Provides C (fun p => ConstraintsRead C p.constraints ∧
    p.source = .workingMemory) factPattern := by
  unfold factPattern
  refine after fun _ => after fun _ => after fun _ => after fun _ => ?_
  exact bind constraints_read fun body hbody => after fun _ => after fun _ => pure ⟨hbody, rfl⟩

/-! ### Data sources -/

theorem fromSource_read {pattern : Parser Pattern} [Orderly pattern]
    (h : Provides C (fun p => AllRead C p.nodes) pattern) :
    Provides C (fun source => AllRead C source.nodes) (fromSource pattern) := by
  have hretrieval : Provides C (fun source => AllRead C source.nodes)
      (Source.retrieval <$> retrieval) :=
    map retrieval_read fun r hr => hr
  have haccumulate : Provides C (fun source => AllRead C source.nodes) (accumulate pattern) := by
    unfold accumulate accumulateBody
    refine after fun _ => after fun _ => bind (h.nested .source) fun input hinput => ?_
    refine after fun _ => after fun _ => after fun _ => after fun _ => after fun _ =>
      after fun _ => ?_
    refine after fun _ => after fun _ => after fun _ => after fun _ => after fun _ => pure ?_
    rw [Source.nodes]
    exact .cons True.intro hinput
  have hcollect : Provides C (fun source => AllRead C source.nodes) (collect pattern) := by
    unfold collect collectBody
    refine after fun _ => after fun _ => bind (h.nested .source) fun input hinput => after fun _ =>
      after fun _ => pure ?_
    rw [Source.nodes]
    exact .cons True.intro hinput
  unfold fromSource
  refine after fun _ => after fun _ => ite (fun _ => ?_) fun _ => after fun _ =>
    ite (fun _ => ?_) fun _ => hretrieval
  · exact after fun _ => ite (fun _ => haccumulate) fun _ => hretrieval
  · exact after fun _ => ite (fun _ => hcollect) fun _ => hretrieval

theorem patternWithin_read (levels : Nat) :
    Provides C (fun p => AllRead C p.nodes) (patternWithin levels) := by
  induction levels with
  | zero => exact throw
  | succ levels ih =>
    refine bind factPattern_read fun p hp => after fun _ => ite (fun _ => ?_) fun _ =>
      pure (nodes_read_of_fact hp)
    exact bind (fromSource_read ih) fun source hsource => pure (.pattern hp.1 hsource)

theorem sourcedPattern_read :
    Provides C (fun c => AllRead C c.nodes) (Condition.pattern <$> sourcedPattern) :=
  map (byLevels patternWithin_read) fun p hp => by
    rw [Condition.nodes]
    exact hp

/-! ### Conditions -/

theorem infixGroup_read {kind : Grouping} {connectives : List TokenKind}
    {operand : Parser Condition} [Orderly operand]
    (hoperand : Provides C (fun c => AllRead C c.nodes) operand) :
    Provides C (fun c => AllRead C c.nodes) (infixGroup kind connectives operand) := by
  unfold infixGroup
  refine bind hoperand fun first hfirst => bind (P := ConditionsRead C)
    (repeatWhile (fun _ h => by cases h) fun others hothers => ?_) fun others hothers =>
      pure (join_read hfirst hothers)
  exact after fun _ => bind hoperand fun c hc =>
    pure (List.forall_mem_append.2 ⟨hothers, List.forall_mem_singleton.2 hc⟩)

section Single

variable {single : Parser Condition} [Orderly single]
  (hsingle : Provides C (fun c => AllRead C c.nodes) single)

include hsingle

theorem disjunction_read : Provides C (fun c => AllRead C c.nodes) (disjunction single) :=
  infixGroup_read (infixGroup_read hsingle)

theorem parenthesised_read : Provides C (fun c => AllRead C c.nodes) (parenthesised single) := by
  have hprefix :
      Provides C (fun c => AllRead C c.nodes) (prefixGroup (Parser.nested .prefixed single)) := by
    unfold prefixGroup
    refine afterOf (fun connective => @Orderly.bind _ _ _ _ _ fun operands => ?_) fun connective =>
      bindOf (P := ConditionsRead C) (fun operands => ?_)
        (repeatWhile (fun _ h => by cases h) fun operands hoperands => ?_) fun operands hoperands =>
          ?_
    · cases operands <;> infer_instance
    · cases operands <;> infer_instance
    · exact bind (Provides.nested hsingle .prefixed) fun c hc =>
        pure (List.forall_mem_append.2 ⟨hoperands, List.forall_mem_singleton.2 hc⟩)
    · cases operands with
      | nil => exact after fun _ => fail
      | cons first others =>
        obtain ⟨hfirst, hothers⟩ := List.forall_mem_cons.1 hoperands
        exact after fun _ => pure (join_read hfirst hothers)
  unfold parenthesised
  refine after fun _ => after fun _ => ite (fun _ => hprefix) fun _ => ?_
  exact bind (disjunction_read (Provides.nested hsingle .group)) fun c hc => after fun _ => pure hc

theorem unaryGroup_read {k : Keyword} {kind : Grouping} :
    Provides C (fun c => AllRead C c.nodes) (unaryGroup k kind single) := by
  have hoperand : Provides C (fun c => AllRead C c.nodes) (operand single) := by
    unfold operand
    exact after fun _ => ite (fun _ => parenthesised_read hsingle) fun _ => sourcedPattern_read
  unfold unaryGroup
  exact after fun _ => bind (Provides.nested hoperand .operand) fun c hc => after fun _ =>
    pure (.group (List.forall_mem_singleton.2 hc))

end Single

theorem forallCondition_read : Provides C (fun c => AllRead C c.nodes) forallCondition := by
  have hpatterns : ∀ {patterns : List Pattern}, (∀ p ∈ patterns, AllRead C p.nodes) →
      ∀ l, AllRead C (Condition.group .forall_ l (patterns.map .pattern)).nodes := fun h l =>
    .group fun c hc => by
      obtain ⟨p, hp, rfl⟩ := List.mem_map.1 hc
      rw [Condition.nodes]
      exact h p hp
  have hfact : Provides C (fun p => AllRead C p.nodes) factPattern :=
    factPattern_read.mono fun _ => nodes_read_of_fact
  unfold forallCondition
  refine after fun _ => after fun _ => bind hfact fun base hbase => ?_
  refine bind (P := fun patterns : List Pattern => ∀ p ∈ patterns, AllRead C p.nodes)
    (repeatWhile (List.forall_mem_singleton.2 hbase) fun patterns hread => ?_) fun patterns hread =>
      ?_
  · exact after fun _ => bind hfact fun p hp =>
      pure (List.forall_mem_append.2 ⟨hread, List.forall_mem_singleton.2 hp⟩)
  · exact ite (fun _ => after fun _ => fail) fun _ => after fun _ => after fun l =>
      pure (hpatterns hread l)

theorem singleCondition_read {single : Parser Condition} [Orderly single]
    (hsingle : Provides C (fun c => AllRead C c.nodes) single) :
    Provides C (fun c => AllRead C c.nodes) (singleCondition single) := by
  have hended : ∀ {p : Parser Condition} [Orderly p], Provides C (fun c => AllRead C c.nodes) p →
      Provides C (fun c => AllRead C c.nodes) (do
        let condition ← p
        skip .semicolon
        return condition) :=
    fun hp => bind hp fun c hc => after fun _ => pure hc
  unfold singleCondition
  refine after fun token => ?_
  refine ite (fun _ => hended (unaryGroup_read hsingle)) fun _ => ?_
  refine ite (fun _ => hended (unaryGroup_read hsingle)) fun _ => ?_
  refine ite (fun _ => hended evalCondition_read) fun _ => ?_
  refine ite (fun _ => hended forallCondition_read) fun _ => ?_
  refine ite (fun _ => hended (parenthesised_read hsingle)) fun _ => ?_
  exact ite (fun _ => hended sourcedPattern_read) fun _ => hended fail

theorem conditionWithin_read (levels : Nat) :
    Provides C (fun c => AllRead C c.nodes) (conditionWithin levels) := by
  induction levels with
  | zero => exact throw
  | succ levels ih => exact singleCondition_read ih

theorem block_read {anchor : Option Token} :
    Provides C (fun b => ConditionsRead C b.elements) (block anchor) := by
  unfold block
  refine bind (P := ConditionsRead C)
    (repeatWhile (fun _ h => by cases h) fun elements helements => ?_) fun elements helements =>
      pure helements
  unfold blockElement
  refine bindOf (fun r => ?_) (attempt (disjunction_read (byLevels conditionWithin_read)))
    fun r hr => ?_
  · cases r <;> infer_instance
  cases r with
  | ok c =>
    exact pure (List.forall_mem_append.2 ⟨helements, List.forall_mem_singleton.2 (hr c rfl)⟩)
  | error e => exact after fun _ => pure helements

end Enduring

end Provides

/-! ### Whole files -/

/-- A run over a text and in no trial, on the way to a state. -/
structure Underway (hashComments : Bool) (text : String) (z s t : State) : Prop where
  earnest : s.Earnest hashComments text
  evolves : (z.unwound t).Evolves z

instance (hashComments : Bool) (text : String) (z : State) :
    Enduring (Underway hashComments text z) where
  part h hst _ huv := ⟨h.earnest.evolves hst, (huv.restacked z.stack).trans h.evolves⟩
  named _ h := ⟨⟨h.earnest.cursor, h.earnest.trials⟩, h.evolves.of_unnamed⟩
  within _ h := ⟨⟨h.earnest.cursor, h.earnest.trials⟩, h.evolves⟩

end Parser

section Package

variable {C : Parser.State → Parser.State → Prop}

theorem AllRead.entry {e : Entry} (h : ∀ b, e.block? = some b → ConditionsRead C b.elements) :
    AllRead C e.nodes := by
  unfold Entry.nodes
  refine .cons True.intro (.append (.map fun _ _ => True.intro) ?_)
  cases e with
  | rule r =>
    dsimp only
    cases hb : r.conditions with
    | none => exact .nil
    | some b => exact .group (h b hb)
  | query q =>
    dsimp only
    cases hb : q.conditions with
    | none => exact .nil
    | some b => exact .group (h b hb)

theorem AllRead.package {p : Package} (h : ∀ e ∈ p.rules, AllRead C e.nodes) :
    AllRead C p.nodes := by
  unfold Package.nodes
  have hleaf : ∀ {α : Type} {f : α → Node} {xs : List α}, (∀ x, (f x).ReadFrom C) →
      AllRead C (xs.map f) := fun hf => .map fun x _ => hf x
  refine .cons True.intro
    (.append (.append (.append (.append (.append (.append ?_ ?_) ?_) ?_) ?_) ?_) ?_)
  · exact hleaf fun _ => True.intro
  · exact hleaf fun _ => True.intro
  · exact hleaf fun _ => True.intro
  · exact hleaf fun _ => True.intro
  · exact .flatMap fun t _ => .cons True.intro (hleaf fun _ => True.intro)
  · exact .flatMap h
  · exact hleaf fun _ => True.intro

end Package

theorem nodes_read_of_parse {settings : Settings} {sourceName text : String} {r : ParseResult}
    (h : parse frames settings sourceName text = .ok r) :
    ∃ z, compilationUnit (.ofText frames settings sourceName text) = .ok r.package z ∧
      r.errors = z.collector.errors ∧
      AllRead (Underway settings.hashComments text z) r.package.nodes := by
  have hidle := idle_ofText frames settings sourceName text
  have hearnest : (State.ofText frames settings sourceName text).Earnest settings.hashComments
      text := ⟨rfl, rfl⟩
  obtain ⟨z, hunit, -, herrors, -⟩ := exists_unit h
  obtain ⟨hrules, hrecorded⟩ := compilationUnit_recorded hidle rfl hunit
  refine ⟨z, hunit, herrors, .package fun e he => .entry fun b hb => ?_⟩
  obtain ⟨u, v, -, hsu, hread, hvz⟩ := hrecorded e (hrules ▸ he)
  obtain ⟨name, anchor, x, y, hux, hblock, hyv⟩ := hread.block hb
  have hu := hearnest.evolves hsu
  have hx :=
    State.Earnest.evolves (s := { u with ruleName := some name }) ⟨hu.cursor, hu.trials⟩ hux
  have hyz : (z.unwound y).Evolves z := (hyv.trans hvz).restacked z.stack
  exact Provides.block_read.of_ok ⟨hx, hyz⟩ hblock

end Rulebook
