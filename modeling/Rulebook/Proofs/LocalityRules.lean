import Rulebook.Proofs.CleanRules
import Rulebook.Proofs.LocalityDeclarations
import Rulebook.Proofs.Wholeness

/-!
# Statements before any continuation

A rule or query recovers from its errors, but what is recovered from was complained of. So without
complaint it is read as if there was no recovery, and this reading is local. A statement that ends
with a delimiter is read again in every text that begins like this one, and adds the same node
there.
-/

namespace Rulebook

open Rulebook.Parser

/-! ### Packages one behind another -/

/-- The declarations of the second package behind those of the first one. -/
instance : Append Package where
  append p q := { p with
    imports := p.imports ++ q.imports
    functionImports := p.functionImports ++ q.functionImports
    globals := p.globals ++ q.globals
    functions := p.functions ++ q.functions
    templates := p.templates ++ q.templates
    rules := p.rules ++ q.rules }

namespace Package

theorem append_def (p q : Package) : p ++ q = { p with
    imports := p.imports ++ q.imports
    functionImports := p.functionImports ++ q.functionImports
    globals := p.globals ++ q.globals
    functions := p.functions ++ q.functions
    templates := p.templates ++ q.templates
    rules := p.rules ++ q.rules } :=
  rfl

theorem append_import (i : Import) (p : Package) :
    { p with imports := p.imports ++ [i] } = p ++ { imports := [i] } := by
  simp [append_def]

theorem append_functionImport (i : Import) (p : Package) :
    { p with functionImports := p.functionImports ++ [i] } = p ++ { functionImports := [i] } := by
  simp [append_def]

theorem append_global (g : Global) (p : Package) :
    { p with globals := p.globals ++ [g] } = p ++ { globals := [g] } := by
  simp [append_def]

theorem append_function (f : Function) (p : Package) :
    { p with functions := p.functions ++ [f] } = p ++ { functions := [f] } := by
  simp [append_def]

theorem append_template (t : Template) (p : Package) :
    { p with templates := p.templates ++ [t] } = p ++ { templates := [t] } := by
  simp [append_def]

theorem append_entry (e : Entry) (p : Package) :
    { p with rules := p.rules ++ [e] } = p ++ { rules := [e] } := by
  simp [append_def]

end Package

namespace Parser

set_option synthInstance.maxSize 100000

variable {α β : Type} {k : Nat} {s t u v : State} {continues : Cursor → TokenKind → Prop}

theorem underName_eq_ok {name : String} {p : Parser α} {a : α} : underName name p s = .ok a u ↔
    ∃ w, p (s.named name) = .ok a w ∧ u = { w with ruleName := none } := by
  refine ⟨fun h => ?_, fun ⟨w, hw, hwu⟩ => ?_⟩
  · obtain ⟨_, _, hname, h⟩ := bind_eq_ok.1 h
    cases hname
    exact ensuring_ok h
  · rw [hwu]
    exact (bind_of_ok (p := modify _) rfl).trans (ensuring_of_ok hw)

/-! ### Recovery aside -/

/-- The second production is the first one without recovery: without complaint, both read
the same. -/
structure Strict (p q : Parser α) : Prop where
  iff : ∀ {s u : State} {a : α}, u.collector.received = s.collector.received →
    (p s = .ok a u ↔ q s = .ok a u)

theorem Local.of_strict {p q : Parser α} (h : Strict p q) [Local continues q] :
    Local continues p where
  from_ hst := by
    refine ⟨fun hu hclean hle hfree => ?_⟩
    obtain ⟨v, hv, halong, hclean'⟩ := Local.again q hst ((h.iff hclean).1 hu) hclean hle hfree
    exact ⟨v, (h.iff hclean').2 hv, halong, hclean'⟩

namespace Strict

theorem refl (p : Parser α) : Strict p p := ⟨fun _ => .rfl⟩

theorem bind {p q : Parser α} {f g : α → Parser β} [Orderly p] [Orderly q] [∀ a, Orderly (f a)]
    [∀ a, Orderly (g a)] (h : Strict p q) (hf : ∀ a, Strict (f a) (g a)) :
    Strict (p >>= f) (q >>= g) where
  iff hclean := by
    rw [bind_eq_ok, bind_eq_ok]
    constructor
    · rintro ⟨a, w, hw, hu⟩
      obtain ⟨hclean₁, hclean₂⟩ := clean_of_bind hw hu hclean
      exact ⟨a, w, (h.iff hclean₁).1 hw, ((hf a).iff hclean₂).1 hu⟩
    · rintro ⟨a, w, hw, hu⟩
      obtain ⟨hclean₁, hclean₂⟩ := clean_of_bind hw hu hclean
      exact ⟨a, w, (h.iff hclean₁).2 hw, ((hf a).iff hclean₂).2 hu⟩

theorem bind_right {p : Parser α} {f g : α → Parser β} [Orderly p] (hf : ∀ a, Orderly (f a))
    (hg : ∀ a, Orderly (g a)) (h : ∀ a, Strict (f a) (g a)) : Strict (p >>= f) (p >>= g) :=
  (refl p).bind h

theorem rounds {more : α → Parser Bool} {body body' : α → Parser α} [∀ a, Orderly (more a)]
    [∀ a, Orderly (body a)] [∀ a, Orderly (body' a)] (h : ∀ a, Strict (body a) (body' a)) (n : Nat)
    (a : α) : Strict (rounds more body n a) (rounds more body' n a) := by
  induction n generalizing a with
  | zero => exact refl _
  | succ n ih =>
    unfold Parser.rounds
    refine (refl (more a)).bind fun asked => ?_
    split
    · exact (h a).bind ih
    · exact refl _

theorem repeatWhile {more : α → Parser Bool} {body body' : α → Parser α} [∀ a, Orderly (more a)]
    [∀ a, Orderly (body a)] [∀ a, Orderly (body' a)] (h : ∀ a, Strict (body a) (body' a))
    (first : α) : Strict (repeatWhile first more body) (repeatWhile first more body') where
  iff {s _ _} hclean := (rounds h (s.cursor.remaining + 1) first).iff hclean

/-- What is recovered from is complained of. -/
theorem recoverFrom (e : ParseError) (kinds : List TokenKind) :
    Strict (recoverFrom e kinds) (fail e) where
  iff {s u a} hclean := by
    refine ⟨fun h => ?_, fun h => by cases h⟩
    rw [recoverFrom_eq] at h
    split at h
    · cases h
    · cases h
      have hreported : (s.collector.report e s.ruleName).received = s.collector.received := hclean
      rw [Collector.received_report] at hreported
      omega

/-- What goes on behind a failure only to recover from it. -/
theorem attempt_bind {p : Parser α} {f : Except ParseError α → Parser β} [Orderly p]
    (hf : ∀ r, Orderly (f r)) (h : ∀ e, Strict (f (.error e)) (fail e)) :
    Strict (attempt p >>= f) (p >>= fun a => f (.ok a)) where
  iff {s u b} hclean := by
    rw [bind_eq_ok, bind_eq_ok]
    constructor
    · rintro ⟨r, w, hw, hu⟩
      rcases attempt_ok hw with ⟨a, rfl, ha⟩ | ⟨e, rfl, he⟩
      · exact ⟨a, w, ha, hu⟩
      · have hsw := (Orderly.evolves_error p he).received_le
        have := hf (.error e)
        have hwu := (Orderly.evolves_ok (f (.error e)) hu).received_le
        cases ((h e).iff (by omega)).1 hu
    · rintro ⟨a, w, hw, hu⟩
      exact ⟨.ok a, w, attempt_of_ok hw, hu⟩

theorem underName {p q : Parser α} (h : Strict p q) (name : String) :
    Strict (underName name p) (underName name q) where
  iff {s u a} hclean := by
    rw [underName_eq_ok, underName_eq_ok]
    refine exists_congr fun w => and_congr_left ?_
    rintro rfl
    exact h.iff hclean

end Strict

/-! ### Conditions of rules and queries -/

instance (elements : List Condition) : Orderly (elementFollows elements) := by
  unfold elementFollows; infer_instance

def strictElement (elements : List Condition) : Parser (List Condition) := do
  return elements ++ [← conditions]

instance (elements : List Condition) : Orderly (strictElement elements) := by
  unfold strictElement; infer_instance

instance (elements : List Condition) : Eager (strictElement elements) := by
  unfold strictElement; infer_instance

theorem strict_blockElement (elements : List Condition) :
    Strict (blockElement elements) (strictElement elements) :=
  .attempt_bind (by rintro (e | c) <;> infer_instance) fun e =>
    (Strict.recoverFrom e conditionFollow).bind fun _ => .refl _

namespace Local

instance (elements : List Condition) : Local anything (strictElement elements) := by
  have : Local anything Parser.conditions := conditions.mono fun _ _ _ => trivial
  unfold strictElement
  infer_instance

instance (elements : List Condition) : Local anything (elementFollows elements) := by
  unfold elementFollows; infer_instance

instance (anchor : Option Token) : Local anything (block anchor) := by
  have hrolls : Rolls elementFollows strictElement :=
    (Strides.of_eager fun _ s => ⟨_, rfl⟩).rolls
  have hloop := Local.repeatWhile hrolls []
  have hstrict : Strict (block anchor) (Parser.repeatWhile [] elementFollows strictElement >>=
      fun elements => return ⟨blockLocation anchor elements, elements⟩) :=
    .bind (.repeatWhile strict_blockElement []) fun _ => .refl _
  exact .of_strict hstrict

instance : Local anything conditionBlock := by
  unfold conditionBlock
  infer_instance

instance : Local anything queryBlock where
  from_ {k s t} h :=
    (from_ (p := block s.cursor.previous) h).congr rfl (by rw [h.cursor.previous_eq]; rfl)

end Local

/-! ### Attributes -/

theorem integer_again {text : String} {n : Int} (h : integer text s = .ok n u) (t : State) :
    integer text t = .ok n t := by
  unfold integer at h ⊢
  dsimp only at h ⊢
  split at h
  · cases h
  · next hlong =>
    rw [if_neg hlong]
    exact congrArg (EStateM.Result.ok · t) (EStateM.Result.ok.inj h).1

theorem attributeValue_of_valueRead {token : Token} {value : AttributeValue}
    (h : ValueRead token s u value) : attributeValue token s = .ok value u := by
  unfold attributeValue
  cases h with
  | number hk hdigits hn =>
    rw [if_pos hk, bind_of_ok hdigits]
    exact bind_of_ok hn
  | @flag found hnumber hk hfound =>
    rw [if_neg hnumber, if_pos hk, bind_of_ok hfound]
    cases found <;> rfl
  | text hnumber hflag hk hgiven =>
    rw [if_neg hnumber, if_neg hflag, if_pos hk]
    exact bind_of_ok hgiven

theorem attributeValue_again {token : Token} {value : AttributeValue} (h : s.Alongside k t)
    (hu : attributeValue token s = .ok value u)
    (hclean : u.collector.received = s.collector.received) (hbrink : ¬u.cursor.AtBrink k) :
    ∃ v, attributeValue token t = .ok value v ∧ u.Alongside k v ∧
      v.collector.received = t.collector.received := by
  have hexpect : ∀ l, Local anything (expect (.literal l)) := fun l => Local.expect (by simp)
  cases valueRead_of_attributeValue hu with
  | number hk hdigits hn =>
    obtain ⟨v, hv, hrest⟩ := Local.again_before (expect _) h hdigits hclean hbrink
    exact ⟨v, attributeValue_of_valueRead (.number hk hv (integer_again hn v)), hrest⟩
  | flag hnumber hk hfound =>
    obtain ⟨v, hv, hrest⟩ := Local.again_before (accept _) h hfound hclean hbrink
    exact ⟨v, attributeValue_of_valueRead (.flag hnumber hk hv), hrest⟩
  | text hnumber hflag hk hgiven =>
    obtain ⟨v, hv, hrest⟩ := Local.again_before (expect _) h hgiven hclean hbrink
    exact ⟨v, attributeValue_of_valueRead (.text hnumber hflag hk hv), hrest⟩

namespace Local

instance : Local anything ruleAttribute where
  from_ {k s t} h := by
    refine ⟨fun {a u} hu hclean hle hfree => ?_⟩
    have hbrink := uncontinued_anything.1 hfree
    have hsu := Orderly.evolves_ok ruleAttribute hu
    have hstart : ¬s.cursor.AtBrink k := fun hno => hbrink (hsu.atBrink hno)
    have hrun : ∀ s, ruleAttribute s = (attributeValue s.cursor.current >>= fun value => do
        return ⟨← close (.ofToken s.cursor.current), s.cursor.current.text, value⟩) s.advanced :=
      fun s => bind_of_ok (advance_eq s)
    rw [hrun] at hu
    obtain ⟨value, v, hv, hu⟩ := bind_eq_ok.1 hu
    obtain ⟨l, w, hl, hu⟩ := bind_eq_ok.1 hu
    obtain ⟨rfl, rfl⟩ := pure_ok hu
    obtain ⟨rfl, rfl⟩ := close_ok hl
    obtain ⟨w, hw, halong, hwclean⟩ := attributeValue_again (h.advanced hstart) hv
      (hclean.trans (received_advanced s).symm) hbrink
    refine ⟨w, ?_, halong, hwclean.trans (received_advanced t)⟩
    rw [hrun, ← h.cursor.current_eq hstart, bind_of_ok hw, halong.cursor.previous_eq]
    rfl

end Local

/-! ### Harvests -/

/-- What was built, unless a failure stopped it. -/
def gathered (h : Harvest α) : Parser α :=
  match h.failure with
  | some e => fail e
  | none => return h.found

instance (h : Harvest α) : Orderly (gathered h) := by
  unfold gathered; split <;> infer_instance

theorem gathered_of_failure {h : Harvest α} {e : ParseError} (he : h.failure = some e) :
    gathered h = fail e := by
  unfold gathered; rw [he]

theorem attempt_bind_eq {p : Parser α} {f : Except ParseError α → Parser β}
    (hf : ∀ e, f (.error e) = fail e) : attempt p >>= f = p >>= fun a => f (.ok a) := by
  funext s
  cases hp : p s with
  | ok a t => rw [bind_of_ok (attempt_of_ok hp), bind_of_ok hp]
  | error e t =>
    rw [bind_of_error hp]
    cases e with
    | recognition e => rw [bind_of_ok (attempt_of_recognition hp), hf]; rfl
    | _ => exact bind_of_error (attempt_of_error hp (by simp))

theorem harvest_gathered (found : α) (p : Parser β) (add : α → β → α) {γ : Type}
    (f : Harvest α → Parser γ) (hf : ∀ h e, h.failure = some e → f h = fail e) :
    harvest found p add >>= f = p >>= fun b => f { found := add found b } := by
  unfold harvest
  rw [map_eq_bind, bind_assoc]
  exact attempt_bind_eq fun e => hf _ e rfl

theorem andThen_gathered (p : Parser (Harvest α)) (next : α → Parser (Harvest α)) :
    (p >>= fun h => h.andThen next) >>= gathered = (p >>= gathered) >>= fun a =>
    next a >>= gathered := by
  rw [bind_assoc, bind_assoc]
  congr 1
  funext h
  obtain ⟨found, failure⟩ := h
  cases failure <;> rfl

/-! ### Bodies -/

def attributeFollows (h : Harvest Rule) : Parser Bool := do
  return h.failure.isNone && (← nextIs attributeKinds)

def strictAttribute (rule : Rule) : Parser Rule := do
  let a ← ruleAttribute
  skip .comma
  return { rule with attributes := rule.attributes.put a }

theorem rounds_of_failure (n : Nat) {h : Harvest Rule} {e : ParseError} (he : h.failure = some e) :
    rounds attributeFollows addAttribute n h >>= gathered = fail e := by
  rw [← gathered_of_failure he]
  cases n with
  | zero => rfl
  | succ n =>
    funext s
    have hasked : attributeFollows h s = .ok (h.failure.isNone &&
      decide (s.cursor.current.kind ∈ attributeKinds)) s := rfl
    rw [he] at hasked
    exact bind_of_ok (Turns.rounds_succ hasked n)

theorem addAttribute_gathered (rule : Rule) {f : Harvest Rule → Parser β}
    (hf : ∀ h e, h.failure = some e → f h = fail e) :
    addAttribute { found := rule } >>= f = strictAttribute rule >>= fun rule =>
      f { found := rule } := by
  unfold addAttribute strictAttribute
  rw [bind_assoc, harvest_gathered, bind_assoc]
  · congr 1
    funext a
    refine (bind_assoc (skip .comma) _ f).trans ?_
    rw [bind_assoc]
    rfl
  · intro h e he
    rw [he]
    exact hf h e he

theorem rounds_addAttribute_gathered (n : Nat) (rule : Rule) :
    rounds attributeFollows addAttribute n { found := rule } >>= gathered =
      rounds (fun _ => nextIs attributeKinds) strictAttribute n rule := by
  induction n generalizing rule with
  | zero => rfl
  | succ n ih =>
    have hround : (addAttribute { found := rule } >>= fun h =>
        rounds attributeFollows addAttribute n h >>= gathered) =
        strictAttribute rule >>= rounds (fun _ => nextIs attributeKinds) strictAttribute n :=
      (addAttribute_gathered rule fun _ _ => rounds_of_failure n).trans
        (congrArg (strictAttribute rule >>= ·) (funext ih))
    have hmore : attributeFollows { found := rule } = nextIs attributeKinds := rfl
    unfold rounds
    rw [bind_assoc, hmore]
    congr 1
    funext asked
    cases asked with
    | false => rfl
    | true => exact (bind_assoc ..).trans hround

theorem ruleAttributes_gathered (rule : Rule) : ruleAttributes rule >>= gathered =
    attributesHead >>= fun _ =>
      repeatWhile { found := rule } attributeFollows addAttribute >>= gathered := by
  unfold ruleAttributes
  rw [bind_assoc]
  exact attempt_bind_eq fun e => rfl

instance (h : Harvest Rule) : Orderly (attributeFollows h) := by
  unfold attributeFollows; infer_instance

instance (rule : Rule) : Orderly (strictAttribute rule) := by unfold strictAttribute; infer_instance

namespace Local

instance (rule : Rule) : Local anything (strictAttribute rule) := by
  unfold strictAttribute; infer_instance

instance : Local anything attributesHead := by unfold attributesHead; infer_instance

instance (rule : Rule) : Local anything
    (Parser.repeatWhile { found := rule } attributeFollows addAttribute >>= gathered) where
  from_ {k s t} h := by
    obtain ⟨n, hs, ht⟩ := (Repetition.ruleAttributes.rolls : Rolls attributeFollows _).exists_rounds
      { found := rule } s t
    have hrounds := rounds_addAttribute_gathered n rule
    exact (from_ (p := Parser.rounds (fun _ => nextIs attributeKinds) strictAttribute n rule)
      h).congr (hrounds ▸ bind_eq_of_eq gathered hs) (hrounds ▸ bind_eq_of_eq gathered ht)

instance (rule : Rule) : Local anything (ruleAttributes rule >>= gathered) := by
  rw [ruleAttributes_gathered]
  infer_instance

theorem conditions_gathered (rule : Rule) : ruleConditions rule >>= gathered =
    nextIsKeyword .when_ >>= fun found => if found then
      conditionBlock >>= fun b => return { rule with conditions := some b } else return rule := by
  unfold ruleConditions
  rw [bind_assoc]
  congr 1
  funext found
  cases found with
  | false => rfl
  | true => exact harvest_gathered _ _ _ _ fun _ _ => gathered_of_failure

instance (rule : Rule) : Local anything (ruleConditions rule >>= gathered) := by
  rw [conditions_gathered]
  infer_instance

end Local

theorem beforeEnd_append_of_lt {w r : List Token} (h : (beforeEnd (w ++ r)).length < w.length)
    (r' : List Token) : beforeEnd (w ++ r') = beforeEnd (w ++ r) := by
  induction w with
  | nil => exact absurd h (Nat.not_lt_zero _)
  | cons a w ih =>
    rw [List.cons_append] at h ⊢
    by_cases hk : a.kind ∈ [TokenKind.keyword .end_, .endOfInput]
    · rw [List.cons_append, beforeEnd_of_end hk, beforeEnd_of_end hk]
    · rw [beforeEnd_cons hk, List.length_cons, List.length_cons] at h
      rw [List.cons_append, beforeEnd_cons hk, beforeEnd_cons hk, ih (Nat.lt_of_succ_lt_succ h)]

namespace Local

instance : Local anything consequence where
  from_ {k s t} h := by
    refine ⟨fun {c u} hu hclean hle hfree => ?_⟩
    have hbrink := uncontinued_anything.1 hfree
    have hsu := Orderly.evolves_ok Parser.consequence hu
    have hstart : ¬s.cursor.AtBrink k := fun hno => hbrink (hsu.atBrink hno)
    have hcurrent := h.cursor.current_eq hstart
    by_cases hk : s.cursor.current.kind = .keyword .then_
    · rw [consequence_eq hk] at hu
      obtain ⟨hc, hmoved⟩ := EStateM.Result.ok.inj hu
      have hadvanced := h.advanced hstart
      obtain ⟨w, r, r', hrest, hrest', hlength⟩ := hadvanced.cursor.exists_rest
      have hlt : s.advanced.cursor.index + (beforeEnd s.advanced.cursor.rest).length < k := by
        have hindex : s.advanced.cursor.index + _ = u.cursor.index :=
          congrArg (fun u : State => u.cursor.index) hmoved
        rw [hindex]
        exact Nat.lt_of_le_of_lt (Cursor.le_seek (Nat.le_trans hle (hsu.front ▸ h.cursor.first_le)))
          (Nat.lt_of_not_le hbrink)
      have hsame : beforeEnd t.advanced.cursor.rest = beforeEnd s.advanced.cursor.rest := by
        rw [hrest] at hlt ⊢
        rw [hrest']
        exact beforeEnd_append_of_lt (by omega) r'
      refine ⟨t.advanced.moved _, ?_, hmoved ▸ hadvanced.moved (Nat.le_of_lt hlt),
        received_advanced t⟩
      rw [consequence_eq (hcurrent ▸ hk), hsame, ← hcurrent, hc]
    · rw [consequence_of_ne hk] at hu
      cases hu

instance : Local Trails closing := by unfold closing; infer_instance

end Local

theorem ruleConsequence_gathered (rule : Rule) : ruleConsequence rule >>= gathered =
    consequence >>= fun c => closing >>= fun _ => return { rule with consequence := c } := by
  unfold ruleConsequence
  rw [andThen_gathered, harvest_gathered _ _ _ _ fun _ _ => gathered_of_failure, bind_assoc]
  congr 1
  funext c
  exact harvest_gathered _ _ _ _ fun _ _ => gathered_of_failure

theorem ruleBody_gathered (rule : Rule) : ruleBody rule >>= gathered =
    ((ruleAttributes rule >>= gathered) >>= fun rule => ruleConditions rule >>= gathered) >>=
    fun rule =>
      ruleConsequence rule >>= gathered := by
  unfold ruleBody
  rw [← bind_assoc, andThen_gathered, andThen_gathered]

theorem queryBody_gathered (query : Query) : queryBody query >>= gathered = (do
    let parameters ← queryParameters
    let conditions ← queryBlock
    closing
    return { query with parameters, conditions := some conditions }) := by
  unfold queryBody
  rw [← bind_assoc, andThen_gathered, andThen_gathered,
    harvest_gathered _ _ _ _ fun _ _ => gathered_of_failure, bind_assoc, bind_assoc]
  congr 1
  funext parameters
  change (harvest _ queryBlock _ >>= gathered) >>=
    (fun query => harvest query closing _ >>= gathered) = _
  rw [harvest_gathered _ _ _ _ fun _ _ => gathered_of_failure, bind_assoc]
  congr 1
  funext b
  exact harvest_gathered _ _ _ _ fun _ _ => gathered_of_failure

namespace Local

instance (rule : Rule) : Local Trails (ruleBody rule >>= gathered) := by
  rw [ruleBody_gathered]
  simp only [ruleConsequence_gathered]
  infer_instance

instance : Local anything queryParameters := by unfold queryParameters; infer_instance

instance (query : Query) : Local Trails (queryBody query >>= gathered) := by
  rw [queryBody_gathered]
  infer_instance

end Local

/-! ### Rules and queries -/

/-- A rule or query that is not recovered from. -/
def strictly (name : String) (body : Parser (Harvest α)) (locate : α → Location → α)
    (location : Location) : Parser α :=
  underName name do
    let found ← body >>= gathered
    return locate found (← close location)

theorem strict_recovering (name : String) (body : Parser (Harvest α)) [Orderly body]
    (locate : α → Location → α) (location : Location) :
    Strict (recovering name body locate location) (strictly name body locate location) := by
  refine .underName ?_ name
  rw [bind_assoc]
  refine .bind_right (fun h => ?_) (fun h => inferInstance) fun h => ?_
  · dsimp only
    split <;> infer_instance
  · obtain ⟨found, failure⟩ := h
    cases failure with
    | none => exact .refl _
    | some e => exact (Strict.recoverFrom e ruleFollow).bind fun _ => .refl _

namespace Local

instance underName (name : String) (p : Parser α) [Local continues p] :
    Local continues (underName name p) where
  from_ {k s t} h := by
    refine ⟨fun {a u} hu hclean hle hfree => ?_⟩
    rw [underName_eq_ok] at hu
    obtain ⟨w, hw, rfl⟩ := hu
    have hnamed : (s.named name).Alongside k (t.named name) :=
      ⟨h.cursor, h.hidden, h.trials, h.stack⟩
    obtain ⟨v, hv, halong, hclean'⟩ := Local.again p hnamed hw hclean hle hfree
    have halong' : State.Alongside k { w with ruleName := none } { v with ruleName := none } :=
      ⟨halong.cursor, halong.hidden, halong.trials, halong.stack⟩
    exact ⟨_, underName_eq_ok.2 ⟨v, hv, rfl⟩, halong', hclean'⟩

instance recovering (name : String) (body : Parser (Harvest α)) [Orderly body]
    [Local Trails (body >>= gathered)] (locate : α → Location → α) (location : Location) :
    Local Trails (recovering name body locate location) := by
  have : Local Trails (strictly name body locate location) := by
    unfold strictly
    infer_instance
  exact .of_strict (strict_recovering name body locate location)

instance : Local Trails queryStatement := by
  unfold queryStatement
  infer_instance

end Local

theorem ruleStatement_from (h : s.Alongside k t)
    (hattributes : s.package.attributes = t.package.attributes) :
    LocalFrom Trails k s t ruleStatement := by
  unfold ruleStatement
  refine (Local.from_ h).bind_nothing fun {token u v} hu hv huv => ?_
  have hu' := Inert.package_ok (keyword .rule) hu
  have hv' := Inert.package_ok (keyword .rule) hv
  refine (Local.from_ huv).bind_nothing fun {name w x} hw hx hwx => ?_
  have hsame : w.package.attributes = x.package.attributes := by
    rw [Inert.package_ok title hw, Inert.package_ok title hx, hu', hv', hattributes]
  have hrest : ∀ attributes : Attributes, Local Trails (do
      let rule ← recovering name (ruleBody { location := .ofToken token, name, attributes })
        (fun rule location => { rule with location }) (.ofToken token)
      if ← inTrial then return rule
      declare fun p => { p with rules := p.rules ++ [.rule rule] }
      note (.ruleRead name token.line)
      return rule) := fun _ => inferInstance
  exact ((hrest w.package.attributes).from_ hwx).congr rfl (by rw [hsame]; rfl)

/-! ### Imports -/

theorem functionImport_of_ne (hk : s.cursor.current.kind = .keyword .import_)
    (hne : s.advanced.cursor.current.kind ≠ .keyword .function) :
    ∃ e v, functionImport s = .error (.recognition e) v := by
  have hkeyword : keyword .import_ s = .ok s.cursor.current s.advanced :=
    (expect_eq _ _).trans (if_pos hk)
  unfold functionImport
  rw [bind_of_ok hkeyword]
  exact ⟨_, _, bind_of_error ((expect_eq _ _).trans (if_neg hne))⟩

theorem functionImport_of_nameless (hk : s.cursor.current.kind = .keyword .import_)
    (hfunction : s.advanced.cursor.current.kind = .keyword .function)
    (hname : s.advanced.advanced.cursor.current.isName = false) :
    ∃ e v, functionImport s = .error (.recognition e) v := by
  have hkeyword : keyword .import_ s = .ok s.cursor.current s.advanced :=
    (expect_eq _ _).trans (if_pos hk)
  have hkeyword' :
      keyword .function s.advanced = .ok s.advanced.cursor.current s.advanced.advanced :=
    (expect_eq _ _).trans (if_pos hfunction)
  unfold functionImport
  rw [bind_of_ok hkeyword, bind_of_ok hkeyword']
  exact ⟨_, _, bind_of_error (bind_of_error ((name_eq _).trans (if_neg (by rw [hname]; simp))))⟩

instance (x : String × Bool) : Eager (importPart x) := Eager.importPart x

theorem importTail_cases {x z : String × Bool} (hs : s.cursor.triviaVisible = false)
    (hloop : repeatWhile x targetGoesOn importPart s = .ok z u)
    (hskip : skip .semicolon u = .ok () v) (hx : x.2 = false) :
    v.cursor = s.cursor ∨
      s.cursor.current.isName = false ∧ s.cursor.seek s.cursor.index < v.cursor.index := by
  have hnameless : ∀ c, s.cursor.current.kind = .symbol c → s.cursor.current.isName = false := by
    intro c hc
    rw [Token.isName, hc]
    rfl
  have huv := Orderly.evolves_ok (skip .semicolon) hskip
  by_cases hdot : s.cursor.current.kind = .symbol .dot
  · refine .inr ⟨hnameless _ hdot, ?_⟩
    have hmore : targetGoesOn x s = .ok true s := by
      rw [targetGoesOn_eq, hx, hdot]
      rfl
    exact Nat.lt_of_lt_of_le (seek_lt_of_repeatWhile hs hmore hloop) huv.index
  · have hstop : targetGoesOn x s = .ok false s := by
      rw [targetGoesOn_eq, decide_eq_false hdot, Bool.and_false]
    obtain ⟨-, rfl⟩ := EStateM.Result.ok.inj ((repeatWhile_unasked hstop).symm.trans hloop)
    by_cases hsemicolon : s.cursor.current.kind = .symbol .semicolon
    · refine .inr ⟨hnameless _ hsemicolon, ?_⟩
      rw [skip, bind_of_ok (accept_of_eq hsemicolon)] at hskip
      obtain ⟨-, rfl⟩ := pure_ok hskip
      show _ < s.cursor.consume.index
      rw [Cursor.consume_eq (by rw [hsemicolon]; simp)]
      exact Nat.lt_succ_self _
    · rw [skip, bind_of_ok (accept_of_ne hsemicolon)] at hskip
      obtain ⟨-, rfl⟩ := pure_ok hskip
      exact .inl rfl

/-- An import that ends with a delimiter has a second token, and a third one behind the word
`function`, which is no name. -/
theorem tokens_of_importStatement {i : Import} (hs : s.cursor.triviaVisible = false)
    (h : importStatement s = .ok i u) (hcloses : ∃ a ∈ u.cursor.previous, a.kind ∈ closerKinds) :
    s.advanced.cursor.seek s.advanced.cursor.index < u.cursor.index ∧
      (s.advanced.cursor.current.kind = .keyword .function →
        s.advanced.advanced.cursor.current.isName = false ∧
        s.advanced.advanced.cursor.seek s.advanced.advanced.cursor.index < u.cursor.index) := by
  obtain ⟨token, v, hv, h⟩ := bind_eq_ok.1 h
  obtain ⟨rfl, hk, rfl⟩ := expect_of_ok hv
  obtain ⟨target, w, hw, h⟩ := bind_eq_ok.1 h
  obtain ⟨_, x, hx, h⟩ := bind_eq_ok.1 h
  have hs' : s.advanced.cursor.triviaVisible = false := (Cursor.triviaVisible_consume _).trans hs
  have hcursor : u.cursor = x.cursor := by
    obtain ⟨l, y, hl, hdeclare⟩ := bind_eq_ok.1 h
    obtain ⟨_, z, hz, hpure⟩ := bind_eq_ok.1 hdeclare
    obtain ⟨-, rfl⟩ := pure_ok hpure
    rw [declare_eq, (close_ok hl).1] at hz
    obtain ⟨-, rfl⟩ := EStateM.Result.ok.inj hz
    split <;> rfl
  rw [hcursor] at hcloses ⊢
  have hwx := (Orderly.evolves_ok (skip .semicolon) hx).index
  refine ⟨?_, fun hfunction => ?_⟩
  · have hlt := (Orderly.evolves_ok importTarget hw).seek_lt hs' (Eager.takes importTarget hw)
    exact Nat.lt_of_lt_of_le hlt hwx
  · obtain ⟨first, y, hy, hloop⟩ := bind_eq_ok.1 hw
    obtain ⟨z, w', hw', hpure⟩ := bind_eq_ok.1 hloop
    obtain ⟨-, hww⟩ := pure_ok hpure
    have hname : s.advanced.cursor.current.isName = true := by rw [Token.isName, hfunction]; rfl
    rw [name_eq, if_pos hname] at hy
    obtain ⟨-, rfl⟩ := EStateM.Result.ok.inj hy
    have hs'' : s.advanced.advanced.cursor.triviaVisible = false :=
      (Cursor.triviaVisible_consume _).trans hs'
    rcases importTail_cases hs'' hw' (hww ▸ hx) rfl with hstays | hnext
    · -- the statement would end with the word
      have hprevious : x.cursor.previous = some s.advanced.cursor.current := by
        rw [hstays]
        exact Cursor.previous_consume hs' (Eager.ne_endOfInput_of_isName hname)
      obtain ⟨a, ha, hkind⟩ := hcloses
      obtain rfl := Option.some.inj (ha.symm.trans hprevious)
      rw [hfunction] at hkind
      exact absurd hkind (by decide)
    · exact hnext

theorem functionImport_fails_again {i : Import} (h : s.Alongside k t) (hv : v.cursor = s.cursor)
    (hu : importStatement v = .ok i u) (hcloses : ∃ a ∈ u.cursor.previous, a.kind ∈ closerKinds)
    (hle : u.cursor.index ≤ k) : ∃ e w, functionImport t.trying = .error (.recognition e) w := by
  have hhidden : v.cursor.triviaVisible = false := hv ▸ h.hidden
  have hlt :=
    (Orderly.evolves_ok importStatement hu).seek_lt hhidden (Eager.takes importStatement hu)
  obtain ⟨hlt', hthird⟩ := tokens_of_importStatement hhidden hu hcloses
  have hk : v.cursor.current.kind = .keyword .import_ := by
    obtain ⟨token, w, hw, -⟩ := bind_eq_ok.1 hu
    obtain ⟨rfl, hk, -⟩ := expect_of_ok hw
    exact hk
  have hadvanced : v.advanced.cursor = s.advanced.cursor := congrArg Cursor.consume hv
  have hadvanced' : v.advanced.advanced.cursor = s.advanced.advanced.cursor :=
    congrArg Cursor.consume hadvanced
  rw [hv] at hlt hk
  rw [hadvanced, hadvanced'] at hthird
  rw [hadvanced] at hlt'
  have hbrink : ¬s.cursor.AtBrink k := Nat.not_le.2 (Nat.lt_of_lt_of_le hlt hle)
  have hbrink' : ¬s.advanced.cursor.AtBrink k := Nat.not_le.2 (Nat.lt_of_lt_of_le hlt' hle)
  have halong := h.advanced hbrink
  have hk' : t.trying.cursor.current.kind = .keyword .import_ := h.cursor.current_eq hbrink ▸ hk
  have hsame := halong.cursor.current_eq hbrink'
  by_cases hfunction : s.advanced.cursor.current.kind = .keyword .function
  · obtain ⟨hname, hlt''⟩ := hthird hfunction
    have hsame' := (halong.advanced hbrink').cursor.current_eq
      (Nat.not_le.2 (Nat.lt_of_lt_of_le hlt'' hle))
    exact functionImport_of_nameless hk' (hsame ▸ hfunction) (hsame' ▸ hname)
  · exact functionImport_of_ne hk' (hsame ▸ hfunction)

/-! ### Statements -/

/-- What succeeds from `s` without complaint and ends with a delimiter does the same from `t`, and
declares the same. -/
structure RepeatsFrom (k : Nat) (s t : State) (p : Parser Unit) : Prop where
  again : ∀ {u : State}, p s = .ok () u → u.collector.received = s.collector.received →
    (∃ a ∈ u.cursor.previous, a.kind ∈ closerKinds) → u.cursor.index ≤ k →
    Uncontinued Trails k u t →
    ∃ v, p t = .ok () v ∧ u.Alongside k v ∧ v.collector.received = t.collector.received ∧
      ∃ d, u.package = s.package ++ d ∧ v.package = t.package ++ d

namespace RepeatsFrom

theorem of_commits {p : Parser α} {change : α → Package → Package} {node : α → Package}
    (hp : LocalFrom Trails k s t p) (hs : CommitsFrom (fun a q r => r = change a q) p s)
    (ht : CommitsFrom (fun a q r => r = change a q) p t) (hnode : ∀ a q, change a q = q ++ node a) :
    RepeatsFrom k s t (p >>= fun _ => pure ()) where
  again hu hclean _ hle hfree := by
    obtain ⟨a, w, hw, hpure⟩ := bind_eq_ok.1 hu
    obtain ⟨-, rfl⟩ := pure_ok hpure
    obtain ⟨v, hv, halong, hclean'⟩ := hp.again hw hclean hle hfree
    exact ⟨v, (bind_of_ok hv).trans rfl, halong, hclean', node a, by rw [hs.ok hw, hnode],
      by rw [ht.ok hv, hnode]⟩

theorem import_ (h : s.Alongside k t) (hs : s.trials = 0) :
    RepeatsFrom k s t (trial "function import" functionImport >>= fun found =>
      if found then functionImport >>= fun _ => pure () else importStatement >>= fun _ =>
        pure ()) where
  again {u} hu hclean hcloses hle hfree := by
    have hcontinued : ∀ {x : State}, x.cursor = t.cursor → Uncontinued Trails k u x := by
      intro x hx
      unfold Uncontinued
      rw [hx]
      exact hfree
    obtain ⟨found, v, htrial, hu⟩ := bind_eq_ok.1 hu
    have hback := Orderly.trial_of_ok htrial
    have hv : v.trials = 0 := by rw [hback]; exact hs
    have hclean₁ : u.collector.received = v.collector.received := by rw [hclean, hback]
    suffices hagain : ∃ x, trial "function import" functionImport t = .ok found x ∧
        v.Alongside k x by
      obtain ⟨x, hx, halong⟩ := hagain
      have hback' := Orderly.trial_of_ok hx
      have hx' : x.trials = 0 := halong.trials ▸ hv
      have hfree' : Uncontinued Trails k u x := hcontinued (by rw [hback'])
      have hrest : RepeatsFrom k v x (if found then functionImport >>= fun _ => pure ()
          else importStatement >>= fun _ => pure ()) := by
        split
        · exact .of_commits (Local.from_ halong) (commits_functionImport hv)
            (commits_functionImport hx') Package.append_functionImport
        · exact .of_commits (Local.from_ halong) (commits_importStatement hv)
            (commits_importStatement hx') Package.append_import
      obtain ⟨w, hw, halong', hclean', d, hd, hd'⟩ := hrest.again hu hclean₁ hcloses hle hfree'
      exact ⟨w, (bind_of_ok hx).trans hw, halong', hclean'.trans (by rw [hback']), d,
        by rw [hd, hback], by rw [hd', hback']⟩
    cases found with
    | true =>
      obtain ⟨i, w, hw, hpure⟩ := bind_eq_ok.1 hu
      obtain ⟨-, rfl⟩ := pure_ok hpure
      obtain ⟨x, hx, halong, -⟩ := again_of_trial .functionImport h htrial hw hle hfree
      exact ⟨x, hx, halong⟩
    | false =>
      obtain ⟨i, w, hw, hpure⟩ := bind_eq_ok.1 hu
      obtain ⟨-, rfl⟩ := pure_ok hpure
      obtain ⟨e, y, hy⟩ := functionImport_fails_again h (by rw [hback]) hw hcloses hle
      have hx : trial "function import" functionImport t = .ok false _ := trial_of_recognition hy
      have hback' := Orderly.trial_of_ok hx
      refine ⟨_, hx, ?_, ?_, ?_, ?_⟩
      · rw [hback, hback']
        exact h.cursor
      · rw [hback]
        exact h.hidden
      · rw [hback, hback']
        exact h.trials
      · rw [hback, hback']
        exact h.stack

end RepeatsFrom

/-- A statement that ends with a delimiter is read again in every text that begins like this one,
unless a semicolon or a dot goes on with it there. -/
theorem statement_again (h : s.Alongside k t) (hs : s.trials = 0)
    (hattributes : s.package.attributes = t.package.attributes)
    (hkind : s.cursor.current.kind ≠ .keyword .package) : RepeatsFrom k s t statement := by
  refine ⟨fun {u} hu hclean hcloses hle hfree => ?_⟩
  have hlt := (Orderly.evolves_ok statement hu).seek_lt h.hidden (Eager.takes statement hu)
  have hbrink : ¬s.cursor.AtBrink k := Nat.not_le.2 (Nat.lt_of_lt_of_le hlt hle)
  have ht : t.trials = 0 := h.trials ▸ hs
  unfold statement at hu ⊢
  rw [bind_of_ok (current_eq s)] at hu
  rw [bind_of_ok (current_eq t), ← h.cursor.current_eq hbrink]
  refine RepeatsFrom.again ?_ hu hclean hcloses hle hfree
  split
  · exact .import_ h hs
  · exact .of_commits (Local.from_ h) (commits_globalStatement hs) (commits_globalStatement ht)
      Package.append_global
  · exact .of_commits (functionStatement_from h hattributes) (commits_functionStatement hs)
      (commits_functionStatement ht) Package.append_function
  · exact .of_commits (Local.from_ h) (commits_templateStatement hs) (commits_templateStatement ht)
      Package.append_template
  · exact .of_commits (ruleStatement_from h hattributes) (commits_ruleStatement hs)
      (commits_ruleStatement ht) fun r => Package.append_entry (.rule r)
  · exact .of_commits (Local.from_ h) (commits_queryStatement hs) (commits_queryStatement ht)
      fun q => Package.append_entry (.query q)
  · next hk => exact absurd hk hkind
  · exact ⟨fun hfail => by cases hfail⟩

/-! ### Where statements end -/

namespace Tokenwise

theorem of_strict {p q : Parser α} (h : Strict p q) [Tokenwise q] : Tokenwise p where
  moves hs hu hclean := moves hs ((h.iff hclean).1 hu) hclean

instance underName (name : String) (p : Parser α) [Tokenwise p] : Tokenwise (underName name p) where
  moves {s _ _} hs hu hclean := by
    obtain ⟨w, hw, rfl⟩ := underName_eq_ok.1 hu
    exact moves (s := s.named name) (t := w) hs hw hclean

instance : Tokenwise closing := by unfold closing; infer_instance

instance (rule : Rule) : Tokenwise (ruleConsequence rule >>= gathered) := by
  rw [ruleConsequence_gathered]
  infer_instance

instance (rule : Rule) : Eager (ruleConsequence rule >>= gathered) := by
  rw [ruleConsequence_gathered]
  infer_instance

instance (rule : Rule) : Tokenwise (ruleBody rule >>= gathered) := by
  rw [ruleBody_gathered]
  infer_instance

instance (query : Query) : Tokenwise (queryBody query >>= gathered) := by
  rw [queryBody_gathered]
  infer_instance

instance recovering (name : String) (body : Parser (Harvest α)) [Orderly body]
    [Tokenwise (body >>= gathered)] (locate : α → Location → α) (location : Location) :
    Tokenwise (recovering name body locate location) := by
  have : Tokenwise (strictly name body locate location) := by
    unfold strictly
    infer_instance
  exact .of_strict (strict_recovering name body locate location)

instance : Tokenwise importTarget := by unfold importTarget; infer_instance

instance : Tokenwise importStatement := by unfold importStatement; infer_instance

instance : Tokenwise functionImport := by unfold functionImport; infer_instance

instance : Tokenwise globalStatement := by unfold globalStatement; infer_instance

instance : Tokenwise title := by unfold title; infer_instance

instance : Tokenwise functionParts := by
  have : Eager curlyChunk := by unfold curlyChunk; infer_instance
  unfold functionParts
  infer_instance

instance : Tokenwise functionStatement := by rw [functionStatement_eq]; infer_instance

instance : Tokenwise templateStatement := by unfold templateStatement; infer_instance

instance : Tokenwise ruleStatement := by unfold ruleStatement; infer_instance

instance : Tokenwise queryStatement := by unfold queryStatement; infer_instance

instance (e : ParseError) : Tokenwise (report e) where
  moves {s _ _} _ h _ := by
    rw [report_eq] at h
    split at h <;> cases h <;> exact .inl rfl

instance : Tokenwise (packageStatement true) := by
  unfold packageStatement
  simp only [if_true]
  infer_instance

/-- A statement without complaint ends right behind its last token. -/
instance : Tokenwise statement := by
  unfold statement
  refine @Tokenwise.bind _ _ _ _ _ ?_ _ ?_ <;> intro token <;> split <;> infer_instance

end Tokenwise

end Parser
end Rulebook
