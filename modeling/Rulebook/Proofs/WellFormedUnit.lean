import Rulebook.Proofs.Keeping
import Rulebook.Proofs.WellFormedGrammar

/-!
# Packages are well-formed

Attributes are typed by the keyword that begins them, and a name that is assigned again keeps its
place. What has been read of a rule or query is well-formed wherever reading may break off, and only
whole declarations enter the package. So the package of a text is well-formed, whatever the text.
-/

namespace Rulebook

variable {frames : Nat}

/-- A rule as an entry of a package. -/
abbrev Rule.WellFormed (text : String) (rule : Rule) : Prop := Entry.WellFormed text (.rule rule)

/-- A query as an entry of a package. -/
abbrev Query.WellFormed (text : String) (query : Query) : Prop :=
  Entry.WellFormed text (.query query)

namespace Parser

set_option synthInstance.maxSize 100000

variable {text : String} {s t : State}

/-! ### Attributes -/

theorem typed_of_attributeValue {token : Token} (htoken : token.Genuine) {value : AttributeValue}
    (h : attributeValue token s = .ok value t) (location : Location) :
    Attribute.Typed ⟨location, token.text, value⟩ := by
  cases valueRead_of_attributeValue h with
  | number hk _ _ =>
    have hname : token.text ∈ ["salience", "duration"] :=
      htoken.text_mem [.salience, .duration] hk
    have hflag : ∀ x ∈ ["salience", "duration"],
        x ∉ ["no-loop", "auto-focus", "lock-on-active", "enabled"] := by decide
    exact ⟨fun _ => ⟨_, rfl⟩, fun hmem => absurd hmem (hflag _ hname),
      fun hmem => absurd (List.mem_append_left _ hname) hmem⟩
  | flag _ hk _ =>
    have hname : token.text ∈ ["no-loop", "auto-focus", "lock-on-active", "enabled"] :=
      htoken.text_mem [.noLoop, .autoFocus, .lockOnActive, .enabled] hk
    have hnumber : ∀ x ∈ ["no-loop", "auto-focus", "lock-on-active", "enabled"],
        x ∉ ["salience", "duration"] := by decide
    exact ⟨fun hmem => absurd hmem (hnumber _ hname), fun _ => ⟨_, rfl⟩,
      fun hmem => absurd (List.mem_append_right ["salience", "duration"] hname) hmem⟩
  | text hnumber hflag hk _ =>
    have hkinds : ∀ k ∈ attributeKinds,
        k ∉ [TokenKind.keyword .salience, .keyword .duration] →
        k ∉ [TokenKind.keyword .noLoop, .keyword .autoFocus, .keyword .lockOnActive,
          .keyword .enabled] →
        k ∈ [Keyword.agendaGroup, .activationGroup, .ruleflowGroup, .dialect, .dateEffective,
          .dateExpires].map TokenKind.keyword := by decide
    have hname := htoken.text_mem _ (hkinds _ hk hnumber hflag)
    have hother : ∀ x ∈ [Keyword.agendaGroup, .activationGroup, .ruleflowGroup, .dialect,
        .dateEffective, .dateExpires].map Keyword.text, x ∉ ["salience", "duration"] ∧
        x ∉ ["no-loop", "auto-focus", "lock-on-active", "enabled"] := by decide
    obtain ⟨hnumber, hflag⟩ := hother _ hname
    exact ⟨fun hmem => absurd hmem hnumber, fun hmem => absurd hmem hflag, fun _ => ⟨_, rfl⟩⟩

theorem Yields.ruleAttribute : Yields text Attribute.Typed ruleAttribute where
  of_ok hs h := by
    obtain ⟨token, u, hu, h⟩ := bind_eq_ok.1 h
    obtain ⟨value, v, hv, h⟩ := bind_eq_ok.1 h
    obtain ⟨location, w, -, h⟩ := bind_eq_ok.1 h
    obtain ⟨rfl, -⟩ := pure_ok h
    exact typed_of_attributeValue (Yields.advance.of_ok hs hu) hv location

namespace Yields

/-! ### Rules and queries -/

theorem addAttribute {x : Harvest Rule} (hx : x.found.WellFormed text) :
    Yields text (fun r => r.found.WellFormed text) (addAttribute x) := by
  unfold Parser.addAttribute
  refine bind (harvest (P := Rule.WellFormed text) hx ruleAttribute
    fun a ha => ⟨hx.conditions, hx.attributes.put ha⟩) fun r hr => ?_
  exact ite (fun _ => after fun _ => pure hr) fun _ => pure hr

theorem ruleAttributes {rule : Rule} (hrule : rule.WellFormed text) :
    Yields text (fun r => r.found.WellFormed text) (ruleAttributes rule) := by
  unfold Parser.ruleAttributes
  refine after fun head => ?_
  rcases head with e | ⟨⟩
  · exact pure hrule
  · exact repeatWhile hrule fun x hx => addAttribute hx

theorem ruleConditions {rule : Rule} (hrule : rule.WellFormed text) :
    Yields text (fun r => r.found.WellFormed text) (ruleConditions rule) := by
  unfold Parser.ruleConditions
  refine after fun _ => ite (fun _ => ?_) fun _ => pure hrule
  have hblock : Yields text (fun b : Block => ∀ c ∈ b.elements, c.WellFormed text)
      conditionBlock := by
    unfold conditionBlock
    exact after fun _ => after fun _ => block
  refine harvest (P := Rule.WellFormed text) hrule hblock fun b hb => ?_
  refine ⟨fun b' hb' => ?_, hrule.attributes⟩
  cases hb'
  exact hb

theorem ruleBody {rule : Rule} (hrule : rule.WellFormed text) :
    Yields text (fun r => r.found.WellFormed text) (ruleBody rule) := by
  unfold Parser.ruleBody
  refine bind (ruleAttributes hrule) fun x hx => bind (P := fun r => r.found.WellFormed text)
    (andThen (P := Rule.WellFormed text) hx fun _ h => ruleConditions h) fun y hy =>
      andThen (P := Rule.WellFormed text) hy fun rule hrule => ?_
  unfold Parser.ruleConsequence
  refine bind (harvest (P := Rule.WellFormed text) hrule trivial
    fun _ _ => ⟨hrule.conditions, hrule.attributes⟩) fun z hz => ?_
  exact andThen hz fun rule hrule =>
    harvest (P := Rule.WellFormed text) hrule trivial fun _ _ => hrule

theorem queryBody {query : Query} (hquery : query.WellFormed text) :
    Yields text (fun r => r.found.WellFormed text) (queryBody query) := by
  have hblock : Yields text (fun b : Block => ∀ c ∈ b.elements, c.WellFormed text) queryBlock := by
    unfold queryBlock
    exact after fun _ => block
  unfold Parser.queryBody
  refine bind (harvest (P := Query.WellFormed text) hquery trivial
    fun _ _ => ⟨hquery.conditions, hquery.attributes⟩) fun x hx => ?_
  refine bind (andThen (P := Query.WellFormed text) hx fun query hquery => ?_) fun y hy =>
    andThen (P := Query.WellFormed text) hy fun query hquery => ?_
  · refine harvest (P := Query.WellFormed text) hquery hblock
      fun b hb => ⟨fun b' hb' => ?_, hquery.attributes⟩
    cases hb'
    exact hb
  · exact harvest (P := Query.WellFormed text) hquery trivial
      fun _ _ => hquery

end Yields

/-! ### Declarations -/

/-- A declaration that goes into a part of the package of which nothing is asked. -/
theorem Keeps.declare_other {α : Type} {change : Package → Package} {a : α}
    (h : ∀ p, (change p).templates = p.templates ∧ (change p).rules = p.rules ∧
      (change p).attributes = p.attributes) :
    Keeps (Package.WellFormed text) (do Parser.declare change; return a : Parser α) s := by
  refine .bind_of (.declare fun p hp => ?_) fun _ => .of_inert _
  obtain ⟨htemplates, hrules, hattributes⟩ := h p
  exact ⟨htemplates ▸ hp.templates, hrules ▸ hp.rules, hattributes ▸ hp.attributes⟩

theorem importStatement_wellFormed : Keeps (Package.WellFormed text) importStatement s := by
  unfold importStatement
  exact .bind fun _ => .bind fun _ => .bind fun _ => .bind fun _ =>
    .declare_other fun _ => ⟨rfl, rfl, rfl⟩

theorem functionImport_wellFormed : Keeps (Package.WellFormed text) functionImport s := by
  unfold functionImport
  exact .bind fun _ => .bind fun _ => .bind fun _ => .bind fun _ => .bind fun _ =>
    .declare_other fun _ => ⟨rfl, rfl, rfl⟩

theorem globalStatement_wellFormed : Keeps (Package.WellFormed text) globalStatement s := by
  unfold globalStatement
  exact .bind fun _ => .bind fun _ => .bind fun _ => .bind fun _ => .bind fun _ =>
    .declare_other fun _ => ⟨rfl, rfl, rfl⟩

theorem functionStatement_wellFormed : Keeps (Package.WellFormed text) functionStatement s := by
  unfold functionStatement
  exact .bind fun _ => .bind fun _ => .bind fun _ => .bind fun _ => .bind fun _ => .bind fun _ =>
    .bind fun _ => .declare_other fun _ => ⟨rfl, rfl, rfl⟩

theorem templateStatement_wellFormed : Keeps (Package.WellFormed text) templateStatement s := by
  unfold templateStatement
  refine .bind fun _ => .bind fun _ => .bind fun _ => .bind fun {slots w} _ => ?_
  dsimp only
  split
  · exact .bind fun _ => .bind fun h => by cases h
  · next hslots =>
    refine .bind fun _ => .bind fun _ => .bind fun _ => .bind_of (.declare fun p hp => ?_) fun _ =>
      .of_inert _
    refine ⟨List.forall_mem_append.2 ⟨hp.templates, List.forall_mem_singleton.2 fun hnil => ?_⟩,
      hp.rules, hp.attributes⟩
    rw [show slots = [] from hnil] at hslots
    exact hslots rfl

theorem wellFormed_addEntry {p : Package} (hp : p.WellFormed text) {e : Entry}
    (he : e.WellFormed text) : Package.WellFormed text { p with rules := p.rules ++ [e] } :=
  ⟨hp.templates, List.forall_mem_append.2 ⟨hp.rules, List.forall_mem_singleton.2 he⟩, hp.attributes⟩

theorem ruleStatement_wellFormed (hs : s.cursor.Scans text) :
    Keeps (Package.WellFormed text) ruleStatement s := by
  unfold ruleStatement
  refine .bind fun {token t} ht => .bind fun {name u} hu => .bind fun {v _} hv =>
    .bind fun {rule x} hx => ?_
  cases hv
  have hsu := scans_ok (scans_ok hs ht) hu
  intro hpackage
  -- The rule begins with the attributes of the package, which are well-formed by assumption.
  have hbegun : Package.WellFormed text u.package := by
    rw [← Inert.package_ok _ hx]
    exact hpackage
  have hrule : rule.WellFormed text := by
    refine (Yields.recovering (P := Rule.WellFormed text) (Yields.ruleBody ?_) ?_).of_ok hsu hx
    · exact ⟨fun b hb => (by cases hb), hbegun.attributes⟩
    · exact fun _ _ h => ⟨h.conditions, h.attributes⟩
  refine Keeps.bind (fun {_ z} _ => ?_) hpackage
  split
  · exact .of_inert _
  · exact .bind_of (.declare fun p hp => wellFormed_addEntry hp hrule) fun _ => .of_inert _

theorem queryStatement_wellFormed (hs : s.cursor.Scans text) :
    Keeps (Package.WellFormed text) queryStatement s := by
  unfold queryStatement
  refine .bind fun {token t} ht => .bind fun {name u} hu => .bind fun {query x} hx => ?_
  have hsu := scans_ok (scans_ok hs ht) hu
  have hquery : query.WellFormed text := by
    refine (Yields.recovering (P := Query.WellFormed text) (Yields.queryBody ?_) ?_).of_ok hsu hx
    · exact ⟨fun b hb => (by cases hb), Attributes.wellFormed_nil⟩
    · exact fun _ _ h => ⟨h.conditions, h.attributes⟩
  exact .bind_of (.declare fun p hp => wellFormed_addEntry hp hquery) fun _ => .of_inert _

theorem packageAttribute_wellFormed (hs : s.cursor.Scans text) :
    Keeps (Package.WellFormed text) packageAttribute s := by
  unfold packageAttribute
  refine .bind fun {a t} ha => .bind_of (fun hp => ?_) fun _ => .of_inert _
  exact ⟨hp.templates, hp.rules, hp.attributes.put (Yields.ruleAttribute.of_ok hs ha)⟩

theorem wellFormed_invariant : UnitInvariant (Cursor.Scans text) (Package.WellFormed text) where
  rewind n h := h.rewind n
  named _ h := ⟨h.templates, h.rules, h.attributes⟩
  attributes hs _ := packageAttribute_wellFormed hs
  functionImport _ := functionImport_wellFormed
  importStatement _ := importStatement_wellFormed
  globalStatement _ := globalStatement_wellFormed
  functionStatement _ := functionStatement_wellFormed
  templateStatement _ := templateStatement_wellFormed
  ruleStatement hs := ruleStatement_wellFormed hs
  queryStatement hs := queryStatement_wellFormed hs

end Parser

/-! ### Parsed texts -/

theorem Package.WellFormed.of_parse {settings : Settings} {sourceName text : String}
    {r : ParseResult} (h : parse frames settings sourceName text = .ok r) :
    r.package.WellFormed text := by
  obtain ⟨t, hunit, -⟩ := exists_unit h
  have hbegin : ∀ l : Location, Package.WellFormed text { location := l } := fun l =>
    ⟨fun _ h => (by cases h), fun _ h => (by cases h), Attributes.wellFormed_nil⟩
  obtain ⟨w, hend, hpackage⟩ := Parser.wellFormed_invariant.compilationUnit
    (idle_ofText frames settings sourceName text) (Cursor.scans_ofTokens settings.hashComments text)
    (hbegin _) hunit
  rw [hpackage]
  exact ⟨hend.package.templates, hend.package.rules, hend.package.attributes⟩

/-- Every node of the package of a text is well-formed, apart from the roots of the conditions of
rules and queries. -/
theorem parse_nodes_wellFormed (settings : Settings) (sourceName text : String) {r : ParseResult}
    (h : parse frames settings sourceName text = .ok r) :
    (∀ n ∈ r.package.properNodes, n.WellFormed text) ∧
      ∀ n ∈ r.package.nodes, n ∈ r.package.properNodes ∨
        ∃ e ∈ r.package.rules, ∃ b, e.block? = some b ∧ n = .condition b.condition :=
  ⟨(Package.WellFormed.of_parse h).nodes, fun _ => Package.mem_nodes⟩

/-- A rule with a broken pattern and without a consequence, behind which more is declared. -/
def brokenListing : String :=
  "salience 5\nrule A no-loop when\n  A(x in (1, 2), y ==)\n  B() from c[0].d\n" ++
    "  forall(C(), D())\nend\nquery q(int n) E() || not F() end\ntemplate T int n end"

theorem parse_nodes_wellFormed_brokenListing :
    ∃ r, parse 900 {} "orders" brokenListing = .ok r ∧ r.errors.length = 2 ∧
      r.package.properNodes.length = 25 ∧
      (∀ n ∈ r.package.properNodes, n.WellFormed brokenListing) ∧
      ∀ n ∈ r.package.nodes, n ∈ r.package.properNodes ∨
        ∃ e ∈ r.package.rules, ∃ b, e.block? = some b ∧ n = .condition b.condition := by
  have hcounts : (parse 900 {} "orders" brokenListing).toOption.map
      (fun r => (r.errors.length, r.package.properNodes.length)) = some (2, 25) := by
    decide +kernel
  cases h : parse 900 {} "orders" brokenListing with
  | error f => rw [h] at hcounts; cases hcounts
  | ok r =>
    rw [h] at hcounts
    obtain ⟨herrors, hnodes⟩ := Prod.mk.inj (Option.some.inj hcounts)
    exact ⟨r, rfl, herrors, hnodes, parse_nodes_wellFormed {} "orders" _ h⟩

end Rulebook
