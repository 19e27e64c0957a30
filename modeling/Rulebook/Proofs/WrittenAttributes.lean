import Mathlib.Data.Nat.Digits.Defs
import Rulebook.Proofs.CleanRules
import Rulebook.Proofs.Framing

/-!
# Attributes as they are written

An attribute is written as its keyword and a value of the sort that the keyword asks for; a flag may
do without one, and a comma may follow. Attributes are assigned in the order in which they are
written. Main statement: the attributes of a rule without complaint are those of the package so far,
with the attributes written on the rule assigned behind them.
-/

namespace Rulebook

open Rulebook.Parser

/-! ### Integers -/

def decimal (digits : List Char) : Nat :=
  Nat.ofDigits 10 (digits.reverse.map fun d => d.toNat - '0'.toNat)

def Decimal (cs : List Char) (n : Int) : Prop :=
  ∃ digits, digits ≠ [] ∧ (∀ d ∈ digits, Lexeme.isDigit d = true) ∧
    (cs = digits ∧ n = decimal digits ∨ cs = '-' :: digits ∧ n = -(decimal digits : Int))

theorem foldl_digits (digits : List Char) :
    digits.foldl (fun n d => 10 * n + (d.toNat - '0'.toNat)) 0 = decimal digits := by
  rw [decimal, Nat.ofDigits_eq_foldr, List.foldr_map, List.foldr_reverse]
  congr 1
  funext n d
  exact Nat.add_comm _ _

theorem numberTail_of_int {rest : List Char} (h : (Lexeme.numberTail rest).1 = .int) :
    (Lexeme.numberTail rest).2.1 = rest.takeWhile Lexeme.isDigit := by
  unfold Lexeme.numberTail at h ⊢
  dsimp only at h ⊢
  split
  · next d left heq =>
    rw [heq] at h
    split
    · next hd =>
      simp only [hd, if_true] at h
      cases h
    · rfl
  · rfl

variable {hashComments : Bool} {text : String}

theorem letters_of_int {c : Char} {rest : List Char}
    (h : (lexeme hashComments c rest).kind = .literal .int) :
    ∃ digits, digits ≠ [] ∧ (∀ d ∈ digits, Lexeme.isDigit d = true) ∧
      (c :: (lexeme hashComments c rest).tail = digits ∨
        c :: (lexeme hashComments c rest).tail = '-' :: digits) := by
  have hl := Lexeme.scanned hashComments c rest
  generalize lexeme hashComments c rest = l at h hl ⊢
  cases hl with
  | number _ _ hnumber =>
    have hint : (Lexeme.numberTail rest).1 = .int := TokenKind.literal.inj h
    have hdigits : ∀ d ∈ rest.takeWhile Lexeme.isDigit, Lexeme.isDigit d = true := fun d hd =>
      List.mem_takeWhile_imp hd
    show ∃ digits, digits ≠ [] ∧ (∀ d ∈ digits, Lexeme.isDigit d = true) ∧
      (c :: (Lexeme.numberTail rest).2.1 = digits ∨
        c :: (Lexeme.numberTail rest).2.1 = '-' :: digits)
    rw [numberTail_of_int hint]
    cases hc : Lexeme.isDigit c with
    | true =>
      exact ⟨_, List.cons_ne_nil _ _, List.forall_mem_cons.2 ⟨hc, hdigits⟩, .inl rfl⟩
    | false =>
      rw [startsNumber, hc, Bool.false_or, Bool.and_eq_true, beq_iff_eq] at hnumber
      obtain ⟨rfl, hstarts⟩ := hnumber
      refine ⟨_, ?_, hdigits, .inr rfl⟩
      cases rest with
      | nil => cases hstarts
      | cons d rest =>
        rw [List.takeWhile_cons_of_pos (show Lexeme.isDigit d = true from hstarts)]
        exact List.cons_ne_nil _ _
  | word => exact absurd h (Lexeme.kind_word_ne (by simp) (by simp) c rest)
  | symbol _ _ _ _ hsymbol =>
    obtain ⟨_, hsymbol⟩ := Lexeme.kind_of_symbol? hsymbol
    cases hsymbol.symm.trans h
  | _ => cases h

theorem decimal_of_integer {t : Token} (ht : t ∈ tokens hashComments text)
    (hk : t.kind = .literal .int) {s u : State} {n : Int} (h : integer t.text s = .ok n u) :
    Decimal t.text.toList n := by
  obtain ⟨cs, hmem, htext⟩ := kind_text_of_located ht
  obtain ⟨c, rest, hkind, rfl⟩ := lexeme_of_mem hmem
  obtain ⟨digits, hne, hdigits, hletters⟩ := letters_of_int (hkind.symm.trans hk)
  have hcs : t.text.toList = c :: (lexeme hashComments c rest).tail := by
    rw [htext, String.toList_ofList]
  rw [← hcs] at hletters
  have hminus : Text.minusOf digits = (false, digits) := by
    cases digits with
    | nil => rfl
    | cons d ds =>
      unfold Text.minusOf
      split
      · next heq =>
        obtain ⟨rfl, -⟩ := List.cons.inj heq
        exact absurd (hdigits _ List.mem_cons_self) (by decide)
      · rfl
  unfold integer at h
  rcases hletters with heq | heq
  · rw [heq, hminus] at h
    dsimp only at h
    split at h
    · cases h
    · obtain ⟨rfl, rfl⟩ := pure_ok h
      refine ⟨digits, hne, hdigits, .inl ⟨heq, ?_⟩⟩
      rw [foldl_digits]
      rfl
  · rw [heq, show Text.minusOf ('-' :: digits) = (true, digits) from rfl] at h
    dsimp only at h
    split at h
    · cases h
    · obtain ⟨rfl, rfl⟩ := pure_ok h
      refine ⟨digits, hne, hdigits, .inr ⟨heq, ?_⟩⟩
      rw [foldl_digits]
      rfl

/-! ### Attributes as they are written -/

def numberKeywords : List TokenKind := [.keyword .salience, .keyword .duration]

def flagKeywords : List TokenKind :=
  [.keyword .noLoop, .keyword .autoFocus, .keyword .lockOnActive, .keyword .enabled]

/-- What is written behind the keyword of an attribute for its value: an exact integer, `true` or
`false` or nothing for a flag that holds, or a string. -/
inductive ValueWritten (keyword : TokenKind) : AttributeValue → List Token → Prop where
  | number {n : Int} {t : Token} (hkeyword : keyword ∈ numberKeywords) (ht : t.kind = .literal .int)
      (hn : Decimal t.text.toList n) : ValueWritten keyword (.number n) [t]
  | bare (hkeyword : keyword ∈ flagKeywords) : ValueWritten keyword (.flag true) []
  | flag {t : Token} (hkeyword : keyword ∈ flagKeywords) (ht : t.kind = .literal .bool) :
      ValueWritten keyword (.flag (t.text = "true")) [t]
  | text {t : Token} (hkeyword : keyword ∈ attributeKinds) (hnumber : keyword ∉ numberKeywords)
      (hflag : keyword ∉ flagKeywords) (ht : t.kind = .literal .string) :
      ValueWritten keyword (.text t.stringValue) [t]

def AttributeWritten (a : Attribute) (ts : List Token) : Prop :=
  ∃ keyword value, ts = keyword :: value ∧ keyword.kind ∈ attributeKinds ∧ a.name = keyword.text ∧
    a.location.start = some keyword.start ∧ ValueWritten keyword.kind a.value value

/-- Attributes are written one behind the other, each with a comma behind it or without. -/
inductive AttributesWritten : List Attribute → List Token → Prop where
  | nil : AttributesWritten [] []
  | snoc {as : List Attribute} {a : Attribute} {ts us comma : List Token}
    (h : AttributesWritten as ts)
      (ha : AttributeWritten a us) (hcomma : Optional (.symbol .comma) comma) :
      AttributesWritten (as ++ [a]) (ts ++ (us ++ comma))

/-! ### Attributes as they are assigned -/

namespace Attributes

/-- The map that assigning attributes in their order gives: the names stand in the order of their
first assignment, and each has the attribute that was assigned to it last. -/
structure Assigned (as : List Attribute) (m : Attributes) : Prop where
  names : m.map (·.name) = (as.map (·.name)).eraseDups
  last : ∀ name, m.get? name = as.reverse.find? (·.name = name)

theorem names_put (m : Attributes) (a : Attribute) :
    (m.put a).map (·.name) =
      if a.name ∈ m.map (·.name) then m.map (·.name) else m.map (·.name) ++ [a.name] := by
  induction m with
  | nil => rfl
  | cons b m ih =>
    by_cases hb : b.name = a.name
    · rw [put, if_pos hb, List.map_cons, List.map_cons, hb, if_pos List.mem_cons_self]
    · rw [put, if_neg hb, List.map_cons, List.map_cons, ih]
      by_cases hm : a.name ∈ m.map (·.name)
      · rw [if_pos hm, if_pos (List.mem_cons_of_mem _ hm)]
      · rw [if_neg hm, if_neg (fun h => (List.mem_cons.1 h).elim (fun heq => hb heq.symm) hm),
          List.cons_append]

theorem Assigned.put {as : List Attribute} {m : Attributes} (h : Assigned as m) (a : Attribute) :
    Assigned (as ++ [a]) (m.put a) where
  names := by
    rw [names_put, h.names, List.map_append, List.eraseDups_append]
    generalize as.map (·.name) = names
    by_cases ha : a.name ∈ names
    · rw [if_pos (List.mem_eraseDups.2 ha)]
      simp [List.removeAll, ha]
    · rw [if_neg (fun hmem => ha (List.mem_eraseDups.1 hmem))]
      simp only [List.map_cons, List.map_nil, List.removeAll, List.filter_cons,
        List.contains_eq_mem, ha, decide_false, Bool.not_false, if_true, List.filter_nil]
      rfl
  last name := by
    rw [List.reverse_append, List.reverse_singleton, List.singleton_append]
    by_cases hname : a.name = name
    · subst hname
      rw [get?_put_self, List.find?_cons_of_pos (by simp)]
    · rw [get?_put_of_ne m hname, h.last, List.find?_cons_of_neg (by simpa using hname)]

theorem assigned_override (as : List Attribute) : Assigned as (override [] as) := by
  induction as using List.reverseRecOn with
  | nil => exact ⟨rfl, fun _ => rfl⟩
  | append_singleton as a ih =>
    rw [override, List.foldl_append]
    exact ih.put a

theorem override_append (m : Attributes) (as bs : List Attribute) :
    override m (as ++ bs) = override (override m as) bs := List.foldl_append ..

end Attributes

/-! ### Attributes as they are read -/

namespace Parser

variable {s t u : State} {rule : Rule}

theorem mem_tokens_of_expect {kind : TokenKind} {token : Token} (hs : s.Earnest hashComments text)
    (hk : kind ≠ .endOfInput) (h : expect kind s = .ok token t) :
    token ∈ tokens hashComments text := by
  obtain ⟨rfl, hkind, -⟩ := expect_of_ok h
  exact hs.current_mem (hkind ▸ hk)

theorem attributeValue_written (hs : s.Earnest hashComments text) {token : Token}
    {value : AttributeValue} (h : attributeValue token s = .ok value t) :
    ∃ ts, ValueWritten token.kind value ts ∧ s.Took t ts := by
  cases valueRead_of_attributeValue h with
  | number hk hdigits hn =>
    obtain ⟨hv, htook⟩ := took_of_expect hs.hidden (by simp) hdigits
    have hmem := mem_tokens_of_expect hs (by simp) hdigits
    exact ⟨_, .number hk hv (decimal_of_integer hmem hv hn), htook⟩
  | flag _ hk hfound =>
    obtain ⟨_, _, hcurrent, hfound⟩ := bind_eq_ok.1 hfound
    cases hcurrent
    split at hfound
    · next hbool =>
      obtain ⟨v, w, hw, hfound⟩ := bind_eq_ok.1 hfound
      obtain ⟨rfl, rfl⟩ := pure_ok hfound
      obtain ⟨rfl, htook⟩ := took_of_advance hs.hidden (by rw [hbool]; simp) hw
      exact ⟨_, .flag hk hbool, htook⟩
    · obtain ⟨rfl, rfl⟩ := pure_ok hfound
      exact ⟨_, .bare hk, .refl _⟩
  | text hnumber hflag hk hgiven =>
    obtain ⟨hv, htook⟩ := took_of_expect hs.hidden (by simp) hgiven
    exact ⟨_, .text hk hnumber hflag hv, htook⟩

theorem ruleAttribute_written (hs : s.Earnest hashComments text)
    (hk : s.cursor.current.kind ∈ attributeKinds) {a : Attribute} (h : ruleAttribute s = .ok a t) :
    ∃ ts, AttributeWritten a ts ∧ s.Took t ts := by
  obtain ⟨token, u, hu, h⟩ := bind_eq_ok.1 h
  obtain ⟨value, v, hv, h⟩ := bind_eq_ok.1 h
  obtain ⟨location, w, hw, h⟩ := bind_eq_ok.1 h
  obtain ⟨rfl, rfl⟩ := close_ok hw
  obtain ⟨rfl, rfl⟩ := pure_ok h
  have hend : s.cursor.current.kind ≠ .endOfInput := fun heq => absurd (heq ▸ hk) (by decide)
  obtain ⟨rfl, hkeyword⟩ := took_of_advance hs.hidden hend hu
  obtain ⟨ts, hvalue, htook⟩ := attributeValue_written (hs.of_ok hu) hv
  exact ⟨_, ⟨s.cursor.current, ts, rfl, hk, rfl, Location.start_closeAt _ _, hvalue⟩,
    hkeyword.trans htook⟩

theorem packageAttribute_written (hs : s.Earnest hashComments text)
    (hk : s.cursor.current.kind ∈ attributeKinds) (h : packageAttribute s = .ok () t) :
    ∃ a ts comma, AttributeWritten a ts ∧ Optional (.symbol .comma) comma ∧
      s.Took t (ts ++ comma) ∧
      t.package = { s.package with attributes := s.package.attributes.put a } := by
  obtain ⟨a, u, hu, h⟩ := bind_eq_ok.1 h
  obtain ⟨_, _, hput, h⟩ := bind_eq_ok.1 h
  cases hput
  replace h : skip .comma (u.declared fun p => { p with attributes := p.attributes.put a }) =
    .ok () t := h
  obtain ⟨ts, hwritten, htook⟩ := ruleAttribute_written hs hk hu
  obtain ⟨comma, hcomma, htook'⟩ := took_of_skip (s := u.declared _) (hs.of_ok hu).hidden h
  refine ⟨a, ts, comma, hwritten, hcomma, htook.trans htook', ?_⟩
  rw [Inert.package_ok _ h, State.declared, Inert.package_ok _ hu]

def LabelWritten (ts : List Token) : Prop :=
  ts = [] ∨ ∃ word colon, ts = [word, colon] ∧ word.kind = .keyword .attributes ∧
    colon.kind = .symbol .colon

theorem attributesHead_written (hs : s.cursor.triviaVisible = false)
    (h : attributesHead s = .ok () t) : ∃ ts, LabelWritten ts ∧ s.Took t ts := by
  obtain ⟨_, _, hlook, h⟩ := bind_eq_ok.1 h
  cases hlook
  split at h
  · next hword =>
    have hword : s.cursor.current.kind = .keyword .attributes := of_decide_eq_true hword
    obtain ⟨word, u, hu, h⟩ := bind_eq_ok.1 h
    obtain ⟨colon, v, hv, h⟩ := bind_eq_ok.1 h
    obtain ⟨-, rfl⟩ := pure_ok h
    obtain ⟨rfl, htook⟩ := took_of_advance hs (by rw [hword]; simp) hu
    obtain ⟨hcolon, htook'⟩ :=
      took_of_expect ((Orderly.evolves_ok _ hu).triviaVisible.trans hs) (by simp) hv
    exact ⟨_, .inr ⟨_, _, rfl, hword, hcolon⟩, htook.trans htook'⟩
  · obtain ⟨-, rfl⟩ := pure_ok h
    exact ⟨[], .inl rfl, .refl _⟩

theorem ruleAttributes_written (hs : s.Earnest hashComments text) {r : Harvest Rule}
    (h : ruleAttributes rule s = .ok r t) (hr : r.failure = none) :
    ∃ as label ts, LabelWritten label ∧ AttributesWritten as ts ∧ s.Took t (label ++ ts) ∧
      r.found = { rule with attributes := rule.attributes.override as } := by
  obtain ⟨head, u, hu, h⟩ := bind_eq_ok.1 h
  rcases attempt_ok hu with ⟨_, rfl, hhead⟩ | ⟨e, rfl, -⟩
  · obtain ⟨label, hlabel, htook⟩ := attributesHead_written hs.hidden hhead
    let I (v : State) (r : Harvest Rule) : Prop :=
      v.Earnest hashComments text ∧ (r.failure = none → ∃ as ts, AttributesWritten as ts ∧
        u.Took v ts ∧ r.found = { rule with attributes := rule.attributes.override as })
    have hnone : I u { found := rule } := ⟨hs.of_ok hhead, fun _ => ⟨[], [], .nil, .refl u, rfl⟩⟩
    have hall : I t r := by
      refine repeatWhile_invariant (I := I) ?_ ?_ hnone h
      · intro r b v w hlook
        obtain ⟨_, _, hkind, hlook⟩ := bind_eq_ok.1 hlook
        cases hkind
        exact (pure_ok hlook).2
      · intro r x v w hlook hr hbody
        obtain ⟨_, _, hkind, hlook⟩ := bind_eq_ok.1 hlook
        cases hkind
        have hmore := (pure_ok hlook).1
        rw [Eq.comm, Bool.and_eq_true, Option.isNone_iff_eq_none, decide_eq_true_eq] at hmore
        obtain ⟨as, ts, hwritten, htook, hfound⟩ := hr.2 hmore.1
        refine ⟨hr.1.of_ok hbody, fun hx => ?_⟩
        obtain ⟨y, z, hz, hbody⟩ := bind_eq_ok.1 hbody
        rcases harvest_ok hz with ⟨a, ha, rfl⟩ | ⟨e, -, rfl⟩
        · obtain ⟨us, hus, htook'⟩ := ruleAttribute_written hr.1 hmore.2 ha
          obtain ⟨_, w', hskip, hbody⟩ := bind_eq_ok.1 hbody
          obtain ⟨rfl, rfl⟩ := pure_ok hbody
          obtain ⟨comma, hcomma, htook''⟩ := took_of_skip (hr.1.of_ok ha).hidden hskip
          refine ⟨_, _, .snoc hwritten hus hcomma, htook.trans (htook'.trans htook''), ?_⟩
          rw [hfound, Attributes.override_append]
          rfl
        · obtain ⟨rfl, -⟩ := pure_ok hbody
          cases hx
    obtain ⟨as, ts, hwritten, htook', hfound⟩ := hall.2 hr
    exact ⟨as, label, ts, hlabel, hwritten, htook.trans htook', hfound⟩
  · obtain ⟨rfl, -⟩ := pure_ok h
    cases hr

/-! ### Rules -/

/-- What was read in turn without failing was read in each part. -/
theorem andThen_clean {α : Type} {x r : Harvest α} {next : α → Parser (Harvest α)}
    (h : x.andThen next s = .ok r t) (hr : r.failure = none) :
    x.failure = none ∧ next x.found s = .ok r t := by
  unfold Harvest.andThen at h
  cases hx : x.failure with
  | none =>
    rw [hx] at h
    exact ⟨rfl, h⟩
  | some e =>
    rw [hx] at h
    obtain ⟨rfl, -⟩ := pure_ok h
    rw [hx] at hr
    cases hr

theorem ruleConsequence_clean {r : Harvest Rule} (h : ruleConsequence rule s = .ok r t)
    (hr : r.failure = none) :
    s.cursor.current.kind = .keyword .then_ ∧ ∃ consequence, r.found = { rule with
      consequence } := by
  obtain ⟨x, u, hx, h⟩ := bind_eq_ok.1 h
  obtain ⟨c, hc, h⟩ := harvest_clean hx h hr
  obtain ⟨opening, v, hopening, -⟩ := bind_eq_ok.1 hc
  obtain ⟨rfl, hthen, -⟩ := expect_of_ok hopening
  refine ⟨hthen, c, ?_⟩
  rcases harvest_ok h with ⟨_, -, rfl⟩ | ⟨e, -, rfl⟩
  · rfl
  · rfl

def attributesEnd : List TokenKind := [.keyword .when_, .keyword .then_]

/-- The attributes of a rule that did not fail are those written before its conditions, assigned
behind those that it had. -/
theorem ruleBody_written (hs : s.Earnest hashComments text) {r : Harvest Rule}
    (h : ruleBody rule s = .ok r t) (hr : r.failure = none) :
    ∃ as label ts u, LabelWritten label ∧ AttributesWritten as ts ∧ s.Took u (label ++ ts) ∧
      u.Earnest hashComments text ∧ u.cursor.current.kind ∈ attributesEnd ∧
      r.found.name = rule.name ∧ r.found.attributes = rule.attributes.override as := by
  obtain ⟨x, u, hu, h⟩ := bind_eq_ok.1 h
  obtain ⟨y, v, hv, h⟩ := bind_eq_ok.1 h
  obtain ⟨hy, hconsequence⟩ := andThen_clean h hr
  obtain ⟨hx, hconditions⟩ := andThen_clean hv hy
  obtain ⟨as, label, ts, hlabel, hwritten, htook, hfound⟩ := ruleAttributes_written hs hu hx
  obtain ⟨hthen, consequence, hclosed⟩ := ruleConsequence_clean hconsequence hr
  obtain ⟨conditions, hkept⟩ := ruleConditions_found hconditions
  refine ⟨as, label, ts, u, hlabel, hwritten, htook, hs.of_ok hu, ?_, ?_, ?_⟩
  · obtain ⟨_, _, hlook, hconditions⟩ := bind_eq_ok.1 hconditions
    cases hlook
    split at hconditions
    · next hwhen => exact of_decide_eq_true hwhen ▸ by decide
    · obtain ⟨-, rfl⟩ := pure_ok hconditions
      exact hthen ▸ by decide
  · rw [hclosed, hkept, hfound]
  · rw [hclosed, hkept, hfound]

def TitleWritten (name : String) (t : Token) : Prop :=
  t.kind = .literal .string ∧ name = t.stringValue ∨ t.isName = true ∧ name = t.text

theorem title_of_ok {name : String} (h : title s = .ok name t) :
    TitleWritten name s.cursor.current ∧ s.cursor.current.kind ≠ .endOfInput ∧ t = s.advanced := by
  obtain ⟨_, _, hcurrent, h⟩ := bind_eq_ok.1 h
  cases hcurrent
  split at h
  · next hstring =>
    rw [bind_of_ok (advance_eq s)] at h
    obtain ⟨rfl, rfl⟩ := pure_ok h
    exact ⟨.inl ⟨hstring, rfl⟩, by rw [hstring]; simp, rfl⟩
  · split at h
    · next hname =>
      rw [bind_of_ok (advance_eq s)] at h
      obtain ⟨rfl, rfl⟩ := pure_ok h
      exact ⟨.inr ⟨hname, rfl⟩, Eager.ne_endOfInput_of_isName hname, rfl⟩
    · cases h

theorem title_written (hs : s.cursor.triviaVisible = false) {name : String}
    (h : title s = .ok name t) : ∃ token, TitleWritten name token ∧ s.Took t [token] := by
  obtain ⟨hwritten, hk, rfl⟩ := title_of_ok h
  exact ⟨_, hwritten, took_advanced hs hk⟩

def RuleWritten (rule : Rule) (as : List Attribute) (ts : List Token) : Prop :=
  ∃ keyword name label attributes, ts = keyword :: name :: (label ++ attributes) ∧
    keyword.kind = .keyword .rule ∧ rule.location.start = some keyword.start ∧
    TitleWritten rule.name name ∧ LabelWritten label ∧ AttributesWritten as attributes

/-- The attributes of a rule without complaint are those of the package so far, with the attributes
that are written on the rule assigned behind them. -/
theorem ruleStatement_written (hs : s.Earnest hashComments text) (h : ruleStatement s = .ok rule t)
    (hclean : t.collector.received = 0) :
    ∃ as ts u, RuleWritten rule as ts ∧ s.Took u ts ∧ u.Earnest hashComments text ∧
      u.cursor.current.kind ∈ attributesEnd ∧
      rule.attributes = s.package.attributes.override as := by
  obtain ⟨token, u, hu, h⟩ := bind_eq_ok.1 h
  obtain ⟨name, v, hv, h⟩ := bind_eq_ok.1 h
  obtain ⟨_, _, hget, h⟩ := bind_eq_ok.1 h
  cases hget
  obtain ⟨r, w, hw, h⟩ := bind_eq_ok.1 h
  obtain ⟨trying, _, htrying, h⟩ := bind_eq_ok.1 h
  cases htrying
  have hsu := hs.of_ok hu
  have hv' := hsu.of_ok hv
  have hpackage : v.package = s.package := (Inert.package_ok _ hv).trans (Inert.package_ok _ hu)
  have hwt : r = rule ∧ w.Evolves t := by
    split at h
    · obtain ⟨rfl, rfl⟩ := pure_ok h
      exact ⟨rfl, .refl _⟩
    · obtain ⟨_, x, hx, h⟩ := bind_eq_ok.1 h
      obtain ⟨_, y, hy, h⟩ := bind_eq_ok.1 h
      obtain ⟨rfl, rfl⟩ := pure_ok h
      exact ⟨rfl, (Orderly.evolves_ok _ hx).trans (Orderly.evolves_ok _ hy)⟩
  obtain ⟨rfl, hwt⟩ := hwt
  have hreceived := hwt.collector.received_le
  obtain ⟨body, x, l, hbody, hfailure, rfl, hl, -⟩ := recovering_clean hv'.trials hw (by omega)
  obtain ⟨as, label, ts, y, hlabel, hwritten, htook, hy, hend, hname, hattributes⟩ :=
    ruleBody_written (s := v.named name) ⟨hv'.cursor, hv'.trials⟩ hbody hfailure
  obtain ⟨hkeyword, htook₁⟩ := took_of_expect hs.hidden (by simp) hu
  obtain ⟨named, hnamed, htook₂⟩ := title_written hsu.hidden hv
  have htitle : TitleWritten body.found.name named := hname ▸ hnamed
  refine ⟨as, _, y, ⟨token, named, label, ts, rfl, hkeyword, hl, htitle, hlabel, hwritten⟩,
    htook₁.trans (htook₂.trans htook), hy, hend, ?_⟩
  show body.found.attributes = _
  rw [hattributes, hpackage]

end Parser

end Rulebook
