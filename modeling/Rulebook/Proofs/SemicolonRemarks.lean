import Rulebook.Proofs.LedgerUnit
import Rulebook.Proofs.Provenance

/-!
# Remarks on trailing semicolons

Embedded code in parentheses is a condition, a predicate or a return value. Whenever one of them is
read outside of a trial, the code is checked once, and the remark on a semicolon at its end is about
the token at which the element begins. So there is one remark at that token if the code ends in a
semicolon, and none otherwise, whatever becomes of the element.

The check looks at the text of the code. It finds the semicolon that is the last visible token,
unless a comment stands behind that or the code ends in blanks which are no trivia: a comment hides
the semicolon before it, and one that ends in a semicolon itself is taken for one.
-/

namespace Rulebook

variable {frames : Nat}

open Rulebook.Parser

namespace Parser

variable {hashComments : Bool} {text code : String} {s t u : State}

/-- A run of a production that reads an element with code in parentheses. -/
inductive ReadsCode (s t : State) (code : String) : Prop where
  | eval {location : Location} (h : evalCondition s = .ok (.eval location code) t)
  | predicate {found : List Constraint} {r : Harvest (List Constraint)} {location : Location}
      {field declaration : Option String} (h : constraint found s = .ok r t)
      (hdone : r.failure = none)
      (hlast : r.found.getLast? = some (.predicate location code field declaration))
  | returnValue {operator : String} {token : Token} {location : Location} {shown : String}
      (h : restrictionValue operator token s = .ok (.returnValue location shown code) t)

/-! ### Where code is checked -/

/-- From one state to another code in parentheses is read and checked. The check is about the token
next in the first state, and no parenthesis is opened between that and the code. -/
def State.Checks (s t : State) (code : String) : Prop :=
  ∃ u v w, s.Evolves u ∧ s.OpensNone u ∧ parenCode u = .ok code v ∧
    checkSemicolon code s.cursor.current v = .ok () w ∧ w.Evolves t

theorem checks_of_evalCondition (hs : s.cursor.triviaVisible = false) {location : Location}
    (h : evalCondition s = .ok (.eval location code) t) : s.Checks t code := by
  obtain ⟨token, u, hu, h⟩ := bind_eq_ok.1 h
  obtain ⟨found, v, hv, h⟩ := bind_eq_ok.1 h
  obtain ⟨_, w, hw, h⟩ := bind_eq_ok.1 h
  obtain ⟨l, x, hx, h⟩ := bind_eq_ok.1 h
  obtain ⟨heq, rfl⟩ := pure_ok h
  obtain ⟨-, rfl⟩ := Condition.eval.inj heq
  have hsu := Orderly.evolves_ok (keyword .eval) hu
  obtain ⟨rfl, hk, rfl⟩ := expect_of_ok hu
  exact ⟨_, v, w, hsu, .advanced hs (by rw [hk]; simp) (by rw [hk]; simp), hv, hw,
    Orderly.evolves_ok _ hx⟩

theorem predicate_ok {token : Token} {field declaration : Option String} {c : Constraint}
    (h : predicate token field declaration s = .ok c t) :
    ∃ l code v w, c = .predicate l code field declaration ∧ parenCode s = .ok code v ∧
      checkSemicolon code token v = .ok () w ∧ w.Evolves t := by
  obtain ⟨code, v, hv, h⟩ := bind_eq_ok.1 h
  obtain ⟨_, w, hw, h⟩ := bind_eq_ok.1 h
  obtain ⟨l, x, hx, h⟩ := bind_eq_ok.1 h
  obtain ⟨rfl, rfl⟩ := pure_ok h
  exact ⟨l, code, v, w, rfl, hv, hw, Orderly.evolves_ok _ hx⟩

theorem checks_of_predicate {found : List Constraint} {field declaration f d : Option String}
    {c : Constraint} {location : Location} (hsu : s.Evolves u) (hnone : s.OpensNone u)
    (h : predicate s.cursor.current f d u = .ok c t)
    (hlast : (found ++ [c]).getLast? = some (.predicate location code field declaration)) :
    s.Checks t code := by
  obtain ⟨l, taken, v, w, rfl, hv, hw, hwt⟩ := predicate_ok h
  rw [List.getLast?_concat] at hlast
  obtain ⟨-, rfl, -, -⟩ := Constraint.predicate.inj (Option.some.inj hlast)
  exact ⟨u, v, w, hsu, hnone, hv, hw, hwt⟩

theorem last_ne_predicate_of_fieldBinding {token : Token} {name : String}
    {declaration f d : Option String} {binding found : List Constraint} {l : Location}
    (h : fieldBinding token name declaration s = .ok binding t)
    (hsome : declaration.isSome = true) :
    (found ++ binding).getLast? ≠ some (.predicate l code f d) := by
  cases declaration with
  | none => cases hsome
  | some declared =>
    obtain ⟨_, _, -, h⟩ := bind_eq_ok.1 h
    rw [(pure_ok h).1, List.getLast?_concat]
    simp

theorem checks_of_fieldConstraint {fieldToken : Token} {name : String} {declared : Option String}
    {found cs : List Constraint} {location : Location} {field declaration : Option String}
    (hu : u.cursor.triviaVisible = false) (hsu : s.Evolves u) (hnone : s.OpensNone u)
    (hbound : declared.isSome = true →
      found.getLast? ≠ some (.predicate location code field declaration))
    (h : fieldConstraint s.cursor.current fieldToken name declared u = .ok cs t)
    (hlast : (found ++ cs).getLast? = some (.predicate location code field declaration)) :
    s.Checks t code := by
  obtain ⟨arrow, v, hv, h⟩ := bind_eq_ok.1 h
  split at h
  · next harrow =>
    obtain ⟨rfl, hk⟩ := kind_of_nextIsSymbol (harrow ▸ hv)
    obtain ⟨_, w, hw, h⟩ := bind_eq_ok.1 h
    obtain ⟨c, x, hx, h⟩ := bind_eq_ok.1 h
    obtain ⟨rfl, rfl⟩ := pure_ok h
    have huw := Orderly.evolves_ok advance hw
    rw [advance_eq] at hw
    cases hw
    exact checks_of_predicate (hsu.trans huw)
      (hnone.trans (.advanced hu (by rw [hk]; simp) (by rw [hk]; simp))) hx hlast
  · obtain ⟨_, _, -, h⟩ := bind_eq_ok.1 h
    split at h
    · obtain ⟨_, _, -, h⟩ := bind_eq_ok.1 h
      obtain ⟨_, _, -, h⟩ := bind_eq_ok.1 h
      rw [(pure_ok h).1, List.getLast?_concat] at hlast
      cases hlast
    · split at h
      · next hsome =>
        rw [(pure_ok h).1, List.append_nil] at hlast
        exact absurd hlast (hbound hsome)
      · obtain ⟨_, _, -, h⟩ := bind_eq_ok.1 h
        cases h

theorem checks_of_constraint (hs : s.cursor.triviaVisible = false) {found : List Constraint}
    {r : Harvest (List Constraint)} {location : Location} {field declaration : Option String}
    (h : constraint found s = .ok r t) (hdone : r.failure = none)
    (hlast : r.found.getLast? = some (.predicate location code field declaration)) :
    s.Checks t code := by
  have hbroken : ∀ {found : List Constraint} {e : ParseError},
      r = { found, failure := some e } → s.Checks t code := fun heq => by
    rw [heq] at hdone
    cases hdone
  obtain ⟨_, _, hlook, h⟩ := bind_eq_ok.1 h
  cases hlook
  split at h
  · rcases harvest_ok h with ⟨c, hc, rfl⟩ | ⟨e, -, heq⟩
    · exact checks_of_predicate (.refl s) (.refl s) hc hlast
    · exact hbroken heq
  · obtain ⟨_, _, hlook, h⟩ := bind_eq_ok.1 h
    cases hlook
    split at h
    · next heval =>
      have hk := of_decide_eq_true (Bool.and_eq_true_iff.1 heval).1
      rcases harvest_ok h with ⟨c, hc, rfl⟩ | ⟨e, -, heq⟩
      · obtain ⟨_, u, hu, hc⟩ := bind_eq_ok.1 hc
        have hsu := Orderly.evolves_ok advance hu
        rw [advance_eq] at hu
        cases hu
        exact checks_of_predicate hsu (.advanced hs (by rw [hk]; simp) (by rw [hk]; simp)) hc hlast
      · exact hbroken heq
    · obtain ⟨head, u, hu, h⟩ := bind_eq_ok.1 h
      rcases attempt_ok hu with ⟨⟨declared, fieldToken, name⟩, rfl, hhead⟩ | ⟨e, rfl, -⟩
      · obtain ⟨binding, v, hv, hrest⟩ := bind_eq_ok.1 h
        obtain rfl := state_of_fieldBinding hv
        have hsu := Orderly.evolves_ok fieldHead hhead
        rcases harvest_ok hrest with ⟨cs, hcs, rfl⟩ | ⟨e, -, heq⟩
        · exact checks_of_fieldConstraint (hsu.triviaVisible.trans hs) hsu
            (opensNone_of_fieldHead hs hhead) (last_ne_predicate_of_fieldBinding hv) hcs hlast
        · exact hbroken heq
      · exact hbroken (pure_ok h).1

theorem checks_of_restrictionValue {operator shown : String} {token : Token} {location : Location}
    (h : restrictionValue operator token s = .ok (.returnValue location shown code) t) :
    s.Checks t code := by
  unfold restrictionValue at h
  rw [bind_of_ok (current_eq s)] at h
  obtain ⟨p, hp, h⟩ : ∃ p : Parser Restriction, p = _ ∧ p s = .ok _ t := ⟨_, rfl, h⟩
  split at hp <;> subst hp
  · obtain ⟨_, _, -, h⟩ := bind_eq_ok.1 h
    obtain ⟨_, _, -, h⟩ := bind_eq_ok.1 h
    cases (pure_ok h).1
  · obtain ⟨taken, v, hv, h⟩ := bind_eq_ok.1 h
    obtain ⟨_, w, hw, h⟩ := bind_eq_ok.1 h
    obtain ⟨l, x, hx, h⟩ := bind_eq_ok.1 h
    obtain ⟨heq, rfl⟩ := pure_ok h
    obtain ⟨-, -, rfl⟩ := Restriction.returnValue.inj heq
    exact ⟨s, v, w, .refl s, .refl s, hv, hw, Orderly.evolves_ok _ hx⟩
  · split at h
    · rw [bind_of_ok (peek_eq 1 s)] at h
      split at h
      · obtain ⟨_, _, -, h⟩ := bind_eq_ok.1 h
        obtain ⟨_, _, -, h⟩ := bind_eq_ok.1 h
        cases (pure_ok h).1
      · obtain ⟨_, _, -, h⟩ := bind_eq_ok.1 h
        obtain ⟨_, _, -, h⟩ := bind_eq_ok.1 h
        cases (pure_ok h).1
    · cases h

theorem ReadsCode.checks (h : ReadsCode s t code) (hs : s.cursor.triviaVisible = false) :
    s.Checks t code := by
  cases h with
  | eval h => exact checks_of_evalCondition hs h
  | predicate h hdone hlast => exact checks_of_constraint hs h hdone hlast
  | returnValue h => exact checks_of_restrictionValue h

/-! ### What a check leaves -/

theorem State.Checks.evolves (h : s.Checks t code) : s.Evolves t := by
  obtain ⟨u, v, w, hsu, -, hcode, hcheck, hwt⟩ := h
  exact (hsu.trans (Orderly.evolves_ok _ hcode)).trans ((Orderly.evolves_ok _ hcheck).trans hwt)

theorem State.Checks.remarked (hs : s.Earnest hashComments text)
    (hcap : t.collector.maxErrors = none) (h : s.Checks t code) :
    code = spell (codeTokens (tokens hashComments text) s.cursor.coming) ∧
    (∃ x last y, tokens hashComments text =
      x ++ (codeTokens (tokens hashComments text) s.cursor.coming ++ last :: y)) ∧
    (endsInSemicolon code = true →
      ∃ d ∈ t.collector.errors, d.isSemicolonRemark = true ∧ d.place = s.cursor.coming) := by
  obtain ⟨u, v, w, hsu, hnone, hcode, hcheck, hwt⟩ := h
  have hu := hs.evolves hsu
  have hv := hu.of_ok hcode
  have hfaithful : u.cursor.Faithful := by
    rw [hu.cursor]
    exact (faithful_scan text).rewind _
  obtain ⟨heq, -, hsplit⟩ := code_of_parenCode hu.cursor_over hfaithful
    (hnone.unopened hsu hs.cursor_over (Cursor.unopened_coming hs.cursor_over)) hcode
  rw [hu.front] at heq hsplit
  refine ⟨heq, hsplit, fun hends => ?_⟩
  have huncapped : v.collector.maxErrors = none :=
    ((Orderly.evolves_ok _ hcheck).trans hwt).collector.maxErrors.symm.trans hcap
  rw [checkSemicolon, if_pos hends, remark_eq, if_neg (by rw [hv.trials]; omega)] at hcheck
  cases hcheck
  let remark := Diagnostic.ofToken .general v.collector.sourceName "trailing semi-colon not allowed"
    (some s.cursor.current) v.ruleName
  have hentered : (v.remarked "trailing semi-colon not allowed" s.cursor.current).collector.errors =
      v.collector.errors ++ [remark] := by
    show (v.collector.remark _ _ v.ruleName).errors = _
    rw [Collector.remark, Collector.add_of_uncapped huncapped]
  exact ⟨remark, hwt.collector.errors.subset (by rw [hentered]; exact List.mem_concat_self),
    rfl, rfl⟩

end Parser

/-! ### How often a semicolon is remarked on -/

def semicolonRemarks (errors : List Diagnostic) (place : Nat) : Nat :=
  errors.countP fun d => d.isSemicolonRemark && d.place = place

theorem semicolonRemarks_le_one {errors : List Diagnostic} (h : errors.Pairwise Diagnostic.Precedes)
    (place : Nat) : semicolonRemarks errors place ≤ 1 := by
  rw [semicolonRemarks, List.countP_eq_length_filter]
  have hsorted := h.filter fun d => d.isSemicolonRemark && d.place = place
  have hall : ∀ d ∈ errors.filter fun d => d.isSemicolonRemark && d.place = place,
      d.isSemicolonRemark = true ∧ d.place = place := fun d hd => by
    obtain ⟨hremark, hplace⟩ := Bool.and_eq_true_iff.1 (List.mem_filter.1 hd).2
    exact ⟨hremark, of_decide_eq_true hplace⟩
  generalize errors.filter _ = found at *
  match found, hsorted, hall with
  | [], _, _ => exact Nat.zero_le 1
  | [_], _, _ => exact Nat.le_refl 1
  | d :: d' :: _, hsorted, hall =>
    obtain ⟨hremark, hplace⟩ := hall d (by simp)
    obtain ⟨hremark', hplace'⟩ := hall d' (by simp)
    have hlt := ((List.pairwise_cons.1 hsorted).1 d' (by simp)).remarked hremark hremark'
    omega

theorem Ledger.semicolonRemarks_eq {text : String} {drops : Prop} {c : Cursor} {k : Collector}
    (h : Ledger text drops c k) {place : Nat} (hmade : CodeEndsInSemicolon c.front.toList place →
      ∃ d ∈ k.errors, d.isSemicolonRemark = true ∧ d.place = place) :
    semicolonRemarks k.errors place =
      if endsInSemicolon (spell (codeTokens c.front.toList place)) then 1 else 0 := by
  split
  · next hends =>
    obtain ⟨d, hd, hremark, hplace⟩ := hmade hends
    refine Nat.le_antisymm (semicolonRemarks_le_one h.sorted place) ?_
    exact List.countP_pos_iff.2 ⟨d, hd, by rw [hremark, hplace]; simp⟩
  · next hends =>
    refine List.countP_eq_zero.2 fun d hd hremark => hends ?_
    obtain ⟨hremark, hplace⟩ := Bool.and_eq_true_iff.1 hremark
    rw [← of_decide_eq_true hplace]
    exact (h.remarked d hd hremark).2

structure Noticed (hashComments : Bool) (text : String) (errors : List Diagnostic) (place : Nat)
    (code : String) : Prop where
  /-- The code is what stands between its parentheses. -/
  code_eq : code = spell (codeTokens (tokens hashComments text) place)
  /-- There is one remark if its text ends in a semicolon, blanks aside, and none otherwise. -/
  remarks : semicolonRemarks errors place = if endsInSemicolon code then 1 else 0
  /-- The text ends in a semicolon if its last token that is not blank is a semicolon, or a comment
  that ends in one. -/
  ends_iff : endsInSemicolon code = true ↔
    ∃ t, (inked (codeTokens (tokens hashComments text) place)).getLast? = some t ∧
      (t.kind = .symbol .semicolon ∨
        t.kind = .trivia .lineComment ∧ endsInSemicolon t.text = true)
  /-- If that token is the last visible one, there is one remark if it is a semicolon, and none
  otherwise. -/
  visible : (inked (codeTokens (tokens hashComments text) place)).getLast? =
      (Rulebook.visible (codeTokens (tokens hashComments text) place)).getLast? →
    semicolonRemarks errors place =
      if (Rulebook.visible (codeTokens (tokens hashComments text) place)).getLast?.any
        (·.kind = .symbol .semicolon) then 1 else 0

/-- While a text is parsed without a cap, whatever is read with code in parentheses and in no trial
has the remarks of its code, whether or not it is kept; and what is kept was read so. -/
theorem semicolons_noticed (settings : Settings) (hcap : settings.maxErrors = none)
    (sourceName text : String) {r : ParseResult}
    (h : parse frames settings sourceName text = .ok r) :
    ∃ z, compilationUnit (.ofText frames settings sourceName text) = .ok r.package z ∧
      r.errors = z.collector.errors ∧
      AllRead (Underway settings.hashComments text z) r.package.nodes ∧
      ∀ {s t : State} {code : String}, Underway settings.hashComments text z s t →
        ReadsCode s t code → Noticed settings.hashComments text r.errors s.cursor.coming code := by
  obtain ⟨z, hunit, herrors, hnodes⟩ := nodes_read_of_parse h
  have hledger :=
    compilationUnit_ledger (balanced_ofText frames settings hcap sourceName text) hunit
  refine ⟨z, hunit, herrors, hnodes, fun {s t code} hrun hreads => ?_⟩
  have hchecks := hreads.checks hrun.earnest.hidden
  have hcapped : t.collector.maxErrors = none :=
    hrun.evolves.collector.maxErrors.symm.trans hledger.uncapped
  obtain ⟨hcode, ⟨x, last, y, hsplit⟩, hmade⟩ := hchecks.remarked hrun.earnest hcapped
  have hsz := (hchecks.evolves.restacked z.stack).trans hrun.evolves
  have hfront : z.cursor.front.toList = tokens settings.hashComments text :=
    (congrArg Array.toList hsz.front).trans hrun.earnest.front
  have hheld : CodeEndsInSemicolon z.cursor.front.toList s.cursor.coming →
      ∃ d ∈ z.collector.errors, d.isSemicolonRemark = true ∧ d.place = s.cursor.coming := by
    intro hends
    rw [CodeEndsInSemicolon, hfront, ← hcode] at hends
    obtain ⟨d, hd, hremark⟩ := hmade hends
    exact ⟨d, hrun.evolves.collector.errors.subset hd, hremark⟩
  have hremarks := hledger.semicolonRemarks_eq hheld
  rw [hfront, ← herrors] at hremarks
  refine ⟨hcode, hcode ▸ hremarks, hcode ▸ endsInSemicolon_iff_inked hsplit, fun hend => ?_⟩
  rw [hremarks]
  refine if_congr ?_ rfl rfl
  rw [endsInSemicolon_iff_visible hsplit hend, Option.any_eq_true]
  simp

theorem Node.exists_of_kind_eval {n : Node} (h : n.kind = .eval) :
    ∃ l code, n = .condition (.eval l code) := by
  cases n with
  | condition c =>
    cases c with
    | eval l code => exact ⟨l, code, rfl⟩
    | _ => cases h
  | source s => cases s <;> cases h
  | constraint c => cases c <;> cases h
  | restriction r => cases r <;> cases h
  | access a => cases a <;> cases h
  | entry e => cases e <;> cases h
  | _ => cases h

/-- An `eval` with a blank behind its semicolon, one in a constraint whose comment has one, a string
with one, and a predicate of a field. -/
def assortedSemicolons : String :=
  "rule R when eval(a; ) P(eval(b /* ; */), x == (\";\"), n -> (c;)) then end"

theorem semicolons_noticed_assorted :
    ∃ r z, parse 900 {} "orders" assortedSemicolons = .ok r ∧
      r.errors.map (fun d => (d.isSemicolonRemark, d.place)) = [(true, 12), (true, 53)] ∧
      AllRead (Underway true assortedSemicolons z) r.package.nodes ∧
      ∃ s t code, Underway true assortedSemicolons z s t ∧ ReadsCode s t code ∧
        Noticed true assortedSemicolons r.errors s.cursor.coming code := by
  have hvalues : (parse 900 {} "orders" assortedSemicolons).toOption.map (fun r =>
      (r.errors.map fun d => (d.isSemicolonRemark, d.place),
        r.package.nodes.any (·.kind = .eval))) =
      some ([(true, 12), (true, 53)], true) := by
    decide +kernel
  cases h : parse 900 {} "orders" assortedSemicolons with
  | error f =>
    rw [h] at hvalues
    cases hvalues
  | ok r =>
    rw [h] at hvalues
    obtain ⟨herrors, heval⟩ := Prod.mk.inj (Option.some.inj hvalues)
    obtain ⟨z, -, -, hnodes, hnoticed⟩ := semicolons_noticed {} rfl "orders" _ h
    obtain ⟨n, hn, hkind⟩ := List.any_eq_true.1 heval
    obtain ⟨l, code, rfl⟩ := Node.exists_of_kind_eval (of_decide_eq_true hkind)
    obtain ⟨s, t, hrun, hread⟩ := hnodes _ hn
    exact ⟨r, z, rfl, herrors, hnodes, s, t, code, hrun, .eval hread, hnoticed hrun (.eval hread)⟩

def lastVisibleKind (text : String) (place : Nat) : Option TokenKind :=
  (visible (codeTokens (tokens true text) place)).getLast?.map (·.kind)

/-- A comment hides the semicolon before it; one that ends in a semicolon is taken for one, and so
is a semicolon before a blank that is no trivia. -/
theorem semicolons_misjudged :
    ((parse 900 {} "orders" "rule R when eval(x; // c\n) then end").toOption.map (·.errors) =
      some [] ∧
      lastVisibleKind "rule R when eval(x; // c\n) then end" 12 = some (.symbol .semicolon)) ∧
    ((parse 900 {} "orders" "rule R when eval(x > 1 // a;\n) then end").toOption.map
        (fun r => semicolonRemarks r.errors 12) = some 1 ∧
      lastVisibleKind "rule R when eval(x > 1 // a;\n) then end" 12 = some (.literal .int)) ∧
    (parse 900 {} "orders" "rule R when eval(x;\u00a0) then end").toOption.map
        (fun r => semicolonRemarks r.errors 12) = some 1 ∧
      lastVisibleKind "rule R when eval(x;\u00a0) then end" 12 = some .misc := by
  decide +kernel

end Rulebook
