import Rulebook.Proofs.Nesting
import Rulebook.Proofs.Tiling
import Mathlib.Data.List.Chain

/-!
# Nothing is skipped silently

In a text without diagnostics every token behind the head lies in the span of exactly one statement
of the package, and the statements stand one behind the other with only trivia between them.
-/

namespace Rulebook

variable {frames : Nat}

def Location.holds (l : Location) (t : Token) : Bool :=
  match l.start, l.stop with
  | some a, some b => a ≤ t.start && t.stop ≤ b
  | _, _ => false

def Location.Adjoins (ts : List Token) (l m : Location) : Prop :=
  ∀ a b, l.stop = some a → m.start = some b → ∀ t ∈ ts, a ≤ t.start → t.stop ≤ b → t.isTrivia = true

/-- Tokens that stand one behind the other. -/
structure InOrder (ts : List Token) : Prop where
  ordered : ts.Pairwise (·.stop ≤ ·.start)
  solid : ∀ t ∈ ts, t.start < t.stop

namespace InOrder

variable {ts us : List Token}

theorem left (h : InOrder (ts ++ us)) : InOrder ts :=
  ⟨(List.pairwise_append.1 h.ordered).1, fun t ht => h.solid t (List.mem_append_left _ ht)⟩

theorem right (h : InOrder (ts ++ us)) : InOrder us :=
  ⟨(List.pairwise_append.1 h.ordered).2.1, fun t ht => h.solid t (List.mem_append_right _ ht)⟩

theorem stop_le (h : InOrder (ts ++ us)) {t u : Token} (ht : t ∈ ts) (hu : u ∈ us) :
    t.stop ≤ u.start :=
  (List.pairwise_append.1 h.ordered).2.2 t ht u hu

/-- What ends a stretch ends everything before it. -/
theorem forall_stop_le (h : InOrder (ts ++ us)) {last : Token} (hlast : last ∈ us)
    (hus : ∀ t ∈ us, t.stop ≤ last.stop) : ∀ t ∈ ts ++ us, t.stop ≤ last.stop := by
  intro t ht
  rcases List.mem_append.1 ht with ht | ht
  · have hle := h.stop_le ht hlast
    have hsolid := h.right.solid last hlast
    omega
  · exact hus t ht

/-- What begins a stretch begins everything behind it. -/
theorem forall_start_le (h : InOrder (ts ++ us)) {first : Token} (hfirst : first ∈ ts)
    (hts : ∀ t ∈ ts, first.start ≤ t.start) : ∀ t ∈ ts ++ us, first.start ≤ t.start := by
  intro t ht
  rcases List.mem_append.1 ht with ht | ht
  · exact hts t ht
  · have hle := h.stop_le hfirst ht
    have hsolid := h.left.solid first hfirst
    omega

end InOrder

theorem Spans.bounds {x : Keyword × Location} {ts : List Token} (h : Spans x ts)
    (hts : InOrder ts) :
    ∃ first ∈ ts, ∃ last ∈ ts, first.kind = .keyword x.1 ∧ x.2.start = some first.start ∧
      x.2.stop = some last.stop ∧ ∀ t ∈ ts, first.start ≤ t.start ∧ t.stop ≤ last.stop := by
  obtain ⟨hkeyword, hstart, hstop⟩ := h
  cases ts with
  | nil => cases hkeyword
  | cons first more =>
    have hne := List.cons_ne_nil first more
    have hinit := List.dropLast_append_getLast hne
    have hlast := List.getLast_mem hne
    rw [List.getLast?_eq_some_getLast hne] at hstop
    generalize (first :: more).getLast hne = last at hinit hlast hstop
    have hbegin : ∀ t ∈ first :: more, first.start ≤ t.start := fun t ht => by
      rcases List.mem_cons.1 ht with rfl | ht
      · exact Nat.le_refl _
      · have hsolid := hts.solid first List.mem_cons_self
        have hle := (List.pairwise_cons.1 hts.ordered).1 t ht
        omega
    have hend : ∀ t ∈ first :: more, t.stop ≤ last.stop := fun t ht => by
      have hsolid := hts.solid last hlast
      rw [← hinit] at ht hts
      rcases List.mem_append.1 ht with ht | ht
      · have hle := hts.stop_le ht List.mem_cons_self
        omega
      · rw [List.mem_singleton.1 ht]
    exact ⟨first, List.mem_cons_self, last, hlast, Option.some.inj hkeyword, hstart, hstop,
      fun t ht => ⟨hbegin t ht, hend t ht⟩⟩

namespace Tiles

variable {xs : List (Keyword × Location)} {ts : List Token}

/-- Each statement begins and ends at tokens. -/
theorem bounds (h : Tiles xs ts) (hts : InOrder ts) {x : Keyword × Location} (hx : x ∈ xs) :
    ∃ first ∈ ts, ∃ last ∈ ts, first.kind = .keyword x.1 ∧ x.2.start = some first.start ∧
      x.2.stop = some last.stop ∧ first.start < last.stop := by
  induction h with
  | nil => cases hx
  | @snoc xs y ts us _ hspans ih =>
    rcases List.mem_append.1 hx with hx | hx
    · obtain ⟨first, hfirst, last, hlast, hrest⟩ := ih hts.left hx
      exact ⟨first, List.mem_append_left _ hfirst, last, List.mem_append_left _ hlast, hrest⟩
    · obtain rfl := List.mem_singleton.1 hx
      obtain ⟨first, hfirst, last, hlast, hk, hstart, hstop, hall⟩ := hspans.bounds hts.right
      have hsolid := hts.right.solid first hfirst
      have hle := (hall first hfirst).2
      exact ⟨first, List.mem_append_right _ hfirst, last, List.mem_append_right _ hlast, hk, hstart,
        hstop, by omega⟩

theorem pairwise_before (h : Tiles xs ts) (hts : InOrder ts) :
    xs.Pairwise fun x y => x.2.Before y.2 := by
  induction h with
  | nil => exact .nil
  | @snoc xs y ts us htiles hspans ih =>
    refine List.pairwise_append.2 ⟨ih hts.left, List.pairwise_singleton .., fun x hx z hz => ?_⟩
    obtain rfl := List.mem_singleton.1 hz
    obtain ⟨first, -, last, hlast, -, hstart, hstop, hlt⟩ := htiles.bounds hts.left hx
    obtain ⟨next, hnext, -, -, -, hbegin, -⟩ := hspans.bounds hts.right
    exact ⟨_, _, _, hstart, hstop, hbegin, hlt, hts.stop_le hlast hnext⟩

theorem countP_holds (h : Tiles xs ts) (hts : InOrder ts) {t : Token} (ht : t ∈ ts) :
    xs.countP (fun x => x.2.holds t) = 1 := by
  induction h with
  | nil => cases ht
  | @snoc xs y ts us htiles hspans ih =>
    obtain ⟨first, hfirst, last, hlast, -, hstart, hstop, hall⟩ := hspans.bounds hts.right
    have hsolid := hts.solid t ht
    rw [List.countP_append, List.countP_singleton]
    rcases List.mem_append.1 ht with ht | ht
    · have hle := hts.stop_le ht hfirst
      have hholds : y.2.holds t = false := by
        simp only [Location.holds, hstart, hstop, Bool.and_eq_false_iff, decide_eq_false_iff_not]
        omega
      rw [ih hts.left ht, hholds]
      rfl
    · have hnone : xs.countP (fun x => x.2.holds t) = 0 := by
        refine List.countP_eq_zero.2 fun x hx => ?_
        obtain ⟨first', -, last', hlast', -, hstart', hstop', -⟩ := htiles.bounds hts.left hx
        have hle := hts.stop_le hlast' ht
        simp only [Location.holds, hstart', hstop', Bool.and_eq_true, decide_eq_true_eq]
        omega
      have hholds : y.2.holds t = true := by
        have := hall t ht
        simp only [Location.holds, hstart, hstop, Bool.and_eq_true, decide_eq_true_eq]
        exact this
      rw [hnone, hholds]
      rfl

theorem of_getLast? (h : Tiles xs ts) {x : Keyword × Location} (hx : xs.getLast? = some x) :
    ∃ init us, ts = init ++ us ∧ Spans x us := by
  cases h with
  | nil => cases hx
  | snoc _ hspans =>
    rw [List.getLast?_concat] at hx
    obtain rfl := Option.some.inj hx
    exact ⟨_, _, rfl, hspans⟩

/-- Nothing but trivia stands between one statement and the next. -/
theorem isChain_adjoins (h : Tiles xs ts) {all before after : List Token}
    (hall : visible all = before ++ ts ++ after) (hts : InOrder (visible all)) :
    xs.IsChain fun x y => x.2.Adjoins all y.2 := by
  induction h generalizing after with
  | nil => exact .nil
  | @snoc xs y ts us htiles hspans ih =>
    have hall' : visible all = before ++ ts ++ (us ++ after) := by
      rw [hall]
      simp only [List.append_assoc]
    refine List.isChain_append.2 ⟨ih hall', .singleton _, fun x hx z hz => ?_⟩
    obtain rfl := Option.some.inj hz
    obtain ⟨init, last, rfl, hlast⟩ := htiles.of_getLast? hx
    have hcut : visible all = ((before ++ init) ++ last) ++ (us ++ after) := by
      rw [hall']
      simp only [List.append_assoc]
    rw [hcut] at hts
    obtain ⟨_, -, stop, hstop, -, -, hx, hleft⟩ := hlast.bounds hts.left.right
    obtain ⟨start, hstart, _, -, -, hy, -, hright⟩ := hspans.bounds hts.right.left
    intro a b ha hb t ht hat htb
    obtain rfl := Option.some.inj (hx.symm.trans ha)
    obtain rfl := Option.some.inj (hy.symm.trans hb)
    by_contra htrivia
    have hmem : t ∈ visible all := List.mem_filter.2 ⟨ht, by simpa using htrivia⟩
    rw [hcut] at hmem
    have hsolid := hts.solid t hmem
    rcases List.mem_append.1 hmem with hmem | hmem
    · have hle := hts.left.forall_stop_le hstop (fun u hu => (hleft u hu).2) t hmem
      omega
    · have hle := hts.right.forall_start_le hstart (fun u hu => (hright u hu).1) t hmem
      omega

end Tiles

theorem inOrder_visible_tokens (hashComments : Bool) (text : String) :
    InOrder (visible (tokens hashComments text)) where
  ordered := (pairwise_located _ _).filter _
  solid _ ht := (standsIn_of_mem_tokens (List.mem_filter.1 ht).1).2

/-! ### The statements of a package -/

theorem Package.mem_statementStart {p : Package} {x : Keyword × Location} (hx : x ∈ p.statements) :
    TokenKind.keyword x.1 ∈ Parser.statementStart := by
  simp only [Package.statements, List.mem_append, List.mem_map] at hx
  rcases hx with ((((⟨_, _, rfl⟩ | ⟨_, _, rfl⟩) | ⟨_, _, rfl⟩) | ⟨_, _, rfl⟩) | ⟨_, _, rfl⟩) |
    ⟨e, _, rfl⟩
  case inr =>
    cases e with
    | rule r => exact (by decide : TokenKind.keyword .rule ∈ Parser.statementStart)
    | query q => exact (by decide : TokenKind.keyword .query ∈ Parser.statementStart)
  all_goals simp [Parser.statementStart]

structure Package.AccountsFor (p : Package) (all ts : List Token) : Prop where
  once : ∀ t ∈ ts, p.statements.countP (fun x => x.2.holds t) = 1
  disjoint : p.statements.Pairwise fun x y => x.2.Before y.2 ∨ y.2.Before x.2
  begun : ∀ x ∈ p.statements, .keyword x.1 ∈ Parser.statementStart ∧
    ∃ t ∈ ts, t.kind = .keyword x.1 ∧ x.2.start = some t.start
  sorted : ∃ xs : List (Keyword × Location), xs.Perm p.statements ∧
    (xs.Pairwise fun x y => x.2.Before y.2) ∧ xs.IsChain fun x y => x.2.Adjoins all y.2

theorem Package.AccountsFor.of_tiles {p : Package} {all head ts : List Token}
    {xs : List (Keyword × Location)} (h : Tiles xs ts) (hperm : p.statements.Perm xs)
    (hall : visible all = head ++ ts) (hts : InOrder (visible all)) : p.AccountsFor all ts where
  once t ht := by
    rw [hall] at hts
    rw [hperm.countP_eq]
    exact h.countP_holds hts.right ht
  disjoint := by
    rw [hall] at hts
    refine (hperm.pairwise_iff fun h => h.symm).2 ?_
    exact (h.pairwise_before hts.right).imp .inl
  begun x hx := by
    rw [hall] at hts
    obtain ⟨first, hfirst, -, -, hk, hstart, -⟩ := h.bounds hts.right (hperm.mem_iff.1 hx)
    exact ⟨Package.mem_statementStart hx, first, hfirst, hk, hstart⟩
  sorted := by
    refine ⟨xs, hperm.symm, h.pairwise_before (hall ▸ hts).right, ?_⟩
    exact h.isChain_adjoins (hall.trans (List.append_nil _).symm) hts

/-- Without a diagnostic the tokens of a text are a heading and what its statements account for. -/
theorem parse_accounts_for (settings : Settings) (hvalid : settings.Valid)
    (sourceName text : String) {r : ParseResult} (h : parse frames settings sourceName text = .ok r)
    (hclean : r.errors = []) :
    ∃ head body, visible (tokens settings.hashComments text) = head ++ body ∧ Parser.Heading head ∧
      r.package.AccountsFor (tokens settings.hashComments text) body := by
  let s := Parser.State.ofText frames settings sourceName text
  have hidle : Parser.Idle s := idle_ofText frames settings sourceName text
  have hbehind : s.cursor.behind = [] := Cursor.behind_ofTokens _ _
  have hindex : s.cursor.index = 0 := by
    show (Cursor.ofTokens _ _).index = _
    rw [ofTokens_eq]
  have hstart : Parser.Headed text s.cursor.front s := by
    refine ⟨hidle, Cursor.over_ofTokens settings.hashComments text, ⟨rfl, ?_⟩, fun _ => ⟨?_, rfl⟩⟩
    · rw [hindex]
      exact Nat.zero_le _
    · rw [hbehind]
      exact .nil
  obtain ⟨t, hunit, hst, hreceived⟩ := exists_clean_unit hvalid h hclean
  obtain ⟨hpackage, head, body, xs, htook, hhead, htiles, hperm⟩ :=
    Parser.compilationUnit_tiled hstart hbehind hunit hreceived
  have hall : visible (tokens settings.hashComments text) = head ++ body := by
    rw [← htook, ← front_ofText frames settings sourceName, ← hst.front, ←
      Cursor.behind_append_ahead, ahead_of_unit hunit, List.append_nil]
  exact ⟨head, body, hall, hhead,
    .of_tiles htiles (hpackage ▸ hperm) hall (inOrder_visible_tokens _ _)⟩

theorem parse_accounts_for_imports_and_rule :
    ∃ r, parse 900 {} "orders"
        "package p.q; salience 3, import a.b rule R when then end import function c.d" = .ok r ∧
      r.errors = [] ∧ r.package.statements.map (·.2.start) = [some 25, some 57, some 36] ∧
      ∃ head body, visible (tokens true
          "package p.q; salience 3, import a.b rule R when then end import function c.d") =
            head ++ body ∧ Parser.Heading head ∧
        r.package.AccountsFor (tokens true
          "package p.q; salience 3, import a.b rule R when then end import function c.d") body := by
  have hread : (parse 900 {} "orders"
      "package p.q; salience 3, import a.b rule R when then end import function c.d").toOption.map
      (fun r => (r.errors.isEmpty, r.package.statements.map (·.2.start))) =
      some (true, [some 25, some 57, some 36]) := by
    decide +kernel
  cases h : parse 900 {} "orders"
      "package p.q; salience 3, import a.b rule R when then end import function c.d" with
  | error f =>
    rw [h] at hread
    cases hread
  | ok r =>
    rw [h] at hread
    obtain ⟨hempty, hstarts⟩ := Prod.mk.inj (Option.some.inj hread)
    have hclean := List.isEmpty_iff.1 hempty
    have hvalid : (({} : Settings)).Valid := by simp [Settings.Valid]
    exact ⟨r, rfl, hclean, hstarts, parse_accounts_for {} hvalid "orders" _ h hclean⟩

end Rulebook
