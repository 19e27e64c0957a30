import Rulebook.Proofs.ConditionParts
import Rulebook.Proofs.RuleParts

/-!
# Conditions beside each other

The conditions of a rule stand beside each other without anything between them. Each is read as if
it stood alone, if what follows it does not go on with it.
-/

namespace Rulebook

variable {frames : Nat}

open Lexeme
open Rulebook.Parser

variable {settings : Settings} {sourceName e e' : String} {r : Name} {d d' : Condition}
  {ks ks' l m : List Piece} {cs : List Char} {hashComments : Bool}

/-! ### Texts beside each other -/

def joiningKinds : List TokenKind := [.symbol .colon, .keyword .from_] ++ orKinds ++ andKinds

/-- The second text does not go on with the first one: it does not begin with a connective, `from`
or a colon, nor with the parenthesis of a call where the first text ends with a name. -/
structure Apart (hashComments : Bool) (a b : String) : Prop where
  first : nextKind (lexemes hashComments b.toList) ∉ joiningKinds
  call : (lastKind (lexemes hashComments a.toList)).isName = true →
    nextKind (lexemes hashComments b.toList) ≠ .symbol .lparen

instance (a b : String) : Decidable (Apart hashComments a b) :=
  decidable_of_iff (_ ∧ (_ → _)) ⟨fun h => ⟨h.1, h.2⟩, fun h => ⟨h.first, h.call⟩⟩

/-- A rule that consists of the text `e` is read without complaint, with the single
condition `d`. -/
def ReadsAlone (frames : Nat) (settings : Settings) (sourceName : String) (r : Name) (e : String)
    (d : Condition) : Prop :=
  ∃ x rule b, parse frames settings sourceName (ruleText r e) = .ok x ∧ x.errors = [] ∧
    x.package.rules.head? = some (.rule rule) ∧ rule.conditions = some b ∧ b.elements = [d]

/-- In a rule that consists of the text `e`, it is the `then` written behind it that ends it. -/
def EndsAlone (frames : Nat) (settings : Settings) (sourceName : String) (r : Name) (e : String) :
    Prop :=
  ∃ x rule, parse frames settings sourceName (ruleText r e) = .ok x ∧
    x.package.rules.head? = some (.rule rule) ∧ rule.consequence.location.start =
      some ("rule " ++ r.text ++ " when " ++ e ++ " then ").length

/-- What is written behind a condition: the texts `es`, each on a line of its own, and the end. -/
def behind : List String → List Char
  | [] => ' ' :: "then end".toList
  | e :: es => '\n' :: (e.toList ++ behind es)

theorem intercalate_append_behind (e : String) (es : List String) :
    ['\n'].intercalate ((e :: es).map String.toList) ++ ' ' :: "then end".toList =
      e.toList ++ behind es := by
  induction es generalizing e with
  | nil => rw [List.map_cons, List.map_nil, List.intercalate_singleton, behind]
  | cons e' es ih =>
    rw [List.map_cons, List.map_cons, List.intercalate_cons_cons,
      List.append_assoc, ← List.map_cons, ih, behind, List.append_assoc, List.singleton_append]

theorem toList_joined (e : String) (es : List String) :
    ("\n".intercalate (e :: es) ++ " then end").toList = e.toList ++ behind es := by
  rw [← intercalate_append_behind, String.toList_append, String.toList_intercalate]
  rfl

theorem behind_eq_cons (es : List String) :
    ∃ c cs, behind es = c :: cs ∧ c ∈ dividers ∧ isSeparator c = true := by
  cases es with
  | nil => exact ⟨' ', "then end".toList, rfl, by decide, by decide⟩
  | cons e es => exact ⟨'\n', _, rfl, by decide, by decide⟩

/-! ### The pieces of a condition -/

theorem afterColon_suffix (l : List Piece) : afterColon l <:+ l := by
  unfold afterColon
  split
  · exact (List.tail_suffix _).trans (List.dropWhile_suffix _)
  · exact List.suffix_refl _

theorem nextKind_append_of_ne (h : solid ks ≠ []) (m : List Piece) :
    nextKind (ks ++ m) = nextKind ks := by
  obtain ⟨x, xs, hx⟩ := List.exists_cons_of_ne_nil h
  rw [nextKind, nextKind, solid_append_of_ne h, hx]
  rfl

theorem nextKind_append_of_eq_nil (h : solid ks = []) (m : List Piece) :
    nextKind (ks ++ m) = nextKind m := by
  have htrivia : ∀ x ∈ ks, x.isTrivia = true := List.dropWhile_eq_nil_iff.1 h
  rw [nextKind, nextKind, solid, List.dropWhile_append_of_pos htrivia]
  rfl

theorem afterColon_append (h : solid ks ≠ []) (m : List Piece) :
    afterColon (ks ++ m) = afterColon ks ++ m := by
  unfold afterColon
  rw [nextKind_append_of_ne h, solid_append_of_ne h, List.tail_append_of_ne_nil h]
  split <;> rfl

theorem lastKind_of_suffix (h : l <:+ m) (hl : solid l ≠ []) : lastKind l = lastKind m := by
  obtain ⟨front, rfl⟩ := h
  have hne : (l.filter fun x => !x.isTrivia) ≠ [] := by
    obtain ⟨x, xs, hx⟩ := List.exists_cons_of_ne_nil hl
    rw [← filter_solid, hx, List.filter_cons_of_pos (by simp [isTrivia_of_solid hx])]
    exact List.cons_ne_nil _ _
  rw [lastKind_eq_getLast?, lastKind_eq_getLast?, List.filter_append,
    List.getLast?_append_of_ne_nil _ hne]

/-- Which separator it is that stands before a text does not matter. -/
theorem solid_separator_cons {c c' : Char} (hc : isSeparator c = true) (hc' : isSeparator c' = true)
    (cs : List Char) :
    solid (lexemes hashComments (c :: cs)) = solid (lexemes hashComments (c' :: cs)) := by
  rw [lexemes_separator_cons hc, lexemes_separator_cons hc', solid_cons_of_trivia rfl,
    solid_cons_of_trivia rfl]

/-- Nor whether there is one, as far as visible pieces go. -/
theorem filter_blank_cons (cs : List Char) :
    ((lexemes hashComments (' ' :: cs)).filter fun x => !Piece.isTrivia x) =
      (lexemes hashComments cs).filter fun x => !Piece.isTrivia x := by
  rw [← filter_solid, ← filter_solid (lexemes hashComments cs)]
  have hblank : solid (lexemes hashComments (' ' :: cs)) =
      solid (lexemes hashComments (cs.dropWhile isSeparator)) := by
    rw [lexemes_separator_cons (by decide), solid_cons_of_trivia rfl]
  rw [hblank]
  cases cs with
  | nil => rfl
  | cons c cs =>
    cases hc : isSeparator c with
    | false => rw [List.dropWhile_cons_of_neg (by simp [hc])]
    | true =>
      rw [List.dropWhile_cons_of_pos hc, lexemes_separator_cons hc, solid_cons_of_trivia rfl]

namespace Parser

variable {s t u : State} {whole : String} {es : List String} {ds : List Condition}

/-- What a rule that consists of the text `e` tells of it: it is scanned into the pieces `ks` before
any separator, and from these the condition `d` is read. -/
structure Standing (frames : Nat) (settings : Settings) (e : String) (ks : List Piece)
    (d : Condition) : Prop where
  pieces : ∃ blanks, lexemes settings.hashComments (' ' :: e.toList) = ks ++ blank blanks ∧
    ∀ c ∈ dividers, isSeparator c = true → ∀ cs,
      lexemes settings.hashComments ((' ' :: e.toList) ++ c :: cs) =
        ks ++ (.trivia .whitespace, blanks ++ c :: cs.takeWhile isSeparator) ::
          lexemes settings.hashComments (cs.dropWhile isSeparator)
  ne : solid ks ≠ []
  rest_ne : solid (afterColon ks) ≠ []
  kind : nextKind (afterColon ks) = .symbol .lparen ∨ (nextKind (afterColon ks)).isName = true
  follow : nextKind (afterColon ks) ∉ .endOfInput :: conditionFollow
  read : ∃ whole s u x, s.Untroubled (.ofFrames frames) settings.hashComments whole ∧
    s.Faces (afterColon ks ++ x :: thenEnd) ∧ x.isTrivia = true ∧
    (∃ cs, lexemes settings.hashComments cs = ks ++ x :: thenEnd) ∧
    conditions s = .ok d u ∧ u.collector.received = 0 ∧ u.Faces thenEnd

theorem exists_standing (hvalid : settings.Valid) (h : ReadsAlone frames settings sourceName r e d)
    (hends : EndsAlone frames settings sourceName r e) : ∃ ks, Standing frames settings e ks d := by
  obtain ⟨x, rule, b, hparse, hclean, hrule, hb, helements⟩ := h
  obtain ⟨x', rule', hparse', hrule', hthen⟩ := hends
  obtain rfl := Except.ok.inj (hparse.symm.trans hparse')
  obtain rfl := Entry.rule.inj (Option.some.inj (hrule.symm.trans hrule'))
  obtain ⟨anchor, s, es, t, found, u, hs, hface, hes, hfound, hreceived, hconditions, rfl⟩ :=
    exists_elements_of_rule hvalid hparse hclean hrule
  obtain rfl := Option.some.inj (hb.symm.trans hconditions)
  obtain rfl : es = [d] := helements
  cases elements_of_blockElements hs.trials hes (hreceived.trans hs.received.symm) with
  | more hfollow hc hcclean hrest =>
  cases hrest with
  | done =>
  have hcursor := (hs.of_ok hc hreceived).cursor
  have htext : (ruleText r e).toList =
      ("rule " ++ r.text ++ " when " ++ e ++ " ").toList ++ "then end".toList := by
    simp [ruleText]
  obtain ⟨ks₀, hlexemes, hks₀, htface⟩ := faces_of_consequence hcursor hfound htext (by
    rw [hthen]
    simp only [String.length_append, String.length_toList]
    rfl)
  obtain ⟨l, hl, hletters⟩ := exists_lexemes_before_then hlexemes hks₀
  obtain ⟨ks, blanks, hks, hbehind⟩ := exists_before_separator (List.cons_ne_nil _ _) (by decide) hl
    hletters (by simp [thenEnd])
  let x : Piece := (.trivia .whitespace, blanks ++ [' '])
  have hpieces : lexemes settings.hashComments (' ' :: (e ++ " then end").toList) =
      ks ++ x :: thenEnd := by
    have htext :
        ' ' :: (e ++ " then end").toList = (' ' :: e.toList) ++ ' ' :: "then end".toList := by
      simp
    rw [htext, hbehind ' ' (by decide) (by decide)]
    congr 2
    cases settings.hashComments <;> decide +kernel
  rw [hpieces] at hface
  have hsolid : ∀ l, s.Faces (l ++ x :: thenEnd) → solid l ≠ [] := fun l hface hnil => by
    have hkind : s.cursor.current.kind = .keyword .then_ :=
      hface.kind.trans (nextKind_append_of_eq_nil hnil _)
    rw [hkind] at hfollow
    exact hfollow (by decide)
  have hne : solid ks ≠ [] := fun hnil => by
    have hkind : nextKind (ks ++ x :: thenEnd) = .keyword .then_ := nextKind_append_of_eq_nil hnil _
    rw [afterColon_of_ne (by rw [hkind]; simp)] at hface
    exact hsolid ks hface hnil
  rw [afterColon_append hne] at hface
  have hrest := hsolid (afterColon ks) hface
  have hkind : s.cursor.current.kind = nextKind (afterColon ks) :=
    hface.kind.trans (nextKind_append_of_ne hrest _)
  exact ⟨ks, ⟨blanks, hks, hbehind⟩, hne, hrest, hkind ▸ kind_of_conditions hc, hkind ▸ hfollow,
    _, s, t, x, hs, hface, rfl, ⟨_, hpieces⟩, hc, hreceived, htface⟩

namespace Standing

theorem nextKind_eq (h : Standing frames settings e ks d) :
    nextKind (lexemes settings.hashComments e.toList) = nextKind ks := by
  obtain ⟨blanks, hks, -⟩ := h.pieces
  rw [← nextKind_blank_cons, hks, nextKind_append_of_ne h.ne]

theorem lastKind_eq (h : Standing frames settings e ks d) :
    lastKind (lexemes settings.hashComments e.toList) = lastKind (afterColon ks) := by
  obtain ⟨blanks, hks, -⟩ := h.pieces
  rw [lastKind_of_suffix (afterColon_suffix ks) h.rest_ne,
    lastKind_eq_getLast?, ← filter_blank_cons,
    hks, ← lastKind_eq_getLast?, lastKind_append_of_trivia]
  intro x hx
  unfold blank at hx
  split at hx
  · cases hx
  · obtain rfl := List.mem_singleton.1 hx
    rfl

theorem afterColon_eq (h : Standing frames settings e' ks d)
    (hapart : nextKind (lexemes settings.hashComments e'.toList) ∉ joiningKinds) :
    afterColon ks = ks :=
  afterColon_of_ne fun hcolon => by
    rw [h.nextKind_eq, hcolon] at hapart
    exact hapart (by decide)

theorem severed (h : Standing frames settings e ks d) (h' : Standing frames settings e' ks' d')
    (hapart : Apart settings.hashComments e e')
    (hm : nextKind m = nextKind (lexemes settings.hashComments e'.toList)) :
    Severed (afterColon ks) m := by
  have hfirst := hapart.first
  have hkind := h'.kind
  rw [h'.afterColon_eq hfirst, ← h'.nextKind_eq] at hkind
  refine ⟨fun hmem => ?_, fun hname => ?_⟩
  · rw [hm] at hmem
    generalize nextKind (lexemes settings.hashComments e'.toList) = kind at hfirst hkind hmem
    have htable : ∀ kind ∈ continuingKinds, kind ∈ joiningKinds ∨
        kind ≠ .symbol .lparen ∧ kind.isName = false := by decide
    rcases htable kind hmem with hjoins | ⟨hparen, hname⟩
    · exact hfirst hjoins
    · rcases hkind with hkind | hkind
      · exact hparen hkind
      · rw [hname] at hkind
        cases hkind
  · rw [hm]
    exact hapart.call (h.lastKind_eq ▸ hname)

/-- Before others, a text begins as it does alone. -/
theorem nextKind_before (h : Standing frames settings e ks d) (es : List String) :
    nextKind (lexemes settings.hashComments (' ' :: (e.toList ++ behind es))) =
      nextKind (lexemes settings.hashComments e.toList) := by
  obtain ⟨blanks, -, hbehind⟩ := h.pieces
  obtain ⟨c, rest, hrest, hdivider, hseparator⟩ := behind_eq_cons es
  rw [hrest, ← List.cons_append, hbehind c hdivider hseparator, nextKind_append_of_ne h.ne,
    h.nextKind_eq]

end Standing

/-! ### One condition after the other -/

/-- What a text is read as alone is also what it is read as before others that stand apart. -/
theorem Standing.exists_conditions (h : Standing frames settings e ks d)
    (ht : t.Untroubled (.ofFrames frames) settings.hashComments whole)
    (hface : t.Faces (afterColon (lexemes settings.hashComments (' ' :: (e.toList ++ behind es)))))
    (hsevered : ∀ m, nextKind m = nextKind (lexemes settings.hashComments (behind es)) →
      Severed (afterColon ks) m) :
    ∃ c v, conditions t = .ok c v ∧ d.Like .elsewhere c ∧ v.collector.received = 0 ∧
      t.cursor.current.kind ∉ .endOfInput :: conditionFollow ∧
      v.Faces (lexemes settings.hashComments (behind es)) := by
  obtain ⟨blanks, -, hbehind⟩ := h.pieces
  obtain ⟨whole', s, u, x, hs, hsface, hx, ⟨cs, hcs⟩, hc, hreceived, huface⟩ := h.read
  obtain ⟨c, rest, hes, hdivider, hseparator⟩ := behind_eq_cons es
  let m : List Piece := (.trivia .whitespace, blanks ++ c :: rest.takeWhile isSeparator) ::
    lexemes settings.hashComments (rest.dropWhile isSeparator)
  have hpieces : lexemes settings.hashComments (' ' :: (e.toList ++ behind es)) = ks ++ m := by
    rw [hes]
    exact hbehind c hdivider hseparator rest
  have hsolid : solid m = solid (lexemes settings.hashComments (behind es)) := by
    rw [hes, lexemes_separator_cons hseparator, solid_cons_of_trivia rfl, solid_cons_of_trivia rfl]
  rw [hpieces, afterColon_append h.ne] at hface
  obtain ⟨front, hfront⟩ := afterColon_suffix ks
  have hbehindFront :
      ∀ {cs : List Char} {m : List Piece}, lexemes settings.hashComments cs = ks ++ m →
      lexemes settings.hashComments (letters (afterColon ks ++ m)) = afterColon ks ++
      m := fun hcs => by
    rw [← hfront, List.append_assoc] at hcs
    exact lexemes_behind hcs
  obtain ⟨c, v, hcv, hlike, hclean, hvface⟩ := conditions_shared hs hsface (hbehindFront hcs) hx
    isClosing_thenEnd ht hface (hbehindFront hpieces) h.rest_ne hc hreceived huface
    (hsevered m (by rw [nextKind, hsolid]; rfl))
  refine ⟨c, v, hcv, hlike, hclean, ?_, hvface.hidden, hvface.rest.trans hsolid⟩
  rw [hface.kind, nextKind_append_of_ne h.rest_ne]
  exact h.follow

/-- What is written behind a condition begins like the next text, or with `then`. -/
theorem Standing.severed_behind (hvalid : settings.Valid) (h : Standing frames settings e ks d)
    (hes : List.Forall₂ (ReadsAlone frames settings sourceName r) es ds)
    (hends : ∀ e ∈ es, EndsAlone frames settings sourceName r e)
    (hapart : List.IsChain (Apart settings.hashComments) (e :: es))
    (hm : nextKind m = nextKind (lexemes settings.hashComments (behind es))) :
    Severed (afterColon ks) m := by
  cases hes with
  | nil =>
    have hthen : nextKind (lexemes settings.hashComments (behind [])) = .keyword .then_ := by
      cases settings.hashComments <;> decide +kernel
    rw [Severed, hm, hthen]
    exact ⟨by decide, fun _ => by decide⟩
  | @cons e' d' es ds hread _ =>
    obtain ⟨ks', h'⟩ := exists_standing hvalid hread (hends e' List.mem_cons_self)
    have hsame : nextKind (lexemes settings.hashComments (behind (e' :: es))) =
        nextKind (lexemes settings.hashComments (' ' :: (e'.toList ++ behind es))) :=
      congrArg (fun l => (l.head?.map Prod.fst).getD .endOfInput)
        (solid_separator_cons (by decide) (by decide) _)
    exact h.severed h' (List.isChain_cons_cons.1 hapart).1
      (hm.trans (hsame.trans (h'.nextKind_before es)))

/-- Texts that stand apart are read one after the other. -/
theorem exists_elements (hvalid : settings.Valid)
    (h : List.Forall₂ (ReadsAlone frames settings sourceName r) es ds)
    (hends : ∀ e ∈ es, EndsAlone frames settings sourceName r e) (e : String)
    (hapart : List.IsChain (Apart settings.hashComments) (e :: es))
    (ht : t.Untroubled (.ofFrames frames) settings.hashComments whole)
    (hface : t.Faces (lexemes settings.hashComments (behind es))) :
    ∃ cs u, Elements t cs u ∧ List.Forall₂ (Condition.Like .elsewhere) ds cs ∧
      u.collector.received = 0 ∧ u.Faces thenEnd := by
  induction h generalizing e t with
  | nil =>
    have hthen : solid (lexemes settings.hashComments (behind [])) = thenEnd := by
      cases settings.hashComments <;> decide +kernel
    have hface : t.Faces thenEnd := ⟨hface.hidden, hface.rest.trans hthen⟩
    exact ⟨[], t, .done (by rw [hface.kind]; decide), .nil, ht.received, hface⟩
  | @cons e' d es ds hread hes ih =>
    obtain ⟨hfirst, hchain⟩ := List.isChain_cons_cons.1 hapart
    have hlater : ∀ e ∈ es, EndsAlone frames settings sourceName r e := fun e he =>
      hends e (List.mem_cons_of_mem _ he)
    obtain ⟨ks, hstanding⟩ := exists_standing hvalid hread (hends e' List.mem_cons_self)
    have hface :
        t.Faces (afterColon (lexemes settings.hashComments (' ' :: (e'.toList ++ behind es)))) := by
      rw [afterColon_of_ne fun hcolon => ?_]
      · exact ⟨hface.hidden, hface.rest.trans (solid_separator_cons (by decide) (by decide) _)⟩
      · have hjoins := hfirst.first
        rw [← hstanding.nextKind_before es, hcolon] at hjoins
        exact hjoins (by decide)
    obtain ⟨c, v, hc, hlike, hclean, hfollow, hvface⟩ := hstanding.exists_conditions ht hface
      fun m hm => hstanding.severed_behind hvalid hes hlater hchain hm
    obtain ⟨cs, u, hcs, hlikes, hu, huface⟩ := ih hlater e' hchain (ht.of_ok hc hclean) hvface
    exact ⟨c :: cs, u, .more hfollow hc (hclean.trans ht.received.symm) hcs, .cons hlike hlikes, hu,
      huface⟩

end Parser

/-- Conditions that are read alone are read alike beside each other, and nothing else is read
there: if the `then` written behind each is the one that ends it, and none goes on with the one
before it. -/
theorem neighbours_read_alone (hvalid : settings.Valid) (sourceName : String) (r : Name)
    {es : List String} {ds : List Condition}
    (h : List.Forall₂ (ReadsAlone frames settings sourceName r) es ds)
    (hends : ∀ e ∈ es, EndsAlone frames settings sourceName r e)
    (hapart : List.IsChain (Apart settings.hashComments) es) :
    ∃ x rule b, parse frames settings sourceName (ruleText r ("\n".intercalate es)) = .ok x ∧
      x.errors = [] ∧
      x.package.rules = [.rule rule] ∧ rule.name = r.text ∧ rule.conditions = some b ∧
      List.Forall₂ (Condition.Like .elsewhere) ds b.elements := by
  let text := ruleText r ("\n".intercalate es)
  let start := (State.ofText frames settings sourceName text).begun
  have hface := faces_ofText frames settings sourceName text
  rw [lexemes_ruleText] at hface
  have hkind : start.cursor.current.kind = .keyword .rule := hface.kind
  obtain ⟨rule, t, anchor, cs, hrule, hrules, hclean, htface, hname, hconditions, hlike⟩ :=
    ruleStatement_of_elements (P := List.Forall₂ (Condition.Like .elsewhere) ds)
      (amid_ofText frames settings sourceName text).untroubled.begun ⟨hface.hidden, hface.rest⟩
      fun t ht hface => by
        cases h with
        | nil =>
          have hpieces : lexemes settings.hashComments
              (' ' :: ("\n".intercalate [] ++ " then end").toList) =
                (.trivia .whitespace, [' ', ' ']) :: thenEnd := by
            cases settings.hashComments <;> decide +kernel
          rw [hpieces, afterColon_of_ne (by decide)] at hface
          have hface : t.Faces thenEnd := hface.of_trivia rfl
          exact ⟨[], t, blockElements_of_elements (.done (by rw [hface.kind]; decide)), .nil,
            ht.received, hface⟩
        | @cons e d es ds hread hes =>
          rw [toList_joined] at hface
          have hlater : ∀ e ∈ es, EndsAlone frames settings sourceName r e := fun e he =>
            hends e (List.mem_cons_of_mem _ he)
          obtain ⟨ks, hstanding⟩ := exists_standing hvalid hread (hends e List.mem_cons_self)
          obtain ⟨c, v, hc, hlike, hclean, hfollow, hvface⟩ := hstanding.exists_conditions ht hface
            fun m hm => hstanding.severed_behind hvalid hes hlater hapart hm
          obtain ⟨cs, u, hcs, hlikes, hu, huface⟩ :=
            exists_elements hvalid hes hlater e hapart (ht.of_ok hc hclean) hvface
          exact ⟨c :: cs, u, blockElements_of_elements (.more hfollow hc
            (hclean.trans ht.received.symm) hcs), .cons hlike hlikes, hu, huface⟩
  have hstatement : statement start = .ok () t := by
    unfold statement
    rw [bind_of_ok (current_eq _)]
    simp only [hkind]
    exact bind_of_ok hrule
  obtain ⟨x, hx, hxclean, hxrules⟩ := parse_of_statement
    (by rw [show (State.ofText ..).cursor.current.kind = _ from hkind]; decide) hstatement
    htface hclean
  exact ⟨x, rule, _, hx, hxclean, hxrules.trans hrules, hname, hconditions, hlike⟩

/-- What a rule that consists of a text gives: the number of its diagnostics, the number of its
conditions and where its consequence begins. -/
def outcome (frames : Nat) (settings : Settings) (sourceName : String) (r : Name)
    (conditions : String) : Option (Nat × Option Nat × Option Nat) :=
  (parse frames settings sourceName (ruleText r conditions)).toOption.map fun x =>
    match x.package.rules.head? with
    | some (.rule rule) =>
      (x.errors.length, rule.conditions.map (·.elements.length), rule.consequence.location.start)
    | _ => (x.errors.length, none, none)

theorem alone_of_outcome
    (h : outcome frames settings sourceName r e = some (0, some 1,
      some ("rule " ++ r.text ++ " when " ++ e ++ " then ").length)) :
    ∃ d, ReadsAlone frames settings sourceName r e d ∧
      EndsAlone frames settings sourceName r e := by
  obtain ⟨x, hx, h⟩ := Option.map_eq_some_iff.1 h
  have hparse : parse frames settings sourceName (ruleText r e) = .ok x := by
    cases hp : parse frames settings sourceName (ruleText r e) with
    | error f => rw [hp] at hx; cases hx
    | ok y => rw [hp] at hx; cases hx; rfl
  split at h
  · next rule hrule =>
    obtain ⟨herrors, hcounted⟩ := Prod.mk.inj h
    obtain ⟨hcount, hstart⟩ := Prod.mk.inj hcounted
    obtain ⟨b, hb, hlength⟩ := Option.map_eq_some_iff.1 hcount
    obtain ⟨d, hd⟩ := List.length_eq_one_iff.1 hlength
    exact ⟨d, ⟨x, rule, b, hparse, List.length_eq_zero_iff.1 herrors, hrule, hb, hd⟩,
      x, rule, hparse, hrule, hstart⟩
  · obtain ⟨-, hnone⟩ := Prod.mk.inj h
    cases hnone

/-- Conditions each of which ends in another way. -/
def fourConditions : List String :=
  ["$p : Person(age > 1) from s.people[0]", "not Dog()", "(A() or B());", "eval(x)"]

theorem neighbours_read_alone_four :
    ∃ ds, List.Forall₂ (ReadsAlone 900 {} "orders" orders) fourConditions ds ∧
      ∃ x rule b, parse 900 {} "orders" (ruleText orders ("\n".intercalate fourConditions)) =
        .ok x ∧ x.errors = [] ∧ x.package.rules = [.rule rule] ∧ rule.name = "orders" ∧
        rule.conditions = some b ∧ List.Forall₂ (Condition.Like .elsewhere) ds b.elements := by
  have hvalid : ({} : Settings).Valid := by simp [Settings.Valid]
  have houtcome : ∀ e ∈ fourConditions, outcome 900 {} "orders" orders e =
      some (0, some 1, some ("rule " ++ orders.text ++ " when " ++ e ++ " then ").length) := by
    decide +kernel
  have hends : ∀ e ∈ fourConditions, EndsAlone 900 {} "orders" orders e := fun e he =>
    (alone_of_outcome (houtcome e he)).elim fun _ h => h.2
  obtain ⟨ds, hds⟩ : ∃ ds, List.Forall₂ (ReadsAlone 900 {} "orders" orders) fourConditions ds := by
    clear hends
    generalize fourConditions = es at houtcome
    induction es with
    | nil => exact ⟨[], .nil⟩
    | cons e es ih =>
      obtain ⟨d, hd, -⟩ := alone_of_outcome (houtcome e List.mem_cons_self)
      obtain ⟨ds, hds⟩ := ih fun e he => houtcome e (List.mem_cons_of_mem _ he)
      exact ⟨d :: ds, .cons hd hds⟩
  exact ⟨ds, hds, neighbours_read_alone hvalid "orders" orders hds hends (by decide +kernel)⟩

/-- Texts that are read alone without complaint, one condition each, and are not read so one below
the other: the second one is taken for the arguments of a call, or for code behind `then`, or
refused for its colon. -/
theorem neighbours_merge :
    [("A() from x", "(B())"), ("A() then x", "B()"), ("A()", ": B()")].map (fun (a, b) =>
      [a, b, "\n".intercalate [a, b]].map fun e =>
        (outcome 900 {} "orders" orders e).map fun (errors, elements, _) => (errors, elements)) =
      [[some (0, some 1), some (0, some 1), some (0, some 1)],
        [some (0, some 1), some (0, some 1), some (0, some 1)],
        [some (0, some 1), some (0, some 1), some (1, some 1)]] := by
  decide +kernel

end Rulebook
