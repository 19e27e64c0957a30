import Rulebook.Proofs.Inert
import Rulebook.Proofs.LocalityConditions

/-!
# Declarations before any continuation

Parameters, imports, globals, functions and templates. Whether a parameter has a type is told by a
token that may be far ahead, but not behind the parameter.
-/

namespace Rulebook

open Rulebook.Parser

def Trails : Cursor → TokenKind → Prop := fun _ kind =>
  kind ∈ [.symbol .semicolon, .symbol .dot]

namespace Parser

set_option synthInstance.maxSize 100000

variable {α β : Type} {k : Nat} {s t u v : State} {continues : Cursor → TokenKind → Prop}

/-! ### Visible tokens in common -/

/-- What two texts have in common is at the front of what is ahead in both. Something of it is left
wherever a production ends before the brink. -/
theorem State.Alongside.exists_ahead (h : s.Alongside k t) (hsu : s.Evolves u)
    (hbrink : ¬u.cursor.AtBrink k) : ∃ w r r', s.cursor.ahead = w ++ r ∧ t.cursor.ahead = w ++ r' ∧
      s.cursor.ahead.length < w.length + u.cursor.ahead.length := by
  obtain ⟨x, r, r', hs, ht, hlength⟩ := h.cursor.exists_rest
  refine ⟨visible x, visible r, visible r', ?_, ?_, ?_⟩
  · rw [Cursor.ahead, hs, visible_append]
  · rw [Cursor.ahead, ht, visible_append]
  · have hseek := Nat.lt_of_not_le hbrink
    have hr : r = u.cursor.front.toList.drop k := by
      rw [hsu.front, ← hlength, ← List.drop_drop,
        show s.cursor.front.toList.drop s.cursor.index = _ from hs, List.drop_left]
    have hu : u.cursor.ahead = _ := Cursor.visible_drop_seek (hsu.triviaVisible.trans h.hidden)
      (Nat.lt_of_lt_of_le hseek (hsu.front ▸ h.cursor.first_le))
    have hsuffix :
        visible r <:+ visible (u.cursor.front.toList.drop (u.cursor.seek u.cursor.index + 1)) :=
      hr ▸ (List.drop_suffix_drop_left _ hseek).filter _
    rw [Cursor.ahead, hs, visible_append, List.length_append, hu, List.length_cons]
    have := hsuffix.length_le
    omega

/-! ### Array suffixes -/

theorem bracketPairs_append {w r : List Token} (hlt : 2 * bracketPairs (w ++ r) < w.length)
    (hnext : ∀ a ∈ (w.drop (2 * bracketPairs (w ++ r))).head?, a.kind = .symbol .lbracket →
      2 * bracketPairs (w ++ r) + 1 < w.length) (r' : List Token) :
    bracketPairs (w ++ r') = bracketPairs (w ++ r) := by
  generalize hn : w.length = n
  induction n using Nat.strongRecOn generalizing w with
  | ind n ih =>
    match w with
    | [] => exact absurd hlt (Nat.not_lt_zero _)
    | [a] =>
      have hzero : bracketPairs ([a] ++ r) = 0 := by
        rw [List.length_singleton] at hlt
        omega
      rw [hzero] at hnext
      have ha : a.kind ≠ .symbol .lbracket := fun heq => Nat.lt_irrefl 1 (hnext a rfl heq)
      rw [hzero]
      cases r' with
      | nil => rfl
      | cons b bs => exact if_neg fun h => ha h.1
    | a :: b :: w =>
      rw [List.cons_append, List.cons_append] at hlt hnext ⊢
      by_cases hpair : a.kind = .symbol .lbracket ∧ b.kind = .symbol .rbracket
      · rw [bracketPairs, if_pos hpair] at hlt hnext
        rw [List.cons_append, List.cons_append, bracketPairs, if_pos hpair, bracketPairs,
          if_pos hpair]
        rw [List.length_cons, List.length_cons] at hlt hnext hn
        rw [Nat.mul_add_one, List.drop_succ_cons, List.drop_succ_cons] at hnext
        rw [ih w.length (by omega) (by omega) (fun c hc hk => ?_) rfl]
        have := hnext c hc hk
        omega
      · rw [List.cons_append, List.cons_append, bracketPairs, if_neg hpair, bracketPairs,
          if_neg hpair]

theorem ahead_of_arraySuffixes {first a : α} {grow : α → α} (hs : s.cursor.triviaVisible = false)
    (h : arraySuffixes first grow s = .ok a u) :
    u.cursor.ahead = s.cursor.ahead.drop (2 * bracketPairs s.cursor.ahead) := by
  have hends := (Repetition.arraySuffixes grow).rolls.ends first s
  generalize hr : repeatWhile first (fun _ => nextIsSymbol .lbracket) _ s = r at hends
  replace hr := hr.symm.trans h
  clear h
  induction hends with
  | unasked | broken => cases hr
  | @stopped b s v hno =>
    cases hr
    obtain ⟨hk, rfl⟩ := EStateM.Result.ok.inj hno
    have hk := of_decide_eq_false hk
    rw [Cursor.current_of_hidden hs] at hk
    have hzero : bracketPairs s.cursor.ahead = 0 := by
      cases hahead : s.cursor.ahead with
      | nil => rfl
      | cons b bs =>
        rw [hahead] at hk
        cases bs with
        | nil => rfl
        | cons c cs => exact if_neg fun h => hk h.1
    rw [hzero]
    rfl
  | @round b c s v w r hyes hbody _ ih =>
    obtain ⟨hk, rfl⟩ := EStateM.Result.ok.inj hyes
    have hk := of_decide_eq_true hk
    have hne : s.cursor.current.kind ≠ .endOfInput := by rw [hk]; simp
    rw [bind_of_ok (advance_eq s)] at hbody
    obtain ⟨_, y, hy, hbody⟩ := bind_eq_ok.1 hbody
    obtain ⟨rfl, rfl⟩ := pure_ok hbody
    obtain ⟨rfl, hk', rfl⟩ := expect_of_ok hy
    have hs' : s.advanced.cursor.triviaVisible = false := (Cursor.triviaVisible_consume _).trans hs
    have hne' : s.advanced.cursor.current.kind ≠ .endOfInput := by rw [hk']; simp
    have hahead : s.cursor.ahead = s.cursor.current :: s.advanced.cursor.current ::
        s.advanced.advanced.cursor.ahead := by
      rw [Cursor.ahead_consume hs hne]
      exact congrArg _ (Cursor.ahead_consume hs' hne')
    rw [ih ((Cursor.triviaVisible_consume _).trans hs') hr, hahead, bracketPairs, if_pos ⟨hk, hk'⟩]
    rfl

/-! ### Parameters -/

theorem isUntyped_of_ne (h : s.cursor.current.isName = false) : isUntyped s = .ok false s := by
  unfold isUntyped
  refine (bind_of_ok (current_eq s)).trans ?_
  rw [h]
  rfl

theorem exists_isUntyped (hs : s.cursor.triviaVisible = false) : ∃ b, isUntyped s = .ok b s := by
  cases h : s.cursor.current.isName with
  | false => exact ⟨_, isUntyped_of_ne h⟩
  | true => exact ⟨_, isUntyped_eq hs h⟩

theorem advanced_of_dottedName {text : String} (h : dottedName s = .ok text u)
    (hdot : s.advanced.cursor.current.kind ≠ .symbol .dot) : u = s.advanced := by
  obtain ⟨first, v, hv, h⟩ := bind_eq_ok.1 h
  rw [name_eq] at hv
  split at hv
  · next hname =>
    obtain ⟨rfl, rfl⟩ := EStateM.Result.ok.inj hv
    have hstop : nextIsSymbol .dot s.advanced = .ok false s.advanced :=
      congrArg (EStateM.Result.ok · _) (decide_eq_false hdot)
    exact (EStateM.Result.ok.inj (h.symm.trans
      (@repeatWhile_unasked _ _ (fun _ => nextIsSymbol .dot) _ _ hstop))).2
  · cases hv

theorem ahead_of_typeName {text : String} {ts : List Token} {a : Token}
    (hs : s.cursor.triviaVisible = false) (hne : s.cursor.current.kind ≠ .endOfInput)
    (hahead : s.cursor.ahead = a :: ts) (h : typeName s = .ok text u) :
    u.cursor.ahead.length + 2 * bracketPairs ts ≤ ts.length := by
  have hshorter := Eager.shortens typeName hs h
  rw [hahead, List.length_cons] at hshorter
  by_cases hzero : bracketPairs ts = 0
  · omega
  · have hbracket : ∃ b bs, ts = b :: bs ∧ b.kind = .symbol .lbracket := by
      match ts with
      | [] | [_] => exact absurd rfl hzero
      | b :: c :: bs =>
        refine ⟨b, c :: bs, rfl, ?_⟩
        by_contra hk
        exact hzero (if_neg fun h => hk h.1)
    obtain ⟨b, bs, rfl, hb⟩ := hbracket
    have hs' : s.advanced.cursor.triviaVisible = false := (Cursor.triviaVisible_consume _).trans hs
    have hadvanced : s.advanced.cursor.ahead = b :: bs :=
      (List.cons.inj ((Cursor.ahead_consume hs hne).symm.trans hahead)).2
    have hkind : s.advanced.cursor.current.kind = .symbol .lbracket := by
      rw [Cursor.current_of_hidden hs', hadvanced]
      exact hb
    obtain ⟨base, v, hv, h⟩ := bind_eq_ok.1 h
    obtain rfl := advanced_of_dottedName hv (by rw [hkind]; simp)
    have hless : nextIsSymbol .less s.advanced = .ok false s.advanced :=
      congrArg (EStateM.Result.ok · _) (decide_eq_false (by rw [hkind]; simp))
    rw [bind_of_ok hless, if_neg Bool.false_ne_true] at h
    have hsuffixes : arraySuffixes base (· ++ "[]") s.advanced = .ok text u := h
    have hle := two_mul_bracketPairs_le (b :: bs)
    rw [ahead_of_arraySuffixes hs' hsuffixes, hadvanced, List.length_drop]
    omega

def parameterFrom (untyped : Bool) : Parser Parameter := do
  let type ← (if untyped then pure none else some <$> typeName)
  let name ← name
  let type ← arraySuffixes type fun t => some (t.getD "Object" ++ "[]")
  return ⟨type, name.text⟩

instance (untyped : Bool) : Orderly (parameterFrom untyped) := by
  unfold parameterFrom; infer_instance

theorem parameter_eq : parameter = isUntyped >>= parameterFrom := by
  unfold parameter parameterFrom
  congr 1
  funext untyped
  cases untyped <;> rfl

namespace Local

instance (x : String × Nat) : Local anything (genericRound x) := by
  unfold genericRound; infer_instance

instance : Local anything genericArguments := by
  have hloop := Local.repeatWhile Repetition.genericArguments.rolls
  unfold genericArguments
  infer_instance

instance (first : α) (grow : α → α) : Local anything (arraySuffixes first grow) :=
  Local.repeatWhile (Repetition.arraySuffixes grow).rolls first

instance : Local anything typeName := by unfold typeName; infer_instance

instance (untyped : Bool) : Local anything (parameterFrom untyped) := by
  unfold parameterFrom; infer_instance

end Local

/-- A parameter passes the pairs of brackets behind its first name, and where it has a type, what
stands behind them. -/
theorem length_ahead_of_parameterFrom {untyped : Bool} {p : Parameter} {ts : List Token} {a : Token}
    (hs : s.cursor.triviaVisible = false) (hne : s.cursor.current.kind ≠ .endOfInput)
    (hahead : s.cursor.ahead = a :: ts) (h : parameterFrom untyped s = .ok p u) :
    u.cursor.ahead.length + 2 * bracketPairs ts + (if untyped then 0 else 1) ≤ ts.length := by
  unfold parameterFrom at h
  obtain ⟨type, v, hv, h⟩ := bind_eq_ok.1 h
  obtain ⟨token, w, hw, h⟩ := bind_eq_ok.1 h
  obtain ⟨type', x, hx, h⟩ := bind_eq_ok.1 h
  obtain ⟨-, rfl⟩ := pure_ok h
  have hvw := Orderly.evolves_ok name hw
  have hwx := Orderly.evolves_ok (arraySuffixes type _) hx
  cases untyped with
  | true =>
    obtain ⟨-, rfl⟩ := pure_ok hv
    rw [name_eq] at hw
    split at hw
    case isFalse => cases hw
    obtain ⟨-, rfl⟩ := EStateM.Result.ok.inj hw
    have hs' : v.advanced.cursor.triviaVisible = false := (Cursor.triviaVisible_consume _).trans hs
    have hadvanced : v.advanced.cursor.ahead = ts :=
      (List.cons.inj ((Cursor.ahead_consume hs hne).symm.trans hahead)).2
    have hle := two_mul_bracketPairs_le ts
    rw [ahead_of_arraySuffixes hs' hx, hadvanced, List.length_drop, if_pos rfl]
    omega
  | false =>
    obtain ⟨text, htext, -⟩ := map_eq_ok hv
    have hsv := Orderly.evolves_ok typeName htext
    have htype := ahead_of_typeName hs hne hahead htext
    have hname := Eager.shortens name (hsv.triviaVisible.trans hs) hw
    have hle := Cursor.length_ahead_le hwx.front hwx.index
    rw [if_neg Bool.false_ne_true]
    omega

/-- Whether a parameter has a type is told by what the parameter takes, or by the token
behind it. -/
theorem isUntyped_again {untyped : Bool} {p : Parameter} (h : s.Alongside k t)
    (hs : isUntyped s = .ok untyped s) (hu : parameterFrom untyped s = .ok p u)
    (hbrink : ¬u.cursor.AtBrink k) : isUntyped t = .ok untyped t := by
  have hsu := Orderly.evolves_ok (parameterFrom untyped) hu
  have hcurrent := h.cursor.current_eq fun hno => hbrink (hsu.atBrink hno)
  cases hname : s.cursor.current.isName with
  | false =>
    obtain ⟨rfl, -⟩ := EStateM.Result.ok.inj ((isUntyped_of_ne hname).symm.trans hs)
    exact isUntyped_of_ne (hcurrent ▸ hname)
  | true =>
    have hne := Eager.ne_endOfInput_of_isName hname
    obtain ⟨w, r, r', hahead, hahead', hlength⟩ := h.exists_ahead hsu hbrink
    match w with
    | [] =>
      rw [hahead] at hlength
      have := Cursor.length_ahead_le hsu.front hsu.index
      rw [hahead] at this
      simp only [List.nil_append, List.length_nil, Nat.zero_add] at hlength this
      omega
    | a :: w =>
      rw [List.cons_append] at hahead hahead'
      have hpassed := length_ahead_of_parameterFrom h.hidden hne hahead hu
      rw [isUntyped_eq h.hidden hname, lookahead_of_drop h.hidden, hahead, Nat.add_comm 1] at hs
      rw [isUntyped_eq h.symm.hidden (hcurrent ▸ hname), lookahead_of_drop h.symm.hidden, hahead',
        Nat.add_comm 1]
      simp only [List.drop_succ_cons, List.drop_zero] at hs ⊢
      rw [hahead, List.length_cons, List.length_cons] at hlength
      generalize hn : bracketPairs (w ++ r) = n at hs hpassed
      have hlt : 2 * n < w.length := by
        split at hpassed <;> omega
      have hdrop : ∀ r : List Token, (w ++ r).drop (2 * n) = w.drop (2 * n) ++ r := fun r =>
        List.drop_append_of_le_length (Nat.le_of_lt hlt)
      obtain ⟨b, bs, hb⟩ : ∃ b bs, w.drop (2 * n) = b :: bs :=
        List.exists_cons_of_ne_nil (by simpa using hlt)
      have hpairs : bracketPairs (w ++ r') = n := by
        subst hn
        refine bracketPairs_append hlt (fun c hc hk => ?_) r'
        rw [hdrop, hb] at hs
        rw [hb] at hc
        obtain rfl := Option.some.inj hc
        obtain rfl : untyped = false := by
          rw [← (EStateM.Result.ok.inj hs).1, List.cons_append, List.headD_cons, hk]
          rfl
        rw [if_neg Bool.false_ne_true] at hpassed
        omega
      rw [hpairs, hdrop, hb]
      rw [hdrop, hb] at hs
      obtain ⟨rfl, -⟩ := EStateM.Result.ok.inj hs
      rfl

namespace Local

instance : Local anything parameter := of_eager fun {k s t} h hbrink => by
  refine ⟨fun {p u} hu hclean hle hfree => ?_⟩
  obtain ⟨untyped, hs⟩ := exists_isUntyped h.hidden
  rw [parameter_eq, bind_of_ok hs] at hu
  rw [parameter_eq, bind_of_ok (isUntyped_again h hs hu (uncontinued_anything.1 hfree))]
  exact Local.again _ h hu hclean hle hfree

instance : Local anything parameterList := by
  have hloop := fun first : Parameter => Local.repeatWhile Repetition.parameterList.rolls [first]
  unfold parameterList
  infer_instance

instance : Local continues parameters := by
  unfold parameters; infer_instance

/-! ### Names of declarations -/

instance : Local continues title := of_eager fun {k s t} h hbrink => by
  have htaken : ∀ text : String, LocalFrom continues k s t (do let _ ← advance; return text) :=
    fun _ => (advance_from h hbrink).bind h.hidden fun _ _ huv => from_ huv
  unfold title
  refine .current_bind h hbrink ?_
  split
  · exact htaken _
  · split
    · exact htaken _
    · exact .of_error rfl

end Local

def targetGoesOn : String × Bool → Parser Bool :=
  fun (_, closed) => do return !closed && (← nextIsSymbol .dot)

theorem targetGoesOn_eq (x : String × Bool) (s : State) : targetGoesOn x s =
    .ok (!x.2 && decide (s.cursor.current.kind = .symbol .dot)) s := rfl

instance (x : String × Bool) : Orderly (targetGoesOn x) := by unfold targetGoesOn; infer_instance

instance (x : String × Bool) : Tokenwise (targetGoesOn x) := by unfold targetGoesOn; infer_instance

def importEnd (text : String) : Parser (String × Bool) := do
  let token ← current
  if token.kind = .misc ∧ token.text = "*" then
    let _ ← advance
    return (text ++ ".*", true)
  else
    let part ← name
    return (text ++ "." ++ part.text, false)

instance (text : String) : Orderly (importEnd text) := by unfold importEnd; infer_instance

instance (text : String) : Tokenwise (importEnd text) := by unfold importEnd; infer_instance

instance (text : String) : Eager (importEnd text) := .of_current fun s => by
  split
  · next h => exact .bind_left (.advance (by rw [h.1]; simp))
  · exact Eager.from_ s

namespace Local

instance (text : String) : Local continues (importEnd text) := of_eager fun {k s t} h hbrink => by
  unfold importEnd
  refine .current_bind h hbrink ?_
  split
  · exact (advance_from h hbrink).bind h.hidden fun _ _ huv => from_ huv
  · exact from_ h

instance (x : String × Bool) : Tokenwise (importPart x) :=
  (inferInstance : Tokenwise (advance >>= fun _ => importEnd x.1))

instance (x : String × Bool) : Local continues (importPart x) :=
  (inferInstance : Local continues (advance >>= fun _ => importEnd x.1))

theorem rounds_importPart (n : Nat) (x : String × Bool) :
    Local Trails (Parser.rounds targetGoesOn importPart n x) := by
  induction n generalizing x with
  | zero => unfold Parser.rounds; infer_instance
  | succ n ih =>
    obtain ⟨text, closed⟩ := x
    refine ⟨fun {k s t} h => ?_⟩
    have hround :=
      fun s => @Turns.rounds_succ _ s _ importPart _ _ (targetGoesOn_eq (text, closed) s) n
    cases closed with
    | true => exact .of_step (hround s) (hround t) h rfl
    | false =>
      have hchoice : ∀ s, Parser.rounds targetGoesOn importPart (n + 1) (text, false) s =
          (nextIs [.symbol .dot] >>= fun found => if found then
            importPart (text, false) >>= Parser.rounds targetGoesOn importPart n
          else return (text, false)) s :=
        fun s => (hround s).trans ((bind_of_ok (nextIs_eq _ s)).trans (by simp)).symm
      have hdot : [.symbol .dot] ⊆ [TokenKind.symbol .semicolon, .symbol .dot] := by decide
      exact (choose_from h fun _ hkind => hdot hkind).congr (hchoice s) (hchoice t)

instance : Local Trails importTarget := by
  have hloop := fun first => of_rolls (Repetition.importTarget.rolls : Rolls targetGoesOn _) first
    (rounds_importPart · first)
  unfold importTarget
  infer_instance

/-! ### What does not read -/

instance (change : Package → Package) : Local continues (declare change) where
  from_ {k s t} h := by
    have htrials := h.trials
    refine .of_step (declare_eq change s) ?_ (v := if 0 < s.trials then t else t.declared change) ?_
      ?_
    · rw [declare_eq, htrials]
    · split
      · exact h
      · exact ⟨h.cursor, h.hidden, h.trials, h.stack⟩
    · split <;> rfl

instance (e : Event) : Local continues (note e) where
  from_ h := .of_step (note_eq e _) (note_eq e _) ⟨h.cursor, h.hidden, h.trials, h.stack⟩ rfl

instance : Local continues inTrial where
  from_ {k s t} h := by
    have hlook : ∀ s, inTrial s = .ok (decide (0 < s.trials)) s := fun _ => rfl
    exact .of_step (hlook s) ((hlook t).trans (by rw [h.trials])) h rfl

end Local

namespace Tokenwise

instance (change : Package → Package) : Tokenwise (declare change) where
  moves {s t _} _ h _ := by
    rw [declare_eq] at h
    cases h
    refine .inl ?_
    split <;> rfl

instance (e : Event) : Tokenwise (note e) where
  moves _ h _ := .inl (by cases h; rfl)

instance : Tokenwise inTrial := of_look fun _ => rfl

instance : Tokenwise curlyChunk := by unfold curlyChunk; infer_instance

end Tokenwise

namespace Local

/-! ### Declarations -/

instance : Local Trails (skip .semicolon) := by
  have hsemicolon : [.symbol .semicolon] ⊆ [TokenKind.symbol .semicolon, .symbol .dot] := by decide
  rw [skip_eq_choose]
  exact choose fun _ _ hkind => hsemicolon hkind

instance : Local Trails importStatement := by unfold importStatement; infer_instance

instance : Local Trails functionImport := by unfold functionImport; infer_instance

instance : Local Trails globalStatement := by unfold globalStatement; infer_instance

instance : Local Trails templateStatement := by
  have hslot : Local anything slot := by
    have : Local anything (skip .semicolon) := inferInstance
    unfold slot
    infer_instance
  have hloop := Local.repeatWhile Repetition.template.rolls []
  unfold templateStatement
  infer_instance

end Local

/-! ### Functions -/

/-- What takes two tokens takes the one after the next one. -/
theorem seek_lt_of_two {p : Parser α} {f : α → Parser β} [Orderly p] [∀ a, Orderly (f a)] [Eager p]
    [∀ a, Eager (f a)] {b : β} (hs : s.cursor.triviaVisible = false) (h : (p >>= f) s = .ok b u) :
    s.cursor.seek (s.cursor.seek s.cursor.index + 1) < u.cursor.index := by
  obtain ⟨a, v, hv, hu⟩ := bind_eq_ok.1 h
  have hsv := Orderly.evolves_ok p hv
  have hlt := hsv.seek_lt hs (Eager.takes p hv)
  have hlt' := (Orderly.evolves_ok (f a) hu).seek_lt (hsv.triviaVisible.trans hs) (Eager.takes _ hu)
  refine Nat.lt_of_le_of_lt ?_ hlt'
  have hmoved : (s.cursor.rewind (s.cursor.seek s.cursor.index + 1)).AtBrink
      (s.cursor.seek (s.cursor.seek s.cursor.index + 1)) := Nat.le_refl _
  exact hmoved.mono (by rw [hsv.cursor]; rfl) hlt

theorem LocalFrom.two_bind {f : Token → Token → Parser β} (h : s.Alongside k t)
    (htwo : ∀ {b u}, f s.cursor.current (s.cursor.lookahead 2) s = .ok b u →
      s.cursor.seek (s.cursor.seek s.cursor.index + 1) < u.cursor.index)
    (hf : LocalFrom continues k s t (f s.cursor.current (s.cursor.lookahead 2))) :
    LocalFrom continues k s t (current >>= fun a => peek 1 >>= f a) := by
  have hlook : ∀ s : State, (current >>= fun a => peek 1 >>= f a) s =
      f s.cursor.current (s.cursor.lookahead 2) s := fun s =>
    (bind_of_ok (current_eq s)).trans (bind_of_ok (peek_eq 1 s))
  refine ⟨fun {b u} hu hclean hle hfree => ?_⟩
  rw [hlook] at hu
  have hnext := Nat.lt_of_lt_of_le (htwo hu) hle
  have hbrink : ¬s.cursor.AtBrink k := fun hno => by
    have hle := Cursor.le_seek (Nat.le_trans h.cursor.index_le h.cursor.first_le)
    have hmoved : (s.cursor.rewind (s.cursor.seek s.cursor.index + 1)).AtBrink k :=
      hno.mono rfl (Nat.le_succ_of_le hle)
    exact absurd hnext (Nat.not_lt.2 hmoved)
  rw [hlook, ← h.cursor.current_eq hbrink, ← h.cursor.lookahead_eq hnext]
  exact hf.again hu hclean hle hfree

def functionParts : Parser (Token × Option String × Token × List Parameter × String) := do
  let token ← keyword .function
  let returnType ← returnType?
  let name ← name
  let parameters ← parameters
  let body ← curlyChunk
  return (token, returnType, name, parameters, body)

theorem functionStatement_eq : functionStatement = (do
    let (token, returnType, name, parameters, body) ← functionParts
    let dialect := dialectOf (← get).package.attributes
    let node : Function :=
      ⟨← close (.ofToken token), name.text, returnType, parameters, withoutDelimiters body, dialect⟩
    declare fun p => { p with functions := p.functions ++ [node] }
    return node) := by
  unfold functionStatement functionParts
  simp only [bind_assoc, pure_bind]

instance : Orderly functionParts := by unfold functionParts; infer_instance

instance : Inert functionParts := by unfold functionParts; infer_instance

instance : Eager parameters := by unfold parameters; infer_instance

namespace Local

instance : Local continues curlyChunk := by unfold curlyChunk; infer_instance

variable (continues) in
theorem returnType?_bind (f : Option String → Token → Parser β) [∀ r n, Local continues (f r n)]
    [∀ r n, Orderly (f r n)] [∀ r n, Eager (f r n)] :
    Local continues (returnType? >>= fun r => name >>= f r) where
  from_ {k s t} h := by
    have hlook : (returnType? >>= fun r => name >>= f r) = current >>= fun a => peek 1 >>= fun b =>
        if a.isName && decide (b.kind = .symbol .lparen) then name >>= f none
        else (some <$> typeName) >>= fun type => name >>= f type := by
      unfold returnType?
      rw [bind_assoc]
      congr 1
      funext a
      rw [bind_assoc]
      congr 1
      funext b
      split <;> rfl
    rw [hlook]
    refine .two_bind h (fun {b u} hu => ?_) ?_
    · split at hu
      · exact seek_lt_of_two h.hidden hu
      · exact seek_lt_of_two h.hidden hu
    · split
      · exact from_ h
      · exact from_ h

instance : Local continues functionParts := by
  have hrest := fun token : Token => returnType?_bind continues fun returnType name => do
    let parameters ← parameters
    let body ← curlyChunk
    return (token, returnType, name, parameters, body)
  unfold functionParts
  infer_instance

end Local

theorem functionStatement_from (h : s.Alongside k t)
    (hattributes : s.package.attributes = t.package.attributes) :
    LocalFrom continues k s t functionStatement := by
  rw [functionStatement_eq]
  refine (Local.from_ h).bind h.hidden fun {x u v} hu hv huv => ?_
  have hsame : u.package.attributes = v.package.attributes := by
    rw [Inert.package_ok functionParts hu, Inert.package_ok functionParts hv, hattributes]
  obtain ⟨token, returnType, name, parameters, body⟩ := x
  have hdeclare : ∀ dialect : Option String, Local continues (do
      let node : Function :=
        ⟨← close (.ofToken token), name.text, returnType, parameters, withoutDelimiters body,
          dialect⟩
      declare fun p => { p with functions := p.functions ++ [node] }
      return node) := fun _ => inferInstance
  exact ((hdeclare (dialectOf u.package.attributes)).from_ huv).congr rfl (by rw [hsame]; rfl)

end Parser
end Rulebook
