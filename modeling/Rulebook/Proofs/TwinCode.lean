import Rulebook.Proofs.TwinSteps

/-!
# Embedded code in two readings

Where embedded code ends, how far brackets reach and where a consequence ends is told by the visible
tokens alone. So two readings take over the same code, unless the second text ends in it.
-/

namespace Rulebook.Parser

variable {T : Readings} {s t : State} {l : Likeness}

/-! ### Chunks -/

section Enclosed

variable {opening closing : Symbol} {stops : List Symbol} {room : Nat}

theorem enclosed_like {v w beyond : List Token} (h : List.Forall₂ (Token.Like l) v w) {depth : Nat}
    (hended : (enclosed opening closing stops room depth w).verdict = .ended → beyond = []) :
    (enclosed opening closing stops room depth (v ++ beyond)).verdict =
        (enclosed opening closing stops room depth w).verdict ∧
      List.Forall₂ (Token.Like l) (enclosed opening closing stops room depth (v ++ beyond)).inner
        (enclosed opening closing stops room depth w).inner ∧
      ∃ left, (enclosed opening closing stops room depth (v ++ beyond)).left = left ++ beyond ∧
        List.Forall₂ (Token.Like l) left (enclosed opening closing stops room depth w).left := by
  induction h generalizing depth with
  | nil =>
    obtain rfl := hended rfl
    exact ⟨rfl, .nil, [], rfl, .nil⟩
  | @cons a b v w hab hvw ih =>
    rw [enclosed_cons] at hended
    rw [List.cons_append, enclosed_cons, enclosed_cons, hab.kind]
    split
    · exact ⟨rfl, .nil, a :: v, rfl, .cons hab hvw⟩
    · next htaken =>
      rw [htaken] at hended
      obtain ⟨hverdict, hinner, hleft⟩ := ih hended
      exact ⟨hverdict, .cons hab hinner, hleft⟩

/-- Code in the tokens ahead ends alike, unless the second text is cut off in it. -/
theorem enclosed_abreast (hst : T.Abreast s t) {depth : Nat}
    (hcut : (enclosed opening closing stops room depth t.cursor.rest).verdict = .ended → ¬T.cut) :
    (enclosed opening closing stops room depth s.cursor.rest).verdict =
        (enclosed opening closing stops room depth t.cursor.rest).verdict ∧
      (visible (enclosed opening closing stops room depth s.cursor.rest).inner).length =
        (visible (enclosed opening closing stops room depth t.cursor.rest).inner).length ∧
      ∃ left, visible (enclosed opening closing stops room depth s.cursor.rest).left =
          left ++ T.beyond ∧
        List.Forall₂ (Token.Like T.likeness) left
          (visible (enclosed opening closing stops room depth t.cursor.rest).left) := by
  obtain ⟨v, hv, hlike⟩ := hst.ahead
  have hfirst := @enclosed_visible opening closing stops room depth
    s.cursor.rest
  have hsecond := @enclosed_visible opening closing stops room depth
    t.cursor.rest
  rw [show visible s.cursor.rest = v ++ T.beyond from hv] at hfirst
  rw [show visible t.cursor.rest = t.cursor.ahead from rfl] at hsecond
  have hended : (enclosed opening closing stops room depth t.cursor.ahead).verdict = .ended →
      T.beyond = [] := by
    intro h
    rw [hsecond] at h
    exact (T.last (hcut h)).1
  obtain ⟨hverdict, hinner, left, hleft, hleft'⟩ := enclosed_like hlike hended
  rw [hfirst, hsecond] at hverdict hinner
  rw [hfirst] at hleft
  rw [hsecond] at hleft'
  exact ⟨hverdict, hinner.length_eq, left, hleft, hleft'⟩

end Enclosed

def SameChunk (T : Readings) (c d : String) : Prop :=
  T.likeness.code (withoutDelimiters c) (withoutDelimiters d)

theorem head_like (hst : T.Abreast s t) {r q left : List Token} (hr : Starts r)
    (hq : Starts q) (hleft : visible r = left ++ T.beyond)
    (hlike : List.Forall₂ (Token.Like T.likeness) left (visible q)) (hcut : q = [] → ¬T.cut) :
    (r.headD s.cursor.last).Like T.likeness (q.headD t.cursor.last) := by
  cases q with
  | nil =>
    obtain ⟨hbeyond, hlast⟩ := T.last (hcut rfl)
    cases hlike
    rw [hbeyond] at hleft
    cases r with
    | nil =>
      rw [List.headD_nil, List.headD_nil, hst.first_last, hst.second_last]
      exact hlast
    | cons a r =>
      rw [visible_cons_of_not_trivia (hr a rfl)] at hleft
      cases hleft
  | cons b q =>
    rw [visible_cons_of_not_trivia (hq b rfl)] at hlike
    cases hlike with
    | cons hab hlike =>
      cases r with
      | nil => cases hleft
      | cons a r =>
        rw [visible_cons_of_not_trivia (hr a rfl), List.cons_append, List.cons.injEq] at hleft
        exact hleft.1 ▸ hab

section Chunk

variable {opening closing : Symbol} {stops : List Symbol}

theorem doomed_chunk {K : String → State → Prop} (ht : t.Steady)
    (hk : t.cursor.current.kind = .symbol opening)
    (hplain : ∀ b ∈ t.advanced.cursor.rest, b.kind ≠ .endOfInput)
    (hended : (enclosed opening closing stops t.stack.room 1 t.advanced.cursor.rest).verdict =
      .ended) :
    Doomed K (chunk opening closing stops t) := by
  have heq := @chunk_eq _ closing stops _ hk
  have happend := @enclosed_append opening closing stops t.stack.room 1 t.advanced.cursor.rest
  have hends := @enclosed_ends opening closing stops t.stack.room 1 t.advanced.cursor.rest
  have hevolves := fun {f u} => Orderly.evolves_error (chunk opening closing stops) (s := t)
    (f := f) (t := u)
  generalize enclosed opening closing stops t.stack.room 1 t.advanced.cursor.rest = e at *
  obtain ⟨inner, verdict, left⟩ := e
  obtain rfl : verdict = .ended := hended
  have hleft : left = [] := hends.left_eq_nil rfl fun b hb =>
    hplain b (happend ▸ List.mem_append_right inner hb)
  rw [heq]
  refine .inr (.inl ⟨(hevolves heq).steady ht, State.AtEnd.spent ?_⟩)
  show visible ((t.advanced.moved inner.length).cursor.rest) = []
  rw [show (t.advanced.moved inner.length).cursor.rest = left from Cursor.rest_moved happend.symm,
    hleft]
  rfl

/-- Code in the tokens ahead ends at tokens that are alike, where both readings are abreast again,
unless the second text is cut off in it. -/
theorem abreast_of_enclosed (hst : T.Abreast s t)
    (hafter : T.leftAfter s.cursor.rest t.cursor.rest)
    (hfresh : (∀ k ∈ s.lastRecovery, k < s.cursor.index) ∧ ∀ k ∈ t.lastRecovery, k < t.cursor.index)
    {e f : Enclosure} {room depth : Nat}
    (he : enclosed opening closing stops room depth s.cursor.rest = e)
    (hf : enclosed opening closing stops room depth t.cursor.rest = f)
    (hcut : f.verdict = .ended → ¬T.cut) :
    e.verdict = f.verdict ∧ (visible e.inner).length = (visible f.inner).length ∧
      (e.left.headD s.cursor.last).Like T.likeness (f.left.headD t.cursor.last) ∧
      T.Abreast (s.moved e.inner.length) (t.moved f.inner.length) := by
  have happend := @enclosed_append opening closing stops room depth s.cursor.rest
  have happend' := @enclosed_append opening closing stops room depth t.cursor.rest
  have hends := @enclosed_ends opening closing stops room depth s.cursor.rest
  have hends' := @enclosed_ends opening closing stops room depth t.cursor.rest
  have hsame := @enclosed_abreast _ _ _ opening closing stops room hst depth
  rw [he] at happend hends hsame
  rw [hf] at happend' hends' hsame
  obtain ⟨hverdict, hinner, left, hleft, hlike⟩ := hsame hcut
  have hnil : f.left = [] → ¬T.cut := fun hnil => hcut (hends'.ended_of_left hnil)
  exact ⟨hverdict, hinner, head_like hst hends.solid hends'.solid hleft hlike hnil,
    hst.passed hafter hfresh happend.symm happend'.symm hinner hends.solid hends'.solid hnil⟩

/-- Delimiters of one character each do not tell chunks apart. -/
theorem sameChunk_of_code {first second a b : Token} {x y : List Token}
    (hfirst : first.text.length = 1) (hsecond : second.text.length = 1) (ha : a.text.length = 1)
    (hb : b.text.length = 1) (hcode : T.likeness.code (spell x) (spell y)) :
    SameChunk T (first.text ++ (spell x ++ a.text)) (second.text ++ (spell y ++ b.text)) := by
  unfold SameChunk
  rwa [withoutDelimiters_append hfirst ha, withoutDelimiters_append hsecond hb]

theorem LiveTwin.chunk (stops : List Symbol) (hopening : opening.text.length = 1)
    (hclosing : closing.text.length = 1) :
    LiveTwin T (SameChunk T) (chunk opening closing stops) (chunk opening closing stops) := by
  intro s t hst hlive
  by_cases hk : t.cursor.current.kind = .symbol opening
  · have hk' : s.cursor.current.kind = .symbol opening := hlive.kind.trans hk
    have hend : t.cursor.current.kind ≠ .endOfInput := by rw [hk]; simp
    have hadvanced := hst.advanced hlive
    have hafter := hadvanced.after (by rw [hst.previous_advanced hend]; rfl)
    have hfresh := hst.fresh_advanced hlive hend
    by_cases hcut : (enclosed opening closing stops t.stack.room 1 t.advanced.cursor.rest).verdict =
      .ended ∧ T.cut
    · -- the second text ends in the chunk
      exact .astray hcut.2 (doomed_chunk (hst.steady hcut.2) hk
        (fun b hb => T.second_faithful.plain b (hadvanced.mem_second hb)) hcut.1)
    · have hx := @chunk_eq _ closing stops _ hk'
      have hy := @chunk_eq _ closing stops _ hk
      generalize he : enclosed opening closing stops s.stack.room 1 s.advanced.cursor.rest = e at hx
      rw [← hst.stack] at hy hcut
      generalize hf :
          enclosed opening closing stops s.stack.room 1 t.advanced.cursor.rest = f at hy hcut
      obtain ⟨hverdict, hinner, hab, hpassed⟩ := abreast_of_enclosed hadvanced hafter hfresh he hf
        fun hended hc => hcut ⟨hended, hc⟩
      have hends := @enclosed_ends opening closing stops s.stack.room 1 s.advanced.cursor.rest
      have hends' := @enclosed_ends opening closing stops s.stack.room 1 t.advanced.cursor.rest
      rw [he] at hends
      rw [hf] at hends'
      obtain ⟨inner, verdict, left⟩ := e
      obtain ⟨inner', verdict', left'⟩ := f
      obtain rfl : verdict = verdict' := hverdict
      cases verdict with
      | closed =>
        obtain ⟨a, r, rfl, ha⟩ := hends
        obtain ⟨b, q, rfl, hb⟩ := hends'
        have hrest := append_of_enclosed he
        have hrest' := append_of_enclosed hf
        have hvisible : a.isTrivia = false := by simp [Token.isTrivia, ha, TokenKind.isTrivia]
        have hvisible' : b.isTrivia = false := by simp [Token.isTrivia, hb, TokenKind.isTrivia]
        have hmem : a ∈ s.advanced.cursor.rest := hrest ▸ by simp
        have hmem' : b ∈ t.advanced.cursor.rest := hrest' ▸ by simp
        have ha' := T.first_faithful.symbol a (hadvanced.mem_first hmem) closing ha
        have hb' := T.second_faithful.symbol b (hadvanced.mem_second hmem') closing hb
        exact .ok hx hy
          (sameChunk_of_code ((hst.first_text hk').symm ▸ hopening)
            ((hst.second_text hk).symm ▸ hopening) (ha'.symm ▸ hclosing) (hb'.symm ▸ hclosing)
            (T.code_inner (hrest ▸ hrest' ▸ hafter) hinner hvisible hvisible'))
          (hadvanced.moved hrest.symm hrest'.symm hvisible hvisible' hab hinner)
      | deep => exact .error hx hy (.other (by simp)) hpassed
      | _ => exact .error hx hy (.recognition (.inr (.mismatchedToken _ hab))) hpassed
  · have hk' : s.cursor.current.kind ≠ .symbol opening := fun heq => hk (hlive.kind.symm.trans heq)
    exact .error (chunk_of_ne hk') (chunk_of_ne hk)
      (.recognition (.inr (.mismatchedToken (.symbol opening) hlive))) hst

end Chunk

theorem Twin.parenCode : Twin T T.likeness.code parenCode parenCode := by
  have hchunk : Twin T (SameChunk T) parenChunk parenChunk := by
    unfold parenChunk
    exact .of_live (.chunk [] rfl rfl)
  exact hchunk.map id fun _ _ hno => hno.elim

theorem Twin.squareChunk : Twin T (SameChunk T) squareChunk squareChunk :=
  .of_live (.chunk _ rfl rfl)

theorem Twin.curlyChunk : Twin T (SameChunk T) curlyChunk curlyChunk := by
  unfold Parser.curlyChunk
  exact .of_live (.chunk [] rfl rfl)

/-! ### Consequences -/

theorem isTrivia_of_ends {t : Token} (h : t.kind ∈ [TokenKind.keyword .end_, .endOfInput]) :
    t.isTrivia = false := by
  simp only [List.mem_cons, List.not_mem_nil, or_false] at h
  rcases h with h | h <;> simp [Token.isTrivia, h, TokenKind.isTrivia]

theorem beforeEnd_append (ts : List Token) : ∃ r, ts = beforeEnd ts ++ r ∧ Starts r := by
  refine ⟨_, (List.takeWhile_append_dropWhile).symm, fun a ha => ?_⟩
  have hkind := List.head?_dropWhile_not
    (fun t : Token => decide (t.kind ∉ [TokenKind.keyword .end_, .endOfInput])) ts
  rw [ha] at hkind
  exact isTrivia_of_ends (Decidable.not_not.1 (of_decide_eq_false hkind))

theorem visible_beforeEnd (ts : List Token) : visible (beforeEnd ts) = beforeEnd (visible ts) := by
  induction ts with
  | nil => rfl
  | cons t ts ih =>
    by_cases hk : t.kind ∈ [TokenKind.keyword .end_, .endOfInput]
    · have ht := isTrivia_of_ends hk
      rw [visible_cons_of_not_trivia ht, beforeEnd_of_end hk, beforeEnd_of_end hk, visible_nil]
    · rw [beforeEnd_cons hk]
      cases ht : t.isTrivia with
      | true => rw [visible_cons_of_trivia ht, visible_cons_of_trivia ht, ih]
      | false =>
        rw [visible_cons_of_not_trivia ht, visible_cons_of_not_trivia ht, beforeEnd_cons hk, ih]

theorem length_beforeEnd_like {v w beyond : List Token} (h : List.Forall₂ (Token.Like l) v w)
    (hw : beforeEnd w = w → beyond = []) :
    (beforeEnd (v ++ beyond)).length = (beforeEnd w).length := by
  induction h with
  | nil => rw [hw rfl, List.nil_append]
  | @cons a b v w hab hvw ih =>
    rw [List.cons_append]
    by_cases hk : b.kind ∈ [TokenKind.keyword .end_, .endOfInput]
    · rw [beforeEnd_of_end hk, beforeEnd_of_end (hab.kind ▸ hk)]
    · rw [beforeEnd_cons hk, beforeEnd_cons (hab.kind ▸ hk), List.length_cons, List.length_cons]
      rw [beforeEnd_cons hk] at hw
      rw [ih fun heq => hw (congrArg (b :: ·) heq)]

theorem consequence_eq (h : s.cursor.current.kind = .keyword .then_) : consequence s =
    .ok (consequenceOf s.cursor.current (spell (beforeEnd s.advanced.cursor.rest)))
      (s.advanced.moved (beforeEnd s.advanced.cursor.rest).length) := by
  unfold consequence keyword
  rw [bind_of_ok (a := s.cursor.current) (t := s.advanced) (by rw [expect_eq, if_pos h]),
    bind_of_ok (consequenceText_eq (matched_advanced s))]
  rfl

theorem consequence_of_ne (h : s.cursor.current.kind ≠ .keyword .then_) : consequence s =
    .error (.recognition (.mismatchedToken (.keyword .then_) s.cursor.current)) s := by
  unfold consequence keyword
  exact bind_of_error (by rw [expect_eq, if_neg h])

theorem Twin.consequence :
    Twin T (Consequence.Like T.likeness) consequence consequence fun _ u => u.AtEnd := by
  refine .of_live fun s t hst hlive => ?_
  by_cases hk : t.cursor.current.kind = .keyword .then_
  · have hk' : s.cursor.current.kind = .keyword .then_ := hlive.kind.trans hk
    have hend : t.cursor.current.kind ≠ .endOfInput := by rw [hk]; simp
    have hadvanced := hst.advanced hlive
    have hafter := hadvanced.after (by rw [hst.previous_advanced hend]; rfl)
    have hx := consequence_eq hk'
    have hy := consequence_eq hk
    obtain ⟨r, hr, hstarts⟩ := beforeEnd_append s.advanced.cursor.rest
    obtain ⟨q, hq, hstarts'⟩ := beforeEnd_append t.advanced.cursor.rest
    by_cases hcut : q = [] ∧ T.cut
    · refine .astray hcut.2 ?_
      rw [hy]
      refine .inr ⟨(Orderly.evolves_ok Parser.consequence hy).steady (hst.steady hcut.2), ?_⟩
      show visible (t.advanced.moved _).cursor.rest = []
      rw [show (t.advanced.moved _).cursor.rest = q from Cursor.rest_moved hq, hcut.1]
      rfl
    · have hcut' : q = [] → ¬T.cut := fun hnil hc => hcut ⟨hnil, hc⟩
      have hn : (visible (beforeEnd s.advanced.cursor.rest)).length =
          (visible (beforeEnd t.advanced.cursor.rest)).length := by
        obtain ⟨v, hv, hlike⟩ := hadvanced.ahead
        rw [visible_beforeEnd, visible_beforeEnd, show visible s.advanced.cursor.rest = _ from hv]
        refine length_beforeEnd_like hlike fun heq => (T.last (hcut' (hstarts'.eq_nil ?_))).1
        have hsplit := congrArg visible hq
        rw [visible_append, visible_beforeEnd, show visible t.advanced.cursor.rest = _ from rfl,
          heq] at hsplit
        exact List.append_cancel_left (hsplit.symm.trans (List.append_nil _).symm)
      exact .ok hx hy
        (T.consequence (hr ▸ hq ▸ hafter) hn hstarts hstarts' hcut' hlive)
        (hadvanced.passed hafter (hst.fresh_advanced hlive hend) hr hq hn hstarts hstarts' hcut')
  · have hk' : s.cursor.current.kind ≠ .keyword .then_ := fun heq => hk (hlive.kind.symm.trans heq)
    exact .error (consequence_of_ne hk') (consequence_of_ne hk)
      (.recognition (.inr (.mismatchedToken _ hlive))) hst

/-! ### Brackets -/

def bracketPairs : List Token → Nat
  | a :: b :: ts =>
    if a.kind = .symbol .lbracket ∧ b.kind = .symbol .rbracket then bracketPairs ts + 1 else 0
  | _ => 0

theorem two_mul_bracketPairs_le (ts : List Token) : 2 * bracketPairs ts ≤ ts.length := by
  fun_induction bracketPairs ts with
  | case1 a b ts h ih =>
    rw [List.length_cons, List.length_cons]
    omega
  | case2 a b ts h => exact Nat.zero_le _
  | case3 ts h => exact Nat.zero_le _

theorem lookahead_of_drop {c : Cursor} (hc : c.triviaVisible = false) (n : Nat) :
    c.lookahead (n + 1) = (c.ahead.drop n).headD c.last := by
  rw [Cursor.lookahead_of_hidden hc, List.headD_eq_head?_getD, List.head?_drop,
    List.getD_eq_getElem?_getD]

theorem afterBrackets_eq {fuel n : Nat} (hs : s.cursor.triviaVisible = false)
    (hfuel : bracketPairs (s.cursor.ahead.drop n) ≤ fuel) :
    afterBrackets fuel n s = .ok (n + 2 * bracketPairs (s.cursor.ahead.drop n)) s := by
  induction fuel generalizing n with
  | zero =>
    rw [Nat.le_zero.1 hfuel]
    rfl
  | succ fuel ih =>
    have hfirst := lookahead_of_drop hs n
    have hsecond := lookahead_of_drop hs (n + 1)
    have htail : s.cursor.ahead.drop (n + 1) = (s.cursor.ahead.drop n).tail :=
      (List.tail_drop ..).symm
    have htail' : s.cursor.ahead.drop (n + 2) = (s.cursor.ahead.drop n).tail.tail := by
      rw [← htail, List.tail_drop]
    rw [htail] at hsecond
    unfold afterBrackets
    refine (bind_of_ok (peek_eq n s)).trans ?_
    rw [hfirst]
    cases hd : s.cursor.ahead.drop n with
    | nil => rfl
    | cons a ts =>
      rw [hd] at hfuel hsecond htail'
      rw [List.headD_cons]
      cases ts with
      | nil =>
        split
        · refine (bind_of_ok (peek_eq (n + 1) s)).trans ?_
          rw [hsecond]
          rfl
        · rfl
      | cons b ts =>
        unfold bracketPairs at hfuel ⊢
        by_cases ha : a.kind = .symbol .lbracket
        · rw [if_pos ha]
          refine (bind_of_ok (peek_eq (n + 1) s)).trans ?_
          rw [hsecond, List.tail_cons, List.headD_cons]
          by_cases hb : b.kind = .symbol .rbracket
          · rw [if_pos hb, if_pos ⟨ha, hb⟩]
            rw [if_pos ⟨ha, hb⟩] at hfuel
            rw [ih, htail']
            · exact congrArg (EStateM.Result.ok · s) (by simp only [List.tail_cons]; omega)
            · rw [htail']
              exact Nat.le_of_succ_le_succ hfuel
          · rw [if_neg hb, if_neg fun h => hb h.2]
            rfl
        · rw [if_neg ha, if_neg fun h => ha h.1]
          rfl

theorem bracketPairs_like {v w beyond : List Token} (h : List.Forall₂ (Token.Like l) v w)
    (hbeyond : ∀ b ∈ beyond.head?, ∀ k, b.kind ≠ .symbol k) :
    bracketPairs (v ++ beyond) = bracketPairs w := by
  generalize hn : w.length = n
  induction n using Nat.strongRecOn generalizing v w with
  | ind n ih =>
    have hout : ∀ v : List Token, v.length ≤ 1 → bracketPairs (v ++ beyond) = 0 := by
      intro v hv
      rcases v with _ | ⟨a, _ | ⟨c, v⟩⟩
      · rcases beyond with _ | ⟨b, _ | ⟨d, bs⟩⟩
        · rfl
        · rfl
        · exact if_neg fun h => hbeyond b rfl _ h.1
      · rcases beyond with _ | ⟨b, bs⟩
        · rfl
        · exact if_neg fun h => hbeyond b rfl _ h.2
      · simp at hv
    cases h with
    | nil => exact hout [] (Nat.zero_le _)
    | cons hab h =>
      cases h with
      | nil => exact hout [_] (Nat.le_refl _)
      | cons hcd h =>
        rw [List.length_cons, List.length_cons] at hn
        rw [List.cons_append, List.cons_append]
        unfold bracketPairs
        rw [hab.kind, hcd.kind, ih _ (by omega) h rfl]

theorem isUntyped_eq (hs : s.cursor.triviaVisible = false)
    (hname : s.cursor.current.isName = true) :
    isUntyped s = .ok (decide ((s.cursor.lookahead
      (1 + 2 * bracketPairs (s.cursor.ahead.drop 1) + 1)).kind ∈
        [TokenKind.symbol .comma, .symbol .rparen])) s := by
  have hfuel : bracketPairs (s.cursor.ahead.drop 1) ≤ s.cursor.remaining + 1 := by
    have hle := two_mul_bracketPairs_le (s.cursor.ahead.drop 1)
    have hremaining := s.cursor.length_ahead_le_remaining
    rw [List.length_drop] at hle
    omega
  unfold isUntyped
  refine (bind_of_ok (current_eq s)).trans ?_
  rw [if_pos hname]
  refine (bind_of_ok (p := get) rfl).trans ?_
  exact bind_of_ok (afterBrackets_eq hs hfuel)

theorem LiveTwin.isUntyped [T.BetweenStatements] : LiveTwin T (· = ·) isUntyped isUntyped := by
  intro s t hst hlive
  cases hname : t.cursor.current.isName with
  | false =>
    have hname' : s.cursor.current.isName = false := hlive.isName.trans hname
    have hno : ∀ {s : State}, s.cursor.current.isName = false →
        Parser.isUntyped s = .ok false s := by
      intro s hname
      unfold Parser.isUntyped
      refine (bind_of_ok (current_eq s)).trans ?_
      rw [hname]
      rfl
    exact .ok (hno hname') (hno hname) rfl hst
  | true =>
    have hname' : s.cursor.current.isName = true := hlive.isName.trans hname
    obtain ⟨v, hv, hlike⟩ := hst.ahead
    have hne : t.cursor.ahead ≠ [] :=
      Cursor.ahead_ne_nil_of_current hst.second_hidden (Eager.ne_endOfInput_of_isName hname)
    have hpairs : bracketPairs (s.cursor.ahead.drop 1) = bracketPairs (t.cursor.ahead.drop 1) := by
      have hdrop : s.cursor.ahead.drop 1 = v.drop 1 ++ T.beyond := by
        rw [hv]
        cases v with
        | nil => exact absurd (List.forall₂_nil_left_iff.1 hlike) hne
        | cons a v => rfl
      rw [hdrop]
      refine bracketPairs_like (List.forall₂_drop 1 hlike) fun b hb k => ?_
      by_cases hcut : T.cut
      · obtain ⟨c, cs, hc, hk⟩ := T.border hcut
        rw [hc] at hb
        cases hb
        exact fun heq => T.symbol_notMem_borders k (heq ▸ hk)
      · rw [(T.last hcut).1] at hb
        cases hb
    have hle : 1 + 2 * bracketPairs (t.cursor.ahead.drop 1) ≤ t.cursor.ahead.length := by
      have hpos : 0 < t.cursor.ahead.length := List.length_pos_iff.2 hne
      have hle := two_mul_bracketPairs_le (t.cursor.ahead.drop 1)
      rw [List.length_drop] at hle
      omega
    refine .ok (isUntyped_eq hst.first_hidden hname') (isUntyped_eq hst.second_hidden hname) ?_ hst
    have hsymbol := fun k => hst.symbol_lookahead (fun _ => hle) (T.symbol_notMem_borders k)
    rw [hpairs]
    simp only [List.mem_cons, List.not_mem_nil, or_false, hsymbol]

end Rulebook.Parser
