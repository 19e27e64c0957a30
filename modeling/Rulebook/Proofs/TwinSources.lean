import Rulebook.Proofs.TwinPatterns

/-!
# Data sources in two readings

An accumulation or a collection is tried before it is read. If the second text ends in it, the trial
fails in the second reading alone; but then the parentheses behind its keyword are never closed, so
that the words do not begin an expression either.
-/

namespace Rulebook.Parser

set_option synthInstance.maxSize 100000

variable {T : Readings} {s t u v : State}

/-! ### Access chains -/

theorem Twin.arguments? :
    Twin T (Option.Rel T.likeness.code) arguments? arguments? := by
  unfold Parser.arguments?
  exact (Tests.nextIsSymbol (T.notMem_borders (by decide))).choose
    (Twin.map .parenCode (fun h => .some h) fun _ _ hno => hno.elim).live (.pure .none)

/-- Access chains whose steps know where they begin. -/
structure SameChain (T : Readings) (c d : List Access) : Prop where
  like : List.Forall₂ (Access.Like T.likeness) c d
  begun : ∀ a ∈ c, a.location.start.isSome = true

theorem SameChain.append {c d : List Access} (h : SameChain T c d) {a b : Access}
    (hab : a.Like T.likeness b) (ha : a.location.start.isSome = true) :
    SameChain T (c ++ [a]) (d ++ [b]) where
  like := List.rel_append h.like (.cons hab .nil)
  begun x hx := by
    rcases List.mem_append.1 hx with hx | hx
    · exact h.begun x hx
    · rw [List.mem_singleton.1 hx]
      exact ha

theorem start_closeAt (l : Location) (stop : Option Nat) : (l.closeAt stop).start = l.start := by
  cases stop <;> rfl

theorem Twin.closeBegun {a b : Token} (h : a.Like T.likeness b) :
    Twin T (fun l l' => l.Like T.likeness l' ∧ l.start.isSome = true)
      (Parser.close (.ofToken a)) (Parser.close (.ofToken b)) :=
  .bind .lastStop fun hmn => .pure ⟨hmn (.ofToken h) rfl, by rw [start_closeAt]; rfl⟩

theorem SameChain.index {c d : List Access} (h : SameChain T c d) {a b : Token}
    (hab : a.Like T.likeness b) {x y : String} (hxy : T.likeness.code x y) {m n : Option Nat}
    (hmn : SameStop T m n) : SameChain T (Access.index c a x m) (Access.index d b y n) := by
  have hbare : SameChain T (c ++ [.field ((Location.ofToken a).closeAt m) "" (some x)])
      (d ++ [.field ((Location.ofToken b).closeAt n) "" (some y)]) :=
    h.append (.field (hmn (.ofToken hab) rfl) _ (.some hxy)) (by
      show ((Location.ofToken a).closeAt m).start.isSome = true
      rw [start_closeAt]
      rfl)
  unfold Access.index
  rcases List.eq_nil_or_concat c with rfl | ⟨c, p, rfl⟩
  · cases h.like
    exact hbare
  · rw [List.concat_eq_append] at h hbare ⊢
    obtain ⟨d, q, rfl, hlike, hpq⟩ := forall₂_concat h.like
    rw [List.getLast?_concat, List.getLast?_concat, List.dropLast_concat, List.dropLast_concat]
    cases hpq with
    | method hl name hcode => exact hbare
    | @field l l' hl name _ _ hcode =>
      cases hcode with
      | some hcode => exact hbare
      | none =>
        have hbegun : l.start.isSome = true :=
          h.begun _ (List.mem_append_right _ List.mem_cons_self)
        refine SameChain.append ⟨hlike, fun a ha => h.begun a (List.mem_append_left _ ha)⟩
          (.field (hmn hl hbegun) name (.some hxy)) ?_
        show (l.closeAt m).start.isSome = true
        rw [start_closeAt]
        exact hbegun

theorem Twin.indexAccess {c d : List Access} (h : SameChain T c d) {a b : Token}
    (hab : a.Like T.likeness b) : Twin T (SameChain T) (indexAccess c a) (indexAccess d b) := by
  have hargument : Twin T T.likeness.code (withoutDelimiters <$> Parser.squareChunk)
      (withoutDelimiters <$> Parser.squareChunk) :=
    Twin.map .squareChunk id fun _ _ hno => hno.elim
  unfold Parser.indexAccess
  exact .bind hargument fun hxy => .bind .lastStop fun hmn => .pure (h.index hab hxy hmn)

theorem LiveTwin.memberAccess {c d : List Access} (h : SameChain T c d) :
    LiveTwin T (SameChain T) (memberAccess c) (memberAccess d) := by
  unfold Parser.memberAccess
  refine .bind .advance fun _ => .of_live (.current fun hab => ?_)
  refine Twin.live (.bind .name fun hname => .bind .arguments? fun {x y} harguments =>
    .bind (.closeBegun hab) fun {l l'} hl => .pure ?_)
  rw [hname.text]
  cases harguments with
  | none => exact h.append (.field hl.1 _ .none) hl.2
  | some hcode => exact h.append (.method hl.1 _ hcode) hl.2

theorem LiveTwin.access {c d : List Access} (h : SameChain T c d) :
    LiveTwin T (SameChain T) (access c) (access d) := by
  unfold Parser.access
  exact .current fun hab => .ite (by rw [hab.kind]) (Twin.indexAccess h hab).live (.memberAccess h)

/-! ### Retrievals -/

/-- The source text of a location that begins at the next token and is closed further on. -/
theorem text_of_span {c d : Cursor} (hc : c.triviaVisible = false) (hfaithful : c.Faithful)
    (hd : d = c.rewind d.index) (hle : c.index ≤ d.index) (hsize : d.index ≤ c.front.size)
    (hlt : d.ahead.length < c.ahead.length) {l : Location}
    (hl : l = (Location.ofToken c.current).closeAt (d.previous.map (·.stop))) :
    ∃ before x after, c.rest = before ++ (x ++ (after ++ d.rest)) ∧ visible before = [] ∧
      visible after = [] ∧ x ≠ [] ∧ Starts x ∧ Starts x.reverse ∧
      (visible x).length + d.ahead.length = c.ahead.length ∧
      d.text (l.start.getD 0) (l.stop.getD 0) = spell x := by
  rw [hd] at hlt
  obtain ⟨before, x, after, hrest, hbefore, hafter, hhead, hlast, hn⟩ :=
    Cursor.exists_stretch hc hle hsize hlt
  rw [← hd] at hrest hlast hn
  have hx : x ≠ [] := by
    rintro rfl
    cases hhead
  obtain ⟨b, hb⟩ : ∃ b, x.getLast? = some b := ⟨_, List.getLast?_eq_getLast_of_ne_nil hx⟩
  have hprevious : d.previous = some b := hlast.symm.trans hb
  have hvisible : b.isTrivia = false := Cursor.previous_not_trivia hprevious
  have hfront : c.front.toList =
      (c.front.toList.take c.index ++ before) ++ (x ++ (after ++ d.rest)) := by
    have hsplit := (List.take_append_drop c.index c.front.toList).symm
    rw [show c.front.toList.drop c.index = _ from hrest] at hsplit
    rw [List.append_assoc]
    exact hsplit
  obtain ⟨horder, htext⟩ := hfaithful.stretch hfront hhead hb
  refine ⟨before, x, after, hrest, hbefore, hafter, hx, fun a ha => ?_, fun a ha => ?_, hn, ?_⟩
  · rw [hhead] at ha
    cases ha
    exact Cursor.current_not_trivia hc
  · rw [List.head?_reverse, hb] at ha
    cases ha
    exact hvisible
  · rw [hl, hprevious, hd]
    show c.text c.current.start (max b.stop c.current.start) = spell x
    rw [Nat.max_eq_left horder]
    exact htext

/-- The source text that two readings pass over is alike. -/
theorem code_span (hst : T.Abreast s t) (huv : T.Abreast u v) (hsu : s.Evolves u)
    (htv : t.Evolves v) (hlt : u.cursor.ahead.length < s.cursor.ahead.length)
    (hlt' : v.cursor.ahead.length < t.cursor.ahead.length) {l m : Location}
    (hl : l = (Location.ofToken s.cursor.current).closeAt (u.cursor.previous.map (·.stop)))
    (hm : m = (Location.ofToken t.cursor.current).closeAt (v.cursor.previous.map (·.stop))) :
    T.likeness.code (u.cursor.text (l.start.getD 0) (l.stop.getD 0))
      (v.cursor.text (m.start.getD 0) (m.stop.getD 0)) := by
  have hfaithful : s.cursor.Faithful := by
    rw [hst.first]
    exact T.first_faithful.rewind _
  have hfaithful' : t.cursor.Faithful := by
    rw [hst.second]
    exact T.second_faithful.rewind _
  obtain ⟨w, x, r, hs, hw, -, hx, hhead, hlast, hn, htext⟩ :=
    text_of_span hst.first_hidden hfaithful
    hsu.cursor hsu.index (hst.first_front ▸ huv.first_le) hlt hl
  obtain ⟨z, y, q, ht, hz, -, hy, hhead', hlast', hn', htext'⟩ := text_of_span hst.second_hidden
    hfaithful' htv.cursor htv.index (hst.second_front ▸ huv.second_le) hlt' hm
  rw [htext, htext']
  refine T.code_stretch (hs ▸ ht ▸ hst.left) hw hz hx hy hhead hhead' hlast hlast' ?_
  -- as many visible tokens lie beyond the second text at both places
  obtain ⟨_, hahead, hlike⟩ := hst.ahead
  obtain ⟨_, hahead', hlike'⟩ := huv.ahead
  have hlength := congrArg List.length hahead
  have hlength' := congrArg List.length hahead'
  rw [List.length_append, hlike.length_eq] at hlength
  rw [List.length_append, hlike'.length_eq] at hlength'
  omega

instance Eager.access (chain : List Access) : Eager (access chain) := by
  unfold Parser.access indexAccess memberAccess
  infer_instance

instance Eager.retrieval : Eager retrieval := by
  unfold Parser.retrieval
  infer_instance

theorem Twin.accesses : Twin T (SameChain T)
    (Parser.repeatWhile [] (fun _ => nextIs [.symbol .dot, .symbol .lbracket]) Parser.access)
    (Parser.repeatWhile [] (fun _ => nextIs [.symbol .dot, .symbol .lbracket]) Parser.access) := by
  have hrolls : Rolls (fun _ : List Access => nextIs [.symbol .dot, .symbol .lbracket])
      Parser.access := .of_eager fun _ s => ⟨_, rfl⟩
  exact .repeatWhile hrolls hrolls (fun _ => .nextIs (T.apart (by decide))) (fun h => .access h)
    (fun _ _ _ hno => hno.elim) ⟨.nil, by simp⟩

theorem Twin.retrieval : Twin T (Retrieval.Like T.likeness) retrieval retrieval := by
  refine .of_live fun s t hst hlive => ?_
  refine Agree.step (current_eq s) (current_eq t) ?_
  refine (LiveTwin.name hst hlive).seq fun {a b s₁ t₁} hname h₁ hx₁ hy₁ => ?_
  refine (Twin.arguments? h₁).seq fun {m n s₂ t₂} harguments h₂ hx₂ hy₂ => ?_
  refine (Twin.accesses h₂).seq fun {c d u v} hchain huv hx₃ hy₃ => ?_
  have hs₁ := (Orderly.evolves_ok _ hx₂).trans (Orderly.evolves_ok _ hx₃)
  have ht₁ := (Orderly.evolves_ok _ hy₂).trans (Orderly.evolves_ok _ hy₃)
  have hlt := Nat.lt_of_le_of_lt hs₁.length_ahead_le
    (Eager.shortens Parser.name hst.first_hidden hx₁)
  have hlt' := Nat.lt_of_le_of_lt ht₁.length_ahead_le
    (Eager.shortens Parser.name hst.second_hidden hy₁)
  have hl := closeAt_like huv.previous (.ofToken hlive) rfl
  exact .ok rfl rfl ⟨hl, hl, hname.text, harguments, hchain.like,
    code_span hst huv ((Orderly.evolves_ok _ hx₁).trans hs₁) ((Orderly.evolves_ok _ hy₁).trans ht₁)
      hlt hlt' rfl rfl⟩ huv

/-! ### Accumulations and collections -/

theorem enclosed_ne_closed {d room depth : Nat} {ts : List Token} (h : ClosesAtMost d ts)
    (hd : d < depth) : (enclosed .lparen .rparen [] room depth ts).verdict ≠ .closed := by
  induction ts generalizing d depth with
  | nil => exact fun h => by cases h
  | cons t ts ih =>
    unfold enclosed
    split
    · next hl =>
      rw [closesAtMost_lparen hl] at h
      split
      · simp
      · exact ih h (Nat.succ_lt_succ hd)
    next hl =>
    split
    · next hr =>
      rw [closesAtMost_rparen hr] at h
      split
      · omega
      · exact ih h.2 (by omega)
    next hr =>
    rw [closesAtMost_other hl hr] at h
    split
    · simp
    split
    · simp
    · exact ih h hd

theorem doomed_parenCode {K : String → State → Prop} (hv : v.Steady)
    (hplain : ∀ a ∈ v.cursor.front.toList, a.kind ≠ .endOfInput)
    (hk : v.cursor.current.kind = .symbol .lparen)
    (hopen : ClosesAtMost 0 v.advanced.cursor.ahead) : Doomed K (parenCode v) := by
  have hfront : v.advanced.cursor.front = v.cursor.front := Cursor.front_consume _
  have heq := @chunk_eq _ .rparen [] _ hk
  have hends := @enclosed_ends .lparen .rparen [] v.stack.room 1 v.advanced.cursor.rest
  have hne :=
    @enclosed_ne_closed _ v.stack.room 1 _ (Level.closesAtMost_visible.1 hopen) Nat.one_pos
  have hended := @doomed_chunk _ .lparen .rparen [] (fun _ _ => False) hv hk fun a ha =>
    hplain a (hfront ▸ List.mem_of_mem_drop ha)
  generalize enclosed .lparen .rparen [] v.stack.room 1 v.advanced.cursor.rest =
    e at heq hends hne hended
  have hchunk : Doomed (fun _ _ => False) (parenChunk v) := by
    unfold parenChunk
    obtain ⟨inner, verdict, left⟩ := e
    cases verdict with
    | closed => exact absurd rfl hne
    | stopped =>
      obtain ⟨_, _, _, hmem⟩ := hends
      cases hmem
    | deep =>
      rw [heq]
      exact .inr (.inr (by simp))
    | ended => exact hended rfl
  unfold parenCode
  rw [map_eq_bind]
  exact hchunk.bind fun _ _ _ hno => hno.elim

/-- The parentheses behind a keyword are never closed. -/
def State.Unclosed (t : State) : Prop :=
  t.cursor.current.isName = true ∧ t.advanced.cursor.current.kind = .symbol .lparen ∧
    ClosesAtMost 0 t.advanced.advanced.cursor.ahead

/-- Behind a keyword whose parentheses are never closed there is no expression. -/
theorem doomed_retrieval {K : Retrieval → State → Prop} (ht : t.Steady)
    (hplain : ∀ a ∈ t.cursor.front.toList, a.kind ≠ .endOfInput) (h : t.Unclosed) :
    Doomed K (retrieval t) := by
  obtain ⟨hname, hparen, hopen⟩ := h
  have hevolves := Orderly.evolves_advanced t
  have hread : name t = .ok t.cursor.current t.advanced := by
    unfold name
    refine (bind_of_ok (current_eq t)).trans ?_
    rw [if_pos hname]
    rfl
  have harguments : Doomed (fun _ _ => False) (arguments? t.advanced) := by
    unfold arguments?
    have hnext : nextIsSymbol .lparen t.advanced = .ok true t.advanced :=
      congrArg (EStateM.Result.ok · _) (decide_eq_true hparen)
    rw [bind_of_ok hnext, if_pos rfl, map_eq_bind]
    refine Doomed.bind (K := fun _ _ => False) ?_ fun _ _ _ hno => hno.elim
    refine doomed_parenCode (hevolves.steady ht) (fun a ha => hplain a ?_) hparen hopen
    exact hevolves.front ▸ ha
  unfold retrieval
  rw [bind_of_ok (current_eq t), bind_of_ok hread]
  exact harguments.bind fun _ _ _ hno => hno.elim

section Forms

variable {k : Keyword} {body : Token → Parser Source}

def form (k : Keyword) (body : Token → Parser Source) : Parser Source := do
  let token ← keyword k
  let _ ← symbol .lparen
  body token

theorem Agree.form [∀ a, Orderly (body a)]
    (hbody : ∀ {a b : Token}, a.Like T.likeness b →
      Twin T (Source.Like T.likeness) (body a) (body b))
    (hst : T.Abreast s t) (hlive : T.Live s t) (hk : t.cursor.current.kind = .keyword k) :
    Agree T (T.cut ∧ t.advanced.cursor.current.kind = .symbol .lparen) (Source.Like T.likeness)
      (fun _ _ => False) (form k body s) (form k body t) := by
  have hkeyword : ∀ {s : State}, s.cursor.current.kind = .keyword k →
      keyword k s = .ok s.cursor.current s.advanced := fun h => (expect_eq _ _).trans (if_pos h)
  have hst' := hst.advanced hlive
  refine Agree.step (hkeyword (hlive.kind.trans hk)) (hkeyword hk) ?_
  by_cases hparen : t.advanced.cursor.current.kind = .symbol .lparen
  · have hlive' := hst'.live_of_kind (by rw [hparen]; simp)
    have hsymbol : ∀ {s : State}, s.cursor.current.kind = .symbol .lparen →
        symbol .lparen s = .ok s.cursor.current s.advanced :=
      fun h => (expect_eq _ _).trans (if_pos h)
    refine Agree.step (hsymbol (hlive'.kind.trans hparen)) (hsymbol hparen) ?_
    exact (hbody hlive (hst'.advanced hlive')).mono (fun hcut => ⟨hcut, hparen⟩) (fun _ _ h => h)
      fun _ _ hno => hno
  · have hfirst : s.advanced.cursor.current.kind ≠ .symbol .lparen := by
      rcases hst'.live_or_cut with hlive' | ⟨-, -, hfence⟩
      · exact fun heq => hparen (hlive'.kind.symm.trans heq)
      · exact fun heq => absurd (T.borders_subset (heq ▸ hfence)) (by decide)
    have hsymbol : ∀ {s : State}, s.cursor.current.kind ≠ .symbol .lparen →
        symbol .lparen s =
          .error (.recognition (.mismatchedToken (.symbol .lparen) s.cursor.current)) s :=
      fun h => (expect_eq _ _).trans (if_neg h)
    refine .error (bind_of_error (hsymbol hfirst)) (bind_of_error (hsymbol hparen))
      (.recognition ?_) hst'
    rcases hst'.live_or_cut with hlive' | ⟨hcut, -, -⟩
    · exact .inr (.mismatchedToken _ hlive')
    · exact .inl hcut

def formOrRetrieval (alternative : String) (k : Keyword) (body : Token → Parser Source) :
    Parser Source := do
  if ← trial alternative (form k body) then form k body else .retrieval <$> retrieval

/-- A form that fails behind its opening parenthesis, at the end of the text, leaves it open. -/
theorem unclosed_of_form [∀ a, Level 1 (body a)] (ht : t.cursor.triviaVisible = false)
    (hk : t.cursor.current.kind = .keyword k)
    (hparen : t.advanced.cursor.current.kind = .symbol .lparen) {e : ParseError}
    (h : form k body t.trying = .error (.recognition e) u) (hu : u.Spent) : t.Unclosed := by
  refine ⟨by simp [Token.isName, hk, TokenKind.isName], hparen, ?_⟩
  have hkeyword : keyword k t.trying = .ok t.trying.cursor.current t.trying.advanced :=
    (expect_eq _ _).trans (if_pos hk)
  have hsymbol : symbol .lparen t.trying.advanced =
      .ok t.trying.advanced.cursor.current t.trying.advanced.advanced :=
    (expect_eq _ _).trans (if_pos hparen)
  unfold form at h
  rw [bind_of_ok hkeyword, bind_of_ok hsymbol] at h
  have htried : t.trying.Tried := ⟨ht, Nat.succ_pos _⟩
  exact Level.keeps (n := 1) (body t.trying.cursor.current) htried.advanced.advanced h hu

theorem Agree.formOrRetrieval (alternative : String) [∀ a, Orderly (body a)]
    [∀ a, Level 1 (body a)]
    (hbody : ∀ {a b : Token}, a.Like T.likeness b →
      Twin T (Source.Like T.likeness) (body a) (body b))
    (hst : T.Abreast s t) (hlive : T.Live s t) (hk : t.cursor.current.kind = .keyword k) :
    Agree T T.cut (Source.Like T.likeness) (fun _ _ => False)
      (formOrRetrieval alternative k body s) (formOrRetrieval alternative k body t) := by
  have : Orderly (Parser.form k body) := by unfold Parser.form; infer_instance
  have htrial := Agree.trial (J := t.Unclosed) alternative hst
    (Agree.form hbody hst.trying hlive hk) And.left
    fun hc _ _ h hu => unclosed_of_form hst.second_hidden hk hc.2 h hu
  unfold Parser.formOrRetrieval
  refine htrial.bind (fun {a b u v} hab huv hx hy => ?_) fun b v hv hb => ?_
  · subst hab
    have hu : u.cursor = s.cursor := by rw [Orderly.trial_of_ok hx]
    have hv : v.cursor = t.cursor := by rw [Orderly.trial_of_ok hy]
    cases a with
    | true =>
      refine (Agree.form hbody huv ?_ ?_).mono And.left (fun _ _ h => h) fun _ _ hno => hno
      · show u.cursor.current.Like T.likeness v.cursor.current
        rw [hu, hv]
        exact hlive
      · rw [hv]
        exact hk
    | false => exact Twin.map .retrieval (fun h => .retrieval h) (fun _ _ hno => hno) huv
  · obtain ⟨rfl, hcursor, hunclosed⟩ := hb
    rw [if_neg Bool.false_ne_true, map_eq_bind]
    refine Doomed.bind (K := fun _ _ => False) (doomed_retrieval hv ?_ ?_) fun _ _ _ hno => hno.elim
    · rw [hcursor, hst.second_front]
      exact T.second_faithful.plain
    · have hnext : v.advanced.cursor = t.advanced.cursor := congrArg Cursor.consume hcursor
      obtain ⟨hname, hparen, hopen⟩ := hunclosed
      refine ⟨hcursor ▸ hname, hnext ▸ hparen, ?_⟩
      rw [show v.advanced.advanced.cursor = t.advanced.advanced.cursor from
        congrArg Cursor.consume hnext]
      exact hopen

end Forms

section Within

variable {pattern : Parser Pattern}

theorem Twin.accumulateBody
    (h : Twin T (Pattern.Like T.likeness) pattern pattern) {a b : Token}
    (hab : a.Like T.likeness b) :
    Twin T (Source.Like T.likeness) (accumulateBody pattern a) (accumulateBody pattern b) := by
  unfold Parser.accumulateBody
  exact .bind (h.nested .source) fun hp => .skip_bind (.bind (.keyword _) fun _ =>
    .bind .parenCode fun hi => .skip_bind (.bind (.keyword _) fun _ =>
    .bind .parenCode fun ha => .skip_bind (.bind (.keyword _) fun _ =>
    .bind .parenCode fun hr => .bind (.symbol _) fun _ => .bind (.closeToken hab) fun hl =>
    .pure (.accumulate hl hp hi ha hr))))

theorem Twin.collectBody (h : Twin T (Pattern.Like T.likeness) pattern pattern) {a b : Token}
    (hab : a.Like T.likeness b) :
    Twin T (Source.Like T.likeness) (collectBody pattern a) (collectBody pattern b) := by
  unfold Parser.collectBody
  exact .bind (h.nested .source) fun hp => .bind (.symbol _) fun _ =>
      .bind (.closeToken hab) fun hl =>
    .pure (.collect hl hp)

theorem Twin.fromSource [Orderly pattern] [Level 0 pattern]
    (h : Twin T (Pattern.Like T.likeness) pattern pattern) :
    Twin T (Source.Like T.likeness) (fromSource pattern) (fromSource pattern) := by
  have hretrieval : Twin T (Source.Like T.likeness) (Source.retrieval <$> Parser.retrieval)
      (Source.retrieval <$> Parser.retrieval) :=
    .map .retrieval (fun h => .retrieval h) fun _ _ hno => hno
  unfold Parser.fromSource
  refine .bind (.keyword _) fun _ s t hst => ?_
  have hasks : ∀ {k : Keyword} {s : State},
      nextIsKeyword k s = .ok (decide (s.cursor.current.kind = .keyword k)) s := rfl
  rw [bind_of_ok hasks, bind_of_ok hasks]
  by_cases haccumulate : t.cursor.current.kind = .keyword .accumulate
  · have hlive := hst.live_of_kind (by rw [haccumulate]; simp)
    rw [if_pos (decide_eq_true haccumulate),
      if_pos (decide_eq_true (hlive.kind.trans haccumulate))]
    exact Agree.formOrRetrieval "accumulate" (.accumulateBody h) hst hlive haccumulate
  have hfirst : ∀ {k : Keyword}, .keyword k ∉ borderKinds → t.cursor.current.kind ≠ .keyword k →
      s.cursor.current.kind ≠ .keyword k := by
    intro k hk hne heq
    rcases hst.live_or_cut with hlive | ⟨-, -, hfence⟩
    · exact hne (hlive.kind.symm.trans heq)
    · exact hk (T.borders_subset (heq ▸ hfence))
  rw [if_neg (by simpa using hfirst (by decide) haccumulate), if_neg (by simpa using haccumulate),
    bind_of_ok hasks, bind_of_ok hasks]
  by_cases hcollect : t.cursor.current.kind = .keyword .collect
  · have hlive := hst.live_of_kind (by rw [hcollect]; simp)
    rw [if_pos (decide_eq_true hcollect), if_pos (decide_eq_true (hlive.kind.trans hcollect))]
    exact Agree.formOrRetrieval "collect" (.collectBody h) hst hlive hcollect
  · rw [if_neg (by simpa using hfirst (by decide) hcollect), if_neg (by simpa using hcollect)]
    exact hretrieval hst

end Within

/-! ### Patterns with sources -/

theorem laterStop_like {m n : Option Nat} {m' n' : Option Nat}
    (h : Option.Rel T.likeness.offset m m') (h' : Option.Rel T.likeness.offset n n') :
    Option.Rel T.likeness.offset (laterStop m n) (laterStop m' n') := by
  cases h with
  | none => exact h'
  | some h =>
    cases h' with
    | none => exact .some h
    | some h' => exact .some (T.offset_max h h')

theorem stop_like {p q : Source} (h : p.Like T.likeness q) :
    Option.Rel T.likeness.offset (p.location?.bind (·.stop)) (q.location?.bind (·.stop)) := by
  cases h with
  | workingMemory => exact .none
  | retrieval h => exact h.location.stop
  | accumulate h => exact h.stop
  | collect h => exact h.stop

theorem attachSource_like {p q : Pattern} (h : p.Like T.likeness q) {a b : Source}
    (hab : a.Like T.likeness b) : (attachSource p a).Like T.likeness (attachSource q b) := by
  cases h with
  | mk location objectType name constraints source leftParen rightParen =>
    exact .mk ⟨location.start, laterStop_like location.stop (stop_like hab), location.line,
      location.column⟩ objectType name constraints hab leftParen rightParen

theorem Twin.patternWithin (levels : Nat) :
    Twin T (Pattern.Like T.likeness) (patternWithin levels) (patternWithin levels) := by
  induction levels with
  | zero => exact fun s t hst => .error rfl rfl (.other (by simp)) hst
  | succ levels ih =>
    unfold Parser.patternWithin
    refine .bind .factPattern fun hp => ?_
    exact (Tests.nextIsKeyword (T.notMem_borders (by decide))).choose
      (Twin.live (.bind (.fromSource ih) fun hs => .pure (attachSource_like hp hs))) (.pure hp)

theorem Twin.sourcedPattern :
    Twin T (Pattern.Like T.likeness) sourcedPattern sourcedPattern :=
  .byLevels fun n => .patternWithin n

end Rulebook.Parser
