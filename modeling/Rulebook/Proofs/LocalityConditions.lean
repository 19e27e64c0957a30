import Rulebook.Proofs.PartingConditions
import Rulebook.Proofs.Shelter

/-!
# Conditions before any continuation

A condition that is read without complaint is read in the same way from every text that begins like
this one, unless the token behind it may continue a condition.

A source may go on behind its last name: with a call, an index or a further name. `accumulate` and
`collect` are tried first. If the trial fails and the parentheses behind the word are read as those
of a call, then the trial has failed inside them, and fails whatever is behind them.
-/

namespace Rulebook

open Rulebook.Parser

def continuingKinds : List TokenKind :=
  orKinds ++ andKinds ++ [.symbol .semicolon, .keyword .from_, .symbol .dot, .symbol .lbracket]

def Continues (c : Cursor) (kind : TokenKind) : Prop :=
  kind ∈ continuingKinds ∨ kind = .symbol .lparen ∧ ∃ t ∈ c.previous, t.isName = true

namespace Parser

set_option synthInstance.maxSize 100000

variable {α β : Type} {k : Nat} {s t u v : State}

theorem nextIsKeyword_eq_nextIs (w : Keyword) : nextIsKeyword w = nextIs [.keyword w] := by
  unfold nextIsKeyword nextIs
  simp only [List.mem_singleton]

namespace Local

/-! ### Behind a name -/

theorem arguments?_from (h : s.Alongside k t) (hname : ∃ a ∈ s.cursor.previous, a.isName = true) :
    LocalFrom Continues k s t arguments? := by
  unfold arguments?
  rw [nextIsSymbol_eq_nextIs]
  exact choose_from h fun kind hkind => .inr ⟨List.mem_singleton.1 hkind, hname⟩

theorem name_bind {f : Token → Parser β} [∀ a, Orderly (f a)] [∀ a, Tokenwise (f a)]
    (h : s.Alongside k t) (hf : ∀ {a u v}, u.Alongside k v →
      (∃ b ∈ u.cursor.previous, b.isName = true) → LocalFrom Continues k u v (f a)) :
    LocalFrom Continues k s t (name >>= f) :=
  (from_ h).bind h.hidden fun {a u v} hu _ huv => by
    refine hf huv ?_
    rw [name_eq] at hu
    split at hu
    · next hname =>
      cases hu
      exact ⟨_, Cursor.previous_consume h.hidden (Eager.ne_endOfInput_of_isName hname), hname⟩
    · cases hu

instance (chain : List Access) (bracket : Token) : Local Continues (indexAccess chain bracket) := by
  unfold indexAccess; infer_instance

instance (chain : List Access) : Local Continues (memberAccess chain) where
  from_ h := by
    unfold memberAccess
    refine (from_ h).bind_eager h.hidden (fun _ => Eager.from_ _) fun _ _ huv => ?_
    refine (from_ huv).bind_eager huv.hidden (fun _ => Eager.from_ _) fun _ _ huv => ?_
    refine name_bind huv fun huv hname => ?_
    exact (arguments?_from huv hname).bind huv.hidden fun _ _ huv => from_ huv

instance (chain : List Access) : Local Continues (access chain) := by
  unfold access; infer_instance

theorem accesses : Local Continues
    (Parser.repeatWhile [] (fun _ => nextIs [.symbol .dot, .symbol .lbracket]) access) :=
  repeat_kinds Repetition.accesses.rolls [] fun _ _ hkind =>
    .inl ((by decide : [.symbol .dot, .symbol .lbracket] ⊆ continuingKinds) hkind)

instance : Local Continues retrievalParts where
  from_ h := by
    have := accesses
    unfold retrievalParts
    refine name_bind h fun huv hname => ?_
    exact (arguments?_from huv hname).bind huv.hidden fun _ _ huv => from_ huv

theorem of_alike {p : Parser α} {continues : Cursor → TokenKind → Prop} (h : Alike k s t p)
    (hclean : (after p t).collector.received = t.collector.received) :
    LocalFrom continues k s t p := by
  cases h with
  | ok hs ht h => exact .of_step hs ht h (by rwa [after_of_ok ht] at hclean)
  | error hs _ _ => exact .of_error hs

instance : Local Continues retrieval := of_eager fun {k s t} h hbrink => by
  rw [retrieval_eq]
  refine ⟨fun {a u} hu hclean hle hfree => ?_⟩
  rw [bind_of_ok (current_eq s)] at hu
  rw [bind_of_ok (current_eq t), ← h.cursor.current_eq hbrink]
  refine LocalFrom.again ?_ hu hclean hle hfree
  have hseek := Nat.lt_of_not_le hbrink
  refine (from_ h).bind h.hidden fun {parts u v} hu _ huv => ?_
  refine of_alike (retrievalOf_alike huv hseek parts ?_) rfl
  rw [(Orderly.evolves_ok retrievalParts hu).cursor]
  rfl

end Local

/-! ### Trials that fail -/

def State.cutAt (s : State) (k : Nat) : State :=
  { s with cursor := { s.cursor with front := s.cursor.front.extract 0 k } }

theorem State.alongside_cutAt (hs : s.cursor.triviaVisible = false) (hindex : s.cursor.index ≤ k)
    (hsize : k ≤ s.cursor.front.size) : (s.cutAt k).Alongside k s := by
  have hfront : (s.cutAt k).cursor.front.size = k := by simp [State.cutAt, hsize]
  refine ⟨⟨rfl, hindex, Nat.le_of_eq hfront.symm, hsize, rfl, fun i hi => ?_, fun _ _ _ _ => rfl⟩,
    hs, rfl, rfl⟩
  rw [Cursor.tokenAt_of_lt (hfront.symm ▸ hi), Cursor.tokenAt_of_lt (Nat.lt_of_lt_of_le hi hsize)]
  simp [State.cutAt]

theorem steps_of_retrieval {r : Retrieval} (h : retrieval s = .ok r u) :
    ∃ arguments v chain, arguments? s.advanced = .ok arguments v ∧
      repeatWhile [] (fun _ => nextIs [.symbol .dot, .symbol .lbracket]) access v =
        .ok chain u := by
  rw [retrieval_eq, bind_of_ok (current_eq s)] at h
  obtain ⟨parts, v, hparts, hu⟩ := bind_eq_ok.1 h
  obtain ⟨head, w, hhead, hparts⟩ := bind_eq_ok.1 hparts
  obtain ⟨arguments, x, harguments, hparts⟩ := bind_eq_ok.1 hparts
  obtain ⟨chain, y, hchain, hparts⟩ := bind_eq_ok.1 hparts
  obtain ⟨rfl, rfl⟩ := pure_ok hparts
  obtain ⟨-, rfl⟩ := EStateM.Result.ok.inj ((retrievalOf_eq ..).symm.trans hu)
  rw [name_eq] at hhead
  split at hhead <;> cases hhead
  exact ⟨arguments, x, chain, harguments, hchain⟩

/-- A retrieval that ends where nothing is left that two texts have in common behind its name is no
more than that name. -/
theorem cursor_of_retrieval {r : Retrieval} (hs : s.cursor.triviaVisible = false)
    (h : retrieval s = .ok r u) (hclean : u.collector.received = s.collector.received)
    (hle : u.cursor.index ≤ k) (hbrink : s.advanced.cursor.AtBrink k) :
    u.cursor = s.advanced.cursor := by
  obtain ⟨arguments, v, chain, hv, hu⟩ := steps_of_retrieval h
  have hsv := (Orderly.evolves_advanced s).trans (Orderly.evolves_ok arguments? hv)
  have hvu := Orderly.evolves_ok (repeatWhile _ _ _) hu
  have hclean₁ : v.collector.received = s.advanced.collector.received := by
    have := received_advanced s
    have := (Orderly.evolves_ok arguments? hv).received_le
    have := hvu.received_le
    omega
  have hclean₂ : u.collector.received = v.collector.received := by
    rw [hclean₁, received_advanced, hclean]
  have hstep : ∀ {c d : Cursor}, c.AtBrink k → d.index ≤ k →
      (d = c ∨ c.seek c.index < d.index) → d = c := fun hbrink hle hmoves =>
    hmoves.resolve_right fun hlt => absurd (Nat.lt_of_lt_of_le hlt hle) (Nat.not_lt.2 hbrink)
  have hv' := hstep hbrink (Nat.le_trans hvu.index hle)
    (Tokenwise.seek_lt arguments? ((Orderly.evolves_advanced s).triviaVisible.trans hs) hv hclean₁)
  have hu' := hstep (hv' ▸ hbrink) hle
    (Tokenwise.seek_lt (repeatWhile _ _ _) (hsv.triviaVisible.trans hs) hu hclean₂)
  exact hu'.trans hv'

/-- The parentheses of a call are closed before the retrieval ends. -/
theorem enclosed_of_retrieval {r : Retrieval} (h : retrieval s = .ok r u)
    (hparen : s.advanced.cursor.current.kind = .symbol .lparen) :
    ∃ room inner x more, enclosed .lparen .rparen [] room 1 s.advanced.advanced.cursor.rest =
        ⟨inner, .closed, x :: more⟩ ∧
      s.advanced.advanced.cursor.index + (inner.length + 1) ≤ u.cursor.index := by
  obtain ⟨arguments, v, chain, hv, hu⟩ := steps_of_retrieval h
  have hvu : v.cursor.index ≤ u.cursor.index := (Orderly.evolves_ok (repeatWhile _ _ _) hu).index
  have hnext : nextIsSymbol .lparen s.advanced = .ok true s.advanced :=
    congrArg (EStateM.Result.ok · _) (decide_eq_true hparen)
  unfold arguments? at hv
  rw [bind_of_ok hnext, if_pos rfl] at hv
  obtain ⟨code, hcode, -⟩ := map_eq_ok hv
  obtain ⟨text, htext, -⟩ := map_eq_ok hcode
  obtain ⟨-, inner, x, more, henclosed, -, rfl⟩ := enclosed_of_chunk htext
  exact ⟨_, inner, x, more, henclosed, hvu⟩

section Forms

variable {w : Keyword} {body : Token → Parser Source}

instance [∀ a, Orderly (body a)] : Orderly (form w body) := by unfold form; infer_instance

instance [∀ a, Orderly (body a)] : Eager (form w body) := by unfold form; infer_instance

instance (alternative : String) [∀ a, Orderly (body a)] :
    Orderly (formOrRetrieval alternative w body) := by unfold formOrRetrieval; infer_instance

instance (alternative : String) [∀ a, Orderly (body a)] :
    Eager (formOrRetrieval alternative w body) := by unfold formOrRetrieval; infer_instance

instance [∀ a, Local Continues (body a)] [∀ a, Orderly (body a)] [∀ a, Tokenwise (body a)] :
    Local Continues (form w body) := by
  unfold form; infer_instance

variable (body) in
theorem form_of_lparen (hw : s.cursor.current.kind = .keyword w)
    (hparen : s.advanced.cursor.current.kind = .symbol .lparen) :
    form w body s = body s.cursor.current s.advanced.advanced := by
  have hkeyword : keyword w s = .ok s.cursor.current s.advanced := (expect_eq _ _).trans (if_pos hw)
  have hsymbol : symbol .lparen s.advanced = .ok s.advanced.cursor.current s.advanced.advanced :=
    (expect_eq _ _).trans (if_pos hparen)
  unfold form
  rw [bind_of_ok hkeyword, bind_of_ok hsymbol]

variable (body) in
theorem form_of_ne (hw : s.cursor.current.kind = .keyword w)
    (hparen : s.advanced.cursor.current.kind ≠ .symbol .lparen) :
    ∃ e, form w body s = .error (.recognition e) s.advanced := by
  have hkeyword : keyword w s = .ok s.cursor.current s.advanced := (expect_eq _ _).trans (if_pos hw)
  have hsymbol : symbol .lparen s.advanced =
      .error (.recognition (.mismatchedToken (.symbol .lparen) s.advanced.cursor.current))
      s.advanced :=
    (expect_eq _ _).trans (if_neg hparen)
  unfold form
  exact ⟨_, (bind_of_ok hkeyword).trans (bind_of_error hsymbol)⟩

variable (body) in
/-- A form is tried alike where the parentheses behind its keyword are closed by what two texts have
in common. -/
theorem alike_form [∀ a, Sheltered (body a)] (h : s.Alongside k t) (hs : 0 < s.trials)
    (hw : s.cursor.current.kind = .keyword w)
    (hparen : s.advanced.cursor.current.kind = .symbol .lparen) {room : Nat}
    {inner more : List Token} {x : Token}
    (henclosed : enclosed .lparen .rparen [] room 1 s.advanced.advanced.cursor.rest =
      ⟨inner, .closed, x :: more⟩)
    (hindex : s.advanced.advanced.cursor.index + (inner.length + 1) = k) :
    Alike k s t (form w body) := by
  have hne : s.cursor.current.kind ≠ .endOfInput := by rw [hw]; simp
  have hne' : s.advanced.cursor.current.kind ≠ .endOfInput := by rw [hparen]; simp
  have hlt : s.cursor.seek s.cursor.index < s.advanced.cursor.index := by
    show _ < s.cursor.consume.index
    rw [Cursor.consume_eq hne]
    exact Nat.lt_succ_self _
  have hlt' :
      s.advanced.cursor.seek s.advanced.cursor.index < s.advanced.advanced.cursor.index := by
    show _ < s.advanced.cursor.consume.index
    rw [Cursor.consume_eq hne']
    exact Nat.lt_succ_self _
  have hle : s.advanced.cursor.index ≤ s.advanced.advanced.cursor.index :=
    (Orderly.evolves_advanced s.advanced).index
  have hbrink : ¬s.cursor.AtBrink k := Nat.not_le.2 (by omega)
  have hbrink' : ¬s.advanced.cursor.AtBrink k := Nat.not_le.2 (by omega)
  have hadvanced := (h.advanced hbrink).advanced hbrink'
  -- the text that ends with the closing parenthesis
  have hcut := (State.alongside_cutAt h.hidden h.cursor.index_le h.cursor.first_le).symm
  have hinside := ((hcut.advanced hbrink).advanced hbrink').symm
  generalize hc : (s.cutAt k).advanced.advanced = c at hinside
  have hsize : c.cursor.front.size = k := by
    rw [← hc, (Orderly.evolves_advanced _).front, (Orderly.evolves_advanced _).front]
    simp [State.cutAt, h.cursor.first_le]
  have hclosed : ¬c.Spent := fun hspent => by
    obtain ⟨r, hrest, hlength⟩ := hinside.cursor.exists_rest_of_cut hsize
    have happend := append_of_enclosed henclosed
    have hinner : c.cursor.rest = inner ++ [x] := by
      have hsame : c.cursor.rest ++ r = (inner ++ [x]) ++ more := by
        rw [← hrest, ← happend, List.append_assoc]
        rfl
      refine (List.append_inj hsame ?_).1
      rw [List.length_append, List.length_singleton]
      have := hinside.cursor.index
      omega
    refine @enclosed_ne_closed _ room _ _ (Level.closesAtMost_visible.1 hspent) Nat.one_pos ?_
    rw [hinner, enclosed_of_next henclosed []]
  have hsheltered : ∀ {v : State}, c.Alongside k v → c.Sheltered k v := fun hv =>
    ⟨hv, hsize, ⟨hv.hidden, by rw [← hc]; exact hs⟩, hclosed⟩
  have hbody := (Sheltered.alike (p := body s.cursor.current) (hsheltered hinside)).symm.trans
    (Sheltered.alike (hsheltered (hinside.trans hadvanced)))
  have hform := form_of_lparen body hw hparen
  have hform' := form_of_lparen (s := t) body (h.cursor.current_eq hbrink ▸ hw)
    ((h.advanced hbrink).cursor.current_eq hbrink' ▸ hparen)
  rw [← h.cursor.current_eq hbrink] at hform'
  cases hbody with
  | ok hs ht huv => exact .ok (hform.trans hs) (hform'.trans ht) huv
  | error hs ht huv => exact .error (hform.trans hs) (hform'.trans ht) huv

theorem again_of_trial_false [∀ a, Sheltered (body a)] [∀ a, Orderly (body a)]
    {alternative : String} {r : Retrieval} (h : s.Alongside k t) (hbrink : ¬s.cursor.AtBrink k)
    (hw : s.cursor.current.kind = .keyword w)
    (htrial : trial alternative (form w body) s = .ok false u) (hread : retrieval u = .ok r v)
    (hclean : v.collector.received = u.collector.received) (hle : v.cursor.index ≤ k)
    (hfree : Uncontinued Continues k v t) :
    ∃ x, trial alternative (form w body) t = .ok false x ∧ u.Alongside k x ∧
      x.collector.received = t.collector.received := by
  have hne : s.cursor.current.kind ≠ .endOfInput := by rw [hw]; simp
  have hname : s.cursor.current.isName = true := by rw [Token.isName, hw]; rfl
  have hw' : t.cursor.current.kind = .keyword w := h.cursor.current_eq hbrink ▸ hw
  have hback := Orderly.trial_of_ok htrial
  have hcursor : u.cursor = s.cursor := by rw [hback]
  have hcursor' : u.advanced.cursor = s.advanced.cursor := congrArg Cursor.consume hcursor
  -- it is enough that what is tried fails
  suffices hfails : ∃ e y, form w body t.trying = .error (.recognition e) y by
    obtain ⟨e, y, hy⟩ := hfails
    have hagain : trial alternative (form w body) t = .ok false _ := trial_of_recognition hy
    have hback' := Orderly.trial_of_ok hagain
    refine ⟨_, hagain, ⟨?_, ?_, ?_, ?_⟩, ?_⟩
    · rw [hback, hback']
      exact h.cursor
    · rw [hcursor]
      exact h.hidden
    · rw [hback, hback']
      exact h.trials
    · rw [hback, hback']
      exact h.stack
    · rw [hback']
  by_cases hparen : t.advanced.cursor.current.kind = .symbol .lparen
  · have hbrink' : ¬s.advanced.cursor.AtBrink k := fun hno => by
      have hstays := cursor_of_retrieval (hcursor ▸ h.hidden) hread hclean hle (hcursor' ▸ hno)
      have hagain : t.cursor.rewind v.cursor.index = t.advanced.cursor := by
        rw [hstays, hcursor', (h.advanced hbrink).cursor.index]
        exact (Orderly.evolves_advanced t).cursor.symm
      refine hfree (by rwa [hstays, hcursor']) (.inr ⟨hagain ▸ hparen, s.cursor.current, ?_, hname⟩)
      rw [hstays, hcursor']
      exact Cursor.previous_consume h.hidden hne
    have hparen' : s.advanced.cursor.current.kind = .symbol .lparen :=
      (h.advanced hbrink).cursor.current_eq hbrink' ▸ hparen
    obtain ⟨_, inner, y, more, henclosed, hindex⟩ :=
      enclosed_of_retrieval hread (hcursor' ▸ hparen')
    have hrest : u.advanced.advanced.cursor = s.advanced.advanced.cursor :=
      congrArg Cursor.consume hcursor'
    rw [hrest] at henclosed hindex
    have hindex' : s.cursor.index ≤ s.advanced.advanced.cursor.index :=
      ((Orderly.evolves_advanced s).trans (Orderly.evolves_advanced s.advanced)).index
    have halike := alike_form body (h.trying.mono (Nat.le_trans hindex hle)
      (Nat.le_trans hindex' (Nat.le_add_right _ _))) (Nat.succ_pos _) hw hparen' henclosed rfl
    cases halike with
    | ok hs => rw [trial_of_passed hs] at htrial; cases htrial
    | @error f _ y hs ht =>
      cases f with
      | recognition e => exact ⟨e, y, ht⟩
      | _ => rw [trial_of_failure hs (by simp)] at htrial; cases htrial
  · obtain ⟨e, he⟩ := form_of_ne (s := t.trying) body hw' hparen
    exact ⟨e, _, he⟩

theorem formOrRetrieval_from [∀ a, Sheltered (body a)] [∀ a, Orderly (body a)]
    [Local Continues (form w body)] {alternative : String} (hform : Alternative (form w body))
    (h : s.Alongside k t) (hw : s.cursor.current.kind = .keyword w) :
    LocalFrom Continues k s t (formOrRetrieval alternative w body) := by
  refine ⟨fun {a v} hv hclean hle hfree => ?_⟩
  have hbrink : ¬s.cursor.AtBrink k := fun hno => by
    have hlt := (Orderly.evolves_ok _ hv).seek_lt h.hidden (Eager.takes _ hv)
    exact absurd (Nat.lt_of_lt_of_le hlt hle) (Nat.not_lt.2 hno)
  obtain ⟨c, u, htrial, hread⟩ := bind_eq_ok.1 hv
  have hclean' : v.collector.received = u.collector.received := by
    rw [hclean, Orderly.trial_of_ok htrial]
  cases c with
  | true =>
    rw [if_pos rfl] at hread
    obtain ⟨x, hx, halong, hsilent⟩ := again_of_trial hform h htrial hread hle hfree
    have hcursor : x.cursor = t.cursor := (trial_ok hx).1
    obtain ⟨y, hy, halong', hsilent'⟩ := Local.again (form w body) halong hread hclean' hle
      (by unfold Uncontinued; rw [hcursor]; exact hfree)
    exact ⟨y, (bind_of_ok hx).trans hy, halong', hsilent'.trans hsilent⟩
  | false =>
    rw [if_neg (by simp)] at hread
    obtain ⟨r, hr, rfl⟩ := map_eq_ok hread
    obtain ⟨x, hx, halong, hsilent⟩ := again_of_trial_false h hbrink hw htrial hr hclean' hle
      hfree
    have hcursor : x.cursor = t.cursor := (trial_ok hx).1
    obtain ⟨y, hy, halong', hsilent'⟩ := Local.again retrieval halong hr hclean' hle
      (by unfold Uncontinued; rw [hcursor]; exact hfree)
    exact ⟨y, (bind_of_ok hx).trans (map_of_ok hy), halong', hsilent'.trans hsilent⟩

end Forms

/-! ### Patterns with sources -/

namespace Local

section Within

variable (pattern : Parser Pattern) [Orderly pattern]

instance : Eager (Parser.fromSource pattern) := by unfold Parser.fromSource; infer_instance

instance (token : Token) [Local anything pattern] :
    Local Continues (accumulateBody pattern token) := by
  unfold accumulateBody; infer_instance

instance (token : Token) [Local anything pattern] :
    Local Continues (collectBody pattern token) := by
  unfold collectBody; infer_instance

end Within

theorem keyword_of_nextIs {w : Keyword} (h : nextIsKeyword w s = .ok true u) :
    u.cursor.current.kind = .keyword w := by
  obtain ⟨hkind, rfl⟩ := EStateM.Result.ok.inj h
  exact of_decide_eq_true hkind

instance fromSource (levels : Nat) [Local anything (patternWithin levels)] :
    Local Continues (fromSource (patternWithin levels)) where
  from_ h := by
    have heq : Parser.fromSource (Parser.patternWithin levels) = (do
      let _ ← keyword .from_
      if ← nextIsKeyword .accumulate then
        formOrRetrieval "accumulate" .accumulate (accumulateBody (Parser.patternWithin levels))
      else if ← nextIsKeyword .collect then
        formOrRetrieval "collect" .collect (collectBody (Parser.patternWithin levels))
      else Source.retrieval <$> retrieval) := rfl
    rw [heq]
    refine (from_ h).bind_eager h.hidden (fun _ => Eager.from_ _) fun {_ u v} _ _ huv => ?_
    refine (from_ huv).bind_eager huv.hidden (fun _ => Eager.from_ _) fun {c u v} hu _ huv => ?_
    split
    · next hc =>
      exact formOrRetrieval_from (.accumulate levels) huv (keyword_of_nextIs (hc ▸ hu))
    refine (from_ huv).bind_eager huv.hidden (fun _ => Eager.from_ _) fun {c u v} hu _ huv => ?_
    split
    · next hc =>
      exact formOrRetrieval_from (.collect levels) huv (keyword_of_nextIs (hc ▸ hu))
    · exact from_ huv

instance patternWithin (levels : Nat) : Local Continues (patternWithin levels) := by
  induction levels with
  | zero => unfold Parser.patternWithin; infer_instance
  | succ levels ih =>
    have hbody : Local anything (Parser.patternWithin levels) := ih.mono fun _ _ _ => trivial
    have hsource : ∀ p : Pattern, Local Continues (nextIsKeyword .from_ >>= fun c =>
        if c then (do return attachSource p (← Parser.fromSource (Parser.patternWithin levels)))
        else return p) := fun p => by
      rw [nextIsKeyword_eq_nextIs]
      exact choose fun _ _ hkind => .inl ((by decide : [.keyword .from_] ⊆ continuingKinds) hkind)
    have hmoves : ∀ p : Pattern, Tokenwise (nextIsKeyword .from_ >>= fun c =>
        if c then (do return attachSource p (← Parser.fromSource (Parser.patternWithin levels)))
        else return p) := fun p => inferInstance
    unfold Parser.patternWithin
    infer_instance

end Local

namespace Local

variable {continues : Cursor → TokenKind → Prop}

/-! ### Ends that may be followed by a token -/

theorem skip_eq_choose (c : Symbol) : skip c = nextIs [.symbol c] >>= fun found =>
    if found then (do let _ ← symbol c) else return () := by
  funext s
  unfold skip
  rw [bind_of_ok (nextIs_eq _ s)]
  by_cases hk : s.cursor.current.kind = .symbol c
  · have hsymbol : symbol c s = .ok s.cursor.current s.advanced := (expect_eq _ s).trans (if_pos hk)
    rw [if_pos (by simpa using hk), bind_of_ok (accept_of_eq hk), bind_of_ok hsymbol]
  · rw [if_neg (by simpa using hk), bind_of_ok (accept_of_ne hk)]

instance : Local Continues (skip .semicolon) := by
  rw [skip_eq_choose]
  exact choose fun _ _ hkind => .inl ((by decide : [.symbol .semicolon] ⊆ continuingKinds) hkind)

theorem infixGroup (kind : Grouping) {connectives : List TokenKind} {operand : Parser Condition}
    (hkinds : connectives ∈ [orKinds, andKinds]) [Local Continues operand] [Orderly operand]
    [Eager operand] [Tokenwise operand] :
    Local Continues (infixGroup kind connectives operand) := by
  have hloop : Local Continues (Parser.repeatWhile [] (fun _ => nextIs connectives) fun others => do
      let _ ← advance
      return others ++ [← operand]) :=
    repeat_kinds (Repetition.infix_ hkinds operand).rolls [] fun _ _ hkind => .inl <|
      (by decide : ∀ kinds ∈ [orKinds, andKinds], kinds ⊆ continuingKinds) _ hkinds hkind
  unfold Parser.infixGroup
  infer_instance

theorem disjunction (single : Parser Condition) [Local Continues single] [Orderly single]
    [Eager single] [Tokenwise single] : Local Continues (disjunction single) := by
  have hkinds : andKinds ∈ [orKinds, andKinds] := by simp
  have hconjunction : Local Continues (Parser.infixGroup .and andKinds single) :=
    infixGroup .and hkinds
  exact infixGroup .or (by simp)

/-! ### What is between parentheses -/

instance (connective : Token) (operands : List Condition) :
    Local continues (closeOperands connective operands) where
  from_ h := by
    cases operands with
    | nil =>
      refine ⟨fun hu => ?_⟩
      cases hu
    | cons first others => exact from_ (p := symbol .rparen >>= _) h

instance (x : α) : Local anything (unclosed x) := by unfold unclosed; infer_instance

section Within

variable (levels : Nat) [Local Continues (conditionWithin levels)]

instance inside : Local anything (conditionWithin levels) :=
  (inferInstance : Local Continues (conditionWithin levels)).mono fun _ _ _ => trivial

instance prefixGroup :
    Local continues (prefixGroup (Parser.nested .prefixed (conditionWithin levels))) := by
  have hbody : ∀ operands, Local anything
      (anotherOperand (Parser.nested .prefixed (conditionWithin levels)) operands) :=
    fun _ => by unfold anotherOperand; infer_instance
  have hloop := Local.repeatWhile (Repetition.prefix_ levels).rolls []
  rw [prefixGroup_eq_join]
  infer_instance

instance parenthesised : Local continues (parenthesised (conditionWithin levels)) := by
  have hdisjunction := disjunction (Parser.nested .group (conditionWithin levels))
  have hinside :
      Local anything (Parser.disjunction (Parser.nested .group (conditionWithin levels))) :=
    hdisjunction.mono fun _ _ _ => trivial
  unfold Parser.parenthesised
  infer_instance

instance operand : Local Continues (operand (conditionWithin levels)) := by
  unfold Parser.operand sourcedPattern
  infer_instance

instance (k : Keyword) (kind : Grouping) :
    Local Continues (unaryGroup k kind (conditionWithin levels)) := by
  unfold unaryGroup; infer_instance

instance : Local continues evalCondition := by unfold evalCondition; infer_instance

instance : Local continues forallCondition := by
  have hbody : ∀ patterns, Local anything (anotherPattern patterns) :=
    fun _ => by unfold anotherPattern; infer_instance
  have hloop := fun base : List Pattern => Local.repeatWhile Repetition.forall_.rolls base
  rw [forallCondition_eq]
  infer_instance

instance : Local Continues (singleCondition (conditionWithin levels)) := by
  unfold singleCondition sourcedPattern
  infer_instance

end Within

instance conditionWithin (levels : Nat) : Local Continues (conditionWithin levels) := by
  induction levels with
  | zero => unfold Parser.conditionWithin; infer_instance
  | succ levels ih => unfold Parser.conditionWithin; infer_instance

instance conditions : Local Continues conditions := by
  have hcondition : Local Continues condition := by unfold condition; infer_instance
  exact disjunction condition

end Local

end Parser

end Rulebook
