import Rulebook.Proofs.Tokenwise

/-!
# What a success depends on

A production that succeeds without complaint would have done the same before any other continuation
of the text, unless it was the token behind it that told it to end. So success is a matter of the
tokens that were taken, and of what the next one may continue: `Local continues p` says this of the
production `p`, where `continues` tells the kinds of tokens that may go on with what was read.

Only success is spoken of. A trial that fails, an error that is recovered from, and a remark may
look further ahead, but the first does not succeed and the others complain.
-/

namespace Rulebook.Parser

set_option synthInstance.maxSize 100000

variable {α β : Type} {k : Nat} {s t u : State}

/-! ### Local productions -/

/-- What was read up to `u` ends there in the text of `t`, too: some of what the two texts have in
common is left, or the token behind it does not continue what was read. -/
def Uncontinued (continues : Cursor → TokenKind → Prop) (k : Nat) (u t : State) : Prop :=
  u.cursor.AtBrink k → ¬continues u.cursor (t.cursor.rewind u.cursor.index).current.kind

def anything : Cursor → TokenKind → Prop := fun _ _ => True

def nothing : Cursor → TokenKind → Prop := fun _ _ => False

theorem uncontinued_anything : Uncontinued anything k u t ↔ ¬u.cursor.AtBrink k :=
  ⟨fun h hbrink => h hbrink trivial, fun h hbrink => absurd hbrink h⟩

namespace Uncontinued

variable {continues : Cursor → TokenKind → Prop}

theorem after (h : Uncontinued continues k u t) {v : State} (htv : t.Evolves v) :
    Uncontinued continues k u v := by
  unfold Uncontinued
  rw [htv.cursor]
  exact h

theorem before {v : State} (h : Uncontinued continues k u t) (hle : u.cursor.index ≤ k)
    (hmoves : u.cursor = v.cursor ∨ v.cursor.Lands u.cursor) : Uncontinued continues k v t := by
  intro hbrink
  rcases hmoves with heq | hlands
  · rw [← heq] at hbrink ⊢
    exact h hbrink
  · exact absurd (Nat.lt_of_lt_of_le hlands.1 hle) (Nat.not_lt.2 hbrink)

end Uncontinued

/-- What succeeds from `s` without complaint gives the same from `t`. -/
structure LocalFrom (continues : Cursor → TokenKind → Prop) (k : Nat) (s t : State) (p : Parser α) :
    Prop where
  again : ∀ {a : α} {u : State}, p s = .ok a u → u.collector.received = s.collector.received →
    u.cursor.index ≤ k → Uncontinued continues k u t →
    ∃ v, p t = .ok a v ∧ u.Alongside k v ∧ v.collector.received = t.collector.received

/-- Success without complaint repeats in every text that has the same beginning, unless it goes on
there with a token that continues what was read. -/
class Local (continues : Cursor → TokenKind → Prop) (p : Parser α) : Prop where
  from_ : ∀ {k : Nat} {s t : State}, s.Alongside k t → LocalFrom continues k s t p

variable {continues continues' : Cursor → TokenKind → Prop}

namespace LocalFrom

theorem mono {p : Parser α} (h : LocalFrom continues k s t p)
    (himp : ∀ c kind, continues c kind → continues' c kind) : LocalFrom continues' k s t p where
  again hu hclean hle hfree :=
    h.again hu hclean hle fun hbrink hno => hfree hbrink (himp _ _ hno)

/-- A sequence: what is behind it in the text must not continue its first part either. -/
theorem bind_of {p : Parser α} {f : α → Parser β} [Orderly p] [∀ a, Orderly (f a)]
    (hp : LocalFrom continues' k s t p)
    (hf : ∀ {a u v}, p s = .ok a u → p t = .ok a v → u.Alongside k v →
      LocalFrom continues k u v (f a))
    (hfree : ∀ {a u b v}, p s = .ok a u → f a u = .ok b v →
      v.collector.received = u.collector.received → v.cursor.index ≤ k →
      Uncontinued continues k v t → Uncontinued continues' k u t) :
    LocalFrom continues k s t (p >>= f) := by
  refine ⟨fun {b v} h hclean hle hv => ?_⟩
  obtain ⟨a, u, hu, hbv⟩ := bind_eq_ok.1 h
  obtain ⟨hclean₁, hclean₂⟩ := clean_of_bind hu hbv hclean
  have huv := Orderly.evolves_ok (f a) hbv
  obtain ⟨u', hu', halong, hclean'⟩ :=
    hp.again hu hclean₁ (Nat.le_trans huv.index hle) (hfree hu hbv hclean₂ hle hv)
  obtain ⟨v', hv', halong', hclean''⟩ := (hf hu hu' halong).again hbv hclean₂ hle
    (hv.after (Orderly.evolves_ok p hu'))
  exact ⟨v', (bind_of_ok hu').trans hv', halong', hclean''.trans hclean'⟩

/-- A sequence whose second part takes a token, or leaves the cursor at the end of the first one. -/
theorem bind {p : Parser α} {f : α → Parser β} [Orderly p] [∀ a, Orderly (f a)]
    [∀ a, Tokenwise (f a)] (hs : s.cursor.triviaVisible = false) (hp : LocalFrom continues k s t p)
    (hf : ∀ {a u v}, p s = .ok a u → p t = .ok a v → u.Alongside k v →
      LocalFrom continues k u v (f a)) : LocalFrom continues k s t (p >>= f) :=
  hp.bind_of hf fun {_ _ _ _} hu hbv hclean hle hv => hv.before hle
    (Tokenwise.moves ((Orderly.evolves_ok p hu).triviaVisible.trans hs) hbv hclean)

/-- A sequence whose second part takes a token. -/
theorem bind_eager {p : Parser α} {f : α → Parser β} [Orderly p] [∀ a, Orderly (f a)]
    (hs : s.cursor.triviaVisible = false)
    (heager : ∀ {a u}, p s = .ok a u → EagerFrom (f a) u)
    (hp : LocalFrom anything k s t p)
    (hf : ∀ {a u v}, p s = .ok a u → p t = .ok a v → u.Alongside k v →
      LocalFrom continues k u v (f a)) : LocalFrom continues k s t (p >>= f) :=
  hp.bind_of hf fun {a u b v} hu hbv _ hle _ => uncontinued_anything.2 fun hbrink => by
    have hlt := (Orderly.evolves_ok (f a) hbv).seek_lt
      ((Orderly.evolves_ok p hu).triviaVisible.trans hs) ((heager hu).takes hbv)
    exact absurd (Nat.lt_of_lt_of_le hlt hle) (Nat.not_lt.2 hbrink)

/-- A sequence after which some of what the texts have in common is left. -/
theorem bind_anything {p : Parser α} {f : α → Parser β} [Orderly p] [∀ a, Orderly (f a)]
    (hp : LocalFrom anything k s t p)
    (hf : ∀ {a u v}, p s = .ok a u → p t = .ok a v → u.Alongside k v →
      LocalFrom anything k u v (f a)) : LocalFrom anything k s t (p >>= f) :=
  hp.bind_of hf fun {a _ _ _} _ hbv _ _ hv => uncontinued_anything.2 fun hbrink =>
    uncontinued_anything.1 hv ((Orderly.evolves_ok (f a) hbv).atBrink hbrink)

/-- A sequence whose first part no token continues. -/
theorem bind_nothing {p : Parser α} {f : α → Parser β} [Orderly p] [∀ a, Orderly (f a)]
    (hp : LocalFrom nothing k s t p)
    (hf : ∀ {a u v}, p s = .ok a u → p t = .ok a v → u.Alongside k v →
      LocalFrom continues k u v (f a)) : LocalFrom continues k s t (p >>= f) :=
  hp.bind_of hf fun _ _ _ _ _ _ hno => hno

theorem congr {p q : Parser α} (h : LocalFrom continues k s t q) (hs : p s = q s) (ht : p t = q t) :
    LocalFrom continues k s t p where
  again hu hclean hle hfree := by
    rw [ht]
    exact h.again (hs ▸ hu) hclean hle hfree

theorem of_error {p : Parser α} {f : Failure} (h : p s = .error f u) :
    LocalFrom continues k s t p := by
  refine ⟨fun {a v} hv => ?_⟩
  rw [h] at hv
  cases hv

theorem of_complaint {p : Parser α}
    (h : s.collector.received < (after p s).collector.received) :
    LocalFrom continues k s t p := by
  refine ⟨fun {a v} hv hclean => ?_⟩
  rw [after_of_ok hv, hclean] at h
  exact absurd h (Nat.lt_irrefl _)

/-- A step that both take in the same way. -/
theorem of_step {p : Parser α} {a : α} {v : State} (h : p s = .ok a u) (h' : p t = .ok a v)
    (halong : u.Alongside k v) (hclean : v.collector.received = t.collector.received) :
    LocalFrom continues k s t p := by
  refine ⟨fun {b w} hw _ _ _ => ?_⟩
  rw [h] at hw
  cases hw
  exact ⟨v, h', halong, hclean⟩

end LocalFrom

/-- A repetition may have more rounds than it needs, so one bound will do for two states. -/
theorem Rolls.exists_rounds {more : α → Parser Bool} {body : α → Parser α} (h : Rolls more body)
    (first : α) (s t : State) : ∃ n, repeatWhile first more body s = rounds more body n first s ∧
      repeatWhile first more body t = rounds more body n first t :=
  ⟨max (s.cursor.remaining + 1) (t.cursor.remaining + 1), h.repeatWhile_eq (Nat.le_max_left _ _),
    h.repeatWhile_eq (Nat.le_max_right _ _)⟩

/-- A repetition that is not asked for does nothing. -/
theorem repeatWhile_unasked {more : α → Parser Bool} {body : α → Parser α} {first : α}
    (h : more first s = .ok false s) : repeatWhile first more body s = .ok first s :=
  Turns.rounds_succ h _

theorem nextIsSymbol_eq_nextIs (c : Symbol) : nextIsSymbol c = nextIs [.symbol c] := by
  unfold nextIsSymbol nextIs
  simp only [List.mem_singleton]

namespace Local

theorem again (p : Parser α) [Local continues p] {a : α} (h : s.Alongside k t) (hu : p s = .ok a u)
    (hclean : u.collector.received = s.collector.received) (hle : u.cursor.index ≤ k)
    (hfree : Uncontinued continues k u t) :
    ∃ v, p t = .ok a v ∧ u.Alongside k v ∧ v.collector.received = t.collector.received :=
  (from_ h).again hu hclean hle hfree

theorem mono {p : Parser α} (h : Local continues p)
    (himp : ∀ c kind, continues c kind → continues' c kind) : Local continues' p :=
  ⟨fun hst => (h.from_ hst).mono himp⟩

/-! ### Combinators -/

instance (a : α) : Local continues (pure a : Parser α) where
  from_ h := .of_step rfl rfl h rfl

instance (e : ParseError) : Local continues (fail e : Parser α) where
  from_ _ := .of_error rfl

instance (f : Failure) : Local continues (throw f : Parser α) where
  from_ _ := .of_error rfl

instance bind (p : Parser α) (f : α → Parser β) [Local continues p] [∀ a, Local continues (f a)]
    [∀ a, Tokenwise (f a)] [Orderly p] [∀ a, Orderly (f a)] : Local continues (p >>= f) where
  from_ h := (from_ h).bind h.hidden fun _ _ huv => from_ huv

instance bind_eager (p : Parser α) (f : α → Parser β) [Local anything p]
    [∀ a, Local continues (f a)] [∀ a, Eager (f a)] [Orderly p] [∀ a, Orderly (f a)] :
    Local continues (p >>= f) where
  from_ h := (from_ h).bind_eager h.hidden (fun _ => Eager.from_ _) fun _ _ huv => from_ huv

instance bind_nothing (p : Parser α) (f : α → Parser β) [Local nothing p]
    [∀ a, Local continues (f a)] [Orderly p] [∀ a, Orderly (f a)] : Local continues (p >>= f) where
  from_ h := (from_ h).bind_nothing fun _ _ huv => from_ huv

instance bind_anything (p : Parser α) (f : α → Parser β) [Local anything p]
    [∀ a, Local anything (f a)] [Orderly p] [∀ a, Orderly (f a)] : Local anything (p >>= f) where
  from_ h := (from_ h).bind_anything fun _ _ huv => from_ huv

instance map (p : Parser α) (f : α → β) [Local continues p] [Orderly p] :
    Local continues (f <$> p) := by
  rw [map_eq_bind]; infer_instance

instance (c : Prop) [Decidable c] (p q : Parser α) [Local continues p] [Local continues q] :
    Local continues (if c then p else q) := by
  split <;> infer_instance

instance : Local anything levels where
  from_ {k s t} h := .of_step (levels_eq s) ((levels_eq t).trans (by rw [h.stack])) h rfl

instance nested (n : Nesting) (p : Parser α) [Local continues p] [Orderly p] :
    Local continues (nested n p) where
  from_ {k s t} h := ⟨fun {a u} hu hclean hle hfree => by
    obtain ⟨hroom, v, hv, rfl⟩ := nested_eq_ok.1 hu
    obtain ⟨w, hw, halong, hw'⟩ := again p (h.within n) hv hclean hle hfree
    exact ⟨t.unwound w, nested_of_ok (h.stack ▸ hroom) hw, h.unwound halong, hw'⟩⟩

/-! ### Looking and consuming -/

instance : Local anything current where
  from_ {k s t} h := ⟨fun {a u} hu hclean hle hfree => by
    have hbrink : ¬s.cursor.AtBrink k := by
      cases hu
      exact uncontinued_anything.1 hfree
    cases hu
    exact ⟨t, (current_eq t).trans (by rw [h.cursor.current_eq hbrink]), h, rfl⟩⟩

instance (kinds : List TokenKind) : Local anything (nextIs kinds) := by
  unfold nextIs; infer_instance

instance (c : Symbol) : Local anything (nextIsSymbol c) := by unfold nextIsSymbol; infer_instance

instance (w : Keyword) : Local anything (nextIsKeyword w) := by unfold nextIsKeyword; infer_instance

theorem advance_from (h : s.Alongside k t) (hbrink : ¬s.cursor.AtBrink k) :
    LocalFrom continues k s t advance := by
  refine .of_step (advance_eq s) ?_ (h.advanced hbrink) (received_advanced t)
  rw [advance_eq, h.cursor.current_eq hbrink]

instance : Local anything advance where
  from_ h := ⟨fun hu hclean hle hfree =>
    (advance_from h fun hbrink => uncontinued_anything.1 hfree
      ((Orderly.evolves_ok advance hu).atBrink hbrink)).again hu hclean hle hfree⟩

/-- A production that takes a token is compared where a token is left that both texts have. -/
theorem of_eager {p : Parser α} [Eager p] [Orderly p]
    (h : ∀ {k s t}, s.Alongside k t → ¬s.cursor.AtBrink k → LocalFrom continues k s t p) :
    Local continues p where
  from_ hst := by
    refine ⟨fun hu hclean hle hfree => (h hst fun hbrink => ?_).again hu hclean hle hfree⟩
    have hlt := (Orderly.evolves_ok p hu).seek_lt hst.hidden (Eager.takes p hu)
    exact absurd (Nat.lt_of_lt_of_le hlt hle) (Nat.not_lt.2 hbrink)

theorem expect {kind : TokenKind} (hkind : kind ≠ .endOfInput) : Local continues (expect kind) := by
  have := Eager.expect hkind
  refine of_eager fun {k s t} h hbrink => ?_
  by_cases hk : s.cursor.current.kind = kind
  · refine .of_step ((expect_eq kind s).trans (if_pos hk)) ?_ (h.advanced hbrink)
      (received_advanced t)
    rw [expect_eq, ← h.cursor.current_eq hbrink, if_pos hk]
  · exact .of_error ((expect_eq kind s).trans (if_neg hk))

instance (c : Symbol) : Local continues (symbol c) := expect (by simp)

instance (w : Keyword) : Local continues (keyword w) := expect (by simp)

instance : Local continues name := of_eager fun {k s t} h hbrink => by
  by_cases hk : s.cursor.current.isName = true
  · refine .of_step ((name_eq s).trans (if_pos hk)) ?_ (h.advanced hbrink) (received_advanced t)
    rw [name_eq, ← h.cursor.current_eq hbrink, if_pos hk]
  · exact .of_error ((name_eq s).trans (if_neg hk))

instance (kind : TokenKind) : Local anything (accept kind) := by unfold accept; infer_instance

instance (c : Symbol) : Local anything (skip c) := by unfold skip; infer_instance

instance : Local continues lastStop where
  from_ {k s t} h := by
    have hlast : ∀ s, lastStop s = .ok (s.cursor.previous.map (·.stop)) s := fun _ => rfl
    exact .of_step (hlast s) ((hlast t).trans (by rw [h.cursor.previous_eq])) h rfl

instance (l : Location) : Local continues (close l) := by unfold close; infer_instance

/-! ### Repetition -/

theorem of_rolls {more : α → Parser Bool} {body : α → Parser α} (hrolls : Rolls more body)
    (first : α) (h : ∀ n, Local continues (rounds more body n first)) :
    Local continues (repeatWhile first more body) where
  from_ {k s t} hst := by
    obtain ⟨n, hs, ht⟩ := hrolls.exists_rounds first s t
    refine ⟨fun {a u} hu hclean hle hfree => ?_⟩
    rw [hs] at hu
    rw [ht]
    exact ((h n).from_ hst).again hu hclean hle hfree

instance rounds (more : α → Parser Bool) (body : α → Parser α) [∀ a, Local anything (more a)]
    [∀ a, Local anything (body a)] [∀ a, Orderly (more a)] [∀ a, Orderly (body a)] (n : Nat)
    (a : α) : Local anything (rounds more body n a) := by
  induction n generalizing a with
  | zero => unfold Parser.rounds; infer_instance
  | succ n ih => unfold Parser.rounds; infer_instance

theorem repeatWhile {more : α → Parser Bool} {body : α → Parser α} (hrolls : Rolls more body)
    (first : α) [∀ a, Local anything (more a)] [∀ a, Local anything (body a)]
    [∀ a, Orderly (more a)] [∀ a, Orderly (body a)] :
    Local anything (repeatWhile first more body) :=
  of_rolls hrolls first fun _ => inferInstance

/-! ### Tests of the next token -/

/-- A choice by the next token, where the tokens that decide for the first alternative continue what
was read: the first alternative takes a token, the second one may end. -/
theorem choose_from {kinds : List TokenKind} {p q : Parser α} [Eager p] [Orderly p] [Orderly q]
    [Local continues p] [Local continues q] [Tokenwise q] (h : s.Alongside k t)
    (hkinds : ∀ kind ∈ kinds, continues s.cursor kind) :
    LocalFrom continues k s t (nextIs kinds >>= fun c => if c then p else q) := by
  refine ⟨fun {a u} hu hclean hle hfree => ?_⟩
  rw [bind_of_ok (nextIs_eq kinds s)] at hu
  rw [bind_of_ok (nextIs_eq kinds t)]
  by_cases hbrink : s.cursor.AtBrink k
  · by_cases hs : s.cursor.current.kind ∈ kinds
    · rw [if_pos (decide_eq_true hs)] at hu
      have hlt := (Orderly.evolves_ok p hu).seek_lt h.hidden (Eager.takes p hu)
      exact absurd (Nat.lt_of_lt_of_le hlt hle) (Nat.not_lt.2 hbrink)
    · rw [if_neg (by simpa using hs)] at hu
      have ht : t.cursor.current.kind ∉ kinds := by
        rcases Tokenwise.seek_lt q h.hidden hu hclean with heq | hlt
        · intro hno
          refine hfree (by rw [heq]; exact hbrink) ?_
          rw [heq]
          refine hkinds _ ?_
          rw [h.cursor.index]
          exact hno
        · exact absurd (Nat.lt_of_lt_of_le hlt hle) (Nat.not_lt.2 hbrink)
      rw [if_neg (by simpa using ht)]
      exact again _ h hu hclean hle hfree
  · rw [← h.cursor.current_eq hbrink]
    split at hu
    · next hs =>
      rw [if_pos hs]
      exact again _ h hu hclean hle hfree
    · next hs =>
      rw [if_neg hs]
      exact again _ h hu hclean hle hfree

theorem choose {kinds : List TokenKind} {p q : Parser α} [Eager p] [Orderly p] [Orderly q]
    [Local continues p] [Local continues q] [Tokenwise q]
    (hkinds : ∀ c, ∀ kind ∈ kinds, continues c kind) :
    Local continues (nextIs kinds >>= fun c => if c then p else q) :=
  ⟨fun h => choose_from h (hkinds _)⟩

theorem repeat_kinds {kinds : List TokenKind} {body : α → Parser α}
    (hrolls : Rolls (fun _ => nextIs kinds) body) (first : α) [∀ a, Local continues (body a)]
    [∀ a, Eager (body a)] [∀ a, Tokenwise (body a)] [∀ a, Orderly (body a)]
    (hkinds : ∀ c, ∀ kind ∈ kinds, continues c kind) :
    Local continues (Parser.repeatWhile first (fun _ => nextIs kinds) body) := by
  refine of_rolls hrolls first fun n => ?_
  induction n generalizing first with
  | zero => unfold Parser.rounds; infer_instance
  | succ n ih =>
    unfold Parser.rounds
    exact choose hkinds

theorem repeat_symbol {x : Symbol} {body : α → Parser α}
    (hrolls : Rolls (fun _ => nextIsSymbol x) body) (first : α) [∀ a, Local continues (body a)]
    [∀ a, Eager (body a)] [∀ a, Tokenwise (body a)] [∀ a, Orderly (body a)]
    (hx : ∀ c, continues c (.symbol x)) :
    Local continues (Parser.repeatWhile first (fun _ => nextIsSymbol x) body) := by
  simp only [nextIsSymbol_eq_nextIs] at hrolls ⊢
  exact repeat_kinds hrolls first fun c kind hkind => List.mem_singleton.1 hkind ▸ hx c

/-! ### Remarks -/

instance (message : String) (token : Token) : Local continues (remark message token) where
  from_ {k s t} h := by
    by_cases hs : 0 < s.trials
    · refine .of_step ((remark_eq message token s).trans (by rw [if_pos hs])) ?_ h rfl
      rw [remark_eq, if_pos (h.trials ▸ hs)]
    · refine .of_complaint ?_
      rw [after_of_ok (remark_eq message token s), if_neg hs]
      show _ < (s.collector.remark message token s.ruleName).received
      rw [Collector.received_remark]
      exact Nat.lt_succ_self _

instance (code : String) (token : Token) : Local continues (checkSemicolon code token) := by
  unfold checkSemicolon; infer_instance

end Local

end Rulebook.Parser
