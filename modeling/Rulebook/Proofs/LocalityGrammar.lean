import Rulebook.Proofs.Foresight
import Rulebook.Proofs.Locality
import Rulebook.Proofs.Onward
import Rulebook.Proofs.Repetitions

/-!
# What is between parentheses

Names, embedded code, restrictions, constraints and patterns without a source. Each of them but a
bare name ends with a delimiter, or stands within a pattern, which does.
-/

namespace Rulebook.Parser

set_option synthInstance.maxSize 100000

variable {α β : Type} {k : Nat} {s t u : State} {continues : Cursor → TokenKind → Prop}

/-! ### Closing words -/

/-- Any token but a closing word may continue what was read. -/
class Proceeds (continues : Cursor → TokenKind → Prop) : Prop where
  of_notMem : ∀ {c : Cursor} {kind : TokenKind}, kind ∉ closingWords → continues c kind

instance : Proceeds anything := ⟨fun _ => trivial⟩

theorem Proceeds.symbol [Proceeds continues] (c : Cursor) (x : Symbol) : continues c (.symbol x) :=
  of_notMem (by simp [closingWords])

/-- Where what was read is not continued and nothing is left of what two texts have in common, the
second one has a closing word next. -/
theorem Uncontinued.closing [Proceeds continues] (h : Uncontinued continues k s t)
    (hst : s.Alongside k t) (hbrink : s.cursor.AtBrink k) :
    t.cursor.current.kind ∈ closingWords := by
  by_contra hno
  refine h hbrink (Proceeds.of_notMem ?_)
  rw [hst.cursor.index]
  exact hno

/-! ### The token after the next one -/

/-- A symbol stands behind the next token in both texts or in neither, where something is read from
there that takes this token, and the symbol as well if it is there. -/
theorem State.Alongside.lookahead_symbol_iff {x : Symbol} (h : s.Alongside k t)
    (hx : ∀ c, continues c (.symbol x)) (hsu : s.Evolves u)
    (htaken : (s.cursor.lookahead 2).kind ≠ .symbol x →
      s.cursor.seek s.cursor.index < u.cursor.index)
    (hboth : (s.cursor.lookahead 2).kind = .symbol x →
      s.cursor.seek (s.cursor.seek s.cursor.index + 1) < u.cursor.index)
    (hle : u.cursor.index ≤ k) (hfree : Uncontinued continues k u t) :
    (s.cursor.lookahead 2).kind = .symbol x ↔ (t.cursor.lookahead 2).kind = .symbol x := by
  by_cases hnext : s.cursor.seek (s.cursor.seek s.cursor.index + 1) < k
  · rw [h.cursor.lookahead_eq hnext]
  · have hnext := Nat.le_of_not_lt hnext
    have hs : (s.cursor.lookahead 2).kind ≠ .symbol x := fun hs =>
      absurd (Nat.lt_of_lt_of_le (hboth hs) hle) (Nat.not_lt.2 hnext)
    refine iff_of_false hs fun ht => ?_
    have hlt := htaken hs
    have hseek : s.cursor.seek s.cursor.index < k := Nat.lt_of_lt_of_le hlt hle
    have hbrink : (s.cursor.rewind (s.cursor.seek s.cursor.index + 1)).AtBrink k := hnext
    have hbrink' : u.cursor.AtBrink k := hbrink.mono (by rw [hsu.cursor]; rfl) hlt
    refine hfree hbrink' ?_
    have hcurrent : (t.cursor.rewind u.cursor.index).current = t.cursor.lookahead 2 := by
      have hrewind := (h.cursor.rewind (i := s.cursor.seek s.cursor.index + 1) hseek).current_rewind
        h.hidden hbrink hlt hle
      rw [show t.cursor.lookahead 2 =
        (t.cursor.rewind (t.cursor.seek t.cursor.index + 1)).current from rfl, ← h.cursor.index,
        h.cursor.seek_eq h.cursor.index_le hseek]
      exact hrewind
    rw [hcurrent, ht]
    exact hx _

/-- A choice by the token after the next one. The first alternative takes both tokens; the
second one takes the first of them and is read in the same way whatever stands at the place of
the second. -/
theorem LocalFrom.peek_symbol {x : Symbol} {p q : Parser α} [Orderly p] [Orderly q]
    (h : s.Alongside k t) (hx : ∀ c, continues c (.symbol x))
    (hp : ∀ {a u}, (s.cursor.lookahead 2).kind = .symbol x → p s = .ok a u →
      s.cursor.seek (s.cursor.seek s.cursor.index + 1) < u.cursor.index)
    (hq : EagerFrom q s) (hp' : LocalFrom continues k s t p) (hq' : LocalFrom continues k s t q) :
    LocalFrom continues k s t (peek 1 >>= fun next => if next.kind = .symbol x then p else q) := by
  refine ⟨fun {a u} hu hclean hle hfree => ?_⟩
  rw [bind_of_ok (peek_eq 1 s)] at hu
  rw [bind_of_ok (peek_eq 1 t)]
  split at hu
  · next hs =>
    have hsame :=
      h.lookahead_symbol_iff hx (Orderly.evolves_ok p hu) (absurd hs) (fun _ => hp hs hu) hle hfree
    rw [if_pos (hsame.1 hs)]
    exact hp'.again hu hclean hle hfree
  · next hs =>
    have hsu := Orderly.evolves_ok q hu
    have hsame := h.lookahead_symbol_iff hx hsu (fun _ => hsu.seek_lt h.hidden (hq.takes hu))
      (fun hno => absurd hno hs) hle hfree
    rw [if_neg fun ht => hs (hsame.2 ht)]
    exact hq'.again hu hclean hle hfree

/-- Going on by the next token, where both texts have it. -/
theorem LocalFrom.current_bind {f : Token → Parser β} (h : s.Alongside k t)
    (hbrink : ¬s.cursor.AtBrink k) (hf : LocalFrom continues k s t (f s.cursor.current)) :
    LocalFrom continues k s t (current >>= f) :=
  hf.congr (bind_of_ok (current_eq s))
    ((bind_of_ok (current_eq t)).trans (by rw [h.cursor.current_eq hbrink]))

/-- A repetition that is asked for takes what its first round takes. -/
theorem seek_lt_of_repeatWhile {more : α → Parser Bool} {body : α → Parser α}
    [∀ a, Orderly (more a)] [∀ a, Orderly (body a)] [∀ a, Eager (body a)] {first a : α}
    (hs : s.cursor.triviaVisible = false) (hmore : more first s = .ok true s)
    (h : repeatWhile first more body s = .ok a u) :
    s.cursor.seek s.cursor.index < u.cursor.index := by
  have hrounds : rounds more body (s.cursor.remaining + 1) first s = .ok a u := h
  rw [Turns.rounds_succ hmore, if_pos rfl] at hrounds
  obtain ⟨b, v, hv, hrest⟩ := bind_eq_ok.1 hrounds
  have hlt := (Orderly.evolves_ok (body first) hv).seek_lt hs (Eager.takes _ hv)
  exact Nat.lt_of_lt_of_le hlt (Orderly.evolves_ok (rounds more body _ b) hrest).index

theorem seek_lt_of_dottedName {text : String} (hs : s.cursor.triviaVisible = false)
    (hdot : (s.cursor.lookahead 2).kind = .symbol .dot) (h : dottedName s = .ok text u) :
    s.cursor.seek (s.cursor.seek s.cursor.index + 1) < u.cursor.index := by
  obtain ⟨first, v, hv, h⟩ := bind_eq_ok.1 h
  rw [name_eq] at hv
  split at hv
  · next hname =>
    cases hv
    have hne := Eager.ne_endOfInput_of_isName hname
    have hmore : nextIsSymbol .dot s.advanced = .ok true s.advanced := by
      refine congrArg (EStateM.Result.ok · _) (decide_eq_true ?_)
      rw [show s.advanced.cursor.current = _ from Cursor.current_consume hs hne]
      exact hdot
    have hadvanced : s.advanced.cursor.triviaVisible = false :=
      (Cursor.triviaVisible_consume _).trans hs
    have hlt :=
      @seek_lt_of_repeatWhile _ _ _ (fun _ => nextIsSymbol .dot) _ _ _ _ _ _ hadvanced hmore h
    rw [show s.advanced.cursor = s.cursor.rewind (s.cursor.seek s.cursor.index + 1) from
      Cursor.consume_eq hne] at hlt
    exact hlt
  · cases hv

namespace Local

variable [Proceeds continues]

/-! ### Names -/

instance : Local continues dottedName := by
  have hloop := fun text => repeat_symbol Repetition.dottedName.rolls text
    (@Proceeds.symbol continues _ · .dot)
  unfold dottedName
  infer_instance

/-- A production behind a name that may be bound. -/
theorem bindingName_bind (f : Option String → Parser β) [∀ o, Local continues (f o)]
    [∀ o, Eager (f o)] [∀ o, Orderly (f o)] : Local continues (bindingName >>= f) := by
  refine of_eager fun {k s t} h hbrink => ?_
  have hlook : ∀ v : State, v.cursor.current = s.cursor.current →
      (bindingName >>= f) v = (peek 1 >>= fun next =>
        if s.cursor.current.isName && decide (next.kind = .symbol .colon) then
          advance >>= fun _ => advance >>= fun _ => f (some s.cursor.current.text)
        else f none) v := by
    intro v hv
    unfold bindingName
    rw [bind_assoc, bind_of_ok (current_eq v), hv, bind_assoc, bind_of_ok (peek_eq 1 v),
      bind_of_ok (peek_eq 1 v)]
    split <;> rfl
  have hcurrent := h.cursor.current_eq hbrink
  refine .congr ?_ (hlook s rfl) (hlook t hcurrent.symm)
  cases hname : s.cursor.current.isName with
  | false =>
    simp only [Bool.false_and, Bool.false_eq_true, if_false]
    exact .congr (from_ h) (bind_of_ok (peek_eq 1 s)) (bind_of_ok (peek_eq 1 t))
  | true =>
    simp only [Bool.true_and, decide_eq_true_eq]
    have hne := Eager.ne_endOfInput_of_isName hname
    refine .peek_symbol h (Proceeds.symbol · .colon) (fun {a u} hcolon hu => ?_) (Eager.from_ s)
      (from_ h) (from_ h)
    rw [bind_of_ok (advance_eq s)] at hu
    have hlt := (Orderly.evolves_ok _ hu).seek_lt (h.advanced hbrink).hidden
      ((Eager.from_ (p := advance >>= fun _ => f _) s.advanced).takes hu)
    have hadvanced : s.advanced.cursor = s.cursor.rewind (s.cursor.seek s.cursor.index + 1) :=
      Cursor.consume_eq hne
    rw [hadvanced] at hlt
    exact hlt

/-! ### Embedded code -/

omit [Proceeds continues] in
instance (opening closing : Symbol) (stops : List Symbol) :
    Local continues (chunk opening closing stops) := by
  refine of_eager fun {k s t} h hbrink => ⟨fun {code u} hu hclean hle _ => ?_⟩
  obtain ⟨hk, inner, x, r, henclosed, rfl, rfl⟩ := enclosed_of_chunk hu
  have hadvanced := h.advanced hbrink
  obtain ⟨shared, r₁, r₂, hrest, hrest', hlength⟩ := hadvanced.cursor.exists_rest
  have happend := append_of_enclosed henclosed
  rw [hrest] at happend
  -- all of the code is among the tokens that the texts have in common
  obtain ⟨more, rfl⟩ : ∃ more, shared = inner ++ x :: more := by
    have hfront : inner ++ [x] <+: shared := by
      have hwhole : inner ++ [x] <+: shared ++ r₁ := ⟨r, by rw [← happend]; simp⟩
      refine List.prefix_of_prefix_length_le hwhole (List.prefix_append ..) ?_
      have hle' : s.advanced.cursor.index + (inner.length + 1) ≤ k := hle
      rw [List.length_append, List.length_singleton]
      omega
    obtain ⟨more, hmore⟩ := hfront
    exact ⟨more, by rw [← hmore, List.append_assoc]; rfl⟩
  have hsecond : enclosed opening closing stops t.stack.room 1 t.advanced.cursor.rest =
      ⟨inner, .closed, x :: (more ++ r₂)⟩ := by
    rw [hrest', List.append_assoc, ← h.stack]
    exact enclosed_of_next henclosed _
  have hcurrent := h.cursor.current_eq hbrink
  refine ⟨t.advanced.moved (inner.length + 1), ?_, hadvanced.moved hle, received_advanced t⟩
  rw [chunk_eq (hcurrent ▸ hk), hsecond, hcurrent]
  rfl

omit [Proceeds continues] in
instance : Local continues parenChunk := by unfold parenChunk; infer_instance

omit [Proceeds continues] in
instance : Local continues squareChunk := by unfold squareChunk; infer_instance

omit [Proceeds continues] in
instance : Local continues parenCode := by unfold parenCode; infer_instance

/-! ### Restrictions -/

instance (operator : String) (token : Token) : Local continues (restrictionValue operator token) :=
  of_eager fun {k s t} h hbrink => by
    unfold restrictionValue
    have htaken : ∀ f : Token → Parser Restriction, [∀ a, Local continues (f a)] →
      [∀ a, Orderly (f a)] →
        [∀ a, Tokenwise (f a)] → LocalFrom continues k s t (advance >>= f) := fun f _ _ _ =>
      (advance_from h hbrink).bind h.hidden fun _ _ huv => from_ huv
    refine .current_bind h hbrink ?_
    split
    · exact htaken _
    · exact from_ h
    · split
      · next hname =>
        refine .peek_symbol h (Proceeds.symbol · .dot) (fun hdot hu => ?_) ?_ (from_ h) (htaken _)
        · obtain ⟨text, v, hv, hu⟩ := bind_eq_ok.1 hu
          exact Nat.lt_of_lt_of_le (seek_lt_of_dottedName h.hidden hdot hv)
            (Orderly.evolves_ok _ hu).index
        · exact .bind_left (.advance (Eager.ne_endOfInput_of_isName hname))
      · exact .of_error rfl

instance (operator : String) (c : Connective) : Local continues (valueList operator c) := by
  have hloop := @Local.repeatWhile _ _ _ (Repetition.valueList operator c).rolls
  unfold valueList
  infer_instance

instance : Local continues restriction := by
  unfold restriction
  infer_instance

instance : Local continues connectedRestriction := by unfold connectedRestriction; infer_instance

/-! ### Predicates and fields -/

omit [Proceeds continues] in
instance (token : Token) (field declaration : Option String) :
    Local continues (predicate token field declaration) := by
  unfold predicate; infer_instance

omit [Proceeds continues] in
instance (token : Token) : Local continues (evalPredicate token) := by
  unfold evalPredicate; infer_instance

instance : Local continues fieldHead := by
  unfold fieldHead
  exact bindingName_bind fun declaration => do
    let fieldToken ← current
    let field ← dottedName
    return (declaration, fieldToken, field)

omit [Proceeds continues] in
instance (token : Token) (field : String) (declaration : Option String) :
    Local continues (fieldBinding token field declaration) := by
  cases declaration <;> unfold fieldBinding <;> infer_instance

end Local

/-! ### Where restrictions and fields end -/

namespace Tokenwise

instance (operator : String) (token : Token) : Tokenwise (restrictionValue operator token) := by
  unfold restrictionValue
  refine @Tokenwise.bind _ _ _ _ _ (fun value => ?_)
    _ (fun value => ?_) <;> split <;> infer_instance

instance (operator : String) (c : Connective) : Tokenwise (valueList operator c) := by
  unfold valueList; infer_instance

instance : Tokenwise restriction := by unfold restriction; infer_instance

instance (x : List Restriction × Bool) : Tokenwise (joinedRestriction x) := by
  obtain ⟨found, flag⟩ := x
  dsimp only [joinedRestriction]
  refine @Tokenwise.bind _ _ _ _ _ (fun value => ?_)
    _ (fun value => ?_) <;> split <;> infer_instance

instance (token : Token) (field declaration : Option String) :
    Tokenwise (predicate token field declaration) := by
  unfold predicate; infer_instance

instance (token : Token) : Tokenwise (evalPredicate token) := by
  unfold evalPredicate; infer_instance

instance : Tokenwise fieldHead := by unfold fieldHead; infer_instance

instance (token : Token) (field : String) (declaration : Option String) :
    Tokenwise (fieldBinding token field declaration) := by
  cases declaration <;> unfold fieldBinding <;> infer_instance

end Tokenwise

/-! ### Trials that succeed -/

theorem again_of_trial {p : Parser α} [Local continues p] (hp : Alternative p)
    {alternative : String} (h : s.Alongside k t) {v : State} {a : α}
    (htrial : trial alternative p s = .ok true u) (hv : p u = .ok a v) (hle : v.cursor.index ≤ k)
    (hfree : Uncontinued continues k v t) :
    ∃ w, trial alternative p t = .ok true w ∧ u.Alongside k w ∧
      w.collector.received = t.collector.received := by
  have := hp.orderly
  obtain ⟨b, x, v', hx, hv', hcursor, -⟩ := parse_of_trial hp htrial
  obtain ⟨rfl, rfl⟩ := EStateM.Result.ok.inj (hv.symm.trans hv')
  have hsilent := (Orderly.evolves_ok p hx).silent (Nat.succ_pos _)
  obtain ⟨y, hy, -⟩ := Local.again p h.trying hx (congrArg Collector.received hsilent.1)
    (hcursor ▸ hle) (by unfold Uncontinued; rw [← hcursor]; exact hfree)
  have hpassed : trial alternative p t = .ok true (t.restored y) := trial_of_passed hy
  have hback := Orderly.trial_of_ok htrial
  have hback' := Orderly.trial_of_ok hpassed
  refine ⟨_, hpassed, ⟨?_, ?_, ?_, ?_⟩, ?_⟩
  · rw [hback, hback']
    exact h.cursor
  · rw [hback]
    exact h.hidden
  · rw [hback, hback']
    exact h.trials
  · rw [hback, hback']
    exact h.stack
  · rw [hback']

/-! ### Constraints -/

/-- Where something is kept, no complaint is made and no connective follows, the same is read again,
up to where it was or right behind a visible token. A connective that follows restrictions was tried
in vain, and nothing goes on behind it. -/
structure Recurs (continues : Cursor → TokenKind → Prop) (kept : α → Prop) (p : Parser α) :
    Prop where
  moves : ∀ {s u : State} {a : α}, s.cursor.triviaVisible = false → p s = .ok a u →
    u.collector.received = s.collector.received → kept a → u.cursor = s.cursor ∨
    s.cursor.Lands u.cursor
  again : ∀ {k : Nat} {s t u : State} {a : α}, s.Alongside k t → p s = .ok a u →
    u.collector.received = s.collector.received → kept a → u.cursor.index ≤ k →
    Uncontinued continues k u t → connective? u.cursor.current.kind = none →
    ∃ v, p t = .ok a v ∧ u.Alongside k v ∧ v.collector.received = t.collector.received

theorem State.Alongside.index_le_of_brink (h : s.Alongside k t) (hsu : s.Evolves u)
    (hbrink : ¬u.cursor.AtBrink k) : u.cursor.index ≤ k := by
  have hlt := Nat.lt_of_not_le hbrink
  have hsize : u.cursor.index ≤ u.cursor.front.size := by
    refine Nat.le_of_not_lt fun hno => ?_
    rw [Cursor.seek_of_le (Nat.le_of_lt hno), hsu.front] at hlt
    exact absurd h.cursor.first_le (Nat.not_le.2 hlt)
  exact Nat.le_trans (Cursor.le_seek hsize) (Nat.le_of_lt hlt)

theorem Local.again_before (p : Parser α) [Local anything p] [Orderly p] {a : α}
    (h : s.Alongside k t) (hu : p s = .ok a u)
    (hclean : u.collector.received = s.collector.received) (hbrink : ¬u.cursor.AtBrink k) :
    ∃ v, p t = .ok a v ∧ u.Alongside k v ∧ v.collector.received = t.collector.received :=
  Local.again p h hu hclean (h.index_le_of_brink (Orderly.evolves_ok p hu) hbrink)
    (uncontinued_anything.2 hbrink)

namespace Recurs

variable {kept : α → Prop} {kept' : β → Prop}

theorem of_local (p : Parser α) [Local continues p] [Tokenwise p] : Recurs continues kept p where
  moves hs hu hclean _ := Tokenwise.moves hs hu hclean
  again h hu hclean _ hle hfree _ := Local.again p h hu hclean hle hfree

/-- A sequence: what is behind it in the text must not continue its first part either. -/
theorem bind_of {p : Parser α} {f : α → Parser β} [Local continues' p] [Tokenwise p] [Orderly p]
    [∀ a, Orderly (f a)] (hf : ∀ a, Recurs continues kept' (f a))
    (hfree : ∀ {k s t u v a b}, State.Alongside k s t → p s = .ok a u → f a u = .ok b v →
      v.collector.received = u.collector.received → kept' b → v.cursor.index ≤ k →
      Uncontinued continues k v t → Uncontinued continues' k u t) :
    Recurs continues kept' (p >>= f) where
  moves {s u b} hs hu hclean hkept := by
    obtain ⟨a, v, hv, hbu⟩ := bind_eq_ok.1 hu
    obtain ⟨hclean₁, hclean₂⟩ := clean_of_bind hv hbu hclean
    exact Cursor.moves_trans (Tokenwise.moves hs hv hclean₁)
      ((hf a).moves ((Orderly.evolves_ok p hv).triviaVisible.trans hs) hbu hclean₂ hkept)
      (Orderly.evolves_ok (f a) hbu).index
  again {k s t u b} h hu hclean hkept hle hfree' hnone := by
    obtain ⟨a, v, hv, hbu⟩ := bind_eq_ok.1 hu
    obtain ⟨hclean₁, hclean₂⟩ := clean_of_bind hv hbu hclean
    have hvu := Orderly.evolves_ok (f a) hbu
    obtain ⟨w, hw, halong, hwclean⟩ := Local.again p h hv hclean₁ (Nat.le_trans hvu.index hle)
      (hfree h hv hbu hclean₂ hkept hle hfree')
    obtain ⟨x, hx, halong', hxclean⟩ := (hf a).again halong hbu hclean₂ hkept hle
      (hfree'.after (Orderly.evolves_ok p hw)) hnone
    exact ⟨x, (bind_of_ok hw).trans hx, halong', hxclean.trans hwclean⟩

theorem bind {p : Parser α} {f : α → Parser β} [Local continues p] [Tokenwise p] [Orderly p]
    [∀ a, Orderly (f a)] (hf : ∀ a, Recurs continues kept' (f a)) :
    Recurs continues kept' (p >>= f) :=
  bind_of hf fun {_ _ _ _ _ a _} h hu hbv hclean hkept hle hfree =>
    hfree.before hle
      ((hf a).moves ((Orderly.evolves_ok p hu).triviaVisible.trans h.hidden) hbv hclean hkept)

/-- A sequence whose second part takes a token. -/
theorem bind_taking {p : Parser α} {f : α → Parser β} [Local anything p] [Tokenwise p] [Orderly p]
    [∀ a, Orderly (f a)] (hf : ∀ a, Recurs continues kept' (f a))
    (htakes : ∀ {a b s u}, s.cursor.triviaVisible = false → f a s = .ok b u → kept' b →
      s.cursor.seek s.cursor.index < u.cursor.index) : Recurs continues kept' (p >>= f) :=
  bind_of hf fun h hu hbv _ hkept hle _ => uncontinued_anything.2 fun hbrink =>
    absurd (Nat.lt_of_lt_of_le
      (htakes ((Orderly.evolves_ok p hu).triviaVisible.trans h.hidden) hbv hkept) hle)
      (Nat.not_lt.2 hbrink)

/-- What follows keeps what was read, and no connective stands before it if none stands
behind it. -/
theorem bind_kept {p : Parser α} {f : α → Parser β} [Orderly p] [∀ a, Orderly (f a)]
    (hp : Recurs continues kept p) (hf : ∀ a, Recurs continues kept' (f a))
    (hkept : ∀ {a b s u}, f a s = .ok b u → kept' b → kept a ∧
      (connective? u.cursor.current.kind = none → connective? s.cursor.current.kind = none)) :
    Recurs continues kept' (p >>= f) where
  moves {s u b} hs hu hclean hb := by
    obtain ⟨a, v, hv, hbu⟩ := bind_eq_ok.1 hu
    obtain ⟨hclean₁, hclean₂⟩ := clean_of_bind hv hbu hclean
    exact Cursor.moves_trans (hp.moves hs hv hclean₁ (hkept hbu hb).1)
      ((hf a).moves ((Orderly.evolves_ok p hv).triviaVisible.trans hs) hbu hclean₂ hb)
      (Orderly.evolves_ok (f a) hbu).index
  again {k s t u b} h hu hclean hb hle hfree hnone := by
    obtain ⟨a, v, hv, hbu⟩ := bind_eq_ok.1 hu
    obtain ⟨hclean₁, hclean₂⟩ := clean_of_bind hv hbu hclean
    obtain ⟨ha, hvnone⟩ := hkept hbu hb
    have hmoves :=
      (hf a).moves ((Orderly.evolves_ok p hv).triviaVisible.trans h.hidden) hbu hclean₂ hb
    obtain ⟨w, hw, halong, hwclean⟩ := hp.again h hv hclean₁ ha
      (Nat.le_trans (Orderly.evolves_ok (f a) hbu).index hle) (hfree.before hle hmoves)
      (hvnone hnone)
    obtain ⟨x, hx, halong', hxclean⟩ := (hf a).again halong hbu hclean₂ hb hle
      (hfree.after (Orderly.evolves_ok p hw)) hnone
    exact ⟨x, (bind_of_ok hw).trans hx, halong', hxclean.trans hwclean⟩

/-- What follows does not move on. -/
theorem bind_still {p : Parser α} {f : α → Parser β} [Orderly p] [∀ a, Orderly (f a)]
    [∀ a, Level.Still (f a)] [∀ a, Tokenwise (f a)] [∀ a, Local continues (f a)]
    (hp : Recurs continues kept p) (hkept : ∀ {a b s u}, f a s = .ok b u → kept' b → kept a) :
    Recurs continues kept' (p >>= f) :=
  hp.bind_kept (fun a => of_local (f a)) fun {a _ s _} hu hb => by
    obtain ⟨b', u', hu', hcursor⟩ := Level.Still.ok (p := f a) s
    obtain ⟨rfl, rfl⟩ := EStateM.Result.ok.inj (hu.symm.trans hu')
    exact ⟨hkept hu hb, fun hnone => hcursor ▸ hnone⟩

theorem ite {c : Prop} [Decidable c] {p q : Parser α} (hp : Recurs continues kept p)
    (hq : Recurs continues kept q) : Recurs continues kept (if c then p else q) := by
  split
  · exact hp
  · exact hq

theorem harvest {p : Parser β} (hp : Recurs continues (fun _ => True) p) (found : α)
    (add : α → β → α) :
    Recurs continues (fun h : Harvest α => h.failure = none) (harvest found p add) where
  moves hs hu hclean hkept := by
    rcases harvest_ok hu with ⟨b, hb, rfl⟩ | ⟨e, -, rfl⟩
    · exact hp.moves hs hb hclean trivial
    · cases hkept
  again h hu hclean hkept hle hfree hnone := by
    rcases harvest_ok hu with ⟨b, hb, rfl⟩ | ⟨e, -, rfl⟩
    · obtain ⟨v, hv, hrest⟩ := hp.again h hb hclean trivial hle hfree hnone
      exact ⟨v, map_of_ok (attempt_of_ok hv), hrest⟩
    · cases hkept

theorem attempt_bind {p : Parser α} {f : Except ParseError α → Parser β}
    (herror : ∀ {e s u b}, f (.error e) s = .ok b u → ¬kept' b)
    (hok : Recurs continues kept' (p >>= fun a => f (.ok a))) :
    Recurs continues kept' (attempt p >>= f) := by
  have hstrict : ∀ {s u b}, (attempt p >>= f) s = .ok b u → kept' b →
      (p >>= fun a => f (.ok a)) s = .ok b u := by
    intro s u b hu hkept
    obtain ⟨r, v, hv, hbu⟩ := bind_eq_ok.1 hu
    rcases attempt_ok hv with ⟨a, rfl, ha⟩ | ⟨e, rfl, -⟩
    · exact (bind_of_ok ha).trans hbu
    · exact absurd hkept (herror hbu)
  refine ⟨fun hs hu hclean hkept => hok.moves hs (hstrict hu hkept) hclean hkept,
    fun h hu hclean hkept hle hfree hnone => ?_⟩
  obtain ⟨x, hx, hrest⟩ := hok.again h (hstrict hu hkept) hclean hkept hle hfree hnone
  obtain ⟨a, w, hw, hx⟩ := bind_eq_ok.1 hx
  exact ⟨x, (bind_of_ok (attempt_of_ok hw)).trans hx, hrest⟩

/-- A choice by the next token, where a closing word decides for the second alternative and the
first one takes a token. -/
theorem choose_taking [Proceeds continues] {kinds : List TokenKind} {p q : Parser α}
    (hp : Recurs continues kept p) (hq : Recurs continues kept q)
    (htakes : ∀ {s u a}, s.cursor.triviaVisible = false → p s = .ok a u → kept a →
      s.cursor.seek s.cursor.index < u.cursor.index)
    (hkinds : ∀ kind ∈ closingWords, kind ∉ kinds) :
    Recurs continues kept (nextIs kinds >>= fun c => if c then p else q) where
  moves {s u a} hs hu hclean hkept := by
    rw [bind_of_ok (nextIs_eq kinds s)] at hu
    split at hu
    · exact hp.moves hs hu hclean hkept
    · exact hq.moves hs hu hclean hkept
  again {k s t u a} h hu hclean hkept hle hfree hnone := by
    rw [bind_of_ok (nextIs_eq kinds s)] at hu
    rw [bind_of_ok (nextIs_eq kinds t)]
    by_cases hbrink : s.cursor.AtBrink k
    · have hs : s.cursor.current.kind ∉ kinds := fun hs => by
        rw [if_pos (decide_eq_true hs)] at hu
        exact absurd (Nat.lt_of_lt_of_le (htakes h.hidden hu hkept) hle) (Nat.not_lt.2 hbrink)
      rw [if_neg (by simpa using hs)] at hu
      have ht := (hfree.before hle (hq.moves h.hidden hu hclean hkept)).closing h hbrink
      rw [if_neg (by simpa using hkinds _ ht)]
      exact hq.again h hu hclean hkept hle hfree hnone
    · rw [← h.cursor.current_eq hbrink]
      split at hu
      · next hs =>
        rw [if_pos hs]
        exact hp.again h hu hclean hkept hle hfree hnone
      · next hs =>
        rw [if_neg hs]
        exact hq.again h hu hclean hkept hle hfree hnone

theorem choose [Proceeds continues] {kinds : List TokenKind} {p q : Parser α} [Eager p] [Orderly p]
    (hp : Recurs continues kept p) (hq : Recurs continues kept q)
    (hkinds : ∀ kind ∈ closingWords, kind ∉ kinds) :
    Recurs continues kept (nextIs kinds >>= fun c => if c then p else q) :=
  choose_taking hp hq (fun hs hu _ => (Orderly.evolves_ok p hu).seek_lt hs (Eager.takes p hu))
    hkinds

theorem of_rolls {more : α → Parser Bool} {body : α → Parser α} (hrolls : Rolls more body)
    (first : α) {kept : α → Prop} (h : ∀ n, Recurs continues kept (rounds more body n first)) :
    Recurs continues kept (repeatWhile first more body) where
  moves hs hu hclean hkept := (h _).moves hs hu hclean hkept
  again {k s t u a} hst hu hclean hkept hle hfree hnone := by
    obtain ⟨n, hs, ht⟩ := hrolls.exists_rounds first s t
    rw [hs] at hu
    rw [ht]
    exact (h n).again hst hu hclean hkept hle hfree hnone

/-! ### Restrictions -/

def connected : List Restriction × Bool → Parser Bool :=
  fun (_, open_) => do return open_ && (connective? (← current).kind).isSome

instance (x : List Restriction × Bool) : Orderly (connected x) := by
  unfold connected; infer_instance

theorem connected_eq (x : List Restriction × Bool) (s : State) :
    connected x s = .ok (x.2 && (connective? s.cursor.current.kind).isSome) s := rfl

/-- A connective that is followed by a restriction belongs to the list; another one ends it, and
stays where it is. -/
theorem joinedRestriction_cases {x y : List Restriction × Bool} (hx : connected x s = .ok true s)
    (h : joinedRestriction x s = .ok y u) :
    y.2 = false ∧ u.cursor = s.cursor ∧ connective? u.cursor.current.kind ≠ none ∨
      ∃ c rs v, connective? s.cursor.current.kind = some c ∧
        trial "restriction connective" connectedRestriction s = .ok true v ∧
        connectedRestriction v = .ok rs u ∧
        y = (x.1 ++ connectiveAt c s.cursor.current :: rs, true) := by
  obtain ⟨found, flag⟩ := x
  have hsome : (connective? s.cursor.current.kind).isSome = true := by
    have hand := (EStateM.Result.ok.inj ((connected_eq _ s).symm.trans hx)).1
    exact (Bool.and_eq_true _ _ ▸ hand).2
  obtain ⟨c, hc⟩ := Option.isSome_iff_exists.1 hsome
  dsimp only [joinedRestriction] at h
  rw [bind_of_ok (current_eq s)] at h
  simp only [hc] at h
  obtain ⟨answer, v, hv, h⟩ := bind_eq_ok.1 h
  have hcursor : v.cursor = s.cursor := by rw [Orderly.trial_of_ok hv]
  cases answer with
  | false =>
    cases h
    exact .inl ⟨rfl, hcursor, by rw [hcursor, hc]; simp⟩
  | true =>
    rw [if_pos rfl, bind_of_ok (advance_eq v)] at h
    obtain ⟨rs, w, hw, h⟩ := bind_eq_ok.1 h
    cases h
    exact .inr ⟨c, rs, v, hc, hv, (bind_of_ok (advance_eq v)).trans hw, by rw [hcursor]⟩

theorem joinedRestriction_of_trial {x : List Restriction × Bool} {c : Connective}
    {rs : List Restriction} {v : State} (hc : connective? s.cursor.current.kind = some c)
    (hv : trial "restriction connective" connectedRestriction s = .ok true v)
    (h : connectedRestriction v = .ok rs u) :
    joinedRestriction x s = .ok (x.1 ++ connectiveAt c s.cursor.current :: rs, true) u := by
  obtain ⟨found, flag⟩ := x
  have hcursor : v.cursor = s.cursor := by rw [Orderly.trial_of_ok hv]
  unfold connectedRestriction at h
  rw [bind_of_ok (advance_eq v)] at h
  dsimp only [joinedRestriction]
  rw [bind_of_ok (current_eq s)]
  simp only [hc]
  rw [bind_of_ok hv, if_pos rfl, bind_of_ok (advance_eq v), bind_of_ok h, hcursor]
  rfl

instance (x : List Restriction × Bool) : Tokenwise (connected x) := by
  unfold connected; infer_instance

instance : Eager connectedRestriction := by unfold connectedRestriction; infer_instance

theorem connective?_closing : ∀ kind ∈ closingWords, connective? kind = none := by decide

theorem again_of_joinedRestriction [Proceeds continues] {x : List Restriction × Bool}
    {c : Connective} {rs : List Restriction} {v w : State} (h : s.Alongside k t)
    (hc : connective? s.cursor.current.kind = some c)
    (hw : trial "restriction connective" connectedRestriction s = .ok true w)
    (hrs : connectedRestriction w = .ok rs v) (hclean : v.collector.received = s.collector.received)
    (hle : v.cursor.index ≤ k) (hfree : Uncontinued continues k v t) :
    ∃ v', joinedRestriction x t = .ok (x.1 ++ connectiveAt c s.cursor.current :: rs, true) v' ∧
      v.Alongside k v' ∧ v'.collector.received = t.collector.received := by
  have hback := Orderly.trial_of_ok hw
  have hcursor : w.cursor = s.cursor := by rw [hback]
  have hlt := (Orderly.evolves_ok connectedRestriction hrs).seek_lt (hcursor ▸ h.hidden)
    (Eager.takes connectedRestriction hrs)
  rw [hcursor] at hlt
  have hcurrent := h.cursor.current_eq (Nat.not_le.2 (Nat.lt_of_lt_of_le hlt hle))
  obtain ⟨w', hw', halong, hwclean⟩ := again_of_trial .connectedRestriction h hw hrs hle hfree
  obtain ⟨v', hv', halong', hvclean⟩ := Local.again connectedRestriction halong hrs
    (by rw [hclean, hback]) hle
    (hfree.after (Orderly.evolves_ok (trial _ connectedRestriction) hw'))
  have hround := joinedRestriction_of_trial (x := x) (hcurrent ▸ hc) hw' hv'
  rw [← hcurrent] at hround
  exact ⟨v', hround, halong', hvclean.trans hwclean⟩

theorem rounds_joinedRestriction [Proceeds continues] (n : Nat) (x : List Restriction × Bool) :
    Recurs continues (fun _ => True) (rounds connected joinedRestriction n x) where
  moves hs hu hclean _ := Tokenwise.moves hs hu hclean
  again {k s t u y} h hu hclean _ hle hfree hnone := by
    induction n generalizing x s t with
    | zero => cases hu; exact ⟨t, rfl, h, rfl⟩
    | succ n ih =>
      have hmoves := Tokenwise.moves h.hidden hu hclean
      have hasked : connected x t = .ok (x.2 && (connective? s.cursor.current.kind).isSome) t := by
        rw [connected_eq]
        by_cases hbrink : s.cursor.AtBrink k
        · -- nothing more is taken, so no connective follows
          have hstays := hmoves.resolve_right fun hlands =>
            absurd (Nat.lt_of_lt_of_le hlands.1 hle) (Nat.not_lt.2 hbrink)
          rw [← hstays, hnone, connective?_closing _ ((hfree.before hle hmoves).closing h hbrink)]
        · rw [h.cursor.current_eq hbrink]
      rw [Turns.rounds_succ (connected_eq x s)] at hu
      rw [Turns.rounds_succ hasked]
      cases hmore : x.2 && (connective? s.cursor.current.kind).isSome with
      | false =>
        rw [hmore] at hu
        cases hu
        exact ⟨t, rfl, h, rfl⟩
      | true =>
        rw [hmore, if_pos rfl] at hu
        rw [if_pos rfl]
        obtain ⟨z, v, hv, hu⟩ := bind_eq_ok.1 hu
        obtain ⟨hclean₁, hclean₂⟩ := clean_of_bind hv hu hclean
        have hvu := Orderly.evolves_ok (rounds connected joinedRestriction n z) hu
        rcases joinedRestriction_cases ((connected_eq x s).trans (by rw [hmore])) hv with
          ⟨hz, -, hconnective⟩ | ⟨c, rs, w, hc, hw, hrs, rfl⟩
        · -- nothing is read behind a connective that was tried in vain
          have hstop : rounds connected joinedRestriction n z v = .ok z v := by
            cases n with
            | zero => rfl
            | succ n =>
              have hno : connected z v = .ok false v := by rw [connected_eq, hz]; rfl
              exact Turns.rounds_succ hno n
          obtain ⟨-, rfl⟩ := EStateM.Result.ok.inj (hstop.symm.trans hu)
          exact absurd hnone hconnective
        · have hsv := Orderly.evolves_ok (joinedRestriction x) hv
          have hvmoves := Tokenwise.moves (hsv.triviaVisible.trans h.hidden) hu hclean₂
          obtain ⟨v', hround, halong, hvclean⟩ :=
            again_of_joinedRestriction (x := x) h hc hw hrs hclean₁
            (Nat.le_trans hvu.index hle) (hfree.before hle hvmoves)
          rw [bind_of_ok hround]
          obtain ⟨u', hu', halong', huclean⟩ := ih _ halong hu hclean₂
            (hfree.after (Orderly.evolves_ok (joinedRestriction x) hround))
          exact ⟨u', hu', halong', huclean.trans hvclean⟩

instance : Eager Parser.restrictions := by
  have : ∀ x : List Restriction × Bool, Orderly (connected x) := fun _ => inferInstance
  unfold Parser.restrictions
  infer_instance

theorem restrictions [Proceeds continues] : Recurs continues (fun _ => True) restrictions := by
  have hloop := fun first : List Restriction =>
    of_rolls (rolls_joinedRestriction : Rolls connected _) (first, true)
      fun n => (rounds_joinedRestriction n (first, true) : Recurs continues _ _)
  unfold Parser.restrictions
  exact .bind fun first => (hloop first).bind_still fun _ _ => trivial

/-! ### Constraints -/

theorem fieldConstraint [Proceeds continues] (token fieldToken : Token) (field : String)
    (declaration : Option String) :
    Recurs continues (fun _ => True) (fieldConstraint token fieldToken field declaration) := by
  have hrestrictions : Recurs continues (fun _ => True) (do
      let found ← Parser.restrictions
      return [.field ⟨← close (.ofToken fieldToken), field, found⟩] : Parser (List Constraint)) :=
    restrictions.bind_still fun _ _ => trivial
  unfold Parser.fieldConstraint
  rw [nextIsSymbol_eq_nextIs]
  exact .choose (of_local _) (.choose hrestrictions (of_local _) (by decide)) (by decide)

theorem boundField [Proceeds continues] (found : List Constraint) (token : Token) :
    Recurs continues (fun h => h.failure = none) (boundField found token) := by
  unfold Parser.boundField
  refine .attempt_bind (fun h => ?_) (.bind fun head => ?_)
  · cases h
    simp
  · exact .bind fun binding => (fieldConstraint ..).harvest _ _

theorem seek_lt_of_boundField {found : List Constraint} {token : Token}
    {h : Harvest (List Constraint)} (hs : s.cursor.triviaVisible = false)
    (hu : Parser.boundField found token s = .ok h u) (hkept : h.failure = none) :
    s.cursor.seek s.cursor.index < u.cursor.index := by
  unfold Parser.boundField at hu
  obtain ⟨r, v, hv, hu⟩ := bind_eq_ok.1 hu
  rcases attempt_ok hv with ⟨⟨declaration, fieldToken, field⟩, rfl, hhead⟩ | ⟨e, rfl, -⟩
  · have hlt := (Orderly.evolves_ok fieldHead hhead).seek_lt hs (Eager.takes fieldHead hhead)
    obtain ⟨binding, w, hw, hu⟩ := bind_eq_ok.1 hu
    have hvw := Orderly.evolves_ok (fieldBinding token field declaration) hw
    have hwu := Orderly.evolves_ok (Parser.harvest (found ++ binding)
      (Parser.fieldConstraint token fieldToken field declaration) (· ++ ·)) hu
    exact Nat.lt_of_lt_of_le hlt (hvw.trans hwu).index
  · cases hu
    cases hkept

theorem seek_lt_of_constraint {found : List Constraint} {h : Harvest (List Constraint)}
    (hs : s.cursor.triviaVisible = false) (hu : Parser.constraint found s = .ok h u)
    (hkept : h.failure = none) : s.cursor.seek s.cursor.index < u.cursor.index := by
  have htaken : ∀ {p : Parser Constraint} [Orderly p] [Eager p] {add},
    Parser.harvest found p add s = .ok h u →
      s.cursor.seek s.cursor.index < u.cursor.index := by
    intro p _ _ add hu
    rcases harvest_ok hu with ⟨b, hb, -⟩ | ⟨e, -, rfl⟩
    · exact (Orderly.evolves_ok p hb).seek_lt hs (Eager.takes p hb)
    · cases hkept
  unfold Parser.constraint at hu
  rw [bind_of_ok (current_eq s)] at hu
  split at hu
  · exact htaken hu
  rw [bind_of_ok (peek_eq 1 s)] at hu
  split at hu
  · exact htaken hu
  · exact seek_lt_of_boundField hs hu hkept

theorem seek_lt_of_evalPredicate {found : List Constraint} {h : Harvest (List Constraint)}
    {add : List Constraint → Constraint → List Constraint} (hs : s.cursor.triviaVisible = false)
    (heval : s.cursor.current.kind = .keyword .eval)
    (hu : Parser.harvest found (evalPredicate s.cursor.current) add s = .ok h u)
    (hkept : h.failure = none) :
    s.cursor.seek (s.cursor.seek s.cursor.index + 1) < u.cursor.index := by
  rcases harvest_ok hu with ⟨b, hb, -⟩ | ⟨e, -, rfl⟩
  · have hadvanced : s.advanced.cursor = s.cursor.rewind (s.cursor.seek s.cursor.index + 1) :=
      Cursor.consume_eq (by rw [heval]; simp)
    have hb' : predicate s.cursor.current none none s.advanced = .ok b u := hb
    have htaken := (Orderly.evolves_ok (predicate _ none none) hb').seek_lt
      (by rw [hadvanced]; exact hs) (Eager.takes (predicate _ none none) hb')
    rw [hadvanced] at htaken
    exact htaken
  · cases hkept

theorem constraint [Proceeds continues] (found : List Constraint) :
    Recurs continues (fun h => h.failure = none) (constraint found) where
  moves {s u h} hs hu hclean hkept := by
    have hharvest : ∀ (p : Parser Constraint) [Local anything p] [Tokenwise p],
        Recurs anything (fun h => h.failure = none)
        (Parser.harvest found p fun found c => found ++ [c]) :=
      fun p _ _ => harvest (of_local p) found _
    unfold Parser.constraint at hu
    rw [bind_of_ok (current_eq s)] at hu
    split at hu
    · exact (hharvest _).moves hs hu hclean hkept
    rw [bind_of_ok (peek_eq 1 s)] at hu
    split at hu
    · exact (hharvest _).moves hs hu hclean hkept
    · exact (boundField found _ : Recurs anything _ _).moves hs hu hclean hkept
  again {k s t u h} hst hu hclean hkept hle hfree hnone := by
    have hevolves := Orderly.evolves_ok _ hu
    have hlt := seek_lt_of_constraint hst.hidden hu hkept
    have hcurrent := hst.cursor.current_eq (Nat.not_le.2 (Nat.lt_of_lt_of_le hlt hle))
    unfold Parser.constraint at hu ⊢
    rw [bind_of_ok (current_eq s)] at hu
    rw [bind_of_ok (current_eq t), ← hcurrent]
    split at hu
    · next hparen =>
      rw [if_pos hparen]
      exact (harvest (of_local _) _ _).again hst hu hclean hkept hle hfree hnone
    · next hparen =>
      rw [if_neg hparen]
      rw [bind_of_ok (peek_eq 1 s)] at hu
      rw [bind_of_ok (peek_eq 1 t)]
      have hsame : s.cursor.current.kind = .keyword .eval →
        ((s.cursor.lookahead 2).kind = .symbol .lparen ↔
          (t.cursor.lookahead 2).kind = .symbol .lparen) := by
        intro heval
        refine hst.lookahead_symbol_iff (Proceeds.symbol · .lparen) hevolves (fun _ => hlt)
          (fun hnext => ?_) hle hfree
        rw [if_pos (by simp [heval, hnext])] at hu
        exact seek_lt_of_evalPredicate hst.hidden heval hu hkept
      have hcondition : (decide (s.cursor.current.kind = .keyword .eval) &&
          decide ((s.cursor.lookahead 2).kind = .symbol .lparen)) =
          (decide (s.cursor.current.kind = .keyword .eval) &&
          decide ((t.cursor.lookahead 2).kind = .symbol .lparen)) := by
        by_cases heval : s.cursor.current.kind = .keyword .eval
        · rw [decide_eq_decide.2 (hsame heval)]
        · rw [decide_eq_false heval, Bool.false_and, Bool.false_and]
      rw [← hcondition]
      split at hu
      · next heval =>
        rw [if_pos heval]
        exact (harvest (of_local _) _ _).again hst hu hclean hkept hle hfree hnone
      · next heval =>
        rw [if_neg heval]
        exact (boundField ..).again hst hu hclean hkept hle hfree hnone

def commaFollows (h : Harvest (List Constraint)) : Parser Bool := do
  return h.failure.isNone && (← nextIsSymbol .comma)

def nextConstraint (h : Harvest (List Constraint)) : Parser (Harvest (List Constraint)) := do
  let _ ← advance
  Parser.constraint h.found

instance (h : Harvest (List Constraint)) : Orderly (commaFollows h) := by
  unfold commaFollows; infer_instance

instance (h : Harvest (List Constraint)) : Orderly (nextConstraint h) := by
  unfold nextConstraint; infer_instance

theorem commaFollows_eq (h : Harvest (List Constraint)) (s : State) : commaFollows h s =
    .ok (h.failure.isNone && decide (s.cursor.current.kind = .symbol .comma)) s := rfl

theorem kept_of_rounds {n : Nat} {h h' : Harvest (List Constraint)}
    (hu : rounds commaFollows nextConstraint n h s = .ok h' u) (hkept : h'.failure = none) :
    h.failure = none ∧
      (connective? u.cursor.current.kind = none → connective? s.cursor.current.kind = none) := by
  have hstop : commaFollows h s = .ok false s → h.failure = none ∧
      (connective? u.cursor.current.kind = none → connective? s.cursor.current.kind = none) := by
    intro hno
    have hend : rounds commaFollows nextConstraint n h s = .ok h s := by
      cases n with
      | zero => rfl
      | succ n => exact Turns.rounds_succ hno n
    obtain ⟨rfl, rfl⟩ := EStateM.Result.ok.inj (hend.symm.trans hu)
    exact ⟨hkept, id⟩
  cases hmore : h.failure.isNone && decide (s.cursor.current.kind = .symbol .comma) with
  | false => exact hstop ((commaFollows_eq h s).trans (by rw [hmore]))
  | true =>
    rw [Bool.and_eq_true, decide_eq_true_eq, Option.isNone_iff_eq_none] at hmore
    exact ⟨hmore.1, fun _ => by rw [hmore.2]; rfl⟩

theorem seek_lt_of_nextConstraint {h h' : Harvest (List Constraint)}
    (hs : s.cursor.triviaVisible = false) (hu : nextConstraint h s = .ok h' u)
    (hkept : h'.failure = none) : s.cursor.seek s.cursor.index < u.cursor.index := by
  obtain ⟨_, v, hv, hu⟩ := bind_eq_ok.1 hu
  have hsv := Orderly.evolves_ok advance hv
  have hlt := seek_lt_of_constraint (hsv.triviaVisible.trans hs) hu hkept
  exact Nat.lt_of_le_of_lt (hsv.atBrink (Nat.le_refl _)) hlt

theorem rounds_nextConstraint [Proceeds continues] (n : Nat) (h : Harvest (List Constraint)) :
    Recurs continues (fun h => h.failure = none) (rounds commaFollows nextConstraint n h) := by
  induction n generalizing h with
  | zero => exact of_local (pure h)
  | succ n ih =>
    have hnext : Recurs continues (fun h => h.failure = none) (nextConstraint h) :=
      .bind_taking (fun _ => constraint _) seek_lt_of_constraint
    have hround : Recurs continues (fun h => h.failure = none)
        (nextConstraint h >>= rounds commaFollows nextConstraint n) :=
          hnext.bind_kept ih kept_of_rounds
    unfold rounds
    cases hfailure : h.failure with
    | some e =>
      have hno : commaFollows h = pure false := by
        funext s
        rw [commaFollows_eq, hfailure]
        rfl
      rw [hno]
      exact of_local (pure h)
    | none =>
      have hasked : commaFollows h = nextIs [.symbol .comma] := by
        funext s
        rw [commaFollows_eq, hfailure, nextIs_eq]
        simp
      rw [hasked]
      refine .choose_taking hround (of_local (pure h)) (fun {s u h'} hs hu hkept => ?_) (by decide)
      obtain ⟨z, v, hv, hu⟩ := bind_eq_ok.1 hu
      exact Nat.lt_of_lt_of_le (seek_lt_of_nextConstraint hs hv (kept_of_rounds hu hkept).1)
        (Orderly.evolves_ok (rounds commaFollows nextConstraint n z) hu).index

def someConstraints : Parser (Harvest (List Constraint)) := do
  let first ← Parser.constraint []
  repeatWhile first commaFollows nextConstraint

instance : Orderly someConstraints := by unfold someConstraints; infer_instance

theorem someConstraints_recurs [Proceeds continues] :
    Recurs continues (fun h => h.failure = none) someConstraints :=
  (constraint []).bind_kept
    (fun first => of_rolls rolls_constraints first (rounds_nextConstraint · first))
    fun {_ _ s _} hu => kept_of_rounds (n := s.cursor.remaining + 1) hu

theorem constraints_eq : Parser.constraints = nextIsSymbol .rparen >>= fun closed =>
    if closed then return { found := [] } else someConstraints :=
  rfl

theorem constraints : Recurs anything (fun h => h.failure = none) Parser.constraints := by
  rw [constraints_eq]
  exact .bind fun closed => .ite (of_local _) someConstraints_recurs

end Recurs

/-! ### Patterns without a source -/

namespace Local

/-- Constraints and the parenthesis that closes them. -/
instance : Local continues (constraints >>= fun body => do
    return (body, ← rightParen body.failure)) where
  from_ {k s t} h := by
    refine ⟨fun {a u} hu hclean hle hfree => ?_⟩
    obtain ⟨body, v, hv, hu⟩ := bind_eq_ok.1 hu
    obtain ⟨stop, w, hw, hu⟩ := bind_eq_ok.1 hu
    obtain ⟨rfl, rfl⟩ := pure_ok hu
    obtain ⟨hclean₁, hclean₂⟩ := clean_of_bind hv (f := fun body => rightParen body.failure)
      hw hclean
    obtain ⟨hnone, token, htoken, rfl⟩ := symbol_of_rightParen hw hclean₂
    obtain ⟨rfl, hkind, rfl⟩ := expect_of_ok htoken
    have hbrink : ¬v.cursor.AtBrink k := by
      refine Nat.not_le.2 (Nat.lt_of_lt_of_le ?_ hle)
      show _ < v.cursor.consume.index
      rw [Cursor.consume_eq (by rw [hkind]; simp)]
      exact Nat.lt_succ_self _
    obtain ⟨v', hv', halong, hclean'⟩ := Recurs.constraints.again h hv hclean₁ hnone
      (h.index_le_of_brink (Orderly.evolves_ok constraints hv) hbrink)
      (uncontinued_anything.2 hbrink) (by rw [hkind]; rfl)
    have hparen : Local continues (symbol .rparen) := inferInstance
    obtain ⟨w', hw', halong', hclean''⟩ := hparen.again (symbol .rparen) halong
      htoken hclean₂ hle fun hno => by
        have hcursor : v'.cursor.rewind v.advanced.cursor.index =
            t.cursor.rewind v.advanced.cursor.index := by
          rw [(Orderly.evolves_ok constraints hv').cursor]
          rfl
        rw [hcursor]
        exact hfree hno
    refine ⟨w', ?_, halong', hclean''.trans hclean'⟩
    rw [bind_of_ok hv', hnone]
    have hright : rightParen none v' = .ok (some v.cursor.current.start) w' :=
      bind_of_ok (attempt_of_ok hw')
    rw [bind_of_ok hright]
    rfl

instance : Local continues factPattern := by
  have hhead : Local anything (bindingName >>= fun name => do return (name, ← dottedName)) :=
    bindingName_bind _
  rw [factPattern_eq]
  infer_instance

end Local

end Rulebook.Parser
