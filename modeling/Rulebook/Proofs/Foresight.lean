import Rulebook.Proofs.OrderlyGrammar
import Rulebook.Parse

/-!
# Trials that succeed predict the parse

A trial runs a production in silence, and the parse may run it again from the same place. The two
runs differ where an error is recovered from: a trial fails there. So the second run goes as the
first one did if that succeeded, and the errors that are turned into values on the way are the same.
-/

namespace Rulebook

def semicolonRemark : String := "trailing semi-colon not allowed"

/-- What tokens that match the grammar do to the diagnostics, and remarks on semicolons. -/
inductive Collector.Remarks : Collector → Collector → Prop where
  | refl (c : Collector) : Remarks c c
  | matched {c d : Collector} (h : Remarks c d) : Remarks c d.tokenMatched
  | remark {c d : Collector} (h : Remarks c d) (token : Token) (ruleName : Option String) :
      Remarks c (d.remark semicolonRemark (some token) ruleName)

theorem Collector.Remarks.trans {c d e : Collector} (h : Remarks c d) (h' : Remarks d e) :
    Remarks c e := by
  induction h' with
  | refl => exact h
  | matched _ ih => exact .matched ih
  | remark _ token ruleName ih => exact .remark ih token ruleName

namespace Parser

variable {α β : Type}

/-- Nothing but remarks was reported, and there was no recovery. -/
structure State.Smooth (s t : State) : Prop where
  trials : t.trials = s.trials
  lastRecovery : t.lastRecovery = s.lastRecovery
  collector : s.collector.Remarks t.collector

namespace State.Smooth

variable {s t u : State}

theorem refl (s : State) : s.Smooth s := ⟨rfl, rfl, .refl _⟩

theorem trans (h : s.Smooth t) (h' : t.Smooth u) : s.Smooth u :=
  ⟨h'.trials.trans h.trials, h'.lastRecovery.trans h.lastRecovery, h.collector.trans h'.collector⟩

end State.Smooth

structure State.Tries (s s' : State) : Prop where
  cursor : s.cursor = s'.cursor
  stack : s.stack = s'.stack
  trials : 0 < s'.trials

/-- A run from `s` and one from `s'` end in the same way and at the same place. -/
inductive Repeats (s s' : State) (x y : EStateM.Result Failure State α) : Prop where
  | ok {a : α} {t t' : State} (hx : x = .ok a t) (hy : y = .ok a t') (h : t.Tries t')
      (hst : s.Smooth t)
  | error {f : Failure} {t t' : State} (hx : x = .error f t) (hy : y = .error f t')
      (h : t.Tries t') (hst : s.Smooth t)

theorem Repeats.trans {s s' u u' : State} {x y : EStateM.Result Failure State α}
    (h : Repeats u u' x y) (hsu : s.Smooth u) : Repeats s s' x y := by
  cases h with
  | ok hx hy h hst => exact .ok hx hy h (hsu.trans hst)
  | error hx hy h hst => exact .error hx hy h (hsu.trans hst)

/-- A production that runs in a trial as it runs outside. -/
class Steadfast (p : Parser α) : Prop where
  repeats : ∀ {s s' : State}, s.Tries s' → Repeats s s' (p s) (p s')

/-- A production that runs outside trials as it runs in a trial where it succeeds. -/
class Foreseen (p : Parser α) : Prop where
  repeats_or : ∀ {s s' : State}, s.Tries s' →
    Repeats s s' (p s) (p s') ∨ s.trials = 0 ∧ ∃ f t', p s' = .error f t'

namespace Steadfast

instance (priority := low) foreseen (p : Parser α) [Steadfast p] : Foreseen p :=
  ⟨fun h => .inl (repeats h)⟩

theorem of_step {p : Parser α} {a : Cursor → α} {next : State → State}
    (hp : ∀ s, p s = .ok (a s.cursor) (next s))
    (hnext : ∀ {s s'}, s.Tries s' → (next s).Tries (next s') ∧ s.Smooth (next s)) :
    Steadfast p where
  repeats {s s'} h :=
    .ok (hp s) (h.cursor ▸ hp s') (hnext h).1 (hnext h).2

theorem of_look {p : Parser α} {a : Cursor → α} (hp : ∀ s, p s = .ok (a s.cursor) s) :
    Steadfast p :=
  of_step hp fun {s _} h => ⟨h, .refl s⟩

instance (a : α) : Steadfast (pure a : Parser α) := of_look (a := fun _ => a) fun _ => rfl

theorem of_error {p : Parser α} {f : Failure} (hp : ∀ s, p s = .error f s) : Steadfast p where
  repeats {s s'} h := .error (hp s) (hp s') h (.refl s)

instance (e : ParseError) : Steadfast (fail e : Parser α) := of_error fun _ => rfl

instance (f : Failure) : Steadfast (throw f : Parser α) := of_error fun _ => rfl

theorem bind_of {p : Parser α} {f : α → Parser β} {s s' : State} (h : Repeats s s' (p s) (p s'))
    (hf : ∀ {a t t'}, t.Tries t' → s.Smooth t → p s = .ok a t →
      Repeats t t' (f a t) (f a t')) : Repeats s s' ((p >>= f) s) ((p >>= f) s') := by
  cases h with
  | ok hx hy h hst =>
    rw [bind_of_ok hx, bind_of_ok hy]
    exact (hf h hst hx).trans hst
  | error hx hy h hst => exact .error (bind_of_error hx) (bind_of_error hy) h hst

instance bind (p : Parser α) (f : α → Parser β) [Steadfast p] [∀ a, Steadfast (f a)] :
    Steadfast (p >>= f) where
  repeats h := bind_of (repeats h) fun h _ _ => repeats h

instance map (p : Parser α) (f : α → β) [Steadfast p] : Steadfast (f <$> p) := by
  rw [map_eq_bind]; infer_instance

instance (c : Prop) [Decidable c] (p q : Parser α) [Steadfast p] [Steadfast q] :
    Steadfast (if c then p else q) := by
  split <;> infer_instance

instance (o : Option α) (p : Parser β) (f : α → Parser β) [hp : Steadfast p]
    [hf : ∀ a, Steadfast (f a)] : Steadfast (o.elim p f) := by
  cases o with
  | none => exact hp
  | some a => exact hf a

/-! ### Looking and consuming -/

instance : Steadfast current := of_look current_eq

instance (n : Nat) : Steadfast (peek n) := of_look (a := fun c => c.lookahead (n + 1)) (peek_eq n)

instance (kinds : List TokenKind) : Steadfast (nextIs kinds) := by unfold nextIs; infer_instance

instance (k : Symbol) : Steadfast (nextIsSymbol k) := by unfold nextIsSymbol; infer_instance

instance (k : Keyword) : Steadfast (nextIsKeyword k) := by unfold nextIsKeyword; infer_instance

instance : Steadfast lastStop := of_look (a := fun c => c.previous.map (·.stop)) fun _ => rfl

instance (l : Location) : Steadfast (close l) := by unfold close; infer_instance

theorem smooth_advanced (s : State) : s.Smooth s.advanced := by
  refine ⟨rfl, rfl, ?_⟩
  show s.collector.Remarks (if s.trials = 0 then _ else _)
  split
  · exact .matched (.refl _)
  · exact .refl _

instance : Steadfast advance := of_step advance_eq fun {s _} h =>
  ⟨⟨congrArg Cursor.consume h.cursor, h.stack, h.trials⟩, smooth_advanced s⟩

instance (kind : TokenKind) : Steadfast (expect kind) := by unfold expect; infer_instance

instance (k : Symbol) : Steadfast (symbol k) := by unfold symbol; infer_instance

instance (k : Keyword) : Steadfast (keyword k) := by unfold keyword; infer_instance

instance (kind : TokenKind) : Steadfast (accept kind) := by unfold accept; infer_instance

instance (k : Symbol) : Steadfast (skip k) := by unfold skip; infer_instance

instance : Steadfast name := by unfold name; infer_instance

/-! ### Repetition -/

instance rounds (more : α → Parser Bool) (body : α → Parser α) [∀ a, Steadfast (more a)]
    [∀ a, Steadfast (body a)] (n : Nat) (a : α) : Steadfast (rounds more body n a) := by
  induction n generalizing a with
  | zero => unfold Parser.rounds; infer_instance
  | succ n ih => unfold Parser.rounds; infer_instance

instance repeatWhile (first : α) (more : α → Parser Bool) (body : α → Parser α)
    [∀ a, Steadfast (more a)] [∀ a, Steadfast (body a)] :
    Steadfast (repeatWhile first more body) where
  repeats {s s'} h := by
    show Repeats s s' (Parser.rounds more body (s.cursor.remaining + 1) first s)
      (Parser.rounds more body (s'.cursor.remaining + 1) first s')
    rw [← h.cursor]
    exact repeats h

/-! ### Productions within productions -/

/-- Going on by the number of levels, which is that of the stack. -/
instance (f : Nat → Parser α) [∀ n, Steadfast (f n)] : Steadfast (levels >>= f) where
  repeats {s s'} h := by
    rw [bind_of_ok (levels_eq s), bind_of_ok (levels_eq s'), ← h.stack]
    exact repeats h

theorem tries_within (n : Nesting) {s s' : State} (h : s.Tries s') :
    (s.within n).Tries (s'.within n) :=
  ⟨h.cursor, congrArg (Stack.take · n) h.stack, h.trials⟩

instance nested (n : Nesting) (p : Parser α) [Steadfast p] : Steadfast (nested n p) where
  repeats {s s'} h := by
    by_cases hroom : n.frames ≤ s.stack.room
    · have hroom' : n.frames ≤ s'.stack.room := h.stack ▸ hroom
      have hp : Repeats (s.within n) (s'.within n) (p (s.within n)) (p (s'.within n)) :=
        repeats (tries_within n h)
      cases hp with
      | ok hx hy ht hst =>
        exact .ok (nested_of_ok hroom hx) (nested_of_ok hroom' hy) ⟨ht.cursor, h.stack, ht.trials⟩
          ⟨hst.trials, hst.lastRecovery, hst.collector⟩
      | error hx hy ht hst =>
        exact .error (nested_of_error hroom hx) (nested_of_error hroom' hy)
          ⟨ht.cursor, h.stack, ht.trials⟩ ⟨hst.trials, hst.lastRecovery, hst.collector⟩
    · have hdeep := Nat.lt_of_not_le hroom
      exact .error (nested_of_deep p hdeep) (nested_of_deep p (h.stack ▸ hdeep)) h (.refl s)

/-! ### Failures as values -/

instance attempt (p : Parser α) [Steadfast p] : Steadfast (attempt p) where
  repeats {s s'} h := by
    have hp : Repeats s s' (p s) (p s') := repeats h
    cases hp with
    | ok hx hy h hst => exact .ok (attempt_of_ok hx) (attempt_of_ok hy) h hst
    | @error f t t' hx hy h hst =>
      cases f with
      | recognition e => exact .ok (attempt_of_recognition hx) (attempt_of_recognition hy) h hst
      | _ => exact .error (attempt_of_error hx (by simp)) (attempt_of_error hy (by simp)) h hst

instance harvest (found : α) (p : Parser β) (add : α → β → α) [Steadfast p] :
    Steadfast (harvest found p add) := by
  unfold Parser.harvest; infer_instance

/-! ### Trivia -/

instance withTrivia (p : Parser α) [Steadfast p] [Orderly p] : Steadfast (withTrivia p) where
  repeats {s s'} h := by
    have hshow : s.showing.Tries s'.showing :=
      ⟨congrArg (Cursor.pushTrivia · true) h.cursor, h.stack, h.trials⟩
    have hhide : ∀ {t t' : State}, t.Tries t' → (s.hidingAs t).Tries (s'.hidingAs t') :=
      fun {t t'} ht => ⟨by
        show s.cursor.rewind t.cursor.index = s'.cursor.rewind t'.cursor.index
        rw [h.cursor, ht.cursor], ht.stack, ht.trials⟩
    have hp : Repeats s.showing s'.showing (p s.showing) (p s'.showing) := repeats hshow
    cases hp with
    | ok hx hy ht hst =>
      exact .ok (Orderly.withTrivia_of_ok hx) (Orderly.withTrivia_of_ok hy) (hhide ht)
        ⟨hst.trials, hst.lastRecovery, hst.collector⟩
    | error hx hy ht hst =>
      exact .error (Orderly.withTrivia_of_error hx) (Orderly.withTrivia_of_error hy) (hhide ht)
        ⟨hst.trials, hst.lastRecovery, hst.collector⟩

/-! ### Remarks and declarations -/

instance (token : Token) : Steadfast (remark semicolonRemark token) where
  repeats {s s'} h := by
    refine .ok (remark_eq _ token s) (remark_eq _ token s') ?_ ?_
    · rw [if_pos h.trials]
      split
      · exact h
      · exact ⟨h.cursor, h.stack, h.trials⟩
    · split
      · exact .refl s
      · exact ⟨rfl, rfl, .remark (.refl _) token s.ruleName⟩

instance (change : Package → Package) : Steadfast (declare change) where
  repeats {s s'} h := by
    refine .ok (declare_eq change s) (declare_eq change s') ?_ ?_
    · rw [if_pos h.trials]
      split
      · exact h
      · exact ⟨h.cursor, h.stack, h.trials⟩
    · split
      · exact .refl s
      · exact ⟨rfl, rfl, .refl _⟩

end Steadfast

namespace Foreseen

theorem bind_of {p : Parser α} {f : α → Parser β} {s s' : State}
    (h : Repeats s s' (p s) (p s') ∨ s.trials = 0 ∧ ∃ f t', p s' = .error f t')
    (hf : ∀ a, Foreseen (f a)) : Repeats s s' ((p >>= f) s) ((p >>= f) s') ∨
      s.trials = 0 ∧ ∃ g t', (p >>= f) s' = .error g t' := by
  rcases h with h | ⟨hs, g, t', hy⟩
  · cases h with
    | @ok a _ _ hx hy h hst =>
      rw [bind_of_ok hx, bind_of_ok hy]
      refine ((hf a).repeats_or h).imp (fun h => h.trans hst) fun ⟨ht, hg⟩ => ?_
      exact ⟨hst.trials.symm.trans ht, hg⟩
    | error hx hy h hst => exact .inl (.error (bind_of_error hx) (bind_of_error hy) h hst)
  · exact .inr ⟨hs, g, t', bind_of_error hy⟩

instance bind (p : Parser α) (f : α → Parser β) [Foreseen p] [hf : ∀ a, Foreseen (f a)] :
    Foreseen (p >>= f) where
  repeats_or h := bind_of (repeats_or h) hf

instance (c : Prop) [Decidable c] (p q : Parser α) [Foreseen p] [Foreseen q] :
    Foreseen (if c then p else q) := by
  split <;> infer_instance

instance map (p : Parser α) (f : α → β) [Foreseen p] : Foreseen (f <$> p) := by
  rw [map_eq_bind]; infer_instance

instance (f : Nat → Parser α) [∀ n, Foreseen (f n)] : Foreseen (levels >>= f) where
  repeats_or {s s'} h := by
    rw [bind_of_ok (levels_eq s), bind_of_ok (levels_eq s'), ← h.stack]
    exact repeats_or h

instance nested (n : Nesting) (p : Parser α) [Foreseen p] : Foreseen (nested n p) where
  repeats_or {s s'} h := by
    by_cases hroom : n.frames ≤ s.stack.room
    · have hroom' : n.frames ≤ s'.stack.room := h.stack ▸ hroom
      refine (repeats_or (p := p) (Steadfast.tries_within n h)).imp
        (fun hp => ?_) fun ⟨hs, hfails⟩ => ?_
      · cases hp with
        | ok hx hy ht hst =>
          exact .ok (nested_of_ok hroom hx) (nested_of_ok hroom' hy) ⟨ht.cursor, h.stack, ht.trials⟩
            ⟨hst.trials, hst.lastRecovery, hst.collector⟩
        | error hx hy ht hst =>
          exact .error (nested_of_error hroom hx) (nested_of_error hroom' hy)
            ⟨ht.cursor, h.stack, ht.trials⟩ ⟨hst.trials, hst.lastRecovery, hst.collector⟩
      · obtain ⟨f, t', hy⟩ := hfails
        exact ⟨hs, f, _, nested_of_error hroom' hy⟩
    · have hdeep := Nat.lt_of_not_le hroom
      exact .inl (.error (nested_of_deep p hdeep) (nested_of_deep p (h.stack ▸ hdeep)) h (.refl s))

/-- A trial fails where outside of it an error is recovered from. -/
instance (e : ParseError) (kinds : List TokenKind) : Foreseen (recoverFrom e kinds) where
  repeats_or {s s'} h := by
    have hy : recoverFrom e kinds s' = .error (.recognition e) s' := by
      rw [recoverFrom_eq, if_pos h.trials]
    by_cases hs : 0 < s.trials
    · have hx : recoverFrom e kinds s = .error (.recognition e) s := by
        rw [recoverFrom_eq, if_pos hs]
      exact .inl (.error hx hy h (.refl s))
    · exact .inr ⟨Nat.eq_zero_of_not_pos hs, _, _, hy⟩

/-- Whether a trial succeeds does not depend on whether it runs in another one. -/
instance trial (alternative : String) (p : Parser α) [Foreseen p] [Orderly p] :
    Steadfast (trial alternative p) where
  repeats {s s'} h := by
    have htrying : s.trying.Tries s'.trying := ⟨h.cursor, h.stack, Nat.succ_pos _⟩
    have hp := (repeats_or (p := p) htrying).resolve_right fun hno =>
      Nat.succ_ne_zero s.trials hno.1
    have hx := trial_eq alternative p s
    have hy := trial_eq alternative p s'
    have hrestored : ∀ {t t' : State}, s.trying.Evolves t → s'.trying.Evolves t' →
        (s.restored t).Tries (s'.restored t') ∧ s.Smooth (s.restored t) := by
      intro t t' ht ht'
      rw [Orderly.restored_eq ht, Orderly.restored_eq ht']
      exact ⟨⟨h.cursor, h.stack, h.trials⟩, rfl, rfl, .refl _⟩
    cases hp with
    | ok hps hps' _ _ =>
      obtain ⟨htries, hsmooth⟩ := hrestored (Orderly.evolves_ok p hps) (Orderly.evolves_ok p hps')
      rw [hps] at hx
      rw [hps'] at hy
      exact .ok hx hy htries hsmooth
    | @error f t t' hps hps' _ _ =>
      have ht := Orderly.evolves_error p hps
      have ht' := Orderly.evolves_error p hps'
      rw [hps] at hx
      rw [hps'] at hy
      cases f with
      | recognition e =>
        obtain ⟨htries, hsmooth⟩ := hrestored (ht.trans (Orderly.evolves_noted _ t))
          (ht'.trans (Orderly.evolves_noted _ t'))
        exact .ok hx hy htries hsmooth
      | _ =>
        obtain ⟨htries, hsmooth⟩ := hrestored ht ht'
        exact .error hx hy htries hsmooth

end Foreseen

end Parser

end Rulebook

/-!
## Trials of the grammar

The grammar makes four trials: of a function import, of an accumulation, of a collection, and of a
connective followed by a restriction. Within them errors are recovered from at one place only, the
constraint list of a pattern.
-/

namespace Rulebook.Parser

set_option synthInstance.maxSize 100000

namespace Steadfast

/-! ### Names -/

instance : Steadfast dottedName := by unfold dottedName; infer_instance

instance (x : String × Bool) : Steadfast (importPart x) := by unfold importPart; infer_instance

instance : Steadfast importTarget := by unfold importTarget; infer_instance

instance : Steadfast functionImport := by unfold functionImport; infer_instance

/-! ### Embedded code -/

instance (opening closing : Symbol) (stops : List Symbol) (inner : Parser String) [Steadfast inner]
    (x : String × Bool) : Steadfast (chunkPart opening closing stops inner x) := by
  unfold chunkPart; infer_instance

instance chunkWithin (opening closing : Symbol) (stops : List Symbol) (levels : Nat) :
    Steadfast (chunkWithin opening closing stops levels) := by
  induction levels with
  | zero => unfold Parser.chunkWithin; infer_instance
  | succ levels ih => unfold Parser.chunkWithin; infer_instance

instance (opening closing : Symbol) (stops : List Symbol) :
    Steadfast (chunk opening closing stops) := by
  unfold chunk; infer_instance

instance : Steadfast parenChunk := by unfold parenChunk; infer_instance

instance : Steadfast squareChunk := by unfold squareChunk; infer_instance

instance : Steadfast parenCode := by unfold parenCode; infer_instance

instance (code : String) (token : Token) : Steadfast (checkSemicolon code token) := by
  have : Steadfast (remark "trailing semi-colon not allowed" token) :=
    inferInstanceAs (Steadfast (remark semicolonRemark token))
  unfold checkSemicolon; infer_instance

/-! ### Restrictions -/

instance (operator : String) (token : Token) : Steadfast (restrictionValue operator token) := by
  unfold restrictionValue
  refine @bind _ _ _ _ _ fun value => ?_
  dsimp only
  split <;> infer_instance

instance (operator : String) (c : Connective) : Steadfast (valueList operator c) := by
  unfold valueList; infer_instance

instance : Steadfast restriction := by unfold restriction; infer_instance

instance : Steadfast connectedRestriction := by unfold connectedRestriction; infer_instance

instance (x : List Restriction × Bool) : Steadfast (joinedRestriction x) := by
  unfold joinedRestriction
  refine @bind _ _ _ _ _ fun token => ?_
  split <;> infer_instance

instance : Steadfast restrictions := by unfold restrictions; infer_instance

/-! ### Constraints -/

instance (token : Token) (field declaration : Option String) :
    Steadfast (predicate token field declaration) := by
  unfold predicate; infer_instance

instance : Steadfast bindingName := by unfold bindingName; infer_instance

instance (token fieldToken : Token) (field : String) (declaration : Option String) :
    Steadfast (fieldConstraint token fieldToken field declaration) := by
  unfold fieldConstraint; infer_instance

instance : Steadfast fieldHead := by unfold fieldHead; infer_instance

instance (token : Token) (field : String) (declaration : Option String) :
    Steadfast (fieldBinding token field declaration) := by
  cases declaration <;> unfold fieldBinding <;> infer_instance

instance (found : List Constraint) (token : Token) : Steadfast (boundField found token) := by
  unfold boundField
  refine @bind _ _ _ _ _ fun head => ?_
  cases head <;> infer_instance

instance (token : Token) : Steadfast (evalPredicate token) := by
  unfold evalPredicate; infer_instance

instance (found : List Constraint) : Steadfast (constraint found) := by
  unfold constraint; infer_instance

instance : Steadfast constraints := by unfold constraints; infer_instance

/-! ### Access chains -/

instance : Steadfast arguments? := by unfold arguments?; infer_instance

instance (chain : List Access) (bracket : Token) : Steadfast (indexAccess chain bracket) := by
  unfold indexAccess; infer_instance

instance (chain : List Access) : Steadfast (memberAccess chain) := by
  unfold memberAccess; infer_instance

instance (chain : List Access) : Steadfast (access chain) := by unfold access; infer_instance

instance : Steadfast retrieval := by
  have hlook : ∀ f : Cursor → Retrieval, Steadfast (do return f (← get).cursor) :=
    fun f => of_look (a := f) fun _ => rfl
  unfold retrieval
  refine @bind _ _ _ _ _ fun start => @bind _ _ _ _ _ fun head => @bind _ _ _ _ _ fun arguments =>
    @bind _ _ _ _ _ fun chain => @bind _ _ _ _ _ fun location => ?_
  exact hlook fun c => ⟨location, ⟨location, head.text, arguments, chain⟩,
    c.text (location.start.getD 0) (location.stop.getD 0)⟩

end Steadfast

namespace Foreseen

/-! ### Patterns -/

instance (e : ParseError) : Foreseen (recoverParen e) := by unfold recoverParen; infer_instance

instance (failure : Option ParseError) : Foreseen (rightParen failure) := by
  unfold rightParen
  refine @bind _ _ _ _ _ fun closed => ?_
  cases closed <;> infer_instance

instance : Foreseen factPattern := by unfold factPattern; infer_instance

/-! ### Sources -/

section Within

variable (pattern : Parser Pattern) [Foreseen pattern] [Orderly pattern]

instance (token : Token) : Foreseen (accumulateBody pattern token) := by
  unfold accumulateBody; infer_instance

instance : Foreseen (accumulate pattern) := by unfold accumulate; infer_instance

instance (token : Token) : Foreseen (collectBody pattern token) := by
  unfold collectBody; infer_instance

instance : Foreseen (collect pattern) := by unfold collect; infer_instance

instance : Foreseen (fromSource pattern) := by unfold fromSource; infer_instance

end Within

instance patternWithin (levels : Nat) : Foreseen (patternWithin levels) := by
  induction levels with
  | zero => unfold Parser.patternWithin; infer_instance
  | succ levels ih => unfold Parser.patternWithin; infer_instance

end Foreseen

/-! ### Trials that succeed -/

/-- The productions that the parse tries: for each of these there is an alternative. -/
inductive Alternative : {α : Type} → Parser α → Prop where
  | functionImport : Alternative functionImport
  | accumulate (levels : Nat) : Alternative (accumulate (patternWithin levels))
  | collect (levels : Nat) : Alternative (collect (patternWithin levels))
  | connectedRestriction : Alternative connectedRestriction

theorem Alternative.foreseen {α : Type} {p : Parser α} (h : Alternative p) : Foreseen p := by
  cases h <;> infer_instance

theorem Alternative.orderly {α : Type} {p : Parser α} (h : Alternative p) : Orderly p := by
  cases h <;> infer_instance

/-- If a trial succeeds then the parse that follows it gives the same, at the place that the trial
had come to. It reports nothing but remarks on semicolons, and does not recover. -/
theorem parse_of_trial {α : Type} {p : Parser α} (hp : Alternative p) {alternative : String}
    {s t : State} (h : trial alternative p s = .ok true t) :
    ∃ a u v, p s.trying = .ok a u ∧ p t = .ok a v ∧ v.cursor = u.cursor ∧
      v.lastRecovery = t.lastRecovery ∧ t.collector.Remarks v.collector := by
  have := hp.foreseen
  have := hp.orderly
  have hst := Orderly.trial_of_ok h
  rw [trial_eq] at h
  cases hu : p s.trying with
  | error f u => cases f <;> simp [hu] at h
  | ok a u =>
    have htries : t.Tries s.trying := ⟨by rw [hst]; rfl, by rw [hst]; rfl, Nat.succ_pos _⟩
    rcases Foreseen.repeats_or (p := p) htries with hrepeats | ⟨-, f, u', hf⟩
    · cases hrepeats with
      | ok hx hy hvu hsmooth =>
        rw [hu] at hy
        cases hy
        exact ⟨a, u, _, rfl, hx, hvu.cursor, hsmooth.lastRecovery, hsmooth.collector⟩
      | error _ hy => rw [hu] at hy; cases hy
    · rw [hu] at hf
      cases hf

theorem parse_of_trial_accumulate :
    ∃ t a u v,
      trial "accumulate" (accumulate (patternWithin 2))
        (.ofText 900 {} "orders" "accumulate(P(), init(x;), action(y), result(z))") = .ok true t ∧
      accumulate (patternWithin 2)
        (State.ofText 900 {} "orders" "accumulate(P(), init(x;), action(y), result(z))").trying =
          .ok a u ∧
      accumulate (patternWithin 2) t = .ok a v ∧ v.cursor = u.cursor ∧
      v.lastRecovery = t.lastRecovery ∧ t.collector.Remarks v.collector := by
  have hsucceeds : (match trial "accumulate" (accumulate (patternWithin 2))
      (.ofText 900 {} "orders" "accumulate(P(), init(x;), action(y), result(z))") with
      | .ok answer _ => answer
      | .error .. => false) = true := by
    decide +kernel
  split at hsucceeds
  · next answer t h =>
    subst hsucceeds
    obtain ⟨a, u, v, hrest⟩ := parse_of_trial (.accumulate 2) h
    exact ⟨t, a, u, v, h, hrest⟩
  · cases hsucceeds

end Rulebook.Parser
