import Rulebook.Proofs.Onward

/-!
# What productions provide

A property of what a production provides, whenever it is run between two states of a class. It is
found by the shape of the production: what the parts of a sequence provide goes into what it
provides, and what a repetition builds up keeps its property from round to round. A class of runs
has the parts of its runs, too.
-/

namespace Rulebook.Parser

variable {α β : Type} {C : State → State → Prop} {P : α → Prop} {Q : β → Prop} {s t u : State}
  {p : Parser α}

/-- A class of runs, by the states before and after them, that has the parts of its runs. The name
of the rule and the stack do not matter. -/
class Enduring (C : State → State → Prop) : Prop where
  part : ∀ {s t u v}, C s v → s.Evolves t → t.Evolves u → u.Evolves v → C t u
  named : ∀ {s t} name, C s { t with ruleName := none } → C (s.named name) t
  within : ∀ {s t} n, C s (s.unwound t) → C (s.within n) t

/-- Whenever a production is run in a class of runs, `P` holds of what it provides. -/
structure Provides (C : State → State → Prop) (P : α → Prop) (p : Parser α) : Prop where
  of_ok : ∀ {s t : State} {a : α}, C s t → p s = .ok a t → P a

namespace Provides

theorem trivial : Provides C (fun _ => True) p := ⟨fun _ _ => True.intro⟩

theorem mono {P' : α → Prop} (h : Provides C P p) (hP : ∀ a, P a → P' a) : Provides C P' p :=
  ⟨fun hs ht => hP _ (h.of_ok hs ht)⟩

theorem pure {a : α} (h : P a) : Provides C P (Pure.pure a : Parser α) where
  of_ok _ hb := by
    rw [(pure_ok hb).1]
    exact h

theorem throw {f : Failure} : Provides C P (MonadExcept.throw f : Parser α) :=
  ⟨fun _ h => by cases h⟩

theorem fail {e : ParseError} : Provides C P (fail e : Parser α) := ⟨fun _ h => by cases h⟩

theorem map {f : α → β} (hp : Provides C P p) (hf : ∀ a, P a → Q (f a)) :
    Provides C Q (f <$> p) where
  of_ok hs h := by
    obtain ⟨a, ha, rfl⟩ := map_eq_ok h
    exact hf a (hp.of_ok hs ha)

theorem ite {c : Prop} [Decidable c] {q : Parser α} (hp : c → Provides C P p)
    (hq : ¬c → Provides C P q) : Provides C P (if c then p else q) := by
  split
  · next h => exact hp h
  · next h => exact hq h

/-- Of a failure that became a value nothing is asked. -/
theorem attempt (hp : Provides C P p) : Provides C (fun r => ∀ a, r = .ok a → P a) (attempt p) where
  of_ok hs h a ha := by
    rcases attempt_ok h with ⟨b, rfl, hb⟩ | ⟨e, rfl, -⟩
    · cases ha
      exact hp.of_ok hs hb
    · cases ha

theorem harvest {found : α} {q : Parser β} {add : α → β → α} (hfound : P found)
    (hq : Provides C Q q) (hadd : ∀ b, Q b → P (add found b)) :
    Provides C (fun r => P r.found) (harvest found q add) where
  of_ok hs h := by
    rcases harvest_ok h with ⟨b, hb, rfl⟩ | ⟨e, -, rfl⟩
    · exact hadd b (hq.of_ok hs hb)
    · exact hfound

theorem andThen {x : Harvest α} {next : α → Parser (Harvest α)} (hx : P x.found)
    (hnext : ∀ a, P a → Provides C (fun r => P r.found) (next a)) :
    Provides C (fun r => P r.found) (x.andThen next) where
  of_ok hs h := by
    rcases andThen_ok h with h | ⟨rfl, -⟩
    · exact (hnext _ hx).of_ok hs h
    · exact hx

section Enduring

variable [Enduring C]

theorem bindOf [Orderly p] {f : α → Parser β} (horderly : ∀ a, Orderly (f a)) (hp : Provides C P p)
    (hf : ∀ a, P a → Provides C Q (f a)) : Provides C Q (p >>= f) where
  of_ok hs h := by
    obtain ⟨a, u, hu, h⟩ := bind_eq_ok.1 h
    have hsu := Orderly.evolves_ok p hu
    have hut := @Orderly.evolves_ok _ (f a) (horderly a) _ _ _ h
    exact (hf a (hp.of_ok (Enduring.part hs (.refl _) hsu hut) hu)).of_ok
      (Enduring.part hs hsu hut (.refl _)) h

theorem bind [Orderly p] {f : α → Parser β} [horderly : ∀ a, Orderly (f a)] (hp : Provides C P p)
    (hf : ∀ a, P a → Provides C Q (f a)) : Provides C Q (p >>= f) :=
  bindOf horderly hp hf

/-- What comes first does not matter. -/
theorem afterOf [Orderly p] {f : α → Parser β} (horderly : ∀ a, Orderly (f a))
    (hf : ∀ a, Provides C Q (f a)) : Provides C Q (p >>= f) :=
  bindOf horderly trivial fun a _ => hf a

theorem after [Orderly p] {f : α → Parser β} [horderly : ∀ a, Orderly (f a)]
    (hf : ∀ a, Provides C Q (f a)) : Provides C Q (p >>= f) :=
  afterOf horderly hf

theorem rounds {more : α → Parser Bool} {body : α → Parser α} [∀ a, Orderly (more a)]
    [∀ a, Orderly (body a)] (hbody : ∀ a, P a → Provides C P (body a)) (n : Nat) :
    ∀ a, P a → Provides C P (rounds more body n a) := by
  induction n with
  | zero => exact fun a ha => pure ha
  | succ n ih =>
    intro a ha
    rw [Parser.rounds]
    exact after fun _ => ite (fun _ => bind (hbody a ha) ih) fun _ => pure ha

theorem repeatWhile {first : α} {more : α → Parser Bool} {body : α → Parser α}
    [∀ a, Orderly (more a)] [∀ a, Orderly (body a)] (hfirst : P first)
    (hbody : ∀ a, P a → Provides C P (body a)) : Provides C P (repeatWhile first more body) := by
  unfold Parser.repeatWhile
  exact after fun s => rounds hbody _ first hfirst

theorem nested (hp : Provides C P p) (n : Nesting) : Provides C P (nested n p) where
  of_ok hs h := by
    obtain ⟨-, u, hu, rfl⟩ := nested_eq_ok.1 h
    exact hp.of_ok (Enduring.within n hs) hu

omit [Enduring C] in
theorem byLevels {f : Nat → Parser α} (hf : ∀ n, Provides C P (f n)) :
    Provides C P (levels >>= f) where
  of_ok {s _ _} hs h := (hf (s.stack.frames + 1)).of_ok hs h

theorem underName {name : String} (hp : Provides C P p) : Provides C P (underName name p) where
  of_ok hs h := by
    obtain ⟨_, u, hu, h⟩ := bind_eq_ok.1 h
    cases hu
    obtain ⟨v, hv, rfl⟩ := ensuring_ok h
    exact hp.of_ok (Enduring.named name hs) hv

theorem recovering {name : String} {body : Parser (Harvest α)} [Orderly body]
    {locate : α → Location → α} {location : Location}
    (hbody : Provides C (fun r => P r.found) body) (hlocate : ∀ a l, P a → P (locate a l)) :
    Provides C P (recovering name body locate location) := by
  unfold Parser.recovering
  refine underName (bindOf (fun r => ?_) hbody fun r hr => ?_)
  · cases r.failure <;> dsimp only <;> infer_instance
  have hclosed : Provides C P (close location >>= fun l => Pure.pure (locate r.found l)) :=
    after fun l => pure (hlocate _ l hr)
  cases r.failure with
  | none => exact hclosed
  | some e => exact after fun _ => hclosed

end Enduring

end Provides

end Rulebook.Parser
