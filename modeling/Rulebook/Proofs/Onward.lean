import Rulebook.Proofs.Eager
import Rulebook.Proofs.Layout

/-!
# Where productions begin and end

A production that is run over a text begins at the next token and ends behind the last one that it
took, and neither place goes back. A location that is closed after its first token was taken covers
the text up to the last token that was taken.
-/

namespace Rulebook.Parser

variable {α β : Type} {text : String} {s t u : State} {a : α}

/-! ### Moving on -/

structure State.Onward (text : String) (s t : State) : Prop where
  stays : t.cursor.Over text
  past_le : s.cursor.past ≤ t.cursor.past
  coming_le : s.cursor.coming ≤ t.cursor.coming

namespace State.Onward

theorem of_evolves (hs : s.cursor.Over text) (h : s.Evolves t) : s.Onward text t := by
  refine ⟨?_, ?_, ?_⟩ <;> rw [h.cursor]
  · exact hs.rewind _
  · exact hs.past_mono h.index
  · exact hs.coming_mono h.index

theorem of_ok {p : Parser α} [Orderly p] (hs : s.cursor.Over text) (h : p s = .ok a t) :
    s.Onward text t :=
  .of_evolves hs (Orderly.evolves_ok p h)

theorem of_error {p : Parser α} [Orderly p] {f : Failure} (hs : s.cursor.Over text)
    (h : p s = .error f t) : s.Onward text t :=
  .of_evolves hs (Orderly.evolves_error p h)

theorem past_le_coming (h : s.Onward text t) : t.cursor.past ≤ t.cursor.coming :=
  h.stays.past_le_coming

theorem trans (h : s.Onward text t) (h' : t.Onward text u) : s.Onward text u :=
  ⟨h'.stays, Nat.le_trans h.past_le h'.past_le, Nat.le_trans h.coming_le h'.coming_le⟩

end State.Onward

theorem State.Evolves.stop_le_past (h : s.Evolves t) (hs : s.cursor.Over text)
    (hlt : t.cursor.ahead.length < s.cursor.ahead.length) :
    s.cursor.coming < t.cursor.past ∧ s.cursor.current.stop ≤ t.cursor.past := by
  rw [h.cursor] at hlt ⊢
  exact ⟨hs.coming_lt_past hlt, hs.stop_le_past hlt⟩

/-- What takes a token ends behind the place where it began. -/
theorem coming_lt_past {p : Parser α} [Orderly p] [Eager p] (hs : s.cursor.Over text)
    (h : p s = .ok a t) : s.cursor.coming < t.cursor.past :=
  ((Orderly.evolves_ok p h).stop_le_past hs (Eager.shortens p hs.hidden h)).1

structure Taken (text : String) (s : State) (token : Token) (t : State) : Prop where
  stands : token.StandsIn text
  start : token.start = s.cursor.coming
  lt : token.start < token.stop
  stop_le : token.stop ≤ t.cursor.past

theorem taken_of_advance (hs : s.cursor.Over text) (hk : s.cursor.current.kind ≠ .endOfInput)
    {token : Token} (h : advance s = .ok token t) : Taken text s token t := by
  have hlt := (EagerFrom.advance hk).shortens hs.hidden h
  obtain ⟨hcoming, hstop⟩ := (Orderly.evolves_ok advance h).stop_le_past hs hlt
  have hsolid : s.cursor.current.start < s.cursor.current.stop := by
    have hseek := Cursor.seek_lt_of_current hk
    exact hs.solid hseek
  rw [advance_eq] at h
  cases h
  exact ⟨hs.current, rfl, hsolid, hstop⟩

theorem taken_of_expect {kind : TokenKind} (hs : s.cursor.Over text) {token : Token}
    (hk : kind ≠ .endOfInput) (h : expect kind s = .ok token t) : Taken text s token t := by
  obtain ⟨rfl, hkind, rfl⟩ := expect_of_ok h
  exact taken_of_advance hs (hkind ▸ hk) (advance_eq s)

theorem taken_of_symbol {k : Symbol} (hs : s.cursor.Over text) {token : Token}
    (h : symbol k s = .ok token t) : Taken text s token t :=
  taken_of_expect hs (by simp) h

theorem taken_of_keyword {k : Keyword} (hs : s.cursor.Over text) {token : Token}
    (h : keyword k s = .ok token t) : Taken text s token t :=
  taken_of_expect hs (by simp) h

theorem Taken.lt_past {token : Token} (h : Taken text s token t) : token.start < t.cursor.past :=
  Nat.lt_of_lt_of_le h.lt h.stop_le

/-! ### Closing a location -/

theorem previous_stop_of_pos (h : 0 < s.cursor.past) :
    s.cursor.previous.map (·.stop) = some s.cursor.past := by
  unfold Cursor.past at h ⊢
  cases hp : s.cursor.previous.map (·.stop) with
  | none => rw [hp] at h; exact absurd h (Nat.lt_irrefl 0)
  | some b => rfl

theorem lastStop_ok {b : Option Nat} (h : lastStop s = .ok b t) :
    t = s ∧ b = s.cursor.previous.map (·.stop) := by
  cases h
  exact ⟨rfl, rfl⟩

theorem close_ok {l l' : Location} (h : close l s = .ok l' t) :
    t = s ∧ l' = l.closeAt (s.cursor.previous.map (·.stop)) := by
  cases h
  exact ⟨rfl, rfl⟩

theorem covers_of_close {token : Token} {l : Location} (h : close (.ofToken token) s = .ok l t)
    (htoken : token.StandsIn text) (hlt : token.start < t.cursor.past) :
    t = s ∧ l.Covers text token.start t.cursor.past := by
  obtain ⟨rfl, rfl⟩ := close_ok h
  rw [previous_stop_of_pos (Nat.lt_of_le_of_lt (Nat.zero_le _) hlt)]
  exact ⟨rfl, htoken.covers hlt⟩

theorem made_of_close {token : Token} {f : Location → α}
    (h : (close (.ofToken token) >>= fun l => pure (f l)) s = .ok a t)
    (htoken : token.StandsIn text) (hlt : token.start < t.cursor.past) :
    t = s ∧ ∃ l, a = f l ∧ l.Covers text token.start t.cursor.past := by
  obtain ⟨l, u, hl, hu⟩ := bind_eq_ok.1 h
  cases hu
  obtain ⟨rfl, hcovers⟩ := covers_of_close hl htoken hlt
  exact ⟨rfl, l, rfl, hcovers⟩

/-! ### Runs -/

theorem pure_ok {b : α} (h : (pure a : Parser α) s = .ok b t) : b = a ∧ t = s := by
  cases h
  exact ⟨rfl, rfl⟩

theorem map_eq_ok {p : Parser α} {f : α → β} {b : β} (h : (f <$> p) s = .ok b t) :
    ∃ a, p s = .ok a t ∧ b = f a := by
  cases hp : p s with
  | ok a u =>
    rw [map_of_ok hp] at h
    cases h
    exact ⟨a, rfl, rfl⟩
  | error f u => rw [map_of_error hp] at h; cases h

theorem current_ok {token : Token} (h : current s = .ok token t) :
    token = s.cursor.current ∧ t = s := by
  cases h
  exact ⟨rfl, rfl⟩

theorem attempt_ok {p : Parser α} {r : Except ParseError α} (h : attempt p s = .ok r t) :
    (∃ a, r = .ok a ∧ p s = .ok a t) ∨ ∃ e, r = .error e ∧ p s = .error (.recognition e) t := by
  cases hp : p s with
  | ok a u =>
    rw [attempt_of_ok hp] at h
    cases h
    exact .inl ⟨a, rfl, rfl⟩
  | error f u =>
    cases f with
    | recognition e =>
      rw [attempt_of_recognition hp] at h
      cases h
      exact .inr ⟨e, rfl, rfl⟩
    | _ => rw [attempt_of_error hp (by simp)] at h; cases h

theorem harvest_ok {found : α} {p : Parser β} {add : α → β → α} {r : Harvest α}
    (h : harvest found p add s = .ok r t) :
    (∃ b, p s = .ok b t ∧ r = { found := add found b }) ∨
      ∃ e, p s = .error (.recognition e) t ∧ r = { found, failure := some e } := by
  obtain ⟨x, hx, rfl⟩ := map_eq_ok h
  rcases attempt_ok hx with ⟨b, rfl, hb⟩ | ⟨e, rfl, he⟩
  · exact .inl ⟨b, hb, rfl⟩
  · exact .inr ⟨e, he, rfl⟩

theorem andThen_ok {x r : Harvest α} {next : α → Parser (Harvest α)}
    (h : x.andThen next s = .ok r t) : next x.found s = .ok r t ∨ r = x ∧ t = s := by
  unfold Harvest.andThen at h
  cases hx : x.failure with
  | none => rw [hx] at h; exact .inl h
  | some e => rw [hx] at h; exact .inr (pure_ok h)

theorem ensuring_ok {p : Parser α} {change : State → State} (h : ensuring p change s = .ok a t) :
    ∃ u, p s = .ok a u ∧ t = change u := by
  cases hp : p s with
  | ok b u =>
    rw [ensuring_of_ok hp] at h
    cases h
    exact ⟨u, rfl, rfl⟩
  | error f u => rw [ensuring_of_error hp] at h; cases h

theorem trial_ok {alternative : String} {p : Parser α} [Orderly p] {b : Bool}
    (h : trial alternative p s = .ok b t) : t.cursor = s.cursor ∧ t.package = s.package := by
  rw [Orderly.trial_of_ok h]
  exact ⟨rfl, rfl⟩

/-- What holds at the start of a repetition and is kept by each round holds at its end. -/
theorem rounds_invariant {I : State → α → Prop} {more : α → Parser Bool} {body : α → Parser α}
    (hmore : ∀ {a b s t}, more a s = .ok b t → t = s)
    (hbody : ∀ {a b s t}, more a s = .ok true s → I s a → body a s = .ok b t → I t b)
    {n : Nat} {a b : α} (ha : I s a) (h : rounds more body n a s = .ok b t) : I t b := by
  induction n generalizing a s with
  | zero => obtain ⟨rfl, rfl⟩ := pure_ok h; exact ha
  | succ n ih =>
    rw [rounds] at h
    obtain ⟨c, u, hc, h⟩ := bind_eq_ok.1 h
    obtain rfl := hmore hc
    cases c with
    | true =>
      obtain ⟨a', v, ha', h⟩ := bind_eq_ok.1 h
      exact ih (hbody hc ha ha') h
    | false =>
      obtain ⟨rfl, rfl⟩ := pure_ok h
      exact ha

theorem repeatWhile_invariant {I : State → α → Prop} {first : α} {more : α → Parser Bool}
    {body : α → Parser α} (hmore : ∀ {a b s t}, more a s = .ok b t → t = s)
    (hbody : ∀ {a b s t}, more a s = .ok true s → I s a → body a s = .ok b t → I t b) {b : α}
    (hfirst : I s first) (h : repeatWhile first more body s = .ok b t) : I t b := by
  obtain ⟨u, v, hu, h⟩ := bind_eq_ok.1 h
  cases hu
  exact rounds_invariant hmore hbody hfirst h

end Rulebook.Parser
