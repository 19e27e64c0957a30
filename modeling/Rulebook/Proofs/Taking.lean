import Rulebook.Proofs.Balanced
import Rulebook.Proofs.Behind
import Rulebook.Proofs.ConditionParts
import Rulebook.Proofs.Foresight

/-!
# What productions take, token by token

The tokens that a production takes out of a text, trivia aside, and all that is told of them: the
errors before them are over, and code that ends in a semicolon is remarked on. Nothing else of the
state changes.
-/

namespace Rulebook

variable {frames : Nat}

/-! ### Diagnostics -/

def Collector.remarked (ruleName : Option String) (notes : List Token) (c : Collector) :
    Collector :=
  notes.foldl (fun c token => c.remark semicolonRemark (some token) ruleName) c

def Collector.heard (ruleName : Option String) (ts notes : List Token) (c : Collector) :
    Collector :=
  (if ts = [] then c else c.tokenMatched).remarked ruleName notes

namespace Collector

variable {ruleName : Option String} {ts us notes notes' : List Token} {c : Collector}

theorem tokenMatched_remark (c : Collector) (message : String) (token : Option Token) :
    (c.remark message token ruleName).tokenMatched =
    c.tokenMatched.remark message token ruleName := by
  have hfull : c.tokenMatched.isFull = c.isFull := rfl
  unfold remark add
  rw [hfull]
  split <;> rfl

theorem tokenMatched_remarked (notes : List Token) (c : Collector) :
    (c.remarked ruleName notes).tokenMatched = c.tokenMatched.remarked ruleName notes := by
  induction notes generalizing c with
  | nil => rfl
  | cons note notes ih =>
    show (remarked ruleName notes (c.remark ..)).tokenMatched = _
    rw [ih, tokenMatched_remark]
    rfl

theorem heard_heard (ts us notes notes' : List Token) (c : Collector) :
    (c.heard ruleName ts notes).heard ruleName us notes' =
      c.heard ruleName (ts ++ us) (notes ++ notes') := by
  have hremarked : ∀ c : Collector, (c.remarked ruleName notes).remarked ruleName notes' =
      c.remarked ruleName (notes ++ notes') := fun c => (List.foldl_append ..).symm
  cases us with
  | nil =>
    rw [List.append_nil]
    exact hremarked _
  | cons x us =>
    have hmatched : (if ts = [] then c else c.tokenMatched).tokenMatched = c.tokenMatched := by
      split <;> rfl
    unfold heard
    rw [if_neg (List.cons_ne_nil x us), tokenMatched_remarked, hremarked, hmatched,
      if_neg (List.append_ne_nil_of_right_ne_nil ts (List.cons_ne_nil x us))]

end Collector

namespace Parser

variable {α β : Type} {hashComments : Bool} {text : String} {room : Nat} {s t u : State}
  {ts us more notes notes' : List Token} {x : Token}

/-! ### Taking tokens -/

structure State.Reading (hashComments : Bool) (text : String) (s : State) : Prop where
  shows : s.cursor.Shows hashComments text
  hidden : s.cursor.triviaVisible = false
  within : s.cursor.index ≤ s.cursor.front.size

theorem reading_ofText (frames : Nat) (settings : Settings) (sourceName text : String) :
    (State.ofText frames settings sourceName text).Reading settings.hashComments text where
  shows := rfl
  hidden := hidden_scan text
  within := by
    show (Cursor.ofTokens _ text).index ≤ _
    rw [ofTokens_eq]
    exact Nat.zero_le _

/-- The tokens `ts` were taken, and the tokens `notes` were remarked on. -/
structure State.Takes (s t : State) (ts notes : List Token) : Prop where
  evolves : s.Evolves t
  ahead : s.cursor.ahead = ts ++ t.cursor.ahead
  within : s.cursor.index ≤ s.cursor.front.size → t.cursor.index ≤ t.cursor.front.size
  package : t.package = s.package
  ruleName : t.ruleName = s.ruleName
  collector :
      t.collector = if s.trials = 0 then s.collector.heard s.ruleName ts notes else s.collector

namespace State.Takes

theorem refl (s : State) : s.Takes s [] [] :=
  ⟨.refl s, rfl, id, rfl, rfl, (ite_self _).symm⟩

theorem trans (h : s.Takes t ts notes) (h' : t.Takes u us notes') :
    s.Takes u (ts ++ us) (notes ++ notes') where
  evolves := h.evolves.trans h'.evolves
  ahead := by rw [h.ahead, h'.ahead, List.append_assoc]
  within hs := h'.within (h.within hs)
  package := h'.package.trans h.package
  ruleName := h'.ruleName.trans h.ruleName
  collector := by
    rw [h'.collector, h.evolves.trials, h.ruleName, h.collector]
    split
    · exact Collector.heard_heard ..
    · rfl

theorem reading (h : s.Takes t ts notes) (hs : s.Reading hashComments text) :
    t.Reading hashComments text where
  shows := by
    unfold Cursor.Shows
    rw [h.evolves.cursor, hs.shows]
    rfl
  hidden := h.evolves.triviaVisible.trans hs.hidden
  within := h.within hs.within

theorem ahead_eq (h : s.Takes t ts notes) (hahead : s.cursor.ahead = ts ++ more) :
    t.cursor.ahead = more :=
  List.append_cancel_left (h.ahead.symm.trans hahead)

theorem room_eq (h : s.Takes t ts notes) (hroom : s.stack.room = room) : t.stack.room = room :=
  h.evolves.stack ▸ hroom

theorem previous (h : s.Takes t ts notes) (hs : s.Reading hashComments text) (hne : ts ≠ []) :
    t.cursor.previous = ts.getLast? := by
  rw [Cursor.previous_eq_getLast? (h.within hs.within), State.Took.of_ahead h.evolves h.ahead,
    List.getLast?_append_of_ne_nil _ hne]

end State.Takes

theorem current_of_ahead (hs : s.cursor.triviaVisible = false)
    (hahead : s.cursor.ahead = x :: more) : s.cursor.current = x := by
  rw [Cursor.current_of_hidden hs, hahead, List.headD_cons]

theorem takes_advanced (hs : s.cursor.triviaVisible = false)
    (hk : s.cursor.current.kind ≠ .endOfInput) : s.Takes s.advanced [s.cursor.current] [] where
  evolves := Orderly.evolves_advanced s
  ahead := Cursor.ahead_consume hs hk
  within _ := by
    have hlt := Cursor.seek_lt_of_current hk
    show s.cursor.consume.index ≤ s.cursor.consume.front.size
    rw [Cursor.front_consume, Cursor.consume_eq hk]
    exact hlt
  package := rfl
  ruleName := rfl
  collector := rfl

theorem takes_code (hs : s.Reading hashComments text) {opening closing : Token} {inner : List Token}
    (hopening : opening.kind = .symbol .lparen)
    (henclosed : enclosed .lparen .rparen [] s.stack.room 1 (inner ++ [closing]) =
      ⟨inner, .closed, [closing]⟩)
      (hahead : s.cursor.ahead = opening :: (inner ++ closing :: more)) :
    ∃ t, parenCode s = .ok (withoutDelimiters (Text.slice text opening.start closing.stop)) t ∧
      s.Takes t (opening :: (inner ++ [closing])) [] := by
  obtain rfl := current_of_ahead hs.hidden hahead
  have hadvanced := takes_advanced hs.hidden (by rw [hopening]; simp)
  have hrest : visible s.advanced.cursor.rest = inner ++ closing :: more :=
    State.Takes.ahead_eq hadvanced hahead
  -- trivia does not matter for where the code ends
  have hvisible := @enclosed_visible .lparen .rparen [] s.stack.room 1 s.advanced.cursor.rest
  rw [hrest, enclosed_of_next henclosed more, Enclosure.mk.injEq] at hvisible
  obtain ⟨hinner, hverdict, hleft⟩ := hvisible
  have he : Captured .paren s.stack.room s.cursor.current s.advanced.cursor.rest
      (enclosed .lparen .rparen [] s.stack.room 1 s.advanced.cursor.rest) := captured hopening _
  have hchunk : parenChunk s = _ := chunk_eq hopening
  generalize enclosed .lparen .rparen [] s.stack.room 1 s.advanced.cursor.rest = e
    at he hchunk hinner hverdict hleft
  obtain ⟨last, r, hlast, hkind, -⟩ := he.closesAt hverdict.symm
  rw [hlast, visible_cons_of_not_trivia (by rw [Token.isTrivia, hkind]; rfl),
    List.cons.injEq] at hleft
  obtain ⟨rfl, rfl⟩ := hleft
  have hcode : parenCode s = _ := map_of_ok (f := withoutDelimiters)
    (hchunk.trans (he.result_of_closesAt hs.shows hverdict.symm hlast).1)
  have hsplit : s.advanced.cursor.rest = (e.inner ++ [closing]) ++ r := by
    rw [he.rest_eq, hlast, List.append_assoc]
    rfl
  have hmoved := Cursor.rest_moved hsplit
  rw [List.length_append, List.length_singleton] at hmoved
  refine ⟨_, hcode, Orderly.evolves_ok parenCode hcode, ?_, fun _ => ?_, rfl, rfl, rfl⟩
  · show _ = _ ++ visible (Cursor.rest (s.advanced.cursor.rewind _))
    rw [hmoved, hahead]
    simp
  · have hle := Cursor.le_size_of_rest hsplit (hadvanced.within hs.within)
    rwa [List.length_append, List.length_singleton] at hle

/-! ### Productions -/

/-- Wherever `ts` and then `more` is ahead in the text and there is so much room on the stack, a
production gives `a`, takes `ts` and remarks on `notes`. -/
def Reads (room : Nat) (hashComments : Bool) (text : String) (p : Parser α) (ts more : List Token)
    (a : α) (notes : List Token) : Prop :=
  ∀ ⦃s : State⦄, s.Reading hashComments text → s.stack.room = room → s.cursor.ahead = ts ++ more →
    ∃ t, p s = .ok a t ∧ s.Takes t ts notes

namespace Reads

variable {a : α} {b : β} {p : Parser α} {f : α → Parser β}

theorem pure (a : α) : Reads room hashComments text (pure a) [] more a [] :=
  fun s _ _ _ => ⟨s, rfl, .refl s⟩

theorem bind (hp : Reads room hashComments text p ts (us ++ more) a notes)
    (hf : Reads room hashComments text (f a) us more b notes') :
    Reads room hashComments text (p >>= f) (ts ++ us) more b (notes ++ notes') := by
  intro s hs hroom hahead
  rw [List.append_assoc] at hahead
  obtain ⟨t, ht, hst⟩ := hp hs hroom hahead
  obtain ⟨u, hu, htu⟩ := hf (hst.reading hs) (hst.room_eq hroom) (hst.ahead_eq hahead)
  exact ⟨u, (bind_of_ok ht).trans hu, hst.trans htu⟩

/-- A sequence whose first part takes one token. -/
theorem step (hp : Reads room hashComments text p [x] (us ++ more) a [])
    (hf : Reads room hashComments text (f a) us more b notes) :
    Reads room hashComments text (p >>= f) (x :: us) more b notes :=
  hp.bind hf

/-- A sequence whose second part takes nothing. -/
theorem before (hp : Reads room hashComments text p ts more a notes)
    (hf : Reads room hashComments text (f a) [] more b notes') :
    Reads room hashComments text (p >>= f) ts more b (notes ++ notes') := by
  rw [← List.append_nil ts]
  exact hp.bind hf

theorem map {g : α → β} (hp : Reads room hashComments text p ts more a notes) :
    Reads room hashComments text (g <$> p) ts more (g a) notes := by
  intro s hs hroom hahead
  obtain ⟨t, ht, hst⟩ := hp hs hroom hahead
  exact ⟨t, map_of_ok ht, hst⟩

theorem andPure {g : α → β} (hp : Reads room hashComments text p ts more a notes) :
    Reads room hashComments text (do return g (← p)) ts more (g a) notes := by
  rw [← map_eq_bind]
  exact hp.map

theorem current {f : Token → Parser β} (hhead : (ts ++ more).head? = some x)
    (hf : Reads room hashComments text (f x) ts more b notes) :
    Reads room hashComments text (Parser.current >>= f) ts more b notes := by
  intro s hs hroom hahead
  obtain ⟨us, hus⟩ := List.head?_eq_some_iff.1 hhead
  obtain rfl := current_of_ahead hs.hidden (hahead.trans hus)
  exact hf hs hroom hahead

theorem peek {f : Token → Parser β}
    (hf : ∀ token : Token, token.kind = ((ts ++ more)[1]?.map (·.kind)).getD .endOfInput →
      Reads room hashComments text (f token) ts more b notes) :
    Reads room hashComments text (Parser.peek 1 >>= f) ts more b notes := by
  intro s hs hroom hahead
  refine hf (s.cursor.lookahead 2) ?_ hs hroom hahead
  rw [Cursor.lookahead_of_hidden hs.hidden, hahead, List.getD_eq_getElem?_getD]
  cases (ts ++ more)[1]? <;> rfl

theorem advance (hk : x.kind ≠ .endOfInput) :
    Reads room hashComments text advance [x] more x [] := by
  intro s hs hroom hahead
  obtain rfl := current_of_ahead hs.hidden hahead
  exact ⟨_, advance_eq s, takes_advanced hs.hidden hk⟩

theorem expect {kind : TokenKind} (hkind : x.kind = kind) (hk : kind ≠ .endOfInput) :
    Reads room hashComments text (expect kind) [x] more x [] := by
  intro s hs hroom hahead
  obtain rfl := current_of_ahead hs.hidden hahead
  exact ⟨_, (expect_eq kind s).trans (if_pos hkind), takes_advanced hs.hidden (hkind ▸ hk)⟩

theorem name (hname : x.isName = true) : Reads room hashComments text name [x] more x [] := by
  intro s hs hroom hahead
  obtain rfl := current_of_ahead hs.hidden hahead
  exact ⟨_, (name_eq s).trans (if_pos hname),
    takes_advanced hs.hidden (Eager.ne_endOfInput_of_isName hname)⟩

theorem remark (token : Token) :
    Reads room hashComments text (remark semicolonRemark token) [] more () [token] := by
  intro s _ _ _
  refine ⟨_, remark_eq _ token s, ?_⟩
  by_cases htrials : 0 < s.trials
  · rw [if_pos htrials]
    exact ⟨.refl s, rfl, id, rfl, rfl, by rw [if_neg (by omega)]⟩
  · rw [if_neg htrials]
    refine ⟨?_, rfl, id, rfl, rfl, by rw [if_pos (by omega)]; rfl⟩
    have hevolves := Orderly.evolves_ok _ (remark_eq semicolonRemark token s)
    rwa [if_neg htrials] at hevolves

theorem close {f : α → Location → β} (hp : Reads room hashComments text p ts more a notes)
    (hne : ts ≠ []) (l : Location) :
    Reads room hashComments text
      (do let a ← p; return f a (← close l)) ts more (f a (l.closeAt (ts.getLast?.map (·.stop))))
      notes := by
  intro s hs hroom hahead
  obtain ⟨t, ht, hst⟩ := hp hs hroom hahead
  refine ⟨t, (bind_of_ok ht).trans ?_, hst⟩
  rw [← hst.previous hs hne]
  rfl

/-- A repetition that goes on. -/
theorem round {more' : α → Parser Bool} {body : α → Parser α} {a b c : α}
    (hrolls : Rolls more' body)
    (hmore : ∀ s : State, s.Reading hashComments text → s.cursor.ahead = ts ++ (us ++ more) →
      more' a s = .ok true s)
    (hbody : Reads room hashComments text (body a) ts (us ++ more) b notes)
    (hrest : Reads room hashComments text (repeatWhile b more' body) us more c notes') :
    Reads room hashComments text (repeatWhile a more' body)
      (ts ++ us) more c (notes ++ notes') := by
  intro s hs hroom hahead
  rw [List.append_assoc] at hahead
  obtain ⟨t, ht, hst⟩ := hbody hs hroom hahead
  obtain ⟨u, hu, htu⟩ := hrest (hst.reading hs) (hst.room_eq hroom) (hst.ahead_eq hahead)
  exact ⟨u, (repeatWhile_round hrolls (hmore s hs hahead) ht).trans hu, hst.trans htu⟩

/-- A repetition that is over. -/
theorem done {more' : α → Parser Bool} {body : α → Parser α} {a : α} (hrolls : Rolls more' body)
    (hmore : ∀ s : State, s.Reading hashComments text → s.cursor.ahead = more →
      more' a s = .ok false s) :
    Reads room hashComments text (repeatWhile a more' body) [] more a [] := by
  intro s hs hroom hahead
  refine ⟨s, ?_, .refl s⟩
  rw [hrolls.repeatWhile_eq (Nat.le_refl _), Turns.rounds_succ (hmore s hs hahead)]
  rfl

end Reads

end Parser

end Rulebook
