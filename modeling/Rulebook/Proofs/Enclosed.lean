import Rulebook.Proofs.OrderlyGrammar
import Rulebook.Proofs.Stretch

/-!
# What embedded code takes

Embedded code is read by a production that calls itself for the embedded code within, makes trivia
visible for each of these and hides it again behind each. All the same it passes over the tokens one
by one, and where it ends is found by counting the pairs that are open. Trivia neither opens nor
closes anything.
-/

namespace Rulebook.Parser

/-- How embedded code ends. -/
inductive Verdict where
  /-- The opening symbol is balanced by the token that follows. -/
  | closed
  /-- A stop symbol follows. -/
  | stopped
  /-- Nothing follows. -/
  | ended
  /-- The token that follows nests too deep. -/
  | deep
  deriving DecidableEq

/-- Embedded code: its tokens, how it ends, and the tokens that follow. -/
structure Enclosure where
  inner : List Token
  verdict : Verdict
  left : List Token

def Enclosure.behind (e : Enclosure) : List Token :=
  match e.verdict with
  | .closed => e.left.tail
  | _ => e.left

def Enclosure.cons (t : Token) (e : Enclosure) : Enclosure := { e with inner := t :: e.inner }

/-- What the token after embedded code is, by how the code ends. -/
def Enclosure.Ends (opening closing : Symbol) (stops : List Symbol) (e : Enclosure) : Prop :=
  match e.verdict with
  | .closed => ∃ t r, e.left = t :: r ∧ t.kind = .symbol closing
  | .stopped => ∃ t r, e.left = t :: r ∧ t.kind ∈ stops.map TokenKind.symbol
  | .ended => ∀ t r, e.left = t :: r → t.kind = .endOfInput
  | .deep => ∃ t r, e.left = t :: r ∧ t.kind = .symbol opening

/-- The embedded code at the beginning of a list, where `depth` pairs are open. There is room for a
number of further pairs in the first of them. -/
def enclosed (opening closing : Symbol) (stops : List Symbol) (room : Nat) :
    Nat → List Token → Enclosure
  | _, [] => ⟨[], .ended, []⟩
  | depth, t :: ts =>
    if t.kind = .symbol opening then
      if room < depth then ⟨[], .deep, t :: ts⟩
      else (enclosed opening closing stops room (depth + 1) ts).cons t
    else if t.kind = .symbol closing then
      if depth ≤ 1 then ⟨[], .closed, t :: ts⟩
      else (enclosed opening closing stops room (depth - 1) ts).cons t
    else if t.kind = .endOfInput then ⟨[], .ended, t :: ts⟩
    else if t.kind ∈ stops.map TokenKind.symbol then ⟨[], .stopped, t :: ts⟩
    else (enclosed opening closing stops room depth ts).cons t

def openBehind (opening closing : Symbol) (stops : List Symbol) (room depth : Nat) (k : TokenKind) :
    Except Verdict Nat :=
  if k = .symbol opening then
    if room < depth then .error .deep else .ok (depth + 1)
  else if k = .symbol closing then
    if depth ≤ 1 then .error .closed else .ok (depth - 1)
  else if k = .endOfInput then .error .ended
  else if k ∈ stops.map TokenKind.symbol then .error .stopped
  else .ok depth

section Enclosed

variable {opening closing : Symbol} {stops : List Symbol} {room : Nat}

namespace Enclosure.Ends

variable {e : Enclosure}

theorem solid (h : e.Ends opening closing stops) : ∀ t ∈ e.left.head?, t.isTrivia = false := by
  have hsymbol : ∀ {t : Token} {k : Symbol}, t.kind = .symbol k → t.isTrivia = false :=
    fun hk => by simp [Token.isTrivia, hk, TokenKind.isTrivia]
  intro u hu
  obtain ⟨ts, hleft⟩ := List.head?_eq_some_iff.1 hu
  unfold Enclosure.Ends at h
  split at h
  · obtain ⟨t, r, hcons, hk⟩ := h
    cases hleft.symm.trans hcons
    exact hsymbol hk
  · obtain ⟨t, r, hcons, hk⟩ := h
    cases hleft.symm.trans hcons
    obtain ⟨k, -, hk⟩ := List.mem_map.1 hk
    exact hsymbol hk.symm
  · simp [Token.isTrivia, h u ts hleft, TokenKind.isTrivia]
  · obtain ⟨t, r, hcons, hk⟩ := h
    cases hleft.symm.trans hcons
    exact hsymbol hk

theorem left_eq_nil (h : e.Ends opening closing stops) (hverdict : e.verdict = .ended)
    (hplain : ∀ t ∈ e.left, t.kind ≠ .endOfInput) : e.left = [] := by
  rw [Enclosure.Ends, hverdict] at h
  cases hleft : e.left with
  | nil => rfl
  | cons t r => exact absurd (h t r hleft) (hplain t (hleft ▸ List.mem_cons_self))

theorem ended_of_left (h : e.Ends opening closing stops) (hleft : e.left = []) :
    e.verdict = .ended := by
  unfold Enclosure.Ends at h
  split at h
  case h_3 hverdict => exact hverdict
  all_goals
    obtain ⟨t, r, hcons, -⟩ := h
    cases hleft.symm.trans hcons

end Enclosure.Ends

/-! ### One token of it -/

section Step

variable {depth depth' : Nat} {k : TokenKind} {t : Token} {verdict : Verdict}

theorem openBehind_of_ne (hopening : k ≠ .symbol opening) (hclosing : k ≠ .symbol closing)
    (hend : k ≠ .endOfInput) (hstop : k ∉ stops.map TokenKind.symbol) :
    openBehind opening closing stops room depth k = .ok depth := by
  rw [openBehind, if_neg hopening, if_neg hclosing, if_neg hend, if_neg hstop]

theorem openBehind_of_trivia (ht : t.isTrivia = true) :
    openBehind opening closing stops room depth t.kind = .ok depth := by
  have hsymbol : ∀ k, t.kind ≠ .symbol k := by
    intro k hk
    simp [Token.isTrivia, hk, TokenKind.isTrivia] at ht
  refine openBehind_of_ne (hsymbol _) (hsymbol _) ?_ fun hmem => ?_
  · intro hk
    simp [Token.isTrivia, hk, TokenKind.isTrivia] at ht
  · obtain ⟨k, -, hk⟩ := List.mem_map.1 hmem
    exact hsymbol k hk.symm

theorem openBehind_endOfInput :
    openBehind opening closing stops room depth .endOfInput = .error .ended := by
  rw [openBehind, if_neg (by simp), if_neg (by simp), if_pos rfl]

theorem openBehind_pos (h : openBehind opening closing stops room depth k = .ok depth')
    (hdepth : 0 < depth) : 0 < depth' := by
  unfold openBehind at h
  repeat' split at h
  all_goals cases h
  all_goals omega

theorem ends_of_openBehind (h : openBehind opening closing stops room depth t.kind = .error verdict)
    (ts : List Token) : (Enclosure.mk [] verdict (t :: ts)).Ends opening closing stops := by
  unfold openBehind at h
  repeat' split at h
  all_goals cases h
  · next hopening _ => exact ⟨t, ts, rfl, hopening⟩
  · next hclosing _ => exact ⟨t, ts, rfl, hclosing⟩
  · next hend =>
    intro u r hcons
    cases hcons
    exact hend
  · next hstop => exact ⟨t, ts, rfl, hstop⟩

theorem enclosed_cons (depth : Nat) (t : Token) (ts : List Token) :
    enclosed opening closing stops room depth (t :: ts) =
      match openBehind opening closing stops room depth t.kind with
      | .error verdict => ⟨[], verdict, t :: ts⟩
      | .ok depth' => (enclosed opening closing stops room depth' ts).cons t := by
  rw [enclosed, openBehind]
  repeat' split
  all_goals simp_all

theorem enclosed_of_error (h : openBehind opening closing stops room depth t.kind = .error verdict)
    (ts : List Token) :
    enclosed opening closing stops room depth (t :: ts) = ⟨[], verdict, t :: ts⟩ := by
  rw [enclosed_cons, h]

theorem enclosed_of_ok (h : openBehind opening closing stops room depth t.kind = .ok depth')
    (ts : List Token) : enclosed opening closing stops room depth (t :: ts) =
      (enclosed opening closing stops room depth' ts).cons t := by
  rw [enclosed_cons, h]

end Step

/-! ### All of it -/

theorem enclosed_append (depth : Nat) (ts : List Token) :
    (enclosed opening closing stops room depth ts).inner ++
      (enclosed opening closing stops room depth ts).left = ts := by
  induction ts generalizing depth with
  | nil => rfl
  | cons t ts ih =>
    rw [enclosed_cons]
    split
    · rfl
    · exact congrArg (t :: ·) (ih _)

theorem enclosed_ends (depth : Nat) (ts : List Token) :
    (enclosed opening closing stops room depth ts).Ends opening closing stops := by
  induction ts generalizing depth with
  | nil => exact fun t r h => by cases h
  | cons t ts ih =>
    rw [enclosed_cons]
    split
    · next hend => exact ends_of_openBehind hend ts
    · exact ih _

theorem append_of_enclosed {depth : Nat} {ts inner left : List Token} {verdict : Verdict}
    (h : enclosed opening closing stops room depth ts = ⟨inner, verdict, left⟩) :
    inner ++ left = ts := by
  have happend := @enclosed_append opening closing stops room depth ts
  rwa [h] at happend

theorem closing_of_enclosed {depth : Nat} {ts inner r : List Token} {x : Token}
    (h : enclosed opening closing stops room depth ts = ⟨inner, .closed, x :: r⟩) :
    x.kind = .symbol closing := by
  have hends := @enclosed_ends opening closing stops room depth ts
  rw [h] at hends
  obtain ⟨_, _, hcons, hclosing⟩ := hends
  cases hcons
  exact hclosing

/-- Where embedded code ends does not depend on what is behind the token that ends it. -/
theorem enclosed_of_next {depth : Nat} {ts inner r : List Token} {verdict : Verdict} {x : Token}
    (h : enclosed opening closing stops room depth ts = ⟨inner, verdict, x :: r⟩)
    (r' : List Token) :
    enclosed opening closing stops room depth (inner ++ x :: r') = ⟨inner, verdict, x :: r'⟩ := by
  induction ts generalizing depth inner with
  | nil => cases h
  | cons y ts ih =>
    rw [enclosed_cons] at h
    split at h
    · next hend =>
      cases h
      exact enclosed_of_error hend r'
    · next depth' htaken =>
      generalize hts : enclosed opening closing stops room depth' ts = e at h
      obtain ⟨inner', verdict', left⟩ := e
      simp only [Enclosure.cons, Enclosure.mk.injEq] at h
      obtain ⟨rfl, rfl, rfl⟩ := h
      rw [List.cons_append, enclosed_of_ok htaken, ih hts]
      rfl

/-- Within the first pair there is room for one pair less, and one pair less is open. Where that is
closed, one pair is left. -/
theorem openBehind_succ {depth : Nat} (hdepth : 0 < depth) (k : TokenKind) :
    openBehind opening closing stops (room + 1) (depth + 1) k =
      match openBehind opening closing stops room depth k with
      | .ok depth' => .ok (depth' + 1)
      | .error .closed => .ok 1
      | .error verdict => .error verdict := by
  unfold openBehind
  split
  · by_cases hdeep : room < depth
    · rw [if_pos hdeep, if_pos (Nat.succ_lt_succ hdeep)]
    · rw [if_neg hdeep, if_neg (by omega)]
  split
  · by_cases hone : depth ≤ 1
    · rw [if_pos hone, if_neg (by omega)]
      congr 1
      omega
    · rw [if_neg hone, if_neg (by omega)]
      congr 1
      omega
  split
  · rfl
  split <;> rfl

/-- Embedded code within the first pair that is not closed is all that is read. -/
theorem enclosed_succ_of_not_closed {depth : Nat} {ts : List Token} (hdepth : 0 < depth)
    (h : (enclosed opening closing stops room depth ts).verdict ≠ .closed) :
    enclosed opening closing stops (room + 1) (depth + 1) ts =
      enclosed opening closing stops room depth ts := by
  induction ts generalizing depth with
  | nil => rfl
  | cons t ts ih =>
    have hsucc := @openBehind_succ opening closing stops room depth hdepth t.kind
    cases hopen : openBehind opening closing stops room depth t.kind with
    | ok depth' =>
      rw [hopen] at hsucc
      rw [enclosed_of_ok hopen] at h ⊢
      rw [enclosed_of_ok hsucc]
      exact congrArg (Enclosure.cons t) (ih (openBehind_pos hopen hdepth) h)
    | error verdict =>
      rw [hopen] at hsucc
      rw [enclosed_of_error hopen] at h ⊢
      cases verdict with
      | closed => exact absurd rfl h
      | _ => exact enclosed_of_error hsucc ts

/-- Behind embedded code within the first pair the reading goes on, with one pair open. -/
theorem enclosed_succ_of_closed {depth : Nat} {ts inner r : List Token} {x : Token}
    (hdepth : 0 < depth)
    (h : enclosed opening closing stops room depth ts = ⟨inner, .closed, x :: r⟩) :
    enclosed opening closing stops (room + 1) (depth + 1) ts =
      ⟨inner ++ x :: (enclosed opening closing stops (room + 1) 1 r).inner,
        (enclosed opening closing stops (room + 1) 1 r).verdict,
        (enclosed opening closing stops (room + 1) 1 r).left⟩ := by
  induction ts generalizing depth inner with
  | nil => cases h
  | cons t ts ih =>
    have hsucc := @openBehind_succ opening closing stops room depth hdepth t.kind
    cases hopen : openBehind opening closing stops room depth t.kind with
    | ok depth' =>
      rw [hopen] at hsucc
      rw [enclosed_of_ok hopen] at h
      generalize hts : enclosed opening closing stops room depth' ts = e at h
      obtain ⟨inner', verdict', left⟩ := e
      simp only [Enclosure.cons, Enclosure.mk.injEq] at h
      obtain ⟨rfl, rfl, rfl⟩ := h
      rw [enclosed_of_ok hsucc, ih (openBehind_pos hopen hdepth) hts]
      rfl
    | error verdict =>
      rw [hopen] at hsucc
      rw [enclosed_of_error hopen] at h
      cases h
      rw [enclosed_of_ok hsucc]
      rfl

theorem enclosed_of_le {room' depth : Nat} {ts inner left : List Token} (hle : room ≤ room')
    (h : enclosed opening closing stops room depth ts = ⟨inner, .closed, left⟩) :
    enclosed opening closing stops room' depth ts = ⟨inner, .closed, left⟩ := by
  have hopen : ∀ {depth : Nat} {k : TokenKind},
      openBehind opening closing stops room depth k = .error .deep ∨
        openBehind opening closing stops room' depth k =
          openBehind opening closing stops room depth k := fun {depth k} => by
    unfold openBehind
    split
    · by_cases hdeep : room < depth
      · exact .inl (if_pos hdeep)
      · exact .inr (by rw [if_neg hdeep, if_neg (by omega)])
    · exact .inr rfl
  induction ts generalizing depth inner with
  | nil => cases h
  | cons t ts ih =>
    rw [enclosed_cons] at h
    rcases @hopen depth t.kind with hdeep | hsame
    · rw [hdeep] at h
      cases h
    rw [enclosed_cons, hsame]
    split at h
    · exact h
    · next depth' _ =>
      generalize hts : enclosed opening closing stops room depth' ts = e at h
      obtain ⟨inner', verdict', left'⟩ := e
      simp only [Enclosure.cons, Enclosure.mk.injEq] at h
      obtain ⟨rfl, rfl, rfl⟩ := h
      rw [ih hts]
      rfl

theorem enclosed_of_length_le {room' depth : Nat} {ts : List Token} (h : depth + ts.length ≤ room)
    (h' : depth + ts.length ≤ room') :
    enclosed opening closing stops room depth ts =
      enclosed opening closing stops room' depth ts := by
  induction ts generalizing depth with
  | nil => rfl
  | cons t ts ih =>
    rw [List.length_cons] at h h'
    unfold enclosed
    rw [if_neg (by omega : ¬room < depth), if_neg (by omega : ¬room' < depth),
      @ih (depth + 1) (by omega) (by omega), @ih (depth - 1) (by omega) (by omega),
      @ih depth (by omega) (by omega)]

/-- Trivia does not matter for where embedded code ends. -/
theorem enclosed_visible (depth : Nat) (ts : List Token) :
    enclosed opening closing stops room depth (visible ts) =
      ⟨visible (enclosed opening closing stops room depth ts).inner,
        (enclosed opening closing stops room depth ts).verdict,
        visible (enclosed opening closing stops room depth ts).left⟩ := by
  induction ts generalizing depth with
  | nil => rfl
  | cons t ts ih =>
    cases ht : t.isTrivia with
    | true =>
      rw [visible_cons_of_trivia ht, enclosed_of_ok (openBehind_of_trivia ht), ih]
      show _ = Enclosure.mk (visible (t :: _)) _ _
      rw [visible_cons_of_trivia ht]
      rfl
    | false =>
      have hcons : ∀ us, visible (t :: us) = t :: visible us :=
        visible_cons_of_not_trivia ht
      rw [hcons, enclosed_cons, enclosed_cons]
      split
      all_goals simp only [ih, Enclosure.cons, hcons, visible_nil]

end Enclosed

/-! ### Passing over tokens one by one -/

def State.moved (n : Nat) (s : State) : State :=
  { s with cursor := s.cursor.rewind (s.cursor.index + n) }

/-- A token was the last thing to happen to the diagnostics. -/
def State.Matched (s : State) : Prop := s.trials = 0 → s.collector.recovering = false

theorem State.moved_moved (m n : Nat) (s : State) : (s.moved m).moved n = s.moved (m + n) := by
  unfold moved
  show { s with cursor := s.cursor.rewind (s.cursor.index + m + n) } = _
  rw [Nat.add_assoc]

theorem matched_advanced (s : State) : s.advanced.Matched := by
  intro h
  have htrials : s.trials = 0 := h
  show (if s.trials = 0 then s.collector.tokenMatched else s.collector).recovering = false
  rw [if_pos htrials]
  rfl

theorem collector_of_matched {s : State} (h : s.Matched) :
    (if s.trials = 0 then s.collector.tokenMatched else s.collector) = s.collector := by
  split
  · next htrials =>
    have hr := h htrials
    unfold Collector.tokenMatched
    rw [← hr]
  · rfl

theorem current_of_shown {s : State} (hs : s.cursor.triviaVisible = true) {t : Token}
    {ts : List Token} (h : s.cursor.rest = t :: ts) : s.cursor.current = t := by
  have hlength : s.cursor.front.size - s.cursor.index = ts.length + 1 := by
    simpa [Cursor.rest] using congrArg List.length h
  have hlt : s.cursor.index < s.cursor.front.size := by omega
  have hhead : s.cursor.front[s.cursor.index] = t := by
    have hdrop : s.cursor.front.toList.drop s.cursor.index = t :: ts := h
    rw [Cursor.rest_of_lt hlt, List.cons.injEq] at hdrop
    exact hdrop.1
  have hseek : s.cursor.seek s.cursor.index = s.cursor.index := by
    simp only [Cursor.seek, hs, if_true]
    omega
  rw [Cursor.current, hseek]
  simp [Cursor.tokenAt, Array.getD, hlt, hhead]

theorem advanced_of_shown {s : State} (hs : s.cursor.triviaVisible = true) (hm : s.Matched)
    {t : Token} {ts : List Token} (h : s.cursor.rest = t :: ts) (hk : t.kind ≠ .endOfInput) :
    s.advanced = s.moved 1 ∧ (s.moved 1).cursor.rest = ts := by
  have hcurrent := current_of_shown hs h
  refine ⟨?_, Cursor.rest_moved (x := [t]) h⟩
  have hlength : s.cursor.front.size - s.cursor.index = ts.length + 1 := by
    simpa [Cursor.rest] using congrArg List.length h
  have hseek : s.cursor.seek s.cursor.index = s.cursor.index := by
    simp only [Cursor.seek, hs, if_true]
    omega
  unfold State.advanced State.moved
  rw [collector_of_matched hm, Cursor.consume_eq (hcurrent ▸ hk), hseek]
  rfl

section Rounds

variable {opening closing : Symbol} {stops : List Symbol}

/-- How reading embedded code goes on from where it is. -/
def Enclosure.outcome (closing : Symbol) (e : Enclosure) (text : String) (s : State) :
    EStateM.Result Failure State (String × Bool) :=
  match e.verdict with
  | .closed =>
    .ok (text ++ (spell e.inner ++ (e.left.headD s.cursor.last).text), false)
      (s.moved (e.inner.length + 1))
  | .deep => .error .nestingTooDeep (s.moved e.inner.length)
  | _ =>
    .error (.recognition (.mismatchedToken (.symbol closing) (e.left.headD s.cursor.last)))
      (s.moved e.inner.length)

theorem outcome_cons (e : Enclosure) (text : String) (t : Token) (s : State) :
    (e.cons t).outcome closing text s = e.outcome closing (text ++ t.text) (s.moved 1) := by
  have hmoved : ∀ n, (s.moved 1).moved n = s.moved (n + 1) := fun n => by
    rw [State.moved_moved, Nat.add_comm]
  obtain ⟨inner, verdict, left⟩ := e
  cases verdict <;>
    simp only [Enclosure.outcome, Enclosure.cons, hmoved, spell_cons, List.length_cons,
      String.append_assoc] <;> rfl

theorem outcome_append (ts : List Token) (e : Enclosure) (text : String) (s : State) :
    Enclosure.outcome closing ⟨ts ++ e.inner, e.verdict, e.left⟩ text s =
      e.outcome closing (text ++ spell ts) (s.moved ts.length) := by
  induction ts generalizing text s with
  | nil => rw [spell_nil, String.append_empty]; rfl
  | cons t ts ih =>
    have hcons := @outcome_cons closing ⟨ts ++ e.inner, e.verdict, e.left⟩ text t s
    rw [List.cons_append]
    refine hcons.trans ((ih _ _).trans ?_)
    rw [String.append_assoc, ← spell_cons, State.moved_moved, List.length_cons, Nat.add_comm 1]

/-- How a chunk ends whose first token was `first`. -/
def Enclosure.result (closing : Symbol) (e : Enclosure) (first : Token) (s : State) :
    EStateM.Result Failure State String :=
  match e.verdict with
  | .closed =>
    .ok (first.text ++ (spell e.inner ++ (e.left.headD s.cursor.last).text))
      (s.moved (e.inner.length + 1))
  | .deep => .error .nestingTooDeep (s.moved e.inner.length)
  | _ =>
    .error (.recognition (.mismatchedToken (.symbol closing) (e.left.headD s.cursor.last)))
      (s.moved e.inner.length)

/-! ### The recursion against the count of open pairs -/

/-- A production for the embedded code within embedded code reads what counting finds, if it has a
frame for that. -/
structure ReadsInner (opening closing : Symbol) (stops : List Symbol) (inner : Parser String)
    (room : Nat) : Prop where
  deep : ∀ {s : State}, room = 0 → s.stack.room = room → inner s = .error .nestingTooDeep s
  reads : ∀ {k : Nat} {s : State}, room = k + 1 → s.stack.room = room →
    s.cursor.current.kind = .symbol opening →
    inner s = (enclosed opening closing stops k 1 s.advanced.cursor.rest).result closing
      s.cursor.current s.advanced

section Part

variable {inner : Parser String} {text : String} {isOpen : Bool} {s : State}

theorem chunkPart_of_opening (h : s.cursor.current.kind = .symbol opening) :
    chunkPart opening closing stops inner (text, isOpen) s =
      (inner >>= fun code => return (text ++ code, true)) s := by
  unfold chunkPart
  refine (bind_of_ok (current_eq s)).trans ?_
  rw [if_pos h]

theorem chunkPart_of_closing (hopening : s.cursor.current.kind ≠ .symbol opening)
    (h : s.cursor.current.kind = .symbol closing) :
    chunkPart opening closing stops inner (text, isOpen) s =
      .ok (text ++ s.cursor.current.text, false) s.advanced := by
  unfold chunkPart
  refine (bind_of_ok (current_eq s)).trans ?_
  rw [if_neg hopening, if_pos h]
  rfl

theorem chunkPart_of_end (hopening : s.cursor.current.kind ≠ .symbol opening)
    (hclosing : s.cursor.current.kind ≠ .symbol closing)
    (h : s.cursor.current.kind = .endOfInput ∨ s.cursor.current.kind ∈ stops.map TokenKind.symbol) :
    chunkPart opening closing stops inner (text, isOpen) s =
      .error (.recognition (.mismatchedToken (.symbol closing) s.cursor.current)) s := by
  unfold chunkPart
  refine (bind_of_ok (current_eq s)).trans ?_
  rw [if_neg hopening, if_neg hclosing, if_pos h]
  rfl

theorem chunkPart_of_other (hopening : s.cursor.current.kind ≠ .symbol opening)
    (hclosing : s.cursor.current.kind ≠ .symbol closing)
    (h : ¬(s.cursor.current.kind = .endOfInput ∨
      s.cursor.current.kind ∈ stops.map TokenKind.symbol)) :
    chunkPart opening closing stops inner (text, isOpen) s =
      .ok (text ++ s.cursor.current.text, true) s.advanced := by
  unfold chunkPart
  refine (bind_of_ok (current_eq s)).trans ?_
  rw [if_neg hopening, if_neg hclosing, if_neg h]
  rfl

end Part

theorem rounds_of_closed (part : String × Bool → Parser (String × Bool)) (n : Nat) (text : String)
    (s : State) : rounds (fun (_, isOpen) => return isOpen) part n (text, false) s =
      .ok (text, false) s := by
  cases n <;> rfl

theorem rounds_of_open (part : String × Bool → Parser (String × Bool)) (n : Nat) (text : String)
    (s : State) : rounds (fun (_, isOpen) => return isOpen) part (n + 1) (text, true) s =
      (part (text, true) >>= rounds (fun (_, isOpen) => return isOpen) part n) s :=
  rfl

/-- What one part does for the count: it is the last one, or the count goes on behind it. -/
inductive PartStep (opening closing : Symbol) (stops : List Symbol) (text : String) (s : State) :
    EStateM.Result Failure State (String × Bool) → Prop
  | ends {r : EStateM.Result Failure State (String × Bool)}
      (h : r = (enclosed opening closing stops s.stack.room 1 s.cursor.rest).outcome closing text s)
      (hlast : ∀ text' t, r ≠ .ok (text', true) t) : PartStep opening closing stops text s r
  | goesOn {text' : String} {taken r : List Token} (hrest : s.cursor.rest = taken ++ r)
      (htaken : taken ≠ [])
      (h : (enclosed opening closing stops s.stack.room 1 s.cursor.rest).outcome closing text s =
        (enclosed opening closing stops s.stack.room 1 r).outcome closing text'
          (s.moved taken.length)) :
      PartStep opening closing stops text s (.ok (text', true) (s.moved taken.length))

namespace PartStep

variable {inner : Parser String} {text : String} {s : State} {t : Token} {ts : List Token}

theorem of_nil (hrest : s.cursor.rest = []) :
    PartStep opening closing stops text s
      (chunkPart opening closing stops inner (text, true) s) := by
  have hcurrent := Cursor.current_of_rest_nil hrest
  have hkind : s.cursor.current.kind = .endOfInput := by rw [hcurrent, Cursor.kind_last]
  rw [chunkPart_of_end (by simp [hkind]) (by simp [hkind]) (.inl hkind)]
  refine .ends ?_ (by simp)
  rw [hrest, hcurrent]
  rfl

theorem of_closing (hs : s.cursor.triviaVisible = true) (hm : s.Matched)
    (hrest : s.cursor.rest = t :: ts) (hopening : t.kind ≠ .symbol opening)
    (hclosing : t.kind = .symbol closing) :
    PartStep opening closing stops text s
      (chunkPart opening closing stops inner (text, true) s) := by
  have hcurrent := current_of_shown hs hrest
  obtain ⟨hadvanced, -⟩ := advanced_of_shown hs hm hrest (by simp [hclosing])
  rw [chunkPart_of_closing (hcurrent ▸ hopening) (hcurrent ▸ hclosing)]
  refine .ends ?_ (by simp)
  have hone : openBehind opening closing stops s.stack.room 1 t.kind = .error .closed := by
    rw [openBehind, if_neg hopening, if_pos hclosing, if_pos (Nat.le_refl 1)]
  rw [hrest, enclosed_of_error hone, hadvanced, hcurrent]
  simp only [Enclosure.outcome, spell_nil, String.empty_append, List.headD_cons, List.length_nil,
    Nat.zero_add]

theorem of_end (hs : s.cursor.triviaVisible = true) (hrest : s.cursor.rest = t :: ts)
    (hopening : t.kind ≠ .symbol opening) (hclosing : t.kind ≠ .symbol closing)
    (hend : t.kind = .endOfInput ∨ t.kind ∈ stops.map TokenKind.symbol) :
    PartStep opening closing stops text s
      (chunkPart opening closing stops inner (text, true) s) := by
  have hcurrent := current_of_shown hs hrest
  rw [chunkPart_of_end (hcurrent ▸ hopening) (hcurrent ▸ hclosing) (hcurrent ▸ hend)]
  refine .ends ?_ (by simp)
  have hone : openBehind opening closing stops s.stack.room 1 t.kind =
      .error (if t.kind = .endOfInput then .ended else .stopped) := by
    rw [openBehind, if_neg hopening, if_neg hclosing]
    by_cases hinput : t.kind = .endOfInput
    · rw [if_pos hinput, if_pos hinput]
    · rw [if_neg hinput, if_pos (hend.resolve_left hinput), if_neg hinput]
  rw [hrest, enclosed_of_error hone, hcurrent]
  split <;> rfl

theorem of_other (hs : s.cursor.triviaVisible = true) (hm : s.Matched)
    (hrest : s.cursor.rest = t :: ts) (hopening : t.kind ≠ .symbol opening)
    (hclosing : t.kind ≠ .symbol closing)
    (hend : ¬(t.kind = .endOfInput ∨ t.kind ∈ stops.map TokenKind.symbol)) :
    PartStep opening closing stops text s
      (chunkPart opening closing stops inner (text, true) s) := by
  have hcurrent := current_of_shown hs hrest
  rw [chunkPart_of_other (hcurrent ▸ hopening) (hcurrent ▸ hclosing) (hcurrent ▸ hend)]
  rw [not_or] at hend
  obtain ⟨hadvanced, -⟩ := advanced_of_shown hs hm hrest hend.1
  rw [hadvanced, hcurrent]
  have htaken : s.cursor.rest = [t] ++ ts := hrest
  refine .goesOn htaken (List.cons_ne_nil _ _) ?_
  rw [hrest, enclosed_of_ok (openBehind_of_ne hopening hclosing hend.1 hend.2), outcome_cons]
  rfl

theorem of_deep (hinner : ReadsInner opening closing stops inner s.stack.room)
    (hroom : s.stack.room = 0) (hrest : s.cursor.rest = t :: ts) (hcurrent : s.cursor.current = t)
    (hopening : t.kind = .symbol opening) :
    PartStep opening closing stops text s
      (chunkPart opening closing stops inner (text, true) s) := by
  rw [chunkPart_of_opening (hcurrent ▸ hopening), bind_of_error (hinner.deep hroom rfl)]
  refine .ends ?_ (by simp)
  have hone : openBehind opening closing stops s.stack.room 1 t.kind = .error .deep := by
    rw [openBehind, if_pos hopening, if_pos (by omega)]
  rw [hrest, enclosed_of_error hone]
  rfl

theorem openBehind_two {room : Nat} (hopening : t.kind = .symbol opening) :
    openBehind opening closing stops (room + 1) 1 t.kind = .ok 2 := by
  rw [openBehind, if_pos hopening, if_neg (by omega)]

/-- While the code within is read, the count stays above one. -/
theorem of_code {room : Nat} {code r : List Token} {x : Token} (hroom : s.stack.room = room + 1)
    (hrest : s.cursor.rest = t :: (code ++ x :: r)) (hcurrent : s.cursor.current = t)
    (hopening : t.kind = .symbol opening)
    (hinside : enclosed opening closing stops room 1 (code ++ x :: r) = ⟨code, .closed, x :: r⟩)
    (hcode : inner s =
      .ok (t.text ++ (spell code ++ x.text)) ((s.moved 1).moved (code.length + 1))) :
    PartStep opening closing stops text s
      (chunkPart opening closing stops inner (text, true) s) := by
  have hmoved : (s.moved 1).moved (code.length + 1) = s.moved (t :: code ++ [x]).length := by
    rw [State.moved_moved]
    congr 1
    simp only [List.length_append, List.length_cons, List.length_nil]
    omega
  rw [chunkPart_of_opening (hcurrent ▸ hopening), bind_of_ok hcode, hmoved]
  have htaken : s.cursor.rest = (t :: code ++ [x]) ++ r := by
    rw [hrest]
    simp
  refine .goesOn htaken (by simp) ?_
  rw [hrest, hroom, enclosed_of_ok (openBehind_two hopening), outcome_cons,
    enclosed_succ_of_closed Nat.one_pos hinside]
  have happended := @outcome_append closing (code ++ [x])
    (enclosed opening closing stops (room + 1) 1 r) (text ++ t.text) (s.moved 1)
  rw [List.append_assoc, List.length_append, List.length_singleton, hmoved, spell_append,
    spell_cons, spell_nil, String.append_empty, String.append_assoc] at happended
  exact happended

/-- Where the code within does not end, neither does the code around it. -/
theorem of_unclosed {room : Nat} {e : Enclosure} (hroom : s.stack.room = room + 1)
    (hrest : s.cursor.rest = t :: ts) (hcurrent : s.cursor.current = t)
    (hopening : t.kind = .symbol opening)
    (hinside : enclosed opening closing stops room 1 ts = e) (hverdict : e.verdict ≠ .closed)
    (hread : inner s = e.result closing t (s.moved 1)) :
    PartStep opening closing stops text s
      (chunkPart opening closing stops inner (text, true) s) := by
  have hall : enclosed opening closing stops (room + 1) 2 ts = e :=
    (enclosed_succ_of_not_closed Nat.one_pos (hinside ▸ hverdict)).trans hinside
  have houtcome :
      (enclosed opening closing stops s.stack.room 1 s.cursor.rest).outcome closing text s =
        e.outcome closing (text ++ t.text) (s.moved 1) := by
    rw [hrest, hroom, enclosed_of_ok (openBehind_two hopening), outcome_cons, hall]
  obtain ⟨code, verdict, left⟩ := e
  cases verdict with
  | closed => exact absurd rfl hverdict
  | _ =>
    rw [chunkPart_of_opening (hcurrent ▸ hopening), bind_of_error hread]
    exact .ends houtcome.symm (by simp)

/-- Embedded code within embedded code is a part of it. -/
theorem of_opening (hinner : ReadsInner opening closing stops inner s.stack.room)
    (hs : s.cursor.triviaVisible = true) (hm : s.Matched) (hrest : s.cursor.rest = t :: ts)
    (hopening : t.kind = .symbol opening) :
    PartStep opening closing stops text s
      (chunkPart opening closing stops inner (text, true) s) := by
  have hcurrent := current_of_shown hs hrest
  obtain ⟨hadvanced, hrest'⟩ := advanced_of_shown hs hm hrest (by simp [hopening])
  cases hroom : s.stack.room with
  | zero => exact of_deep hinner hroom hrest hcurrent hopening
  | succ room =>
    have hread := hinner.reads hroom rfl (hcurrent ▸ hopening)
    rw [hadvanced, hrest', hcurrent] at hread
    by_cases hclosed : (enclosed opening closing stops room 1 ts).verdict = .closed
    · have happend := @enclosed_append opening closing stops room 1 ts
      have hends := @enclosed_ends opening closing stops room 1 ts
      generalize hinside : enclosed opening closing stops room 1 ts = e at *
      obtain ⟨code, verdict, left⟩ := e
      subst hclosed
      obtain ⟨x, r, rfl, -⟩ := hends
      obtain rfl : ts = code ++ x :: r := happend.symm
      exact of_code hroom hrest hcurrent hopening hinside hread
    · exact of_unclosed hroom hrest hcurrent hopening rfl hclosed hread

theorem of_inner (hinner : ReadsInner opening closing stops inner s.stack.room)
    (hs : s.cursor.triviaVisible = true) (hm : s.Matched) :
    PartStep opening closing stops text s
      (chunkPart opening closing stops inner (text, true) s) := by
  cases hrest : s.cursor.rest with
  | nil => exact of_nil hrest
  | cons t ts =>
    by_cases hopening : t.kind = .symbol opening
    · exact of_opening hinner hs hm hrest hopening
    by_cases hclosing : t.kind = .symbol closing
    · exact of_closing hs hm hrest hopening hclosing
    by_cases hend : t.kind = .endOfInput ∨ t.kind ∈ stops.map TokenKind.symbol
    · exact of_end hs hrest hopening hclosing hend
    · exact of_other hs hm hrest hopening hclosing hend

end PartStep

theorem rounds_chunkPart {inner : Parser String} {n : Nat} {text : String} {s : State}
    (hinner : ReadsInner opening closing stops inner s.stack.room)
    (hs : s.cursor.triviaVisible = true) (hm : s.Matched) (hn : s.cursor.rest.length < n) :
    rounds (fun (_, isOpen) => return isOpen) (chunkPart opening closing stops inner) n
        (text, true) s =
      (enclosed opening closing stops s.stack.room 1 s.cursor.rest).outcome closing text s := by
  induction n generalizing text s with
  | zero => exact absurd hn (Nat.not_lt_zero _)
  | succ n ih =>
    rw [rounds_of_open]
    have hstep : PartStep opening closing stops text s _ := .of_inner hinner hs hm
    generalize hpart : chunkPart opening closing stops inner (text, true) s = result at hstep
    cases hstep with
    | ends h hlast =>
      rw [← h]
      cases result with
      | error f t => exact bind_of_error hpart
      | ok outcome t =>
        obtain ⟨text', isOpen⟩ := outcome
        cases isOpen with
        | true => exact absurd rfl (hlast text' t)
        | false => rw [bind_of_ok hpart, rounds_of_closed]
    | @goesOn text' taken r hrest htaken h =>
      have hmoved : (s.moved taken.length).cursor.rest = r := Cursor.rest_moved hrest
      have hshort : r.length < n := by
        rw [hrest, List.length_append] at hn
        have hpos := List.length_pos_iff.2 htaken
        omega
      have hnext := @ih text' (s.moved taken.length) hinner hs hm (by rw [hmoved]; exact hshort)
      rw [bind_of_ok hpart, hnext, h, hmoved]
      rfl

theorem chunkWithin_of_ne {levels : Nat} {s : State}
    (h : s.cursor.current.kind ≠ .symbol opening) :
    chunkWithin opening closing stops (levels + 1) s =
      .error (.recognition (.mismatchedToken (.symbol opening) s.cursor.current)) s := by
  unfold chunkWithin symbol
  rw [bind_of_error (e := .recognition _) (t := s)]
  rw [expect_eq, if_neg h]

/-- What chunks of fewer levels find, code within code finds, too: it has one frame less. -/
theorem readsInner_nested {levels room : Nat}
    (h : ∀ {u : State}, u.stack.room < levels → u.cursor.current.kind = .symbol opening →
      chunkWithin opening closing stops levels u =
        (enclosed opening closing stops u.stack.room 1 u.advanced.cursor.rest).result closing
          u.cursor.current u.advanced) (hroom : room ≤ levels) :
    ReadsInner opening closing stops
      (nested .code (chunkWithin opening closing stops levels)) room := by
  constructor
  · intro u hzero hu
    exact nested_of_deep _ (by rw [hu, hzero]; decide)
  · intro k u hsucc hu hopening
    have hframe : Nesting.code.frames ≤ u.stack.room := by
      rw [hu, hsucc]
      exact Nat.succ_le_succ (Nat.zero_le k)
    have hleft : (u.within .code).stack.room = k := by
      show u.stack.room - 1 = k
      omega
    have hread := @h (u.within .code) (by omega) hopening
    rw [hleft] at hread
    generalize hcode : enclosed opening closing stops k 1
      (u.within .code).advanced.cursor.rest = e at hread
    have hcode' : enclosed opening closing stops k 1 u.advanced.cursor.rest = e := hcode
    rw [hcode']
    obtain ⟨code, verdict, left⟩ := e
    cases verdict with
    | closed => exact nested_of_ok hframe hread
    | _ => exact nested_of_error hframe hread

/-- The recursion finds what counting finds, if its levels are enough for the frames that
are left. -/
theorem chunkWithin_eq {levels : Nat} {s : State} (hlevels : s.stack.room < levels)
    (h : s.cursor.current.kind = .symbol opening) :
    chunkWithin opening closing stops levels s =
      (enclosed opening closing stops s.stack.room 1 s.advanced.cursor.rest).result closing
        s.cursor.current s.advanced := by
  induction levels generalizing s with
  | zero => exact absurd hlevels (Nat.not_lt_zero _)
  | succ levels ih =>
    have hfirst : symbol opening s = .ok s.cursor.current s.advanced := by
      unfold symbol
      rw [expect_eq, if_pos h]
    have hinner : ReadsInner opening closing stops
        (nested .code (chunkWithin opening closing stops levels)) s.stack.room :=
      readsInner_nested ih (Nat.le_of_lt_succ hlevels)
    unfold chunkWithin
    rw [bind_of_ok hfirst]
    have hloop : repeatWhile (s.cursor.current.text, true) (fun (_, isOpen) => return isOpen)
        (chunkPart opening closing stops (nested .code (chunkWithin opening closing stops levels)))
        s.advanced.showing =
          (enclosed opening closing stops s.stack.room 1 s.advanced.cursor.rest).outcome closing
            s.cursor.current.text s.advanced.showing := by
      unfold repeatWhile
      refine (bind_of_ok (p := get) rfl).trans ?_
      refine rounds_chunkPart hinner rfl (matched_advanced s) (Nat.lt_succ_of_le ?_)
      simp [Cursor.rest, Cursor.remaining]
    generalize enclosed opening closing stops s.stack.room 1 s.advanced.cursor.rest = e at hloop
    obtain ⟨inner, verdict, left⟩ := e
    cases verdict with
    | closed => exact bind_of_ok (Orderly.withTrivia_of_ok hloop)
    | _ => exact bind_of_error (Orderly.withTrivia_of_error hloop)

theorem chunk_of_ne {s : State} (h : s.cursor.current.kind ≠ .symbol opening) :
    chunk opening closing stops s =
      .error (.recognition (.mismatchedToken (.symbol opening) s.cursor.current)) s :=
  (bind_of_ok (levels_eq s)).trans (chunkWithin_of_ne h)

theorem chunk_eq {s : State} (h : s.cursor.current.kind = .symbol opening) :
    chunk opening closing stops s =
      (enclosed opening closing stops s.stack.room 1 s.advanced.cursor.rest).result closing
        s.cursor.current s.advanced :=
  (bind_of_ok (levels_eq s)).trans (chunkWithin_eq (Nat.lt_succ_of_le s.stack.room_le) h)

/-- What is left where a chunk ends, however it ends. -/
theorem chunk_rest {s : State} (h : s.cursor.current.kind = .symbol opening) :
    ∃ t, after (chunk opening closing stops) s = t ∧
      t.cursor.rest =
        (enclosed opening closing stops s.stack.room 1 s.advanced.cursor.rest).behind := by
  have heq := @chunk_eq _ closing stops _ h
  have happend := @enclosed_append opening closing stops s.stack.room 1
    s.advanced.cursor.rest
  have hends := @enclosed_ends opening closing stops s.stack.room 1
    s.advanced.cursor.rest
  generalize enclosed opening closing stops s.stack.room 1 s.advanced.cursor.rest =
    e at heq happend hends
  obtain ⟨inner, verdict, left⟩ := e
  cases verdict with
  | closed =>
    obtain ⟨u, r, hleft, -⟩ := hends
    refine ⟨_, after_of_ok heq, ?_⟩
    have hleft' : left = u :: r := hleft
    rw [hleft', List.append_cons] at happend
    have hmoved := Cursor.rest_moved (c := s.advanced.cursor) happend.symm
    rw [List.length_append] at hmoved
    show _ = left.tail
    rw [hleft']
    exact hmoved
  | _ => exact ⟨_, after_of_error heq, Cursor.rest_moved (c := s.advanced.cursor) happend.symm⟩

theorem enclosed_of_chunk {s u : State} {code : String}
    (h : chunk opening closing stops s = .ok code u) :
    s.cursor.current.kind = .symbol opening ∧ ∃ inner x r,
      enclosed opening closing stops s.stack.room 1 s.advanced.cursor.rest =
        ⟨inner, .closed, x :: r⟩ ∧
      code = s.cursor.current.text ++ (spell inner ++ x.text) ∧
      u = s.advanced.moved (inner.length + 1) := by
  by_cases hk : s.cursor.current.kind = .symbol opening
  · rw [chunk_eq hk] at h
    have hends := @enclosed_ends opening closing stops s.stack.room 1 s.advanced.cursor.rest
    generalize enclosed opening closing stops s.stack.room 1 s.advanced.cursor.rest = e at h hends
    obtain ⟨inner, verdict, left⟩ := e
    cases verdict with
    | closed =>
      obtain ⟨x, r, rfl, -⟩ := hends
      cases h
      exact ⟨hk, inner, x, r, rfl, rfl, rfl⟩
    | _ => cases h
  · rw [chunk_of_ne hk] at h
    cases h

end Rounds

theorem withoutDelimiters_append {a x b : String} (ha : a.length = 1) (hb : b.length = 1) :
    withoutDelimiters (a ++ (x ++ b)) = x := by
  obtain ⟨c, hc⟩ := List.length_eq_one_iff.1 ((String.length_toList (s := a)).trans ha)
  obtain ⟨d, hd⟩ := List.length_eq_one_iff.1 ((String.length_toList (s := b)).trans hb)
  unfold withoutDelimiters
  rw [String.toList_append, String.toList_append, hc, hd]
  simp

/-! ### Consequences -/

def beforeEnd (ts : List Token) : List Token :=
  ts.takeWhile fun t => t.kind ∉ [TokenKind.keyword .end_, .endOfInput]

theorem beforeEnd_of_end {t : Token} (h : t.kind ∈ [TokenKind.keyword .end_, .endOfInput])
    (ts : List Token) : beforeEnd (t :: ts) = [] :=
  List.takeWhile_cons_of_neg (by rw [decide_eq_false (not_not_intro h)]; exact Bool.false_ne_true)

theorem beforeEnd_cons {t : Token} (h : t.kind ∉ [TokenKind.keyword .end_, .endOfInput])
    (ts : List Token) : beforeEnd (t :: ts) = t :: beforeEnd ts :=
  List.takeWhile_cons_of_pos (by simpa using h)

theorem rounds_consequenceText {n : Nat} {text : String} {s : State}
    (hs : s.cursor.triviaVisible = true) (hm : s.Matched) (hn : s.cursor.rest.length < n) :
    rounds (fun _ => do return !(← nextIs [.keyword .end_, .endOfInput]))
        (fun text => do return text ++ (← advance).text) n text s =
      .ok (text ++ spell (beforeEnd s.cursor.rest)) (s.moved (beforeEnd s.cursor.rest).length) := by
  generalize hrest : s.cursor.rest = ts at hn
  induction ts generalizing n text s with
  | nil =>
    obtain ⟨n, rfl⟩ : ∃ m, n = m + 1 := ⟨n - 1, by omega⟩
    have hmore : (do return !(← nextIs [.keyword .end_, .endOfInput]) : Parser Bool) s =
        .ok (!decide (s.cursor.current.kind ∈ [.keyword .end_, .endOfInput])) s := rfl
    unfold rounds
    rw [bind_of_ok hmore, Cursor.current_of_rest_nil hrest, if_neg (by simp [Cursor.kind_last])]
    exact congrArg (EStateM.Result.ok · s) (String.append_empty).symm
  | cons t ts ih =>
    obtain ⟨n, rfl⟩ : ∃ m, n = m + 1 := ⟨n - 1, by omega⟩
    rw [List.length_cons] at hn
    have hmore : (do return !(← nextIs [.keyword .end_, .endOfInput]) : Parser Bool) s =
        .ok (!decide (t.kind ∈ [.keyword .end_, .endOfInput])) s := by
      rw [← current_of_shown hs hrest]; rfl
    unfold rounds
    rw [bind_of_ok hmore]
    by_cases hk : t.kind ∈ [TokenKind.keyword .end_, .endOfInput]
    · rw [if_neg (by rw [decide_eq_true hk]; simp), beforeEnd_of_end hk]
      exact congrArg (EStateM.Result.ok · s) (String.append_empty).symm
    · have hend : t.kind ≠ .endOfInput := by
        intro heq
        simp [heq] at hk
      obtain ⟨hadvanced, hrest'⟩ := advanced_of_shown hs hm hrest hend
      have hround : (do return text ++ (← advance).text : Parser String) s =
          .ok (text ++ t.text) (s.moved 1) := by
        rw [bind_of_ok (advance_eq s), current_of_shown hs hrest, hadvanced]
        rfl
      rw [if_pos (by rw [decide_eq_false hk]; rfl), bind_of_ok hround]
      rw [ih (s := s.moved 1) hs hm hrest' (by omega), beforeEnd_cons hk, spell_cons,
        String.append_assoc, List.length_cons, State.moved_moved, Nat.add_comm 1]

theorem consequenceText_eq {s : State} (hm : s.Matched) :
    consequenceText s =
      .ok (spell (beforeEnd s.cursor.rest)) (s.moved (beforeEnd s.cursor.rest).length) := by
  have hloop : repeatWhile "" (fun _ => do return !(← nextIs [.keyword .end_, .endOfInput]))
      (fun text => do return text ++ (← advance).text) s.showing =
        .ok ("" ++ spell (beforeEnd s.cursor.rest))
          (s.showing.moved (beforeEnd s.cursor.rest).length) := by
    unfold repeatWhile
    refine (bind_of_ok (p := get) rfl).trans ?_
    refine rounds_consequenceText rfl hm (Nat.lt_succ_of_le ?_)
    simp [Cursor.rest, Cursor.remaining]
  rw [String.empty_append] at hloop
  exact Orderly.withTrivia_of_ok hloop

end Rulebook.Parser
