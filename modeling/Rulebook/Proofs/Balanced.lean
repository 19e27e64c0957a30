import Rulebook.Parse
import Rulebook.Proofs.Enclosed
import Rulebook.Proofs.Lossless

/-!
# Embedded code and the balance of its delimiters

From the opening symbol of embedded code on, each opening symbol counts one and each closing symbol
minus one. The code ends with the token at which the count first returns to zero, whatever other
tokens are between.
-/

namespace Rulebook

def weight (opening closing : Symbol) (t : Token) : Int :=
  if t.kind = .symbol opening then 1 else if t.kind = .symbol closing then -1 else 0

def balance (opening closing : Symbol) : List Token → Int
  | [] => 0
  | t :: ts => weight opening closing t + balance opening closing ts

section Balance

variable {opening closing : Symbol} {t : Token} {ts us : List Token}

@[simp] theorem balance_nil : balance opening closing [] = 0 := rfl

@[simp] theorem balance_cons :
    balance opening closing (t :: ts) = weight opening closing t + balance opening closing ts :=
  rfl

theorem balance_append :
    balance opening closing (ts ++ us) = balance opening closing ts +
      balance opening closing us := by
  induction ts with
  | nil => rw [List.nil_append, balance_nil, Int.zero_add]
  | cons t ts ih => rw [List.cons_append, balance_cons, balance_cons, ih, Int.add_assoc]

theorem weight_of_opening (h : t.kind = .symbol opening) : weight opening closing t = 1 := if_pos h

theorem weight_of_closing (hne : opening ≠ closing) (h : t.kind = .symbol closing) :
    weight opening closing t = -1 := by
  rw [weight, if_neg (by rw [h]; simpa using hne.symm), if_pos h]

theorem weight_of_other (h : t.kind ≠ .symbol opening) (h' : t.kind ≠ .symbol closing) :
    weight opening closing t = 0 := by
  rw [weight, if_neg h, if_neg h']

theorem weight_le (t : Token) : weight opening closing t ≤ 1 ∧ -1 ≤ weight opening closing t := by
  unfold weight
  repeat' split
  all_goals decide

theorem balance_le_length (ts : List Token) : balance opening closing ts ≤ ts.length := by
  induction ts with
  | nil => exact Int.le_refl 0
  | cons t ts ih =>
    have hweight := (@weight_le opening closing t).1
    rw [balance_cons, List.length_cons]
    omega

end Balance

namespace Cursor

variable {hashComments : Bool} {text : String} {c : Cursor}

/-- A cursor over the tokens of a text, wherever it is and whether or not trivia is visible. -/
def Shows (hashComments : Bool) (text : String) (c : Cursor) : Prop :=
  c = { Cursor.ofTokens (scan text hashComments) text with
    index := c.index, triviaVisible := c.triviaVisible, saved := c.saved }

/-- The tokens from the next one on. -/
def upcoming (c : Cursor) : List Token := c.front.toList.drop (c.seek c.index)

theorem upcoming_eq (h : c.current.kind ≠ .endOfInput) :
    c.upcoming = c.current :: c.consume.rest := by
  have hlt := seek_lt_of_current h
  have hcurrent : c.current = c.front[c.seek c.index] := by
    simp [current, tokenAt, Array.getD, hlt]
  have hnext : c.consume.rest = c.front.toList.drop (c.seek c.index + 1) := by
    rw [consume_eq h]
    rfl
  rw [upcoming, hnext, hcurrent, ← rest_of_lt hlt]

namespace Shows

theorem front (h : c.Shows hashComments text) : c.front.toList = tokens hashComments text := by
  rw [h, ofTokens_eq]

theorem last_eq (h : c.Shows hashComments text) :
    c.last = Token.endOfInput (Rulebook.finish text) := by
  rw [h, ofTokens_eq]
  rfl

theorem spell_eq (h : c.Shows hashComments text) {x y z : List Token} {a b : Token}
    (hfront : c.front.toList = x ++ (y ++ z)) (ha : y.head? = some a) (hb : y.getLast? = some b) :
    spell y = Text.slice text a.start b.stop := by
  have hscan : (Cursor.ofTokens (scan text hashComments) text).front.toList = x ++ (y ++ z) := by
    rw [ofTokens_eq]
    exact h.front.symm.trans hfront
  rw [← ((faithful_scan text).stretch hscan ha hb).2, text_ofTokens]

end Shows

end Cursor

namespace Parser

/-! ### The balance of embedded code -/

section Enclosed

variable {opening closing : Symbol} {stops : List Symbol} {room depth : Nat} {ts : List Token}

theorem forall_prefix_cons {α : Type} {P : List α → Prop} {x : α} {xs : List α} (hnil : P [])
    (h : ∀ us, us <+: xs → P (x :: us)) : ∀ us, us <+: x :: xs → P us := by
  intro us hus
  cases us with
  | nil => exact hnil
  | cons u us =>
    obtain ⟨hhead, hus⟩ := List.cons_prefix_cons.1 hus
    exact hhead ▸ h us hus

/-- What embedded code with `depth` open pairs before it, and room for a number of further pairs in
the first of them, says about the balance of its tokens. -/
structure Enclosure.Weighed (opening closing : Symbol) (stops : List Symbol) (room depth : Nat)
    (e : Enclosure) : Prop where
  opened : ∀ us, us <+: e.inner → 0 < depth + balance opening closing us
  closed : e.verdict = .closed → depth + balance opening closing e.inner = 1
  deep : e.verdict = .deep → (room : Int) < depth + balance opening closing e.inner
  unstopped : ∀ x ∈ e.inner, x.kind ∉ stops.map TokenKind.symbol

namespace Enclosure.Weighed

theorem nil (hdepth : 0 < depth) {verdict : Verdict} {left : List Token}
    (hclosed : verdict = .closed → depth ≤ 1) (hdeep : verdict = .deep → room < depth) :
    Weighed opening closing stops room depth ⟨[], verdict, left⟩ where
  opened us hus := by
    rw [List.prefix_nil.1 hus, balance_nil]
    omega
  closed h := by
    have hone := hclosed h
    rw [balance_nil]
    omega
  deep h := by
    have hlimit := hdeep h
    rw [balance_nil]
    omega
  unstopped _ hx := absurd hx List.not_mem_nil

theorem cons {depth' : Nat} {e : Enclosure} {t : Token}
    (h : e.Weighed opening closing stops room depth')
    (heq : (depth' : Int) = depth + weight opening closing t) (hdepth : 0 < depth)
    (hstop : t.kind ∉ stops.map TokenKind.symbol) :
    (e.cons t).Weighed opening closing stops room depth where
  opened := by
    refine forall_prefix_cons (by rw [balance_nil]; omega) fun us hus => ?_
    have hrest := h.opened us hus
    rw [balance_cons]
    omega
  closed hverdict := by
    have hrest := h.closed hverdict
    show (depth : Int) + balance opening closing (t :: e.inner) = 1
    rw [balance_cons]
    omega
  deep hverdict := by
    have hrest := h.deep hverdict
    show (room : Int) < depth + balance opening closing (t :: e.inner)
    rw [balance_cons]
    omega
  unstopped := List.forall_mem_cons.2 ⟨hstop, h.unstopped⟩

end Enclosure.Weighed

theorem symbol_not_mem {k : Symbol} (h : k ∉ stops) :
    TokenKind.symbol k ∉ stops.map TokenKind.symbol := fun hmem => by
  obtain ⟨k', hk', heq⟩ := List.mem_map.1 hmem
  cases heq
  exact h hk'

theorem enclosed_weighed (hne : opening ≠ closing) (hopening : opening ∉ stops)
    (hclosing : closing ∉ stops) (hdepth : 0 < depth) :
    (enclosed opening closing stops room depth ts).Weighed opening closing stops room depth := by
  have hno : ∀ {v w : Verdict} {P : Prop}, v ≠ w → v = w → P := fun hne heq => absurd heq hne
  -- by the recursion of `enclosed`, whose depth is what is open before the token
  induction ts generalizing depth with
  | nil => exact .nil hdepth (hno (by decide)) (hno (by decide))
  | cons t ts ih =>
    unfold enclosed
    split
    · next hkind =>
      split
      · next hdeep => exact .nil hdepth (hno (by decide)) fun _ => hdeep
      · refine (ih (Nat.succ_pos depth)).cons ?_ hdepth (hkind ▸ symbol_not_mem hopening)
        rw [weight_of_opening hkind]
        omega
    next hother =>
    split
    · next hkind =>
      split
      · next hone => exact .nil hdepth (fun _ => hone) (hno (by decide))
      · refine (ih (by omega)).cons ?_ hdepth (hkind ▸ symbol_not_mem hclosing)
        rw [weight_of_closing hne hkind]
        omega
    next hother' =>
    split
    · exact .nil hdepth (hno (by decide)) (hno (by decide))
    split
    · exact .nil hdepth (hno (by decide)) (hno (by decide))
    · next hstop =>
      refine (ih hdepth).cons ?_ hdepth hstop
      rw [weight_of_other hother hother']
      omega

theorem Enclosure.Weighed.balance_pos {e : Enclosure} {first : Token}
    (h : e.Weighed opening closing stops room 1) (hfirst : first.kind = .symbol opening)
    {us : List Token} (hus : us <+: first :: e.inner) (hne : us ≠ []) :
    0 < balance opening closing us := by
  obtain ⟨u, us, rfl⟩ := List.exists_cons_of_ne_nil hne
  obtain ⟨hhead, hus⟩ := List.cons_prefix_cons.1 hus
  have hopened := h.opened us hus
  rw [balance_cons, hhead, weight_of_opening hfirst]
  exact hopened

end Enclosed

/-! ### The three kinds of embedded code -/

/-- What is around embedded code. -/
inductive Delimiter where
  | paren | curly | square
  deriving DecidableEq

namespace Delimiter

def opening : Delimiter → Symbol
  | paren => .lparen
  | curly => .lbrace
  | square => .lbracket

def closing : Delimiter → Symbol
  | paren => .rparen
  | curly => .rbrace
  | square => .rbracket

def stops : Delimiter → List Symbol
  | paren | curly => []
  | square => [.rparen, .rbrace]

/-- How it is captured. -/
def chunk : Delimiter → Parser String
  | paren => parenChunk
  | curly => curlyChunk
  | square => squareChunk

def balance (d : Delimiter) : List Token → Int := Rulebook.balance d.opening d.closing

theorem balance_concat (d : Delimiter) (ts : List Token) (t : Token) :
    d.balance (ts ++ [t]) = d.balance ts + weight d.opening d.closing t := by
  rw [balance, balance_append, balance_cons, balance_nil, Int.add_zero, ← balance]

/-- Something is open behind each of the tokens. -/
def Opened (d : Delimiter) (ts : List Token) : Prop := ∀ us, us <+: ts → us ≠ [] → d.balance us ≠ 0

/-- None of the tokens is a stop symbol. -/
def Unstopped (d : Delimiter) (ts : List Token) : Prop :=
  ∀ t ∈ ts, t.kind ∉ d.stops.map TokenKind.symbol

/-- With `last`, which `inner` is before, all pairs are closed for the first time. -/
structure ClosesAt (d : Delimiter) (ts inner : List Token) (last : Token) : Prop where
  reaches : inner ++ [last] <+: ts
  opened : d.Opened inner
  closed : d.balance (inner ++ [last]) = 0

/-- The stop symbol `stop` is the first one, and before it not all pairs are closed. -/
structure StopsAt (d : Delimiter) (ts inner : List Token) (stop : Token) : Prop where
  reaches : inner ++ [stop] <+: ts
  opened : d.Opened inner
  unstopped : d.Unstopped inner
  stop : stop.kind ∈ d.stops.map TokenKind.symbol

/-- As far as embedded code is read, no more than a number of pairs are open in the first one. -/
def WithinLimit (d : Delimiter) (room : Nat) (ts : List Token) : Prop :=
  ∀ us, us <+: ts → d.Opened us → d.Unstopped us → d.balance us ≤ room + 1

theorem ClosesAt.prefix_inner {d : Delimiter} {ts us inner : List Token} {last : Token}
    (h : d.ClosesAt ts inner last) (hus : us <+: ts) (hopened : d.Opened us) : us <+: inner := by
  have hinner : inner <+: ts := (List.prefix_append inner [last]).trans h.reaches
  refine List.prefix_of_prefix_length_le hus hinner ?_
  by_contra hlt
  have hwithin : inner ++ [last] <+: us := by
    refine List.prefix_of_prefix_length_le h.reaches hus ?_
    rw [List.length_append, List.length_singleton]
    omega
  exact hopened _ hwithin (by simp) h.closed

end Delimiter

section Chunks

variable {hashComments : Bool} {text : String} {s : State} {d : Delimiter} {e : Enclosure}
  {room : Nat}

theorem chunk_of_delimiter (d : Delimiter) :
    d.chunk = chunk d.opening d.closing d.stops := by
  cases d <;> rfl

/-- What opens embedded code, and the tokens behind that: the code, with room for a number of pairs
in it, and what is left. -/
structure Captured (d : Delimiter) (room : Nat) (first : Token) (rest : List Token)
    (e : Enclosure) : Prop where
  opening : first.kind = .symbol d.opening
  rest_eq : rest = e.inner ++ e.left
  weighed : e.Weighed d.opening d.closing d.stops room 1
  ends : e.Ends d.opening d.closing d.stops

theorem captured {first : Token} (hopening : first.kind = .symbol d.opening) (rest : List Token) :
    Captured d room first rest (enclosed d.opening d.closing d.stops room 1 rest) := by
  have hne : d.opening ≠ d.closing := by cases d <;> decide
  have hfirst : d.opening ∉ d.stops := by cases d <;> decide
  have hlast : d.closing ∉ d.stops := by cases d <;> decide
  exact ⟨hopening, (enclosed_append 1 _).symm, enclosed_weighed hne hfirst hlast Nat.one_pos,
    enclosed_ends 1 _⟩

namespace Captured

variable {first : Token} {rest us : List Token}

theorem opened (h : Captured d room first rest e) : d.Opened (first :: e.inner) := fun _ hus hne =>
  Int.ne_of_gt (h.weighed.balance_pos h.opening hus hne)

theorem unstopped (h : Captured d room first rest e) : d.Unstopped (first :: e.inner) := by
  refine List.forall_mem_cons.2 ⟨?_, h.weighed.unstopped⟩
  rw [h.opening]
  cases d <;> decide

theorem balance_eq (h : Captured d room first rest e) :
    d.balance (first :: e.inner) = 1 + balance d.opening d.closing e.inner := by
  rw [Delimiter.balance, balance_cons, weight_of_opening h.opening]

theorem reaches (h : Captured d room first rest e) {t : Token} {r : List Token}
    (hleft : e.left = t :: r) : first :: e.inner ++ [t] <+: first :: rest := by
  rw [h.rest_eq, hleft]
  exact ⟨r, by simp⟩

theorem closesAt (h : Captured d room first rest e) (hverdict : e.verdict = .closed) :
    ∃ last r, e.left = last :: r ∧ last.kind = .symbol d.closing ∧
      d.ClosesAt (first :: rest) (first :: e.inner) last := by
  have hends := h.ends
  unfold Enclosure.Ends at hends
  rw [hverdict] at hends
  obtain ⟨last, r, hleft, hlast⟩ := hends
  have hne : d.opening ≠ d.closing := by cases d <;> decide
  have hone := h.weighed.closed hverdict
  refine ⟨last, r, hleft, hlast, h.reaches hleft, h.opened, ?_⟩
  rw [d.balance_concat, h.balance_eq, weight_of_closing hne hlast]
  omega

theorem opened_concat (h : Captured d room first rest e) {t : Token}
    (ht : t.kind ≠ .symbol d.closing) : d.Opened (first :: e.inner ++ [t]) := by
  intro us hus hne
  rcases List.prefix_concat_iff.1 hus with rfl | hus
  · have hpos := h.weighed.balance_pos h.opening (List.prefix_refl _) (List.cons_ne_nil _ _)
    have hweight : 0 ≤ weight d.opening d.closing t := by
      unfold weight
      rw [if_neg ht]
      split <;> decide
    have hsum := d.balance_concat (first :: e.inner) t
    have hbefore : d.balance (first :: e.inner) = balance d.opening d.closing (first :: e.inner) :=
      rfl
    omega
  · exact h.opened us hus hne

theorem not_deep (h : Captured d room first rest e) (hlimit : d.WithinLimit room (first :: rest)) :
    e.verdict ≠ .deep := by
  intro hverdict
  have hends := h.ends
  unfold Enclosure.Ends at hends
  rw [hverdict] at hends
  obtain ⟨t, r, hleft, hkind⟩ := hends
  have hclosing : t.kind ≠ .symbol d.closing := by
    rw [hkind]
    cases d <;> decide
  have hunstopped : d.Unstopped (first :: e.inner ++ [t]) := by
    refine List.forall_mem_append.2 ⟨h.unstopped, List.forall_mem_singleton.2 ?_⟩
    rw [hkind]
    cases d <;> decide
  have hle := hlimit _ (h.reaches hleft) (h.opened_concat hclosing) hunstopped
  have hdeep := h.weighed.deep hverdict
  rw [d.balance_concat, h.balance_eq, weight_of_opening hkind] at hle
  omega

/-- Code that neither is closed nor nests too deep ends at a stop symbol or where all tokens end. -/
theorem stopsAt_or_unended (h : Captured d room first rest e)
    (hplain : ∀ t ∈ rest, t.kind ≠ .endOfInput) (hlimit : d.WithinLimit room (first :: rest))
    (hverdict : e.verdict ≠ .closed) :
    (∃ stop r, e.left = stop :: r ∧ d.StopsAt (first :: rest) (first :: e.inner) stop) ∨
      e.left = [] ∧ d.Opened (first :: rest) ∧ d.Unstopped (first :: rest) := by
  have hends := h.ends
  unfold Enclosure.Ends at hends
  cases hv : e.verdict with
  | closed => exact absurd hv hverdict
  | deep => exact absurd hv (h.not_deep hlimit)
  | stopped =>
    rw [hv] at hends
    obtain ⟨stop, r, hleft, hstop⟩ := hends
    exact .inl ⟨stop, r, hleft, h.reaches hleft, h.opened, h.unstopped, hstop⟩
  | ended =>
    have hleft : e.left = [] := h.ends.left_eq_nil hv fun t ht => hplain t (by
      rw [h.rest_eq]
      exact List.mem_append_right _ ht)
    have hall : rest = e.inner := by rw [h.rest_eq, hleft, List.append_nil]
    exact .inr ⟨hleft, hall ▸ h.opened, hall ▸ h.unstopped⟩

theorem closed_of_closesAt (h : Captured d room first rest e)
    (hplain : ∀ t ∈ rest, t.kind ≠ .endOfInput) (hlimit : d.WithinLimit room (first :: rest))
    {inner : List Token} {last : Token} (hcloses : d.ClosesAt (first :: rest) inner last)
    (hunstopped : d.Unstopped inner) : e.verdict = .closed := by
  by_contra hverdict
  rcases h.stopsAt_or_unended hplain hlimit hverdict with ⟨stop, r, -, hstops⟩ | ⟨-, hopened, -⟩
  · have hclosing : stop.kind ≠ .symbol d.closing := fun heq => by
      have hmem := hstops.stop
      rw [heq] at hmem
      revert hmem
      cases d <;> decide
    have hinner := hcloses.prefix_inner hstops.reaches (h.opened_concat hclosing)
    exact hunstopped stop (hinner.subset (by simp)) hstops.stop
  · have hinner := (hcloses.prefix_inner (List.prefix_refl _) hopened).length_le
    have hle := hcloses.reaches.length_le
    rw [List.length_append, List.length_singleton] at hle
    omega

end Captured

theorem chunk_ok {t : State} {code : String} (h : d.chunk s = .ok code t) :
    ∃ inner last, enclosed d.opening d.closing d.stops s.stack.room 1 s.advanced.cursor.rest =
        ⟨inner, .closed, last :: t.cursor.rest⟩ ∧
      s.cursor.current.kind = .symbol d.opening ∧ last.kind = .symbol d.closing ∧
      s.advanced.cursor.rest = (inner ++ [last]) ++ t.cursor.rest ∧
      d.Opened (s.cursor.current :: inner) ∧ d.balance (s.cursor.current :: inner ++ [last]) = 0 ∧
      code = s.cursor.current.text ++ (spell inner ++ last.text) := by
  rw [chunk_of_delimiter] at h
  by_cases hopening : s.cursor.current.kind = .symbol d.opening
  · have he : Captured d s.stack.room _ _ _ := captured hopening s.advanced.cursor.rest
    rw [chunk_eq hopening] at h
    generalize enclosed d.opening d.closing d.stops s.stack.room 1 s.advanced.cursor.rest =
      e at he h
    unfold Enclosure.result at h
    cases hverdict : e.verdict with
    | closed =>
      obtain ⟨last, r, hleft, hlast, hcloses⟩ := he.closesAt hverdict
      rw [hverdict, hleft] at h
      cases h
      have hrest : s.advanced.cursor.rest = (e.inner ++ [last]) ++ r := by
        rw [he.rest_eq, hleft, List.append_assoc]
        rfl
      have hmoved := Cursor.rest_moved hrest
      rw [List.length_append, List.length_singleton] at hmoved
      have hbehind : (s.advanced.moved (e.inner.length + 1)).cursor.rest = r := hmoved
      refine ⟨e.inner, last, ?_, hopening, hlast, ?_, hcloses.opened, hcloses.closed, rfl⟩
      · rw [hbehind, ← hverdict, ← hleft]
      · rw [hrest, hbehind]
    | stopped => rw [hverdict] at h; cases h
    | ended => rw [hverdict] at h; cases h
    | deep => rw [hverdict] at h; cases h
  · rw [chunk_of_ne hopening] at h
    cases h

theorem exists_captured (hs : s.cursor.Shows hashComments text)
    (hopening : s.cursor.current.kind = .symbol d.opening) :
    s.cursor.upcoming = s.cursor.current :: s.advanced.cursor.rest ∧
      (∀ t ∈ s.advanced.cursor.rest, t.kind ≠ .endOfInput) ∧
      ∃ e, Captured d s.stack.room s.cursor.current s.advanced.cursor.rest e ∧
        d.chunk s = e.result d.closing s.cursor.current s.advanced := by
  refine ⟨Cursor.upcoming_eq (by rw [hopening]; simp), fun t ht => ?_, _, captured hopening _, ?_⟩
  · have hfront : s.advanced.cursor.front = s.cursor.front := Cursor.front_consume _
    have htoken : t ∈ tokens hashComments text := by
      rw [← hs.front, ← hfront]
      exact List.mem_of_mem_drop ht
    exact kind_ne_of_mem_tokens htoken
  · rw [chunk_of_delimiter]
    exact chunk_eq hopening

theorem Captured.result_of_closesAt (h : Captured d room s.cursor.current s.advanced.cursor.rest e)
    (hs : s.cursor.Shows hashComments text) {last : Token} {r : List Token}
    (hverdict : e.verdict = .closed) (hleft : e.left = last :: r) :
    e.result d.closing s.cursor.current s.advanced =
        .ok (Text.slice text s.cursor.current.start last.stop)
          (s.advanced.moved (e.inner.length + 1)) ∧
      (s.advanced.moved (e.inner.length + 1)).cursor = s.cursor.rewind
        (s.cursor.seek s.cursor.index + (s.cursor.current :: e.inner).length + 1) := by
  have hcurrent : s.cursor.current.kind ≠ .endOfInput := by
    rw [h.opening]
    simp
  have hupcoming : s.cursor.upcoming = s.cursor.current :: s.advanced.cursor.rest :=
    Cursor.upcoming_eq hcurrent
  have hfront : s.cursor.front.toList = s.cursor.front.toList.take (s.cursor.seek s.cursor.index) ++
      ((s.cursor.current :: e.inner ++ [last]) ++ r) := by
    rw [List.append_assoc, List.singleton_append, ← hleft,
      List.cons_append, ← h.rest_eq, ← hupcoming, Cursor.upcoming, List.take_append_drop]
  have hspell := hs.spell_eq hfront rfl (List.getLast?_concat ..)
  rw [spell_append, spell_cons, spell_cons, spell_nil, String.append_empty,
    String.append_assoc] at hspell
  refine ⟨?_, ?_⟩
  · rw [Enclosure.result, hverdict, ← hspell, hleft]
    rfl
  · show s.cursor.consume.rewind (s.cursor.consume.index + (e.inner.length + 1)) = _
    rw [Cursor.consume_eq hcurrent, List.length_cons]
    show Cursor.rewind _ (s.cursor.seek s.cursor.index + 1 + (e.inner.length + 1)) = _
    rw [show s.cursor.seek s.cursor.index + 1 + (e.inner.length + 1) =
      s.cursor.seek s.cursor.index + (e.inner.length + 1) + 1 by omega]
    rfl

theorem Captured.result_of_not_closed
    (h : Captured d room s.cursor.current s.advanced.cursor.rest e)
    (hlimit : d.WithinLimit room (s.cursor.current :: s.advanced.cursor.rest))
    (hverdict : e.verdict ≠ .closed) :
    ∃ t, e.result d.closing s.cursor.current s.advanced =
      .error (.recognition (.mismatchedToken (.symbol d.closing) (e.left.headD s.cursor.last)))
        t := by
  have hlast : s.advanced.cursor.last = s.cursor.last := by
    show s.cursor.consume.last = _
    rw [Cursor.consume_eq_rewind]
    rfl
  unfold Enclosure.result
  cases hv : e.verdict with
  | closed => exact absurd hv hverdict
  | deep => exact absurd hv (h.not_deep hlimit)
  | stopped | ended => exact ⟨_, by rw [hlast]⟩

/-- Embedded code is captured just if all that is opened from its opening symbol on is closed before
the tokens end, and before a stop symbol. It is the text up to where that is so for the first time,
and the cursor is right behind it; or else it is missed at the first stop symbol or the end of the
input. -/
theorem chunk_balanced (hs : s.cursor.Shows hashComments text)
    (hopening : s.cursor.current.kind = .symbol d.opening)
    (hlimit : d.WithinLimit s.stack.room s.cursor.upcoming) :
    ((∃ code t, d.chunk s = .ok code t) ↔
      ∃ inner last, d.ClosesAt s.cursor.upcoming inner last ∧ d.Unstopped inner) ∧
    (∀ code t, d.chunk s = .ok code t → ∃ inner last, d.ClosesAt s.cursor.upcoming inner last ∧
      code = Text.slice text s.cursor.current.start last.stop ∧
      t.cursor = s.cursor.rewind (s.cursor.seek s.cursor.index + inner.length + 1)) ∧
    ∀ f t, d.chunk s = .error f t → ∃ token,
      f = .recognition (.mismatchedToken (.symbol d.closing) token) ∧
      ((∃ inner, d.StopsAt s.cursor.upcoming inner token) ∨
        token = Token.endOfInput (finish text) ∧ d.Opened s.cursor.upcoming ∧
          d.Unstopped s.cursor.upcoming) := by
  obtain ⟨hupcoming, hplain, e, he, hchunk⟩ := exists_captured hs hopening
  rw [hupcoming] at hlimit ⊢
  by_cases hverdict : e.verdict = .closed
  · obtain ⟨last, r, hleft, -, hcloses⟩ := he.closesAt hverdict
    obtain ⟨hresult, hcursor⟩ := he.result_of_closesAt hs hverdict hleft
    rw [hresult] at hchunk
    refine ⟨⟨fun _ => ⟨_, last, hcloses, he.unstopped⟩, fun _ => ⟨_, _, hchunk⟩⟩,
      fun code u h => ?_,
      fun f u h => ?_⟩
    · rw [hchunk] at h
      cases h
      exact ⟨_, last, hcloses, rfl, hcursor⟩
    · rw [hchunk] at h
      cases h
  · obtain ⟨t, hresult⟩ := he.result_of_not_closed hlimit hverdict
    rw [hresult] at hchunk
    refine ⟨⟨fun ⟨code, u, h⟩ => ?_, fun ⟨inner, last, hcloses, hunstopped⟩ =>
      absurd (he.closed_of_closesAt hplain hlimit hcloses hunstopped) hverdict⟩, fun code u h => ?_,
      fun f u h => ?_⟩
    · rw [hchunk] at h
      cases h
    · rw [hchunk] at h
      cases h
    · rw [hchunk] at h
      cases h
      refine ⟨_, rfl, ?_⟩
      rcases he.stopsAt_or_unended hplain hlimit hverdict with ⟨stop, r, hleft, hstops⟩ |
        ⟨hleft, hunended⟩
      · rw [hleft]
        exact .inl ⟨_, hstops⟩
      · rw [hleft]
        exact .inr ⟨hs.last_eq, hunended⟩

theorem withinLimit_of_length {ts : List Token} (h : ts.length ≤ room + 1) :
    d.WithinLimit room ts :=
  fun us hus _ _ => by
    have hle := @balance_le_length d.opening d.closing us
    have hlength := hus.length_le
    show balance d.opening d.closing us ≤ (room + 1 : Int)
    omega

end Chunks

def nestedCode : String := "(a[ (b) \")\" /* ) */) c"

theorem chunk_balanced_nestedCode :
    ∃ inner last, Delimiter.paren.ClosesAt (State.ofText 900 {} "" nestedCode).cursor.upcoming
      inner last ∧ Text.slice nestedCode 0 last.stop = "(a[ (b) \")\" /* ) */)" := by
  have hopening : (State.ofText 900 {} "" nestedCode).cursor.current.kind =
      .symbol Delimiter.paren.opening := by
    decide +kernel
  have hlimit :
      Delimiter.paren.WithinLimit 900 (State.ofText 900 {} "" nestedCode).cursor.upcoming :=
    withinLimit_of_length (by decide +kernel)
  have hcode : (match Delimiter.paren.chunk (State.ofText 900 {} "" nestedCode) with
      | .ok code _ => some code
      | .error .. => none) = some "(a[ (b) \")\" /* ) */)" := by
    decide +kernel
  have hshows : (State.ofText 900 {} "" nestedCode).cursor.Shows true nestedCode := rfl
  split at hcode
  · next code t heq =>
    cases hcode
    obtain ⟨inner, last, hcloses, hslice, -⟩ := (chunk_balanced hshows hopening hlimit).2.1 _ t heq
    have hstart : (State.ofText 900 {} "" nestedCode).cursor.current.start = 0 := by decide +kernel
    rw [hstart] at hslice
    exact ⟨inner, last, hcloses, hslice.symm⟩
  · cases hcode

end Parser

end Rulebook
