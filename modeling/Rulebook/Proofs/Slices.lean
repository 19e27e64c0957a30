import Rulebook.Proofs.Confined
import Rulebook.Proofs.Continuations

/-!
# Conditions as texts of their own

A condition that is read in the same way where the input ends behind it is what the stretch of the
text that it covers is read as alone.
-/

namespace Rulebook

open Lexeme
open Rulebook.Parser

variable {frames : Nat} {hashComments : Bool} {settings : Settings} {text whole : String}

/-- What a condition covers is read as that condition, but for its place: its offsets are further
down, and lines and columns are those of the offsets in either text. -/
def StandsAlone (frames : Nat) (settings : Settings) (text : String) (c : Condition) : Prop :=
  ∃ a b d, c.Laid text a b ∧ Accepts frames settings conditions (Text.slice text a b) d ∧
    c.Like (further a) d ∧ d.Laid (Text.slice text a b) 0 (b - a)

theorem Condition.Like.location {l : Likeness} {c d : Condition} (h : c.Like l d) :
    c.location.Like l d.location := by
  cases h with
  | group _ h => exact h
  | eval h => exact h
  | pattern h =>
    cases h with
    | mk location => exact location

theorem Condition.Laid.of_further {c d : Condition} {a b lo hi : Nat} (hc : c.Laid text a b)
    (hlike : c.Like (further a) d) (hd : Between (Condition.Laid whole) lo hi d) :
    d.Laid whole 0 (b - a) := by
  obtain ⟨a', b', -, -, hd⟩ := hd
  have hstart := hlike.location.start
  have hstop := hlike.location.stop
  rw [hc.location.start, hd.location.start] at hstart
  rw [hc.location.stop, hd.location.stop] at hstop
  cases hstart with
  | some hstart =>
  cases hstop with
  | some hstop =>
  have hzero : a' = 0 := by
    have hsame : a = a' + a := hstart
    omega
  have hlength : b' = b - a := by
    have hsame : b = b' + a := hstop
    omega
  exact hzero ▸ hlength ▸ hd

theorem past_of_visible {c : Cursor} {ks ms : List Piece} {x : Piece}
    (hc : c = (Cursor.ofTokens (scan text hashComments) text).rewind c.index)
    (htext : lexemes hashComments text.toList = ks ++ x :: ms) (hindex : c.index = ks.length + 1)
    (hx : x.isTrivia = false) : c.past = (letters (ks ++ [x])).length := by
  obtain ⟨kind, cs⟩ := x
  let p := Position.advance {} (letters ks)
  have htoken :
      (Cursor.ofTokens (scan text hashComments) text).tokenAt ks.length = Token.at p kind cs := by
    refine tokenAt_ofTokens ?_
    rw [tokens, htext, located_append, List.getElem?_append_right (by rw [length_located]),
      length_located, Nat.sub_self]
    rfl
  have hprevious : c.previous = some (Token.at p kind cs) := by
    unfold Cursor.previous
    rw [hc, Cursor.lastBefore_rewind, show ((Cursor.ofTokens (scan text hashComments) text).rewind
      c.index).index = ks.length + 1 from hindex, Cursor.lastBefore, htoken]
    exact if_neg (by rw [show (Token.at p kind cs).isTrivia = false from hx]; simp)
  unfold Cursor.past
  rw [hprevious]
  show (p.advance cs).offset = _
  rw [← Position.advance_append, Position.offset_advance, letters_append, letters_cons, letters_nil,
    List.append_nil]
  exact Nat.zero_add _

namespace Parser

variable {stack : Stack} {s w : State} {c : Condition}

theorem State.Stretch.toList_eq {p : Position}
    (hs : s.cursor = (Cursor.ofTokens (scan whole hashComments) whole).rewind s.cursor.index)
    (h : s.Stretch whole (lexemes hashComments text.toList) p) :
    text.toList = whole.toList.drop p.offset := by
  obtain ⟨trivia, hrest, -⟩ := h.rest
  have hpieces := map_piece_front hs
  rw [← List.take_append_drop s.cursor.index s.cursor.front.toList,
    show s.cursor.front.toList.drop s.cursor.index = _ from hrest, List.map_append, List.map_append,
    map_piece_located, ← List.append_assoc] at hpieces
  have hwhole := congrArg letters hpieces
  rw [letters_append, letters_lexemes, letters_lexemes] at hwhole
  have hfinish : whole.toList.length = p.offset + text.toList.length := by
    have hoffset := h.finish
    rw [letters_lexemes] at hoffset
    rw [← hoffset, Rulebook.finish, Position.offset_advance]
    exact (Nat.zero_add _).symm
  rw [← hwhole, List.length_append] at hfinish
  rw [← hwhole, ← Nat.add_right_cancel hfinish, List.drop_left]

/-- A condition that a text ends with is what that part of the text is read as alone. -/
theorem exists_accepts (hs : s.Untroubled stack settings.hashComments whole)
    (hname : s.ruleName = none) (h : conditions s = .ok c w)
    (hend : w.Faces []) (hclean : w.collector.received = 0) :
    ∃ d, Accepts stack.frames settings conditions
        (String.ofList (whole.toList.drop s.cursor.coming)) d ∧
        c.Like (further s.cursor.coming) d := by
  let left := (lexemes settings.hashComments whole.toList).drop s.cursor.index
  have hhidden : s.cursor.triviaVisible = false := by
    rw [hs.cursor]
    exact hidden_scan whole
  have hface : s.Faces left := by
    refine ⟨hhidden, ?_⟩
    rw [Cursor.rest, List.map_drop, map_piece_front hs.cursor]
  have hsolid : solid left ≠ [] := fun hnil => by
    have hkind := hface.kind
    rw [nextKind, hnil] at hkind
    rcases kind_of_conditions h with hparen | hname
    · exact absurd (hkind.symm.trans hparen) (by simp)
    · rw [hkind] at hname
      cases hname
  obtain ⟨p, text, htext, hstretch⟩ := hface.exists_fragment hs
    (lexemes_behind (List.take_append_drop s.cursor.index _).symm) hsolid
  have hcoming : s.cursor.coming = p.offset := by
    obtain ⟨x, xs, hx⟩ := List.exists_cons_of_ne_nil hsolid
    obtain ⟨trivia, hrest, htrivia⟩ := hstretch.rest
    rw [htext, hx] at hrest
    exact coming_of_rest hhidden hrest htrivia (isTrivia_of_solid hx)
  obtain ⟨d, v, hd, hlike, hsame⟩ := exists_in_fragment
    (R := Condition.Like (further p.offset)) hs hstretch Twin.conditions h
  rw [hname] at hd
  rw [hcoming, ← hstretch.toList_eq hs.cursor, String.ofList_toList]
  exact ⟨d, .of_fragment hd (List.map_eq_nil_iff.1 ((hsame.faces []).1 hend).ahead)
    (hsame.received.1 hclean), hlike⟩

/-! ### Texts that are cut off -/

def State.ofCut (stack : Stack) (settings : Settings) (whole : String) (stop index : Nat) : State :=
  let start := State.ofFragment stack settings
    (String.ofList (letters ((lexemes settings.hashComments whole.toList).take stop))) none
  { start with cursor := start.cursor.rewind index }

section Cut

variable {stop index : Nat}

theorem lexemes_cut (hashComments : Bool) (whole : String) (stop : Nat) :
    lexemes hashComments
      (String.ofList (letters ((lexemes hashComments whole.toList).take stop))).toList =
      (lexemes hashComments whole.toList).take stop := by
  rw [String.toList_ofList]
  exact lexemes_before (List.take_append_drop stop _).symm

theorem untroubled_ofCut :
    (State.ofCut stack settings whole stop index).Untroubled stack settings.hashComments
      (String.ofList (letters ((lexemes settings.hashComments whole.toList).take stop))) where
  stack := rfl
  cursor := rfl
  trials := rfl
  package := rfl
  lastRecovery := rfl
  recovering := rfl
  received := rfl

theorem alongside_ofCut (hs : s.Earnest settings.hashComments whole) (hle : s.cursor.index ≤ stop)
    (hstop : stop ≤ (lexemes settings.hashComments whole.toList).length) :
    s.Alongside stop (.ofCut s.stack settings whole stop s.cursor.index) where
  stack := rfl
  cursor := by
    have halong := alongside_ofTokens (List.take_append_drop stop _).symm
      ((lexemes_cut settings.hashComments whole stop).trans (List.append_nil _).symm)
    rw [List.length_take_of_le hstop] at halong
    rw [hs.cursor]
    exact halong.rewind hle
  hidden := hs.hidden
  trials := hs.trials

theorem size_ofCut (hstop : stop ≤ (lexemes settings.hashComments whole.toList).length) :
    (State.ofCut stack settings whole stop index).cursor.front.size = stop := by
  refine (size_ofTokens _).trans ?_
  rw [lexemes_cut, List.length_take_of_le hstop]

theorem kind_ofCut (hstop : stop ≤ (lexemes settings.hashComments whole.toList).length) :
    ((State.ofCut stack settings whole stop index).cursor.rewind stop).current.kind =
      .endOfInput := by
  have hnone : ((State.ofCut stack settings whole stop index).cursor.rewind stop).rest = [] :=
    List.drop_eq_nil_of_le (Nat.le_of_eq (size_ofCut hstop))
  rw [Cursor.current_of_rest_nil hnone]
  rfl

end Cut

/-- What is behind the last token that was taken is where the pieces up to there end. -/
theorem past_of_lands (hs : s.Earnest hashComments whole) (hsw : s.Evolves w)
    (hle : w.cursor.index ≤ (lexemes hashComments whole.toList).length)
    (hlands : s.cursor.Lands w.cursor) :
    w.cursor.past = (letters ((lexemes hashComments whole.toList).take w.cursor.index)).length := by
  have hw := hs.evolves hsw
  obtain ⟨hlt, hvisible⟩ := hlands
  obtain ⟨n, hn⟩ : ∃ n, w.cursor.index = n + 1 := ⟨w.cursor.index - 1, by omega⟩
  rw [hn] at hle hvisible ⊢
  rw [Nat.add_sub_cancel, hw.cursor] at hvisible
  have hsplit := List.drop_eq_getElem_cons hle
  have hpiece := piece_tokenAt (List.getElem?_eq_getElem hle)
  rw [List.take_succ_eq_append_getElem hle]
  have hwhole := (List.take_append_drop n (lexemes hashComments whole.toList)).symm
  rw [hsplit] at hwhole
  refine past_of_visible hw.cursor hwhole ?_ ?_
  · rw [List.length_take_of_le (Nat.le_of_lt hle)]
    exact hn
  · rw [← hpiece]
    exact hvisible

theorem standsAlone_of_replays (hs : s.Earnest settings.hashComments whole) (hsw : s.Evolves w)
    (hsize : w.cursor.index ≤ w.cursor.front.size) (hlands : s.cursor.Lands w.cursor)
    (h : s.Replays w fun t v => conditions t = .ok c v)
    (hlaid : c.Laid whole s.cursor.coming w.cursor.past) :
    StandsAlone s.stack.frames settings whole c := by
  have hle : w.cursor.index ≤ (lexemes settings.hashComments whole.toList).length := by
    rw [← length_located {} (lexemes settings.hashComments whole.toList)]
    rw [← Array.length_toList, (hs.evolves hsw).front] at hsize
    exact hsize
  let t : State := .ofCut s.stack settings whole w.cursor.index s.cursor.index
  have halong : s.Alongside w.cursor.index t := alongside_ofCut hs hsw.index hle
  obtain ⟨v, hv, hwv, hclean, -⟩ := h halong (kind_ofCut hle)
  have hvface : v.Faces [] := by
    have hcursor := hwv.rewind_eq (Orderly.evolves_ok conditions hv)
    have hsize : (State.ofCut s.stack settings whole w.cursor.index
        s.cursor.index).cursor.front.toList.length ≤ w.cursor.index := by
      rw [Array.length_toList]
      exact Nat.le_of_eq (size_ofCut hle)
    have hnone : v.cursor.rest = [] := by
      rw [hcursor]
      exact List.drop_eq_nil_of_le hsize
    exact ⟨by rw [hcursor]; exact hidden_scan _, by rw [hnone]; rfl⟩
  obtain ⟨d, haccepts, hlike⟩ := exists_accepts untroubled_ofCut rfl hv hvface hclean
  have hcoming : s.cursor.coming = t.cursor.coming :=
    congrArg Token.start (halong.cursor.current_eq (Nat.not_le.2 hlands.1))
  have hslice : Text.slice whole s.cursor.coming w.cursor.past =
      String.ofList ((String.ofList (letters
        ((lexemes settings.hashComments whole.toList).take w.cursor.index))).toList.drop
          t.cursor.coming) := by
    apply String.toList_injective
    rw [Text.toList_slice, past_of_lands hs hsw hle hlands,
      take_shared (List.take_append_drop w.cursor.index _).symm, String.toList_ofList,
      String.toList_ofList, hcoming]
  rw [← hslice] at haccepts
  rw [← hcoming] at hlike
  have ⟨y, hy, _⟩ := haccepts
  have hover :
      (State.ofText s.stack.frames settings ""
        (Text.slice whole s.cursor.coming w.cursor.past)).cursor.Over
      (Text.slice whole s.cursor.coming w.cursor.past) :=
        Cursor.over_ofTokens settings.hashComments _
  exact ⟨_, _, d, hlaid, haccepts, hlike, hlaid.of_further hlike (conditions_laid hover hy)⟩

end Parser

end Rulebook
