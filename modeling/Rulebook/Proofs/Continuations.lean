import Rulebook.Proofs.Behind
import Rulebook.Proofs.Fragments
import Rulebook.Proofs.LocalityConditions

/-!
# A condition before another continuation

A condition that is read in one text up to some trivia is read alike in another text in which other
trivia stands there, and behind that something else that does not continue the condition.
-/

namespace Rulebook

open Lexeme
open Rulebook.Parser

def lastKind (l : List Piece) : TokenKind := nextKind l.reverse

section LastKind

variable {l m : List Piece}

theorem nextKind_eq_head? (l : List Piece) :
    nextKind l = ((l.filter fun x => !x.isTrivia).head?.map Prod.fst).getD .endOfInput := by
  rw [nextKind, ← filter_solid]
  cases hl : solid l with
  | nil => rfl
  | cons x xs =>
    rw [List.filter_cons_of_pos (by simp [isTrivia_of_solid hl])]
    rfl

theorem lastKind_eq_getLast? (l : List Piece) :
    lastKind l = ((l.filter fun x => !x.isTrivia).getLast?.map Prod.fst).getD .endOfInput := by
  rw [lastKind, nextKind_eq_head?, List.filter_reverse, List.head?_reverse]

theorem lastKind_append_of_trivia (hm : ∀ x ∈ m, x.isTrivia = true) (l : List Piece) :
    lastKind (l ++ m) = lastKind l := by
  have hnone : (m.filter fun x => !x.isTrivia) = [] :=
    List.filter_eq_nil_iff.2 fun x hx => by simp [hm x hx]
  rw [lastKind_eq_getLast?, lastKind_eq_getLast?, List.filter_append, hnone, List.append_nil]

theorem lastKind_solid (l : List Piece) : lastKind (solid l) = lastKind l := by
  rw [lastKind_eq_getLast?, lastKind_eq_getLast?, filter_solid]

end LastKind

namespace Parser

set_option synthInstance.maxSize 100000

variable {α : Type} {s t u v : State} {l ks m m' : List Piece} {x : Piece}
  {a b whole whole' : String}
  {stack : Stack} {settings : Settings} {name : Option String} {hashComments : Bool}

/-! ### Where a production ends in a text -/

/-- A state in a text whose pieces up to its cursor, trivia aside, are the given ones. -/
structure State.Reached (hashComments : Bool) (text : String) (ks : List Piece) (s : State) :
    Prop where
  cursor : s.cursor = (Cursor.ofTokens (scan text hashComments) text).rewind s.cursor.index
  index_le : s.cursor.index ≤ ks.length
  trivia : ∀ x ∈ ks.drop s.cursor.index, x.isTrivia = true

/-- The pieces that were passed and are left are those of the text. -/
theorem map_piece_front
    (hs : s.cursor = (Cursor.ofTokens (scan a hashComments) a).rewind s.cursor.index) :
    s.cursor.front.toList.map Token.piece = lexemes hashComments a.toList := by
  have hfront : s.cursor.front.toList = tokens hashComments a := by
    rw [hs, ofTokens_eq]
    rfl
  rw [hfront, tokens, map_piece_located]

namespace State.Reached

theorem faces (hs : s.Reached hashComments a ks) (ha : lexemes hashComments a.toList = ks ++ m) :
    s.Faces m := by
  constructor
  · rw [hs.cursor]
    exact hidden_scan a
  · rw [Cursor.rest, List.map_drop, map_piece_front hs.cursor, ha,
      List.drop_append_of_le_length hs.index_le, solid, List.dropWhile_append_of_pos hs.trivia]
    rfl

theorem kind_previous (hs : s.Reached hashComments a ks)
    (ha : lexemes hashComments a.toList = ks ++ m) :
    (s.cursor.previous.map (·.kind)).getD .endOfInput = lastKind ks := by
  have hsize : s.cursor.index ≤ s.cursor.front.size := by
    have hlength := congrArg List.length (map_piece_front hs.cursor)
    rw [ha, List.length_map, Array.length_toList, List.length_append] at hlength
    exact Nat.le_trans hs.index_le (hlength ▸ Nat.le_add_right _ _)
  have hbehind : s.cursor.behind.map Token.piece =
      (ks.take s.cursor.index).filter fun x => !x.isTrivia := by
    rw [Cursor.behind, map_piece_visible, List.map_take, map_piece_front hs.cursor, ha,
      List.take_append_of_le_length hs.index_le]
  have hks := lastKind_append_of_trivia hs.trivia (ks.take s.cursor.index)
  rw [List.take_append_drop] at hks
  rw [Cursor.previous_eq_getLast? hsize, hks, lastKind_eq_getLast?, ← hbehind, List.getLast?_map,
    Option.map_map]
  rfl

end State.Reached

/-- A production without complaint does not end behind the trivia that follows it. -/
theorem reached_of_fragment {q : Parser α} [Orderly q] [Tokenwise q] {c : α}
    (h : q (.ofFragment stack settings a name) = .ok c u) (hclean : u.collector.received = 0)
    (ha : lexemes settings.hashComments a.toList = ks ++ x :: m) (hx : x.isTrivia = true)
    (hm : IsClosing m) (hface : u.Faces m) : u.Reached settings.hashComments a ks := by
  have hcursor :
      u.cursor = (Cursor.ofTokens (scan a settings.hashComments) a).rewind u.cursor.index :=
    (Orderly.evolves_ok q h).cursor
  rw [List.append_cons] at ha
  obtain ⟨hle, htrivia⟩ := (faces_iff_of_isClosing hcursor ha hm).1 hface
  rw [List.length_append] at hle
  have hne : u.cursor.index ≠ ks.length + 1 := fun heq => by
    rcases Tokenwise.moves (hidden_scan a) h hclean with hsame | ⟨-, hlands⟩
    · have hstart : (State.ofFragment stack settings a name).cursor.index = 0 := index_ofTokens a
      rw [hsame, hstart] at heq
      cases heq
    · have hpiece : (u.cursor.tokenAt ks.length).piece = x := by
        rw [hcursor]
        refine piece_tokenAt (ha.symm ▸ ?_)
        rw [List.append_assoc, List.getElem?_append_right (Nat.le_refl _), Nat.sub_self]
        rfl
      rw [heq, Nat.add_sub_cancel] at hlands
      rw [← hpiece] at hx
      exact absurd (hlands.symm.trans hx) (by decide)
  have hle : u.cursor.index ≤ ks.length := Nat.le_of_lt_succ (Nat.lt_of_le_of_ne hle hne)
  refine ⟨hcursor, hle, fun y hy => htrivia y ?_⟩
  rw [List.drop_append_of_le_length hle]
  exact List.mem_append_left _ hy

/-! ### Another continuation -/

def Severed (ks m : List Piece) : Prop :=
  nextKind m ∉ continuingKinds ∧ ((lastKind ks).isName = true → nextKind m ≠ .symbol .lparen)

instance (ks m : List Piece) : Decidable (Severed ks m) :=
  inferInstanceAs (Decidable (_ ∧ (_ → _)))

/-- What is read without complaint is read alike before another continuation. -/
theorem exchanged {q : Parser α} [Orderly q] [Local Continues q]
    (ha : lexemes settings.hashComments a.toList = ks ++ m)
    (hb : lexemes settings.hashComments b.toList = ks ++ m') {c : α}
    (h : q (.ofFragment stack settings a name) = .ok c u) (hclean : u.collector.received = 0)
    (hu : u.Reached settings.hashComments a ks) (hsevered : Severed ks m')
    (name' : Option String) : ∃ v, q (.ofFragment stack settings b name') = .ok c v ∧
      v.collector.received = 0 ∧ v.Reached settings.hashComments b ks := by
  have hstart : (State.ofFragment stack settings a name).Alongside ks.length
      (.ofFragment stack settings b name') := ⟨alongside_ofTokens ha hb, hidden_scan a, rfl, rfl⟩
  have hagain :
      ∀ v : State,
      v.cursor = (State.ofFragment stack settings b name').cursor.rewind u.cursor.index →
      v.Reached settings.hashComments b ks := fun v hv => by
    have hindex : v.cursor.index = u.cursor.index := by rw [hv]; rfl
    exact ⟨by rw [hindex]; exact hv, hindex ▸ hu.index_le, hindex ▸ hu.trivia⟩
  have hends : Uncontinued Continues ks.length u
      (.ofFragment stack settings b name') := fun _ hcontinues => by
    let w : State := { u with
      cursor := (State.ofFragment stack settings b name').cursor.rewind u.cursor.index }
    have hkind : w.cursor.current.kind = nextKind m' := ((hagain w rfl).faces hb).kind
    rw [show ((State.ofFragment stack settings b name').cursor.rewind u.cursor.index).current.kind =
      nextKind m' from hkind] at hcontinues
    rcases hcontinues with hmem | ⟨hparen, token, hprevious, hname⟩
    · exact hsevered.1 hmem
    · refine hsevered.2 ?_ hparen
      rw [← hu.kind_previous ha, show u.cursor.previous = some token from hprevious]
      exact hname
  obtain ⟨v, hv, halong, hvclean⟩ := Local.again q hstart h hclean hu.index_le hends
  refine ⟨v, hv, hvclean, hagain v ?_⟩
  rw [halong.cursor.index]
  exact (Orderly.evolves_ok q hv).cursor

/-- What is read of a text without complaint leaves it untroubled. -/
theorem State.Untroubled.of_ok {q : Parser α} [Orderly q] [Composed q] [Inert q] {c : α}
    (hs : s.Untroubled stack hashComments whole) (h : q s = .ok c u)
    (hclean : u.collector.received = 0) : u.Untroubled stack hashComments whole := by
  have hsu := Orderly.evolves_ok q h
  have hheard := Composed.heard (p := q) inferInstance hs.trials
  rw [after_of_ok h] at hheard
  have hreceived := hclean.trans hs.received.symm
  have hcursor := hsu.cursor
  rw [hs.cursor] at hcursor
  refine ⟨hcursor, hsu.trials.trans hs.trials, ?_,
    (hheard.lastRecovery hreceived).trans hs.lastRecovery, ?_, hclean, hsu.stack.trans hs.stack⟩
  · rw [Inert.package_ok q h]
    exact hs.package
  · rcases hheard.collector hreceived with hc | hc <;> rw [hc]
    · exact hs.recovering
    · rfl

theorem State.Faces.exists_fragment {cs : List Char} (hface : s.Faces l)
    (hs : s.Untroubled stack hashComments whole) (hcs : lexemes hashComments cs = l)
    (hl : solid l ≠ []) :
    ∃ p, ∃ text : String, lexemes hashComments text.toList = solid l ∧
      s.Stretch whole (lexemes hashComments text.toList) p := by
  have htext : lexemes hashComments (String.ofList (letters (solid l))).toList = solid l := by
    rw [String.toList_ofList]
    have hsplit : lexemes hashComments cs = l.takeWhile Piece.isTrivia ++ solid l :=
      hcs.trans List.takeWhile_append_dropWhile.symm
    exact lexemes_behind hsplit
  obtain ⟨x, xs, hsolid⟩ := List.exists_cons_of_ne_nil hl
  have hx := isTrivia_of_solid hsolid
  have hface : s.Faces (x :: xs) :=
    ⟨hface.hidden, by rw [hface.rest, hsolid, solid_cons_of_not_trivia hx]⟩
  obtain ⟨p, hstretch⟩ := hface.stretch hx hs.cursor
  exact ⟨p, _, htext, by rw [htext, hsolid]; exact hstretch⟩

theorem solid_append_of_ne (h : solid ks ≠ []) (m : List Piece) :
    solid (ks ++ m) = solid ks ++ m := by
  unfold solid at h ⊢
  rw [List.dropWhile_append, if_neg (by simpa using h)]

/-- A condition before the closing of a text is read alike in another text, before what does not go
on with it. -/
theorem conditions_shared {cs ds : List Char} {c : Condition}
    (hs : s.Untroubled stack settings.hashComments whole) (hface : s.Faces (ks ++ x :: m))
    (hcs : lexemes settings.hashComments cs = ks ++ x :: m) (hx : x.isTrivia = true)
    (hm : IsClosing m) (ht : t.Untroubled stack settings.hashComments whole')
    (hface' : t.Faces (ks ++ m')) (hds : lexemes settings.hashComments ds = ks ++ m')
    (hks : solid ks ≠ []) (h : conditions s = .ok c u) (hclean : u.collector.received = 0)
    (hrest : u.Faces m) (hsevered : Severed ks m') :
    ∃ d v, conditions t = .ok d v ∧ c.Like .elsewhere d ∧ v.collector.received = 0 ∧
      v.Faces m' := by
  obtain ⟨p, a, ha, hstretch⟩ := hface.exists_fragment hs hcs
    (by rw [solid_append_of_ne hks]; exact List.append_ne_nil_of_left_ne_nil hks _)
  obtain ⟨q, b, hb, hstretch'⟩ := hface'.exists_fragment ht hds
    (by rw [solid_append_of_ne hks]; exact List.append_ne_nil_of_left_ne_nil hks _)
  rw [solid_append_of_ne hks] at ha hb
  obtain ⟨c', y, hy, hlike, huy⟩ := exists_in_fragment
    (R := Condition.Like (further p.offset)) hs hstretch Twin.conditions h
  have hyclean := huy.received.1 hclean
  obtain ⟨z, hz, hzclean, hreached⟩ := exchanged ha hb hy hyclean
    (reached_of_fragment hy hyclean ha hx hm ((huy.faces m).1 hrest))
    (by rw [Severed, lastKind_solid]; exact hsevered) t.ruleName
  obtain ⟨d, v, hv, hlike', hvz⟩ := exists_of_fragment
    (R := Condition.Like (further q.offset)) ht hstretch' Twin.conditions hz
  exact ⟨d, v, hv, Condition.Like.common hlike hlike', hvz.received.2 hzclean,
    (hvz.faces m').2 (hreached.faces hb)⟩

end Parser

end Rulebook
