import Rulebook.Proofs.Likeness
import Rulebook.Proofs.PartingConditions
import Rulebook.Proofs.Transplants

/-!
# Conditions read as a text of their own

From the conditions of a rule or query on, a text is read as that part of it is read alone. And
where parts of two texts differ in the closing word only, the conditions before it are read alike in
both.
-/

namespace Rulebook

variable {frames : Nat}

open Lexeme
open Rulebook.Parser

instance (n : Nat) : (further n).Verbatim := ⟨fun h => h⟩

namespace Parser

variable {α : Type} {s t u v : State} {l m m' : List Piece} {hashComments : Bool}
  {settings : Settings} {whole text : String} {p : Position} {stack : Stack}

instance : Orderly blockElements := by
  unfold blockElements elementFollows
  infer_instance

instance : Composed blockElements := by
  unfold blockElements elementFollows
  infer_instance

instance : Inert blockElements := by
  unfold blockElements elementFollows
  infer_instance

/-- In a text of which nothing was declared and nothing complained of, within a rule or not, and
with a given stack. -/
structure State.Untroubled (stack : Stack) (hashComments : Bool) (whole : String) (s : State) :
    Prop where
  cursor : s.cursor = (Cursor.ofTokens (scan whole hashComments) whole).rewind s.cursor.index
  trials : s.trials = 0
  package : s.package = { location := s.package.location }
  lastRecovery : s.lastRecovery = none
  recovering : s.collector.recovering = false
  received : s.collector.received = 0
  stack : s.stack = stack

instance : Lasting (State.Untroubled stack hashComments whole) where
  calm {s t} hs h := by
    have hcursor := h.evolves.cursor
    rw [hs.cursor] at hcursor
    refine ⟨hcursor, h.evolves.trials.trans hs.trials, ?_, h.lastRecovery.trans hs.lastRecovery, ?_,
      ?_, h.evolves.stack.trans hs.stack⟩
    · rw [h.package]
      exact hs.package
    · rcases h.collector with hc | hc <;> rw [hc]
      · exact hs.recovering
      · rfl
    · rcases h.collector with hc | hc <;> rw [hc]
      · exact hs.received
      · exact hs.received

theorem State.Amid.untroubled (h : s.Amid hashComments whole) :
    s.Untroubled s.stack hashComments whole where
  cursor := h.cursor
  trials := h.trials
  package := by rw [h.package]
  lastRecovery := h.lastRecovery
  recovering := h.recovering
  received := h.received
  stack := rfl

theorem State.Untroubled.beside (hs : s.Untroubled stack hashComments whole) :
    s.Beside Collector.Uncaps s.unheard where
  cursor := rfl
  collector := ⟨rfl, hs.recovering.symm, hs.received.symm⟩
  stack := rfl
  package := rfl
  trials := rfl
  ruleName := rfl
  lastRecovery := rfl

/-! ### A part of a text alone -/

theorem State.Stretch.append_nil {p : Position} (h : s.Stretch whole l p) :
    s.Stretch whole (l ++ []) p := by
  rwa [List.append_nil]

def placement (hashComments : Bool) {whole text : String} {p : Position}
    (hstretch : s.Stretch whole (lexemes hashComments text.toList) p) : Splice :=
  let S := transplant hashComments hstretch.append_nil bordered_nil
  { S with
    cut := False
    borders := []
    whole _ := S.whole fun h => h rfl
    border h := h.elim
    borders_subset := List.nil_subset _ }

instance (hstretch : s.Stretch whole (lexemes hashComments text.toList) p) :
    (placement hashComments hstretch).readings.BetweenStatements where
  fence := List.nil_subset _
  closer h := h.elim

theorem abreast_placement (hs : s.Untroubled stack settings.hashComments whole)
    (hstretch : s.Stretch whole (lexemes settings.hashComments text.toList) p) :
    (placement settings.hashComments hstretch).readings.Abreast s.unheard
      (.ofFragment stack settings text s.ruleName) where
  first := hs.cursor
  second := (amid_ofText stack.frames settings "" text).cursor
  first_le := hstretch.index_le_front hs.cursor
  second_le := by
    show (State.ofText stack.frames settings "" text).cursor.index ≤ _
    rw [index_ofText]
    exact Nat.zero_le _
  left := left_transplant settings stack s.ruleName hstretch.append_nil bordered_nil
  after h := by
    have hnone : (State.ofFragment stack settings text s.ruleName).cursor.previous = none :=
      previous_ofText stack.frames settings "" text
    rw [hnone] at h
    cases h
  previous := .inr ⟨previous_ofText stack.frames settings "" text, hstretch.past_le⟩
  trials := hs.trials
  stack := hs.stack
  ruleName := rfl
  package := by
    show Package.Like _ s.package {}
    rw [hs.package]
    exact { Package.Like.empty trivial trivial rfl with }
  recovered := by
    show Readings.Recovered s.lastRecovery none _ _
    rw [hs.lastRecovery]
    exact .none _ _
  reported := ⟨rfl, rfl, rfl, rfl, .nil⟩
  clean h := h.elim

/-! ### What two readings have in common -/

section Abreast

variable {S : Splice}

/-- Where all that is left is shared, the same pieces are left. -/
theorem faces_iff_of_abreast (h : S.readings.Abreast s t) (hbehind : S.behind = [])
    (hblanks : S.blanks = []) : s.Faces l ↔ t.Faces l := by
  obtain ⟨y, z, r, q, hy, hz, hr, hq, v, w, hvw, rfl, rfl⟩ := h.left
  have hpieces : v.map Token.piece = w.map Token.piece := by
    clear * - hvw
    induction hvw with
    | nil => rfl
    | cons hab _ ih =>
      rw [List.map_cons, List.map_cons, ih, Token.piece, Token.piece, hab.kind, hab.text]
  have hsame : solid (s.cursor.rest.map Token.piece) = solid (t.cursor.rest.map Token.piece) := by
    rw [hr, hq, hbehind, hblanks, List.append_nil, List.append_nil, solid_append_of_visible hy,
      solid_append_of_visible hz, hpieces]
  have hs : s.cursor.triviaVisible = false := h.first_hidden
  have ht : t.cursor.triviaVisible = false := h.second_hidden
  exact ⟨fun hface => ⟨ht, hsame ▸ hface.rest⟩, fun hface => ⟨hs, hsame ▸ hface.rest⟩⟩

end Abreast

theorem received_iff_of_abreast {T : Readings} (h : T.Abreast s t)
    (hkeep : ∀ k, T.likeness.keep k = true) (hs : s.collector.Honest) (ht : t.collector.Honest) :
    s.collector.received = 0 ↔ t.collector.received = 0 := by
  have herrors := h.reported.errors
  rw [Likeness.kept_eq _ hkeep, Likeness.kept_eq _ hkeep] at herrors
  rw [Collector.received_eq_zero_iff hs h.reported.first_uncapped,
    Collector.received_eq_zero_iff ht h.reported.second_uncapped]
  constructor
  · intro hnil
    rw [hnil] at herrors
    exact List.forall₂_nil_left_iff.1 herrors
  · intro hnil
    rw [hnil] at herrors
    exact List.forall₂_nil_right_iff.1 herrors

theorem honest_of_unheard {q : Parser α} [Orderly q] {a : α} (h : q s = .ok a t)
    (hs : s.collector = { sourceName := "" }) : t.collector.Honest :=
  (Orderly.evolves_ok q h).collector.honest fun _ hbad => by
    rw [hs] at hbad
    rcases hbad with hbad | hbad <;> cases hbad

/-- The same is left to read, and there were complaints in both or in neither. -/
structure State.SameOutlook (s t : State) : Prop where
  received : s.collector.received = 0 ↔ t.collector.received = 0
  faces : ∀ l, s.Faces l ↔ t.Faces l

theorem State.Beside.sameOutlook (h : s.Beside Collector.Uncaps t) : s.SameOutlook t where
  received := by rw [h.collector.received]
  faces l := by
    have hfaces : ∀ {s t : State}, s.cursor = t.cursor → s.Faces l → t.Faces l := fun heq hface =>
      ⟨heq ▸ hface.hidden, heq ▸ hface.rest⟩
    exact ⟨hfaces h.cursor, hfaces h.cursor.symm⟩

theorem State.SameOutlook.trans (h : s.SameOutlook t) (h' : t.SameOutlook u) : s.SameOutlook u :=
  ⟨h.received.trans h'.received, fun l => (h.faces l).trans (h'.faces l)⟩

section Placement

variable {q : Parser α} [Orderly q] [Composed q] {R : α → α → Prop}
  (hs : s.Untroubled stack settings.hashComments whole)
  (hstretch : s.Stretch whole (lexemes settings.hashComments text.toList) p)
  (hq : Twin (placement settings.hashComments hstretch).readings R q q)

omit [Composed q] in
theorem sameOutlook_of_abreast {a b : α} (hx : q s.unheard = .ok a u)
    (hy : q (.ofFragment stack settings text s.ruleName) = .ok b v)
    (huv : (placement settings.hashComments hstretch).readings.Abreast u v) : u.SameOutlook v where
  received := received_iff_of_abreast huv (fun _ => rfl) (honest_of_unheard hx rfl)
    (honest_of_unheard hy rfl)
  faces _ := faces_iff_of_abreast huv rfl rfl

include hs hq

/-- What is read in a text is read alike in what is left of it. -/
theorem exists_in_fragment {a : α} (h : q s = .ok a u) :
    ∃ b v, q (.ofFragment stack settings text s.ruleName) = .ok b v ∧ R a b ∧ u.SameOutlook v := by
  obtain ⟨u', hu', hbeside⟩ := hs.beside.exists_ok Collector.congruence_uncaps h
  cases hq (abreast_placement hs hstretch) with
  | @ok _ b _ v hx hy hab huv =>
    obtain ⟨rfl, rfl⟩ := EStateM.Result.ok.inj (hu'.symm.trans hx)
    exact ⟨b, v, hy, hab, hbeside.sameOutlook.trans (sameOutlook_of_abreast hstretch hx hy huv)⟩
  | error hx _ => cases hu'.symm.trans hx
  | astray hcut _ => exact hcut.elim

/-- What is read alone is read alike at the end of a text. -/
theorem exists_of_fragment {b : α} (h : q (.ofFragment stack settings text s.ruleName) = .ok b v) :
    ∃ a u, q s = .ok a u ∧ R a b ∧ u.SameOutlook v := by
  cases hq (abreast_placement hs hstretch) with
  | @ok a _ u' _ hx hy hab huv =>
    obtain ⟨rfl, rfl⟩ := EStateM.Result.ok.inj (h.symm.trans hy)
    obtain ⟨u, hu, hbeside⟩ := hs.beside.exists_ok_first Collector.congruence_uncaps hx
    exact ⟨a, u, hu, hab, hbeside.sameOutlook.trans (sameOutlook_of_abreast hstretch hx hy huv)⟩
  | error _ hy => cases h.symm.trans hy
  | astray hcut _ => exact hcut.elim

end Placement

end Parser

/-! ### Parts that differ in the closing word -/

def IsClosing (m : List Piece) : Prop :=
  ∃ x xs, m = x :: xs ∧ x.1 ∈ closingWords ∧ ∀ y ∈ xs, y.isTrivia = true ∨ y.1 ∈ closingWords

section Closing

variable {hashComments : Bool} {text a b : String} {l m m' : List Piece}

theorem length_located (p : Position) (l : List Piece) : (located p l).length = l.length := by
  rw [← List.length_map (f := Token.piece), map_piece_located]

theorem tokenAt_ofTokens {i : Nat} {t : Token} (h : (tokens hashComments text)[i]? = some t) :
    (Cursor.ofTokens (scan text hashComments) text).tokenAt i = t := by
  rw [ofTokens_eq, Cursor.tokenAt, Array.getD_eq_getD_getElem?, List.getElem?_toArray, h]
  rfl

theorem piece_tokenAt {i : Nat} {x : Piece} (h : (lexemes hashComments text.toList)[i]? = some x) :
    ((Cursor.ofTokens (scan text hashComments) text).tokenAt i).piece = x := by
  rw [← map_piece_located {} (lexemes hashComments text.toList), List.getElem?_map,
    Option.map_eq_some_iff] at h
  obtain ⟨t, ht, rfl⟩ := h
  rw [tokenAt_ofTokens ht]

theorem size_ofTokens (text : String) :
    (Cursor.ofTokens (scan text hashComments) text).front.size =
      (lexemes hashComments text.toList).length := by
  rw [ofTokens_eq, List.size_toArray, tokens, length_located]

theorem closedAt_ofTokens (h : lexemes hashComments text.toList = l ++ m) (hm : IsClosing m) :
    (Cursor.ofTokens (scan text hashComments) text).ClosedAt l.length := by
  obtain ⟨x, xs, rfl, hx, hxs⟩ := hm
  constructor
  · have hpiece := @piece_tokenAt hashComments text l.length x
      (by rw [h, List.getElem?_append_right (Nat.le_refl _), Nat.sub_self]; rfl)
    rw [← hpiece] at hx
    exact hx
  · intro i hi
    obtain ⟨j, rfl⟩ : ∃ j, i = l.length + (j + 1) := ⟨i - l.length - 1, by omega⟩
    cases hy : xs[j]? with
    | none =>
      refine .inr (List.mem_cons.2 (.inl ?_))
      rw [Cursor.tokenAt_of_le, Cursor.kind_last]
      rw [size_ofTokens, h, List.length_append, List.length_cons]
      exact Nat.add_le_add_left (Nat.succ_le_succ (List.getElem?_eq_none_iff.1 hy)) _
    | some y =>
      have hpiece := @piece_tokenAt hashComments text (l.length + (j + 1)) y (by
          rw [h, List.getElem?_append_right (Nat.le_add_right _ _), Nat.add_sub_cancel_left]
          exact hy)
      have hmem := hxs y (List.mem_of_getElem? hy)
      rw [← hpiece] at hmem
      exact hmem.imp_right (List.mem_cons_of_mem _)

theorem tokenAt_shared {n : List Piece} (h : lexemes hashComments text.toList = l ++ n) {i : Nat}
    (hi : i < l.length) : ∃ t ∈ located {} l, (located {} l)[i]? = some t ∧
      (Cursor.ofTokens (scan text hashComments) text).tokenAt i = t ∧ t.start < t.stop := by
  have hlt : i < (located {} l).length := (length_located {} l).symm ▸ hi
  have hsplit : tokens hashComments text =
      located {} l ++ located (Position.advance {} (letters l)) n := by
    rw [tokens, h, located_append]
  refine ⟨_, List.getElem_mem hlt, List.getElem?_eq_getElem hlt, tokenAt_ofTokens ?_, ?_⟩
  · rw [hsplit, List.getElem?_append_left hlt, List.getElem?_eq_getElem hlt]
  · refine (@standsIn_of_mem_tokens hashComments text _ ?_).2
    rw [hsplit]
    exact List.mem_append_left _ (List.getElem_mem hlt)

theorem take_shared {n : List Piece} (h : lexemes hashComments text.toList = l ++ n) :
    text.toList.take (letters l).length = letters l := by
  rw [← @letters_lexemes hashComments text.toList, h, letters_append, List.take_left]

theorem index_ofTokens (text : String) :
    (Cursor.ofTokens (scan text hashComments) text).index = 0 := by
  rw [ofTokens_eq]

/-- Two texts that begin with the same pieces, at their beginnings. -/
theorem alongside_ofTokens (ha : lexemes hashComments a.toList = l ++ m)
    (hb : lexemes hashComments b.toList = l ++ m') :
    Cursor.Alongside l.length (.ofTokens (scan a hashComments) a)
      (.ofTokens (scan b hashComments) b) where
  index := (index_ofTokens a).trans (index_ofTokens b).symm
  index_le := by
    rw [index_ofTokens]
    exact Nat.zero_le _
  first_le := by
    rw [size_ofTokens, ha, List.length_append]
    exact Nat.le_add_right _ _
  second_le := by
    rw [size_ofTokens, hb, List.length_append]
    exact Nat.le_add_right _ _
  triviaVisible := (hidden_scan a).trans (hidden_scan b).symm
  tokens i hi := by
    obtain ⟨t, -, ht, hta, -⟩ := tokenAt_shared ha hi
    obtain ⟨t', -, ht', htb, -⟩ := tokenAt_shared hb hi
    rw [hta, htb]
    exact Option.some.inj (ht.symm.trans ht')
  source i hi n hn := by
    obtain ⟨t, hmem, -, hta, hlt⟩ := tokenAt_shared ha hi
    have hstop : t.stop ≤ (letters l).length :=
      Nat.le_trans (stop_le_of_mem_located hmem) (Nat.le_of_eq (Nat.zero_add _))
    rw [hta] at hn
    have hle : n ≤ (letters l).length := by omega
    have htake : a.toList.take (letters l).length = b.toList.take (letters l).length :=
      (take_shared ha).trans (take_shared hb).symm
    rw [ofTokens_eq, ofTokens_eq]
    show a.toList.toArray.toList.take n = b.toList.toArray.toList.take n
    rw [← Nat.min_eq_left hle, ← List.take_take, ← List.take_take, htake]

/-- Two texts whose tokens are the same up to a closing word, at their beginnings. -/
theorem parting_ofTokens (ha : lexemes hashComments a.toList = l ++ m) (hm : IsClosing m)
    (hb : lexemes hashComments b.toList = l ++ m') (hm' : IsClosing m') :
    Cursor.Parting l.length (letters l).length (.ofTokens (scan a hashComments) a)
      (.ofTokens (scan b hashComments) b) := by
  have hstops : ∀ t ∈ located {} l, t.stop ≤ (letters l).length := fun t ht => by
    have hle := stop_le_of_mem_located ht
    exact Nat.le_trans hle (Nat.le_of_eq (Nat.zero_add _))
  have halong := alongside_ofTokens ha hb
  refine
    { index := halong.index
      index_le := halong.index_le
      triviaVisible := halong.triviaVisible
      tokens := halong.tokens
      starts := fun i hi => ?_
      stops := fun i hi => ?_
      source := ?_
      first := closedAt_ofTokens ha hm
      second := closedAt_ofTokens hb hm' }
  · obtain ⟨t, hmem, -, hta, hlt⟩ := tokenAt_shared ha hi
    rw [hta]
    exact Nat.le_trans (Nat.le_of_lt hlt) (hstops t hmem)
  · obtain ⟨t, hmem, -, hta, -⟩ := tokenAt_shared ha hi
    rw [hta]
    exact hstops t hmem
  · rw [ofTokens_eq, ofTokens_eq]
    exact (take_shared ha).trans (take_shared hb).symm

end Closing

namespace Parser

section Closing

variable {settings : Settings} {a b : String} {l m m' : List Piece} {s u : State} {stack : Stack}

theorem isTrivia_of_isClosing (hm : IsClosing m) : ∃ x xs, m = x :: xs ∧ x.isTrivia = false := by
  obtain ⟨x, xs, rfl, hx, -⟩ := hm
  have hwords : ∀ kind ∈ closingWords, kind.isTrivia = false := by decide
  exact ⟨x, xs, rfl, hwords _ hx⟩

/-- A state faces the closing word if nothing but trivia is left before it. -/
theorem faces_iff_of_isClosing {hashComments : Bool} {text : String}
    (hs : s.cursor = (Cursor.ofTokens (scan text hashComments) text).rewind s.cursor.index)
    (h : lexemes hashComments text.toList = l ++ m) (hm : IsClosing m) :
    s.Faces m ↔ s.cursor.index ≤ l.length ∧ ∀ x ∈ l.drop s.cursor.index, x.isTrivia = true := by
  have hhidden : s.cursor.triviaVisible = false := by
    rw [hs]
    exact hidden_scan text
  have hrest : s.cursor.rest.map Token.piece = (l ++ m).drop s.cursor.index := by
    have hfront : s.cursor.front.toList = tokens hashComments text := by
      rw [hs, ofTokens_eq]
      rfl
    rw [Cursor.rest, hfront, List.map_drop, tokens, map_piece_located, h]
  obtain ⟨x, xs, rfl, hx⟩ := isTrivia_of_isClosing hm
  constructor
  · rintro ⟨-, hface⟩
    rw [hrest, solid_cons_of_not_trivia hx] at hface
    have hsplit := List.takeWhile_append_dropWhile (p := Piece.isTrivia)
      (l := (l ++ x :: xs).drop s.cursor.index)
    rw [show List.dropWhile Piece.isTrivia _ = x :: xs from hface] at hsplit
    have hlength := congrArg List.length hsplit
    simp only [List.length_append, List.length_drop, List.length_cons] at hlength
    have hle : s.cursor.index ≤ l.length := by omega
    refine ⟨hle, fun y hy => ?_⟩
    rw [List.drop_append_of_le_length hle] at hsplit
    rw [← List.append_cancel_right hsplit] at hy
    exact List.mem_takeWhile_imp hy
  · rintro ⟨hle, htrivia⟩
    refine ⟨hhidden, ?_⟩
    rw [hrest, List.drop_append_of_le_length hle, solid, List.dropWhile_append_of_pos htrivia]
    rfl

theorem blockElements_exchanged (ha : lexemes settings.hashComments a.toList = l ++ m)
    (hm : IsClosing m) (hb : lexemes settings.hashComments b.toList = l ++ m') (hm' : IsClosing m')
    {name : Option String} {es : List Condition}
    (h : blockElements (.ofFragment stack settings a name) = .ok es u)
    (hreceived : u.collector.received = 0) (hface : u.Faces m) (name' : Option String) :
    ∃ v, blockElements (.ofFragment stack settings b name') = .ok es v ∧ v.collector.received = 0 ∧
      v.Faces m' := by
  have hstart : State.Parting l.length (letters l).length (.ofFragment stack settings a name)
      (.ofFragment stack settings b name') := ⟨parting_ofTokens ha hm hb hm', rfl, rfl, rfl⟩
  have hcursor : ∀ {text : String} {name : Option String} {v : State} {ds : List Condition},
      blockElements (.ofFragment stack settings text name) = .ok ds v →
        v.cursor = (Cursor.ofTokens (scan text settings.hashComments) text).rewind v.cursor.index :=
    fun h => (Orderly.evolves_ok blockElements h).cursor
  obtain ⟨hle, htrivia⟩ := (faces_iff_of_isClosing (hcursor h) ha hm).1 hface
  cases FairOutside.inStep (p := blockElements) rfl hstart with
  | @ok _ ds _ v hx hy hab huv =>
    obtain ⟨rfl, rfl⟩ := EStateM.Result.ok.inj (h.symm.trans hx)
    subst hab
    refine ⟨v, hy, huv.received.symm.trans hreceived, ?_⟩
    rw [faces_iff_of_isClosing (hcursor hy) hb hm', ← huv.cursor.index]
    exact ⟨hle, htrivia⟩
  | error hx => cases h.symm.trans hx
  | outrun hx =>
    rw [h] at hx
    rcases hx with hx | hx
    · exact absurd hle (Nat.not_le.2 hx)
    · rw [hreceived] at hx
      exact absurd hx (Nat.not_lt_zero _)

/-- What is left before a closing word stands in the text of its own, without the trivia
before it. -/
theorem lexemes_solid {hashComments : Bool} {cs : List Char}
    (h : lexemes hashComments cs = l ++ m) :
    lexemes hashComments (String.ofList (letters (solid l ++ m))).toList = solid l ++ m := by
  have hsplit : l ++ m = l.takeWhile Piece.isTrivia ++ (solid l ++ m) := by
    rw [← List.append_assoc]
    exact congrArg (· ++ m) (List.takeWhile_append_dropWhile (p := Piece.isTrivia)).symm
  rw [hsplit] at h
  rw [String.toList_ofList, lexemes_behind h]

theorem solid_append_of_isClosing (hm : IsClosing m) (l : List Piece) :
    solid (l ++ m) = solid l ++ m := by
  obtain ⟨x, xs, rfl, hx⟩ := isTrivia_of_isClosing hm
  unfold solid
  rw [List.dropWhile_append]
  split
  · next hnil =>
    rw [List.isEmpty_iff.1 hnil, List.nil_append]
    exact solid_cons_of_not_trivia hx xs
  · rfl

theorem exists_solid_append (hm : IsClosing m) (l : List Piece) :
    ∃ x xs, solid l ++ m = x :: xs ∧ x.isTrivia = false := by
  cases hsolid : solid l with
  | nil => exact isTrivia_of_isClosing hm
  | cons x xs => exact ⟨x, xs ++ m, rfl, isTrivia_of_solid hsolid⟩

theorem State.Faces.stretch_solid {hashComments : Bool} {whole : String} (hface : s.Faces (l ++ m))
    (hm : IsClosing m)
    (hcursor : s.cursor = (Cursor.ofTokens (scan whole hashComments) whole).rewind s.cursor.index) :
    ∃ p, s.Stretch whole (solid l ++ m) p := by
  obtain ⟨x, xs, hpieces, hx⟩ := exists_solid_append hm l
  have hrest := hface.rest
  rw [solid_append_of_isClosing hm, hpieces] at hrest
  have hface : s.Faces (x :: xs) :=
    ⟨hface.hidden, hrest.trans (solid_cons_of_not_trivia hx xs).symm⟩
  exact hpieces ▸ hface.stretch hx hcursor

/-- Conditions before one closing word, in a text, are read alike before the other one, in another
text. -/
theorem blockElements_shared {whole whole' : String} {cs ds : List Char} {t : State}
    (hs : s.Untroubled stack settings.hashComments whole) (hface : s.Faces (l ++ m))
    (hm : IsClosing m) (hcs : lexemes settings.hashComments cs = l ++ m)
    (ht : t.Untroubled stack settings.hashComments whole') (hface' : t.Faces (l ++ m'))
    (hm' : IsClosing m') (hds : lexemes settings.hashComments ds = l ++ m')
    {es : List Condition} (h : blockElements s = .ok es u) (hreceived : u.collector.received = 0)
    (hrest : u.Faces m) :
    ∃ es' v, blockElements t = .ok es' v ∧ List.Forall₂ (Condition.Like .elsewhere) es es' ∧
      v.collector.received = 0 ∧ v.Faces m' := by
  have ha := lexemes_solid hcs
  have hb := lexemes_solid hds
  obtain ⟨p, hstretch⟩ := hface.stretch_solid hm hs.cursor
  obtain ⟨q, hstretch'⟩ := hface'.stretch_solid hm' ht.cursor
  rw [← ha] at hstretch
  rw [← hb] at hstretch'
  obtain ⟨alone, x, hx, hlike, hux⟩ := exists_in_fragment
    (R := List.Forall₂ (Condition.Like (further p.offset))) hs hstretch Twin.blockElements h
  obtain ⟨y, hy, hclean, hyface⟩ := blockElements_exchanged ha hm hb hm'
    hx (hux.received.1 hreceived) ((hux.faces m).1 hrest) t.ruleName
  obtain ⟨es', v, hv, hlike', hvy⟩ := exists_of_fragment
    (R := List.Forall₂ (Condition.Like (further q.offset))) ht hstretch' Twin.blockElements hy
  exact ⟨es', v, hv, Condition.Like.list_common hlike hlike', hvy.received.2 hclean,
    (hvy.faces m').2 hyface⟩

end Closing

end Parser

end Rulebook
