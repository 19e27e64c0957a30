import Rulebook.Proofs.Onward
import Rulebook.Proofs.Room
import Rulebook.Proofs.Splices

/-!
# Texts in the midst of others

What is read alone, completely and without complaint is read alike in the midst of another text, as
long as nothing follows that might belong to it. The two readings are compared side by side: the
text alone is the second one, which is cut off where the other goes on.
-/

namespace Rulebook

open Lexeme
open Rulebook.Parser

/-! ### Trees further down -/

def further (n : Nat) : Likeness where
  offset a b := a = b + n
  line _ _ := True
  column _ _ := True
  code c d := c = d
  attributes _ _ := True
  defaults _ _ := True
  dialect _ _ := True
  name _ _ := True
  keep _ := true

theorem copies_further (n : Nat) : (further n).Copies n where
  offset := .rfl
  code := .rfl
  consequence {a b} text hab := by
    have hstop : a.stop = b.stop + n := hab.stop
    refine ⟨rfl, .some ?_, .some ?_, .some trivial, .some trivial⟩
    · show a.stop + _ = b.stop + _ + n
      omega
    · show a.stop + _ = b.stop + _ + n
      omega
  attributes_put _ _ := trivial
  attributes_of_defaults _ := trivial
  dialect _ := trivial

theorem forall₂_located {n : Nat} {p q : Position} (h : p.offset = q.offset + n) (l : List Piece) :
    List.Forall₂ (Token.Like (further n)) (located p l) (located q l) := by
  induction l generalizing p q with
  | nil => exact .nil
  | cons x l ih =>
    obtain ⟨kind, cs⟩ := x
    have hstop : (p.advance cs).offset = (q.advance cs).offset + n := by
      rw [Position.offset_advance, Position.offset_advance, h]
      omega
    exact .cons ⟨rfl, rfl, h, hstop, trivial, trivial⟩ (ih hstop)

namespace Parser

variable {s t : State} {l m more : List Piece} {x : Piece} {hashComments : Bool} {whole : String}

/-- In the midst of a text of which nothing was declared and nothing complained of. -/
structure State.Amid (hashComments : Bool) (whole : String) (s : State) : Prop where
  cursor : s.cursor = (Cursor.ofTokens (scan whole hashComments) whole).rewind s.cursor.index
  trials : s.trials = 0
  ruleName : s.ruleName = none
  package : s.package = {}
  lastRecovery : s.lastRecovery = none
  recovering : s.collector.recovering = false
  received : s.collector.received = 0

instance : Lasting (State.Amid hashComments whole) where
  calm {s t} hs h := by
    have hcursor := h.evolves.cursor
    rw [hs.cursor] at hcursor
    refine ⟨hcursor, h.evolves.trials.trans hs.trials, h.ruleName.trans hs.ruleName,
      h.package.trans hs.package, h.lastRecovery.trans hs.lastRecovery, ?_, ?_⟩
    · rcases h.collector with hc | hc <;> rw [hc]
      · exact hs.recovering
      · rfl
    · rcases h.collector with hc | hc <;> rw [hc]
      · exact hs.received
      · exact hs.received

instance : Stackless (State.Amid hashComments whole) where
  within _ hs := { hs with }

theorem amid_ofText (frames : Nat) (settings : Settings) (sourceName text : String) :
    (State.ofText frames settings sourceName text).Amid settings.hashComments text where
  cursor := by
    rw [index_ofText]
    show Cursor.ofTokens _ text = _
    rw [ofTokens_eq]
    rfl
  trials := rfl
  ruleName := rfl
  package := rfl
  lastRecovery := rfl
  recovering := rfl
  received := rfl

/-- Pieces that are left to read and begin with no trivia stand in the text behind some trivia. -/
structure State.Stretch (s : State) (whole : String) (l : List Piece) (p : Position) : Prop where
  rest : ∃ trivia, s.cursor.rest = trivia ++ located p l ∧ visible trivia = []
  index_le : s.cursor.index ≤ s.cursor.front.size
  past_le : ∀ a ∈ s.cursor.previous, a.stop ≤ p.offset
  finish : (Rulebook.finish whole).offset = p.offset + (letters l).length

/-- The next token stands where the pieces that are left begin. -/
theorem coming_of_rest {trivia : List Token} {p : Position} (hs : s.cursor.triviaVisible = false)
    (hrest : s.cursor.rest = trivia ++ located p (x :: l)) (htrivia : visible trivia = [])
    (hx : x.isTrivia = false) : s.cursor.coming = p.offset := by
  obtain ⟨kind, cs⟩ := x
  have hvisible : (Token.at p kind cs).isTrivia = false := hx
  have hahead : s.cursor.ahead = Token.at p kind cs :: visible (located (p.advance cs) l) := by
    rw [Cursor.ahead, hrest, visible_append, htrivia, List.nil_append, located,
      visible_cons_of_not_trivia hvisible]
  rw [Cursor.coming, Cursor.current_of_hidden hs, hahead]
  rfl

theorem State.Faces.stretch (hface : s.Faces (x :: l)) (hx : x.isTrivia = false)
    (hcursor : s.cursor = (Cursor.ofTokens (scan whole hashComments) whole).rewind s.cursor.index) :
    ∃ p, s.Stretch whole (x :: l) p := by
  have hover : s.cursor.Over whole := by
    rw [hcursor]
    exact (Cursor.over_ofTokens hashComments whole).rewind _
  have hfront : s.cursor.front.toList = tokens hashComments whole := by
    rw [hcursor, ofTokens_eq]
    rfl
  obtain ⟨trivia, r, hsplit, htrivia, hr⟩ : ∃ trivia r, s.cursor.rest = trivia ++ r ∧
      visible trivia = [] ∧ r.map Token.piece = x :: l := by
    refine ⟨_, _, List.takeWhile_append_dropWhile (p := Token.isTrivia).symm, ?_, ?_⟩
    · exact visible_eq_nil fun t ht => List.mem_takeWhile_imp ht
    · have hrest := hface.rest
      rw [solid_cons_of_not_trivia hx, solid, List.dropWhile_map] at hrest
      exact hrest
  have htokens : tokens hashComments whole =
      (s.cursor.front.toList.take s.cursor.index ++ trivia) ++ r := by
    rw [← hfront, List.append_assoc, ← hsplit]
    exact (List.take_append_drop ..).symm
  obtain ⟨ks, ms, hlexemes, -, rfl⟩ := located_eq_append htokens
  rw [map_piece_located] at hr
  subst hr
  generalize hp : Position.advance {} (letters ks) = p at hsplit
  have hoffset : p.offset = (letters ks).length := by
    rw [← hp, Position.offset_advance]
    exact Nat.zero_add _
  refine ⟨p, ⟨trivia, hsplit, htrivia⟩, ?_, fun a ha => ?_, ?_⟩
  · refine Nat.le_of_not_lt fun hlt => ?_
    have hnil : s.cursor.rest = [] := List.drop_eq_nil_of_le (by simpa using Nat.le_of_lt hlt)
    rw [hnil] at hsplit
    exact absurd hsplit.symm (by simp [located])
  · have hpast : s.cursor.past = a.stop := by
      unfold Cursor.past
      rw [show s.cursor.previous = some a from ha]
      rfl
    have hcoming := coming_of_rest hface.hidden hsplit htrivia hx
    have hle := hover.past_le_coming
    omega
  · have hwhole : whole.toList = letters ks ++ letters (x :: l) := by
      rw [← letters_append, ← hlexemes, letters_lexemes]
    rw [finish, Position.offset_advance, hwhole, List.length_append, hoffset]
    exact Nat.zero_add _

theorem State.Amid.stretch (hs : s.Amid hashComments whole) (hface : s.Faces (x :: l))
    (hx : x.isTrivia = false) : ∃ p, s.Stretch whole (x :: l) p :=
  hface.stretch hx hs.cursor

/-- What may follow a pattern: nothing, or what does not go on with it. -/
def Bordered (more : List Piece) : Prop := more ≠ [] → nextKind more ∈ borderKinds

theorem bordered_nil : Bordered [] := fun h => absurd rfl h

theorem exists_visible_located (h : nextKind more ≠ .endOfInput) (p : Position) :
    ∃ b bs, visible (located p more) = b :: bs ∧ b.kind = nextKind more := by
  induction more generalizing p with
  | nil => exact absurd rfl h
  | cons y more ih =>
    obtain ⟨kind, cs⟩ := y
    have hpiece : (Token.at p kind cs).isTrivia = Piece.isTrivia (kind, cs) := rfl
    rw [located]
    cases hy : Piece.isTrivia (kind, cs) with
    | true =>
      rw [visible_cons_of_trivia (hpiece.trans hy)]
      have hnext : nextKind ((kind, cs) :: more) = nextKind more := by
        rw [nextKind, nextKind, solid_cons_of_trivia hy]
      rw [hnext] at h ⊢
      exact ih h _
    | false =>
      rw [visible_cons_of_not_trivia (hpiece.trans hy), nextKind_cons hy]
      exact ⟨_, _, rfl, rfl⟩

def transplant (hashComments : Bool) {whole text : String} {p : Position}
    (hstretch : s.Stretch whole (lexemes hashComments text.toList ++ more) p)
    (hmore : Bordered more) : Splice where
  likeness := further p.offset
  n := p.offset
  first := .ofTokens (scan whole hashComments) whole
  second := .ofTokens (scan text hashComments) text
  cut := more ≠ []
  borders := borderKinds
  behind := located (p.advance text.toList) more
  blanks := []
  copies := copies_further p.offset
  first_hidden := hidden_scan _
  second_hidden := hidden_scan _
  first_faithful := faithful_scan whole
  second_faithful := faithful_scan text
  visible_blanks := visible_nil
  whole hcut := by
    obtain rfl : more = [] := Classical.not_not.1 hcut
    have hfinish := hstretch.finish
    rw [List.append_nil, letters_lexemes] at hfinish
    have hplace : (finish whole).offset = (finish text).offset + p.offset := by
      rw [hfinish, finish, Position.offset_advance]
      show _ = 0 + _ + _
      rw [Nat.zero_add, Nat.add_comm]
    refine ⟨rfl, rfl, ?_⟩
    rw [ofTokens_eq, ofTokens_eq]
    exact ⟨rfl, rfl, hplace, hplace, trivial, trivial⟩
  border hcut := by
    have hborder := hmore hcut
    have hend : nextKind more ≠ .endOfInput := fun h => by
      rw [h] at hborder
      exact absurd hborder (by decide)
    obtain ⟨b, bs, hvisible, hkind⟩ := exists_visible_located hend (p.advance text.toList)
    exact ⟨b, bs, hvisible, hkind ▸ hborder⟩
  borders_subset := List.Subset.refl _

def State.unheard (s : State) : State := { s with collector := { sourceName := "" } }

/-- The state at the beginning of a text that is read in a rule, or in none, with nothing in its
collector and a given stack. -/
def State.ofFragment (stack : Stack) (settings : Settings) (text : String)
    (ruleName : Option String) : State :=
  { (State.ofText stack.frames settings "" text).unheard with stack, ruleName }

theorem State.Amid.beside (hs : s.Amid hashComments whole) :
    s.Beside Collector.Uncaps s.unheard where
  cursor := rfl
  collector := ⟨rfl, hs.recovering.symm, hs.received.symm⟩
  stack := rfl
  package := rfl
  trials := rfl
  ruleName := rfl
  lastRecovery := rfl

theorem State.Stretch.index_le_front (hstretch : s.Stretch whole l p)
    (hcursor : s.cursor = (Cursor.ofTokens (scan whole hashComments) whole).rewind s.cursor.index) :
    s.cursor.index ≤ (Cursor.ofTokens (scan whole hashComments) whole).front.size := by
  have hfront : s.cursor.front = (Cursor.ofTokens (scan whole hashComments) whole).front := by
    rw [hcursor]
    rfl
  exact hfront ▸ hstretch.index_le

theorem left_transplant (settings : Settings) (stack : Stack) (ruleName : Option String)
    {text : String} {p : Position}
    (hstretch : s.Stretch whole (lexemes settings.hashComments text.toList ++ more) p)
    (hmore : Bordered more) :
    (transplant settings.hashComments hstretch hmore).Left s.cursor.rest
      (State.ofFragment stack settings text ruleName).cursor.rest := by
  obtain ⟨trivia, hrest, htrivia⟩ := hstretch.rest
  rw [located_append, letters_lexemes] at hrest
  have halone := rest_ofText stack.frames settings "" text
  have hleft := forall₂_located (n := p.offset) (q := {}) (Nat.zero_add _).symm
    (lexemes settings.hashComments text.toList)
  exact ⟨trivia, [], _, _, htrivia, rfl, hrest, halone, _, _, hleft, rfl, (List.append_nil _).symm⟩

theorem abreast_transplant {settings : Settings} {text : String} {p : Position}
    (hs : s.Amid settings.hashComments whole)
    (hstretch : s.Stretch whole (lexemes settings.hashComments text.toList ++ more) p)
    (hmore : Bordered more) :
    (transplant settings.hashComments hstretch hmore).readings.Abreast s.unheard
      (.ofFragment s.stack settings text none) where
  first := hs.cursor
  second := (amid_ofText s.stack.frames settings "" text).cursor
  first_le := hstretch.index_le_front hs.cursor
  second_le := by
    show (State.ofText s.stack.frames settings "" text).cursor.index ≤ _
    rw [index_ofText]
    exact Nat.zero_le _
  left := left_transplant settings s.stack none hstretch hmore
  after h := by
    have hnone : (State.ofFragment s.stack settings text none).cursor.previous = none :=
      previous_ofText s.stack.frames settings "" text
    rw [hnone] at h
    cases h
  previous := .inr ⟨previous_ofText s.stack.frames settings "" text, hstretch.past_le⟩
  trials := hs.trials
  stack := rfl
  ruleName := hs.ruleName
  package := by
    show Package.Like _ s.package {}
    rw [hs.package]
    exact .empty trivial trivial rfl
  recovered := by
    show Readings.Recovered s.lastRecovery none _ _
    rw [hs.lastRecovery]
    exact .none _ _
  reported := ⟨rfl, rfl, rfl, rfl, .nil⟩
  clean _ := by
    refine ⟨rfl, fun _ h => ?_, hs.lastRecovery⟩
    rcases h with h | h <;> cases h

/-- Where there are so many frames, a production takes all of a text, with the result `a` and
without complaint. -/
def Accepts {α : Type} (frames : Nat) (settings : Settings) (q : Parser α) (text : String) (a : α) :
    Prop :=
  ∃ t, q (.ofText frames settings "" text) = .ok a t ∧ t.cursor.ahead = [] ∧
    t.collector.received = 0

section Accepts

variable {α : Type} {frames frames' : Nat} {settings : Settings} {q : Parser α}
  {text : String} {a : α}

theorem Accepts.mono [Composed q] (h : Accepts frames settings q text a) (hle : frames ≤ frames') :
    Accepts frames' settings q text a := by
  obtain ⟨t, ht, hahead, hreceived⟩ := h
  obtain ⟨u, hu, htu⟩ := (cramped_ofText hle settings "" text).exists_ok ht hreceived
  exact ⟨u, hu, htu.cursor ▸ hahead,
    (congrArg Collector.received htu.collector).symm.trans hreceived⟩

/-- What is accepted is read alike by a production within others that has as many frames left. -/
theorem Accepts.exists_fragment [Composed q] (h : Accepts frames settings q text a) {stack : Stack}
    (hroom : frames ≤ stack.room) :
    ∃ t, q (.ofFragment stack settings text none) = .ok a t ∧ t.cursor.ahead = [] ∧
      t.collector.received = 0 := by
  obtain ⟨t, ht, hahead, hreceived⟩ := h
  obtain ⟨u, hu, htu⟩ :=
    (amid_ofText frames settings "" text).beside.exists_ok Collector.congruence_uncaps ht
  have hcramped : (State.ofText frames settings "" text).unheard.Cramped
      (.ofFragment stack settings text none) :=
    ⟨rfl, rfl, ⟨Nat.le_trans hroom stack.room_le, hroom⟩, rfl, rfl, rfl, rfl⟩
  have hzero : u.collector.received = 0 := htu.collector.received.trans hreceived
  obtain ⟨v, hv, huv⟩ := hcramped.exists_ok hu hzero
  exact ⟨v, hv, by rw [← huv.cursor, ← htu.cursor]; exact hahead,
    (congrArg Collector.received huv.collector).symm.trans hzero⟩

/-- What takes all of a text within other productions takes it where nothing of the stack is
taken. -/
theorem Accepts.of_fragment [Composed q] {stack : Stack} {v : State}
    (h : q (.ofFragment stack settings text none) = .ok a v) (hahead : v.cursor.ahead = [])
    (hreceived : v.collector.received = 0) : Accepts stack.frames settings q text a := by
  have hcramped : (State.ofFragment stack settings text none).Cramped
      (State.ofText stack.frames settings "" text).unheard :=
    ⟨rfl, rfl, ⟨Nat.le_refl _, stack.room_le⟩, rfl, rfl, rfl, rfl⟩
  obtain ⟨x, hx, hvx⟩ := hcramped.exists_ok h hreceived
  obtain ⟨y, hy, hbeside⟩ :=
    (amid_ofText stack.frames settings "" text).beside.exists_ok_first Collector.congruence_uncaps
      hx
  refine ⟨y, hy, ?_, ?_⟩
  · rw [hbeside.cursor, ← hvx.cursor]
    exact hahead
  · rw [← hbeside.collector.received, ← hvx.collector]
    exact hreceived

end Accepts

theorem solid_append_of_visible {ts us : List Token} (h : visible ts = []) :
    solid ((ts ++ us).map Token.piece) = solid (us.map Token.piece) := by
  rw [List.map_append, solid, List.dropWhile_append_of_pos]
  · rfl
  · intro y hy
    obtain ⟨token, htoken, rfl⟩ := List.mem_map.1 hy
    exact isTrivia_of_visible_eq_nil h token htoken

theorem State.Faces.of_abreast {S : Splice} (h : S.readings.Abreast s t)
    (hahead : t.cursor.ahead = []) {p : Position} (hbehind : S.behind = located p more) :
    s.Faces more := by
  obtain ⟨y, z, r, r', hy, -, hr, hr', v, w, hvw, rfl, rfl⟩ := h.left
  have hw : visible w = [] := by
    have hend : visible t.cursor.rest = [] := hahead
    rw [hr', visible_append, visible_append] at hend
    exact (List.append_eq_nil_iff.1 (List.append_eq_nil_iff.1 hend).2).1
  have hv : visible v = [] := by
    have hlike := visible_like hvw
    rw [hw] at hlike
    exact List.forall₂_nil_right_iff.1 hlike
  refine ⟨h.first_hidden, ?_⟩
  rw [hr, hbehind, ← List.append_assoc,
    solid_append_of_visible (by rw [visible_append, hy, hv]; rfl), map_piece_located]

theorem errors_of_received {c : Collector} (h : c.received = 0) : c.errors = [] := by
  unfold Collector.received at h
  exact List.length_eq_zero_iff.1 (by omega)

/-- What is accepted alone is taken wherever it is written and there are as many frames left. -/
theorem parses_accepted {frames : Nat} {settings : Settings} {q : Parser Pattern} [Orderly q]
    [Composed q] [Inert q] (htwin : ∀ T : Readings, Twin T (Pattern.Like T.likeness) q q)
    {text : String} {a : Pattern} (haccepts : Accepts frames settings q text a)
    (hlexemes : lexemes settings.hashComments text.toList = x :: l) (hx : x.isTrivia = false)
    (hmore : Bordered more) :
    Parses (State.Roomy (State.Amid settings.hashComments whole) frames) q
      (lexemes settings.hashComments text.toList) more fun b => ∃ n, b.Like (further n) a := by
  intro s hs hface
  obtain ⟨hs, hroom⟩ := hs
  obtain ⟨p, hstretch⟩ := hs.stretch (x := x) (l := l ++ more) (by rwa [hlexemes] at hface) hx
  rw [← List.cons_append, ← hlexemes] at hstretch
  obtain ⟨t, ht, hahead, hreceived⟩ := haccepts.exists_fragment hroom
  have hclean : t.collector.errors = [] := errors_of_received hreceived
  cases htwin _ (abreast_transplant hs hstretch hmore) with
  | @ok b a' u v hu hv hab huv =>
    obtain ⟨w, hw, hbeside'⟩ := hs.beside.exists_ok_first Collector.congruence_uncaps hu
    rw [ht] at hv
    cases hv
    have hzero : u.collector.received = 0 := by
      refine (Collector.received_eq_zero_iff
        ((Orderly.evolves_ok q hu).collector.honest fun _ h => ?_) huv.reported.first_uncapped).2 ?_
      · rcases h with h | h <;> cases h
      · have herrors := huv.reported.errors
        rw [hclean, Likeness.kept_eq _ fun _ => rfl, Likeness.kept_eq _ fun _ => rfl] at herrors
        exact List.forall₂_nil_right_iff.1 herrors
    have hfaces : u.Faces more := .of_abreast huv hahead rfl
    refine ⟨b, w, hw, ⟨p.offset, hab⟩, ⟨?_, ?_⟩, ?_⟩
    · rw [hbeside'.cursor]
      exact hfaces.hidden
    · rw [hbeside'.cursor]
      exact hfaces.rest
    · exact .of_unreported hs.trials hs.ruleName hw
        ((hbeside'.collector.received.symm.trans hzero).trans hs.received.symm)
  | error _ hv =>
    rw [ht] at hv
    cases hv
  | astray _ hdoomed =>
    rw [ht] at hdoomed
    rcases hdoomed with hdead | ⟨-, hno⟩
    · exact absurd hclean hdead
    · exact hno.elim

end Parser

end Rulebook
