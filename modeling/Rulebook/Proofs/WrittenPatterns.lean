import Rulebook.Proofs.Behind
import Rulebook.Proofs.Bounds
import Rulebook.Proofs.Endings
import Rulebook.Proofs.Transplants
import Rulebook.Proofs.Words

/-!
# Written patterns

The text of a pattern that is read alone, completely and without complaint. Wherever it is written,
the same pattern is read there.
-/

namespace Rulebook

open Lexeme
open Rulebook.Parser

namespace Parser

variable {s t : State}

def Gives {α : Type} (Q : α → Prop) (p : Parser α) : Prop := ∀ ⦃s t a⦄, p s = .ok a t → Q a

namespace Gives

variable {α β : Type} {Q : β → Prop}

theorem pure {b : β} (hb : Q b) : Gives Q (pure b) := fun s t a h => by
  cases h
  exact hb

theorem bind (p : Parser α) {f : α → Parser β} (hf : ∀ a, Gives Q (f a)) : Gives Q (p >>= f) := by
  intro s u b h
  obtain ⟨a, t, -, hu⟩ := bind_eq_ok.1 h
  exact hf a hu

theorem map (p : Parser α) {f : α → β} (hf : ∀ a, Q (f a)) : Gives Q (f <$> p) := by
  rw [map_eq_bind]
  exact bind p fun a => pure (hf a)

theorem fromSource (pattern : Parser Pattern) :
    Gives (· ≠ .workingMemory) (fromSource pattern) := by
  have hretrieval : Gives (· ≠ .workingMemory) (Source.retrieval <$> Parser.retrieval) :=
    map _ fun _ => nofun
  have haccumulate : Gives (· ≠ .workingMemory) (accumulate pattern) := by
    unfold accumulate accumulateBody
    repeat' refine bind _ fun _ => ?_
    exact pure nofun
  have hcollect : Gives (· ≠ .workingMemory) (collect pattern) := by
    unfold collect collectBody
    repeat' refine bind _ fun _ => ?_
    exact pure nofun
  unfold Parser.fromSource
  refine bind _ fun _ => bind _ fun accumulates => ?_
  split
  · refine bind _ fun succeeds => ?_
    split
    · exact haccumulate
    · exact hretrieval
  · refine bind _ fun collects => ?_
    split
    · refine bind _ fun succeeds => ?_
      split
      · exact hcollect
      · exact hretrieval
    · exact hretrieval

end Gives

/-- A pattern that is read without a source is read alike by the production for those. -/
theorem Accepts.sourceless {frames : Nat} {settings : Settings} {text : String} {a : Pattern}
    (h : Accepts frames settings sourcedPattern text a) (ha : a.source = .workingMemory) :
    Accepts frames settings factPattern text a := by
  obtain ⟨t, ht, hahead, hreceived⟩ := h
  obtain ⟨p, u, hu, hrest⟩ := bind_eq_ok.1 (show patternWithin (frames + 1) _ = _ from ht)
  obtain ⟨from_, v, hv, hrest⟩ := bind_eq_ok.1 hrest
  cases hv
  split at hrest
  · obtain ⟨source, v, hsource, hattach⟩ := bind_eq_ok.1 hrest
    cases hattach
    exact absurd ha (Gives.fromSource _ hsource)
  · cases hrest
    exact ⟨_, hu, hahead, hreceived⟩

theorem Accepts.plain {frames : Nat} {settings : Settings} {text : String} {a : Pattern}
    (h : Accepts frames settings sourcedPattern text a) :
    ∀ t ∈ (visible (tokens settings.hashComments text)).getLast?, t.kind ≠ .literal .string := by
  obtain ⟨t, ht, hahead, hreceived⟩ := h
  obtain ⟨t', ht', hbeside⟩ :=
    (amid_ofText frames settings "" text).beside.exists_ok Collector.congruence_uncaps ht
  have hsource : (Cursor.ofTokens (scan text settings.hashComments) text).Within
      (tokens settings.hashComments text).toArray := by
    rw [ofTokens_eq]
    exact ⟨rfl, Nat.zero_le _⟩
  have hwithin := Composed.within (p := sourcedPattern) inferInstance
    (s := (State.ofText frames settings "" text).unheard) hsource
  rw [after_of_ok ht'] at hwithin
  have hbehind : t'.cursor.behind = visible (tokens settings.hashComments text) := by
    have happend := t'.cursor.behind_append_ahead
    rw [← hbeside.cursor, hahead, List.append_nil, hbeside.cursor, hwithin.front] at happend
    exact happend
  have hopen : (State.ofText frames settings "" text).unheard.Open := by
    refine ⟨⟨(faces_ofText frames settings "" text).hidden, rfl, fun _ h => ?_⟩, rfl⟩
    rcases h with h | h <;> cases h
  have hplain := EndsPlain.sourcedPattern hopen ht'
    fun hdead => hdead (errors_of_received (hbeside.collector.received.trans hreceived))
  unfold State.Plain at hplain
  rw [Cursor.previous_eq_getLast? (by rw [hwithin.front]; exact hwithin.index), hbehind] at hplain
  exact hplain

end Parser

def accepted? {α : Type} (frames : Nat) (settings : Settings) (q : Parser α) (text : String) :
    Option α :=
  match q (.ofText frames settings "" text) with
  | .ok a t => if t.cursor.ahead = [] ∧ t.collector.received = 0 then some a else none
  | .error _ _ => none

theorem accepts_of_accepted? {α : Type} {frames : Nat} {settings : Settings} {q : Parser α}
    {text : String} {a : α} (h : accepted? frames settings q text = some a) :
    Accepts frames settings q text a := by
  unfold accepted? at h
  cases hq : q (.ofText frames settings "" text) with
  | error e t =>
    rw [hq] at h
    cases h
  | ok b t =>
    rw [hq] at h
    obtain ⟨haccepts, hb⟩ := Option.ite_none_right_eq_some.1 h
    cases hb
    exact ⟨t, hq, haccepts⟩

/-! ### Texts of patterns -/

def Divided (rest : List Char) : Prop := ∀ d ∈ rest.head?, d ∈ dividers

theorem Divided.cons {d : Char} (hd : d ∈ dividers) (rest : List Char) : Divided (d :: rest) :=
  fun e he => by cases he; exact hd

/-- The text of a pattern, which begins with an identifier and does not end with trivia, and as many
frames as it takes to read it. -/
structure PatternText (settings : Settings) where
  text : String
  pattern : Pattern
  frames : Nat
  accepted : Accepts frames settings sourcedPattern text pattern
  first : (lexemes settings.hashComments text.toList).head?.map Prod.fst = some .identifier
  last : ∀ x ∈ (lexemes settings.hashComments text.toList).getLast?, x.1.isTrivia = false

namespace PatternText

def ofAccepted (frames : Nat) (settings : Settings) (text : String)
    (h : (accepted? frames settings sourcedPattern text).isSome = true)
    (first : (lexemes settings.hashComments text.toList).head?.map Prod.fst = some .identifier)
    (last : ∀ x ∈ (lexemes settings.hashComments text.toList).getLast?, x.1.isTrivia = false) :
    PatternText settings where
  text := text
  pattern := (accepted? frames settings sourcedPattern text).get h
  frames := frames
  accepted := accepts_of_accepted? (Option.some_get h).symm
  first := first
  last := last

variable {settings : Settings} (p : PatternText settings)

def pieces : List Piece := lexemes settings.hashComments p.text.toList

theorem letters_pieces : letters p.pieces = p.text.toList := letters_lexemes _

theorem exists_pieces : ∃ x l, p.pieces = x :: l ∧ x.1 = .identifier := by
  have hfirst := p.first
  unfold pieces
  cases h : lexemes settings.hashComments p.text.toList with
  | nil => rw [h] at hfirst; cases hfirst
  | cons x l =>
    rw [h] at hfirst
    exact ⟨x, l, rfl, Option.some.inj hfirst⟩

theorem nextKind_pieces (l : List Piece) : nextKind (p.pieces ++ l) = .identifier := by
  obtain ⟨x, m, hpieces, hx⟩ := p.exists_pieces
  rw [hpieces, List.cons_append, nextKind_cons (by rw [Piece.isTrivia, hx]; rfl), hx]

/-- A pattern is scanned as it would be alone where a divider follows. -/
theorem scans {rest : List Char} (h : Divided rest) :
    Scans settings.hashComments p.pieces rest := by
  unfold Scans
  rw [letters_pieces]
  cases rest with
  | nil => rw [List.append_nil, lexemes, List.append_nil, pieces]
  | cons d ds =>
    refine lexemes_divided (h d rfl) ds fun x hx => ?_
    have htrivia := p.last x hx
    refine .of_kind htrivia fun hstring => ?_
    obtain ⟨t, ht, hkind, -⟩ := getLast?_located (p := {}) hx
    obtain ⟨ts, hts⟩ := List.getLast?_eq_some_iff.1 ht
    refine p.accepted.plain t ?_ (hkind.trans hstring)
    rw [tokens, hts, visible_append, visible_cons_of_not_trivia]
    · exact List.getLast?_concat
    · rw [Token.isTrivia, hkind]
      exact htrivia

variable {whole : String} {more : List Piece}

/-- Something that was read is the pattern of the text, further down. -/
def Describes (b : Pattern) : Prop := ∃ n, b.Like (further n) p.pattern

theorem parses (hmore : Bordered more) :
    Parses (State.Roomy (State.Amid settings.hashComments whole) p.frames) sourcedPattern
      p.pieces more p.Describes := by
  obtain ⟨x, l, hpieces, hx⟩ := p.exists_pieces
  exact parses_accepted (fun _ => .sourcedPattern) p.accepted hpieces
    (by rw [Piece.isTrivia, hx]; rfl) hmore

theorem parses_sourceless (hsource : p.pattern.source = .workingMemory) (hmore : Bordered more) :
    Parses (State.Roomy (State.Amid settings.hashComments whole) p.frames) factPattern p.pieces more
      p.Describes := by
  obtain ⟨x, l, hpieces, hx⟩ := p.exists_pieces
  exact parses_accepted (fun _ => .factPattern) (p.accepted.sourceless hsource) hpieces
    (by rw [Piece.isTrivia, hx]; rfl) hmore

end PatternText

end Rulebook
