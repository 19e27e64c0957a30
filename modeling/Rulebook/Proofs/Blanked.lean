import Rulebook.Proofs.Dividers

/-!
# A space in the place of a parenthesis

A closing parenthesis is a token wherever it is none of a string or a comment. Where a space takes
its place, the tokens before it and behind it stay as they are and where they are; only blanks
beside it go with the space.
-/

namespace Rulebook

open Lexeme

variable {hashComments : Bool} {cs : List Char} {text : String}

/-- A text with a space in the place of the character at an offset. -/
def blanked (text : String) (n : Nat) : String := String.ofList (text.toList.set n ' ')

/-- Around a closing parenthesis a text is scanned alike if a space is in its place. -/
theorem lexemes_blanked {ls ms : List (TokenKind × List Char)}
    (h : lexemes hashComments cs = ls ++ (.symbol .rparen, [')']) :: ms) :
    ∃ ks blanks us rest, ls = ks ++ blank blanks ∧ ms = blank us ++ rest ∧
      lexemes hashComments (letters ls ++ ' ' :: letters ms) =
        ks ++ (.trivia .whitespace, blanks ++ ' ' :: us) :: rest := by
  rw [List.append_cons] at h
  have hclosed := lexemes_before h
  have hls : lexemes hashComments (letters ls) = ls := lexemes_before hclosed
  have hms : lexemes hashComments (letters ms) = ms := lexemes_behind h
  rw [letters_append, letters_cons, letters_nil, List.append_nil] at hclosed
  have hlast : ∀ l, (lexemes hashComments (letters ls)).getLast? = some l →
      l.1 = .trivia .whitespace ∨ Ended ' ' l := fun l hl => by
    have hended := ended_of_concat (by rw [hclosed, List.getLast?_concat]; rfl) hl
    by_cases hblank : l.1 = .trivia .whitespace
    · exact .inl hblank
    · exact .inr ⟨fun hk => absurd hk hblank, fun hk => absurd (hended.lineComment hk) (by decide),
        hended.blockComment, hended.string⟩
  obtain ⟨ks, blanks, hks, hjoined⟩ := lexemes_joined (by decide) (by decide) (letters ms) hlast
  refine ⟨ks, blanks, _, _, hls.symm.trans hks, ?_, hjoined⟩
  rw [← lexemes_eq_blank_append, hms]

/-- Where a space takes the place of a closing parenthesis, the other tokens that are no trivia stay
where they are. -/
theorem tokens_blanked {x z : List Token} {closing : Token}
    (h : tokens hashComments text = x ++ closing :: z) (hk : closing.kind = .symbol .rparen) :
    ∃ y u v w r, x = y ++ u ∧ z = v ++ r ∧ visible u = [] ∧ visible v = [] ∧ visible w = [] ∧
      tokens hashComments (blanked text closing.start) = y ++ (w ++ r) := by
  have hsymbol := text_of_symbol_kind (h ▸ List.mem_append_right x List.mem_cons_self) hk
  obtain ⟨ls, ps, hlexemes, rfl, hrest⟩ := located_eq_append h
  cases ps with
  | nil => cases hrest
  | cons k ms =>
  obtain ⟨kind, rparen⟩ := k
  rw [located, List.cons.injEq] at hrest
  obtain ⟨rfl, rfl⟩ := hrest
  obtain rfl : kind = .symbol .rparen := hk
  obtain rfl : rparen = [')'] := by
    have hchars :=
      congrArg String.toList (show String.ofList rparen = Symbol.rparen.text from hsymbol)
    rwa [String.toList_ofList] at hchars
  obtain ⟨ks, blanks, us, rest, rfl, rfl, hblanked⟩ := lexemes_blanked hlexemes
  have htext : (blanked text (Position.advance {} (letters (ks ++ blank blanks))).offset).toList =
      letters (ks ++ blank blanks) ++ ' ' :: letters (blank us ++ rest) := by
    have hletters := @letters_lexemes hashComments text.toList
    rw [hlexemes, letters_append, letters_cons, List.singleton_append] at hletters
    unfold blanked
    rw [String.toList_ofList, ← hletters, Position.offset_advance, Nat.zero_add,
      List.set_append_right _ _ (Nat.le_refl _), Nat.sub_self]
    rfl
  -- a space and a parenthesis are as long
  have hplace : ∀ p : Position, p.advance (' ' :: us) = (p.advance [')']).advance us := fun p => by
    rw [Position.advance_cons]
    rfl
  refine ⟨located {} ks, _, _, located (Position.advance {} (letters ks))
    [(.trivia .whitespace, blanks ++ ' ' :: us)], _, located_append .., located_append ..,
    visible_located_blank _ _, visible_located_blank _ _, rfl, ?_⟩
  show tokens hashComments
    (blanked text (Position.advance {} (letters (ks ++ blank blanks))).offset) = _
  rw [tokens, htext, hblanked, located_append, List.append_cancel_left_eq, located, letters_append,
    letters_blank, letters_blank, Position.advance_append, Position.advance_append, hplace]
  rfl

end Rulebook
