import Rulebook.Proofs.Offsets
import Mathlib.Data.List.Chain

/-!
# A scan loses nothing

The tokens of a text cover it from its first character to its last: each begins where the one
before it ends, holds just the characters between its two offsets, and knows its line and its
column. The mark of the end is the last token and the only one without characters.
-/

namespace Rulebook

variable {hashComments : Bool}

theorem head?_located_append {p : Position} {ls : List (TokenKind × List Char)} {last t : Token}
    (hlast : last.start = p.offset + (letters ls).length)
    (h : (located p ls ++ [last]).head? = some t) : t.start = p.offset := by
  cases ls with
  | nil =>
    cases h
    exact hlast
  | cons l ls =>
    cases h
    rfl

/-- Tokens from a place on adjoin, and what stands behind them adjoins them. -/
theorem isChain_located {p : Position} {ls : List (TokenKind × List Char)} {last : Token}
    (hlast : last.start = p.offset + (letters ls).length) :
    (located p ls ++ [last]).IsChain (fun t u => t.stop = u.start) := by
  induction ls generalizing p with
  | nil => exact .singleton last
  | cons l ls ih =>
    have hoffset : (p.advance l.2).offset = p.offset + l.2.length := Position.offset_advance p l.2
    have hrest : last.start = (p.advance l.2).offset + (letters ls).length := by
      rw [letters_cons, List.length_append] at hlast
      omega
    have hjoin : ∀ u, (located (p.advance l.2) ls ++ [last]).head? = some u →
        (Token.at p l.1 l.2).stop = u.start :=
      fun u hu => (head?_located_append hrest hu).symm
    exact List.isChain_cons.2 ⟨hjoin, ih hrest⟩

theorem start_finish (text : String) : (Token.endOfInput (finish text)).start = text.length := by
  show (Position.advance {} text.toList).offset = text.length
  rw [Position.advance_eq, String.length_toList]

theorem slice_of_mem_tokens {text : String} {t : Token} (h : t ∈ tokens hashComments text) :
    t.text = Text.slice text t.start t.stop := by
  obtain ⟨before, behind, hsplit⟩ := List.append_of_mem h
  obtain ⟨ks, ms, hls, -, hms⟩ := located_eq_append hsplit
  cases ms with
  | nil => cases hms
  | cons m ms =>
    obtain ⟨ht, -⟩ := List.cons.inj hms
    subst ht
    have hstart : (Position.advance {} (letters ks)).offset = (letters ks).length := by
      rw [Position.advance_eq]
    have hstop : ((Position.advance {} (letters ks)).advance m.2).offset =
        (letters ks).length + m.2.length := by
      rw [Position.offset_advance, hstart]
    have htext : text.toList = (letters ks ++ m.2) ++ letters ms := by
      rw [← @letters_lexemes hashComments text.toList, hls, letters_append, letters_cons,
        List.append_assoc]
    apply String.toList_injective
    show (String.ofList m.2).toList = _
    rw [Text.toList_slice, String.toList_ofList]
    show m.2 = (text.toList.take ((Position.advance {} (letters ks)).advance m.2).offset).drop
      (Position.advance {} (letters ks)).offset
    rw [hstart, hstop, htext, ← List.length_append, List.take_left, List.drop_left]

theorem slice_self (text : String) (n : Nat) : Text.slice text n n = "" := by
  apply String.toList_injective
  rw [Text.toList_slice]
  apply List.drop_eq_nil_of_le
  rw [List.length_take]
  omega

theorem spell_tokens (text : String) : spell (tokens hashComments text) = text := by
  rw [tokens, spell_located, letters_lexemes, String.ofList_toList]

theorem kind_ne_of_mem_tokens {text : String} {t : Token} (h : t ∈ tokens hashComments text) :
    t.kind ≠ .endOfInput := by
  obtain ⟨cs, hmem, -⟩ := kind_text_of_located h
  obtain ⟨c, rest, hkind, -⟩ := lexeme_of_mem hmem
  rw [hkind]
  exact kind_lexeme_ne hashComments c rest

theorem text_ne_of_mem_tokens {text : String} {t : Token} (h : t ∈ tokens hashComments text) :
    t.text ≠ "" := by
  obtain ⟨cs, hmem, htext⟩ := kind_text_of_located h
  have hne : cs ≠ [] := ne_nil_of_mem_lexemes hmem
  rw [htext]
  intro hempty
  apply hne
  rw [← String.toList_ofList (l := cs), hempty]
  rfl

theorem scan_lossless (text : String) (hashComments : Bool) :
    ∃ front last, scan text hashComments = front ++ [last] ∧
      last.kind = .endOfInput ∧ last.start = text.length ∧ last.stop = text.length ∧
      (∀ t ∈ front, t.kind ≠ .endOfInput ∧ t.text ≠ "") ∧
      (∀ t, (scan text hashComments).head? = some t → t.start = 0) ∧
      (scan text hashComments).IsChain (fun t u => t.stop = u.start) ∧
      (∀ t ∈ scan text hashComments, t.text = Text.slice text t.start t.stop ∧
        t.line = lineAt text t.start ∧ t.column = columnAt text t.start) ∧
      spell (scan text hashComments) = text := by
  have hend : (Token.endOfInput (finish text)).start =
      ({} : Position).offset + (letters (lexemes hashComments text.toList)).length := by
    rw [start_finish, letters_lexemes, String.length_toList]
    exact (Nat.zero_add _).symm
  refine ⟨tokens hashComments text, Token.endOfInput (finish text), scan_eq text, rfl,
    start_finish text, start_finish text, ?_, ?_, ?_, ?_, ?_⟩
  · intro t ht
    exact ⟨kind_ne_of_mem_tokens ht, text_ne_of_mem_tokens ht⟩
  · intro t ht
    rw [scan_eq] at ht
    exact head?_located_append hend ht
  · rw [scan_eq]
    exact isChain_located hend
  · intro t ht
    rw [scan_eq] at ht
    rcases List.mem_append.1 ht with hfront | hlast
    · have hstands := (standsIn_of_mem_tokens hfront).1
      exact ⟨slice_of_mem_tokens hfront, hstands.line, hstands.column⟩
    · have hstands := standsIn_finish text
      rw [List.mem_singleton.1 hlast]
      exact ⟨(slice_self text _).symm, hstands.line, hstands.column⟩
  · rw [scan_eq, spell_append, spell_tokens, spell_cons, spell_nil]
    exact String.append_empty

end Rulebook
