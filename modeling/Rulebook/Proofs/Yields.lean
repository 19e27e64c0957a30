import Rulebook.Proofs.Provides
import Rulebook.Proofs.Lossless

/-!
# What productions yield

A property of what a production yields from any state over the tokens of a text. The tokens are
genuine: keywords are spelled as such, and only the mark of the end is empty.
-/

namespace Rulebook

variable {hashComments : Bool} {text : String}

/-! ### Tokens of a scan -/

/-- A token as a scan makes it: keywords are spelled as such, and only the mark of the end is
empty. -/
structure Token.Genuine (t : Token) : Prop where
  keyword : ∀ k, t.kind = .keyword k → t.text = k.text
  nonempty : t.kind ≠ .endOfInput → t.text ≠ ""

theorem text_of_hyphenated? {word : String} {left ending left' : List Char} {k : Keyword}
    (h : Lexeme.hyphenated? word left = some (k, ending, left')) :
    word.toList ++ ending = k.text.toList := by
  have htable : ∀ x ∈ Lexeme.hyphenated, x.1.toList ++ x.2.1.toList = x.2.2.text.toList := by
    decide
  have htext := htable _ (Lexeme.hyphenated?_some h).1
  rwa [String.toList_ofList] at htext

theorem text_of_wordKind {word : String} {k : Keyword} (h : Lexeme.wordKind word = .keyword k) :
    word = k.text := by
  unfold Lexeme.wordKind at h
  split at h
  · cases h
  · split at h
    · cases h
    · split at h
      · next hk =>
        cases h
        exact (Keyword.text_of_ofText? hk).symm
      · cases h

theorem text_of_word {c : Char} {rest : List Char} {k : Keyword}
    (h : (Lexeme.word c rest).kind = .keyword k) :
    String.ofList (c :: (Lexeme.word c rest).tail) = k.text := by
  unfold Lexeme.word at h ⊢
  dsimp only at h ⊢
  split at h
  · next hhyphenated =>
    cases h
    have htext := text_of_hyphenated? hhyphenated
    rw [String.toList_ofList] at htext
    apply String.toList_injective
    rw [String.toList_ofList, ← htext, List.cons_append]
  · exact text_of_wordKind h

theorem text_of_keyword {c : Char} {rest : List Char} {k : Keyword}
    (h : (lexeme hashComments c rest).kind = .keyword k) :
    String.ofList (c :: (lexeme hashComments c rest).tail) = k.text := by
  have hl := Lexeme.scanned hashComments c rest
  generalize lexeme hashComments c rest = l at h hl ⊢
  cases hl with
  | word => exact text_of_word h
  | symbol _ _ _ _ hsymbol =>
    obtain ⟨_, hsymbol⟩ := Lexeme.kind_of_symbol? hsymbol
    cases hsymbol.symm.trans h
  | _ => cases h

theorem genuine_of_mem_tokens {t : Token} (h : t ∈ tokens hashComments text) : t.Genuine where
  keyword k hk := by
    obtain ⟨cs, hmem, htext⟩ := kind_text_of_located h
    obtain ⟨c, rest, hkind, rfl⟩ := lexeme_of_mem hmem
    rw [htext]
    exact text_of_keyword (hkind.symm.trans hk)
  nonempty _ := text_ne_of_mem_tokens h

theorem genuine_endOfInput (p : Position) : (Token.endOfInput p).Genuine where
  keyword _ hk := by cases hk
  nonempty hne := absurd rfl hne

theorem Token.Genuine.text_mem {t : Token} (h : t.Genuine) (ks : List Keyword)
    (hk : t.kind ∈ ks.map TokenKind.keyword) : t.text ∈ ks.map (·.text) := by
  obtain ⟨k, hmem, hkind⟩ := List.mem_map.1 hk
  rw [h.keyword k hkind.symm]
  exact List.mem_map_of_mem hmem

namespace Cursor

structure Scans (text : String) (c : Cursor) : Prop extends c.Over text where
  genuine : ∀ i, (c.tokenAt i).Genuine
  source : c.source = text.toList.toArray

theorem genuine_tokenAt {c : Cursor} (hfront : c.front.toList = tokens hashComments text)
    (i : Nat) : (c.tokenAt i).Genuine := by
  by_cases hi : i < c.front.size
  · have hget : c.tokenAt i = c.front[i] := by simp [tokenAt, Array.getD, hi]
    have hmem : c.tokenAt i ∈ tokens hashComments text := by
      rw [← hfront, hget]
      exact Array.getElem_mem_toList hi
    exact genuine_of_mem_tokens hmem
  · rw [tokenAt_of_le (Nat.le_of_not_lt hi)]
    exact genuine_endOfInput _

theorem scans_ofTokens (hashComments : Bool) (text : String) :
    (Cursor.ofTokens (scan text hashComments) text).Scans text := by
  have hover := over_ofTokens hashComments text
  rw [ofTokens_eq] at hover ⊢
  exact ⟨hover, genuine_tokenAt rfl, rfl⟩

namespace Scans

variable {c : Cursor}

theorem rewind (h : c.Scans text) (n : Nat) : (c.rewind n).Scans text :=
  ⟨h.toOver.rewind n, h.genuine, h.source⟩

theorem slice (h : c.Scans text) (a b : Nat) : c.text a b = Text.slice text a b := by
  have hsource : c.text a b = (ofTokens [] text).text a b := by
    unfold Cursor.text
    rw [h.source]
    rfl
  rw [hsource, text_ofTokens]

end Scans

end Cursor

namespace Parser

variable {α β : Type} {P : α → Prop} {Q : β → Prop} {s t : State} {p : Parser α}

theorem State.Evolves.scans (h : s.Evolves t) (hs : s.cursor.Scans text) :
    t.cursor.Scans text := by
  rw [h.cursor]
  exact hs.rewind _

theorem scans_ok [Orderly p] {a : α} (hs : s.cursor.Scans text) (h : p s = .ok a t) :
    t.cursor.Scans text :=
  (Orderly.evolves_ok p h).scans hs

/-! ### What productions yield -/

instance : Enduring fun s _ : State => s.cursor.Scans text where
  part hs hst _ _ := hst.scans hs
  named _ hs := hs
  within _ hs := hs

abbrev Yields (text : String) (P : α → Prop) (p : Parser α) : Prop :=
  Provides (fun s _ => s.cursor.Scans text) P p

namespace Yields

export Provides (trivial mono pure throw fail map ite repeatWhile attempt harvest andThen underName
  recovering byLevels)

/-- Only where a production begins matters here, so nothing is asked of what follows. -/
theorem bind [Orderly p] {f : α → Parser β} (hp : Yields text P p)
    (hf : ∀ a, P a → Yields text Q (f a)) : Yields text Q (p >>= f) where
  of_ok {_ t _} hs h := by
    obtain ⟨a, u, hu, h⟩ := bind_eq_ok.1 h
    exact (hf a (hp.of_ok (t := u) hs hu)).of_ok (t := t) (scans_ok hs hu) h

theorem after [Orderly p] {f : α → Parser β} (hf : ∀ a, Yields text Q (f a)) :
    Yields text Q (p >>= f) :=
  bind trivial fun a _ => hf a

/-! ### Tokens -/

theorem advance : Yields text Token.Genuine advance where
  of_ok hs h := by
    rw [advance_eq] at h
    cases h
    exact hs.genuine _

theorem name : Yields text (fun token => token.text ≠ "") name where
  of_ok hs h := by
    rw [name_eq] at h
    split at h
    · next hname =>
      cases h
      refine (hs.genuine _).nonempty fun hk => ?_
      rw [Token.isName, Cursor.current, hk] at hname
      cases hname
    · cases h

end Yields

end Parser

end Rulebook
