import Rulebook.Proofs.Lexemes

/-!
# The tokens of a text and their places

The tokens of a scan lie one behind the other and spell the text between the first and the last of
them, so that a cursor over a scan is faithful to its source.
-/

namespace Rulebook

variable {hashComments : Bool}

/-- The tokens of a text, the mark of its end left out. -/
def tokens (hashComments : Bool) (text : String) : List Token :=
  located {} (lexemes hashComments text.toList)

/-- The place behind a text. -/
def finish (text : String) : Position := Position.advance {} text.toList

theorem scan_eq (text : String) :
    scan text hashComments = tokens hashComments text ++ [Token.endOfInput (finish text)] :=
  scanFrom_eq_located {} text.toList

theorem ofTokens_eq (text : String) : Cursor.ofTokens (scan text hashComments) text =
    { front := (tokens hashComments text).toArray, finish := finish text,
      source := text.toList.toArray } := by
  unfold Cursor.ofTokens
  rw [scan_eq, List.getLast?_concat, List.dropLast_concat]
  rfl

theorem hidden_scan (text : String) :
    (Cursor.ofTokens (scan text hashComments) text).triviaVisible = false := by
  rw [ofTokens_eq]

/-! ### Stretches -/

theorem located_eq_append {p : Position} {ls : List (TokenKind × List Char)} {x y : List Token}
    (h : located p ls = x ++ y) : ∃ ks ms, ls = ks ++ ms ∧ x = located p ks ∧
      y = located (p.advance (letters ks)) ms := by
  induction x generalizing p ls with
  | nil => exact ⟨[], ls, rfl, rfl, h.symm⟩
  | cons t x ih =>
    cases ls with
    | nil => cases h
    | cons l ls =>
      obtain ⟨kind, cs⟩ := l
      rw [located, List.cons_append, List.cons.injEq] at h
      obtain ⟨rfl, h⟩ := h
      obtain ⟨ks, ms, rfl, rfl, rfl⟩ := ih h
      exact ⟨(kind, cs) :: ks, ms, rfl, rfl, by rw [letters_cons, Position.advance_append]⟩

theorem spell_located (p : Position) (ls : List (TokenKind × List Char)) :
    spell (located p ls) = String.ofList (letters ls) := by
  induction ls generalizing p with
  | nil => rfl
  | cons l ls ih =>
    obtain ⟨kind, cs⟩ := l
    rw [located, spell_cons, ih, letters_cons, String.ofList_append]
    rfl

theorem start_of_located {p : Position} {ls : List (TokenKind × List Char)} {a : Token}
    (h : (located p ls).head? = some a) : a.start = p.offset := by
  cases ls with
  | nil => cases h
  | cons l ls => cases h; rfl

theorem stop_of_located {p : Position} {ls : List (TokenKind × List Char)} {b : Token}
    (h : (located p ls).getLast? = some b) : b.stop = p.offset + (letters ls).length := by
  induction ls generalizing p with
  | nil => cases h
  | cons l ls ih =>
    obtain ⟨kind, cs⟩ := l
    rw [located, List.getLast?_cons] at h
    rw [letters_cons, List.length_append]
    cases hlast : (located (p.advance cs) ls).getLast? with
    | none =>
      rw [hlast] at h
      cases h
      cases ls with
      | nil => exact Position.offset_advance p cs
      | cons l ls =>
        obtain ⟨kind, cs⟩ := l
        rw [located, List.getLast?_cons] at hlast
        cases hlast
    | some c =>
      rw [hlast] at h
      cases h
      rw [ih hlast, Position.offset_advance, Nat.add_assoc]

theorem stop_le_of_mem_located {p : Position} {ls : List (TokenKind × List Char)} {t : Token}
    (h : t ∈ located p ls) : t.stop ≤ p.offset + (letters ls).length := by
  induction ls generalizing p with
  | nil => cases h
  | cons l ls ih =>
    obtain ⟨kind, cs⟩ := l
    rw [letters_cons, List.length_append]
    rcases List.mem_cons.1 h with rfl | h
    · have hstop : (Token.at p kind cs).stop = p.offset + cs.length := Position.offset_advance p cs
      omega
    · have hstop := ih h
      rw [Position.offset_advance] at hstop
      omega

theorem stop_le_of_mem_tokens {text : String} {t : Token} (h : t ∈ tokens hashComments text) :
    t.stop ≤ text.length := by
  have hstop := stop_le_of_mem_located h
  rw [letters_lexemes, String.length_toList] at hstop
  exact Nat.le_trans hstop (Nat.le_of_eq (Nat.zero_add _))

theorem extract_middle {before middle behind : List Char} {m n : Nat} (hm : m = before.length)
    (hn : n = before.length + middle.length) :
    ((before ++ (middle ++ behind)).toArray.extract m n).toList = middle := by
  subst hm hn
  simp

theorem lexemes_spell {text : String} {x y z : List Token}
    (h : tokens hashComments text = x ++ (y ++ z)) :
    ∃ p ks, y = located p ks ∧ lexemes hashComments (spell y).toList = ks := by
  obtain ⟨ks, ms, hls, rfl, hrest⟩ := located_eq_append h
  obtain ⟨ls, ns, rfl, rfl, rfl⟩ := located_eq_append hrest.symm
  refine ⟨_, ls, rfl, ?_⟩
  rw [spell_located, String.toList_ofList]
  exact lexemes_between hls

/-! ### Faithful cursors -/

theorem text_of_symbol? {c : Char} {rest : List Char} {l : Lexeme} {k : Symbol}
    (h : Lexeme.symbol? c rest = some l) (hk : l.kind = .symbol k) :
    String.ofList (c :: l.tail) = k.text := by
  unfold Lexeme.symbol? at h
  split at h
  all_goals first
    | contradiction
    | (obtain rfl := Option.some.inj h
       obtain rfl := TokenKind.symbol.inj hk
       rfl)

theorem text_of_symbol {c : Char} {rest : List Char} {k : Symbol}
    (h : (lexeme hashComments c rest).kind = .symbol k) :
    String.ofList (c :: (lexeme hashComments c rest).tail) = k.text := by
  have hl := Lexeme.scanned hashComments c rest
  generalize lexeme hashComments c rest = l at h hl ⊢
  cases hl with
  | word => exact absurd h (Lexeme.kind_word_ne (by simp) (by simp) c rest)
  | symbol _ _ _ _ hsymbol => exact text_of_symbol? hsymbol h
  | _ => cases h

theorem kind_text_of_located {p : Position} {ls : List (TokenKind × List Char)} {t : Token}
    (h : t ∈ located p ls) : ∃ cs, (t.kind, cs) ∈ ls ∧ t.text = String.ofList cs := by
  induction ls generalizing p with
  | nil => cases h
  | cons l ls ih =>
    obtain ⟨kind, cs⟩ := l
    rcases List.mem_cons.1 h with rfl | h
    · exact ⟨cs, List.mem_cons_self, rfl⟩
    · obtain ⟨ds, hmem, htext⟩ := ih h
      exact ⟨ds, List.mem_cons_of_mem _ hmem, htext⟩

theorem lexeme_of_mem {cs ds : List Char} {kind : TokenKind}
    (h : (kind, ds) ∈ lexemes hashComments cs) : ∃ c rest,
      kind = (lexeme hashComments c rest).kind ∧ ds = c :: (lexeme hashComments c rest).tail := by
  fun_induction lexemes hashComments cs with
  | case1 => cases h
  | case2 c rest l ih =>
    rcases List.mem_cons.1 h with h | h
    · cases h
      exact ⟨c, rest, rfl, rfl⟩
    · exact ih h

theorem text_of_symbol_kind {text : String} {t : Token} {k : Symbol}
    (ht : t ∈ tokens hashComments text) (hk : t.kind = .symbol k) : t.text = k.text := by
  obtain ⟨cs, hmem, htext⟩ := kind_text_of_located ht
  obtain ⟨c, rest, hkind, rfl⟩ := lexeme_of_mem hmem
  rw [htext]
  exact text_of_symbol (hkind.symm.trans hk)

theorem faithful_scan (text : String) :
    (Cursor.ofTokens (scan text hashComments) text).Faithful := by
  rw [ofTokens_eq]
  refine ⟨fun t ht => ?_, fun t ht k hk => ?_, fun {x y z a b} h ha hb => ?_⟩
  · obtain ⟨cs, hmem, -⟩ := kind_text_of_located ht
    obtain ⟨c, rest, hkind, -⟩ := lexeme_of_mem hmem
    rw [hkind]
    exact kind_lexeme_ne hashComments c rest
  · exact text_of_symbol_kind ht hk
  · obtain ⟨ks, ms, hls, rfl, hrest⟩ :=
      @located_eq_append _ (lexemes hashComments text.toList) _ _ h
    obtain ⟨ls, ns, rfl, rfl, rfl⟩ := located_eq_append hrest.symm
    have hstart := start_of_located ha
    have hstop := stop_of_located hb
    have hoffset : (Position.advance {} (letters ks)).offset = (letters ks).length := by
      rw [Position.offset_advance]
      exact Nat.zero_add _
    rw [hoffset] at hstart hstop
    have htext : text.toList = letters ks ++ (letters ls ++ letters ns) := by
      rw [← letters_append, ← letters_append, ← hls, letters_lexemes]
    refine ⟨by omega, ?_⟩
    rw [spell_located]
    show String.ofList (text.toList.toArray.extract a.start b.stop).toList = _
    rw [htext, extract_middle hstart hstop]

end Rulebook
