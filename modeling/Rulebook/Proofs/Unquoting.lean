import Rulebook.Proofs.Dividers
import Rulebook.Proofs.Lossless

/-!
# Unquoting string literals

The scanner ends a string at the first quote that no backslash takes along, so that it knows
whether the string was closed. `Token.stringValue` has only the text of the token to go by: it takes
a string for closed if its last character is the quote. The two agree on every literal but those
that break off right behind an escaped quote, which lose that quote.
-/

namespace Rulebook

open Lexeme

variable {hashComments : Bool} {quote : Char} {cs : List Char}

/-- What may stand between two quotes: a backslash goes with the character behind it, and the quote
does not stand alone. -/
inductive QuotedBody (quote : Char) : List Char → Prop
  | nil : QuotedBody quote []
  | escaped (c : Char) {cs : List Char} (h : QuotedBody quote cs) :
      QuotedBody quote ('\\' :: c :: cs)
  | plain {c : Char} {cs : List Char} (hslash : c ≠ '\\') (hquote : c ≠ quote)
      (h : QuotedBody quote cs) : QuotedBody quote (c :: cs)

/-- What stands behind a quote that nothing closes. A backslash at the end has nothing to escape. -/
def OpenBody (quote : Char) (cs : List Char) : Prop :=
  QuotedBody quote cs ∨ ∃ body, QuotedBody quote body ∧ cs = body ++ ['\\']

theorem OpenBody.escaped (c : Char) (h : OpenBody quote cs) : OpenBody quote ('\\' :: c :: cs) := by
  rcases h with h | ⟨body, h, rfl⟩
  · exact .inl (h.escaped c)
  · exact .inr ⟨_, h.escaped c, rfl⟩

theorem OpenBody.plain {c : Char} (hslash : c ≠ '\\') (hquote : c ≠ quote)
    (h : OpenBody quote cs) : OpenBody quote (c :: cs) := by
  rcases h with h | ⟨body, h, rfl⟩
  · exact .inl (h.plain hslash hquote)
  · exact .inr ⟨_, h.plain hslash hquote, rfl⟩

theorem QuotedBody.of_plain {c : Char} (h : QuotedBody quote (c :: cs)) (hslash : c ≠ '\\') :
    c ≠ quote ∧ QuotedBody quote cs := by
  cases h with
  | escaped => exact absurd rfl hslash
  | plain _ hquote h => exact ⟨hquote, h⟩

theorem QuotedBody.of_escaped {c : Char} (h : QuotedBody quote ('\\' :: c :: cs)) :
    QuotedBody quote cs := by
  cases h with
  | escaped _ h => exact h
  | plain hslash => exact absurd rfl hslash

/-- A quote that no backslash takes along closes the string. -/
theorem QuotedBody.not_concat (h : QuotedBody quote cs) (hquote : quote ≠ '\\') :
    ¬ QuotedBody quote (cs ++ [quote]) := by
  induction h with
  | nil => exact fun hclosed => (hclosed.of_plain hquote).1 rfl
  | escaped c _ ih => exact fun hclosed => ih hclosed.of_escaped
  | plain hslash _ _ ih => exact fun hclosed => ih (hclosed.of_plain hslash).2

theorem QuotedBody.not_openBody (h : QuotedBody quote cs) (hquote : quote ≠ '\\') :
    ¬ OpenBody quote (cs ++ [quote]) := by
  rintro (hopen | ⟨body, -, hbody⟩)
  · exact h.not_concat hquote hopen
  · exact hquote (List.append_singleton_inj.1 hbody).2

/-- An open string that ends with the quote ends with an escaped one. -/
theorem QuotedBody.of_getLast? (h : QuotedBody quote cs) (hlast : cs.getLast? = some quote) :
    ∃ body, QuotedBody quote body ∧ cs = body ++ ['\\', quote] := by
  induction h with
  | nil => cases hlast
  | @escaped c cs _ ih =>
    cases cs with
    | nil =>
      obtain rfl : c = quote := Option.some.inj hlast
      exact ⟨[], .nil, rfl⟩
    | cons d cs =>
      rw [List.getLast?_cons_cons, List.getLast?_cons_cons] at hlast
      obtain ⟨body, hbody, hcs⟩ := ih hlast
      exact ⟨'\\' :: c :: body, hbody.escaped c, by rw [hcs]; rfl⟩
  | @plain c cs hslash hne _ ih =>
    cases cs with
    | nil => exact absurd (Option.some.inj hlast) hne
    | cons d cs =>
      rw [List.getLast?_cons_cons] at hlast
      obtain ⟨body, hbody, hcs⟩ := ih hlast
      exact ⟨c :: body, hbody.plain hslash hne, by rw [hcs]; rfl⟩

theorem stringTail_ends (quote : Char) (cs : List Char) :
    (∃ body, QuotedBody quote body ∧ (stringTail quote cs).1 = body ++ [quote]) ∨
      (OpenBody quote (stringTail quote cs).1 ∧ (stringTail quote cs).2 = []) := by
  fun_induction stringTail quote cs with
  | case1 => exact .inr ⟨.inl .nil, rfl⟩
  | case2 c =>
    by_cases hc : c = quote
    · exact .inl ⟨[], .nil, by rw [hc]; rfl⟩
    by_cases hslash : c = '\\'
    · exact .inr ⟨.inr ⟨[], .nil, by rw [hslash]; rfl⟩, rfl⟩
    · exact .inr ⟨.inl (.plain hslash hc .nil), rfl⟩
  | case3 d rest ih =>
    rcases ih with ⟨body, hbody, htail⟩ | ⟨hopen, hleft⟩
    · exact .inl ⟨'\\' :: d :: body, hbody.escaped d, by rw [htail]; rfl⟩
    · exact .inr ⟨hopen.escaped d, hleft⟩
  | case4 => exact .inl ⟨[], .nil, rfl⟩
  | case5 c d rest hslash hc ih =>
    rcases ih with ⟨body, hbody, htail⟩ | ⟨hopen, hleft⟩
    · exact .inl ⟨c :: body, hbody.plain hslash hc, by rw [htail]; rfl⟩
    · exact .inr ⟨hopen.plain hslash hc, hleft⟩

/-! ### The value of a literal -/

/-- The characters that open and close a string. -/
def IsQuote (quote : Char) : Prop := quote = '\x22' ∨ quote = '\x27'

theorem IsQuote.ne_backslash (h : IsQuote quote) : quote ≠ '\\' := by
  rcases h with rfl | rfl <;> decide

theorem withoutQuotes_closed (h : IsQuote quote) (body : List Char) :
    Token.withoutQuotes (quote :: (body ++ [quote])) = body := by
  have hclosed : (body ++ [quote]).getLast? = some quote ∧ (quote = '\x22' ∨ quote = '\x27') :=
    ⟨List.getLast?_concat, h⟩
  rw [Token.withoutQuotes, if_pos hclosed, List.dropLast_concat]

theorem withoutQuotes_escaped (h : IsQuote quote) (body : List Char) :
    Token.withoutQuotes (quote :: (body ++ ['\\', quote])) = body ++ ['\\'] := by
  have hbody : body ++ ['\\', quote] = body ++ ['\\'] ++ [quote] := by
    rw [List.append_assoc, List.singleton_append]
  rw [hbody]
  exact withoutQuotes_closed h _

theorem withoutQuotes_open (h : cs.getLast? ≠ some quote) :
    Token.withoutQuotes (quote :: cs) = cs := by
  rw [Token.withoutQuotes, if_neg fun hclosed => h hclosed.1]

inductive StringRead (quote : Char) (t : Token) (text : String) : Prop
  /-- The scanner ended it at a closing quote: its value is what stands between the quotes. -/
  | closed (body : List Char) (hbody : QuotedBody quote body)
      (htext : t.text.toList = quote :: (body ++ [quote])) (hvalue : t.stringValue.toList = body)
  /-- It runs to the end of the text: its value is what stands behind the quote. -/
  | unclosed (body : List Char) (hbody : OpenBody quote body) (hend : t.stop = text.length)
      (htext : t.text.toList = quote :: body) (hlast : ∀ cs, body ≠ cs ++ ['\\', quote])
      (hvalue : t.stringValue.toList = body)
  /-- It runs to the end of the text, at which a quote is escaped: its value lacks that quote. -/
  | cutShort (body : List Char) (hbody : QuotedBody quote body) (hend : t.stop = text.length)
      (htext : t.text.toList = quote :: (body ++ ['\\', quote]))
      (hvalue : t.stringValue.toList = body ++ ['\\'])

theorem stringRead_of_open {t : Token} {text : String} (hquote : IsQuote quote)
    (hopen : OpenBody quote cs) (hend : t.stop = text.length)
    (htext : t.text.toList = quote :: cs) : StringRead quote t text := by
  have hvalue : t.stringValue.toList = Token.withoutQuotes (quote :: cs) := by
    rw [Token.stringValue, String.toList_ofList, htext]
  by_cases hlast : cs.getLast? = some quote
  · have hquoted : QuotedBody quote cs := by
      rcases hopen with h | ⟨body, -, rfl⟩
      · exact h
      · rw [List.getLast?_concat] at hlast
        exact absurd (Option.some.inj hlast).symm hquote.ne_backslash
    obtain ⟨body, hbody, rfl⟩ := hquoted.of_getLast? hlast
    exact .cutShort body hbody hend htext (hvalue.trans (withoutQuotes_escaped hquote body))
  · refine .unclosed cs hopen hend htext (fun ds hds => hlast ?_)
      (hvalue.trans (withoutQuotes_open hlast))
    rw [hds, List.getLast?_append]
    rfl

theorem lexeme_of_string {c : Char} {rest : List Char}
    (h : (lexeme hashComments c rest).kind = .literal .string) :
    IsQuote c ∧ lexeme hashComments c rest =
      ⟨.literal .string, (stringTail c rest).1, (stringTail c rest).2⟩ := by
  have hsolid : Solid hashComments c rest := solid_of_kind (by rw [h]; rfl)
  have hquote : IsQuote c := by
    by_contra hno
    exact (kind_of_solid hsolid hno).2 h
  exact ⟨hquote, lexeme_string hsolid hquote⟩

/-- A lexeme of a text is cut out of it, and the scan goes on behind it. -/
theorem lexeme_at {t : Token} (cs : List Char) (p : Position) :
    t ∈ located p (lexemes hashComments cs) →
      ∃ c rest, t.kind = (lexeme hashComments c rest).kind ∧
        t.text.toList = c :: (lexeme hashComments c rest).tail ∧
        t.stop + (lexeme hashComments c rest).left.length = p.offset + cs.length := by
  fun_induction lexemes hashComments cs generalizing p with
  | case1 => exact fun h => by cases h
  | case2 c rest l ih =>
    intro h
    have hlength : l.tail.length + l.left.length = rest.length := by
      rw [← List.length_append, lexeme_tail_append_left]
    rcases List.mem_cons.1 h with rfl | h
    · refine ⟨c, rest, rfl, String.toList_ofList, ?_⟩
      show (p.advance (c :: l.tail)).offset + l.left.length = _
      rw [Position.offset_advance, List.length_cons, List.length_cons]
      omega
    · obtain ⟨d, behind, hkind, htext, hstop⟩ := ih (p.advance (c :: l.tail)) h
      refine ⟨d, behind, hkind, htext, ?_⟩
      rw [hstop, Position.offset_advance, List.length_cons, List.length_cons]
      omega

theorem strings_unquoted (text : String) (hashComments : Bool) {t : Token}
    (ht : t ∈ scan text hashComments) (hkind : t.kind = .literal .string) :
    ∃ quote, IsQuote quote ∧ StringRead quote t text := by
  rw [scan_eq] at ht
  rcases List.mem_append.1 ht with ht | hlast
  · obtain ⟨quote, rest, hlexeme, htext, hstop⟩ := lexeme_at _ _ ht
    obtain ⟨hquote, heq⟩ := lexeme_of_string (hlexeme.symm.trans hkind)
    rw [heq] at htext hstop
    refine ⟨quote, hquote, ?_⟩
    rcases stringTail_ends quote rest with ⟨body, hbody, htail⟩ | ⟨hopen, hleft⟩
    · rw [htail] at htext
      refine .closed body hbody htext ?_
      rw [Token.stringValue, htext, withoutQuotes_closed hquote, String.toList_ofList]
    · have hend : t.stop = text.length := by
        rw [hleft, String.length_toList] at hstop
        exact hstop.trans (Nat.zero_add _)
      exact stringRead_of_open hquote hopen hend htext
  · rw [List.mem_singleton.1 hlast] at hkind
    cases hkind

theorem strings_unquoted_escaped : ∃ quote, IsQuote quote ∧
    StringRead quote ⟨.literal .string, "\"a\\\"\"", 1, 2, 2, 7⟩ "f(\"a\\\"\")" :=
  strings_unquoted "f(\"a\\\"\")" true (by decide +kernel) rfl

/-- An escaped quote at the end of the text is taken for the closing one. -/
theorem strings_cut_short : ¬ ∀ (text : String) (t : Token) (quote : Char) (body : List Char),
    t ∈ scan text true → t.kind = .literal .string → IsQuote quote → OpenBody quote body →
    t.text.toList = quote :: body → t.stringValue.toList = body := by
  intro hall
  have hopen : OpenBody '\x22' ['a', '\\', '\x22'] :=
    .inl (.plain (by decide) (by decide) (.escaped '\x22' .nil))
  have hvalue := hall "\"a\\\"" ⟨.literal .string, "\"a\\\"", 1, 0, 0, 4⟩ '\x22'
    ['a', '\\', '\x22'] (by decide +kernel) rfl (.inl rfl) hopen rfl
  revert hvalue
  decide

end Rulebook
