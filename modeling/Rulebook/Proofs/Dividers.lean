import Rulebook.Proofs.Joined

/-!
# Texts before a divider

A divider ends every token but blanks, strings and comments. So a text that ends outside of strings
and comments is scanned as it would be alone when a divider follows, and a divider is a token of its
own or a blank.
-/

namespace Rulebook

open Lexeme

variable {hashComments : Bool} {c d : Char} {rest cs : List Char}

/-! ### Tokens that strings and comments are not -/

theorem numberTail_ne (cs : List Char) : (numberTail cs).1 ≠ .string := by
  unfold numberTail
  dsimp only
  repeat' split
  all_goals simp

/-- A character that begins no blank, comment or string begins another token. -/
theorem kind_of_solid (h : Solid hashComments c rest) (hquote : ¬(c = '\x22' ∨ c = '\x27')) :
    (lexeme hashComments c rest).kind.isTrivia = false ∧
      (lexeme hashComments c rest).kind ≠ .literal .string := by
  rw [h.lexeme_eq, if_neg hquote]
  split
  · exact ⟨rfl, fun heq => numberTail_ne rest (TokenKind.literal.inj heq)⟩
  split
  · rcases kind_word c rest with ⟨k, hk⟩ | hk
    · exact hk ▸ ⟨rfl, by simp⟩
    · simp only [List.mem_cons, List.not_mem_nil, or_false] at hk
      rcases hk with hk | hk | hk <;> exact hk ▸ ⟨rfl, by simp⟩
  · cases hsymbol : symbol? c rest with
    | none => exact ⟨rfl, by simp⟩
    | some l =>
      obtain ⟨k, hk⟩ := kind_of_symbol? hsymbol
      exact hk ▸ ⟨rfl, by simp⟩

theorem solid_of_kind (h : (lexeme hashComments c rest).kind.isTrivia = false) :
    Solid hashComments c rest := by
  refine ⟨Bool.eq_false_iff.2 fun hseparator => ?_, Bool.eq_false_iff.2 fun hline => ?_, ?_⟩
  · rw [lexeme_separator hseparator] at h
    cases h
  · cases hseparator : isSeparator c with
    | true => rw [lexeme_separator hseparator] at h; cases h
    | false => rw [lexeme_lineComment hseparator hline] at h; cases h
  · rintro ⟨rfl, hstar⟩
    obtain ⟨rest, rfl⟩ := List.head?_eq_some_iff.1 hstar
    rw [lexeme_blockComment (by cases hashComments <;> rfl)] at h
    cases h

theorem Lexeme.Ended.of_kind {l : TokenKind × List Char} (htrivia : l.1.isTrivia = false)
    (hstring : l.1 ≠ .literal .string) : Ended d l := by
  refine ⟨fun h => ?_, fun h => ?_, fun h => ?_, fun h => absurd h hstring⟩
  all_goals
    rw [h] at htrivia
    cases htrivia

/-! ### Dividers behind a text -/

/-- A text is scanned as it would be alone when a divider follows that its last token does not go on
with. -/
theorem lexemes_divided (hd : d ∈ dividers) (ds : List Char)
    (h : ∀ l, (lexemes hashComments cs).getLast? = some l → Ended d l) :
    lexemes hashComments (cs ++ d :: ds) =
      lexemes hashComments cs ++ lexemes hashComments (d :: ds) := by
  fun_induction lexemes hashComments cs with
  | case1 => rfl
  | case2 c rest l ih =>
    have hbehind := @lexeme_behind hashComments c rest d hd ds fun hleft =>
      h (l.kind, c :: l.tail) (by
        have hlast : (lexemes hashComments l.left).getLast? = none := by rw [hleft, lexemes]; rfl
        rw [List.getLast?_cons, hlast]
        rfl)
    have hrest := ih fun k hk => h k (by rw [List.getLast?_cons, hk]; rfl)
    rw [List.cons_append, lexemes_cons, hbehind, hrest, List.cons_append]

def EndsInside (hashComments : Bool) (text : String) : Prop :=
  ∃ t, (tokens hashComments (text ++ ")")).getLast? = some t ∧ t.kind ≠ .symbol .rparen

theorem not_endsInside_of_last {hashComments : Bool} {text : String}
    (h : (tokens hashComments (text ++ ")")).getLast?.map (·.kind) = some (.symbol .rparen)) :
    ¬EndsInside hashComments text := by
  rintro ⟨t, ht, hkind⟩
  rw [ht] at h
  exact hkind (Option.some.inj h)

theorem closes_of_concat {e : Char} (h : Closes (cs ++ [e])) (he : e ≠ '/') : Closes cs := by
  rcases List.infix_concat_iff.1 h with hsuffix | hinfix
  · obtain ⟨tail, htail⟩ := hsuffix
    have hlast := congrArg List.getLast? htail
    rw [List.getLast?_append, List.getLast?_concat] at hlast
    exact absurd (Option.some.inj hlast).symm he
  · exact hinfix

theorem stringTail_of_concat {quote e : Char} (h : (stringTail quote cs).2 = [])
    (he : (stringTail quote (cs ++ [e])).2 ≠ []) (behind : List Char) :
    stringTail quote (cs ++ behind) = (cs, behind) := by
  fun_induction stringTail quote cs with
  | case1 => exact absurd rfl he
  | case2 a =>
    rw [List.singleton_append, stringTail] at he
    by_cases hslash : a = '\\'
    · rw [if_pos hslash] at he
      exact absurd rfl he
    · rw [if_neg hslash] at he
      by_cases hquote : a = quote
      · cases behind with
        | nil => rfl
        | cons b behind => rw [List.singleton_append, stringTail, if_neg hslash, if_pos hquote]
      · rw [if_neg hquote] at he
        exact absurd rfl he
  | case3 a rest ih =>
    rw [List.cons_append, List.cons_append, stringTail, if_pos rfl] at he ⊢
    rw [ih h he]
  | case4 a rest hslash => cases h
  | case5 a b rest hslash hquote ih =>
    rw [List.cons_append, List.cons_append, stringTail, if_neg hslash, if_neg hquote,
      ← List.cons_append] at he ⊢
    rw [ih h he]

theorem left_ne_nil {kind : TokenKind}
    (h : (lexemes hashComments (c :: rest)).getLast?.map Prod.fst = some kind)
    (hk : (lexeme hashComments c rest).kind ≠ kind) : (lexeme hashComments c rest).left ≠ [] := by
  intro hleft
  rw [lexemes_cons, hleft, lexemes, List.getLast?_singleton] at h
  exact hk (Option.some.inj h)

theorem ended_of_whole (hleft : (lexeme hashComments c rest).left = [])
    (h : (lexemes hashComments (c :: (rest ++ [')']))).getLast?.map Prod.fst =
      some (.symbol .rparen)) :
    Ended ')' ((lexeme hashComments c rest).kind, c :: rest) := by
  have hd : ')' ∈ dividers := by decide
  have hhead := @isLineComment_before_divider hashComments c rest ')' hd []
  by_cases hplain : Solid hashComments c rest ∧ ¬(c = '\x22' ∨ c = '\x27')
  · obtain ⟨htrivia, hstring⟩ := kind_of_solid hplain.1 hplain.2
    exact .of_kind htrivia hstring
  have hl := scanned hashComments c rest
  generalize lexeme hashComments c rest = l at hleft hl ⊢
  cases hl with
  | separator => exact ⟨fun _ => by decide, (by cases ·), (by cases ·), (by cases ·)⟩
  | lineComment hc hline =>
    have hheld := lexeme_lineComment hc (hhead.trans hline)
    refine absurd ?_ (left_ne_nil h (by rw [hheld]; simp))
    rw [hheld]
    have hall : ∀ a ∈ rest, a ≠ '\n' := by simpa using hleft
    refine List.dropWhile_eq_nil_iff.2 fun a ha => ?_
    rcases List.mem_append.1 ha with ha | ha
    · simpa using hall a ha
    · rw [List.mem_singleton.1 ha]
      decide
  | @blockComment body hc hrest hline =>
    subst hc hrest
    refine ⟨(by cases ·), (by cases ·), fun _ => ?_, (by cases ·)⟩
    have hheld := @lexeme_blockComment hashComments (body ++ [')']) (hhead.trans hline)
    have hne := left_ne_nil h (by rw [List.cons_append, hheld]; simp)
    rw [List.cons_append, hheld] at hne
    exact closes_of_concat (closes_of_left hne) (by decide)
  | string hsolid hquote =>
    refine ⟨(by cases ·), (by cases ·), (by cases ·), fun _ => ?_⟩
    have hheld := lexeme_string (hsolid.before_divider hd []) hquote
    have hne := left_ne_nil h (by rw [hheld]; simp)
    rw [hheld] at hne
    exact stringTail_of_concat hleft hne
  | number hsolid hquote | word hsolid hquote | symbol hsolid hquote | misc hsolid hquote =>
    exact absurd ⟨hsolid, hquote⟩ hplain

theorem ended_of_concat
    (h : (lexemes hashComments (cs ++ [')'])).getLast?.map Prod.fst = some (.symbol .rparen))
    {l : TokenKind × List Char} (hl : (lexemes hashComments cs).getLast? = some l) :
    Ended ')' l := by
  fun_induction lexemes hashComments cs with
  | case1 => cases hl
  | case2 c rest k ih =>
    have hne : ∀ {cs : List Char}, cs ≠ [] → lexemes hashComments cs ≠ [] := fun {cs} hcs hnil =>
      hcs (by rw [← @letters_lexemes hashComments cs, hnil]; rfl)
    by_cases hleft : k.left = []
    · have hrest := lexeme_tail_append_left hashComments c rest
      rw [hleft, List.append_nil] at hrest
      rw [hleft, lexemes, List.getLast?_singleton] at hl
      obtain rfl := Option.some.inj hl
      rw [hrest]
      exact ended_of_whole hleft h
    · have hbehind := @lexeme_behind hashComments c rest ')' (by decide) [] fun hno =>
        absurd hno hleft
      rw [List.cons_append, lexemes_cons, hbehind,
        List.getLast?_cons_of_ne_nil (hne (by simp))] at h
      rw [List.getLast?_cons_of_ne_nil (hne hleft)] at hl
      exact ih h hl

/-- What does not go on with a parenthesis does not go on with anything but a blank. -/
theorem Lexeme.Ended.of_rparen {l : TokenKind × List Char} (h : Ended ')' l)
    (hd : isSeparator d = false) : Ended d l :=
  ⟨fun _ => hd, fun hline => absurd (h.lineComment hline) (by decide), h.blockComment, h.string⟩

/-- A text that ends outside of strings and comments is scanned as it would be alone before a
divider that is no blank. -/
theorem lexemes_before_divider {text : String} (h : ¬EndsInside hashComments text)
    (hd : d ∈ dividers) (hblank : isSeparator d = false) (ds : List Char) :
    lexemes hashComments (text.toList ++ d :: ds) =
      lexemes hashComments text.toList ++ lexemes hashComments (d :: ds) := by
  refine lexemes_divided hd ds fun l hl => (ended_of_concat ?_ hl).of_rparen hblank
  cases hlast : (lexemes hashComments (text.toList ++ [')'])).getLast? with
  | none =>
    have hletters := @letters_lexemes hashComments (text.toList ++ [')'])
    rw [List.getLast?_eq_none_iff.1 hlast] at hletters
    exact absurd hletters.symm (by simp)
  | some k =>
    obtain ⟨t, ht, hkind, -⟩ := getLast?_located (p := {}) hlast
    by_contra hne
    refine h ⟨t, ?_, fun hk => hne ?_⟩
    · rw [tokens, String.toList_append]
      exact ht
    · rw [Option.map_some, ← hkind, hk]

end Rulebook
