import Rulebook.Proofs.ScannedText

/-!
# Texts one after the other

A text is scanned as it would be alone when a divider and another text follow, unless its last token
goes on with the divider. If that is a line feed, the blanks between the two texts become one token.
-/

namespace Rulebook

open Lexeme

variable {hashComments : Bool} {c : Char} {rest behind : List Char}

/-! ### Beginnings of tokens -/

theorem takeWhile_behind {p : Char → Bool} {cs : List Char}
    (h : cs.dropWhile p ≠ [] ∨ ∀ d, behind.head? = some d → p d = false) :
    (cs ++ behind).takeWhile p = cs.takeWhile p ∧
      (cs ++ behind).dropWhile p = cs.dropWhile p ++ behind := by
  induction cs with
  | nil =>
    have hhead := h.resolve_left fun hne => hne rfl
    cases behind with
    | nil => exact ⟨rfl, rfl⟩
    | cons d behind =>
      have hd : ¬p d = true := by rw [hhead d rfl]; exact Bool.false_ne_true
      exact ⟨List.takeWhile_cons_of_neg hd, List.dropWhile_cons_of_neg hd⟩
  | cons c cs ih =>
    cases hc : p c with
    | false =>
      have hc' : ¬p c = true := by rw [hc]; exact Bool.false_ne_true
      rw [List.cons_append, List.takeWhile_cons_of_neg hc', List.takeWhile_cons_of_neg hc',
        List.dropWhile_cons_of_neg hc', List.dropWhile_cons_of_neg hc']
      exact ⟨rfl, rfl⟩
    | true =>
      rw [List.dropWhile_cons_of_pos hc] at h
      rw [List.cons_append, List.takeWhile_cons_of_pos hc, List.takeWhile_cons_of_pos hc,
        List.dropWhile_cons_of_pos hc, List.dropWhile_cons_of_pos hc, (ih h).1, (ih h).2]
      exact ⟨rfl, rfl⟩

namespace Lexeme

/-- A text with the end of a block comment. -/
def Closes (cs : List Char) : Prop := ['*', '/'] <:+: cs

theorem blockCommentTail_behind {cs : List Char} (h : Closes cs) :
    blockCommentTail (cs ++ behind) = ((blockCommentTail cs).1,
      (blockCommentTail cs).2 ++ behind) := by
  fun_induction blockCommentTail cs with
  | case1 => exact absurd (List.infix_nil.1 h) (by simp)
  | case2 rest => rfl
  | case3 c rest hne ih =>
    have hrest : Closes rest := by
      rcases List.infix_cons_iff.1 h with ⟨tail, hprefix⟩ | h
      · cases hprefix
        exact absurd rfl (hne tail rfl)
      · exact h
    have heq : blockCommentTail (c :: (rest ++ behind)) =
        (c :: (blockCommentTail (rest ++ behind)).1, (blockCommentTail (rest ++ behind)).2) := by
      cases rest with
      | nil => exact absurd (List.infix_nil.1 hrest) (by simp)
      | cons d rest =>
        rw [List.cons_append, blockCommentTail]
        intro tail hc htail
        cases htail
        exact hne rest hc rfl
    rw [List.cons_append, heq, ih hrest]

theorem closes_of_left {cs : List Char} (h : (blockCommentTail cs).2 ≠ []) : Closes cs := by
  fun_induction blockCommentTail cs with
  | case1 => exact absurd rfl h
  | case2 rest => exact ⟨[], rest, rfl⟩
  | case3 c rest hne ih => exact List.infix_cons (ih h)

theorem stringTail_behind {quote : Char} {cs : List Char} (h : (stringTail quote cs).2 ≠ []) :
    stringTail quote (cs ++ behind) = ((stringTail quote cs).1,
      (stringTail quote cs).2 ++ behind) := by
  fun_induction stringTail quote cs with
  | case1 => exact absurd rfl h
  | case2 c => exact absurd rfl h
  | case3 d rest ih => rw [List.cons_append, List.cons_append, stringTail, if_pos rfl, ih h]
  | case4 d rest hq => rw [List.cons_append, List.cons_append, stringTail, if_neg hq, if_pos rfl]
  | case5 c d rest hc hq ih =>
    rw [List.cons_append, List.cons_append, stringTail, if_neg hc, if_neg hq, ← List.cons_append,
      ih h]

/-- Characters that no name, number or symbol goes on with. -/
def dividers : List Char :=
  ['\n', ' ', '(', ')', '\x7b', '\x7d', '[', ']', '<', ',', ';']

variable {d : Char}

theorem isDigit_of_divider (hd : d ∈ dividers) : isDigit d = false := by
  have hall : dividers.all (!isDigit ·) = true := by decide
  simpa using List.all_eq_true.1 hall d hd

theorem isNamePart_of_divider (hd : d ∈ dividers) : isNamePart d = false := by
  have hall : dividers.all (!isNamePart ·) = true := by decide
  simpa using List.all_eq_true.1 hall d hd

/-- The characters that a comment begins or ends with, and the quotes. -/
theorem notMem_of_divider (hd : d ∈ dividers) : d ∉ ['/', '*', '\\', '\x22', '\x27'] := by
  have hall : dividers.all (! ['/', '*', '\\', '\x22', '\x27'].contains ·) = true := by decide
  simpa using List.all_eq_true.1 hall d hd

theorem not_mem_numberTail (hd : d ∈ dividers) : d ∉ (numberTail rest).2.1 := fun h => by
  rcases mem_numberTail h with h | rfl
  · rw [isDigit_of_divider hd] at h
    cases h
  · exact absurd hd (by decide)

theorem not_mem_symbol? (hd : d ∈ dividers) {l : Lexeme} (h : symbol? c rest = some l) :
    d ∉ l.tail := by
  have hall : dividers.all (! ['=', '>', '&', '|'].contains ·) = true := by decide
  have hd := List.all_eq_true.1 hall d hd
  unfold symbol? at h
  split at h
  all_goals first
    | contradiction
    | (obtain rfl := Option.some.inj h; simp_all)

def Quoted : List Char → Prop
  | [] => False
  | quote :: cs => ∀ behind, stringTail quote (cs ++ behind) = (cs, behind)

/-- A token that does not go on with a divider behind it. -/
structure Ended (d : Char) (l : TokenKind × List Char) : Prop where
  whitespace : l.1 = .trivia .whitespace → isSeparator d = false
  lineComment : l.1 = .trivia .lineComment → d = '\n'
  blockComment : l.1 = .trivia .blockComment → Closes (l.2.drop 2)
  string : l.1 = .literal .string → Quoted l.2

end Lexeme

theorem Solid.before_divider (h : Solid hashComments c rest) {d : Char} (hd : d ∈ dividers)
    (ds : List Char) : Solid hashComments c (rest ++ d :: ds) := by
  cases rest with
  | cons e rest => exact ⟨h.separator, h.lineComment, h.blockComment⟩
  | nil =>
    have hmarks := notMem_of_divider hd
    refine ⟨h.separator, ?_, fun hno => ?_⟩
    · have hline := h.lineComment
      unfold isLineComment at hline ⊢
      have hslash : d ≠ '/' := fun heq => hmarks (by simp [heq])
      simpa [hslash] using hline
    · obtain rfl : d = '*' := Option.some.inj hno.2
      exact hmarks (by simp)

theorem isSeparator_of_whitespace
    (h : (lexeme hashComments c rest).kind = .trivia .whitespace) : isSeparator c = true := by
  have hl := scanned hashComments c rest
  generalize lexeme hashComments c rest = l at h hl
  cases hl with
  | separator hc => exact hc
  | word => exact absurd h (kind_word_ne (by simp) (by simp) c rest)
  | symbol _ _ _ _ hsymbol =>
    obtain ⟨_, hsymbol⟩ := kind_of_symbol? hsymbol
    cases hsymbol.symm.trans h
  | _ => cases h

/-- A token without a character in it that ends names is the same if that character follows. -/
theorem lexeme_behind_of_not_mem {d : Char} (hd : isNamePart d = false) {ds : List Char}
    (h : d ∉ (lexeme hashComments c (rest ++ d :: ds)).tail) :
    lexeme hashComments c (rest ++ d :: ds) =
      ⟨(lexeme hashComments c rest).kind, (lexeme hashComments c rest).tail,
        (lexeme hashComments c rest).left ++ d :: ds⟩ := by
  have happend := lexeme_tail_append_left hashComments c (rest ++ d :: ds)
  generalize hl : lexeme hashComments c (rest ++ d :: ds) = l at h happend ⊢
  obtain ⟨kept, hrest, hleft⟩ : ∃ kept, rest = l.tail ++ kept ∧ l.left = kept ++ d :: ds := by
    rcases List.append_eq_append_iff.1 happend with h' | ⟨extra, htail, hover⟩
    · exact h'
    · cases extra with
      | nil => exact ⟨[], by rw [htail]; simp, hover.symm⟩
      | cons e extra =>
        cases hover
        exact absurd (htail ▸ List.mem_append_right _ List.mem_cons_self) h
  have hcut := @lexeme_cut hashComments c (rest ++ d :: ds)
    kept (d :: ds) (by rw [hl, hleft])
    (.of_head fun e he => by cases he; exact hd)
  rw [hl, ← hrest] at hcut
  rw [hcut, ← hleft]

theorem isLineComment_before_divider {d : Char} (hd : d ∈ dividers) (ds : List Char) :
    isLineComment hashComments c (rest ++ d :: ds) = isLineComment hashComments c rest := by
  cases rest with
  | cons e rest => rfl
  | nil =>
    have hslash : d ≠ '/' := fun heq => notMem_of_divider hd (by simp [heq])
    unfold isLineComment
    simp [hslash]

/-- No divider stands in a number, a word or an operator behind its first character. -/
theorem not_mem_tail_of_divider {d : Char} (hd : d ∈ dividers) (h : Solid hashComments c rest)
    (hquote : ¬(c = '\x22' ∨ c = '\x27')) : d ∉ (lexeme hashComments c rest).tail := by
  rw [h.lexeme_eq, if_neg hquote]
  split
  · exact not_mem_numberTail hd
  split
  · exact not_mem_word (isNamePart_of_divider hd) (fun heq => absurd (heq ▸ hd) (by decide))
  · cases hsymbol : symbol? c rest with
    | none => exact List.not_mem_nil
    | some l => exact not_mem_symbol? hd hsymbol

/-- A token is the same if a divider follows that it does not go on with. -/
theorem lexeme_behind {d : Char} (hd : d ∈ dividers) {ds : List Char}
    (h : (lexeme hashComments c rest).left = [] →
      Ended d ((lexeme hashComments c rest).kind, c :: (lexeme hashComments c rest).tail)) :
    lexeme hashComments c (rest ++ d :: ds) =
      ⟨(lexeme hashComments c rest).kind, (lexeme hashComments c rest).tail,
        (lexeme hashComments c rest).left ++ d :: ds⟩ := by
  by_cases hplain : Solid hashComments c rest ∧ ¬(c = '\x22' ∨ c = '\x27')
  · obtain ⟨hsolid, hquote⟩ := hplain
    exact lexeme_behind_of_not_mem (isNamePart_of_divider hd)
      (not_mem_tail_of_divider hd (hsolid.before_divider hd ds) hquote)
  have hhead := @isLineComment_before_divider hashComments c rest d hd ds
  have hl := scanned hashComments c rest
  generalize lexeme hashComments c rest = l at h hl ⊢
  refine Scanned.lexeme_eq ?_
  cases hl with
  | separator hc =>
    obtain ⟨htake, hdrop⟩ := @takeWhile_behind (d :: ds) isSeparator rest <| by
      by_cases hnil : rest.dropWhile isSeparator = []
      · exact .inr fun e he => by cases he; exact (h hnil).whitespace rfl
      · exact .inl hnil
    have hscanned := @Scanned.separator hashComments c (rest ++ d :: ds) hc
    rwa [htake, hdrop] at hscanned
  | lineComment hc hline =>
    obtain ⟨htake, hdrop⟩ := @takeWhile_behind (d :: ds) (· != '\n') rest <| by
      by_cases hnil : rest.dropWhile (· != '\n') = []
      · exact .inr fun e he => by cases he; simp [(h hnil).lineComment rfl]
      · exact .inl hnil
    have hscanned := Scanned.lineComment hc (hhead.trans hline)
    rwa [htake, hdrop] at hscanned
  | @blockComment body hc hrest hline =>
    subst hc hrest
    have hcloses : Closes body := by
      by_cases hleft : (blockCommentTail body).2 = []
      · have hbody := blockCommentTail_append body
        rw [hleft, List.append_nil] at hbody
        have := (h hleft).blockComment rfl
        rwa [hbody] at this
      · exact closes_of_left hleft
    have hscanned := @Scanned.blockComment hashComments '/' _ (body ++ d :: ds) rfl rfl
      (hhead.trans hline)
    rwa [blockCommentTail_behind hcloses] at hscanned
  | string hsolid hquote =>
    have hscanned := Scanned.string (hsolid.before_divider hd ds) hquote
    by_cases hleft : (stringTail c rest).2 = []
    · have hbody := stringTail_append c rest
      rw [hleft, List.append_nil] at hbody
      have hquoted : Quoted (c :: (stringTail c rest).1) := (h hleft).string rfl
      rw [hbody] at hquoted
      rw [hquoted (d :: ds)] at hscanned
      rwa [hleft, hbody]
    · rwa [stringTail_behind hleft] at hscanned
  | number hsolid hquote | word hsolid hquote | symbol hsolid hquote | misc hsolid hquote =>
    exact absurd ⟨hsolid, hquote⟩ hplain

/-! ### Texts before a line feed -/

def blank : List Char → List (TokenKind × List Char)
  | [] => []
  | c :: cs => [(.trivia .whitespace, c :: cs)]

theorem letters_blank (cs : List Char) : letters (blank cs) = cs := by
  cases cs with
  | nil => rfl
  | cons c cs => simp [blank]

theorem lexemes_eq_blank_append (cs : List Char) : lexemes hashComments cs =
    blank (cs.takeWhile isSeparator) ++ lexemes hashComments (cs.dropWhile isSeparator) := by
  cases cs with
  | nil => rfl
  | cons c rest =>
    cases hc : isSeparator c with
    | false =>
      have hc' : ¬isSeparator c = true := by rw [hc]; exact Bool.false_ne_true
      rw [List.takeWhile_cons_of_neg hc', List.dropWhile_cons_of_neg hc']
      rfl
    | true =>
      rw [List.takeWhile_cons_of_pos hc, List.dropWhile_cons_of_pos hc, lexemes_cons,
        lexeme_separator hc]
      rfl

/-- The tokens of a text before a blank and another text. The blanks around it become one token. -/
theorem lexemes_joined {cs : List Char} {d : Char} (hd : d ∈ dividers)
    (hblank : isSeparator d = true) (ds : List Char)
    (h : ∀ l, (lexemes hashComments cs).getLast? = some l → l.1 = .trivia .whitespace ∨ Ended d l) :
    ∃ ks blanks, lexemes hashComments cs = ks ++ blank blanks ∧
      lexemes hashComments (cs ++ d :: ds) =
        ks ++ (.trivia .whitespace, blanks ++ d :: ds.takeWhile isSeparator) ::
          lexemes hashComments (ds.dropWhile isSeparator) := by
  have hdivider : lexemes hashComments (d :: ds) =
      (.trivia .whitespace, d :: ds.takeWhile isSeparator) ::
        lexemes hashComments (ds.dropWhile isSeparator) := by
    rw [lexemes_cons, lexeme_separator hblank]
  fun_induction lexemes hashComments cs with
  | case1 => exact ⟨[], [], rfl, hdivider⟩
  | case2 c rest l ih =>
    by_cases hwhole : l.left = [] ∧ l.kind = .trivia .whitespace
    · obtain ⟨hleft, hkind⟩ := hwhole
      have hc := isSeparator_of_whitespace hkind
      have hl : l = ⟨.trivia .whitespace, rest.takeWhile isSeparator, rest.dropWhile isSeparator⟩ :=
        lexeme_separator hc rest
      have hall : rest.dropWhile isSeparator = [] := by rw [hl] at hleft; exact hleft
      have hrest : ∀ d ∈ rest, isSeparator d = true := by simpa using hall
      refine ⟨[], c :: rest, ?_, ?_⟩
      · rw [hleft, hl, List.takeWhile_eq_self_iff.2 hrest, lexemes]
        rfl
      · rw [List.cons_append, lexemes_cons, lexeme_separator hc, List.takeWhile_append_of_pos hrest,
          List.dropWhile_append_of_pos hrest, List.takeWhile_cons_of_pos hblank,
          List.dropWhile_cons_of_pos hblank]
        rfl
    · have hbehind := @lexeme_behind hashComments c rest d hd ds
        fun hleft => by
          have hlast : (lexemes hashComments l.left).getLast? = none := by rw [hleft, lexemes]; rfl
          exact (h (l.kind, c :: l.tail) (by rw [List.getLast?_cons, hlast]; rfl)).resolve_left
            fun hkind => hwhole ⟨hleft, hkind⟩
      obtain ⟨ks, blanks, hks, hjoined⟩ := ih fun k hk => h k (by rw [List.getLast?_cons, hk]; rfl)
      refine ⟨(l.kind, c :: l.tail) :: ks, blanks, by rw [hks, List.cons_append], ?_⟩
      rw [List.cons_append, lexemes_cons, hbehind, hjoined, List.cons_append]

/-! ### Places in the second text -/

def Token.moved (n k : Nat) (t : Token) : Token :=
  { t with start := t.start + n, stop := t.stop + n, line := t.line + k }

def Position.moved (n k : Nat) (p : Position) : Position := ⟨p.offset + n, p.line + k, p.column⟩

theorem Position.step_moved (n k : Nat) (p : Position) (c : Char) :
    (p.moved n k).step c = (p.step c).moved n k := by
  unfold step moved
  split
  · simp only [Nat.add_right_comm _ _ 1]
  · simp only [Nat.add_right_comm _ _ 1]

theorem Position.advance_moved (n k : Nat) (p : Position) (cs : List Char) :
    (p.moved n k).advance cs = (p.advance cs).moved n k := by
  induction cs generalizing p with
  | nil => rfl
  | cons c cs ih => rw [advance_cons, advance_cons, step_moved, ih]

theorem Position.line_advance (p : Position) (cs : List Char) :
    (p.advance cs).line = p.line + cs.count '\n' := by
  induction cs generalizing p with
  | nil => rfl
  | cons c cs ih =>
    rw [advance_cons, ih, List.count_cons]
    unfold step
    by_cases hc : c = '\n'
    · simp [hc]; omega
    · simp [hc]

theorem located_moved (n k : Nat) (p : Position) (ls : List (TokenKind × List Char)) :
    located (p.moved n k) ls = (located p ls).map (Token.moved n k) := by
  induction ls generalizing p with
  | nil => rfl
  | cons l ls ih =>
    obtain ⟨kind, cs⟩ := l
    rw [located, located, List.map_cons, Position.advance_moved, ih]
    unfold Token.at Token.moved
    rw [Position.advance_moved]
    rfl

theorem visible_map_moved (n k : Nat) (ts : List Token) :
    visible (ts.map (Token.moved n k)) = (visible ts).map (Token.moved n k) := by
  unfold visible
  rw [List.filter_map]
  rfl

theorem visible_located_blank (p : Position) (cs : List Char) :
    visible (located p (blank cs)) = [] := by
  cases cs <;> rfl

/-- The last token of a text is a block comment that is not closed. -/
def EndsInOpenComment (hashComments : Bool) (text : String) : Prop :=
  ∃ t, (tokens hashComments text).getLast? = some t ∧ t.kind = .trivia .blockComment ∧
    ¬Closes (t.text.toList.drop 2)

theorem getLast?_located {p : Position} {ls : List (TokenKind × List Char)}
    {l : TokenKind × List Char} (h : ls.getLast? = some l) :
    ∃ t, (located p ls).getLast? = some t ∧ t.kind = l.1 ∧ t.text = String.ofList l.2 := by
  obtain ⟨ks, rfl⟩ := List.getLast?_eq_some_iff.1 h
  rw [located_append]
  exact ⟨_, List.getLast?_concat, rfl, rfl⟩

def lineFeeds (text : String) : Nat := text.toList.count '\n'

theorem advance_lineFeed (a : String) : Position.advance {} (a ++ "\n").toList =
    Position.moved (a ++ "\n").length (lineFeeds (a ++ "\n")) {} := by
  have hoffset := Position.offset_advance {} (a ++ "\n").toList
  have hline := Position.line_advance {} (a ++ "\n").toList
  have hcolumn : (Position.advance {} (a ++ "\n").toList).column = 0 := by
    rw [String.toList_append, Position.advance_append]
    rfl
  rw [String.length_toList] at hoffset
  generalize Position.advance {} (a ++ "\n").toList = q at hoffset hline hcolumn
  obtain ⟨offset, line, column⟩ := q
  cases hoffset
  cases hline
  cases hcolumn
  rfl

theorem finish_joined (a b : String) : finish (a ++ "\n" ++ b) =
    (finish b).moved (a ++ "\n").length (lineFeeds (a ++ "\n")) := by
  unfold finish
  rw [String.toList_append, Position.advance_append, advance_lineFeed, Position.advance_moved]

/-- The tokens of two texts with a line feed between them. -/
theorem tokens_joined {a : String} (b : String)
    (hstring : ∀ t, (tokens hashComments a).getLast? = some t → t.kind ≠ .literal .string)
    (hcomment : ¬EndsInOpenComment hashComments a) :
    ∃ base blanks between before shared, tokens hashComments a = base ++ blanks ∧
      tokens hashComments (a ++ "\n" ++ b) =
        base ++ (between ++ shared.map (Token.moved (a ++ "\n").length (lineFeeds (a ++ "\n")))) ∧
      tokens hashComments b = before ++ shared ∧
      visible blanks = [] ∧ visible between = [] ∧ visible before = [] := by
  obtain ⟨ks, blanks, ha, hab⟩ := @lexemes_joined hashComments a.toList '\n' (by decide) (by decide)
    b.toList fun l hl => by
      obtain ⟨t, ht, hkind, htext⟩ := getLast?_located (p := {}) hl
      by_cases hwhitespace : l.1 = .trivia .whitespace
      · exact .inl hwhitespace
      refine .inr ⟨fun h => absurd h hwhitespace, fun _ => rfl, fun hblock => ?_,
        fun h => absurd (hkind.trans h) (hstring t ht)⟩
      by_contra hcloses
      refine hcomment ⟨t, ht, hkind.trans hblock, ?_⟩
      rwa [htext, String.toList_ofList]
  let lead := b.toList.takeWhile isSeparator
  let rest := lexemes hashComments (b.toList.dropWhile isSeparator)
  have hletters : letters (ks ++ [(.trivia .whitespace, blanks ++ '\n' :: lead)]) =
      (a ++ "\n").toList ++ lead := by
    have hsplit := @letters_lexemes hashComments a.toList
    rw [ha, letters_append, letters_blank] at hsplit
    rw [letters_append, letters_cons, letters_nil, List.append_nil, String.toList_append, ← hsplit]
    simp
  have hjoined : (a ++ "\n" ++ b).toList = a.toList ++ '\n' :: b.toList := by simp
  refine ⟨located {} ks, located (Position.advance {} (letters ks)) (blank blanks),
    located (Position.advance {} (letters ks)) [(.trivia .whitespace, blanks ++ '\n' :: lead)],
    located {} (blank lead), located (Position.advance {} lead) rest, ?_, ?_, ?_,
    visible_located_blank _ _, rfl, visible_located_blank _ _⟩
  · rw [tokens, ha, located_append]
  · rw [tokens, hjoined, hab, List.append_cons, located_append, hletters, ← located_moved,
      ← Position.advance_moved, ← advance_lineFeed, ← Position.advance_append, located_append,
      List.append_assoc]
  · rw [tokens, lexemes_eq_blank_append, located_append, letters_blank]

end Rulebook
