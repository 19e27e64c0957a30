import Rulebook.Proofs.Boundaries
import Rulebook.Proofs.Taking
import Rulebook.Proofs.WrittenCode

/-!
# Tokens written next to each other

Where tokens are written without anything between them, the scanner may take the beginning of one
for the end of the one before: two words become one, a number takes the digits behind it, two
characters become an operator. Which texts a token takes further characters from is told by the
token and what follows, and tokens next to each other are scanned as they were just if none does.
-/

namespace Rulebook

open Lexeme

variable {hashComments : Bool} {kind : TokenKind} {c d : Char} {tail rest cs : List Char}
  {x : Piece} {l : List Piece}

/-! ### When a token takes further characters -/

def startsFraction : List Char → Bool
  | '.' :: d :: _ => isDigit d
  | _ => false

/-- Two characters that are one token, or begin a comment. -/
def joinedPairs : List (Char × Char) :=
  [('=', '='), ('!', '='), ('>', '='), ('<', '='), ('-', '>'), ('&', '&'), ('|', '|'), ('/', '/'),
   ('/', '*')]

/-- A single character and what follows begin another token. -/
def joins (c : Char) : List Char → Bool
  | [] => false
  | d :: _ => decide ((c, d) ∈ joinedPairs) || (c == '-' && isDigit d)

/-- The characters of a token and what follows directly are not scanned as that token first. -/
def runsOn : List Char → List Char → Bool
  | [], _ => false
  | c :: cs, rest =>
    if c = '\x22' ∨ c = '\x27' then false
    else if startsNumber c cs then startsWithDigit rest || (!cs.contains '.' && startsFraction rest)
    else if isNameStart c then
      !endsName rest || (hyphenated? (String.ofList (c :: cs)) rest).isSome
    else cs.isEmpty && joins c rest

/-- A token that is scanned alone as it is, a string being closed. -/
structure Piece.Whole (hashComments : Bool) (x : Piece) : Prop where
  alone : lexemes hashComments x.2 = [x]
  solid : x.1.isTrivia = false
  quoted : x.1 = .literal .string → Quoted x.2

/-- No token runs on into what stands behind it. -/
def apart : List Piece → Bool
  | [] => true
  | x :: l => !runsOn x.2 (letters l) && apart l

/-! ### The first of several tokens -/

/-- A token keeps its characters before others just if it is scanned first. -/
theorem scans_singleton : Scans hashComments [(kind, c :: tail)] rest ↔
    lexeme hashComments c (tail ++ rest) = ⟨kind, tail, rest⟩ := by
  have happend := lexeme_tail_append_left hashComments c (tail ++ rest)
  unfold Scans
  rw [letters_cons, letters_nil, List.append_nil, List.cons_append, lexemes_cons,
    List.singleton_append, List.cons.injEq, Prod.mk.injEq, List.cons.injEq]
  constructor
  · rintro ⟨⟨hkind, -, htail⟩, -⟩
    rw [htail] at happend
    have hleft := List.append_cancel_left happend
    generalize lexeme hashComments c (tail ++ rest) = e at *
    obtain ⟨k, t, left⟩ := e
    rw [← hkind, ← htail, ← hleft]
  · intro heq
    rw [heq]
    exact ⟨⟨rfl, rfl, rfl⟩, rfl⟩

/-- Tokens keep their characters just if the first one does and the others do. -/
theorem scans_cons : Scans hashComments ((kind, c :: tail) :: l) rest ↔
    Scans hashComments [(kind, c :: tail)] (letters l ++ rest) ∧ Scans hashComments l rest := by
  refine ⟨fun h => ?_, fun h => .cons h.1 h.2⟩
  have happend := lexeme_tail_append_left hashComments c (tail ++ (letters l ++ rest))
  unfold Scans at h
  rw [letters_cons, List.cons_append, List.cons_append, List.append_assoc, lexemes_cons,
    List.cons_append, List.cons.injEq, Prod.mk.injEq, List.cons.injEq] at h
  obtain ⟨⟨hkind, -, htail⟩, hrest⟩ := h
  rw [htail] at happend
  have hleft := List.append_cancel_left happend
  rw [hleft] at hrest
  refine ⟨scans_singleton.2 ?_, hrest⟩
  generalize lexeme hashComments c (tail ++ (letters l ++ rest)) = e at *
  obtain ⟨k, t, left⟩ := e
  rw [← hkind, ← htail, ← hleft]

/-! ### Numbers -/

section Numbers

/-- A run of characters ends before what does not begin with one of its sort. -/
theorem takeWhile_append_eq {p : Char → Bool} (hall : ∀ a ∈ tail, p a = true) :
    (tail ++ rest).takeWhile p = tail ↔ ∀ d ∈ rest.head?, p d = false := by
  rw [List.takeWhile_append_of_pos hall, List.append_right_eq_self]
  cases rest with
  | nil => simp
  | cons d rest => cases hd : p d <;> simp [hd]

theorem dropWhile_append_eq {p : Char → Bool} (hall : ∀ a ∈ tail, p a = true)
    (hrest : ∀ d ∈ rest.head?, p d = false) : (tail ++ rest).dropWhile p = rest := by
  rw [List.dropWhile_append_of_pos hall]
  cases rest with
  | nil => rfl
  | cons d rest => exact List.dropWhile_cons_of_neg (by simp [hrest d rfl])

theorem startsWithDigit_eq_false :
    startsWithDigit rest = false ↔ ∀ d ∈ rest.head?, isDigit d = false := by
  cases rest with
  | nil => simp [startsWithDigit]
  | cons d rest => simp [startsWithDigit]

theorem startsFraction_eq_false :
    startsFraction rest = false ↔ ∀ d left, rest = '.' :: d :: left → isDigit d = false := by
  constructor
  · rintro h d left rfl
    exact h
  · intro h
    unfold startsFraction
    split
    · next d left => exact h d left rfl
    · rfl

theorem numberTail_eq_int : (numberTail cs).1 = .int ↔
    ∀ d left, cs.dropWhile isDigit = '.' :: d :: left → isDigit d = false := by
  constructor
  · intro h d left hleft
    refine Bool.eq_false_iff.2 fun hd => ?_
    rw [numberTail_float hleft hd] at h
    cases h
  · intro h
    rw [numberTail_int h]

theorem numberTail_int_append (h : numberTail tail = (.int, tail, [])) :
    '.' ∉ tail ∧ (numberTail (tail ++ rest) = (.int, tail, rest) ↔
      (startsWithDigit rest || startsFraction rest) = false) := by
  have hdigits := h
  rw [numberTail_int (numberTail_eq_int.1 (congrArg Prod.fst h))] at hdigits
  have hall : ∀ a ∈ tail, isDigit a = true := fun a ha => by
    rw [← (Prod.mk.inj (Prod.mk.inj hdigits).2).1] at ha
    exact List.mem_takeWhile_imp ha
  refine ⟨fun hdot => absurd (hall _ hdot) (by decide), ?_⟩
  rw [Bool.or_eq_false_iff, startsWithDigit_eq_false, startsFraction_eq_false]
  constructor
  · intro heq
    have hint := numberTail_eq_int.1 (congrArg Prod.fst heq)
    rw [numberTail_int hint] at heq
    have hrest := (takeWhile_append_eq hall).1 (Prod.mk.inj (Prod.mk.inj heq).2).1
    rw [dropWhile_append_eq hall hrest] at hint
    exact ⟨hrest, hint⟩
  · rintro ⟨hrest, hint⟩
    have hdrop := dropWhile_append_eq hall hrest
    rw [numberTail_int (by rwa [hdrop]), (takeWhile_append_eq hall).2 hrest, hdrop]

theorem numberTail_float_append (h : numberTail tail = (.float, tail, [])) :
    '.' ∈ tail ∧
    (numberTail (tail ++ rest) = (.float, tail, rest) ↔ startsWithDigit rest = false) := by
  obtain ⟨d, left, hleft, hd⟩ : ∃ d left, tail.dropWhile isDigit = '.' :: d :: left ∧
      isDigit d = true := by
    by_contra hno
    have hint := numberTail_eq_int.2 fun d left hleft =>
      Bool.eq_false_iff.2 fun hd => hno ⟨d, left, hleft, hd⟩
    rw [h] at hint
    cases hint
  rw [numberTail_float hleft hd, Prod.mk.injEq, Prod.mk.injEq] at h
  obtain ⟨-, htail, hnil⟩ := h
  have hall : ∀ a ∈ tail.takeWhile isDigit, isDigit a = true := fun a ha =>
    List.mem_takeWhile_imp ha
  have hfraction : ∀ a ∈ d :: left, isDigit a = true := List.dropWhile_eq_nil_iff.1 hnil
  have hpoint : ∀ a ∈ ('.' :: d :: left ++ rest).head?, isDigit a = false := by
    intro a ha
    cases ha
    decide
  have hsplit : tail ++ rest = tail.takeWhile isDigit ++ ('.' :: d :: left ++ rest) := by
    rw [← hleft, ← List.append_assoc, List.takeWhile_append_dropWhile]
  refine ⟨?_, ?_⟩
  · rw [← List.takeWhile_append_dropWhile (p := isDigit) (l := tail), hleft]
    exact List.mem_append_right _ List.mem_cons_self
  · have hbehind : (tail ++ rest).dropWhile isDigit = '.' :: d :: (left ++ rest) := by
      rw [hsplit, dropWhile_append_eq hall hpoint]
      rfl
    have hbefore : (tail ++ rest).takeWhile isDigit = tail.takeWhile isDigit := by
      rw [hsplit, (takeWhile_append_eq hall).2 hpoint]
    have hwhole : tail = tail.takeWhile isDigit ++ '.' :: (d :: left) := by
      conv_lhs => rw [← List.takeWhile_append_dropWhile (p := isDigit) (l := tail), hleft]
    rw [numberTail_float hbehind hd, hbefore, startsWithDigit_eq_false, ← List.cons_append]
    constructor
    · intro heq
      have htaken := (Prod.mk.inj (Prod.mk.inj heq).2).1.trans hwhole
      exact (takeWhile_append_eq hfraction).1 (List.cons.inj (List.append_cancel_left htaken)).2
    · intro hrest
      rw [(takeWhile_append_eq hfraction).2 hrest, dropWhile_append_eq hfraction hrest, ← hwhole]

theorem numberTail_kind (cs : List Char) :
    (numberTail cs).1 = .int ∨ (numberTail cs).1 = .float := by
  unfold numberTail
  dsimp only
  repeat' split
  all_goals simp

def numberLexeme (n : Literal × List Char × List Char) : Lexeme :=
  ⟨.literal n.1, n.2.1, n.2.2⟩

theorem numberLexeme_eq_iff {n : Literal × List Char × List Char} {l : Literal} :
    numberLexeme n = ⟨.literal l, tail, rest⟩ ↔ n = (l, tail, rest) := by
  obtain ⟨l', tail', rest'⟩ := n
  simp [numberLexeme]

theorem number_append (h : numberLexeme (numberTail tail) = ⟨kind, tail, []⟩) :
    numberLexeme (numberTail (tail ++ rest)) = ⟨kind, tail, rest⟩ ↔
      (startsWithDigit rest || (!tail.contains '.' && startsFraction rest)) = false := by
  obtain rfl := (Lexeme.mk.inj h).1
  have hwhole := numberLexeme_eq_iff.1 h
  rw [numberLexeme_eq_iff]
  rcases numberTail_kind tail with hint | hfloat
  · rw [hint] at hwhole ⊢
    obtain ⟨hdot, happend⟩ := @numberTail_int_append tail rest hwhole
    have hpoint : tail.contains '.' = false := Bool.eq_false_iff.2 fun h =>
      hdot (List.contains_iff_mem.1 h)
    rw [happend, hpoint, Bool.not_false, Bool.true_and]
  · rw [hfloat] at hwhole ⊢
    obtain ⟨hdot, happend⟩ := @numberTail_float_append tail rest hwhole
    rw [happend, List.contains_iff_mem.2 hdot, Bool.not_true, Bool.false_and, Bool.or_false]

end Numbers

/-! ### Words -/

section Words

theorem endsName_eq_true : endsName rest = true ↔ ∀ d ∈ rest.head?, isNamePart d = false := by
  cases rest with
  | nil => simp [endsName]
  | cons d rest => simp [endsName]

theorem hyphenated?_eq_some_iff {text : String} {ending left : List Char} {k : Keyword} :
    hyphenated? text cs = some (k, ending, left) ↔
      (text, String.ofList ending, k) ∈ hyphenated ∧ cs = ending ++ left ∧
      endsName left = true := by
  constructor
  · exact hyphenated?_some
  · rintro ⟨hmem, hcs, hends⟩
    have hsome : (hyphenated.findSome? (goesOn? text cs)).isSome = true :=
      List.findSome?_isSome_iff.2 ⟨_, hmem, by
        rw [goesOn?_eq_some_iff.2 ⟨rfl, hcs, hends⟩]
        rfl⟩
    obtain ⟨⟨k', ending', left'⟩, hfound⟩ := Option.isSome_iff_exists.1 hsome
    obtain ⟨he, hcs', -⟩ := hyphenated?_some hfound
    -- two endings behind one stem part within what they share
    have hendings : hyphenated.all (fun e => hyphenated.all fun e' =>
        e.1 != e'.1 || e == e' || !e.2.1.toList.isPrefixOf e'.2.1.toList) = true := by decide
    have hsame : ∀ {ending ending' : List Char} {k k' : Keyword},
        (text, String.ofList ending, k) ∈ hyphenated →
        (text, String.ofList ending', k') ∈ hyphenated →
        ending <+: ending' → ending = ending' ∧ k = k' := by
      intro ending ending' k k' he he' hpre
      have hpair := List.all_eq_true.1 (List.all_eq_true.1 hendings _ he) _ he'
      simp only [bne_self_eq_false, Bool.false_or, Bool.or_eq_true, beq_iff_eq, Prod.mk.injEq,
        true_and, Bool.not_eq_true', String.toList_ofList] at hpair
      rcases hpair with ⟨hending, hk⟩ | hno
      · exact ⟨String.ofList_injective hending, hk⟩
      · rw [List.isPrefixOf_iff_prefix.2 hpre] at hno
        cases hno
    have hequal : ending' = ending ∧ k' = k := by
      rcases List.prefix_or_prefix_of_prefix (List.prefix_append ending left)
          (hcs ▸ hcs' ▸ List.prefix_append ending' left') with hpre | hpre
      · exact (hsame hmem he hpre).imp Eq.symm Eq.symm
      · exact hsame he hmem hpre
    obtain ⟨rfl, rfl⟩ := hequal
    rw [hyphenated?_eq, hfound, List.append_cancel_left (hcs'.symm.trans hcs)]

theorem hyphenated?_of_mem (h : '-' ∈ cs) : hyphenated? (String.ofList cs) rest = none := by
  cases hfound : hyphenated? (String.ofList cs) rest with
  | none => rfl
  | some y =>
    have hstems : hyphenated.all (fun e => !e.1.toList.contains '-') = true := by decide
    have hstem := List.all_eq_true.1 hstems _ (hyphenated?_eq_some_iff.1 hfound).1
    rw [String.toList_ofList] at hstem
    simp [h] at hstem

theorem exists_ending {text : String} {ending left : List Char} {k : Keyword}
    (h : hyphenated? text cs = some (k, ending, left)) : ∃ more, ending = '-' :: more := by
  have hall : hyphenated.all (fun e => e.2.1.toList.head? == some '-') = true := by decide
  have hhead := List.all_eq_true.1 hall _ (hyphenated?_eq_some_iff.1 h).1
  rw [String.toList_ofList, beq_iff_eq] at hhead
  obtain ⟨more, rfl⟩ := List.head?_eq_some_iff.1 hhead
  exact ⟨more, rfl⟩

theorem word_append_plain (hall : ∀ a ∈ tail, isNamePart a = true) :
    word c (tail ++ rest) = ⟨wordKind (String.ofList (c :: tail)), tail, rest⟩ ↔
      endsName rest = true ∧ hyphenated? (String.ofList (c :: tail)) rest = none := by
  unfold word
  dsimp only
  constructor
  · intro heq
    have hends : endsName rest = true := by
      rw [endsName_eq_true, ← takeWhile_append_eq hall, List.takeWhile_append_of_pos hall]
      split at heq
      · next hfound =>
        have htail := congrArg Lexeme.tail heq
        dsimp only at htail
        rw [List.takeWhile_append_of_pos hall, List.append_assoc] at htail
        rw [(List.append_eq_nil_iff.1 (List.append_right_eq_self.1 htail)).1, List.append_nil]
      · have htail := congrArg Lexeme.tail heq
        dsimp only at htail
        rwa [List.takeWhile_append_of_pos hall] at htail
    have hrest := endsName_eq_true.1 hends
    rw [(takeWhile_append_eq hall).2 hrest, dropWhile_append_eq hall hrest] at heq
    refine ⟨hends, ?_⟩
    cases hfound : hyphenated? (String.ofList (c :: tail)) rest with
    | none => rfl
    | some y =>
      obtain ⟨k, ending, left⟩ := y
      obtain ⟨more, rfl⟩ := exists_ending hfound
      rw [hfound] at heq
      exact absurd (List.append_right_eq_self.1 (congrArg Lexeme.tail heq)) (by simp)
  · rintro ⟨hends, hnone⟩
    have hrest := endsName_eq_true.1 hends
    rw [(takeWhile_append_eq hall).2 hrest, dropWhile_append_eq hall hrest, hnone]

theorem word_append_hyphenated {w ending : List Char} {k : Keyword}
    (hall : ∀ a ∈ w, isNamePart a = true)
    (h : hyphenated? (String.ofList (c :: w)) ending = some (k, ending, [])) :
    word c (w ++ ending ++ rest) = ⟨.keyword k, w ++ ending, rest⟩ ↔ endsName rest = true := by
  obtain ⟨hmem, -, -⟩ := hyphenated?_eq_some_iff.1 h
  obtain ⟨more, rfl⟩ := exists_ending h
  have hminus : ∀ d ∈ ('-' :: more ++ rest).head?, isNamePart d = false := by
    rintro d ⟨⟩
    decide
  unfold word
  dsimp only
  rw [List.append_assoc, (takeWhile_append_eq hall).2 hminus, dropWhile_append_eq hall hminus]
  constructor
  · intro heq
    split at heq
    · next hfound =>
      have hends := (hyphenated?_eq_some_iff.1 hfound).2.2
      rwa [(Lexeme.mk.inj heq).2.2] at hends
    · exact absurd (List.self_eq_append_right.1 (congrArg Lexeme.tail heq)) (List.cons_ne_nil _ _)
  · intro hends
    rw [hyphenated?_eq_some_iff.2 ⟨hmem, rfl, hends⟩]

theorem word_append (h : word c tail = ⟨kind, tail, []⟩) :
    word c (tail ++ rest) = ⟨kind, tail, rest⟩ ↔
      (!endsName rest || (hyphenated? (String.ofList (c :: tail)) rest).isSome) = false := by
  rw [Bool.or_eq_false_iff, Bool.not_eq_false', Option.isSome_eq_false_iff,
    Option.isNone_iff_eq_none]
  have hparts : ∀ a ∈ tail.takeWhile isNamePart, isNamePart a = true :=
    fun a ha => List.mem_takeWhile_imp ha
  have hsplit := List.takeWhile_append_dropWhile (p := isNamePart) (l := tail)
  unfold word at h
  dsimp only at h
  cases hfound : hyphenated? (String.ofList (c :: tail.takeWhile isNamePart))
      (tail.dropWhile isNamePart) with
  | none =>
    rw [hfound] at h
    obtain ⟨hkind, htail, -⟩ := Lexeme.mk.inj h
    rw [htail] at hparts hkind
    rw [← hkind]
    exact word_append_plain hparts
  | some y =>
    obtain ⟨k, ending, left⟩ := y
    rw [hfound] at h
    obtain ⟨rfl, htail, rfl⟩ := Lexeme.mk.inj h
    rw [List.append_cancel_left (hsplit.trans htail.symm)] at hfound
    obtain ⟨more, rfl⟩ := exists_ending hfound
    have hmem : '-' ∈ c :: tail := by
      rw [← htail]
      exact List.mem_cons_of_mem _ (List.mem_append_right _ List.mem_cons_self)
    have hrun := @word_append_hyphenated c rest _ _ _ hparts hfound
    rw [htail] at hrun
    rw [hrun, hyphenated?_of_mem hmem]
    exact (and_iff_left rfl).symm

end Words

/-! ### Operators -/

section Operators

theorem Solid.append (h : Solid hashComments c (d :: tail)) : Solid hashComments c (d :: rest) :=
  ⟨h.separator, h.lineComment, h.blockComment⟩

/-- Only a slash makes a blank or a comment of a character that is none alone. -/
theorem Solid.eq_slash (h : Solid hashComments c []) (hno : ¬Solid hashComments c (d :: rest)) :
    c = '/' ∧ (d = '/' ∨ d = '*') := by
  by_contra hother
  have hhash := h.lineComment
  refine hno ⟨h.separator, ?_, fun ⟨hslash, hstar⟩ => hother ⟨hslash, .inr (Option.some.inj hstar)⟩⟩
  rw [isLineComment, Bool.or_eq_false_iff] at hhash ⊢
  refine ⟨?_, hhash.2⟩
  rw [Bool.and_eq_false_iff, beq_eq_false_iff_ne, beq_eq_false_iff_ne]
  by_cases hslash : c = '/'
  · exact .inr fun hd => hother ⟨hslash, .inl (Option.some.inj hd)⟩
  · exact .inl hslash

theorem lexeme_joined (h : (c, d) ∈ joinedPairs) (hsolid : Solid hashComments c (d :: rest)) :
    (lexeme hashComments c (d :: rest)).tail = [d] := by
  simp only [joinedPairs, List.mem_cons, Prod.mk.injEq, List.not_mem_nil, or_false] at h
  rcases h with ⟨rfl, rfl⟩ | ⟨rfl, rfl⟩ | ⟨rfl, rfl⟩ | ⟨rfl, rfl⟩ | ⟨rfl, rfl⟩ | ⟨rfl, rfl⟩ |
    ⟨rfl, rfl⟩ | ⟨rfl, rfl⟩ | ⟨rfl, rfl⟩
  case inr.inr.inr.inr.inr.inr.inr.inl => cases hsolid.lineComment
  case inr.inr.inr.inr.inr.inr.inr.inr => exact absurd ⟨rfl, rfl⟩ hsolid.blockComment
  all_goals
    rw [lexeme_symbol hsolid (by decide) (by rfl) (by decide)]
    rfl

theorem mem_joinedPairs {l : Lexeme} (h : symbol? c [d] = some l) (htail : l.tail = [d]) :
    (c, d) ∈ joinedPairs := by
  unfold symbol? at h
  split at h
  all_goals first
    | contradiction
    | (obtain rfl := Option.some.inj h
       cases htail <;> decide)

theorem symbol?_apart (h : (c, d) ∉ joinedPairs) :
    symbol? c (d :: rest) = (symbol? c []).map fun l => ⟨l.kind, [], d :: rest⟩ := by
  rw [symbol?_cons]
  cases hsymbol : symbol? c [d] with
  | none => rw [symbol?_nil_of_none hsymbol]; rfl
  | some l =>
    rcases List.append_eq_singleton_iff.1 (symbol?_tail_append_left hsymbol) with
      ⟨htail, -⟩ | ⟨htail, -⟩
    · rw [symbol?_nil_of_some hsymbol htail, Option.map_some, Option.map_some, htail]
      rfl
    · exact absurd (mem_joinedPairs hsymbol htail) h

theorem operator_append (hsolid : Solid hashComments c []) (hquote : ¬(c = '\x22' ∨ c = '\x27'))
    (hnumber : startsNumber c [] = false) (hname : isNameStart c = false) :
    lexeme hashComments c rest = ⟨(lexeme hashComments c []).kind, [], rest⟩ ↔
      joins c rest = false := by
  have halone := lexeme_symbol hsolid hquote hnumber hname
  have hkind := kind_of_solid hsolid hquote
  cases rest with
  | nil =>
    refine iff_of_true ?_ rfl
    have hnil := List.append_eq_nil_iff.1 (lexeme_tail_append_left hashComments c [])
    generalize lexeme hashComments c [] = l at hnil ⊢
    obtain ⟨kind, tail, left⟩ := l
    obtain ⟨rfl, rfl⟩ := hnil
    rfl
  | cons d rest =>
    rw [joins, Bool.or_eq_false_iff, decide_eq_false_iff_not]
    by_cases hsolid' : Solid hashComments c (d :: rest)
    case neg =>
      obtain ⟨rfl, hd⟩ := hsolid.eq_slash hsolid'
      refine iff_of_false (fun heq => hsolid' (solid_of_kind ?_)) fun hno => hno.1 ?_
      · rw [heq]
        exact hkind.1
      · rcases hd with rfl | rfl <;> decide
    by_cases hpair : (c, d) ∈ joinedPairs
    · refine iff_of_false (fun heq => ?_) fun hno => hno.1 hpair
      have htail := congrArg Lexeme.tail heq
      rw [lexeme_joined hpair hsolid'] at htail
      cases htail
    have hstarts : startsNumber c (d :: rest) = (c == '-' && isDigit d) := by
      rw [startsNumber, (Bool.or_eq_false_iff.1 hnumber).1, Bool.false_or]
      rfl
    rw [← hstarts]
    cases hnumber' : startsNumber c (d :: rest) with
    | true =>
      refine iff_of_false (fun heq => ?_) fun hno => Bool.noConfusion hno.2
      obtain rfl := beq_iff_eq.1 (Bool.and_eq_true_iff.1 (hstarts.symm.trans hnumber')).1
      have hkinds := congrArg Lexeme.kind heq
      rw [lexeme_number hsolid' hquote hnumber', halone] at hkinds
      cases hkinds
    | false =>
      refine iff_of_true ?_ ⟨hpair, rfl⟩
      rw [lexeme_symbol hsolid' hquote hnumber' hname, symbol?_apart hpair, halone]
      cases symbol? c [] <;> rfl

/-- An operator of two characters takes no more. -/
theorem symbol?_append (h : symbol? c (d :: tail) = some ⟨kind, d :: tail, []⟩) :
    symbol? c (d :: tail ++ rest) = some ⟨kind, d :: tail, rest⟩ := by
  rw [symbol?_cons] at h
  rw [List.cons_append, symbol?_cons]
  obtain ⟨l, hl, heq⟩ := Option.map_eq_some_iff.1 h
  obtain ⟨rfl, htail, hdrop⟩ := Lexeme.mk.inj heq
  have hsplit := symbol?_tail_append_left hl
  rw [htail, List.cons_append, List.cons.injEq, List.append_eq_nil_iff] at hsplit
  obtain ⟨-, rfl, -⟩ := hsplit
  rw [hl, Option.map_some, htail]
  rfl

end Operators

/-! ### Pieces next to each other -/

section Pieces

theorem solid_of_startsNumber (h : startsNumber c tail = true) : Solid hashComments c rest := by
  have hne : ∀ e, isDigit e = false → e ≠ '-' → c ≠ e := by
    rintro e hdigit hminus rfl
    rw [startsNumber, hdigit, Bool.false_or, Bool.and_eq_true, beq_iff_eq] at h
    exact hminus h.1
  refine ⟨Bool.eq_false_iff.2 fun hseparator => ?_,
    ?_, fun hblock => hne '/' (by decide) (by decide) hblock.1⟩
  · simp only [isSeparator, Bool.or_eq_true, beq_iff_eq] at hseparator
    rcases hseparator with (((rfl | rfl) | rfl) | rfl) | rfl
    all_goals exact hne _ (by decide) (by decide) rfl
  · simp [isLineComment, hne '/' (by decide) (by decide), hne '#' (by decide) (by decide)]

theorem solid_of_quote (h : c = '\x22' ∨ c = '\x27') : Solid hashComments c rest := by
  rcases h with rfl | rfl
  all_goals exact ⟨by decide, by cases hashComments <;> rfl, fun hblock =>
    absurd hblock.1 (by decide)⟩

theorem startsNumber_append (h : startsNumber c tail = true) :
    startsNumber c (tail ++ rest) = true := by
  cases tail with
  | nil =>
    rw [startsNumber, startsWithDigit, Bool.and_false, Bool.or_false] at h
    rw [startsNumber, h, Bool.true_or]
  | cons d tail => exact h

theorem Piece.Whole.lexeme_eq (h : Piece.Whole hashComments (kind, c :: tail)) :
    lexeme hashComments c tail = ⟨kind, tail, []⟩ := by
  have halone : Scans hashComments [(kind, c :: tail)] [] := by
    have hlexemes := h.alone
    unfold Scans
    rw [letters_cons, letters_nil, List.append_nil, List.append_nil, hlexemes, lexemes]
    rfl
  simpa using scans_singleton.1 halone

/-- A token keeps its characters just if it does not run on into what stands behind it. -/
theorem Piece.Whole.scans_iff (h : Piece.Whole hashComments x) :
    Scans hashComments [x] rest ↔ runsOn x.2 rest = false := by
  obtain ⟨kind, cs⟩ := x
  cases cs with
  | nil =>
    have halone := h.alone
    rw [lexemes] at halone
    cases halone
  | cons c tail =>
  have hlexeme := h.lexeme_eq
  have hsolid : Solid hashComments c tail := solid_of_kind (by rw [hlexeme]; exact h.solid)
  rw [scans_singleton, runsOn]
  by_cases hquote : c = '\x22' ∨ c = '\x27'
  · rw [lexeme_string hsolid hquote] at hlexeme
    have hquoted := h.quoted (Lexeme.mk.inj hlexeme).1.symm rest
    rw [if_pos hquote, lexeme_string (solid_of_quote hquote) hquote, hquoted,
      (Lexeme.mk.inj hlexeme).1]
    exact iff_of_true rfl rfl
  rw [if_neg hquote]
  cases hnumber : startsNumber c tail with
  | true =>
    rw [lexeme_number hsolid hquote hnumber] at hlexeme
    rw [if_pos rfl,
      lexeme_number (solid_of_startsNumber hnumber) hquote (startsNumber_append hnumber)]
    exact number_append hlexeme
  | false =>
  rw [if_neg Bool.false_ne_true]
  cases hname : isNameStart c with
  | true =>
    rw [lexeme_of_isNameStart hname] at hlexeme
    rw [if_pos rfl, lexeme_of_isNameStart hname, word_append hlexeme]
  | false =>
    rw [if_neg Bool.false_ne_true]
    cases tail with
    | nil =>
      have hoperator := @operator_append hashComments c rest hsolid hquote hnumber hname
      rw [hlexeme] at hoperator
      exact hoperator
    | cons d tail =>
      rw [lexeme_symbol hsolid hquote hnumber hname] at hlexeme
      rw [List.cons_append,
        @lexeme_symbol _ _ (d :: (tail ++ rest)) hsolid.append hquote hnumber hname]
      refine iff_of_true ?_ rfl
      cases hsymbol : symbol? c (d :: tail) with
      | none => rw [hsymbol] at hlexeme; cases hlexeme
      | some l =>
        rw [hsymbol] at hlexeme
        obtain rfl : l = ⟨kind, d :: tail, []⟩ := hlexeme
        rw [← List.cons_append, symbol?_append hsymbol]
        rfl

/-- Tokens written next to each other are scanned as they were just if none runs on. -/
theorem scans_iff_apart (h : ∀ x ∈ l, Piece.Whole hashComments x) :
    lexemes hashComments (letters l) = l ↔ apart l = true := by
  have hscans : lexemes hashComments (letters l) = l ↔ Scans hashComments l [] := by
    unfold Scans
    rw [List.append_nil, lexemes, List.append_nil]
  rw [hscans]
  clear hscans
  induction l with
  | nil => exact iff_of_true Scans.nil rfl
  | cons x l ih =>
    obtain ⟨kind, cs⟩ := x
    cases cs with
    | nil =>
      have halone := (h _ List.mem_cons_self).alone
      rw [lexemes] at halone
      cases halone
    | cons c tail =>
      rw [scans_cons, (h _ List.mem_cons_self).scans_iff, List.append_nil, apart, Bool.and_eq_true,
        Bool.not_eq_true']
      exact and_congr_right fun _ => ih fun x hx => h x (List.mem_cons_of_mem _ hx)

end Pieces

/-! ### Types -/

namespace Parser

variable {text w w' : String} {s t u : State} {ts us : List Token}

structure State.Spells (s t : State) (ts : List Token) (w : String) : Prop where
  evolves : s.Evolves t
  took : s.Took t ts
  spelled : spell ts = w

theorem State.Spells.trans (h : s.Spells t ts w) (h' : t.Spells u us w') :
    s.Spells u (ts ++ us) (w ++ w') where
  evolves := h.evolves.trans h'.evolves
  took := h.took.trans h'.took
  spelled := by rw [spell_append, h.spelled, h'.spelled]

theorem State.Spells.shows (h : s.Spells t ts w) (hs : s.cursor.Shows hashComments text) :
    t.cursor.Shows hashComments text := by
  unfold Cursor.Shows
  rw [h.evolves.cursor, hs]
  rfl

def EndsUnquoted (ts : List Token) : Prop := ∀ t ∈ ts.getLast?, t.kind ≠ .literal .string

theorem endsUnquoted_concat {t : Token} (h : t.kind ≠ .literal .string) :
    EndsUnquoted (ts ++ [t]) := by
  intro x hx
  rw [List.getLast?_concat] at hx
  obtain rfl := Option.some.inj hx
  exact h

theorem EndsUnquoted.append (h : EndsUnquoted ts) (h' : EndsUnquoted us) :
    EndsUnquoted (ts ++ us) := by
  intro x hx
  rw [List.getLast?_append] at hx
  rcases Option.or_eq_some_iff.1 hx with hus | ⟨-, hts⟩
  · exact h' x hus
  · exact h x hts

theorem spells_advanced (hs : s.cursor.triviaVisible = false)
    (hk : s.cursor.current.kind ≠ .endOfInput) :
    s.Spells s.advanced [s.cursor.current] s.cursor.current.text :=
  ⟨Orderly.evolves_advanced s, took_advanced hs hk, by rw [spell_cons]; exact String.append_empty⟩

theorem spells_symbol {k : Symbol} (hs : s.cursor.triviaVisible = false)
    (hshows : s.cursor.Shows hashComments text) (hk : s.cursor.current.kind = .symbol k) :
    s.Spells s.advanced [s.cursor.current] k.text := by
  have hend : s.cursor.current.kind ≠ .endOfInput := by rw [hk]; simp
  have hmem : s.cursor.current ∈ tokens hashComments text := by
    rw [← hshows.front]
    exact List.mem_of_mem_drop (Cursor.current_mem_rest hend)
  rw [← text_of_symbol_kind hmem hk]
  exact spells_advanced hs hend

theorem spells_of_name {token : Token} (hs : s.cursor.triviaVisible = false)
    (h : name s = .ok token t) : s.Spells t [token] token.text ∧ token.kind ≠ .literal .string := by
  rw [name_eq] at h
  split at h
  · next hname =>
    obtain ⟨rfl, rfl⟩ := EStateM.Result.ok.inj h
    refine ⟨spells_advanced hs (Eager.ne_endOfInput_of_isName hname), fun hk => ?_⟩
    rw [Token.isName, hk] at hname
    cases hname
  · cases h

theorem spells_of_dottedName (hs : s.cursor.triviaVisible = false)
    (hshows : s.cursor.Shows hashComments text) (h : dottedName s = .ok w t) :
    ∃ ts, s.Spells t ts w ∧ EndsUnquoted ts := by
  obtain ⟨first, u, hu, h⟩ := bind_eq_ok.1 h
  obtain ⟨hfirst, hplain⟩ := spells_of_name hs hu
  let I (v : State) (w : String) : Prop := ∃ ts, s.Spells v ts w ∧ EndsUnquoted ts
  refine repeatWhile_invariant (I := I) (fun h => by cases h; rfl) ?_
    ⟨_, hfirst, @endsUnquoted_concat [] _ hplain⟩ h
  rintro w _ v x hmore ⟨ts, hspells, -⟩ hbody
  have hv := hspells.evolves.triviaVisible.trans hs
  have hdot := spells_symbol hv (hspells.shows hshows) (kind_of_nextIsSymbol hmore).2
  rw [bind_of_ok (advance_eq v)] at hbody
  obtain ⟨part, y, hy, hbody⟩ := bind_eq_ok.1 hbody
  obtain ⟨rfl, rfl⟩ := pure_ok hbody
  obtain ⟨hpart, hplain⟩ := spells_of_name (hdot.evolves.triviaVisible.trans hv) hy
  exact ⟨_, (hspells.trans hdot).trans hpart, endsUnquoted_concat hplain⟩

/-- A round of generic arguments closes the first pair only with its symbol. -/
theorem genericRound_of_ok {depth : Nat} {x : String × Nat} (hdepth : depth ≠ 0)
    (h : genericRound (w, depth) s = .ok x t) : s.cursor.current.kind ≠ .endOfInput ∧
      t = s.advanced ∧ x.1 = w ++ s.cursor.current.text ∧
      (x.2 = 0 → s.cursor.current.kind = .symbol .greater) := by
  replace h := (bind_of_ok (current_eq s)).symm.trans h
  by_cases hend : s.cursor.current.kind = .endOfInput
  · rw [if_pos hend] at h
    cases h
  · rw [if_neg hend] at h
    obtain ⟨rfl, rfl⟩ := EStateM.Result.ok.inj h
    refine ⟨hend, rfl, rfl, fun hzero => ?_⟩
    dsimp only at hzero
    split at hzero
    · cases hzero
    · split at hzero
      · assumption
      · exact absurd hzero hdepth

theorem spells_of_genericArguments (hs : s.cursor.triviaVisible = false)
    (hk : s.cursor.current.kind ≠ .endOfInput) (h : genericArguments s = .ok w t) :
    ∃ ts, s.Spells t ts w ∧ EndsUnquoted ts := by
  unfold genericArguments at h
  rw [bind_of_ok (advance_eq s)] at h
  obtain ⟨⟨w', depth⟩, u, hu, h⟩ := bind_eq_ok.1 h
  obtain ⟨rfl, rfl⟩ := pure_ok h
  have hrolls : Rolls (fun x => return x.2 ≠ 0) genericRound := .of_eager fun _ s => ⟨_, rfl⟩
  have hasks : ∀ {a b s t}, (fun x : String × Nat => (return x.2 ≠ 0 : Parser Bool)) a s = .ok b t →
      t = s := fun h => (pure_ok h).2
  let I (v : State) (x : String × Nat) : Prop :=
    ∃ ts, s.Spells v ts x.1 ∧ (x.2 = 0 → EndsUnquoted ts)
  have hinvariant : I t (w, depth) := by
    refine repeatWhile_invariant (I := I) hasks ?_
      ⟨_, spells_advanced hs hk, fun hzero => absurd hzero Nat.one_ne_zero⟩ hu
    rintro ⟨w, depth⟩ x v y hmore ⟨ts, hspells, -⟩ hbody
    have hv := hspells.evolves.triviaVisible.trans hs
    have hdepth : depth ≠ 0 := of_decide_eq_true (EStateM.Result.ok.inj hmore).1
    obtain ⟨hend, rfl, hw, hcloses⟩ := genericRound_of_ok hdepth hbody
    refine ⟨_, hw ▸ hspells.trans (spells_advanced hv hend), fun hzero => ?_⟩
    exact endsUnquoted_concat (by rw [hcloses hzero]; simp)
  obtain ⟨ts, hspells, hends⟩ := hinvariant
  have hstop := hrolls.done hasks hu
  exact ⟨ts, hspells,
    hends (Decidable.not_not.1 (of_decide_eq_false (EStateM.Result.ok.inj hstop).1))⟩

theorem spells_of_arraySuffixes {first : String} (hs : s.cursor.triviaVisible = false)
    (hshows : s.cursor.Shows hashComments text) (h : arraySuffixes first (· ++ "[]") t = .ok w u)
    (hfirst : s.Spells t ts first) (hends : EndsUnquoted ts) :
    ∃ us, s.Spells u us w ∧ EndsUnquoted us := by
  let I (v : State) (w : String) : Prop := ∃ ts, s.Spells v ts w ∧ EndsUnquoted ts
  refine repeatWhile_invariant (I := I) (fun h => by cases h; rfl) ?_ ⟨_, hfirst, hends⟩ h
  rintro w _ v x hmore ⟨ts, hspells, -⟩ hbody
  have hv := hspells.evolves.triviaVisible.trans hs
  have hopening := spells_symbol hv (hspells.shows hshows) (kind_of_nextIsSymbol hmore).2
  rw [bind_of_ok (advance_eq v)] at hbody
  obtain ⟨_, y, hy, hbody⟩ := bind_eq_ok.1 hbody
  obtain ⟨rfl, rfl⟩ := pure_ok hbody
  obtain ⟨rfl, hkind, rfl⟩ := expect_of_ok hy
  have hclosing := spells_symbol (hopening.evolves.triviaVisible.trans hv)
    ((hspells.trans hopening).shows hshows) hkind
  have hpair := hopening.trans hclosing
  refine ⟨_, hspells.trans hpair, ?_⟩
  rw [← List.append_assoc]
  exact endsUnquoted_concat (by rw [hkind]; simp)

theorem spells_of_typeName (hs : s.cursor.triviaVisible = false)
    (hshows : s.cursor.Shows hashComments text) (h : typeName s = .ok w t) :
    ∃ ts, s.Spells t ts w ∧ EndsUnquoted ts := by
  obtain ⟨base, u, hu, h⟩ := bind_eq_ok.1 h
  obtain ⟨ts, hbase, hends⟩ := spells_of_dottedName hs hshows hu
  have hu' := hbase.evolves.triviaVisible.trans hs
  rw [bind_of_ok
    (show nextIsSymbol .less u =
      .ok (decide (u.cursor.current.kind = .symbol .less)) u from rfl)] at h
  by_cases hless : u.cursor.current.kind = .symbol .less
  · rw [if_pos (decide_eq_true hless)] at h
    obtain ⟨generic, v, hgeneric, h⟩ := bind_eq_ok.1 h
    obtain ⟨arguments, harguments, rfl⟩ := map_eq_ok hgeneric
    obtain ⟨us, hspells, hplain⟩ := spells_of_genericArguments hu' (by rw [hless]; simp) harguments
    exact spells_of_arraySuffixes hs hshows h (hbase.trans hspells) (hends.append hplain)
  · rw [if_neg (by simpa using hless)] at h
    exact spells_of_arraySuffixes hs hshows h hbase hends

/-- A token of a text is scanned alone as it is, and is closed if others stand behind it. -/
theorem whole_of_tokens {t : Token} (h : tokens hashComments text = ts ++ t :: us)
    (hsolid : t.isTrivia = false) (hends : us = [] → t.kind ≠ .literal .string) :
    Piece.Whole hashComments t.piece := by
  have hlexemes : lexemes hashComments text.toList =
      ts.map Token.piece ++ ([t.piece] ++ us.map Token.piece) := by
    rw [← map_piece_located {} (lexemes hashComments text.toList)]
    show (tokens hashComments text).map Token.piece = _
    rw [h, List.map_append, List.map_cons]
    rfl
  have halone := lexemes_between hlexemes
  have hbehind := lexemes_behind hlexemes
  rw [letters_cons, letters_nil, List.append_nil] at halone
  refine ⟨halone, hsolid, fun hstring => ?_⟩
  have hne : us ≠ [] := fun hnil => hends hnil hstring
  generalize t.piece = x at hbehind halone hstring ⊢
  obtain ⟨kind, cs⟩ := x
  cases cs with
  | nil => rw [lexemes] at halone; cases halone
  | cons c tail =>
  rw [List.singleton_append, letters_cons, List.cons_append, lexemes_cons, List.cons.injEq,
    Prod.mk.injEq, List.cons.injEq] at hbehind
  obtain ⟨⟨hkind, -, htail⟩, hleft⟩ := hbehind
  have hsolid : Solid hashComments c (tail ++ letters (us.map Token.piece)) :=
    solid_of_kind (by rw [hkind, show kind = _ from hstring]; rfl)
  have hne' : (lexeme hashComments c (tail ++ letters (us.map Token.piece))).left ≠ [] := by
    intro hnil
    rw [hnil, lexemes] at hleft
    exact hne (List.map_eq_nil_iff.1 hleft.symm)
  have hended := @ended_of_left hashComments c ')' _ hne' hsolid.separator hsolid.lineComment
  rw [hkind, htail] at hended
  exact hended.string hstring

/-- What was taken last is no string, so the strings that were taken are closed. -/
theorem whole_of_ahead (hshows : s.cursor.Shows hashComments text)
    (hahead : s.cursor.ahead = ts ++ us) (hends : EndsUnquoted ts) :
    ∀ x ∈ ts.map Token.piece, Piece.Whole hashComments x := by
  intro x hx
  obtain ⟨t, ht, rfl⟩ := List.mem_map.1 hx
  obtain ⟨before, behind, rfl⟩ := List.append_of_mem ht
  rw [List.append_assoc, List.cons_append] at hahead
  obtain ⟨passed, rest, hrest, -, hfrom⟩ := List.filter_eq_append_iff.1 hahead
  obtain ⟨trivia, more, rfl, -, hsolid, hmore⟩ := List.filter_eq_cons_iff.1 hfrom
  have htokens : tokens hashComments text =
      (s.cursor.front.toList.take s.cursor.index ++ (passed ++ trivia)) ++ t :: more := by
    rw [← hshows.front, List.append_assoc, List.append_assoc, ← hrest]
    exact (List.take_append_drop ..).symm
  refine whole_of_tokens htokens (by simpa using hsolid) fun hnil => ?_
  rw [hnil, List.filter_nil] at hmore
  obtain ⟨rfl, -⟩ := List.append_eq_nil_iff.1 hmore.symm
  exact hends t (by rw [List.getLast?_concat]; rfl)

theorem map_shape_eq_iff : us.map Token.shape = ts.map Token.shape ↔
    us.map Token.piece = ts.map Token.piece := by
  have hshape : Token.shape = (fun x : Piece => (x.1, String.ofList x.2)) ∘ Token.piece := by
    funext t
    simp [Token.shape, Token.piece]
  have hinjective : Function.Injective fun x : Piece => (x.1, String.ofList x.2) := by
    rintro ⟨kind, cs⟩ ⟨kind', cs'⟩ h
    obtain ⟨hkind, htext⟩ := Prod.mk.inj h
    exact Prod.ext hkind (String.ofList_injective htext)
  rw [hshape, ← List.map_map, ← List.map_map]
  exact (List.map_injective_iff.2 hinjective).eq_iff

/-- What is stored for a type is its tokens without what stands between them. It is scanned as these
tokens just if none of them runs on into the next. -/
theorem type_rescanned {type : String} (hs : s.Reading hashComments text)
    (h : typeName s = .ok type t) : ∃ ts, s.cursor.ahead = ts ++ t.cursor.ahead ∧ type = spell ts ∧
      ((tokens hashComments type).map Token.shape = ts.map Token.shape ↔
        apart (ts.map Token.piece) = true) := by
  obtain ⟨ts, hspells, hends⟩ := spells_of_typeName hs.hidden hs.shows h
  have hahead := hspells.took.ahead_eq hspells.evolves
  refine ⟨ts, hahead, hspells.spelled.symm, ?_⟩
  have hpieces : (tokens hashComments type).map Token.piece =
      lexemes hashComments (letters (ts.map Token.piece)) := by
    rw [tokens, map_piece_located, ← hspells.spelled, spell_eq, String.toList_ofList]
  rw [map_shape_eq_iff, hpieces, scans_iff_apart (whole_of_ahead hs.shows hahead hends)]

/-- Names, brackets and commas keep apart. -/
theorem type_rescanned_generic :
    ∃ t ts, typeName (State.ofText 900 {} "" "Map<String, List<Integer>>[]") =
      .ok "Map<String,List<Integer>>[]" t ∧ t.cursor.ahead = [] ∧
    (tokens true "Map<String,List<Integer>>[]").map Token.shape = ts.map Token.shape ∧
    (State.ofText 900 {} "" "Map<String, List<Integer>>[]").cursor.ahead = ts := by
  have hresult : (match typeName (State.ofText 900 {} "" "Map<String, List<Integer>>[]") with
      | .ok type t => some (type, t.cursor.ahead)
      | .error .. => none) = some ("Map<String,List<Integer>>[]", []) := by
    decide +kernel
  cases h : typeName (State.ofText 900 {} "" "Map<String, List<Integer>>[]") with
  | error f t => rw [h] at hresult; cases hresult
  | ok type t =>
    rw [h] at hresult
    obtain ⟨rfl, hend⟩ := Prod.mk.inj (Option.some.inj hresult)
    obtain ⟨ts, hahead, -, hiff⟩ := type_rescanned (reading_ofText 900 {} "" _) h
    rw [hend, List.append_nil] at hahead
    refine ⟨t, ts, rfl, hend, hiff.2 ?_, hahead⟩
    rw [← hahead]
    decide +kernel

/-- Two words next to each other are scanned as one. -/
theorem wildcard_fused : ¬ ∀ (text : String) (s t : State) (type : String),
    s.Reading true text → typeName s = .ok type t → ∃ ts, s.cursor.ahead = ts ++ t.cursor.ahead ∧
      (tokens true type).map Token.shape = ts.map Token.shape := by
  intro hall
  have hresult : (match typeName (State.ofText 900 {} "" "List<? extends Foo>") with
      | .ok type t => some (type, t.cursor.ahead)
      | .error .. => none) = some ("List<?extendsFoo>", []) := by
    decide +kernel
  cases h : typeName (State.ofText 900 {} "" "List<? extends Foo>") with
  | error f t => rw [h] at hresult; cases hresult
  | ok type t =>
    rw [h] at hresult
    obtain ⟨rfl, hend⟩ := Prod.mk.inj (Option.some.inj hresult)
    obtain ⟨ts, hahead, hshapes⟩ := hall _ _ t _ (reading_ofText 900 {} "" _) h
    rw [hend, List.append_nil] at hahead
    rw [← hahead] at hshapes
    revert hshapes
    decide +kernel

end Parser

end Rulebook
