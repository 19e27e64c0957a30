import Rulebook.Proofs.WrittenCode
import Rulebook.Proofs.WrittenPatterns

/-!
# Written conditions

Trees of conditions as they are written: groups between connectives or behind one, with parentheses
where the precedence of the connectives asks for them. A phrase is such a tree with the choices made
in writing it.
-/

namespace Rulebook

open Lexeme

/-! ### Parts of phrases -/

/-- The code of an `eval`, and as many frames as it takes to read it. -/
structure EvalText (settings : Settings) where
  text : String
  frames : Nat
  code : IsCode settings.hashComments .lparen .rparen text
  nests : Nests settings.hashComments .lparen .rparen frames text
  ends : Parser.endsInSemicolon text = false

structure Sourceless (settings : Settings) extends PatternText settings where
  source : pattern.source = .workingMemory

/-- Groups of one operand. -/
inductive Unary where
  | exists_ | not
  deriving DecidableEq

/-- Groups of operands that are joined by connectives. -/
inductive Junction where
  | and | or
  deriving DecidableEq

/-- How a connective is spelled. -/
inductive Spelling where
  | word | symbol

/-- Where the connective of a group is written: between the operands, or before them in parentheses.
These stand for the parentheses that an operand needs, unless further ones are put around them. -/
inductive Style where
  | between
  | before (further : Bool)

def Unary.keyword : Unary → Keyword
  | exists_ => .exists_
  | not => .not

def Unary.grouping : Unary → Grouping
  | exists_ => .exists_
  | not => .not

def Junction.keyword : Junction → Keyword
  | and => .and
  | or => .or

def Junction.symbol : Junction → Symbol
  | and => .doubleAmper
  | or => .doublePipe

def Junction.grouping : Junction → Grouping
  | and => .and
  | or => .or

def Junction.connectives : Junction → List TokenKind
  | and => Parser.andKinds
  | or => Parser.orKinds

def Junction.spelled (kind : Junction) : Spelling → String
  | .word => kind.keyword.text
  | .symbol => kind.symbol.text

def Junction.connective (kind : Junction) : Spelling → Piece
  | .word => .keyword kind.keyword
  | .symbol => .symbol kind.symbol

/-! ### Phrases -/

variable {settings : Settings}

mutual

/-- A condition with the choices made in writing it. -/
inductive Phrase (settings : Settings) where
  | pattern (p : PatternText settings)
  | eval (code : EvalText settings)
  | unary (kind : Unary) (operand : Phrase settings)
  | forall_ (base next : Sourceless settings) (others : List (Sourceless settings))
  | group (kind : Junction) (style : Style) (first : Phrase settings) (others : Operands settings)

/-- The operands of a group behind the first one, and how the connective before each is spelled. -/
inductive Operands (settings : Settings) where
  | one (spelling : Spelling) (x : Phrase settings)
  | cons (spelling : Spelling) (x : Phrase settings) (others : Operands settings)

end

def Operands.list : Operands settings → List (Spelling × Phrase settings)
  | .one s x => [(s, x)]
  | .cons s x others => (s, x) :: others.list

namespace Phrase

/-- Parentheses stand around it already. -/
def isEnclosed : Phrase settings → Bool
  | .group _ (.before further) _ _ => !further
  | _ => false

/-- It needs parentheses as an operand of `exists` or `not`. -/
def wrapsAlone : Phrase settings → Bool
  | .pattern _ => false
  | x => !x.isEnclosed

/-- It needs parentheses among the operands of a group that is written with connectives between
them. -/
def wrapsIn (kind : Junction) : Phrase settings → Bool
  | x@(.group k _ _ _) => (k = kind || kind = .and && k = .or) && !x.isEnclosed
  | _ => false

end Phrase

def enclose (wraps : Bool) (text : String) : String := if wraps then "(" ++ text ++ ")" else text

mutual

def Phrase.text : Phrase settings → String
  | .pattern p => p.text
  | .eval code => "eval(" ++ code.text ++ ")"
  | .unary kind x => kind.keyword.text ++ " " ++ enclose x.wrapsAlone x.text
  | .forall_ base next others =>
    "forall(" ++ base.text ++ String.join ((next :: others).map fun p => ", " ++ p.text) ++ ")"
  | .group kind .between first others =>
    enclose (first.wrapsIn kind) first.text ++ others.joinedText kind
  | .group kind (.before _) first others =>
    "(" ++ kind.keyword.text ++ " " ++ enclose (!first.isEnclosed) first.text ++
      others.listedText ++ ")"

def Operands.joinedText (kind : Junction) : Operands settings → String
  | .one s x => " " ++ kind.spelled s ++ " " ++ enclose (x.wrapsIn kind) x.text
  | .cons s x others =>
    " " ++ kind.spelled s ++ " " ++ enclose (x.wrapsIn kind) x.text ++ others.joinedText kind

def Operands.listedText : Operands settings → String
  | .one _ x => " " ++ enclose (!x.isEnclosed) x.text
  | .cons _ x others => " " ++ enclose (!x.isEnclosed) x.text ++ others.listedText

end

def framesIn (wraps : Bool) (frames : Nat) : Nat :=
  if wraps then Parser.Nesting.group.frames + frames else frames

def framesOf (ps : List (Sourceless settings)) : Nat := (ps.map (·.frames)).foldr max 0

mutual

/-- The frames that it takes to read a phrase. Those of groups within groups add up. -/
def Phrase.frames : Phrase settings → Nat
  | .pattern p => p.frames
  | .eval code => code.frames
  | .unary _ x => Parser.Nesting.operand.frames + framesIn x.wrapsAlone x.frames
  | .forall_ base next others => framesOf (base :: next :: others)
  | .group kind .between first others =>
    max (framesIn (first.wrapsIn kind) first.frames) (others.joinedFrames kind)
  | .group _ (.before _) first others =>
    Parser.Nesting.prefixed.frames + max (framesIn (!first.isEnclosed) first.frames)
      others.listedFrames

def Operands.joinedFrames (kind : Junction) : Operands settings → Nat
  | .one _ x => framesIn (x.wrapsIn kind) x.frames
  | .cons _ x others => max (framesIn (x.wrapsIn kind) x.frames) (others.joinedFrames kind)

def Operands.listedFrames : Operands settings → Nat
  | .one _ x => framesIn (!x.isEnclosed) x.frames
  | .cons _ x others => max (framesIn (!x.isEnclosed) x.frames) others.listedFrames

end

mutual

/-- A condition is the tree that is written, with each pattern as it is read alone. -/
inductive Phrase.Describes : Phrase settings → Condition → Prop
  | pattern {p : PatternText settings} {b : Pattern} (h : p.Describes b) :
      Phrase.Describes (.pattern p) (.pattern b)
  | eval (code : EvalText settings) (l : Location) :
      Phrase.Describes (.eval code) (.eval l code.text)
  | unary (kind : Unary) (l : Location) {x : Phrase settings} {c : Condition} (h : x.Describes c) :
      Phrase.Describes (.unary kind x) (.group kind.grouping l [c])
  | forall_ (l : Location) {base next : Sourceless settings} {others : List (Sourceless settings)}
      {bs : List Pattern}
      (h : List.Forall₂ (fun p => p.toPatternText.Describes) (base :: next :: others) bs) :
      Phrase.Describes (.forall_ base next others) (.group .forall_ l (bs.map .pattern))
  | group (kind : Junction) (style : Style) (l : Location) {first : Phrase settings}
      {others : Operands settings} {c : Condition} {cs : List Condition} (h : first.Describes c)
      (hs : others.Describe cs) :
      Phrase.Describes (.group kind style first others) (.group kind.grouping l (c :: cs))

inductive Operands.Describe : Operands settings → List Condition → Prop
  | one (s : Spelling) {x : Phrase settings} {c : Condition} (h : x.Describes c) :
      Operands.Describe (.one s x) [c]
  | cons (s : Spelling) {x : Phrase settings} {others : Operands settings} {c : Condition}
      {cs : List Condition} (h : x.Describes c) (hs : others.Describe cs) :
      Operands.Describe (.cons s x others) (c :: cs)

end

/-! ### Pieces -/

def wrap (wraps : Bool) (l : List Piece) : List Piece :=
  if wraps then .symbol .lparen :: (l ++ [.symbol .rparen]) else l

def commaPattern (p : Sourceless settings) : List Piece := .symbol .comma :: .blank :: p.pieces

def EvalText.pieces (code : EvalText settings) : List Piece :=
  lexemes settings.hashComments code.text.toList

mutual

def Phrase.pieces : Phrase settings → List Piece
  | .pattern p => p.pieces
  | .eval code => .keyword .eval :: .symbol .lparen :: (code.pieces ++ [.symbol .rparen])
  | .unary kind x => .keyword kind.keyword :: .blank :: wrap x.wrapsAlone x.pieces
  | .forall_ base next others =>
    .keyword .forall_ :: .symbol .lparen ::
      (base.pieces ++ ((next :: others).flatMap commaPattern ++ [.symbol .rparen]))
  | .group kind .between first others =>
    wrap (first.wrapsIn kind) first.pieces ++ others.joined kind
  | .group kind (.before _) first others =>
    .symbol .lparen :: .keyword kind.keyword ::
      (.blank :: wrap (!first.isEnclosed) first.pieces ++ (others.listed ++ [.symbol .rparen]))

def Operands.joined (kind : Junction) : Operands settings → List Piece
  | .one s x => .blank :: kind.connective s :: .blank :: wrap (x.wrapsIn kind) x.pieces
  | .cons s x others =>
    .blank :: kind.connective s :: .blank :: (wrap (x.wrapsIn kind) x.pieces ++ others.joined kind)

def Operands.listed : Operands settings → List Piece
  | .one _ x => .blank :: wrap (!x.isEnclosed) x.pieces
  | .cons _ x others => .blank :: (wrap (!x.isEnclosed) x.pieces ++ others.listed)

end

theorem letters_wrap {wraps : Bool} {l : List Piece} {text : String} (h : letters l = text.toList) :
    letters (wrap wraps l) = (enclose wraps text).toList := by
  unfold wrap enclose
  split
  · simp [letters_append, h, Symbol.text]
  · exact h

theorem Junction.letters_connective (kind : Junction) (s : Spelling) (l : List Piece) :
    letters (kind.connective s :: l) = (kind.spelled s).toList ++ letters l := by
  cases s <;> rfl

theorem letters_commas (ps : List (Sourceless settings)) :
    letters (ps.flatMap commaPattern) = (String.join (ps.map fun p => ", " ++ p.text)).toList := by
  induction ps with
  | nil => rfl
  | cons p ps ih =>
    rw [List.flatMap_cons, letters_append, ih]
    simp [commaPattern, PatternText.letters_pieces, Symbol.text]

mutual

theorem Phrase.letters_pieces : (x : Phrase settings) → letters x.pieces = x.text.toList
  | .pattern p => p.letters_pieces
  | .eval code => by
    simp [Phrase.pieces, Phrase.text, letters_append, EvalText.pieces, letters_lexemes, Symbol.text,
      Keyword.text]
  | .unary kind x => by
    simp [Phrase.pieces, Phrase.text, letters_wrap x.letters_pieces]
  | .forall_ base next others => by
    rw [Phrase.pieces, Phrase.text]
    simp [letters_append, letters_commas, commaPattern, PatternText.letters_pieces, Symbol.text,
      Keyword.text]
  | .group kind .between first others => by
    rw [Phrase.pieces, Phrase.text, letters_append, letters_wrap first.letters_pieces,
      others.letters_joined, String.toList_append]
  | .group kind (.before _) first others => by
    simp [Phrase.pieces, Phrase.text, letters_append, letters_wrap first.letters_pieces,
      others.letters_listed, Symbol.text]

theorem Operands.letters_joined (kind : Junction) : (others : Operands settings) →
    letters (others.joined kind) = (others.joinedText kind).toList
  | .one s x => by
    simp [Operands.joined, Operands.joinedText, kind.letters_connective,
      letters_wrap x.letters_pieces]
  | .cons s x others => by
    simp [Operands.joined, Operands.joinedText, kind.letters_connective, letters_append,
      letters_wrap x.letters_pieces, others.letters_joined kind]

theorem Operands.letters_listed : (others : Operands settings) →
    letters others.listed = others.listedText.toList
  | .one s x => by
    simp [Operands.listed, Operands.listedText, letters_wrap x.letters_pieces]
  | .cons s x others => by
    simp [Operands.listed, Operands.listedText, letters_append, letters_wrap x.letters_pieces,
      others.letters_listed]

end

/-! ### How phrases begin -/

/-- What a phrase may begin with. -/
def startKinds : List TokenKind :=
  [.identifier, .keyword .eval, .keyword .exists_, .keyword .not, .keyword .forall_,
   .symbol .lparen]

theorem Unary.keyword_mem (kind : Unary) : TokenKind.keyword kind.keyword ∈ startKinds := by
  cases kind <;> decide

theorem Phrase.nextKind_mem (l : List Piece) : (x : Phrase settings) →
    nextKind (x.pieces ++ l) ∈ startKinds
  | .pattern p => by
    rw [Phrase.pieces, p.nextKind_pieces]
    decide
  | .eval _ => by
    rw [Phrase.pieces]
    exact .tail _ (.head _)
  | .unary kind _ => by
    rw [Phrase.pieces]
    exact kind.keyword_mem
  | .forall_ _ _ _ => by
    rw [Phrase.pieces]
    exact .tail _ (.tail _ (.tail _ (.tail _ (.head _))))
  | .group kind .between first others => by
    rw [Phrase.pieces, List.append_assoc]
    unfold wrap
    split
    · exact List.mem_of_getLast? rfl
    · exact first.nextKind_mem _
  | .group _ (.before _) _ _ => by
    rw [Phrase.pieces]
    exact List.mem_of_getLast? rfl

theorem nextKind_wrap_mem (wraps : Bool) (x : Phrase settings) (l : List Piece) :
    nextKind (wrap wraps x.pieces ++ l) ∈ startKinds := by
  unfold wrap
  split
  · exact List.mem_of_getLast? rfl
  · exact x.nextKind_mem l

theorem Phrase.not_separator (rest : List Char) : (x : Phrase settings) →
    ∀ d ∈ (letters x.pieces ++ rest).head?, isSeparator d = false
  | .pattern p => by
    obtain ⟨y, l, hpieces, hy⟩ := p.exists_pieces
    rw [Phrase.pieces, p.letters_pieces]
    exact fun d hd => isSeparator_of_isNameStart
      (isNameStart_of_lexemes hpieces (by rw [hy]; rfl) d hd)
  | .eval code => by
    rw [Phrase.pieces]
    exact fun d hd => by cases hd; decide
  | .unary kind x => by
    rw [Phrase.pieces]
    cases kind <;> exact fun d hd => by cases hd; decide
  | .forall_ _ _ _ => by
    rw [Phrase.pieces]
    exact fun d hd => by cases hd; decide
  | .group kind .between first others => by
    rw [Phrase.pieces, letters_append, List.append_assoc]
    unfold wrap
    split
    · exact fun d hd => by cases hd; decide
    · exact first.not_separator _
  | .group _ (.before _) _ _ => by
    rw [Phrase.pieces]
    exact fun d hd => by cases hd; decide

/-! ### Scanning -/

theorem Divided.rparen (rest : List Char) : Divided (letters [Piece.symbol .rparen] ++ rest) :=
  .cons (d := ')') (by decide) rest

theorem scans_wrap {hashComments wraps : Bool} {l : List Piece} {rest : List Char}
    (h : ∀ {rest}, Divided rest → Scans hashComments l rest) (hrest : Divided rest) :
    Scans hashComments (wrap wraps l) rest := by
  unfold wrap
  split
  · exact .cons (.symbol (by decide)) (.append (h (.rparen rest)) (.symbol (by decide)))
  · exact h hrest

theorem Phrase.scans_behind_blank (x : Phrase settings) {wraps : Bool} {rest : List Char}
    (h : Scans settings.hashComments (wrap wraps x.pieces) rest) :
    Scans settings.hashComments (.blank :: wrap wraps x.pieces) rest := by
  refine .cons (.blank ?_) h
  unfold wrap
  split
  · exact fun d hd => by cases hd; decide
  · exact x.not_separator _

theorem Junction.scans_connective (kind : Junction) (s : Spelling) (rest : List Char) :
    Scans settings.hashComments [.blank, kind.connective s] (' ' :: rest) := by
  cases s with
  | word =>
    refine .cons (.blank ?_) (.keyword kind.keyword (.cons (d := ' ') (by decide) rest))
    cases kind <;> exact fun d hd => by cases hd; decide
  | symbol =>
    refine .cons (.blank ?_) (.symbol (by cases kind <;> decide))
    cases kind <;> exact fun d hd => by cases hd; decide

theorem divided_commas (ps : List (Sourceless settings)) {rest : List Char} (hrest : Divided rest) :
    Divided (letters (ps.flatMap commaPattern) ++ rest) := by
  cases ps with
  | nil => exact hrest
  | cons p ps => exact .cons (d := ',') (by decide) _

theorem scans_commas (ps : List (Sourceless settings)) {rest : List Char} (hrest : Divided rest) :
    Scans settings.hashComments (ps.flatMap commaPattern) rest := by
  induction ps with
  | nil => exact .nil
  | cons p ps ih =>
    refine .append (.cons (.symbol (by decide)) (.cons (.blank ?_) (p.scans ?_))) ih
    · exact Phrase.not_separator _ (.pattern p.toPatternText)
    · exact divided_commas ps hrest

theorem Operands.divided_joined (kind : Junction) (others : Operands settings) (rest : List Char) :
    Divided (letters (others.joined kind) ++ rest) := by
  cases others <;> rw [Operands.joined] <;> exact .cons (d := ' ') (by decide) _

theorem Operands.divided_listed (others : Operands settings) (rest : List Char) :
    Divided (letters others.listed ++ rest) := by
  cases others <;> rw [Operands.listed] <;> exact .cons (d := ' ') (by decide) _

mutual

theorem Phrase.scans : (x : Phrase settings) → {rest : List Char} → Divided rest →
    Scans settings.hashComments x.pieces rest
  | .pattern p, _, h => p.scans h
  | .eval code, _, h => by
    rw [Phrase.pieces]
    refine .cons (.keyword .eval (.cons (by decide) _)) (.cons (.symbol (by decide)) ?_)
    exact .append (code.code.scans (by decide) (by decide) _) (.symbol (by decide))
  | .unary kind x, _, h => by
    rw [Phrase.pieces]
    refine .cons (.keyword kind.keyword (.cons (by decide) _)) ?_
    exact x.scans_behind_blank (scans_wrap x.scans h)
  | .forall_ base next others, _, h => by
    rw [Phrase.pieces]
    refine .cons (.keyword .forall_ (.cons (by decide) _)) (.cons (.symbol (by decide)) ?_)
    refine .append (base.scans ?_) (.append (scans_commas _ (.rparen _)) (.symbol (by decide)))
    exact .cons (d := ',') (by decide) _
  | .group kind .between first others, _, h => by
    rw [Phrase.pieces]
    exact .append (scans_wrap first.scans (others.divided_joined kind _))
      (others.scans_joined kind h)
  | .group kind (.before _) first others, _, h => by
    rw [Phrase.pieces]
    refine .cons (.symbol (by decide)) (.cons (.keyword kind.keyword (.cons (by decide) _)) ?_)
    refine .append (first.scans_behind_blank (scans_wrap first.scans ?_))
      (.append (others.scans_listed (.rparen _)) (.symbol (by decide)))
    rw [letters_append, List.append_assoc]
    exact others.divided_listed _

theorem Operands.scans_joined (kind : Junction) : (others : Operands settings) →
    {rest : List Char} → Divided rest → Scans settings.hashComments (others.joined kind) rest
  | .one s x, _, h => by
    rw [Operands.joined]
    exact .append (l := [.blank, kind.connective s]) (kind.scans_connective s _)
      (x.scans_behind_blank (scans_wrap x.scans h))
  | .cons s x others, _, h => by
    rw [Operands.joined]
    refine .append (l := [.blank, kind.connective s]) (kind.scans_connective s _) ?_
    exact .append (x.scans_behind_blank (scans_wrap x.scans (others.divided_joined kind _)))
      (others.scans_joined kind h)

theorem Operands.scans_listed : (others : Operands settings) → {rest : List Char} → Divided rest →
    Scans settings.hashComments others.listed rest
  | .one _ x, _, h => by
    rw [Operands.listed]
    exact x.scans_behind_blank (scans_wrap x.scans h)
  | .cons _ x others, _, h => by
    rw [Operands.listed]
    exact .append (x.scans_behind_blank (scans_wrap x.scans (others.divided_listed _)))
      (others.scans_listed h)

end

theorem Phrase.lexemes_text (x : Phrase settings) :
    lexemes settings.hashComments x.text.toList = x.pieces := by
  have h := @Phrase.scans settings x [] fun d hd => by cases hd
  rwa [Scans, List.append_nil, x.letters_pieces, lexemes, List.append_nil] at h

end Rulebook
