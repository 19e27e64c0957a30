import Rulebook.Proofs.Choosing
import Rulebook.Proofs.WrittenTypes

/-!
# Written parameters

Parameters as they are written: a name with or without a type in front of it and pairs of brackets
behind it. Whether there is a type shows only behind the name.
-/

namespace Rulebook

open Lexeme

/-! ### A type in front of a name -/

def typeBefore : Option TypeExpr → List Piece
  | none => []
  | some t => t.pieces ++ [Piece.blank]

def typeBeforeText : Option TypeExpr → String
  | none => ""
  | some t => t.text ++ " "

section TypeBefore

variable {hashComments : Bool}

theorem letters_typeBefore (t : Option TypeExpr) :
    letters (typeBefore t) = (typeBeforeText t).toList := by
  cases t with
  | none => rfl
  | some t =>
    rw [typeBefore, typeBeforeText, letters_append, t.letters_pieces, String.toList_append]
    rfl

theorem scans_typeBefore (t : Option TypeExpr) (n : Name) (rest : List Char) :
    Scans hashComments (typeBefore t) (n.text.toList ++ rest) := by
  cases t with
  | none => exact .nil
  | some t => exact .append (t.scans (.cons (by decide) _)) (.blank_name n rest)

theorem scans_blank_typeBefore (t : Option TypeExpr) (n : Name) (rest : List Char) :
    Scans hashComments [.blank] (letters (typeBefore t) ++ (n.text.toList ++ rest)) := by
  cases t with
  | none => exact .blank_name n rest
  | some t =>
    rw [typeBefore, letters_append, List.append_assoc]
    exact t.scans_blank _

end TypeBefore

/-- A type and the name behind it begin with a name and pairs of brackets, and neither brackets nor
what may stand behind a name follow these. -/
theorem TypeExpr.exists_brackets (t : TypeExpr) (n : Name) (rest : List Piece) :
    ∃ (first : Name) (k : Nat) (l : List Piece),
      typeBefore (some t) ++ n.piece :: rest = first.piece :: (brackets k ++ l) ∧
        ∀ s ∈ [Symbol.lbracket, .comma, .lparen, .rparen], nextKind l ≠ .symbol s := by
  obtain ⟨⟨first, more⟩, arguments, pairs⟩ := t
  rw [typeBefore, List.append_assoc]
  cases more with
  | cons m more =>
    refine ⟨first, 0, (TypeExpr.mk ⟨first, m :: more⟩ arguments pairs).pieces.tail ++
      ([.blank] ++ n.piece :: rest), ?_, fun s hs => ?_⟩ <;> cases arguments
    · rfl
    · rfl
    all_goals
      have hdot : Symbol.dot ≠ s := fun h => by subst h; simp at hs
      simpa [TypeExpr.pieces, DottedName.pieces, DottedName.parts, dotPart] using hdot
  | nil =>
    cases arguments with
    | nil =>
      exact ⟨first, pairs, .blank :: n.piece :: rest, rfl, fun s _ => by simp [n.kind_ne_symbol]⟩
    | cons a as =>
      refine ⟨first, 0, (TypeExpr.mk ⟨first, []⟩ (a :: as) pairs).pieces.tail ++
        ([.blank] ++ n.piece :: rest), rfl, fun s hs => ?_⟩
      have hless : Symbol.less ≠ s := fun h => by subst h; simp at hs
      simpa [TypeExpr.pieces, DottedName.pieces, DottedName.parts] using hless

/-! ### Parameters -/

/-- A parameter: a type if there is one, a name, and the number of pairs of brackets behind it. -/
structure ParameterExpr where
  type : Option TypeExpr
  name : Name
  pairs : Nat

def suffixed (type : Option String) : Nat → Option String
  | 0 => type
  | n + 1 => some (type.getD "Object" ++ bracketText (n + 1))

theorem suffixed_succ (type : Option String) (n : Nat) :
    suffixed type (n + 1) = some ((suffixed type n).getD "Object" ++ "[]") := by
  cases n with
  | zero => rfl
  | succ n =>
    rw [suffixed, suffixed, Option.getD_some, String.append_assoc, bracketText,
      List.replicate_succ', String.join_append]
    rfl

namespace ParameterExpr

def text (p : ParameterExpr) : String := typeBeforeText p.type ++ p.name.text ++ bracketText p.pairs

def pieces (p : ParameterExpr) : List Piece := typeBefore p.type ++ p.name.piece :: brackets p.pairs

/-- What is meant by a parameter. -/
def meaning (p : ParameterExpr) : Parameter :=
  ⟨suffixed (p.type.map (·.text)) p.pairs, p.name.text⟩

theorem letters_pieces (p : ParameterExpr) : letters p.pieces = p.text.toList := by
  rw [pieces, text, letters_append, letters_typeBefore, Name.letters_piece, letters_brackets,
    String.toList_append, String.toList_append, List.append_assoc]

theorem scans (p : ParameterExpr) {hashComments : Bool} {rest : List Char} (h : Stops rest) :
    Scans hashComments p.pieces rest := by
  refine .append ?_ (.cons (.name p.name (stops_brackets p.pairs h)) (scans_brackets p.pairs))
  rw [Name.letters_piece, List.append_assoc]
  exact scans_typeBefore p.type p.name _

theorem scans_blank (p : ParameterExpr) {hashComments : Bool} (rest : List Char) :
    Scans hashComments [.blank] (letters p.pieces ++ rest) := by
  rw [pieces, letters_append, Name.letters_piece, List.append_assoc, List.append_assoc]
  exact scans_blank_typeBefore p.type p.name _

theorem exists_pieces (p : ParameterExpr) :
    ∃ (n : Name) (l : List Piece), p.pieces = n.piece :: l := by
  obtain ⟨type, name, pairs⟩ := p
  cases type with
  | none => exact ⟨name, _, rfl⟩
  | some t =>
    obtain ⟨first, k, l, heq, -⟩ := t.exists_brackets name (brackets pairs)
    exact ⟨first, _, heq⟩

end ParameterExpr

def moreParameters (ps : List ParameterExpr) : List Piece :=
  ps.flatMap fun p => .symbol .comma :: .blank :: p.pieces

def listedParameters : List ParameterExpr → List Piece
  | [] => []
  | p :: ps => p.pieces ++ moreParameters ps

def parameterPieces (ps : List ParameterExpr) : List Piece :=
  .symbol .lparen :: (listedParameters ps ++ [.symbol .rparen])

def parameterText (ps : List ParameterExpr) : String :=
  "(" ++ ", ".intercalate (ps.map (·.text)) ++ ")"

section

variable {hashComments : Bool} {rest : List Char}

theorem letters_parameterPieces (ps : List ParameterExpr) :
    letters (parameterPieces ps) = (parameterText ps).toList := by
  have hmore : ∀ qs : List ParameterExpr, letters (moreParameters qs) =
      (String.join ((qs.map (·.text)).map (", " ++ ·))).toList := fun qs => by
    rw [moreParameters, String.toList_join, List.map_map, List.flatMap_map]
    induction qs with
    | nil => rfl
    | cons q qs ih => simp [letters_append, q.letters_pieces, ih, Symbol.text]
  cases ps with
  | nil => rfl
  | cons p ps =>
    rw [parameterPieces, listedParameters, parameterText, List.map_cons, intercalate_cons,
      Piece.letters_symbol, letters_append, letters_append, p.letters_pieces, hmore]
    simp [Symbol.text]

theorem stops_moreParameters (ps : List ParameterExpr) (h : Stops rest) :
    Stops (letters (moreParameters ps) ++ rest) := by
  cases ps with
  | nil => exact h
  | cons p ps => exact .cons (by decide) _

theorem scans_moreParameters (ps : List ParameterExpr) (h : Stops rest) :
    Scans hashComments (moreParameters ps) rest := by
  induction ps with
  | nil => exact .nil
  | cons p ps ih =>
    refine .append (.cons (.symbol (by decide)) (.cons (p.scans_blank _) (p.scans ?_))) ih
    exact stops_moreParameters ps h

theorem scans_parameterPieces (ps : List ParameterExpr) :
    Scans hashComments (parameterPieces ps) rest := by
  refine .cons (.symbol (by decide)) (.append ?_ (.symbol (by decide)))
  have hclosing : Stops (letters [Piece.symbol .rparen] ++ rest) := .cons (by decide) _
  cases ps with
  | nil => exact .nil
  | cons p ps =>
    exact .append (p.scans (stops_moreParameters ps hclosing)) (scans_moreParameters ps hclosing)

end

/-! ### Brackets ahead -/

section

variable {l : List Piece}

theorem brackets_succ (k : Nat) :
    brackets (k + 1) = .symbol .lbracket :: .symbol .rbracket :: brackets k :=
  rfl

theorem kindAt_brackets (k n : Nat) : kindAt (2 * k + n) (brackets k ++ l) = kindAt n l := by
  induction k with
  | zero => rw [Nat.mul_zero, Nat.zero_add]; rfl
  | succ k ih =>
    rw [brackets_succ, List.cons_append, List.cons_append,
      show 2 * (k + 1) + n = 2 * k + n + 1 + 1 by omega, kindAt_symbol, kindAt_symbol, ih]

theorem le_length_brackets (k : Nat) : k ≤ ((brackets k).filter fun x => !x.isTrivia).length := by
  induction k with
  | zero => exact Nat.zero_le _
  | succ k ih =>
    rw [brackets_succ, List.filter_cons_of_pos rfl, List.filter_cons_of_pos rfl]
    exact Nat.succ_le_succ (Nat.le_succ_of_le ih)

end

namespace Parser

variable {I : State → Prop} [Lasting I] {l more : List Piece}

theorem parses_afterBrackets (hl : nextKind l ≠ .symbol .lbracket) {k fuel n : Nat} (hk : k < fuel)
    (h : ∀ i, kindAt (n + i) more = kindAt i (brackets k ++ l)) :
    Parses I (afterBrackets fuel n) [] more (· = n + 2 * k) := by
  induction k generalizing fuel n with
  | zero =>
    obtain ⟨fuel, rfl⟩ : ∃ m, fuel = m + 1 := ⟨fuel - 1, by omega⟩
    have hkind : kindAt n more = nextKind l := (h 0).trans (kindAt_zero l)
    refine (Parses.peek n).after fun token (htoken : token.kind = kindAt n more) => ?_
    rw [if_neg (by rw [htoken, hkind]; exact hl)]
    exact .pure rfl
  | succ k ih =>
    obtain ⟨fuel, rfl⟩ : ∃ m, fuel = m + 1 := ⟨fuel - 1, by omega⟩
    rw [brackets_succ] at h
    have hopening : kindAt n more = .symbol .lbracket := h 0
    have hclosing : kindAt (n + 1) more = .symbol .rbracket := (h 1).trans (kindAt_symbol 0 _ _)
    refine (Parses.peek n).after fun token (htoken : token.kind = kindAt n more) => ?_
    rw [if_pos (by rw [htoken, hopening])]
    refine (Parses.peek (n + 1)).after fun token (htoken : token.kind = kindAt (n + 1) more) => ?_
    rw [if_pos (by rw [htoken, hclosing])]
    refine (ih (n := n + 2) (by omega) fun i => ?_).mono fun m hm => by rw [hm]; omega
    rw [show n + 2 + i = n + (i + 1 + 1) by omega, h, List.cons_append, List.cons_append,
      kindAt_symbol, kindAt_symbol]

/-- Whether a parameter has a type shows behind its first name and the brackets there. -/
theorem parses_isUntyped (n : Name) (k : Nat) (hl : nextKind l ≠ .symbol .lbracket) :
    Parses I isUntyped [] (n.piece :: (brackets k ++ l))
      (· = decide (nextKind l ∈ [TokenKind.symbol .comma, .symbol .rparen])) := by
  refine Parses.ofCurrent fun token htoken => ?_
  have hname : token.isName = true := by
    rw [Token.isName, htoken]
    simpa using n.isName
  rw [if_pos hname]
  refine Parses.seen fun s hface => ?_
  have hfuel : k < s.cursor.remaining + 1 := by
    have hlength := Parses.length_filter_le_remaining hface
    have hk := le_length_brackets k
    rw [List.nil_append, List.filter_cons_of_pos (by simp), List.length_cons, List.filter_append,
      List.length_append] at hlength
    omega
  have hkind : ∀ i, kindAt (1 + i) (n.piece :: (brackets k ++ l)) = kindAt i (brackets k ++ l) :=
    fun i => by rw [Nat.add_comm, kindAt_succ n.isTrivia_piece]
  refine (parses_afterBrackets hl hfuel hkind).after fun m hm => ?_
  refine (Parses.peek m).after fun token htoken => .pure ?_
  rw [htoken, List.nil_append, hm, hkind, ← Nat.add_zero (2 * k), kindAt_brackets, kindAt_zero]

def AfterParameter (more : List Piece) : Prop :=
  nextKind more ∈ [TokenKind.symbol .comma, .symbol .rparen]

theorem parses_isUntyped_typeBefore (t : Option TypeExpr) (n : Name) (k : Nat)
    (h : AfterParameter more) :
    Parses I isUntyped [] (typeBefore t ++ n.piece :: (brackets k ++ more)) (· = t.isNone) := by
  cases t with
  | none =>
    have hbracket : nextKind more ≠ .symbol .lbracket := fun hno => by
      rw [AfterParameter, hno] at h
      simp at h
    refine (parses_isUntyped n k hbracket).mono fun b hb => ?_
    rw [hb]
    exact decide_eq_true h
  | some t =>
    obtain ⟨first, i, l, heq, hl⟩ := t.exists_brackets n (brackets k ++ more)
    rw [heq]
    refine (parses_isUntyped first i (hl _ (by simp))).mono fun b hb => ?_
    rw [hb]
    simp [hl]

theorem parses_someType (t : TypeExpr) (n : Name) (rest : List Piece) :
    Parses I (some <$> typeName) (typeBefore (some t)) (n.piece :: rest) (· = some t.text) :=
  Parses.blank_after <| (parses_typeName t (afterType_name n rest)).map fun text htext => by
    rw [htext]

theorem parses_parameter (p : ParameterExpr) (h : AfterParameter more) :
    Parses I parameter p.pieces more (· = p.meaning) := by
  have hbracket : nextKind more ≠ .symbol .lbracket := fun hno => by
    rw [AfterParameter, hno] at h
    simp at h
  obtain ⟨type, n, k⟩ := p
  refine (Parses.after (Q := (· = type.isNone)) ?_ fun b hb => ?_)
  · rw [ParameterExpr.pieces, List.append_assoc]
    exact parses_isUntyped_typeBefore type n k h
  have hname : ∀ a : Option String, a = type.map (·.text) → Parses I
      (do
        let name ← name
        let type ← arraySuffixes a fun t => some (t.getD "Object" ++ "[]")
        return (⟨type, name.text⟩ : Parameter)) (n.piece :: brackets k) more
      (· = (ParameterExpr.mk type n k).meaning) := fun a ha => by
    refine (parses_name n).bind (l := [n.piece]) fun name hname => ?_
    refine (parses_arraySuffixes (fun i a => a = suffixed (type.map (·.text)) i) ha
      (fun i a ha => ?_) k hbracket).before fun found hfound => .pure ?_
    · rw [ha, suffixed_succ]
    · rw [ParameterExpr.meaning, hfound, hname]
  cases type with
  | none =>
    rw [if_pos (by simp [hb])]
    exact (Parses.pure (Q := (· = none)) rfl).bind (l := []) hname
  | some t =>
    rw [if_neg (by simp [hb])]
    exact (parses_someType t n _).bind hname

theorem parses_parameterList (p : ParameterExpr) (ps : List ParameterExpr)
    (h : nextKind more = .symbol .rparen) :
    Parses I parameterList (p.pieces ++ moreParameters ps) more
      (· = (p :: ps).map (·.meaning)) := by
  have hafter :
      ∀ qs : List ParameterExpr, AfterParameter (moreParameters qs ++ more) := fun qs => by
    cases qs with
    | nil => exact (congrArg (· ∈ _) h).mpr (by simp)
    | cons q qs => simp [AfterParameter, moreParameters]
  refine (parses_parameter p (hafter ps)).bind fun first hfirst => ?_
  refine Parses.repeatWhile ps (fun done found => found = (p :: done).map (·.meaning)) ?_
    ?_ ?_ ?_ ?_
  · rw [hfirst]; rfl
  · intro q _
    simp
  · intro done q left found _ _
    exact (Parses.nextIsSymbol .comma).mono fun b hb => by simp [hb]
  · intro done q left found _ hfound
    refine (Parses.advance_symbol .comma).bind (l := [.symbol .comma]) fun _ _ => ?_
    refine ((parses_parameter q (hafter left)).before fun a ha => .pure ?_).blank
    rw [hfound, ha, ← List.cons_append, List.map_append]
    rfl
  · intro found _
    exact (Parses.nextIsSymbol .comma).mono fun b hb => by simp [hb, h]

/-- Parameters in parentheses are read back as they were written. -/
theorem parses_parameters (ps : List ParameterExpr) :
    Parses I parameters (parameterPieces ps) more (· = ps.map (·.meaning)) := by
  refine (Parses.symbol .lparen).bind (l := [.symbol .lparen]) fun _ _ => ?_
  refine (Parses.nextIsSymbol .rparen).after fun b hb => ?_
  cases ps with
  | nil =>
    rw [if_pos (by simp [hb, listedParameters])]
    exact (Parses.pure (Q := (· = [])) rfl).after fun found hfound =>
      (Parses.symbol .rparen).before fun _ _ => .pure hfound
  | cons p ps =>
    obtain ⟨n, l, hfirst⟩ := p.exists_pieces
    rw [if_neg (by simp [hb, listedParameters, hfirst, n.kind_ne_symbol])]
    exact (parses_parameterList p ps (by simp)).bind fun found hfound =>
      (Parses.symbol .rparen).before fun _ _ => .pure hfound

end Parser

end Rulebook
