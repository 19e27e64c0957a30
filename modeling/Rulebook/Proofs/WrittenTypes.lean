import Rulebook.Parser.Name
import Rulebook.Proofs.Words

/-!
# Written names and types

Dotted names, import targets and types as they are written, how they are scanned, and that they are
read back.
-/

namespace Rulebook

open Lexeme

theorem Scans.blank_name {hashComments : Bool} (n : Name) (rest : List Char) :
    Scans hashComments [.blank] (n.text.toList ++ rest) :=
  .blank (n.not_separator rest)

theorem Scans.blank_piece {hashComments : Bool} (n : Name) (l : List Piece) (rest : List Char) :
    Scans hashComments [.blank] (letters (n.piece :: l) ++ rest) := by
  rw [Name.letters_piece, List.append_assoc]
  exact .blank_name n _

theorem Scans.less_name {hashComments : Bool} (n : Name) (rest : List Char) :
    Scans hashComments [.symbol .less] (n.text.toList ++ rest) :=
  .less fun h => absurd (n.isNameStart rest '=' h) (by decide)

theorem intercalate_cons (separator first : String) (more : List String) :
    separator.intercalate (first :: more) = first ++ String.join (more.map (separator ++ ·)) := by
  apply String.toList_injective
  rw [String.toList_intercalate, String.toList_append, String.toList_join]
  induction more generalizing first with
  | nil => simp [List.intercalate]
  | cons x xs ih =>
    have := ih x
    simp [List.intercalate] at this ⊢
    rw [this]

/-! ### Dotted names -/

def dotPart : Option Name → List Piece
  | some n => [.symbol .dot, n.piece]
  | none => [.symbol .dot, .star]

def dotPartText : Option Name → String
  | some n => "." ++ n.text
  | none => ".*"

section Dotted

variable {hashComments : Bool} {rest : List Char}

theorem letters_dotted (n : Name) (xs : List (Option Name)) :
    letters (n.piece :: xs.flatMap dotPart) =
      (n.text ++ String.join (xs.map dotPartText)).toList := by
  have hpart : ∀ x, letters (dotPart x) = (dotPartText x).toList := fun x => by
    cases x with
    | none => rfl
    | some n => simp [dotPart, dotPartText, Symbol.text]
  rw [String.toList_append, String.toList_join, letters, List.flatMap_cons, List.flatMap_map,
    List.flatMap_assoc]
  exact congrArg (n.text.toList ++ ·) (congrArg (xs.flatMap ·) (funext hpart))

theorem stops_dotted (xs : List (Option Name)) (h : Stops rest) :
    Stops (letters (xs.flatMap dotPart) ++ rest) := by
  cases xs with
  | nil => exact h
  | cons x xs => cases x <;> exact .cons (by decide) _

theorem scans_dotted (n : Name) (xs : List (Option Name)) (h : Stops rest) :
    Scans hashComments (n.piece :: xs.flatMap dotPart) rest := by
  refine .cons (.name n (stops_dotted xs h)) ?_
  induction xs with
  | nil => exact .nil
  | cons x xs ih =>
    refine .append ?_ ih
    cases x with
    | none => exact .cons (.symbol (k := .dot) (by decide)) .star
    | some m => exact .cons (.symbol (k := .dot) (by decide)) (.name m (stops_dotted xs h))

end Dotted

/-- Names joined by dots. -/
structure DottedName where
  first : Name
  more : List Name

namespace DottedName

def text (d : DottedName) : String := ".".intercalate ((d.first :: d.more).map (·.text))

def parts (d : DottedName) : List (Option Name) := d.more.map some

def pieces (d : DottedName) : List Piece := d.first.piece :: d.parts.flatMap dotPart

theorem text_eq (d : DottedName) :
    d.text = d.first.text ++ String.join (d.parts.map dotPartText) := by
  rw [text, List.map_cons, intercalate_cons, List.map_map, parts, List.map_map]
  rfl

theorem letters_pieces (d : DottedName) : letters d.pieces = d.text.toList := by
  rw [text_eq, ← letters_dotted]
  rfl

theorem scans (d : DottedName) {hashComments : Bool} {rest : List Char} (h : Stops rest) :
    Scans hashComments d.pieces rest :=
  scans_dotted d.first d.parts h

end DottedName

/-- An import target: a dotted name that may end in an asterisk. -/
structure Target where
  base : DottedName
  wildcard : Bool

namespace Target

def text (t : Target) : String := t.base.text ++ if t.wildcard then ".*" else ""

def parts (t : Target) : List (Option Name) := t.base.parts ++ if t.wildcard then [none] else []

def pieces (t : Target) : List Piece := t.base.first.piece :: t.parts.flatMap dotPart

theorem text_eq (t : Target) :
    t.text = t.base.first.text ++ String.join (t.parts.map dotPartText) := by
  obtain ⟨base, wildcard⟩ := t
  rw [text, base.text_eq, parts, List.map_append, String.join_append, String.append_assoc]
  cases wildcard <;> rfl

theorem letters_pieces (t : Target) : letters t.pieces = t.text.toList := by
  rw [text_eq, ← letters_dotted]
  rfl

theorem scans (t : Target) {hashComments : Bool} {rest : List Char} (h : Stops rest) :
    Scans hashComments t.pieces rest :=
  scans_dotted t.base.first t.parts h

theorem none_notMem {t : Target} {done left : List (Option Name)} {x : Option Name}
    (h : t.parts = done ++ x :: left) : none ∉ done := by
  have hbase : t.base.parts <+: t.parts := ⟨_, rfl⟩
  have hdone : done <+: t.parts := ⟨_, h.symm⟩
  have hlength : done.length ≤ t.base.parts.length := by
    have hsum := congrArg List.length h
    have htail : (if t.wildcard then [(none : Option Name)] else []).length ≤ 1 := by
      split <;> simp
    rw [parts, List.length_append, List.length_append, List.length_cons] at hsum
    omega
  have hsome := (List.prefix_of_prefix_length_le hdone hbase hlength).subset
  intro hmem
  obtain ⟨n, -, hn⟩ := List.mem_map.1 (hsome hmem)
  cases hn

end Target

namespace Parser

variable {I : State → Prop} {more : List Piece}

theorem parses_name (n : Name) : Parses I name [n.piece] more (·.text = n.text) :=
  (Parses.name n.isName).mono fun _ h => Token.text_of_piece h

variable [Lasting I]

theorem parses_dottedName (d : DottedName) (h : nextKind more ≠ .symbol .dot) :
    Parses I dottedName d.pieces more (· = d.text) := by
  rw [d.text_eq, DottedName.pieces, DottedName.parts, List.flatMap_map, List.map_map]
  refine (parses_name d.first).bind (l := [d.first.piece]) fun first hfirst => ?_
  refine Parses.repeatWhile d.more (fun done (text : String) =>
    text = d.first.text ++ String.join (done.map (dotPartText ∘ some))) ?_ ?_ ?_ ?_ ?_
  · rw [hfirst]
    simp
  · intro n _
    simp [dotPart]
  · intro done n left text _ _
    exact (Parses.nextIsSymbol .dot).mono fun b hb => by simp [hb, dotPart]
  · intro done n left text _ htext
    refine (Parses.advance_symbol .dot).bind (l := [.symbol .dot]) fun _ _ => ?_
    refine (parses_name n).before fun part hpart => .pure ?_
    rw [htext, hpart, List.map_append, String.join_append]
    simp [dotPartText, String.append_assoc]
  · intro text _
    exact (Parses.nextIsSymbol .dot).mono fun b hb => by simp [hb, h]

theorem parses_importPart (x : Option Name) (a : String × Bool) :
    Parses I (importPart a) (dotPart x) more
      fun b => b = (a.1 ++ dotPartText x, x.isNone) := by
  obtain ⟨text, closed⟩ := a
  cases x with
  | none =>
    refine (Parses.advance_symbol .dot).bind (m := [.star]) fun _ _ =>
      Parses.current rfl fun token htoken => ?_
    have hstar : token.kind = .misc ∧ token.text = "*" :=
      ⟨congrArg Prod.fst htoken, @Token.text_of_piece _ _ "*" htoken⟩
    rw [if_pos hstar]
    refine (Parses.advance rfl (by simp [Piece.star])).before fun _ _ => ?_
    exact .pure rfl
  | some n =>
    refine (Parses.advance_symbol .dot).bind (m := [n.piece]) fun _ _ =>
      Parses.current n.isTrivia_piece fun token htoken => ?_
    have hkind : token.kind = n.kind := congrArg Prod.fst htoken
    have hno : ¬(token.kind = .misc ∧ token.text = "*") := fun h => by
      have hname := n.isName
      rw [← hkind, h.1] at hname
      cases hname
    rw [if_neg hno]
    refine (parses_name n).before fun part hpart => .pure ?_
    rw [hpart, String.append_assoc]
    rfl

theorem parses_importTarget (t : Target) (h : nextKind more ≠ .symbol .dot) :
    Parses I importTarget t.pieces more (· = t.text) := by
  rw [t.text_eq]
  refine (parses_name t.base.first).bind (l := [t.base.first.piece]) fun first hfirst => ?_
  let Q := fun (done : List (Option Name)) (a : String × Bool) =>
    a.1 = t.base.first.text ++ String.join (done.map dotPartText) ∧ (a.2 = true → none ∈ done)
  have hdot : ∀ (l : List Piece) (a : String × Bool), Parses I
      (do return !a.2 && (← nextIsSymbol .dot)) [] l
      (· = (!a.2 && decide (nextKind l = .symbol .dot))) := fun l a =>
    (Parses.nextIsSymbol .dot).after fun b hb => .pure (by rw [hb]; rfl)
  refine Parses.before (Parses.repeatWhile t.parts Q ?_ ?_ ?_ ?_ ?_) fun a ha => .pure ha.1
  · exact ⟨by rw [hfirst]; simp, fun hno => by cases hno⟩
  · intro x _
    cases x <;> simp [dotPart]
  · intro done x left a hparts ha
    have hopen : a.2 = false := by
      simpa using mt ha.2 (Target.none_notMem hparts)
    refine (hdot _ a).mono fun b hb => ?_
    rw [hb, hopen]
    cases x <;> simp [dotPart]
  · intro done x left a hparts ha
    refine (parses_importPart x a).mono fun b hb => ?_
    rw [hb]
    refine ⟨?_, fun hnone => ?_⟩
    · rw [ha.1, List.map_append, String.join_append]
      simp [String.append_assoc]
    · rw [Option.isNone_iff_eq_none.1 hnone]
      simp
  · intro a _
    exact (hdot _ a).mono fun b hb => by simp [hb, h]

end Parser

/-! ### Types -/

def brackets (n : Nat) : List Piece :=
  (List.replicate n ()).flatMap fun _ => [.symbol .lbracket, .symbol .rbracket]

def bracketText (n : Nat) : String := String.join (List.replicate n "[]")

inductive TypeExpr where
  | mk (base : DottedName) (arguments : List TypeExpr) (pairs : Nat)

namespace TypeExpr

mutual

def text : TypeExpr → String
  | ⟨base, [], pairs⟩ => base.text ++ bracketText pairs
  | ⟨base, first :: more, pairs⟩ =>
    base.text ++ "<" ++ first.text ++ moreText more ++ ">" ++ bracketText pairs

/-- Further arguments, each after a comma. -/
def moreText : List TypeExpr → String
  | [] => ""
  | t :: ts => "," ++ t.text ++ moreText ts

end

mutual

def pieces : TypeExpr → List Piece
  | ⟨base, [], pairs⟩ => base.pieces ++ brackets pairs
  | ⟨base, first :: more, pairs⟩ =>
    base.pieces ++ (.symbol .less :: (first.pieces ++ morePieces more ++ [.symbol .greater]) ++
      brackets pairs)

def morePieces : List TypeExpr → List Piece
  | [] => []
  | t :: ts => .symbol .comma :: (t.pieces ++ morePieces ts)

end

end TypeExpr

theorem letters_brackets (n : Nat) : letters (brackets n) = (bracketText n).toList := by
  rw [bracketText, String.toList_join]
  induction n with
  | zero => rfl
  | succ n ih =>
    rw [List.replicate_succ, List.flatMap_cons, ← ih]
    rfl

section

variable {hashComments : Bool} {rest : List Char}

theorem stops_brackets (n : Nat) (h : Stops rest) : Stops (letters (brackets n) ++ rest) := by
  cases n with
  | zero => exact h
  | succ n => exact .cons (by decide) _

theorem scans_brackets (n : Nat) : Scans hashComments (brackets n) rest := by
  induction n with
  | zero => exact .nil
  | succ n ih => exact .cons (.symbol (by decide)) (.cons (.symbol (by decide)) ih)

theorem scans_greater (h : Stops rest) : Scans hashComments [.symbol .greater] rest :=
  .greater fun heq => (h '=' heq).2.2 rfl

namespace TypeExpr

mutual

theorem letters_pieces : (t : TypeExpr) → letters t.pieces = t.text.toList
  | ⟨base, [], pairs⟩ => by
    rw [pieces, text, letters_append, base.letters_pieces, letters_brackets, String.toList_append]
  | ⟨base, first :: more, pairs⟩ => by
    rw [pieces, text]
    simp only [letters_append, letters_cons, letters_nil, base.letters_pieces, letters_brackets,
      letters_pieces first, letters_morePieces more, Piece.symbol, List.cons_append,
      String.toList_append, List.append_assoc]
    rfl

theorem letters_morePieces : (ts : List TypeExpr) → letters (morePieces ts) = (moreText ts).toList
  | [] => rfl
  | t :: ts => by
    rw [morePieces, moreText, letters_cons, letters_append, letters_pieces t, letters_morePieces ts,
      String.toList_append, String.toList_append]
    rfl

end

theorem stops_morePieces (ts : List TypeExpr) (h : Stops rest) :
    Stops (letters (morePieces ts) ++ rest) := by
  cases ts with
  | nil => exact h
  | cons t ts => exact .cons (by decide) _

def first : TypeExpr → Name
  | ⟨base, _, _⟩ => base.first

theorem exists_pieces (t : TypeExpr) : ∃ l, t.pieces = t.first.piece :: l := by
  obtain ⟨base, arguments, pairs⟩ := t
  cases arguments <;> exact ⟨_, by rw [pieces, DottedName.pieces]; rfl⟩

theorem scans_less (t : TypeExpr) (rest : List Char) :
    Scans hashComments [.symbol .less] (letters t.pieces ++ rest) := by
  obtain ⟨l, h⟩ := t.exists_pieces
  rw [h, Name.letters_piece, List.append_assoc]
  exact .less_name t.first _

theorem scans_blank (t : TypeExpr) (rest : List Char) :
    Scans hashComments [.blank] (letters t.pieces ++ rest) := by
  obtain ⟨l, h⟩ := t.exists_pieces
  rw [h]
  exact .blank_piece t.first l rest

mutual

theorem scans : (t : TypeExpr) → {rest : List Char} → Stops rest → Scans hashComments t.pieces rest
  | ⟨base, [], pairs⟩, _, h => by
    rw [pieces]
    exact .append (base.scans (stops_brackets pairs h)) (scans_brackets pairs)
  | ⟨base, first :: more, pairs⟩, _, h => by
    rw [pieces]
    refine .append (base.scans (.cons (by decide) _)) (.append (.cons ?_ ?_) (scans_brackets pairs))
    · rw [letters_append, letters_append, List.append_assoc, List.append_assoc]
      exact scans_less first _
    · refine .append (.append (scans first (stops_morePieces more ?_)) (scans_morePieces more ?_))
        (scans_greater (stops_brackets pairs h))
      all_goals exact .cons (by decide) _

theorem scans_morePieces :
    (ts : List TypeExpr) → {rest : List Char} → Stops rest → Scans hashComments (morePieces ts) rest
  | [], _, _ => .nil
  | t :: ts, _, h => by
    rw [morePieces]
    exact .cons (.symbol (by decide))
      (.append (scans t (stops_morePieces ts h)) (scans_morePieces ts h))

end

end TypeExpr

end

/-! ### Generic arguments -/

def angles (depth : Nat) (x : Piece) : Nat :=
  if x.1 = .symbol .less then depth + 1
  else if x.1 = .symbol .greater then depth - 1
  else depth

def ClosesAtEnd : Nat → List Piece → Prop
  | depth, [] => depth = 0
  | depth, x :: l =>
    depth ≠ 0 ∧ x.isTrivia = false ∧ x.1 ≠ .endOfInput ∧ ClosesAtEnd (angles depth x) l

section

variable {d : Nat} {l : List Piece}

theorem ClosesAtEnd.forall_mem (h : ClosesAtEnd d l) :
    ∀ x ∈ l, x.isTrivia = false ∧ x.1 ≠ .endOfInput := by
  induction l generalizing d with
  | nil => exact fun x hx => by cases hx
  | cons y l ih =>
    obtain ⟨-, hy, hk, hclose⟩ := h
    exact List.forall_mem_cons.2 ⟨⟨hy, hk⟩, ih hclose⟩

theorem closesAtEnd_cons {x : Piece} (hx : x.isTrivia = false) (hk : x.1 ≠ .endOfInput) :
    ClosesAtEnd (d + 1) (x :: l) ↔ ClosesAtEnd (angles (d + 1) x) l := by
  simp [ClosesAtEnd, hx, hk]

@[simp] theorem closesAtEnd_less :
    ClosesAtEnd (d + 1) (.symbol .less :: l) ↔ ClosesAtEnd (d + 1 + 1) l :=
  closesAtEnd_cons rfl (by simp [Piece.symbol])

@[simp] theorem closesAtEnd_greater :
    ClosesAtEnd (d + 1) (.symbol .greater :: l) ↔ ClosesAtEnd d l :=
  closesAtEnd_cons rfl (by simp [Piece.symbol])

/-- Other tokens do not matter. -/
theorem closesAtEnd_other {x : Piece} (hx : x.isTrivia = false) (hk : x.1 ≠ .endOfInput)
    (hless : x.1 ≠ .symbol .less) (hgreater : x.1 ≠ .symbol .greater) :
    ClosesAtEnd (d + 1) (x :: l) ↔ ClosesAtEnd (d + 1) l := by
  rw [closesAtEnd_cons hx hk, angles, if_neg hless, if_neg hgreater]

@[simp] theorem closesAtEnd_symbol {k : Symbol} (hless : k ≠ .less) (hgreater : k ≠ .greater) :
    ClosesAtEnd (d + 1) (.symbol k :: l) ↔ ClosesAtEnd (d + 1) l :=
  closesAtEnd_other rfl (by simp [Piece.symbol]) (by simpa [Piece.symbol]) (by simpa [Piece.symbol])

@[simp] theorem closesAtEnd_name (n : Name) :
    ClosesAtEnd (d + 1) (n.piece :: l) ↔ ClosesAtEnd (d + 1) l := by
  refine closesAtEnd_other n.isTrivia_piece (fun h => ?_) (n.kind_ne_symbol _) (n.kind_ne_symbol _)
  have hname := n.isName
  rw [show n.kind = .endOfInput from h] at hname
  cases hname

theorem closesAtEnd_dotted (b : DottedName) :
    ClosesAtEnd (d + 1) (b.pieces ++ l) ↔ ClosesAtEnd (d + 1) l := by
  rw [DottedName.pieces, DottedName.parts, List.flatMap_map, List.cons_append, closesAtEnd_name]
  induction b.more with
  | nil => rfl
  | cons n more ih => simpa [dotPart] using ih

theorem closesAtEnd_brackets (n : Nat) :
    ClosesAtEnd (d + 1) (brackets n ++ l) ↔ ClosesAtEnd (d + 1) l := by
  induction n with
  | zero => rfl
  | succ n ih => simpa [brackets, List.replicate_succ] using ih

end

mutual

theorem TypeExpr.closesAtEnd : (t : TypeExpr) → {d : Nat} → {l : List Piece} →
    (ClosesAtEnd (d + 1) (t.pieces ++ l) ↔ ClosesAtEnd (d + 1) l)
  | ⟨base, [], pairs⟩, _, _ => by
    rw [pieces, List.append_assoc, closesAtEnd_dotted, closesAtEnd_brackets]
  | ⟨base, first :: more, pairs⟩, _, _ => by
    simp only [pieces, List.append_assoc, List.cons_append, List.nil_append, closesAtEnd_dotted,
      closesAtEnd_less, TypeExpr.closesAtEnd first, TypeExpr.closesAtEnd_more more,
      closesAtEnd_greater, closesAtEnd_brackets]

theorem TypeExpr.closesAtEnd_more : (ts : List TypeExpr) → {d : Nat} → {l : List Piece} →
    (ClosesAtEnd (d + 1) (morePieces ts ++ l) ↔ ClosesAtEnd (d + 1) l)
  | [], _, _ => by rw [morePieces]; rfl
  | t :: ts, _, _ => by
    rw [morePieces, List.cons_append, closesAtEnd_symbol (by simp) (by simp), List.append_assoc,
      TypeExpr.closesAtEnd t, TypeExpr.closesAtEnd_more ts]

end

namespace Parser

variable {I : State → Prop} [Lasting I] {more : List Piece}

theorem parses_genericRound {x : Piece} (hx : x.isTrivia = false) (hk : x.1 ≠ .endOfInput)
    (a : String × Nat) :
    Parses I (genericRound a) [x] more (· = (a.1 ++ String.ofList x.2, angles a.2 x)) := by
  obtain ⟨text, depth⟩ := a
  refine Parses.current hx fun token htoken => ?_
  have hkind : token.kind = x.1 := congrArg Prod.fst htoken
  have htext : token.text = String.ofList x.2 :=
    Token.text_of_piece (k := x.1) (by rw [htoken, String.toList_ofList])
  rw [if_neg (by rw [hkind]; exact hk)]
  refine (Parses.advance hx hk).before fun _ _ => .pure ?_
  rw [htext, hkind]
  rfl

theorem parses_genericArguments {l : List Piece} (h : ClosesAtEnd 1 l) :
    Parses I genericArguments (.symbol .less :: l) more (· = "<" ++ String.ofList (letters l)) := by
  refine (Parses.advance_symbol .less).bind (l := [.symbol .less]) fun opening hopening => ?_
  have htext : opening.text = "<" := @Token.text_of_piece _ _ "<" hopening
  let Q := fun (done : List Piece) (a : String × Nat) =>
    a.1 = "<" ++ String.ofList (letters done) ∧ ∀ left, l = done ++ left → ClosesAtEnd a.2 left
  have hpieces : l.flatMap (fun x => [x]) = l := List.flatMap_singleton' l
  rw [← hpieces]
  refine Parses.before (Parses.repeatWhile l Q ?_ ?_ ?_ ?_ ?_) fun a ha => .pure ?_
  · refine ⟨?_, fun left hleft => ?_⟩
    · rw [htext]; rfl
    · rw [List.nil_append] at hleft; exact hleft ▸ h
  · intro x hx
    obtain ⟨htrivia, hk⟩ := h.forall_mem x hx
    rwa [nextKind_cons htrivia]
  · intro done x left a hl ha
    exact .pure (by simpa using (ha.2 _ hl).1)
  · intro done x left a hl ha
    obtain ⟨hdepth, hx, hk, hclose⟩ := ha.2 _ hl
    refine (parses_genericRound hx hk a).mono fun b hb => ?_
    rw [hb]
    refine ⟨?_, fun left' hleft => ?_⟩
    · rw [ha.1, letters_append, letters_cons, letters_nil, List.append_nil, String.ofList_append,
        String.append_assoc]
    · rw [hl, List.append_assoc, List.singleton_append] at hleft
      rw [← (List.cons.inj (List.append_cancel_left hleft)).2]
      exact hclose
  · intro a ha
    have hdepth : a.2 = 0 := ha.2 [] (List.append_nil l).symm
    exact .pure (by simp [hdepth])
  · rw [hpieces]; exact ha.1

theorem parses_arraySuffixes {α : Type} {first : α} {grow : α → α} (Q : Nat → α → Prop)
    (hfirst : Q 0 first) (hgrow : ∀ n a, Q n a → Q (n + 1) (grow a)) (n : Nat)
    (h : nextKind more ≠ .symbol .lbracket) :
    Parses I (arraySuffixes first grow) (brackets n) more (Q n) := by
  refine (Parses.repeatWhile (List.replicate n ()) (fun done a => Q done.length a)
    hfirst ?_ ?_ ?_ ?_).mono fun a ha => by rwa [List.length_replicate] at ha
  · intro _ _
    simp
  · intro done x left a _ _
    exact (Parses.nextIsSymbol .lbracket).mono fun b hb => by simp [hb]
  · intro done x left a _ ha
    refine (Parses.advance_symbol .lbracket).bind (l := [.symbol .lbracket]) fun _ _ => ?_
    refine (Parses.symbol .rbracket).before fun _ _ => .pure ?_
    rw [List.length_append]
    exact hgrow _ a ha
  · intro a _
    exact (Parses.nextIsSymbol .lbracket).mono fun b hb => by simp [hb, h]

theorem parses_typeSuffixes (text : String) (n : Nat) (h : nextKind more ≠ .symbol .lbracket) :
    Parses I (arraySuffixes text (· ++ "[]")) (brackets n) more (· = text ++ bracketText n) := by
  refine parses_arraySuffixes (fun n a => a = text ++ bracketText n) ?_ (fun n a ha => ?_) n h
  · simp [bracketText]
  · rw [ha, bracketText, bracketText, List.replicate_succ', String.join_append, String.append_assoc]
    rfl

def AfterType (more : List Piece) : Prop :=
  nextKind more ∉ [TokenKind.symbol .dot, .symbol .less, .symbol .lbracket]

theorem afterType_name (n : Name) (l : List Piece) : AfterType (.blank :: n.piece :: l) := by
  simp [AfterType, n.kind_ne_symbol]

theorem nextKind_brackets {k : Symbol} (n : Nat) (hk : k ≠ .lbracket)
    (h : nextKind more ≠ .symbol k) : nextKind (brackets n ++ more) ≠ .symbol k := by
  cases n with
  | zero => exact h
  | succ n => simpa [brackets, List.replicate_succ] using hk.symm

theorem parses_typeName (t : TypeExpr) (h : AfterType more) :
    Parses I typeName t.pieces more (· = t.text) := by
  simp only [AfterType, List.mem_cons, List.not_mem_nil, or_false, not_or] at h
  obtain ⟨hdot, hless, hbracket⟩ := h
  obtain ⟨base, arguments, pairs⟩ := t
  cases arguments with
  | nil =>
    rw [TypeExpr.pieces, TypeExpr.text]
    refine (parses_dottedName base (nextKind_brackets pairs (by simp) hdot)).bind fun text htext =>
      ?_
    refine (Parses.nextIsSymbol .less).after fun b hb => ?_
    rw [if_neg (by simp [hb, nextKind_brackets pairs (by simp) hless]), htext]
    exact parses_typeSuffixes _ pairs hbracket
  | cons first rest =>
    rw [TypeExpr.pieces, TypeExpr.text]
    refine (parses_dottedName base (by simp)).bind fun text htext => ?_
    refine (Parses.nextIsSymbol .less).after fun b hb => ?_
    rw [if_pos (by simp [hb]), htext]
    have hclose :
        ClosesAtEnd 1 (first.pieces ++ TypeExpr.morePieces rest ++ [.symbol .greater]) := by
      rw [List.append_assoc, first.closesAtEnd, TypeExpr.closesAtEnd_more, closesAtEnd_greater]
      rfl
    have hspelled : String.ofList
        (letters (first.pieces ++ TypeExpr.morePieces rest ++ [.symbol .greater])) =
          first.text ++ TypeExpr.moreText rest ++ ">" := by
      rw [letters_append, letters_append, TypeExpr.letters_pieces, TypeExpr.letters_morePieces,
        String.ofList_append, String.ofList_append, String.ofList_toList, String.ofList_toList]
      rfl
    have hgeneric := (@parses_genericArguments I _ (brackets pairs ++ more) _ hclose).map
      (R := (· = base.text ++ ("<" ++ (first.text ++ TypeExpr.moreText rest ++ ">"))))
      (f := (base.text ++ ·)) fun text htext => by rw [htext, hspelled]
    refine hgeneric.bind fun text htext => ?_
    rw [htext]
    refine (parses_typeSuffixes _ pairs hbracket).mono fun text htext => ?_
    rw [htext]
    simp only [String.append_assoc]

end Parser

end Rulebook
