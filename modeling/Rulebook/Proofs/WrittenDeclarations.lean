import Rulebook.Parser.Unit
import Rulebook.Proofs.WrittenCode
import Rulebook.Proofs.WrittenParameters

/-!
# Written declarations

Imports, globals, functions and templates as they are written, how they are scanned, and that each
of them is a statement that enters the package as it was written. No keyword is reserved, so a trial
tells an import of a function from one of a name, and the token behind its first name tells a
function with a return type from one without.
-/

namespace Rulebook

open Lexeme

theorem Scans.keyword_blank {hashComments : Bool} {l : List Piece} {rest : List Char} (k : Keyword)
    (hblank : Scans hashComments [.blank] (letters l ++ rest)) (h : Scans hashComments l rest) :
    Scans hashComments (.keyword k :: .blank :: l) rest :=
  .cons (.keyword k (.cons (by decide) _)) (.cons hblank h)

theorem Target.scans_blank (t : Target) {hashComments : Bool} (rest : List Char) :
    Scans hashComments [.blank] (letters t.pieces ++ rest) := by
  rw [Target.pieces]
  exact .blank_piece _ _ rest

/-! ### Slots -/

structure SlotExpr where
  type : TypeExpr
  name : Name

namespace SlotExpr

def text (s : SlotExpr) : String := s.type.text ++ " " ++ s.name.text ++ ";"

def pieces (s : SlotExpr) : List Piece :=
  s.type.pieces ++ [.blank, s.name.piece, .symbol .semicolon]

variable {hashComments : Bool}

theorem letters_pieces (s : SlotExpr) : letters s.pieces = s.text.toList := by
  rw [pieces, text, letters_append, s.type.letters_pieces]
  simp [Symbol.text]

theorem scans (s : SlotExpr) (rest : List Char) : Scans hashComments s.pieces rest := by
  refine .append (s.type.scans (.cons (by decide) _)) (.cons (.blank_piece s.name _ _) ?_)
  exact .cons (.name s.name (.cons (by decide) _)) (.symbol (by decide))

theorem scans_blank (s : SlotExpr) (rest : List Char) :
    Scans hashComments [.blank] (letters s.pieces ++ rest) := by
  rw [pieces, letters_append, List.append_assoc]
  exact s.type.scans_blank _

end SlotExpr

/-! ### Declarations -/

inductive Declaration where
  | importName (target : Target)
  | importFunction (target : Target)
  | global (type : TypeExpr) (name : Name)
  | function (returnType : Option TypeExpr) (name : Name) (parameters : List ParameterExpr)
      (body : String)
  | template (name : Name) (slots : List SlotExpr)

namespace Declaration

def text : Declaration → String
  | importName target => "import " ++ target.text ++ ";"
  | importFunction target => "import function " ++ target.text ++ ";"
  | global type name => "global " ++ type.text ++ " " ++ name.text ++ ";"
  | function returnType name parameters body =>
    "function " ++ typeBeforeText returnType ++ name.text ++ parameterText parameters ++ " \x7b" ++
      body ++ "\x7d"
  | template name slots =>
    "template " ++ name.text ++ String.join (slots.map fun s => " " ++ s.text) ++ " end"

def pieces (hashComments : Bool) : Declaration → List Piece
  | importName target =>
    .keyword .import_ :: .blank :: (target.pieces ++ [.symbol .semicolon])
  | importFunction target =>
    .keyword .import_ :: .blank :: .keyword .function :: .blank ::
      (target.pieces ++ [.symbol .semicolon])
  | global type name =>
    .keyword .global :: .blank :: (type.pieces ++ [.blank, name.piece, .symbol .semicolon])
  | function returnType name parameters body =>
    .keyword .function :: .blank :: (typeBefore returnType ++ name.piece ::
      (parameterPieces parameters ++ Piece.blank :: Piece.symbol .lbrace ::
        (lexemes hashComments body.toList ++ [Piece.symbol .rbrace])))
  | template name slots =>
    .keyword .template :: .blank :: name.piece ::
      (slots.flatMap (fun s => Piece.blank :: s.pieces) ++ [.blank, .keyword .end_])

/-- A declaration can be written: the body of a function is balanced, and a template has slots, none
of which looks like its end. -/
def Proper (hashComments : Bool) : Declaration → Prop
  | function _ _ _ body => IsCode hashComments .lbrace .rbrace body
  | template _ slots => slots ≠ [] ∧ ∀ s ∈ slots, s.type.first.kind ≠ .keyword .end_
  | _ => True

def Nests (hashComments : Bool) (room : Nat) : Declaration → Prop
  | function _ _ _ body => Rulebook.Nests hashComments .lbrace .rbrace room body
  | _ => True

instance (hashComments : Bool) (room : Nat) :
    (d : Declaration) → Decidable (d.Nests hashComments room)
  | function _ _ _ body => inferInstanceAs (Decidable (Rulebook.Nests hashComments _ _ room body))
  | importName _ => .isTrue trivial
  | importFunction _ => .isTrue trivial
  | global _ _ => .isTrue trivial
  | template _ _ => .isTrue trivial

variable {hashComments : Bool}

theorem letters_pieces (d : Declaration) : letters (d.pieces hashComments) = d.text.toList := by
  have hslots : ∀ slots : List SlotExpr, letters (slots.flatMap fun s => Piece.blank :: s.pieces) =
      (slots.map fun s => " " ++ s.text).flatMap String.toList := fun slots => by
    induction slots with
    | nil => rfl
    | cons s slots ih => simp [letters_append, s.letters_pieces, ih]
  cases d with
  | importName target | importFunction target | global type name =>
    simp [pieces, text, Target.letters_pieces, TypeExpr.letters_pieces, letters_append, Symbol.text,
      Keyword.text]
  | function returnType name parameters body =>
    simp [pieces, text, letters_append, letters_typeBefore, letters_parameterPieces,
      letters_lexemes, Symbol.text, Keyword.text]
  | template name slots => simp [pieces, text, letters_append, hslots, Keyword.text]

theorem scans {rest : List Char} (d : Declaration) (h : d.Proper hashComments)
    (hrest : Stops rest) : Scans hashComments (d.pieces hashComments) rest := by
  cases d with
  | importName target =>
    refine .keyword_blank _ ?_ (.append (target.scans (.cons (by decide) _)) (.symbol (by decide)))
    rw [letters_append, List.append_assoc]
    exact target.scans_blank _
  | importFunction target =>
    refine .keyword_blank _ (.blank_name (.ofKeyword .function) _) (.keyword_blank _ ?_
      (.append (target.scans (.cons (by decide) _)) (.symbol (by decide))))
    rw [letters_append, List.append_assoc]
    exact target.scans_blank _
  | global type name =>
    exact .keyword_blank _ (SlotExpr.scans_blank ⟨type, name⟩ _) (SlotExpr.scans ⟨type, name⟩ _)
  | function returnType name parameters body =>
    refine .keyword_blank _ ?_ (.append ?_ (.cons (.name name ?_) (.append
      (scans_parameterPieces parameters)
      (.cons (.blank ?_) (.cons (.symbol (k := .lbrace) (by decide))
        (.append ?_ (.symbol (k := .rbrace) (by decide))))))))
    · rw [letters_append, Name.letters_piece, List.append_assoc, List.append_assoc]
      exact scans_blank_typeBefore returnType name _
    · rw [Name.letters_piece, List.append_assoc]
      exact scans_typeBefore returnType name _
    · exact .cons (by decide) _
    · intro d hd
      cases hd
      decide
    · exact h.scans (by decide) (by decide) _
  | template name slots =>
    have hend : Scans hashComments [.blank, .keyword .end_] rest :=
      .cons (.blank_name (.ofKeyword .end_) _) (.keyword _ hrest)
    refine .keyword_blank _ (.blank_piece name _ _) (.cons (.name name ?_) (.append ?_ hend))
    · cases slots <;> exact .cons (by decide) _
    · clear h
      induction slots with
      | nil => exact .nil
      | cons s slots ih => exact .append (.cons (s.scans_blank _) (s.scans _)) ih

end Declaration

/-! ### What declarations add -/

def Declaration.Adds (p q : Package) : Declaration → Prop
  | importName target => ∃ l, q = { p with imports := p.imports ++ [⟨l, target.text⟩] }
  | importFunction target =>
    ∃ l, q = { p with functionImports := p.functionImports ++ [⟨l, target.text⟩] }
  | global type name => ∃ l, q = { p with globals := p.globals ++ [⟨l, type.text, name.text⟩] }
  | function returnType name parameters body => ∃ l,
    q = { p with functions := p.functions ++ [⟨l, name.text, returnType.map (·.text),
      parameters.map (·.meaning), body, Parser.dialectOf p.attributes⟩] }
  | template name slots => ∃ l found,
    found.map (fun s => (s.type, s.name)) = slots.map (fun s => (s.type.text, s.name.text)) ∧
      q = { p with templates := p.templates ++ [⟨l, name.text, found⟩] }

namespace Parser

variable {I : State → Prop} [Lasting I] {more : List Piece} {G : Package → Package → Prop}
  {q : Package}

/-! ### Imports -/

theorem declares_importStatement (t : Target) :
    Declares (Holds q) importStatement
      (.keyword .import_ :: .blank :: (t.pieces ++ [.symbol .semicolon])) more
      fun p p' => (Declaration.importName t).Adds p p' := by
  refine Declares.bind (l := [.keyword .import_]) (Parses.keyword .import_) fun _ _ => ?_
  refine Declares.bind (l := .blank :: t.pieces) (parses_importTarget t (by simp)).blank
    fun target htarget => ?_
  refine Declares.before (Parses.skip .semicolon) fun _ _ => ?_
  refine Declares.after (Parses.close _) fun l _ => ?_
  exact Declares.declare ⟨l, by rw [htarget]⟩

theorem declares_functionImport (t : Target)
    (hdeclare : ∀ node : Import, node.target = t.text → Declares I (do
      declare fun p => { p with functionImports := p.functionImports ++ [node] }
      return node) [] more G) :
    Declares I functionImport
      (.keyword .import_ :: .blank :: .keyword .function :: .blank ::
        (t.pieces ++ [.symbol .semicolon])) more G := by
  refine Declares.bind (l := [.keyword .import_]) (Parses.keyword .import_) fun _ _ => ?_
  refine Declares.bind (l := [.blank, .keyword .function]) (Parses.keyword .function).blank
    fun _ _ => ?_
  refine Declares.bind (l := .blank :: t.pieces) (parses_importTarget t (by simp)).blank
    fun target htarget => ?_
  refine Declares.before (Parses.skip .semicolon) fun _ _ => ?_
  refine Declares.after (Parses.close _) fun l _ => ?_
  exact hdeclare ⟨l, target⟩ htarget

theorem functionImport_fails (t : Target) :
    Fails I functionImport
      (.keyword .import_ :: .blank :: (t.pieces ++ .symbol .semicolon :: more)) Unrecognised := by
  refine Fails.after (l := [.keyword .import_]) (Parses.keyword .import_) fun _ _ => ?_
  by_cases hfirst : t.base.first.kind = .keyword .function
  · refine Fails.after (l := [.blank, t.base.first.piece]) (Q := fun _ => True)
      (m := t.parts.flatMap dotPart ++ .symbol .semicolon :: more) ?_ fun _ _ => ?_
    · exact (Parses.keyword_of_kind hfirst).blank
    · refine Fails.bind (Fails.bind (Fails.name ?_))
      cases t.parts with
      | nil => rfl
      | cons x xs => cases x <;> rfl
  · refine Fails.bind (Fails.keyword ?_)
    simpa [Target.pieces] using hfirst

/-! ### Globals, functions and templates -/

theorem declares_globalStatement (t : TypeExpr) (n : Name) :
    Declares (Holds q) globalStatement
      (.keyword .global :: .blank :: (t.pieces ++ [.blank, n.piece, .symbol .semicolon])) more
      fun p p' => (Declaration.global t n).Adds p p' := by
  refine Declares.bind (l := [.keyword .global]) (Parses.keyword .global) fun _ _ => ?_
  refine Declares.bind (l := .blank :: t.pieces) (parses_typeName t (afterType_name n _)).blank
    fun type htype => ?_
  refine Declares.bind (l := [.blank, n.piece]) (parses_name n).blank fun name hname => ?_
  refine Declares.before (Parses.skip .semicolon) fun _ _ => ?_
  refine Declares.after (Parses.close _) fun l _ => ?_
  exact Declares.declare ⟨l, by rw [htype, hname]⟩

theorem parses_returnType? (t : Option TypeExpr) (n : Name) (l : List Piece) :
    Parses I returnType? (typeBefore t) (n.piece :: .symbol .lparen :: l)
      (· = t.map (·.text)) := by
  refine Parses.ofCurrent fun token htoken => ?_
  refine (Parses.peek 1).after fun second hsecond => ?_
  cases t with
  | none =>
    have hname : token.isName = true := by
      rw [Token.isName, htoken]
      simpa [typeBefore] using n.isName
    have hparen : second.kind = .symbol .lparen := by
      rw [hsecond]
      exact (kindAt_succ n.isTrivia_piece 0 _).trans (kindAt_zero _)
    rw [if_pos (by simp [hname, hparen])]
    exact .pure rfl
  | some t =>
    obtain ⟨first, k, m, heq, hm⟩ := t.exists_brackets n (.symbol .lparen :: l)
    have hparen : second.kind ≠ .symbol .lparen := by
      rw [hsecond, heq, kindAt_succ first.isTrivia_piece, kindAt_zero]
      exact nextKind_brackets k (by simp) (hm _ (by simp))
    rw [if_neg (by simp [hparen])]
    exact parses_someType t n _

theorem declares_functionStatement {hashComments : Bool} {room : Nat} (r : Option TypeExpr)
    (n : Name) (ps : List ParameterExpr) (body : String)
    (h : Nests hashComments .lbrace .rbrace room body) :
    Declares (State.Roomy (Holds q) room) functionStatement
      ((Declaration.function r n ps body).pieces hashComments) more
      fun p p' => (Declaration.function r n ps body).Adds p p' := by
  refine Declares.bind (l := [.keyword .function]) (Parses.keyword .function) fun _ _ => ?_
  refine Declares.bind (l := .blank :: typeBefore r) (parses_returnType? r n _).blank
    fun returnType hreturn => ?_
  refine Declares.bind (l := [n.piece]) (parses_name n) fun name hname => ?_
  refine Declares.bind (parses_parameters ps) fun found hfound => ?_
  refine Declares.before (parses_chunk h (by simp)).blank fun code hcode => ?_
  refine Declares.seen fun s hs => ?_
  refine Declares.after (Parses.close _) fun l _ => ?_
  have hbody : withoutDelimiters code = body := by
    rw [hcode]
    exact withoutDelimiters_chunk '\x7b' '\x7d' body
  exact (Declares.declare ⟨l, by rw [hreturn, hname, hfound, hbody, hs]⟩).of_imp fun _ h => h.1

/-- A function whose body opens too many pairs of braces is given up. -/
theorem functionStatement_fails {hashComments : Bool} (r : Option TypeExpr) (n : Name)
    (ps : List ParameterExpr) {body : String} {k : Nat} {l : List Piece}
    (hbody : lexemes hashComments body.toList = List.replicate k (Piece.symbol .lbrace) ++ l) :
    Fails (State.Short k) functionStatement
      ((Declaration.function r n ps body).pieces hashComments ++ more) (· = .nestingTooDeep) := by
  rw [Declaration.pieces, hbody]
  simp only [List.cons_append, List.append_assoc]
  refine Fails.after (l := [.keyword .function]) (Parses.keyword .function) fun _ _ => ?_
  refine Fails.after (l := .blank :: typeBefore r) (parses_returnType? r n _).blank fun _ _ => ?_
  refine Fails.after (l := [n.piece]) (parses_name n) fun _ _ => ?_
  refine Fails.after (parses_parameters ps) fun _ _ => ?_
  exact Fails.blank chunk_fails.bind

theorem parses_title (n : Name) : Parses I title [n.piece] more (· = n.text) := by
  refine Parses.current n.isTrivia_piece fun token htoken => ?_
  have hkind : token.kind = n.kind := congrArg Prod.fst htoken
  have hstring : token.kind ≠ .literal .string := fun h => by
    have hname := n.isName
    rw [← hkind, h] at hname
    cases hname
  rw [if_neg hstring, if_pos (by rw [Token.isName, hkind]; exact n.isName)]
  refine (Parses.advance n.isTrivia_piece fun h => ?_).before fun _ _ =>
    .pure (Token.text_of_piece htoken)
  have hname := n.isName
  rw [show n.kind = .endOfInput from h] at hname
  cases hname

theorem parses_slot (s : SlotExpr) :
    Parses I slot s.pieces more fun a => (a.type, a.name) = (s.type.text, s.name.text) := by
  refine Parses.ofCurrent fun token _ => ?_
  refine Parses.bind (l := s.type.pieces) (parses_typeName s.type (afterType_name s.name _))
    fun type htype => ?_
  refine Parses.bind (l := [.blank, s.name.piece]) (parses_name s.name).blank fun name hname => ?_
  refine (Parses.skip .semicolon).before fun _ _ => ?_
  exact (Parses.close _).after fun l _ => .pure (by rw [htype, hname])

theorem nextKind_slot (s : SlotExpr) (l : List Piece) :
    nextKind (Piece.blank :: (s.pieces ++ l)) = s.type.first.kind := by
  obtain ⟨m, h⟩ := s.type.exists_pieces
  rw [SlotExpr.pieces, h]
  simp

theorem parses_slots (slots : List SlotExpr) (h : ∀ s ∈ slots, s.type.first.kind ≠ .keyword .end_)
    (hmore : nextKind more = .keyword .end_) :
    Parses I
      (repeatWhile []
        (fun _ => do
          let token ← current
          return token.kind ≠ .keyword .end_ && token.isName)
        fun found => do return found ++ [← slot])
      (slots.flatMap fun s => Piece.blank :: s.pieces) more
      fun found : List Slot => found.map (fun s => (s.type, s.name)) =
        slots.map fun s => (s.type.text, s.name.text) := by
  refine Parses.repeatWhile slots
    (fun done (found : List Slot) => found.map (fun s => (s.type, s.name)) =
    done.map fun s => (s.type.text, s.name.text)) rfl ?_ ?_ ?_ ?_
  · intro s _ hend
    have hname := s.type.first.isName
    have hkind := nextKind_slot s []
    rw [List.append_nil, hend] at hkind
    rw [← hkind] at hname
    cases hname
  · intro done s left found hitems _
    refine Parses.look.after fun token htoken => .pure ?_
    have hkind : token.kind = s.type.first.kind := htoken.trans (nextKind_slot s _)
    have hmem : s ∈ slots := by simp [hitems]
    simp [Token.isName, hkind, h s hmem, s.type.first.isName]
  · intro done s left found _ hfound
    refine Parses.blank ((parses_slot s).before fun a ha => .pure ?_)
    rw [List.map_append, List.map_append, hfound, List.map_singleton, List.map_singleton, ha]
  · intro found _
    exact Parses.look.after fun token (htoken : token.kind = nextKind more) =>
      .pure (by simp [htoken, hmore])

theorem declares_templateStatement (n : Name) (slots : List SlotExpr) (hslots : slots ≠ [])
    (hend : ∀ s ∈ slots, s.type.first.kind ≠ .keyword .end_)
    (hmore : nextKind more ≠ .symbol .semicolon) {hashComments : Bool} :
    Declares (Holds q) templateStatement ((Declaration.template n slots).pieces hashComments) more
      fun p p' => (Declaration.template n slots).Adds p p' := by
  refine Declares.bind (l := [.keyword .template]) (Parses.keyword .template) fun _ _ => ?_
  refine Declares.bind (l := [.blank, n.piece]) (parses_title n).blank fun title htitle => ?_
  refine Declares.after (Parses.skip_of_ne .semicolon ?_) fun _ _ => ?_
  · obtain ⟨s, left, rfl⟩ := List.exists_cons_of_ne_nil hslots
    rw [List.flatMap_cons, List.append_eq, List.append_assoc, List.append_assoc, List.cons_append,
      nextKind_slot]
    exact s.type.first.kind_ne_symbol _
  refine Declares.bind (parses_slots slots hend (by simp)) fun found hfound => ?_
  have hnonempty : found.isEmpty = false := by
    cases found with
    | nil => exact absurd (List.map_eq_nil_iff.1 hfound.symm) hslots
    | cons s found => rfl
  rw [if_neg (by simp [hnonempty])]
  refine Declares.before (l := [.blank, .keyword .end_]) (Parses.keyword .end_).blank fun _ _ => ?_
  refine Declares.after (Parses.skip_of_ne .semicolon hmore) fun _ _ => ?_
  refine Declares.after (Parses.close _) fun l _ => ?_
  exact Declares.declare ⟨l, found, hfound, by rw [htitle]⟩

/-! ### Statements -/

theorem declares_statement {hashComments : Bool} {room : Nat} (d : Declaration)
    (h : d.Proper hashComments) (hnests : d.Nests hashComments room)
    (hmore : nextKind more ≠ .symbol .semicolon) :
    Declares (State.Roomy (Holds q) room) statement (d.pieces hashComments) more fun p p' =>
      d.Adds p p' := by
  refine Declares.after Parses.look fun token (htoken : token.kind = nextKind _) => ?_
  cases d with
  | importName t =>
    rw [show token.kind = .keyword .import_ from htoken]
    refine Declares.after (Parses.trial_of_fails _ ?_) fun b hb => ?_
    · rw [Declaration.pieces, List.cons_append, List.cons_append, List.append_assoc]
      exact functionImport_fails t
    rw [if_neg (by simp [hb])]
    exact (declares_importStatement t).ignored.of_imp fun _ h => h.1
  | importFunction t =>
    rw [show token.kind = .keyword .import_ from htoken]
    refine Declares.after (Parses.trial _ (declares_functionImport t fun node hnode =>
      Declares.declare_tried)) fun b hb => ?_
    rw [if_pos hb]
    refine Declares.ignored (declares_functionImport t fun node hnode => .of_imp ?_ fun _ h => h.1)
    exact Declares.declare ⟨node.location, by rw [← hnode]⟩
  | global t n =>
    rw [show token.kind = .keyword .global from htoken]
    exact (declares_globalStatement t n).ignored.of_imp fun _ h => h.1
  | function r n ps body =>
    rw [show token.kind = .keyword .function from htoken]
    exact (declares_functionStatement r n ps body hnests).ignored
  | template n slots =>
    rw [show token.kind = .keyword .template from htoken]
    exact (declares_templateStatement n slots h.1 h.2 hmore).ignored.of_imp fun _ h => h.1

theorem statement_fails {hashComments : Bool} (r : Option TypeExpr) (n : Name)
    (ps : List ParameterExpr) {body : String} {k : Nat} {l : List Piece}
    (hbody : lexemes hashComments body.toList = List.replicate k (Piece.symbol .lbrace) ++ l) :
    Fails (State.Short k) statement
      ((Declaration.function r n ps body).pieces hashComments ++ more) (· = .nestingTooDeep) := by
  refine Fails.after (l := []) Parses.look fun token (htoken : token.kind = nextKind _) => ?_
  rw [show token.kind = .keyword .function from htoken]
  exact (functionStatement_fails r n ps hbody).bind

end Parser

end Rulebook
