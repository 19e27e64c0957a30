import Rulebook.Proofs.Sequel
import Rulebook.Proofs.WrittenDeclarations

/-!
# Declarations read back

A rule file that consists of the name of its package and of declarations is read back as it was
written: without diagnostics, with the same name and, per kind, the same declarations in the same
order. Only function bodies that nest deeper than embedded code may are not.
-/

namespace Rulebook

variable {frames : Nat}

open Lexeme

/-! ### The text -/

def Piece.lineFeed : Piece := (.trivia .whitespace, ['\n'])

@[simp] theorem Piece.letters_lineFeed (l : List Piece) :
    letters (Piece.lineFeed :: l) = '\n' :: letters l :=
  rfl

@[simp] theorem nextKind_lineFeed (l : List Piece) : nextKind (Piece.lineFeed :: l) = nextKind l :=
  rfl

/-- The declaration of a package. -/
def headPieces (name : DottedName) : List Piece :=
  .keyword .package :: .blank :: (name.pieces ++ [.symbol .semicolon])

def declarationPieces (hashComments : Bool) (ds : List Declaration) : List Piece :=
  ds.flatMap fun d => .lineFeed :: d.pieces hashComments

/-- The text of a rule file with declarations. -/
def unitText (name : DottedName) (ds : List Declaration) : String :=
  "package " ++ name.text ++ ";" ++ String.join (ds.map fun d => "\n" ++ d.text)

section Text

variable {hashComments : Bool} {rest : List Char}

theorem Declaration.exists_pieces (d : Declaration) (hashComments : Bool) :
    ∃ k ∈ [Keyword.import_, .global, .function, .template], ∃ l,
      d.pieces hashComments = .keyword k :: l := by
  cases d <;> exact ⟨_, by decide, _, rfl⟩

theorem Declaration.scans_lineFeed (d : Declaration) (rest : List Char) :
    Scans hashComments [.lineFeed] (letters (d.pieces hashComments) ++ rest) := by
  obtain ⟨k, -, l, h⟩ := d.exists_pieces hashComments
  rw [h, Piece.letters_keyword, List.append_assoc]
  exact .separator (by decide) ((Name.ofKeyword k).not_separator _)

theorem scans_declarationPieces (ds : List Declaration) (h : ∀ d ∈ ds, d.Proper hashComments) :
    Scans hashComments (declarationPieces hashComments ds) [] := by
  induction ds with
  | nil => exact .nil
  | cons d ds ih =>
    refine .append (.cons (d.scans_lineFeed _) (d.scans (h d List.mem_cons_self) ?_))
      (ih fun d hd => h d (List.mem_cons_of_mem _ hd))
    cases ds with
    | nil => exact .nil
    | cons e ds => exact .cons (by decide) _

theorem letters_declarationPieces (ds : List Declaration) :
    letters (declarationPieces hashComments ds) =
      (String.join (ds.map fun d => "\n" ++ d.text)).toList := by
  rw [String.toList_join, List.flatMap_map, declarationPieces]
  induction ds with
  | nil => rfl
  | cons d ds ih => simp [letters_append, d.letters_pieces, ih]

/-- A rule file with declarations is scanned as it was written. -/
theorem lexemes_unitText (name : DottedName) (ds : List Declaration)
    (h : ∀ d ∈ ds, d.Proper hashComments) :
    lexemes hashComments (unitText name ds).toList =
      headPieces name ++ declarationPieces hashComments ds := by
  have hscans : Scans hashComments (headPieces name ++ declarationPieces hashComments ds) [] := by
    refine .append (.keyword_blank _ ?_ (.append (name.scans (.cons (by decide) _))
      (.symbol (by decide)))) (scans_declarationPieces ds h)
    rw [letters_append, List.append_assoc]
    exact .blank_piece _ _ _
  have hletters : letters (headPieces name ++ declarationPieces hashComments ds) =
      (unitText name ds).toList := by
    simp [headPieces, letters_append, name.letters_pieces, letters_declarationPieces, unitText,
      Symbol.text, Keyword.text]
  rw [Scans, List.append_nil, hletters] at hscans
  rw [hscans, lexemes, List.append_nil]

end Text

/-! ### What is declared -/

namespace Declaration

def AddAll : List Declaration → Package → Package → Prop
  | [], p, q => q = p
  | d :: ds, p, q => ∃ m, d.Adds p m ∧ AddAll ds m q

theorem Adds.name {d : Declaration} {p q : Package} (h : d.Adds p q) : q.name = p.name := by
  cases d with
  | template name slots => obtain ⟨l, found, -, rfl⟩ := h; rfl
  | _ => obtain ⟨l, rfl⟩ := h; rfl

theorem AddAll.name {ds : List Declaration} {p q : Package} (h : AddAll ds p q) :
    q.name = p.name := by
  induction ds generalizing p with
  | nil => exact congrArg Package.name h
  | cons d ds ih =>
    obtain ⟨m, hd, hds⟩ := h
    exact (ih hds).trans hd.name

/-! What is written in a declaration, if it is of a kind. -/

def importTarget? : Declaration → Option String
  | importName target => some target.text
  | _ => none

def functionTarget? : Declaration → Option String
  | importFunction target => some target.text
  | _ => none

def global? : Declaration → Option (String × String)
  | global type name => some (type.text, name.text)
  | _ => none

def function? : Declaration → Option (String × Option String × List Parameter × String)
  | function returnType name parameters body =>
    some (name.text, returnType.map (·.text), parameters.map (·.meaning), body)
  | _ => none

def template? : Declaration → Option (String × List (String × String))
  | template name slots => some (name.text, slots.map fun s => (s.type.text, s.name.text))
  | _ => none

end Declaration

/-- A package declares what was written: per kind, the same in the same order. -/
structure Package.Declares (p : Package) (ds : List Declaration) : Prop where
  imports : p.imports.map (·.target) = ds.filterMap (·.importTarget?)
  functionImports : p.functionImports.map (·.target) = ds.filterMap (·.functionTarget?)
  globals : p.globals.map (fun g => (g.type, g.name)) = ds.filterMap (·.global?)
  functions : p.functions.map (fun f => (f.name, f.returnType, f.parameters, f.body)) =
    ds.filterMap (·.function?)
  templates : p.templates.map (fun t => (t.name, t.slots.map fun s => (s.type, s.name))) =
    ds.filterMap (·.template?)
  rules : p.rules = []

namespace Package.Declares

variable {p q : Package} {d : Declaration} {ds es : List Declaration}

/-- One more declaration. -/
theorem concat (h : p.Declares ds) (hd : d.Adds p q) : q.Declares (ds ++ [d]) := by
  cases d with
  | template name slots =>
    obtain ⟨l, found, hfound, rfl⟩ := hd
    constructor <;> simp [h.imports, h.functionImports, h.globals, h.functions,
      h.templates, h.rules,
      hfound, Declaration.importTarget?, Declaration.functionTarget?, Declaration.global?,
      Declaration.function?, Declaration.template?]
  | _ =>
    obtain ⟨l, rfl⟩ := hd
    constructor <;> simp [h.imports, h.functionImports, h.globals, h.functions,
      h.templates, h.rules,
      Declaration.importTarget?, Declaration.functionTarget?, Declaration.global?,
      Declaration.function?, Declaration.template?]

theorem append (h : p.Declares ds) (hes : Declaration.AddAll es p q) : q.Declares (ds ++ es) := by
  induction es generalizing p ds with
  | nil =>
    obtain rfl : q = p := hes
    rwa [List.append_nil]
  | cons d es ih =>
    obtain ⟨m, hd, hes⟩ := hes
    rw [List.append_cons]
    exact ih (h.concat hd) hes

end Package.Declares

namespace Parser

variable {settings : Settings} {hashComments : Bool} {more : List Piece} {q : Package} {s : State}

/-! ### The head of the file -/

theorem declares_packageStatement (name : DottedName) :
    Declares (Holds q) (packageStatement false) (headPieces name) more
      fun p p' => p' = { p with name := name.text } := by
  refine Declares.bind (l := [.keyword .package]) (Parses.keyword .package) fun _ _ => ?_
  refine Declares.bind (l := .blank :: name.pieces) (parses_dottedName name (by simp)).blank
    fun found hfound => ?_
  refine Declares.before (Parses.skip .semicolon) fun _ _ => ?_
  intro s hs hface
  exact ⟨(), _, rfl, ⟨hface.hidden, hface.rest⟩, by rw [← hfound], .refl s⟩

theorem declares_unitHead (name : DottedName) (h : nextKind more ∉ attributeKinds) :
    Declares (Holds q) unitHead (headPieces name) more
      fun p p' => p' = { p with name := name.text } := by
  refine Declares.after (Parses.nextIsKeyword .package) fun b hb => ?_
  rw [if_pos (by simp [hb, headPieces])]
  refine Declares.andThen (fun s hs hface => ?_) fun _ => ?_
  · obtain ⟨a, t, ha, h⟩ := declares_packageStatement name hs hface
    exact ⟨(), t, headOrRecovery_of_ok ha, h⟩
  · -- no attributes are written, so the loop over them stops at once
    refine (Parses.repeatWhile_stop ?_).mono fun _ _ => trivial
    exact (Parses.nextIs attributeKinds).mono fun b hb => by simp [hb, h]

/-! ### The declarations -/

theorem nextKind_declarationPieces (d : Declaration) (ds : List Declaration) :
    ∃ k ∈ [Keyword.import_, .global, .function, .template],
      nextKind (declarationPieces hashComments (d :: ds)) = .keyword k := by
  obtain ⟨k, hk, l, h⟩ := d.exists_pieces hashComments
  exact ⟨k, hk, by rw [declarationPieces, List.flatMap_cons, h]; rfl⟩

theorem nextKind_declarationPieces_ne (ds : List Declaration) :
    nextKind (declarationPieces hashComments ds) ≠ .symbol .semicolon := by
  cases ds with
  | nil => simp [declarationPieces]
  | cons d ds =>
    obtain ⟨k, -, h⟩ := @nextKind_declarationPieces hashComments d ds
    simp [h]

theorem unfinished_of_faces {l : List Piece} (k : Nat) (h : s.Faces l) :
    unfinished k s = .ok (!decide (nextKind l ∈ [TokenKind.endOfInput])) s := by
  rw [← h.kind]
  rfl

theorem anotherStatement_of_declaration {d : Declaration} (hproper : d.Proper hashComments)
    (hnests : d.Nests hashComments s.stack.room) (hmore : nextKind more ≠ .symbol .semicolon)
    (k : Nat) (hs : s.trials = 0) (hface : s.Faces (d.pieces hashComments ++ more)) :
    ∃ t, anotherStatement k s = .ok (k + 1) t ∧ t.Faces more ∧ d.Adds s.package t.package ∧
      s.Calm { t with package := s.package } := by
  obtain ⟨a, t, hstatement, hrest⟩ :=
    declares_statement d hproper hnests hmore (q := s.package) ⟨⟨hs, rfl⟩, Nat.le_refl _⟩ hface
  exact ⟨t, bind_of_ok (statementOrRecovery_of_ok hstatement), hrest⟩

/-- Declarations are read one after the other, up to the end of the input. -/
theorem rounds_declarations (ds : List Declaration) (hproper : ∀ d ∈ ds, d.Proper hashComments)
    (hnests : ∀ d ∈ ds, d.Nests hashComments s.stack.room) {n : Nat} (hn : ds.length < n) (k : Nat)
    (hs : s.trials = 0) (hface : s.Faces (declarationPieces hashComments ds)) :
    ∃ t, rounds unfinished anotherStatement n k s = .ok (k + ds.length) t ∧
      Declaration.AddAll ds s.package t.package ∧ s.Calm { t with package := s.package } := by
  obtain ⟨n, rfl⟩ : ∃ m, n = m + 1 := ⟨n - 1, by omega⟩
  have hunfinished := unfinished_of_faces k hface
  induction ds generalizing n k s with
  | nil =>
    refine ⟨s, ?_, rfl, .refl s⟩
    unfold rounds
    rw [bind_of_ok hunfinished, if_neg (by simp [declarationPieces])]
    rfl
  | cons d ds ih =>
    rw [List.length_cons] at hn
    obtain ⟨n, rfl⟩ : ∃ m, n = m + 1 := ⟨n - 1, by omega⟩
    obtain ⟨t, hstep, ht, hadds, hst⟩ :=
      anotherStatement_of_declaration (hproper d List.mem_cons_self)
      (hnests d List.mem_cons_self) (@nextKind_declarationPieces_ne hashComments ds) k hs
      (hface.of_trivia rfl)
    have htrials : t.trials = 0 := hst.evolves.trials.trans hs
    obtain ⟨u, hrounds, hall, htu⟩ := ih (fun d hd => hproper d (List.mem_cons_of_mem _ hd))
      (fun d hd => hst.evolves.stack ▸ hnests d (List.mem_cons_of_mem _ hd)) (k + 1) htrials ht
      n (by omega) (unfinished_of_faces (k + 1) ht)
    obtain ⟨i, -, hkind⟩ := @nextKind_declarationPieces hashComments d ds
    refine ⟨u, ?_, ⟨_, hadds, hall⟩, hst.trans (htu.withPackage s.package)⟩
    unfold rounds
    rw [bind_of_ok hunfinished, if_pos (by simp [hkind]), bind_of_ok hstep, hrounds,
      List.length_cons, Nat.add_assoc, Nat.add_comm 1]

/-! ### The file -/

structure AtDeclarations (frames : Nat) (settings : Settings) (name : DottedName)
    (ds : List Declaration) (s : State) : Prop extends Idle s where
  stack : s.stack = .ofFrames frames
  faces : s.Faces (declarationPieces settings.hashComments ds)
  errors : s.collector.errors = []
  name : s.package.name = name.text
  declares : s.package.Declares []

theorem AtDeclarations.lt_remaining {name : DottedName} {ds : List Declaration}
    (h : AtDeclarations frames settings name ds s) : ds.length < s.cursor.remaining + 1 := by
  have hlength := Parses.length_filter_le_remaining h.faces
  have hle := @Parses.length_le_flatMap _ (fun d => .lineFeed :: d.pieces settings.hashComments) ds
    fun d _ => by
      obtain ⟨k, -, l, hd⟩ := d.exists_pieces settings.hashComments
      simp [hd]
  exact Nat.lt_succ_of_le (Nat.le_trans hle hlength)

theorem exists_atDeclarations (frames : Nat) (settings : Settings) (sourceName : String)
    (name : DottedName) (d : Declaration) (ds : List Declaration)
    (hproper : ∀ e ∈ d :: ds, e.Proper settings.hashComments) :
    ∃ s, compilationUnit (.ofText frames settings sourceName (unitText name (d :: ds))) =
        (statements >>= closeUnit) s ∧ AtDeclarations frames settings name (d :: ds) s := by
  let start := State.ofText frames settings sourceName (unitText name (d :: ds))
  have hface : start.begun.Faces
      (headPieces name ++ declarationPieces settings.hashComments (d :: ds)) := by
    have hface := faces_ofText frames settings sourceName (unitText name (d :: ds))
    rw [lexemes_unitText name _ hproper] at hface
    exact ⟨hface.hidden, hface.rest⟩
  have hidle : Idle start.begun := (idle_ofText frames settings sourceName _).begun
  obtain ⟨k, hk, hkind⟩ := @nextKind_declarationPieces settings.hashComments d ds
  have hattribute : TokenKind.keyword k ∉ attributeKinds :=
    (by decide : ∀ k ∈ [Keyword.import_, .global, .function, .template],
      TokenKind.keyword k ∉ attributeKinds) k hk
  obtain ⟨_, s, hhead, hs, hpackage, hstart⟩ := declares_unitHead name (hkind ▸ hattribute)
    (q := start.begun.package) ⟨hidle.trials, rfl⟩ hface
  refine ⟨s, ?_,
      { hidle.evolves (t := { s with package := start.begun.package }) hstart.evolves with
    stack := hstart.evolves.stack, faces := hs, errors := hstart.errors, name := ?_,
      declares := ?_ }⟩
  · rw [compilationUnit_eq]
    exact bind_of_ok hhead
  · rw [hpackage]
  · rw [hpackage]
    exact ⟨rfl, rfl, rfl, rfl, rfl, rfl⟩

end Parser

open Rulebook.Parser

variable {settings : Settings} {sourceName : String}

/-- A rule file with declarations is read back as it was written, if no function body nests deeper
than embedded code may. -/
theorem parse_reads_declarations (name : DottedName) {ds : List Declaration} (hds : ds ≠ [])
    (hproper : ∀ d ∈ ds, d.Proper settings.hashComments)
    (hnests : ∀ d ∈ ds, d.Nests settings.hashComments frames) :
    ∃ r, parse frames settings sourceName (unitText name ds) = .ok r ∧ r.errors = [] ∧
      r.package.name = name.text ∧ r.package.Declares ds := by
  obtain ⟨d, es, rfl⟩ := List.exists_cons_of_ne_nil hds
  obtain ⟨s, hunit, hs⟩ := exists_atDeclarations frames settings sourceName name d es hproper
  obtain ⟨t, hstatements, hall, hst⟩ := rounds_declarations (d :: es) hproper
    (hs.stack ▸ hnests) hs.lt_remaining 0
    hs.trials hs.faces
  have hended : t.ended (0 + (d :: es).length) = t.declared fun p =>
      { p with location := p.location.closeAt (t.cursor.previous.map (·.stop)) } :=
    ended_of_ne (by simp) t
  have hparsed : compilationUnit (.ofText frames settings sourceName (unitText name (d :: es))) =
      .ok _ (t.ended (0 + (d :: es).length)) :=
    hunit.trans ((bind_of_ok hstatements).trans (closeUnit_eq _ t))
  have hdeclares := hs.declares.append hall
  unfold parse
  rw [hparsed, hended]
  exact ⟨_, rfl, hst.errors.trans hs.errors, hall.name.trans hs.name,
    { hdeclares with }⟩

/-- An identifier. -/
def orders : Name where
  text := "orders"
  kind := .identifier
  scanned hashComments := by cases hashComments <;> decide +kernel
  isName := rfl

/-- Declarations in which keywords stand for names. -/
def ambiguousDeclarations : List Declaration :=
  [.importName ⟨⟨.ofKeyword .function, []⟩, false⟩,
    .importName ⟨⟨.ofKeyword .function, [orders]⟩, true⟩,
    .importFunction ⟨⟨.ofKeyword .function, [.ofKeyword .noLoop]⟩, true⟩,
    .global ⟨⟨.ofKeyword .import_, []⟩, [⟨⟨orders, []⟩, [], 1⟩], 2⟩ (.ofKeyword .global),
    .function none (.ofKeyword .function) [⟨none, .ofKeyword .rule, 0⟩] "return rule; // \x7d\n",
    .function (some ⟨⟨.ofKeyword .function, []⟩, [], 1⟩) orders
      [⟨some ⟨⟨orders, []⟩, [], 1⟩, .ofKeyword .end_, 0⟩] "\x7b \x7d",
    .template (.ofKeyword .template) [⟨⟨⟨orders, [.ofKeyword .end_]⟩, [], 0⟩, .ofKeyword .end_⟩]]

theorem proper_ambiguousDeclarations : ∀ d ∈ ambiguousDeclarations, d.Proper true := by
  simp only [ambiguousDeclarations, List.forall_mem_cons, Declaration.Proper, true_and]
  refine ⟨.of_scans 1 (by decide +kernel) (by decide +kernel),
    .of_scans 1 (by decide +kernel) (by decide +kernel), ?_, fun d hd => by cases hd⟩
  exact ⟨List.cons_ne_nil _ _, by simp [TypeExpr.first, orders]⟩

theorem parse_reads_declarations_of_keywords :
    ambiguousDeclarations ≠ [] ∧ (∀ d ∈ ambiguousDeclarations, d.Proper true) ∧
      (∀ d ∈ ambiguousDeclarations, d.Nests true 900) ∧
      ∃ r, parse 900 {} "orders" (unitText ⟨.ofKeyword .package, []⟩ ambiguousDeclarations) =
        .ok r ∧
        r.errors = [] ∧ r.package.name = "package" ∧ r.package.Declares ambiguousDeclarations := by
  have hnests : ∀ d ∈ ambiguousDeclarations, d.Nests true 900 := by decide +kernel
  exact ⟨List.cons_ne_nil _ _, proper_ambiguousDeclarations, hnests,
    @parse_reads_declarations 900 {} "orders" ⟨.ofKeyword .package, []⟩ _ (List.cons_ne_nil _ _)
      proper_ambiguousDeclarations hnests⟩

theorem received_pos_of_deep {s t u : State} {m : Nat} (hs : Idle s)
    (hkind : s.cursor.current.kind ≠ .endOfInput) (h : statement s = .error .nestingTooDeep t)
    (hstatements : statements s = .ok m u) : 0 < u.collector.received := by
  have ht := hs.evolves (Orderly.evolves_error _ h)
  have hround : anotherStatement 0 s = .ok 1 t.dropped :=
    bind_of_ok ((statementOrRecovery_of_nesting h).trans (dropDeepStatement_eq ht))
  have hmore : unfinished 0 s = .ok true s :=
    congrArg (EStateM.Result.ok · s) (by simp [hkind])
  have hrest : rounds unfinished anotherStatement s.cursor.remaining 1 t.dropped = .ok m u := by
    refine Eq.trans ?_ hstatements
    show _ = rounds unfinished anotherStatement (s.cursor.remaining + 1) 0 s
    rw [Turns.rounds_succ hmore, if_pos rfl, bind_of_ok hround]
  have hdropped : Settles (rounds unfinished anotherStatement s.cursor.remaining 1) t.dropped :=
    rounds_settles (fun {a s} _ => .of_ok (t := s) rfl (.refl s))
      (fun {a s} hs => turns_statements.settles a hs) _ _ (ht.evolves (evolves_dropped ht))
  have hle := (hdropped.evolves_ok hrest).collector.received_le
  have hreceived : t.dropped.collector.received = t.collector.received + 1 :=
    Collector.received_remark ..
  omega

theorem errors_of_nestedBraces (hvalid : settings.Valid) (name : DottedName) (n : Name) {k : Nat}
    (hk : frames < k) {r : ParseResult}
    (h : parse frames settings sourceName (unitText name [.function none n [] (nestedBraces k)]) =
      .ok r) :
    r.errors ≠ [] := by
  have hproper : ∀ d ∈ [Declaration.function none n [] (nestedBraces k)],
      d.Proper settings.hashComments := fun d hd => by
    rw [List.mem_singleton.1 hd]
    exact isCode_nestedBraces k
  obtain ⟨s, hunit, hs⟩ := exists_atDeclarations frames settings sourceName name _ [] hproper
  have hface := hs.faces
  obtain ⟨i, -, hkind⟩ := @nextKind_declarationPieces settings.hashComments
    (.function none n [] (nestedBraces k)) []
  obtain ⟨f, w, hdeep, rfl, -⟩ := statement_fails none n []
    (@lexemes_nestedBraces settings.hashComments k) (s := s)
    (by rw [State.Short, hs.stack]; exact hk) (hface.of_trivia rfl)
  intro hclean
  obtain ⟨t, hparsed, -, hzero⟩ := exists_clean_unit hvalid h hclean
  obtain ⟨m, u, hstatements, hclose⟩ := bind_eq_ok.1 (hunit.symm.trans hparsed)
  rw [closeUnit_eq] at hclose
  obtain ⟨-, rfl⟩ := EStateM.Result.ok.inj hclose
  have hpos := received_pos_of_deep hs.toIdle (by rw [hface.kind, hkind]; simp) hdeep hstatements
  have hu := hs.toIdle.evolves ((statements_settles hs.toIdle).1.evolves_ok hstatements)
  have hle := (evolves_ended m hu.trials).collector.received_le
  omega

/-- A function with so deep a body is declared properly, and is not read back. -/
theorem nestedBraces_unread :
    (∀ d ∈ [Declaration.function none orders [] (nestedBraces 2000)], d.Proper true) ∧
      ¬∃ r, parse 900 {} "orders"
          (unitText ⟨orders, []⟩ [.function none orders [] (nestedBraces 2000)]) = .ok r ∧
        r.errors = [] ∧ r.package.name = "orders" ∧
        r.package.Declares [.function none orders [] (nestedBraces 2000)] := by
  refine ⟨fun d hd => ?_, fun ⟨r, hr, hclean, _⟩ => ?_⟩
  · rw [List.mem_singleton.1 hd]
    exact isCode_nestedBraces 2000
  · have hvalid : ({} : Settings).Valid := by simp [Settings.Valid]
    exact errors_of_nestedBraces hvalid _ orders (by decide) hr hclean

end Rulebook
