import Rulebook.Proofs.ScannedText
import Rulebook.Proofs.TwinUnit

/-!
# Texts that differ in their trivia

Two texts with the same visible tokens are read alike: their trees differ in places and in the
spacing of embedded code only, and they have the same diagnostics but for remarks.
-/

namespace Rulebook

variable {frames : Nat}

open Rulebook.Parser

/-! ### Shapes -/

/-- What a token is, wherever it stands. -/
def Token.shape (t : Token) : TokenKind × String := (t.kind, t.text)

/-- The visible tokens of two texts are the same. -/
def SameTokens (hashComments : Bool) (a b : String) : Prop :=
  (visible (scan a hashComments)).map Token.shape = (visible (scan b hashComments)).map Token.shape

variable {hashComments : Bool}

theorem shape_located (p : Position) (ls : List (TokenKind × List Char)) :
    (visible (located p ls)).map Token.shape =
      (ls.filter fun l => !l.1.isTrivia).map fun l => (l.1, String.ofList l.2) := by
  induction ls generalizing p with
  | nil => rfl
  | cons l ls ih =>
    obtain ⟨kind, cs⟩ := l
    rw [located]
    cases hk : kind.isTrivia with
    | true =>
      rw [visible_cons_of_trivia (t := Token.at p kind cs) hk, ih,
        List.filter_cons_of_neg (by simp [hk])]
    | false =>
      rw [visible_cons_of_not_trivia (t := Token.at p kind cs) hk,
        List.filter_cons_of_pos (by simp [hk]), List.map_cons, ih]
      rfl

theorem shape_scan (text : String) : (visible (scan text hashComments)).map Token.shape =
    ((lexemes hashComments text.toList).filter fun l => !l.1.isTrivia).map
      (fun l => (l.1, String.ofList l.2)) ++ [(.endOfInput, "")] := by
  rw [scan_eq, visible_append, List.map_append, tokens, shape_located]
  rfl

theorem sameTokens_iff {a b : String} : SameTokens hashComments a b ↔
    (visible (tokens hashComments a)).map Token.shape =
      (visible (tokens hashComments b)).map Token.shape := by
  have hscan : ∀ text, (visible (scan text hashComments)).map Token.shape =
      (visible (tokens hashComments text)).map Token.shape ++ [(.endOfInput, "")] := by
    intro text
    rw [scan_eq, visible_append, List.map_append]
    rfl
  unfold SameTokens
  rw [hscan, hscan]
  exact List.append_left_inj _

/-- What stands between two places of a scan has the tokens between them. -/
theorem shape_spell {text : String} {x y z : List Token}
    (h : tokens hashComments text = x ++ (y ++ z)) :
    (visible (tokens hashComments (spell y))).map Token.shape = (visible y).map Token.shape := by
  obtain ⟨p, ks, rfl, hks⟩ := lexemes_spell h
  rw [tokens, hks, shape_located, shape_located]

/-! ### Blanks at the beginning -/

open Lexeme in
theorem lexemes_dropWhile (cs : List Char) :
    (lexemes hashComments (cs.dropWhile isSeparator)).filter (fun l => !l.1.isTrivia) =
      (lexemes hashComments cs).filter fun l => !l.1.isTrivia := by
  cases cs with
  | nil => rfl
  | cons c rest =>
    cases hc : isSeparator c with
    | false => rw [List.dropWhile_cons_of_neg (by simp [hc])]
    | true =>
      rw [List.dropWhile_cons_of_pos hc, lexemes_cons, lexeme_separator hc,
        List.filter_cons_of_neg (by simp [TokenKind.isTrivia])]

open Lexeme in
theorem isSeparator_of_mem_take_succ {cs : List Char} {n : Nat} {d : Char}
    (h : ∀ c ∈ cs.take n, isSeparator c = true) (hd : isSeparator d = true) :
    ∀ c ∈ cs.take (if (cs.drop n).head? = some d then n + 1 else n), isSeparator c = true := by
  split
  · next hhead =>
    rw [List.head?_drop] at hhead
    intro c hc
    rw [List.take_add_one, hhead] at hc
    rcases List.mem_append.1 hc with hc | hc
    · exact h c hc
    · obtain rfl : c = d := List.mem_singleton.1 hc
      exact hd
  · exact h

open Lexeme in
theorem isSeparator_of_mem_leadingBlanks {cs : List Char} {c : Char}
    (h : c ∈ cs.take (leadingBlanks cs)) : isSeparator c = true := by
  have hblanks : ∀ c ∈ cs.take (cs.takeWhile fun c => c == ' ' || c == '\t').length,
      isSeparator c = true := by
    intro c hc
    have hprefix := List.prefix_iff_eq_take.1 (List.takeWhile_prefix (l := cs)
      fun c => c == ' ' || c == '\t')
    rw [← hprefix] at hc
    have hblank : (c == ' ' || c == '\t') = true := 
      List.mem_takeWhile_imp (p := fun c => c == ' ' || c == '\t') hc
    unfold isSeparator
    rw [hblank]
    rfl
  exact isSeparator_of_mem_take_succ (isSeparator_of_mem_take_succ hblanks (by decide))
    (by decide) c h

theorem sameTokens_drop (cs : List Char) :
    SameTokens hashComments (String.ofList (cs.drop (leadingBlanks cs))) (String.ofList cs) := by
  have hdrop : (cs.drop (leadingBlanks cs)).dropWhile Lexeme.isSeparator =
      cs.dropWhile Lexeme.isSeparator := by
    conv => rhs; rw [← List.take_append_drop (leadingBlanks cs) cs]
    rw [List.dropWhile_append_of_pos fun c hc => isSeparator_of_mem_leadingBlanks hc]
  unfold SameTokens
  rw [shape_scan, shape_scan, String.toList_ofList, String.toList_ofList, ← lexemes_dropWhile,
    hdrop, lexemes_dropWhile]

/-! ### Readings of texts with the same tokens -/

def SameAttributes (as bs : Attributes) : Prop :=
  as.map (fun a => (a.name, a.value)) = bs.map fun b => (b.name, b.value)

/-- Places may differ, and the spacing of embedded code. -/
def respaced (hashComments : Bool) : Likeness where
  offset _ _ := True
  line _ _ := True
  column _ _ := True
  code := SameTokens hashComments
  attributes := SameAttributes
  defaults := SameAttributes
  dialect := (· = ·)
  name := (· = ·)
  keep kind := kind ≠ .general

theorem like_respaced_iff {a b : Token} : a.Like (respaced hashComments) b ↔ a.shape = b.shape :=
  ⟨fun h => Prod.ext h.kind h.text,
    fun h => ⟨congrArg Prod.fst h, congrArg Prod.snd h, trivial, trivial, trivial, trivial⟩⟩

theorem forall₂_like_iff {xs ys : List Token} :
    List.Forall₂ (Token.Like (respaced hashComments)) xs ys ↔
      xs.map Token.shape = ys.map Token.shape := by
  rw [← List.forall₂_eq_eq_eq, List.forall₂_map_left_iff, List.forall₂_map_right_iff]
  exact ⟨fun h => h.imp fun _ _ => like_respaced_iff.1, fun h => h.imp fun _ _ =>
    like_respaced_iff.2⟩

theorem SameAttributes.put {as bs : Attributes} (h : SameAttributes as bs) {a b : Attribute}
    (hab : a.Like (respaced hashComments) b) : SameAttributes (as.put a) (bs.put b) := by
  unfold SameAttributes at h ⊢
  induction as generalizing bs with
  | nil =>
    obtain rfl := List.map_eq_nil_iff.1 h.symm
    simp only [Attributes.put, List.map_cons, hab.name, hab.value, List.map_nil]
  | cons c as ih =>
    cases bs with
    | nil => cases h
    | cons d bs =>
      rw [List.map_cons, List.map_cons, List.cons.injEq, Prod.mk.injEq] at h
      obtain ⟨⟨hname, hvalue⟩, hrest⟩ := h
      rw [Attributes.put, Attributes.put, hname, hab.name]
      split
      · rw [List.map_cons, List.map_cons, hab.name, hab.value, hrest]
      · rw [List.map_cons, List.map_cons, hname, hvalue, ih hrest]

theorem SameAttributes.get? {as bs : Attributes} (h : SameAttributes as bs) (name : String) :
    (as.get? name).map (·.value) = (bs.get? name).map (·.value) := by
  unfold SameAttributes at h
  unfold Attributes.get?
  induction as generalizing bs with
  | nil =>
    obtain rfl := List.map_eq_nil_iff.1 h.symm
    rfl
  | cons c as ih =>
    cases bs with
    | nil => cases h
    | cons d bs =>
      rw [List.map_cons, List.map_cons, List.cons.injEq, Prod.mk.injEq] at h
      obtain ⟨⟨hname, hvalue⟩, hrest⟩ := h
      rw [List.find?_cons, List.find?_cons, hname]
      split
      · rw [Option.map_some, Option.map_some, hvalue]
      · exact ih hrest

theorem SameAttributes.dialectOf {as bs : Attributes} (h : SameAttributes as bs) :
    dialectOf as = dialectOf bs := by
  have hvalue : ∀ as : Attributes, Parser.dialectOf as =
      ((as.get? Keyword.dialect.text).map (·.value)).map fun
        | .text s => s
        | .number n => toString n
        | .flag b => if b then "True" else "False" := by
    intro as
    unfold Parser.dialectOf
    cases as.get? Keyword.dialect.text with
    | none => rfl
    | some a =>
      obtain ⟨l, name, value⟩ := a
      cases value <;> rfl
  rw [hvalue, hvalue, h.get?]

def LeftAlike (hashComments : Bool) (a b : String) (r q : List Token) : Prop :=
  ∃ x y, tokens hashComments a = x ++ r ∧ tokens hashComments b = y ++ q ∧
    (visible r).map Token.shape = (visible q).map Token.shape

theorem LeftAlike.pass {a b : String} {x y r q : List Token}
    (h : LeftAlike hashComments a b (x ++ r) (y ++ q))
    (hn : (visible x).length = (visible y).length) :
    LeftAlike hashComments a b r q ∧ SameTokens hashComments (spell x) (spell y) := by
  obtain ⟨v, w, ha, hb, hshape⟩ := h
  rw [visible_append, visible_append, List.map_append, List.map_append] at hshape
  obtain ⟨hpassed, hleft⟩ := List.append_inj hshape (by simpa using hn)
  refine ⟨⟨v ++ x, w ++ y, by rw [ha, List.append_assoc], by rw [hb, List.append_assoc], hleft⟩, ?_⟩
  rw [sameTokens_iff, shape_spell ha, shape_spell hb, hpassed]

theorem LeftAlike.consume {a b : String} {x y r q : List Token} {c d : Token}
    (h : LeftAlike hashComments a b (x ++ c :: r) (y ++ d :: q)) (hx : visible x = [])
    (hy : visible y = []) (hc : c.isTrivia = false) (hd : d.isTrivia = false) :
    LeftAlike hashComments a b r q := by
  have hpass := h.pass (by rw [hx, hy])
  exact (LeftAlike.pass (x := [c]) (y := [d]) hpass.1
    (by rw [visible_cons_of_not_trivia hc, visible_cons_of_not_trivia hd]; rfl)).1

/-- Two texts with the same visible tokens, side by side. -/
def Readings.respaced (hashComments : Bool) (a b : String) : Readings where
  likeness := Rulebook.respaced hashComments
  first := .ofTokens (scan a hashComments) a
  second := .ofTokens (scan b hashComments) b
  cut := False
  beyond := []
  borders := []
  left := LeftAlike hashComments a b
  leftAfter := LeftAlike hashComments a b
  early _ := True
  first_hidden := hidden_scan _
  second_hidden := hidden_scan _
  first_faithful := faithful_scan a
  second_faithful := faithful_scan b
  left_of_after h := h
  visible_left {r _} h :=
    ⟨visible r, (List.append_nil _).symm,
      forall₂_like_iff.2 (by obtain ⟨-, -, -, -, h⟩ := h; exact h)⟩
  consume h hx hy hc hd := h.consume hx hy hc hd
  pass h hx hy _ _ _ := (h.pass (by rw [hx, hy])).1
  code_inner h hn _ _ := (h.pass hn).2
  code_stretch h hw hz _ _ _ _ _ _ hn := ((h.pass (by rw [hw, hz])).1.pass hn).2
  consequence {x y _ _ _ _} h hn _ _ _ _ :=
    have hxy : SameTokens hashComments (String.ofList (spell x).toList)
        (String.ofList (spell y).toList) := by
      rw [String.ofList_toList, String.ofList_toList]
      exact (h.pass hn).2
    ⟨((sameTokens_drop _).trans hxy).trans (sameTokens_drop _).symm,
      ⟨.some trivial, .some trivial, .some trivial, .some trivial⟩⟩
  last _ := ⟨rfl, rfl, rfl, trivial, trivial, trivial, trivial⟩
  border h := h.elim
  borders_subset := List.nil_subset _
  max_of_early _ _ := trivial
  offset_max _ _ := trivial
  semicolon h := absurd h Bool.false_ne_true
  code_nil := rfl
  attributes_put h hab := h.put hab
  attributes_of_defaults h := h
  dialect h := h.dialectOf

instance (hashComments : Bool) (a b : String) :
    (Readings.respaced hashComments a b).BetweenStatements where
  fence := List.nil_subset _
  closer h := h.elim

/-! ### Texts with the same tokens -/

def Diagnostic.said (d : Diagnostic) : ErrorKind × String × String × Option String :=
  (d.kind, d.message, d.tokenText, d.ruleName)

/-- What the diagnostics of a text say, remarks aside. -/
def ParseResult.complaints (r : ParseResult) : List (ErrorKind × String × String × Option String) :=
  (r.errors.filter (·.kind ≠ .general)).map Diagnostic.said

theorem said_eq_of_like {ds es : List Diagnostic}
    (h : List.Forall₂ (Diagnostic.Like (respaced hashComments)) ds es) :
    ds.map Diagnostic.said = es.map Diagnostic.said := by
  induction h with
  | nil => rfl
  | cons hde _ ih =>
    rw [List.map_cons, List.map_cons, ih]
    simp only [Diagnostic.said, hde.kind, hde.message, hde.tokenText, hde.ruleName]

/-- Texts with the same visible tokens give the same tree, places and the spacing of embedded code
aside, and the same complaints; or both have an integer with too many digits. -/
theorem parse_respaced (settings : Settings) (hmax : settings.maxErrors = none)
    (sourceName : String) {a b : String} (h : SameTokens settings.hashComments a b) :
    (∃ r q, parse frames settings sourceName a = .ok r ∧
      parse frames settings sourceName b = .ok q ∧
      r.package.Like (respaced settings.hashComments) q.package ∧ r.complaints = q.complaints) ∨
    ∃ n events events', parse frames settings sourceName a = .error ⟨.tooManyDigits n, events⟩ ∧
      parse frames settings sourceName b = .error ⟨.tooManyDigits n, events'⟩ := by
  have hs := idle_ofText frames settings sourceName a
  have ht := idle_ofText frames settings sourceName b
  have hagree := Agree.compilationUnit (T := .respaced settings.hashComments a b) (fun h => h)
    (fun has hab => SameAttributes.put has hab) (fun _ => rfl) hs ht
    (abreast_ofText frames hmax sourceName rfl rfl ⟨[], [], rfl, rfl, sameTokens_iff.1 h⟩
      (.empty rfl rfl rfl))
  cases hagree with
  | ok hx hy hpackage hst =>
    rw [parse, hx, parse, hy]
    exact .inl ⟨_, _, rfl, rfl, hpackage, said_eq_of_like hst.reported.errors⟩
  | error hx hy hfg _ =>
    obtain ⟨n, rfl⟩ := (compilationUnit_settles hs).1.long hx
    cases hfg with
    | other =>
      exact .inr ⟨n, _, _, by rw [parse, hx], by rw [parse, hy]⟩
  | astray hcut _ => exact hcut.elim

theorem parse_respaced_comment :
    SameTokens true "rule R when eval(a) then b( 1 ); end"
      "rule /* x */ R when\neval( a )then b(1);end" ∧
    ((∃ r q, parse 900 {} "orders" "rule R when eval(a) then b( 1 ); end" = .ok r ∧
      parse 900 {} "orders" "rule /* x */ R when\neval( a )then b(1);end" = .ok q ∧
      r.package.Like (respaced true) q.package ∧ r.complaints = q.complaints) ∨
    ∃ n events events',
      parse 900 {} "orders" "rule R when eval(a) then b( 1 ); end" =
        .error ⟨.tooManyDigits n, events⟩ ∧
      parse 900 {} "orders" "rule /* x */ R when\neval( a )then b(1);end" =
        .error ⟨.tooManyDigits n, events'⟩) := by
  have h : SameTokens true "rule R when eval(a) then b( 1 ); end"
      "rule /* x */ R when\neval( a )then b(1);end" := by
    unfold SameTokens
    decide +kernel
  exact ⟨h, parse_respaced {} rfl "orders" h⟩

end Rulebook
