import Rulebook.Proofs.WrittenParameters
import Rulebook.Proofs.WrittenRestrictions

/-!
# Parameter lists, token by token

Types and parameters as the tokens they are written with, whatever blanks and comments stand between
these: generic arguments are any tokens whose angle brackets are paired, and names may be keywords.
A parameter with a type and one without begin alike, with a name and pairs of brackets. What stands
behind these tells them apart, however many pairs there are.
-/

namespace Rulebook

open Rulebook.Parser

/-! ### What is written -/

def pairTokens (pairs : List (Token × Token)) : List Token := pairs.flatMap fun p => [p.1, p.2]

def IsBrackets (p : Token × Token) : Prop :=
  p.1.kind = .symbol .lbracket ∧ p.2.kind = .symbol .rbracket

/-- Tokens among which each angle bracket has its partner. -/
inductive Angled : List Token → Prop where
  | nil : Angled []
  | other {t : Token} {ts : List Token}
      (h : t.kind ∉ [TokenKind.symbol .less, .symbol .greater, .endOfInput]) (hts : Angled ts) :
      Angled (t :: ts)
  | pair {opening closing : Token} {ts us : List Token} (hopening : opening.kind = .symbol .less)
      (hts : Angled ts) (hclosing : closing.kind = .symbol .greater) (hus : Angled us) :
      Angled (opening :: (ts ++ closing :: us))

/-- Generic arguments, which may be left out. -/
inductive ArgumentTokens : List Token → Prop where
  | none : ArgumentTokens []
  | angled {opening closing : Token} {ts : List Token} (hopening : opening.kind = .symbol .less)
      (hts : Angled ts) (hclosing : closing.kind = .symbol .greater) :
      ArgumentTokens (opening :: (ts ++ [closing]))

/-- A type by its tokens: a dotted name, generic arguments, pairs of brackets. -/
structure TypeTokens where
  first : Token
  parts : List (Token × Token)
  arguments : List Token
  pairs : List (Token × Token)
  named : first.isName = true
  dotted : ∀ p ∈ parts, p.1.kind = .symbol .dot ∧ p.2.isName = true
  balanced : ArgumentTokens arguments
  bracketed : ∀ p ∈ pairs, IsBrackets p

namespace TypeTokens

def tokens (t : TypeTokens) : List Token :=
  dottedTokens t.first t.parts ++ (t.arguments ++ pairTokens t.pairs)

/-- The text of a type: its tokens without what stands between them. -/
def text (t : TypeTokens) : String :=
  dottedText t.first t.parts ++ spell t.arguments ++ bracketText t.pairs.length

end TypeTokens

structure ParameterTokens where
  type : Option TypeTokens
  name : Token
  pairs : List (Token × Token)
  named : name.isName = true
  bracketed : ∀ p ∈ pairs, IsBrackets p

namespace ParameterTokens

def tokens (p : ParameterTokens) : List Token :=
  (p.type.map (·.tokens)).getD [] ++ p.name :: pairTokens p.pairs

/-- What is meant by a parameter: pairs of brackets behind its name belong to its type. -/
def meaning (p : ParameterTokens) : Parameter :=
  ⟨suffixed (p.type.map (·.text)) p.pairs.length, p.name.text⟩

end ParameterTokens

theorem ParameterTokens.exists_first (p : ParameterTokens) :
    ∃ first us, first.isName = true ∧ p.tokens = first :: us := by
  obtain ⟨type, name, pairs, hname, hpairs⟩ := p
  cases type with
  | none => exact ⟨name, _, hname, rfl⟩
  | some t => exact ⟨t.first, _, t.named, rfl⟩

def furtherTokens (more : List (Token × ParameterTokens)) : List Token :=
  more.flatMap fun x => x.1 :: x.2.tokens

/-- The tokens of parameters in parentheses, with commas between them. -/
inductive ParameterListTokens : List ParameterTokens → List Token → Prop where
  | none {opening closing : Token} (hopening : opening.kind = .symbol .lparen)
      (hclosing : closing.kind = .symbol .rparen) : ParameterListTokens [] [opening, closing]
  | some {opening closing : Token} {p : ParameterTokens} {more : List (Token × ParameterTokens)}
      (hopening : opening.kind = .symbol .lparen) (hcommas : ∀ x ∈ more, x.1.kind = .symbol .comma)
      (hclosing : closing.kind = .symbol .rparen) :
      ParameterListTokens (p :: more.map Prod.snd)
        (opening :: (p.tokens ++ (furtherTokens more ++ [closing])))

/-! ### What is next -/

def firstKind (ts : List Token) : TokenKind := (ts.head?.map (·.kind)).getD .endOfInput

@[simp] theorem firstKind_cons (t : Token) (ts : List Token) : firstKind (t :: ts) = t.kind := rfl

/-- A type and the name behind it begin with a name and pairs of brackets, and neither brackets nor
what may stand behind a name follow these. -/
theorem TypeTokens.exists_brackets (t : TypeTokens) {name : Token} (hname : name.isName = true)
    (more : List Token) :
    ∃ (first : Token) (pairs : List (Token × Token)) (us : List Token), first.isName = true ∧
      (∀ p ∈ pairs, IsBrackets p) ∧ t.tokens ++ name :: more = first :: (pairTokens pairs ++ us) ∧
      ∀ k ∈ [Symbol.lbracket, .comma, .rparen], firstKind us ≠ .symbol k := by
  obtain ⟨first, parts, arguments, pairs, hfirst, hparts, harguments, hpairs⟩ := t
  have hother : ∀ {x : Token} {k' : Symbol}, x.kind = .symbol k' →
      k' ∉ [Symbol.lbracket, .comma, .rparen] → ∀ us, ∀ k ∈ [Symbol.lbracket, .comma, .rparen],
        firstKind (x :: us) ≠ .symbol k := by
    intro x k' hx hk' us k hk heq
    exact hk' (TokenKind.symbol.inj (hx.symm.trans heq) ▸ hk)
  cases parts with
  | cons p parts =>
    refine ⟨first, [], _, hfirst, by simp, rfl,
      hother (hparts p List.mem_cons_self).1 (by decide) _⟩
  | nil =>
    cases harguments with
    | none =>
      refine ⟨first, pairs, name :: more, hfirst, hpairs, by simp [TypeTokens.tokens, dottedTokens],
        ?_⟩
      intro k _ heq
      rw [Token.isName, show name.kind = .symbol k from heq] at hname
      cases hname
    | angled hopening hts hclosing =>
      exact ⟨first, [], _, hfirst, by simp, rfl, hother hopening (by decide) _⟩

namespace Parser

variable {α β : Type} {room : Nat} {hashComments : Bool} {text : String}
  {ts us more notes : List Token}
  {s : State} {a : α} {b : β} {p : Parser α} {f : α → Parser β}

theorem kind_of_ahead (hs : s.cursor.triviaVisible = false) (hahead : s.cursor.ahead = more) :
    s.cursor.current.kind = firstKind more := by
  rw [Cursor.current_of_hidden hs, hahead]
  cases more with
  | nil => exact Cursor.kind_last _
  | cons t more => rfl

theorem kind_lookahead (hs : s.cursor.triviaVisible = false) (n : Nat) :
    (s.cursor.lookahead (n + 1)).kind = firstKind (s.cursor.ahead.drop n) := by
  rw [Cursor.lookahead_of_hidden hs, List.getD_eq_getElem?_getD, firstKind, List.head?_drop]
  cases s.cursor.ahead[n]? with
  | none => exact Cursor.kind_last _
  | some t => rfl

/-- Two parts in turn that nothing is remarked on. -/
theorem Reads.andThen (hp : Reads room hashComments text p ts (us ++ more) a [])
    (hf : Reads room hashComments text (f a) us more b []) :
    Reads room hashComments text (p >>= f) (ts ++ us) more b [] :=
  hp.bind hf

/-- A sequence whose first part takes nothing. -/
theorem Reads.look (hp : Reads room hashComments text p [] (ts ++ more) a [])
    (hf : Reads room hashComments text (f a) ts more b notes) :
    Reads room hashComments text (p >>= f) ts more b notes :=
  hp.bind hf

theorem reads_nextIsSymbol {k : Symbol} {g : Bool → Parser α}
    (hf : Reads room hashComments text (g (decide (firstKind (ts ++ more) = .symbol k))) ts more
      a notes) :
    Reads room hashComments text (nextIsSymbol k >>= g) ts more a notes := by
  intro s hs hroom hahead
  rw [← kind_of_ahead hs.hidden hahead] at hf
  exact hf hs hroom hahead

theorem nextIsSymbol_of_ahead {k : Symbol} (hs : s.Reading hashComments text)
    (hahead : s.cursor.ahead = more) :
    nextIsSymbol k s = .ok (decide (firstKind more = .symbol k)) s := by
  rw [← kind_of_ahead hs.hidden hahead]
  rfl

theorem undotted_of_firstKind (h : firstKind more ≠ .symbol .dot) : Undotted more := by
  intro x hx heq
  obtain ⟨us, rfl⟩ := List.head?_eq_some_iff.1 hx
  exact h heq

/-! ### Generic arguments -/

def depthBehind (t : Token) (depth : Nat) : Nat :=
  if t.kind = .symbol .less then depth + 1
  else if t.kind = .symbol .greater then depth - 1
  else depth

theorem reads_genericRound {t : Token} (hk : t.kind ≠ .endOfInput) (written : String)
    (depth : Nat) :
    Reads room hashComments text (genericRound (written, depth)) [t] more
      (written ++ t.text, depthBehind t depth) [] := by
  refine .current rfl ?_
  rw [if_neg hk]
  exact Reads.step (.advance hk) (.pure _)

/-- A round takes a token as long as a pair is open. -/
theorem reads_generic_step {t : Token} (hk : t.kind ≠ .endOfInput) {written : String} {depth : Nat}
    {result : String × Nat}
    (hrest : Reads room hashComments text
      (repeatWhile (written ++ t.text, depthBehind t (depth + 1))
      (fun (_, depth) => return depth ≠ 0) genericRound) us more result []) :
    Reads room hashComments text (repeatWhile (written, depth + 1)
      (fun (_, depth) => return depth ≠ 0) genericRound) (t :: us) more result [] :=
  Reads.round Repetition.genericArguments.rolls (fun _ _ _ => rfl)
    (reads_genericRound hk written (depth + 1)) hrest

/-- Tokens whose angle brackets are paired leave as many pairs open as there were. -/
theorem reads_angled (h : Angled ts) {written : String} {depth : Nat} {result : String × Nat}
    (hrest : Reads room hashComments text (repeatWhile (written ++ spell ts, depth + 1)
      (fun (_, depth) => return depth ≠ 0) genericRound) us more result []) :
    Reads room hashComments text (repeatWhile (written, depth + 1)
      (fun (_, depth) => return depth ≠ 0) genericRound) (ts ++ us) more result [] := by
  induction h generalizing written depth us with
  | nil => simpa using hrest
  | @other t ts h _ ih =>
    simp only [List.mem_cons, List.not_mem_nil, or_false, not_or] at h
    obtain ⟨hless, hgreater, hend⟩ := h
    refine reads_generic_step hend ?_
    rw [depthBehind, if_neg hless, if_neg hgreater]
    refine ih ?_
    rwa [String.append_assoc, ← spell_cons]
  | @pair opening closing ts us' hopening _ hclosing _ ihts ihus =>
    rw [List.cons_append, List.append_assoc, List.cons_append]
    refine reads_generic_step (by rw [hopening]; simp) ?_
    rw [depthBehind, if_pos hopening]
    refine ihts (reads_generic_step (by rw [hclosing]; simp) ?_)
    rw [depthBehind, if_neg (by rw [hclosing]; simp), if_pos hclosing, Nat.add_sub_cancel]
    refine ihus ?_
    have hspell : written ++ opening.text ++ spell ts ++ closing.text ++ spell us' =
        written ++ spell (opening :: (ts ++ closing :: us')) := by
      simp only [spell_cons, spell_append, String.append_assoc]
    rwa [hspell]

theorem reads_genericArguments {opening closing : Token} (hopening : opening.kind = .symbol .less)
    (hts : Angled ts) (hclosing : closing.kind = .symbol .greater) :
    Reads room hashComments text genericArguments (opening :: (ts ++ [closing])) more
      (spell (opening :: (ts ++ [closing]))) [] := by
  have hdone : Reads room hashComments text (repeatWhile (spell (opening :: (ts ++ [closing])), 0)
      (fun (_, depth) => return depth ≠ 0) genericRound) [] more
      (spell (opening :: (ts ++ [closing])), 0) [] :=
    .done Repetition.genericArguments.rolls fun _ _ _ => rfl
  have hspell :
      opening.text ++ spell ts ++ closing.text = spell (opening :: (ts ++ [closing])) := by
    simp [spell_append, String.append_assoc]
  have hloop : Reads room hashComments text (repeatWhile (opening.text, 1)
      (fun (_, depth) => return depth ≠ 0) genericRound) (ts ++ [closing]) more
      (spell (opening :: (ts ++ [closing])), 0) [] := by
    refine reads_angled hts (reads_generic_step (by rw [hclosing]; simp) ?_)
    rwa [depthBehind, if_neg (by rw [hclosing]; simp), if_pos hclosing, hspell]
  exact .step (.advance (by rw [hopening]; simp))
    (hloop.before (f := fun (written, _) => Pure.pure written) (.pure _))

/-! ### Pairs of brackets -/

theorem reads_arraySuffixes (grow : α → α) {pairs : List (Token × Token)}
    (hpairs : ∀ p ∈ pairs, IsBrackets p) (hmore : firstKind more ≠ .symbol .lbracket) (a : α) :
    Reads room hashComments text (arraySuffixes a grow)
      (pairTokens pairs) more (grow^[pairs.length] a) [] := by
  have hrolls := (Repetition.arraySuffixes grow).rolls
  induction pairs generalizing a with
  | nil =>
    refine .done hrolls fun s hs hahead => ?_
    rw [nextIsSymbol_of_ahead hs hahead, decide_eq_false hmore]
  | cons p pairs ih =>
    obtain ⟨hopening, hclosing⟩ := hpairs p List.mem_cons_self
    have hround : Reads room hashComments text (do
        let _ ← advance
        let _ ← symbol .rbracket
        return grow a) [p.1, p.2] (pairTokens pairs ++ more) (grow a) [] :=
      .step (.advance (by rw [hopening]; simp)) (.step (.expect hclosing (by simp)) (.pure _))
    refine Reads.round hrolls (fun s hs hahead => ?_) hround
      (ih (fun q hq => hpairs q (List.mem_cons_of_mem _ hq)) (grow a))
    rw [nextIsSymbol_of_ahead hs hahead, decide_eq_true (by exact hopening)]

theorem iterate_brackets (written : String) (n : Nat) :
    (· ++ "[]")^[n] written = written ++ bracketText n := by
  induction n generalizing written with
  | zero => exact (String.append_empty).symm
  | succ n ih =>
    rw [Function.iterate_succ_apply, ih, String.append_assoc, bracketText, bracketText,
      List.replicate_succ, String.join_cons]

theorem iterate_suffixed (type : Option String) (n : Nat) :
    (fun t : Option String => some (t.getD "Object" ++ "[]"))^[n] type = suffixed type n := by
  induction n with
  | zero => rfl
  | succ n ih => rw [Function.iterate_succ_apply', ih, suffixed_succ]

/-! ### Types -/

def BehindType (more : List Token) : Prop :=
  firstKind more ∉ [TokenKind.symbol .dot, .symbol .less, .symbol .lbracket]

theorem firstKind_pairTokens {pairs : List (Token × Token)} (hpairs : ∀ p ∈ pairs, IsBrackets p) :
    firstKind (pairTokens pairs ++ more) = .symbol .lbracket ∨
      firstKind (pairTokens pairs ++ more) = firstKind more := by
  cases pairs with
  | nil => exact .inr rfl
  | cons p pairs => exact .inl (hpairs p List.mem_cons_self).1

theorem reads_typeName (t : TypeTokens) (hmore : BehindType more) :
    Reads room hashComments text typeName t.tokens more t.text [] := by
  obtain ⟨first, parts, arguments, pairs, hfirst, hparts, harguments, hpairs⟩ := t
  simp only [BehindType, List.mem_cons, List.not_mem_nil, or_false, not_or] at hmore
  obtain ⟨hdot, hless, hbracket⟩ := hmore
  have hsuffixes :
      ∀ written : String, Reads room hashComments text (arraySuffixes written (· ++ "[]"))
      (pairTokens pairs) more (written ++ bracketText pairs.length) [] := fun written => by
    rw [← iterate_brackets]
    exact reads_arraySuffixes _ hpairs hbracket written
  have hnext : ∀ k, k ≠ TokenKind.symbol .lbracket → firstKind more ≠ k →
      firstKind (pairTokens pairs ++ more) ≠ k := fun k hk hne => by
    rcases @firstKind_pairTokens more _ hpairs with h | h
    · exact fun heq => hk (heq.symm.trans h)
    · exact fun heq => hne (h.symm.trans heq)
  cases harguments with
  | none =>
    refine (reads_dottedName hfirst hparts ?_).andThen (reads_nextIsSymbol ?_)
    · exact undotted_of_firstKind (hnext _ (by simp) hdot)
    · rw [List.nil_append, if_neg (by simpa using hnext _ (by simp) hless), pure_bind]
      have h := hsuffixes (dottedText first parts)
      rwa [TypeTokens.text, spell_nil, String.append_empty]
  | @angled opening closing ts hopening hts hclosing =>
    refine (reads_dottedName hfirst hparts ?_).andThen (reads_nextIsSymbol ?_)
    · exact undotted_of_firstKind (by simp [hopening])
    · rw [if_pos (by simp [hopening])]
      exact ((reads_genericArguments hopening hts hclosing).map.bind (hsuffixes _))

/-! ### Which parameters have a type -/

theorem afterBrackets_of_ahead (hs : s.cursor.triviaVisible = false) {pairs : List (Token × Token)}
    {fuel n : Nat} (hpairs : ∀ p ∈ pairs, IsBrackets p) (hfuel : pairs.length < fuel)
    (hahead : s.cursor.ahead.drop n = pairTokens pairs ++ more)
    (hmore : firstKind more ≠ .symbol .lbracket) :
    afterBrackets fuel n s = .ok (n + 2 * pairs.length) s := by
  induction pairs generalizing fuel n with
  | nil =>
    obtain ⟨fuel, rfl⟩ : ∃ m, fuel = m + 1 := ⟨fuel - 1, by simp at hfuel; omega⟩
    have hkind : (s.cursor.lookahead (n + 1)).kind = firstKind more := by
      rw [kind_lookahead hs, hahead]
      rfl
    rw [afterBrackets, bind_of_ok (peek_eq n s), if_neg (hkind ▸ hmore)]
    rfl
  | cons p pairs ih =>
    obtain ⟨fuel, rfl⟩ : ∃ m, fuel = m + 1 := ⟨fuel - 1, by omega⟩
    obtain ⟨hopening, hclosing⟩ := hpairs p List.mem_cons_self
    have hbehind : s.cursor.ahead.drop (n + 1) = p.2 :: (pairTokens pairs ++ more) := by
      rw [← List.drop_drop, hahead]
      rfl
    have hrest : s.cursor.ahead.drop (n + 2) = pairTokens pairs ++ more := by
      rw [← List.drop_drop, hahead]
      rfl
    have hfirst : (s.cursor.lookahead (n + 1)).kind = .symbol .lbracket := by
      rw [kind_lookahead hs, hahead]
      exact hopening
    have hsecond : (s.cursor.lookahead (n + 1 + 1)).kind = .symbol .rbracket := by
      rw [kind_lookahead hs, hbehind]
      exact hclosing
    rw [afterBrackets, bind_of_ok (peek_eq n s), if_pos hfirst, bind_of_ok (peek_eq (n + 1) s),
      if_pos hsecond, ih (fun q hq => hpairs q (List.mem_cons_of_mem _ hq))
        (by rw [List.length_cons] at hfuel; omega) hrest]
    rw [List.length_cons, show n + 2 + 2 * pairs.length = n + 2 * (pairs.length + 1) by omega]

theorem length_pairTokens (pairs : List (Token × Token)) :
    (pairTokens pairs).length = 2 * pairs.length := by
  induction pairs with
  | nil => rfl
  | cons p pairs ih =>
    show (pairTokens pairs).length + 2 = _
    rw [ih, List.length_cons]
    omega

theorem reads_isUntyped {first : Token} {pairs : List (Token × Token)}
    (hfirst : first.isName = true) (hpairs : ∀ p ∈ pairs, IsBrackets p)
    (hmore : firstKind more ≠ .symbol .lbracket) :
    Reads room hashComments text isUntyped [] (first :: (pairTokens pairs ++ more))
      (decide (firstKind more ∈ [TokenKind.symbol .comma, .symbol .rparen])) [] := by
  intro s hs _ hahead
  rw [List.nil_append] at hahead
  have hbrackets : afterBrackets (s.cursor.remaining + 1) 1 s = .ok (1 + 2 * pairs.length) s := by
    refine afterBrackets_of_ahead hs.hidden hpairs ?_ (by rw [hahead]; rfl) hmore
    have hlength := s.cursor.length_ahead_le_remaining
    rw [hahead, List.length_cons, List.length_append, length_pairTokens] at hlength
    omega
  have hbehind : (s.cursor.lookahead (1 + 2 * pairs.length + 1)).kind = firstKind more := by
    rw [kind_lookahead hs.hidden, hahead, Nat.add_comm, List.drop_succ_cons, ← length_pairTokens,
      List.drop_left]
  refine ⟨s, ?_, .refl s⟩
  have hname : s.cursor.current.isName = true := current_of_ahead hs.hidden hahead ▸ hfirst
  rw [isUntyped, bind_of_ok (current_eq s), if_pos hname]
  show (afterBrackets (s.cursor.remaining + 1) 1 >>= _) s = _
  rw [bind_of_ok hbrackets, bind_of_ok (peek_eq _ s), hbehind]
  rfl

/-! ### Parameters -/

def BehindParameter (more : List Token) : Prop :=
  firstKind more ∈ [TokenKind.symbol .comma, .symbol .rparen]

theorem BehindParameter.ne_lbracket (h : BehindParameter more) :
    firstKind more ≠ .symbol .lbracket := by
  intro heq
  rw [BehindParameter, heq] at h
  simp at h

theorem reads_isUntyped_parameter (p : ParameterTokens) (hmore : BehindParameter more) :
    Reads room hashComments text isUntyped [] (p.tokens ++ more) p.type.isNone [] := by
  obtain ⟨type, name, pairs, hname, hpairs⟩ := p
  cases type with
  | none =>
    have h : Reads room hashComments text isUntyped [] _ _ [] :=
      reads_isUntyped hname hpairs hmore.ne_lbracket
    rwa [decide_eq_true (show firstKind more ∈ _ from hmore)] at h
  | some t =>
    obtain ⟨first, brackets, us, hfirst, hbrackets, heq, hus⟩ :=
      t.exists_brackets hname (pairTokens pairs ++ more)
    have h : Reads room hashComments text isUntyped [] _ _ [] :=
      reads_isUntyped hfirst hbrackets (hus .lbracket (by simp))
    rw [decide_eq_false (by simp [hus]), ← heq] at h
    simpa [ParameterTokens.tokens] using h

theorem reads_parameter (p : ParameterTokens) (hmore : BehindParameter more) :
    Reads room hashComments text parameter p.tokens more p.meaning [] := by
  have huntyped : Reads room hashComments text isUntyped [] (p.tokens ++ more) p.type.isNone [] :=
    reads_isUntyped_parameter p hmore
  obtain ⟨type, name, pairs, hname, hpairs⟩ := p
  have hnamed : Reads room hashComments text (do
      let name ← Parser.name
      let type ← arraySuffixes (type.map (·.text)) fun t => some (t.getD "Object" ++ "[]")
      return (⟨type, name.text⟩ : Parameter)) (name :: pairTokens pairs) more
      (ParameterTokens.mk type name pairs hname hpairs).meaning [] := by
    have hsuffixes : Reads room hashComments text _ (pairTokens pairs) more _ [] :=
      reads_arraySuffixes (fun t : Option String => some (t.getD "Object" ++ "[]")) hpairs
        hmore.ne_lbracket (type.map (·.text))
    rw [iterate_suffixed] at hsuffixes
    exact .step (.name hname) hsuffixes.andPure
  refine Reads.look huntyped ?_
  cases type with
  | none =>
    rw [Option.isNone_none, if_pos rfl, pure_bind]
    exact hnamed
  | some t =>
    have hbehind : BehindType (name :: pairTokens pairs ++ more) := by
      intro hmem
      rw [List.cons_append, firstKind_cons] at hmem
      simp only [List.mem_cons, List.not_mem_nil, or_false] at hmem
      rcases hmem with h | h | h <;> rw [Token.isName, h] at hname <;> cases hname
    rw [Option.isNone_some, if_neg (by simp)]
    exact (reads_typeName t hbehind).map.bind hnamed

theorem behindParameter_further {more : List (Token × ParameterTokens)} {closing : Token}
    (hcommas : ∀ x ∈ more, x.1.kind = .symbol .comma) (hclosing : closing.kind = .symbol .rparen)
    (us : List Token) : BehindParameter (furtherTokens more ++ closing :: us) := by
  cases more with
  | nil => simp [BehindParameter, furtherTokens, hclosing]
  | cons x more =>
    have hcomma := hcommas x List.mem_cons_self
    simp [BehindParameter, furtherTokens, hcomma]

theorem reads_furtherParameters {others : List (Token × ParameterTokens)} {closing : Token}
    (hcommas : ∀ x ∈ others, x.1.kind = .symbol .comma) (hclosing : closing.kind = .symbol .rparen)
    (found : List Parameter) :
    Reads room hashComments text (repeatWhile found (fun _ => nextIsSymbol .comma) fun ps => do
        let _ ← advance
        return ps ++ [← parameter]) (furtherTokens others) (closing :: more)
      (found ++ others.map (·.2.meaning)) [] := by
  have hrolls := Repetition.parameterList.rolls
  induction others generalizing found with
  | nil =>
    rw [List.map_nil, List.append_nil]
    refine .done hrolls fun s hs hahead => ?_
    rw [nextIsSymbol_of_ahead hs hahead, firstKind_cons, hclosing]
    rfl
  | cons x others ih =>
    have hcomma := hcommas x List.mem_cons_self
    have hothers : ∀ y ∈ others, y.1.kind = .symbol .comma := fun y hy =>
      hcommas y (List.mem_cons_of_mem _ hy)
    have hround : Reads room hashComments text (do
        let _ ← advance
        return found ++ [← parameter]) (x.1 :: x.2.tokens) (furtherTokens others ++ closing :: more)
        (found ++ [x.2.meaning]) [] :=
      .step (.advance (by rw [hcomma]; simp))
        (reads_parameter x.2 (behindParameter_further hothers hclosing more)).andPure
    have hall := Reads.round hrolls (fun s hs hahead => ?_) hround (ih hothers _)
    · rwa [List.append_assoc] at hall
    · rw [nextIsSymbol_of_ahead hs hahead, decide_eq_true (by exact hcomma)]

/-- Wherever parameters in parentheses are ahead, they are read as they were written, and nothing
else is taken. -/
theorem parameters_read_back {ps : List ParameterTokens} {ts more : List Token} {s : State}
    (h : ParameterListTokens ps ts) (hs : s.Reading hashComments text)
    (hahead : s.cursor.ahead = ts ++ more) :
    ∃ t, parameters s = .ok (ps.map (·.meaning)) t ∧ s.Takes t ts [] := by
  suffices hreads : ∀ room, Reads room hashComments text parameters ts more (ps.map (·.meaning))
    [] from hreads _ hs rfl hahead
  intro room
  cases h with
  | @none opening closing hopening hclosing =>
    refine .step (.expect hopening (by simp)) (reads_nextIsSymbol ?_)
    rw [if_pos (by simp [hclosing]), pure_bind]
    exact (Reads.expect hclosing (by simp)).andPure
  | @some opening closing p others hopening hcommas hclosing =>
    obtain ⟨first, us, hfirst, htokens⟩ := p.exists_first
    have hlist : Reads room hashComments text parameterList (p.tokens ++ furtherTokens others)
        ([closing] ++ more) ((p :: others.map Prod.snd).map (·.meaning)) [] := by
      have hfurther :
          Reads room hashComments text _ (furtherTokens others) (closing :: more) _ [] :=
        reads_furtherParameters hcommas hclosing [p.meaning]
      rw [List.map_cons, List.map_map]
      exact (reads_parameter p (behindParameter_further hcommas hclosing more)).bind hfurther
    refine .step (.expect hopening (by simp)) (reads_nextIsSymbol ?_)
    have hkind : firstKind (p.tokens ++ (furtherTokens others ++ [closing]) ++ more) ≠
        .symbol .rparen := by
      rw [htokens]
      intro heq
      rw [Token.isName, show first.kind = .symbol .rparen from heq] at hfirst
      cases hfirst
    rw [decide_eq_false hkind, if_neg (by simp), ← List.append_assoc]
    exact hlist.bind (Reads.expect hclosing (by simp)).andPure

end Parser

def Token.onLine (kind : TokenKind) (text : String) (column : Nat) : Token :=
  ⟨kind, text, 1, column, column, column + text.length⟩

/-- A parameter without a type, and one with a type and a keyword for its name. -/
def listing : String := "(a[], Map<String, List<Integer>>[] then)"

def listedType : TypeTokens where
  first := .onLine .identifier "Map" 6
  parts := []
  arguments := .onLine (.symbol .less) "<" 9 ::
    ([.onLine .identifier "String" 10, .onLine (.symbol .comma) "," 16,
      .onLine .identifier "List" 18,
      .onLine (.symbol .less) "<" 22, .onLine .identifier "Integer" 23,
      .onLine (.symbol .greater) ">" 30] ++ [.onLine (.symbol .greater) ">" 31])
  pairs := [(.onLine (.symbol .lbracket) "[" 32, .onLine (.symbol .rbracket) "]" 33)]
  named := rfl
  dotted := by simp
  balanced := by
    have hinner : Angled [.onLine .identifier "Integer" 23] := .other (by decide) .nil
    exact .angled rfl (.other (by decide) (.other (by decide) (.other (by decide)
      (.pair rfl hinner rfl .nil)))) rfl
  bracketed := by simp [IsBrackets, Token.onLine]

def listedFirst : ParameterTokens where
  type := none
  name := .onLine .identifier "a" 1
  pairs := [(.onLine (.symbol .lbracket) "[" 2, .onLine (.symbol .rbracket) "]" 3)]
  named := rfl
  bracketed := by simp [IsBrackets, Token.onLine]

def listedSecond : ParameterTokens where
  type := some listedType
  name := .onLine (.keyword .then_) "then" 35
  pairs := []
  named := rfl
  bracketed := by simp

theorem Parser.parameters_read_back_listing : ∃ t,
    parameters (State.ofText 900 {} "" listing) =
      .ok [⟨some "Object[]", "a"⟩, ⟨some "Map<String,List<Integer>>[]", "then"⟩] t ∧
      t.cursor.ahead = [] := by
  have hlist := @ParameterListTokens.some (.onLine (.symbol .lparen) "(" 0)
    (.onLine (.symbol .rparen) ")" 39) listedFirst [(.onLine (.symbol .comma) "," 4, listedSecond)]
    rfl (by simp [Token.onLine]) rfl
  have hahead : (State.ofText 900 {} "" listing).cursor.ahead =
      (.onLine (.symbol .lparen) "(" 0 :: (listedFirst.tokens ++
        (furtherTokens [(.onLine (.symbol .comma) "," 4, listedSecond)] ++
          [.onLine (.symbol .rparen) ")" 39]))) ++ [] := by
    decide +kernel
  have hmeaning : [listedFirst, listedSecond].map (·.meaning) =
      [⟨some "Object[]", "a"⟩, ⟨some "Map<String,List<Integer>>[]", "then"⟩] := by
    decide +kernel
  obtain ⟨t, ht, htakes⟩ := parameters_read_back hlist (reading_ofText 900 {} "" listing) hahead
  exact ⟨t, hmeaning ▸ ht, htakes.ahead_eq hahead⟩

end Rulebook
