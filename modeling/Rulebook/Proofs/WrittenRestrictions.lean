import Rulebook.Proofs.Foresight
import Rulebook.Proofs.Repetitions
import Rulebook.Proofs.Taking

/-!
# Written restrictions

A list of restrictions as it is written: operators with their values, value lists, and connectives
between them. It is read from its first token to its last one, whatever the values are, and a
connective behind it that no restriction follows is left where it is.
-/

namespace Rulebook

open Rulebook.Parser

/-! ### What is written -/

def dottedTokens (first : Token) (parts : List (Token × Token)) : List Token :=
  first :: parts.flatMap fun p => [p.1, p.2]

def dottedText (first : Token) (parts : List (Token × Token)) : String :=
  parts.foldl (fun text p => text ++ "." ++ p.2.text) first.text

def Location.reaching (token : Token) (ts : List Token) : Location :=
  (Location.ofToken token).closeAt (ts.getLast?.map (·.stop))

section Written

variable (room : Nat) (text operator : String) (token : Token)

/-- The tokens of a value, the restriction that `operator` before it gives, which is located at
`token`, and what is remarked on. Code nests no deeper than there is room for. -/
inductive WrittenValue : List Token → Restriction → List Token → Prop where
  | literal {value : Token} {l : Literal} (h : value.kind = .literal l) :
      WrittenValue [value] (.literal (.reaching token [value]) operator
        (if l = .string then value.stringValue else value.text) (literalType l)) []
  | code {opening closing : Token} {inner : List Token} {code : String}
      (hopening : opening.kind = .symbol .lparen)
      (henclosed : enclosed .lparen .rparen [] room 1 (inner ++ [closing]) =
        ⟨inner, .closed, [closing]⟩)
      (hcode : code = withoutDelimiters (Text.slice text opening.start closing.stop)) :
      WrittenValue (opening :: (inner ++ [closing]))
        (.returnValue (.reaching token (opening :: (inner ++ [closing]))) operator code)
        (if endsInSemicolon code then [opening] else [])
  | constant {first : Token} {parts : List (Token × Token)} (hfirst : first.isName = true)
      (hne : parts ≠ []) (hparts : ∀ p ∈ parts, p.1.kind = .symbol .dot ∧ p.2.isName = true) :
      WrittenValue (dottedTokens first parts)
        (.literal (.reaching token (dottedTokens first parts)) operator (dottedText first parts)
          .enum) []
  | reference {value : Token} (h : value.isName = true) :
      WrittenValue [value] (.reference (.reaching token [value]) operator value.text) []

inductive WrittenValues : List (Token × Restriction) → List Token → List Token → Prop where
  | nil : WrittenValues [] [] []
  | cons {comma first : Token} {ts us notes notes' : List Token} {r : Restriction}
      {others : List (Token × Restriction)} (hcomma : comma.kind = .symbol .comma)
      (hfirst : ts.head? = some first) (hvalue : WrittenValue room text operator first ts r notes)
      (hothers : WrittenValues others us notes') :
      WrittenValues ((comma, r) :: others) (comma :: (ts ++ us)) (notes ++ notes')

end Written

/-- What one written restriction stands for: a comparison, or as many as a list has values, which
are joined by one connective. -/
inductive Operand where
  | single (r : Restriction)
  | list (c : Connective) (first : Restriction) (others : List (Token × Restriction))

/-- The restrictions that stand for it; the connectives between them are located at the commas. -/
def Operand.flat : Operand → List Restriction
  | single r => [r]
  | list c first others => first :: others.flatMap fun p => [connectiveAt c p.1, p.2]

/-- The tokens of values in parentheses. -/
inductive WrittenList (room : Nat) (text operator : String) (c : Connective) :
    Operand → List Token → List Token → Prop where
  | mk {opening token closing : Token} {ts us notes notes' : List Token} {first : Restriction}
      {others : List (Token × Restriction)} (hopening : opening.kind = .symbol .lparen)
      (htoken : ts.head? = some token)
      (hfirst : WrittenValue room text operator token ts first notes)
      (hothers : WrittenValues room text operator others us notes')
      (hclosing : closing.kind = .symbol .rparen) :
      WrittenList room text operator c (.list c first others) (opening :: (ts ++ (us ++ [closing])))
        (notes ++ notes')

inductive Operand.Written (room : Nat) (text : String) : Operand → List Token → List Token →
    Prop where
  | compared {operator : Token} {ts notes : List Token} {r : Restriction}
      (hoperator : operator.kind ∈ comparisonKinds ++ negatableKinds)
      (h : WrittenValue room text operator.text operator ts r notes) :
      Written room text (.single r) (operator :: ts) notes
  | negated {word operator : Token} {ts notes : List Token} {r : Restriction}
      (hword : word.kind = .keyword .not) (hoperator : operator.kind ∈ negatableKinds)
      (h : WrittenValue room text ("not " ++ operator.text) word ts r notes) :
      Written room text (.single r) (word :: operator :: ts) notes
  | oneOf {word : Token} {ts notes : List Token} {o : Operand} (hword : word.kind = .keyword .in_)
      (h : WrittenList room text "==" .or o ts notes) : Written room text o (word :: ts) notes
  | noneOf {word in_ : Token} {ts notes : List Token} {o : Operand}
    (hword : word.kind = .keyword .not)
      (hin : in_.kind = .keyword .in_) (h : WrittenList room text "!=" .and o ts notes) :
      Written room text o (word :: in_ :: ts) notes

def Connective.spellings : Connective → List TokenKind
  | and => [.symbol .amper, .symbol .doubleAmper, .keyword .and]
  | or => [.symbol .pipe, .symbol .doublePipe, .keyword .or]

/-- Restrictions joined by connectives, each of which is a token. -/
structure Chain where
  first : Operand
  others : List (Connective × Token × Operand)

def flatLinks (others : List (Connective × Token × Operand)) : List Restriction :=
  others.flatMap fun (c, token, o) => connectiveAt c token :: o.flat

/-- The restrictions and the connectives in the order in which they are written. -/
def Chain.flat (c : Chain) : List Restriction := c.first.flat ++ flatLinks c.others

inductive WrittenLinks (room : Nat) (text : String) :
    List (Connective × Token × Operand) → List Token → List Token → Prop where
  | nil : WrittenLinks room text [] [] []
  | cons {c : Connective} {token : Token} {o : Operand}
    {others : List (Connective × Token × Operand)}
      {ts us notes notes' : List Token} (htoken : token.kind ∈ c.spellings)
      (ho : o.Written room text ts notes) (hothers : WrittenLinks room text others us notes') :
      WrittenLinks room text ((c, token, o) :: others) (token :: (ts ++ us)) (notes ++ notes')

/-- The tokens of restrictions joined by connectives. -/
inductive Chain.Written (room : Nat) (text : String) : Chain → List Token → List Token → Prop where
  | mk {first : Operand} {others : List (Connective × Token × Operand)}
    {ts us notes notes' : List Token}
      (hfirst : first.Written room text ts notes)
      (hothers : WrittenLinks room text others us notes') :
      Written room text ⟨first, others⟩ (ts ++ us) (notes ++ notes')

/-! ### Reading it -/

namespace Parser

variable {hashComments : Bool} {room : Nat} {text operator : String} {token x : Token}
  {ts us more notes : List Token} {r : Restriction} {o : Operand} {s t : State}

/-- No dot is next. -/
def Undotted (more : List Token) : Prop := ∀ x ∈ more.head?, x.kind ≠ .symbol .dot

theorem undotted_cons (hx : x.kind ≠ .symbol .dot) (more : List Token) : Undotted (x :: more) :=
  fun _ hy => by cases hy; exact hx

theorem reads_dottedName {first : Token} {parts : List (Token × Token)}
    (hfirst : first.isName = true)
    (hparts : ∀ p ∈ parts, p.1.kind = .symbol .dot ∧ p.2.isName = true) (hmore : Undotted more) :
    Reads room hashComments text dottedName (dottedTokens first parts) more (dottedText first parts)
      [] := by
  have hrolls := Repetition.dottedName.rolls
  have hloop :
      ∀ name : String, Reads room hashComments text (repeatWhile name (fun _ => nextIsSymbol .dot)
      fun text => do
        let _ ← advance
        let part ← Parser.name
        return text ++ "." ++ part.text) (parts.flatMap fun p => [p.1, p.2]) more
      (parts.foldl (fun text p => text ++ "." ++ p.2.text) name) [] := by
    induction parts with
    | nil =>
      refine fun name => .done hrolls fun s hs hahead => ?_
      have hkind : s.cursor.current.kind ≠ .symbol .dot := by
        rw [Cursor.current_of_hidden hs.hidden, hahead]
        cases more with
        | nil => simp [Cursor.kind_last]
        | cons x more => exact hmore x rfl
      exact congrArg (EStateM.Result.ok · s) (decide_eq_false hkind)
    | cons p parts ih =>
      obtain ⟨hdot, hname⟩ := hparts p List.mem_cons_self
      have hrest := ih fun p hp => hparts p (List.mem_cons_of_mem _ hp)
      intro name
      have hround : Reads room hashComments text (do
          let _ ← advance
          let part ← Parser.name
          return name ++ "." ++ part.text) [p.1, p.2] ((parts.flatMap fun p => [p.1, p.2]) ++ more)
          (name ++ "." ++ p.2.text) [] :=
        .step (.advance (by rw [hdot]; simp)) (.step (.name hname) (.pure _))
      have hmore : ∀ s : State, s.Reading hashComments text →
          s.cursor.ahead = [p.1, p.2] ++ ((parts.flatMap fun p => [p.1, p.2]) ++ more) →
          nextIsSymbol .dot s = .ok true s := fun s hs hahead =>
        congrArg (EStateM.Result.ok · s) (decide_eq_true (current_of_ahead hs.hidden hahead ▸ hdot))
      exact Reads.round hrolls hmore hround (hrest _)
  exact .step (.name hfirst) (hloop first.text)

theorem reads_named {α : Type} {value : Token} {p : Literal → Parser α} {q q' : Parser α} {a : α}
    (hvalue : value.isName = true) (h : Reads room hashComments text q' ts more a notes) :
    Reads room hashComments text (match value.kind with
      | .literal l => p l
      | .symbol .lparen => q
      | _ => if value.isName then q' else fail (.noViableAlternative "restriction value" value))
        ts more a
      notes := by
  rw [if_pos hvalue]
  split
  · next l hkind =>
    rw [Token.isName, hkind] at hvalue
    cases hvalue
  · next hkind =>
    rw [Token.isName, hkind] at hvalue
    cases hvalue
  · exact h

theorem reads_restrictionValue (h : WrittenValue room text operator token ts r notes)
    (hmore : Undotted more) :
    Reads room hashComments text (restrictionValue operator token) ts more r notes := by
  unfold restrictionValue
  cases h with
  | @literal value l h =>
    refine .current rfl ?_
    rw [h]
    exact .close (f := fun _ location => Restriction.literal location operator
      (if l = .string then value.stringValue else value.text) (literalType l))
      (.advance (by rw [h]; simp)) (by simp) _
  | @code opening closing inner code hopening henclosed hcode =>
    refine .current rfl ?_
    rw [hopening]
    have hcheck : Reads room hashComments text (checkSemicolon code opening) [] more ()
        (if endsInSemicolon code then [opening] else []) := by
      unfold checkSemicolon
      split
      · exact .remark opening
      · exact .pure ()
    have hcode : Reads room hashComments text parenCode (opening :: (inner ++ [closing])) more
        code [] :=
      fun s hs hroom hahead => by
        rw [hcode]
        exact takes_code hs hopening (hroom ▸ henclosed) (by simpa using hahead)
    have hcodes := hcode.before (f := fun code => do
      checkSemicolon code opening
      return code) (hcheck.before (.pure code))
    have hclosed :=
      hcodes.close (f := fun code location => Restriction.returnValue location operator code)
      (List.cons_ne_nil _ _) (.ofToken token)
    simp only [bind_assoc, pure_bind, List.nil_append, List.append_nil] at hclosed
    exact hclosed
  | @constant first parts hfirst hne hparts =>
    refine .current (x := first) rfl ?_
    have hname : Reads room hashComments text dottedName (dottedTokens first parts) more
        (dottedText first parts) [] := reads_dottedName hfirst hparts hmore
    have hclosed :=
      hname.close (f := fun name location => Restriction.literal location operator name .enum)
      (List.cons_ne_nil _ _) (.ofToken token)
    obtain ⟨p, parts, rfl⟩ := List.exists_cons_of_ne_nil hne
    have hdot := (hparts p List.mem_cons_self).1
    refine reads_named hfirst (.peek fun y hy => ?_)
    rw [if_pos (hy.trans hdot)]
    exact hclosed
  | @reference value h =>
    refine .current rfl (reads_named h (.peek fun y hy => ?_))
    have hundotted : y.kind ≠ .symbol .dot := by
      rw [hy]
      cases more with
      | nil => simp
      | cons x more => exact hmore x rfl
    rw [if_neg hundotted]
    exact .close (f := fun _ location => Restriction.reference location operator value.text)
      (.advance (Eager.ne_endOfInput_of_isName h)) (by simp) _

theorem undotted_further {others : List (Token × Restriction)} {closing : Token}
    (h : WrittenValues room text operator others us notes)
    (hclosing : closing.kind = .symbol .rparen) : Undotted (us ++ closing :: more) := by
  cases h with
  | nil => exact undotted_cons (by rw [hclosing]; simp) _
  | cons hcomma => exact undotted_cons (by rw [hcomma]; simp) _

theorem reads_furtherValues {c : Connective} {others : List (Token × Restriction)} {closing : Token}
    (h : WrittenValues room text operator others us notes)
    (hclosing : closing.kind = .symbol .rparen) (found : List Restriction) :
    Reads room hashComments text (repeatWhile found (fun _ => nextIsSymbol .comma) fun found => do
        let comma ← advance
        let next ← restrictionValue operator (← current)
        return found ++ [connectiveAt c comma, next]) us (closing :: more)
      (found ++ others.flatMap fun p => [connectiveAt c p.1, p.2]) notes := by
  have hrolls := (Repetition.valueList operator c).rolls
  induction h generalizing found with
  | nil =>
    rw [List.flatMap_nil, List.append_nil]
    refine .done hrolls fun s hs hahead => congrArg (EStateM.Result.ok · s) (decide_eq_false ?_)
    rw [current_of_ahead hs.hidden hahead, hclosing]
    simp
  | @cons comma first ts us notes notes' r others hcomma hfirst hvalue hothers ih =>
    obtain ⟨ts, rfl⟩ := List.head?_eq_some_iff.1 hfirst
    have hgo : ∀ s : State, s.Reading hashComments text →
        s.cursor.ahead = (comma :: first :: ts) ++ (us ++ closing :: more) →
        nextIsSymbol .comma s = .ok true s := fun s hs hahead =>
      congrArg (EStateM.Result.ok · s) (decide_eq_true (current_of_ahead hs.hidden hahead ▸ hcomma))
    have hround : Reads room hashComments text (do
        let comma ← advance
        let next ← restrictionValue operator (← current)
        return found ++ [connectiveAt c comma, next]) (comma :: first :: ts) (us ++ closing :: more)
        (found ++ [connectiveAt c comma, r]) notes :=
      .step (.advance (by rw [hcomma]; simp))
        (.current rfl (reads_restrictionValue hvalue (undotted_further hothers hclosing)).andPure)
    have hall := Reads.round hrolls hgo hround (ih _)
    rw [List.append_assoc] at hall
    exact hall

theorem reads_valueList {c : Connective} (h : WrittenList room text operator c o ts notes) :
    Reads room hashComments text (valueList operator c) ts more o.flat notes := by
  obtain @⟨opening, token, closing, ts, us, notes, notes', first, others, hopening, htoken,
    hfirst, hothers, hclosing⟩ := h
  obtain ⟨ts, rfl⟩ := List.head?_eq_some_iff.1 htoken
  have hlast : Reads room hashComments text (do
      let _ ← symbol .rparen
      return (Operand.list c first others).flat) [closing] more (Operand.list c first others).flat
      [] :=
    (Reads.expect hclosing (by simp)).andPure
  have hfurther := (reads_furtherValues (c := c) hothers hclosing [first]).bind
    (f := fun found => do
      let _ ← symbol .rparen
      return found) hlast
  rw [List.append_nil] at hfurther
  have hundotted : Undotted ((us ++ [closing]) ++ more) := by
    rw [List.append_assoc]
    exact undotted_further hothers hclosing
  exact .step (.expect hopening (by simp))
    (.current rfl (.bind (reads_restrictionValue hfirst hundotted) hfurther))

theorem reads_restriction (h : o.Written room text ts notes) (hmore : Undotted more) :
    Reads room hashComments text restriction ts more o.flat notes := by
  have hend : TokenKind.endOfInput ∉ comparisonKinds ++ negatableKinds := by decide
  unfold restriction
  cases h with
  | @compared operator ts notes r hoperator h =>
    refine .current rfl ?_
    rw [if_pos hoperator]
    exact .step (.advance fun hno => hend (hno ▸ hoperator))
      (reads_restrictionValue h hmore).andPure
  | @negated word operator ts notes r hword hoperator h =>
    refine .current rfl ?_
    rw [if_neg (by rw [hword]; decide), if_neg (by rw [hword]; decide), if_pos hword]
    refine .step (.advance (by rw [hword]; simp)) (.current rfl ?_)
    rw [if_neg fun hno => by rw [hno] at hoperator; revert hoperator; decide, if_pos hoperator]
    exact .step (.advance fun hno => hend (hno ▸ List.mem_append_right _ hoperator))
      (reads_restrictionValue h hmore).andPure
  | @oneOf word ts notes o hword h =>
    refine .current rfl ?_
    rw [if_neg (by rw [hword]; decide), if_pos hword]
    exact .step (.advance (by rw [hword]; simp)) (reads_valueList h)
  | @noneOf word in_ ts notes o hword hin h =>
    refine .current rfl ?_
    rw [if_neg (by rw [hword]; decide), if_neg (by rw [hword]; decide), if_pos hword]
    refine .step (.advance (by rw [hword]; simp)) (.current rfl ?_)
    rw [if_pos hin]
    exact .step (.advance (by rw [hin]; simp)) (reads_valueList h)

end Parser

end Rulebook
