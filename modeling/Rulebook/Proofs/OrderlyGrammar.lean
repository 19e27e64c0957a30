import Rulebook.Proofs.Orderly

/-!
# The grammar is orderly

Every production below the level of a whole file is orderly: what it builds, and at which token it
stops, does not matter for that.
-/

namespace Rulebook.Parser

inductive ValueRead (token : Token) (s t : State) : AttributeValue → Prop where
  | number {digits : Token} {n : Int}
      (hk : token.kind ∈ [.keyword .salience, .keyword .duration])
      (hdigits : expect (.literal .int) s = .ok digits t) (hn : integer digits.text t = .ok n t) :
      ValueRead token s t (.number n)
  | flag {found : Option Token} (hnumber : token.kind ∉ [.keyword .salience, .keyword .duration])
      (hk : token.kind ∈
        [.keyword .noLoop, .keyword .autoFocus, .keyword .lockOnActive, .keyword .enabled])
      (hfound : accept (.literal .bool) s = .ok found t) :
      ValueRead token s t (.flag (found.elim true fun given => given.text = "true"))
  | text {given : Token} (hnumber : token.kind ∉ [.keyword .salience, .keyword .duration])
      (hflag : token.kind ∉
        [.keyword .noLoop, .keyword .autoFocus, .keyword .lockOnActive, .keyword .enabled])
      (hk : token.kind ∈ attributeKinds) (hgiven : expect (.literal .string) s = .ok given t) :
      ValueRead token s t (.text given.stringValue)

theorem state_of_integer {text : String} {n : Int} {s t : State} (h : integer text s = .ok n t) :
    t = s := by
  unfold integer at h
  dsimp only at h
  split at h
  · cases h
  · cases h
    rfl

theorem valueRead_of_attributeValue {token : Token} {value : AttributeValue} {s t : State}
    (h : attributeValue token s = .ok value t) : ValueRead token s t value := by
  unfold attributeValue at h
  split at h
  · next hk =>
    obtain ⟨digits, u, hdigits, hrest⟩ := bind_eq_ok.1 h
    obtain ⟨n, v, hn, hvalue⟩ := bind_eq_ok.1 hrest
    obtain rfl := state_of_integer hn
    cases hvalue
    exact .number hk hdigits hn
  · next hnumber =>
    split at h
    · next hk =>
      obtain ⟨found, u, hfound, h⟩ := bind_eq_ok.1 h
      cases found with
      | none => cases h; exact .flag hnumber hk hfound
      | some given => cases h; exact .flag hnumber hk hfound
    · next hflag =>
      split at h
      · next hk =>
        obtain ⟨given, u, hgiven, h⟩ := bind_eq_ok.1 h
        cases h
        exact .text hnumber hflag hk hgiven
      · cases h

namespace Orderly

set_option synthInstance.maxSize 100000

variable {α : Type}

/-! ### Names and types -/

instance : Orderly dottedName := by unfold dottedName; infer_instance

instance (x : String × Nat) : Orderly (genericRound x) := by unfold genericRound; infer_instance

instance : Orderly genericArguments := by unfold genericArguments; infer_instance

instance (first : α) (grow : α → α) : Orderly (arraySuffixes first grow) := by
  unfold arraySuffixes; infer_instance

instance : Orderly typeName := by unfold typeName; infer_instance

instance : Orderly title := by unfold title; infer_instance

instance (x : String × Bool) : Orderly (importPart x) := by unfold importPart; infer_instance

instance : Orderly importTarget := by unfold importTarget; infer_instance

instance afterBrackets (fuel n : Nat) : Orderly (afterBrackets fuel n) := by
  induction fuel generalizing n with
  | zero => unfold Parser.afterBrackets; infer_instance
  | succ fuel ih => unfold Parser.afterBrackets; infer_instance

instance : Orderly isUntyped := by unfold isUntyped; infer_instance

instance : Orderly parameter := by unfold parameter; infer_instance

instance : Orderly parameterList := by unfold parameterList; infer_instance

instance : Orderly parameters := by unfold parameters; infer_instance

/-! ### Embedded code -/

instance (opening closing : Symbol) (stops : List Symbol) (inner : Parser String) [Orderly inner]
    (x : String × Bool) : Orderly (chunkPart opening closing stops inner x) := by
  unfold Parser.chunkPart; infer_instance

instance chunkWithin (opening closing : Symbol) (stops : List Symbol) (levels : Nat) :
    Orderly (chunkWithin opening closing stops levels) := by
  induction levels with
  | zero => unfold Parser.chunkWithin; infer_instance
  | succ levels ih => unfold Parser.chunkWithin; infer_instance

instance (opening closing : Symbol) (stops : List Symbol) :
    Orderly (chunk opening closing stops) := by
  unfold chunk; infer_instance

instance : Orderly parenChunk := by unfold parenChunk; infer_instance

instance : Orderly curlyChunk := by unfold curlyChunk; infer_instance

instance : Orderly squareChunk := by unfold squareChunk; infer_instance

instance : Orderly parenCode := by unfold parenCode; infer_instance

instance (code : String) (token : Token) : Orderly (checkSemicolon code token) := by
  unfold checkSemicolon; infer_instance

/-! ### Restrictions -/

instance (operator : String) (token : Token) : Orderly (restrictionValue operator token) := by
  unfold restrictionValue
  refine @bind _ _ _ _ _ fun value => ?_
  dsimp only
  split <;> infer_instance

instance (operator : String) (c : Connective) : Orderly (valueList operator c) := by
  unfold valueList; infer_instance

instance : Orderly restriction := by unfold restriction; infer_instance

instance : Orderly connectedRestriction := by unfold connectedRestriction; infer_instance

instance (x : List Restriction × Bool) : Orderly (joinedRestriction x) := by
  unfold joinedRestriction
  refine @bind _ _ _ _ _ fun token => ?_
  split <;> infer_instance

instance : Orderly restrictions := by unfold restrictions; infer_instance

/-! ### Patterns -/

instance (token : Token) (field declaration : Option String) :
    Orderly (predicate token field declaration) := by
  unfold predicate; infer_instance

instance : Orderly bindingName := by unfold bindingName; infer_instance

instance (token fieldToken : Token) (field : String) (declaration : Option String) :
    Orderly (fieldConstraint token fieldToken field declaration) := by
  unfold fieldConstraint; infer_instance

instance : Orderly fieldHead := by unfold fieldHead; infer_instance

instance (token : Token) (field : String) (declaration : Option String) :
    Orderly (fieldBinding token field declaration) := by
  cases declaration <;> unfold fieldBinding <;> infer_instance

instance (found : List Constraint) (token : Token) : Orderly (boundField found token) := by
  unfold boundField
  refine @bind _ _ _ _ _ fun head => ?_
  cases head <;> infer_instance

instance (token : Token) : Orderly (evalPredicate token) := by
  unfold evalPredicate; infer_instance

instance (found : List Constraint) : Orderly (constraint found) := by
  unfold constraint; infer_instance

instance : Orderly constraints := by unfold constraints; infer_instance

instance (e : ParseError) : Orderly (recoverParen e) := by unfold recoverParen; infer_instance

instance (failure : Option ParseError) : Orderly (rightParen failure) := by
  unfold rightParen
  refine @bind _ _ _ _ _ fun closed => ?_
  cases closed <;> infer_instance

instance : Orderly factPattern := by unfold factPattern; infer_instance

/-! ### Sources -/

instance : Orderly arguments? := by unfold arguments?; infer_instance

instance (chain : List Access) (bracket : Token) : Orderly (indexAccess chain bracket) := by
  unfold indexAccess; infer_instance

instance (chain : List Access) : Orderly (memberAccess chain) := by
  unfold memberAccess; infer_instance

instance (chain : List Access) : Orderly (access chain) := by unfold access; infer_instance

instance : Orderly retrieval := by unfold retrieval; infer_instance

section Within

variable (pattern : Parser Pattern) [Orderly pattern]

instance (token : Token) : Orderly (accumulateBody pattern token) := by
  unfold accumulateBody; infer_instance

instance : Orderly (accumulate pattern) := by unfold accumulate; infer_instance

instance (token : Token) : Orderly (collectBody pattern token) := by
  unfold collectBody; infer_instance

instance : Orderly (collect pattern) := by unfold collect; infer_instance

instance : Orderly (fromSource pattern) := by unfold fromSource; infer_instance

end Within

instance patternWithin (levels : Nat) : Orderly (patternWithin levels) := by
  induction levels with
  | zero => unfold Parser.patternWithin; infer_instance
  | succ levels ih => unfold Parser.patternWithin; infer_instance

instance : Orderly sourcedPattern := by unfold sourcedPattern; infer_instance

/-! ### Conditions -/

instance (kind : Grouping) (connectives : List TokenKind) (operand : Parser Condition)
    [Orderly operand] : Orderly (infixGroup kind connectives operand) := by
  unfold infixGroup; infer_instance

section Single

variable (single : Parser Condition) [Orderly single]

instance : Orderly (disjunction single) := by unfold disjunction; infer_instance

instance : Orderly (prefixGroup single) := by
  unfold prefixGroup
  refine @bind _ _ _ _ _ fun connective => @bind _ _ _ _ _ fun operands => ?_
  cases operands <;> infer_instance

instance : Orderly (parenthesised single) := by unfold parenthesised; infer_instance

instance : Orderly (operand single) := by unfold operand; infer_instance

instance (k : Keyword) (kind : Grouping) : Orderly (unaryGroup k kind single) := by
  unfold unaryGroup; infer_instance

instance : Orderly evalCondition := by unfold evalCondition; infer_instance

instance : Orderly forallCondition := by unfold forallCondition; infer_instance

instance : Orderly (singleCondition single) := by unfold singleCondition; infer_instance

end Single

instance conditionWithin (levels : Nat) : Orderly (conditionWithin levels) := by
  induction levels with
  | zero => unfold Parser.conditionWithin; infer_instance
  | succ levels ih => unfold Parser.conditionWithin; infer_instance

instance : Orderly condition := by unfold condition; infer_instance

instance : Orderly conditions := by unfold conditions; infer_instance

instance (elements : List Condition) : Orderly (blockElement elements) := by
  unfold blockElement
  refine @bind _ _ _ _ _ fun r => ?_
  cases r <;> infer_instance

instance (anchor : Option Token) : Orderly (block anchor) := by unfold block; infer_instance

/-! ### Rules and queries -/

theorem integer_eq (t : Token) (s : State) :
    (Text.digitLimit < t.digits.length →
      integer t.text s = .error (.tooManyDigits t.digits.length) s) ∧
    (t.digits.length ≤ Text.digitLimit → ∃ n, integer t.text s = .ok n s) := by
  unfold integer Token.digits
  dsimp only
  refine ⟨fun hlt => ?_, fun hle => ?_⟩
  · simp only [if_pos hlt]; rfl
  · simp only [if_neg (Nat.not_lt.2 hle)]; exact ⟨_, rfl⟩

theorem longInteger_of_expect {s : State} {value : Token} {t : State}
    (hk : s.cursor.current.kind ∈ [TokenKind.keyword .salience, .keyword .duration])
    (h : expect (.literal .int) s.advanced = .ok value t)
    (hlong : Text.digitLimit < value.digits.length) :
    LongInteger s.cursor.front.toList value.digits.length := by
  obtain ⟨rfl, hvalue, -⟩ := expect_of_ok h
  have hcursor : s.advanced.cursor = s.cursor.consume := rfl
  rw [hcursor] at hvalue hlong
  have hne : s.cursor.current.kind ≠ .endOfInput := by
    intro heq
    rw [heq] at hk
    exact absurd hk (by decide)
  have hne' : s.cursor.consume.current.kind ≠ .endOfInput := by rw [hvalue]; simp
  obtain ⟨trivia, -, heq⟩ := Cursor.rest_consume hne
  obtain ⟨between, hbetween, heq'⟩ := Cursor.rest_consume hne'
  refine ⟨s.cursor.front.toList.take s.cursor.index ++ trivia, s.cursor.current, between,
    s.cursor.consume.current, s.cursor.consume.consume.rest, ?_, hk, hbetween, hvalue, rfl, hlong⟩
  rw [List.append_assoc, ← heq', ← heq]
  exact (List.take_append_drop s.cursor.index _).symm

instance : Orderly ruleAttribute where
  from_ s := by
    refine (from_ s).bind fun {token t} h => OrderlyFrom.bind ?_ fun _ => from_ _
    obtain ⟨rfl, rfl⟩ : s.cursor.current = token ∧ s.advanced = t := by
      cases h; exact ⟨rfl, rfl⟩
    unfold attributeValue
    split
    · next hk =>
      refine (from_ _).bind fun {value u} h' => OrderlyFrom.bind ?_ fun _ => from_ _
      have hfront : u.cursor.front = s.cursor.front :=
        (evolves_ok _ h').front.trans (evolves_ok _ h).front
      obtain ⟨hthrow, hok⟩ := integer_eq value u
      by_cases hlong : Text.digitLimit < value.digits.length
      · exact .of_error (hthrow hlong) (.refl u) (hfront ▸ longInteger_of_expect hk h' hlong)
      · obtain ⟨n, heq⟩ := hok (Nat.le_of_not_lt hlong)
        exact .of_ok heq (.refl u)
    · split
      · refine (from_ _).bind fun {value u} _ => ?_
        cases value <;> exact from_ u
      · exact from_ _

/-- The value of an attribute reads on, although a long integer makes it fail. -/
theorem evolves_attributeValue {token : Token} {value : AttributeValue} {s t : State}
    (h : attributeValue token s = .ok value t) : s.Evolves t := by
  cases valueRead_of_attributeValue h with
  | number _ hdigits _ => exact evolves_ok _ hdigits
  | flag _ _ hfound => exact evolves_ok _ hfound
  | text _ _ _ hgiven => exact evolves_ok _ hgiven

instance (h : Harvest Rule) : Orderly (addAttribute h) := by unfold addAttribute; infer_instance

instance : Orderly attributesHead := by unfold attributesHead; infer_instance

instance (rule : Rule) : Orderly (ruleAttributes rule) := by
  unfold ruleAttributes
  refine @bind _ _ _ _ _ fun head => ?_
  rcases head with e | ⟨⟩ <;> dsimp only <;> infer_instance

instance : Orderly conditionBlock := by unfold conditionBlock; infer_instance

instance (rule : Rule) : Orderly (ruleConditions rule) := by
  unfold ruleConditions; infer_instance

instance : Orderly consequenceText := by unfold consequenceText; infer_instance

instance : Orderly consequence := by unfold consequence; infer_instance

instance : Orderly closing := by unfold closing; infer_instance

instance (rule : Rule) : Orderly (ruleConsequence rule) := by
  unfold ruleConsequence; infer_instance

instance (rule : Rule) : Orderly (ruleBody rule) := by unfold ruleBody; infer_instance

instance : Orderly ruleStatement := by unfold ruleStatement; infer_instance

instance : Orderly queryParameters := by unfold queryParameters; infer_instance

instance : Orderly queryBlock := by unfold queryBlock; infer_instance

instance (query : Query) : Orderly (queryBody query) := by unfold queryBody; infer_instance

instance : Orderly queryStatement := by unfold queryStatement; infer_instance

/-! ### Statements -/

instance : Orderly (packageStatement true) := by
  unfold packageStatement
  simp only [if_true]
  infer_instance

instance : Orderly importStatement := by unfold importStatement; infer_instance

instance : Orderly functionImport := by unfold functionImport; infer_instance

instance : Orderly globalStatement := by unfold globalStatement; infer_instance

instance : Orderly returnType? := by unfold returnType?; infer_instance

instance : Orderly functionStatement := by unfold functionStatement; infer_instance

instance : Orderly slot := by unfold slot; infer_instance

instance : Orderly templateStatement := by unfold templateStatement; infer_instance

instance : Orderly statement := by
  unfold statement
  refine @bind _ _ _ _ _ fun token => ?_
  split <;> infer_instance

end Orderly

end Rulebook.Parser
