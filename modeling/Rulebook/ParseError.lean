import Rulebook.Excerpt
import Rulebook.Token.Basic

/-!
# Parse errors

A parse error says which check on the token stream failed, and at which token. Its wording is a
function of that.
-/

namespace Rulebook

/-- The categories of parse errors. -/
inductive ErrorKind where
  | mismatchedToken | noViableAlternative | mismatchedSet | earlyExit | failedPredicate | general
  deriving DecidableEq, Repr, Inhabited

/-- The label of a category in reports. -/
def ErrorKind.name : ErrorKind → String
  | mismatchedToken => "MismatchedToken"
  | noViableAlternative => "NoViableAlternative"
  | mismatchedSet => "MismatchedSet"
  | earlyExit => "EarlyExit"
  | failedPredicate => "FailedPredicate"
  | general => "GeneralParseError"

/-- A check on the tokens that failed. -/
inductive ParseError where
  /-- Another kind of token was required. -/
  | mismatchedToken (expected : TokenKind) (found : Token)
  /-- One of several kinds of token was required. -/
  | mismatchedSet (expected : List TokenKind) (found : Token)
  /-- No alternative of a decision begins with the token. -/
  | noViableAlternative (decision : String) (found : Token)
  /-- A repetition that needs elements has too few. -/
  | earlyExit (construct : String) (found : Token)
  /-- A condition beyond the grammar does not hold. -/
  | failedPredicate (condition : String) (found : Option Token)
  /-- Any other complaint, possibly with the place it is about. -/
  | general (message : String) (token : Option Token) (excerpt : Option Excerpt)
  deriving DecidableEq, Repr

namespace ParseError

def kind : ParseError → ErrorKind
  | mismatchedToken .. => .mismatchedToken
  | mismatchedSet .. => .mismatchedSet
  | noViableAlternative .. => .noViableAlternative
  | earlyExit .. => .earlyExit
  | failedPredicate .. => .failedPredicate
  | general .. => .general

def token? : ParseError → Option Token
  | mismatchedToken _ t | mismatchedSet _ t | noViableAlternative _ t | earlyExit _ t => some t
  | failedPredicate _ t | general _ t _ => t

def excerpt? : ParseError → Option Excerpt
  | general _ _ e => e
  | _ => none

/-- The wordings of a set of kinds, sorted by code point. Two kinds may share a wording. -/
def expectedNames (kinds : List TokenKind) : List String :=
  (kinds.eraseDups.map TokenKind.description).mergeSort (· ≤ ·)

def message : ParseError → String
  | mismatchedToken expected t =>
    "mismatched input '" ++ t.shown ++ "' expecting " ++ expected.description
  | mismatchedSet expected t =>
    "mismatched input '" ++ t.shown ++ "' expecting one of \x7b" ++
      ", ".intercalate (expectedNames expected) ++ "\x7d"
  | noViableAlternative decision t =>
    "no viable alternative at input '" ++ t.shown ++ "' in " ++ decision
  | earlyExit construct t =>
    "required elements missing in " ++ construct ++ " at input '" ++ t.shown ++ "'"
  | failedPredicate condition _ => "failed predicate: " ++ condition
  | general message _ _ => message

/-- The wording of an error below its excerpt. -/
def report (e : ParseError) : String :=
  match e.excerpt? with
  | some excerpt => excerpt.format ++ "\n" ++ e.message
  | none => e.message

/-- A complaint about a place in a source. -/
def atPlace (message : String) (excerpt : Excerpt) : ParseError :=
  general message none (some excerpt)

end ParseError

end Rulebook
