/-!
# Kinds of tokens

Every character of a rule file belongs to one token. Its kind says whether the token is a name, a
literal, a keyword, a symbol, trivia (blanks and comments), or a character with no meaning outside
embedded code. Each kind has a `name` (its label in listings), a `value` and a `description` (its
wording in messages).
-/

namespace Rulebook

/-- Kinds of literal values. -/
inductive Literal where
  | string | int | float | bool | null
  deriving DecidableEq, Repr, Inhabited

/-- The words with a meaning in the grammar. None is reserved: each may also be a name. -/
inductive Keyword where
  | package | import_ | function | global | rule | query | template | when_ | then_ | end_
  | from_ | accumulate | collect | init | action | result | exists_ | not | eval | forall_
  | and | or
  | salience | noLoop | autoFocus | agendaGroup | activationGroup | ruleflowGroup | duration
  | dialect | lockOnActive | enabled | dateEffective | dateExpires | attributes
  | contains | excludes | matches_ | soundslike | memberOf | in_
  deriving DecidableEq, Repr, Inhabited

/-- Operators and punctuation. -/
inductive Symbol where
  | equal | notEqual | greater | greaterEqual | less | lessEqual | arrow
  | doubleAmper | amper | doublePipe | pipe
  | lparen | rparen | lbrace | rbrace | lbracket | rbracket | comma | semicolon | colon | dot
  deriving DecidableEq, Repr, Inhabited

/-- Tokens between the tokens of the grammar. -/
inductive Trivia where
  | whitespace | lineComment | blockComment
  deriving DecidableEq, Repr, Inhabited

inductive TokenKind where
  | identifier
  | literal (l : Literal)
  | keyword (k : Keyword)
  | symbol (s : Symbol)
  | trivia (t : Trivia)
  | misc
  | endOfInput
  deriving DecidableEq, Repr, Inhabited

namespace Literal

def all : List Literal := [.string, .int, .float, .bool, .null]

/-- The label in listings. -/
def name : Literal → String
  | string => "STRING"
  | int => "INT"
  | float => "FLOAT"
  | bool => "BOOL"
  | null => "NULL"

/-- The wording in messages. -/
def description : Literal → String
  | string => "string literal"
  | int => "integer literal"
  | float => "float literal"
  | bool => "boolean literal"
  | null => "'null'"

end Literal

namespace Keyword

def all : List Keyword :=
  [package, import_, function, global, rule, query, template, when_, then_, end_, from_,
   accumulate, collect, init, action, result, exists_, not, eval, forall_, and, or,
   salience, noLoop, autoFocus, agendaGroup, activationGroup, ruleflowGroup, duration, dialect,
   lockOnActive, enabled, dateEffective, dateExpires, attributes,
   contains, excludes, matches_, soundslike, memberOf, in_]

/-- The spelling in source text. -/
def text : Keyword → String
  | package => "package"
  | import_ => "import"
  | function => "function"
  | global => "global"
  | rule => "rule"
  | query => "query"
  | template => "template"
  | when_ => "when"
  | then_ => "then"
  | end_ => "end"
  | from_ => "from"
  | accumulate => "accumulate"
  | collect => "collect"
  | init => "init"
  | action => "action"
  | result => "result"
  | exists_ => "exists"
  | not => "not"
  | eval => "eval"
  | forall_ => "forall"
  | and => "and"
  | or => "or"
  | salience => "salience"
  | noLoop => "no-loop"
  | autoFocus => "auto-focus"
  | agendaGroup => "agenda-group"
  | activationGroup => "activation-group"
  | ruleflowGroup => "ruleflow-group"
  | duration => "duration"
  | dialect => "dialect"
  | lockOnActive => "lock-on-active"
  | enabled => "enabled"
  | dateEffective => "date-effective"
  | dateExpires => "date-expires"
  | attributes => "attributes"
  | contains => "contains"
  | excludes => "excludes"
  | matches_ => "matches"
  | soundslike => "soundslike"
  | memberOf => "memberOf"
  | in_ => "in"

def ofText? (s : String) : Option Keyword := all.find? (·.text == s)

theorem mem_all (k : Keyword) : k ∈ all := by cases k <;> decide

theorem text_of_ofText? {s : String} {k : Keyword} (h : ofText? s = some k) : k.text = s := by
  simpa using List.find?_some h

theorem ofText?_text (k : Keyword) : ofText? k.text = some k := by cases k <;> decide

end Keyword

namespace Symbol

def all : List Symbol :=
  [equal, notEqual, greater, greaterEqual, less, lessEqual, arrow, doubleAmper, amper,
   doublePipe, pipe, lparen, rparen, lbrace, rbrace, lbracket, rbracket, comma, semicolon,
   colon, dot]

/-- The spelling in source text. -/
def text : Symbol → String
  | equal => "=="
  | notEqual => "!="
  | greater => ">"
  | greaterEqual => ">="
  | less => "<"
  | lessEqual => "<="
  | arrow => "->"
  | doubleAmper => "&&"
  | amper => "&"
  | doublePipe => "||"
  | pipe => "|"
  | lparen => "("
  | rparen => ")"
  | lbrace => "\x7b"
  | rbrace => "\x7d"
  | lbracket => "["
  | rbracket => "]"
  | comma => ","
  | semicolon => ";"
  | colon => ":"
  | dot => "."

/-- The label in listings. -/
def name : Symbol → String
  | equal => "EQUAL"
  | notEqual => "NOT_EQUAL"
  | greater => "GREATER"
  | greaterEqual => "GREATER_EQUAL"
  | less => "LESS"
  | lessEqual => "LESS_EQUAL"
  | arrow => "ARROW"
  | doubleAmper => "DOUBLE_AMPER"
  | amper => "AMPER"
  | doublePipe => "DOUBLE_PIPE"
  | pipe => "PIPE"
  | lparen => "LPAREN"
  | rparen => "RPAREN"
  | lbrace => "LBRACE"
  | rbrace => "RBRACE"
  | lbracket => "LBRACKET"
  | rbracket => "RBRACKET"
  | comma => "COMMA"
  | semicolon => "SEMICOLON"
  | colon => "COLON"
  | dot => "DOT"

end Symbol

namespace Trivia

def all : List Trivia := [whitespace, lineComment, blockComment]

/-- The label in listings. -/
def name : Trivia → String
  | whitespace => "WS"
  | lineComment => "SL_COMMENT"
  | blockComment => "ML_COMMENT"

/-- The wording in messages. -/
def description : Trivia → String
  | whitespace => "whitespace"
  | lineComment | blockComment => "comment"

end Trivia

namespace TokenKind

def all : List TokenKind :=
  identifier :: Literal.all.map literal ++ Keyword.all.map keyword ++ Symbol.all.map symbol ++
    Trivia.all.map trivia ++ [misc, endOfInput]

/-- The label of a keyword: its spelling in capitals, with underscores for hyphens. -/
def keywordName (k : Keyword) : String :=
  k.text.map fun c => if c = '-' then '_' else c.toUpper

/-- The label of a kind in listings. -/
def name : TokenKind → String
  | identifier => "ID"
  | literal l => l.name
  | keyword k => keywordName k
  | symbol s => s.name
  | trivia t => t.name
  | misc => "MISC"
  | endOfInput => "EOF"

/-- The kind with a given label. -/
def ofName? (s : String) : Option TokenKind := all.find? (·.name == s)

/-- A keyword stands for its spelling, every other kind for its label. -/
def value : TokenKind → String
  | keyword k => k.text
  | kind => kind.name

/-- The wording of a kind in messages. -/
def description : TokenKind → String
  | identifier => "identifier"
  | literal l => l.description
  | keyword k => "'" ++ k.text ++ "'"
  | symbol s => "'" ++ s.text ++ "'"
  | trivia t => t.description
  | misc => "symbol"
  | endOfInput => "<EOF>"

/-- Blanks and comments. -/
def isTrivia : TokenKind → Bool
  | trivia _ => true
  | _ => false

def isName : TokenKind → Bool
  | identifier | keyword _ => true
  | _ => false

theorem mem_all (kind : TokenKind) : kind ∈ all := by
  cases kind with
  | literal l => cases l <;> decide
  | keyword k => simp [all, Keyword.mem_all k]
  | symbol s => cases s <;> decide
  | trivia t => cases t <;> decide
  | _ => decide

end TokenKind

end Rulebook
