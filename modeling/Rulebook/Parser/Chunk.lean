import Rulebook.Parser.Basic

/-!
# Embedded code

Code between balanced delimiters is taken over verbatim. Trivia is visible while it is read, so the
captured text is the source between the delimiters, and including them. Strings and comments are
single tokens, so delimiters in them do not count.
-/

namespace Rulebook.Parser

def withoutDelimiters (chunk : String) : String :=
  String.ofList (chunk.toList.drop 1).dropLast

/-- Takes one part of a chunk: a chunk within it, which `inner` reads, or a token. The text so far
goes with whether the chunk is still open. -/
def chunkPart (opening closing : Symbol) (stops : List Symbol) (inner : Parser String) :
    String × Bool → Parser (String × Bool)
  | (text, _) => do
    let token ← current
    if token.kind = .symbol opening then return (text ++ (← inner), true)
    else if token.kind = .symbol closing then
      let _ ← advance
      return (text ++ token.text, false)
    else if token.kind = .endOfInput ∨ token.kind ∈ stops.map TokenKind.symbol then
      fail (.mismatchedToken (.symbol closing) token)
    else
      let _ ← advance
      return (text ++ token.text, true)

/-- A chunk, for a number of levels of chunks within chunks. Trivia is made visible at every level,
and hidden again where that ends. -/
def chunkWithin (opening closing : Symbol) (stops : List Symbol) : Nat → Parser String
  | 0 => throw .nestingTooDeep
  | levels + 1 => do
    let first ← symbol opening
    let (text, _) ← withTrivia do
      repeatWhile (first.text, true) (fun (_, isOpen) => return isOpen)
        (chunkPart opening closing stops (nested .code (chunkWithin opening closing stops levels)))
    return text

/-- Captures up to the closing symbol that balances the opening one. A stop symbol, or the end of
input, before that is an error. -/
def chunk (opening closing : Symbol) (stops : List Symbol) : Parser String := do
  chunkWithin opening closing stops (← levels)

/-- Code in parentheses. -/
def parenChunk : Parser String := chunk .lparen .rparen []

/-- Code in braces. -/
def curlyChunk : Parser String := chunk .lbrace .rbrace []

/-- Code in brackets. It ends at an unbalanced `)` or closing brace instead of swallowing it. -/
def squareChunk : Parser String := chunk .lbracket .rbracket [.rparen, .rbrace]

def parenCode : Parser String := withoutDelimiters <$> parenChunk

def endsInSemicolon (code : String) : Bool :=
  (Text.trimRight code.toList).getLast? = some ';'

def checkSemicolon (code : String) (token : Token) : Parser Unit :=
  if endsInSemicolon code then remark "trailing semi-colon not allowed" token else pure ()

end Rulebook.Parser
