import Rulebook.Parser.Unit
import Rulebook.Tree.Node

/-!
# Productions by name

The productions that can be run one at a time, and what each gives.
-/

namespace Rulebook

inductive Production where
  | compilationUnit | statement | packageStatement (duplicate : Bool)
  | importTarget | importStatement | functionImport | globalStatement | functionStatement
  | templateStatement
  | title | rule | query | parameters | attribute
  | disjunction | conjunction | single | exists_ | not | eval | forall_ | parenthesised
  | sourcedPattern | factPattern | restriction
  | fromSource | accumulate | collect | retrieval
  | name | dottedName | typeName
  | parenChunk | curlyChunk | squareChunk
  deriving DecidableEq, Repr

/-- What a production gives. -/
inductive Outcome where
  | nothing
  | token (t : Token)
  | text (s : String)
  | node (n : Node)
  | restrictions (rs : List Restriction)
  | parameters (ps : List Parameter)
  deriving Repr

namespace Production

open Rulebook.Parser

def run : Production → Parser Outcome
  | compilationUnit => do return .node (.package (← Parser.compilationUnit))
  | statement => do Parser.statement; return .nothing
  | packageStatement duplicate => do Parser.packageStatement duplicate; return .nothing
  | importTarget => .text <$> Parser.importTarget
  | importStatement => do return .node (.import_ (← Parser.importStatement))
  | functionImport => do return .node (.functionImport (← Parser.functionImport))
  | globalStatement => do return .node (.global (← Parser.globalStatement))
  | functionStatement => do return .node (.function (← Parser.functionStatement))
  | templateStatement => do return .node (.template (← Parser.templateStatement))
  | title => .text <$> Parser.title
  | rule => do return .node (.entry (.rule (← ruleStatement)))
  | query => do return .node (.entry (.query (← queryStatement)))
  | parameters => .parameters <$> Parser.parameters
  | .attribute => do return .node (.attribute (← ruleAttribute))
  | disjunction => do return .node (.condition (← conditions))
  | conjunction => do return .node (.condition (← infixGroup .and andKinds condition))
  | single => do return .node (.condition (← condition))
  | exists_ => do return .node (.condition (← unaryGroup .exists_ .exists_ condition))
  | not => do return .node (.condition (← unaryGroup .not .not condition))
  | eval => do return .node (.condition (← evalCondition))
  | forall_ => do return .node (.condition (← forallCondition))
  | parenthesised => do return .node (.condition (← Parser.parenthesised condition))
  | sourcedPattern => do return .node (.condition (.pattern (← Parser.sourcedPattern)))
  | factPattern => do return .node (.condition (.pattern (← Parser.factPattern)))
  | restriction => .restrictions <$> Parser.restriction
  | fromSource => do return .node (.source (← Parser.fromSource Parser.sourcedPattern))
  | accumulate => do return .node (.source (← Parser.accumulate Parser.sourcedPattern))
  | collect => do return .node (.source (← Parser.collect Parser.sourcedPattern))
  | retrieval => do return .node (.source (.retrieval (← Parser.retrieval)))
  | name => .token <$> Parser.name
  | dottedName => .text <$> Parser.dottedName
  | typeName => .text <$> Parser.typeName
  | parenChunk => .text <$> Parser.parenChunk
  | curlyChunk => .text <$> Parser.curlyChunk
  | squareChunk => .text <$> Parser.squareChunk

end Production

end Rulebook
