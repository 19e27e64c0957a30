import Rulebook.Main
import Rulebook.Parser.Session
import Rulebook.Proofs.Orderly
import Rulebook.Proofs.OrderlyGrammar
import Rulebook.Proofs.Trials
import Rulebook.Proofs.Eager
import Rulebook.Proofs.Progress
import Rulebook.Proofs.Totality
import Rulebook.Proofs.Abreast
import Rulebook.Proofs.Level
import Rulebook.Proofs.TwinCode
import Rulebook.Proofs.TwinNames
import Rulebook.Proofs.TwinPatterns
import Rulebook.Proofs.TwinSources
import Rulebook.Proofs.Joined
import Rulebook.Proofs.Sameness
import Rulebook.Proofs.Sequel
import Rulebook.Proofs.Spacing
import Rulebook.Proofs.Foresight
import Rulebook.Proofs.Inert
import Rulebook.Proofs.Layout
import Rulebook.Proofs.LayoutConditions
import Rulebook.Proofs.LayoutUnit
import Rulebook.Proofs.Locations
import Rulebook.Proofs.Nesting
import Rulebook.Proofs.Dividers
import Rulebook.Proofs.Endings
import Rulebook.Proofs.Composed
import Rulebook.Proofs.Unread
import Rulebook.Proofs.LedgerUnit
import Rulebook.Proofs.Coverage
import Rulebook.Proofs.Facing
import Rulebook.Proofs.Words
import Rulebook.Proofs.WrittenTypes
import Rulebook.Proofs.WrittenCode
import Rulebook.Proofs.Choosing
import Rulebook.Proofs.WrittenParameters
import Rulebook.Proofs.WrittenDeclarations
import Rulebook.Proofs.WrittenUnit
import Rulebook.Proofs.Unreported
import Rulebook.Proofs.WrittenPatterns
import Rulebook.Proofs.Transplants
import Rulebook.Proofs.WrittenConditions
import Rulebook.Proofs.ReadBack
import Rulebook.Proofs.Lossless
import Rulebook.Proofs.Resumption
import Rulebook.Proofs.WellFormedUnit
import Rulebook.Proofs.DumpedTrees
import Rulebook.Proofs.Boundaries
import Rulebook.Proofs.Repetitions
import Rulebook.Proofs.SharedConditions
import Rulebook.Proofs.FileText
import Rulebook.Proofs.CheckedFiles
import Rulebook.Proofs.Neighbours
import Rulebook.Proofs.Balanced
import Rulebook.Proofs.SourceSpans
import Rulebook.Proofs.Consequences
import Rulebook.Proofs.Taking
import Rulebook.Proofs.WrittenRestrictions
import Rulebook.Proofs.Accepting
import Rulebook.Proofs.RestrictionLists
import Rulebook.Proofs.ValueLists
import Rulebook.Proofs.Excerpts
import Rulebook.Proofs.AccessChains
import Rulebook.Proofs.Inheritance
import Rulebook.Proofs.SemicolonRemarks
import Rulebook.Proofs.Wholeness
import Rulebook.Proofs.Parentheses
import Rulebook.Proofs.Interspersed
import Rulebook.Proofs.Adjoining
import Rulebook.Proofs.ParameterLists
import Rulebook.Proofs.Unquoting
import Rulebook.Proofs.EmptyBlocks
import Rulebook.Proofs.Blanked
import Rulebook.Proofs.Naming
import Rulebook.Proofs.UnclosedPatterns
import Rulebook.Proofs.UnclosedRules
import Rulebook.Proofs.Account
import Rulebook.Proofs.Consumed
import Rulebook.Proofs.Expansion
