import QueryLint.Check.EditDistance
import QueryLint.Check.Rule
import QueryLint.Check.ScriptRule
import QueryLint.Check.Suggestion
import QueryLint.Check.UndefinedField
import QueryLint.Document.Basic
import QueryLint.Document.Kind
import QueryLint.Document.Parallel
import QueryLint.Document.Parser
import QueryLint.Document.Reader
import QueryLint.Document.Script
import QueryLint.Document.Tree
import QueryLint.Document.Walk
import QueryLint.OrderedMap
import QueryLint.Release
import QueryLint.Report
import QueryLint.Schema.Basic
import QueryLint.Schema.Definition
import QueryLint.Schema.Graph
import QueryLint.Schema.Name
import QueryLint.Schema.Scope
import QueryLint.Schema.Standard
import QueryLint.Schema.Type
import QueryLint.Scope
import QueryLint.Source
import QueryLint.SyntaxError
import QueryLint.Text.Basic
import QueryLint.Text.DecimalDigit
import QueryLint.Text.LowerCase
import QueryLint.Text.Printable
import QueryLint.Text.Quoted
import QueryLint.Token
import QueryLint.Token.Lexer
import QueryLint.Token.Scan
import QueryLint.Workbench.Bench
import QueryLint.Workbench.Checks
import QueryLint.Workbench.Datum
import QueryLint.Workbench.Definitions
import QueryLint.Workbench.Documents
import QueryLint.Workbench.Equality
import QueryLint.Workbench.Errors
import QueryLint.Workbench.Expr
import QueryLint.Workbench.Members
import QueryLint.Workbench.NodeClass
import QueryLint.Workbench.Rendering
import QueryLint.Workbench.Schemas
import QueryLint.Workbench.Scopes
import QueryLint.Workbench.Session
import QueryLint.Workbench.Types
import QueryLint.Proofs.ParallelWalk
import QueryLint.Proofs.ReplyMeaning
import QueryLint.Proofs.ScopeChain
import QueryLint.Proofs.UndefinedFields
import QueryLint.Proofs.TokenText
import QueryLint.Proofs.Tokenising
import QueryLint.Proofs.Printing
import QueryLint.Proofs.Reading
import QueryLint.Proofs.GrammarTokens
import QueryLint.Proofs.DocumentTokens
import QueryLint.Proofs.Reachability
import QueryLint.Proofs.TypeSuggestions
import QueryLint.Proofs.Words
import QueryLint.Proofs.WrittenForm
import QueryLint.Proofs.Acceptance
import QueryLint.Proofs.GrammarAcceptance
import QueryLint.Proofs.DocumentAcceptance
import QueryLint.Proofs.ParsedTypes
import QueryLint.Proofs.NameResolution
import QueryLint.Proofs.ResolvableDocuments
import QueryLint.Proofs.TokenOrder
import QueryLint.Proofs.Foresight
import QueryLint.Proofs.ChoiceForesight
import QueryLint.Proofs.GrammarForesight
import QueryLint.Proofs.OperationTypeForesight
import QueryLint.Proofs.DefinitionForesight
import QueryLint.Proofs.FirstMisfit
import QueryLint.Proofs.Layout
import QueryLint.Proofs.GrammarLayout
import QueryLint.Proofs.WalkOrder
import QueryLint.Proofs.DocumentLayout
import QueryLint.Proofs.LexerCalls
import QueryLint.Proofs.StringLiterals
import QueryLint.Proofs.TokenGrammar
import QueryLint.Proofs.TokenDivision
import QueryLint.Proofs.StringDecoding
import QueryLint.Proofs.WritableNames
import QueryLint.Proofs.LineCounting
import QueryLint.Proofs.DocumentTrees
import QueryLint.Proofs.WalkEvents
import QueryLint.Proofs.WalkCalls
import QueryLint.Proofs.RuleIndependence
import QueryLint.Proofs.Alignments
import QueryLint.Proofs.TwinReading
import QueryLint.Proofs.TwinParsing
import QueryLint.Proofs.ReflectedDefinitions
import QueryLint.Proofs.TypeOrder
import QueryLint.Proofs.MatchingSchemas
import QueryLint.Proofs.DefinitionOrder
import QueryLint.Proofs.SuggestionOrder
import QueryLint.Proofs.PlaceOrder
import QueryLint.Proofs.ReleaseSpelling
import QueryLint.Proofs.LexerReading
import QueryLint.Proofs.WatchedReading
import QueryLint.Proofs.GrammarProgress
import QueryLint.Proofs.ReadingProgress
import QueryLint.Document.Traversal
import QueryLint.Proofs.SessionRuns
import QueryLint.Proofs.NodesOfTrees
import QueryLint.Proofs.SettledBenches
import QueryLint.Proofs.BenchReports
import QueryLint.Proofs.BenchScopes
import QueryLint.Proofs.BenchChecks
import QueryLint.Proofs.SessionResults
import QueryLint.Proofs.DefinitionNodes
import QueryLint.Proofs.BenchDefinitions
import QueryLint.Proofs.DefinedTypes
import QueryLint.Proofs.HalfReadGraphs
