import AlLanguage.Library.Lists
import AlLanguage.Library.Lockstep
import AlLanguage.Library.Champions
import AlLanguage.Library.LeastNumbers
import AlLanguage.Library.MapSums
import AlLanguage.Library.StableSort
import AlLanguage.Library.SortedRuns
import AlLanguage.Library.Worklist
import AlLanguage.Library.Conflicts
import AlLanguage.Library.Lookahead
import AlLanguage.Library.Offsets
import AlLanguage.Library.OperatorTrees
import AlLanguage.Library.ConditionalTrees
import AlLanguage.Library.OrderedMap
import AlLanguage.Library.Groups
import AlLanguage.Library.Owned
import AlLanguage.Library.TextLines
import AlLanguage.Library.Intervals
import AlLanguage.Library.IndexMap
import AlLanguage.Library.Pieces
import AlLanguage.Library.CountedHeap
import AlLanguage.Library.Carried
import AlLanguage.Runtime.Text
import AlLanguage.Runtime.Decimal
import AlLanguage.Runtime.Value
import AlLanguage.Runtime.FilterSyntax
import AlLanguage.Runtime.FilterParse
import AlLanguage.Runtime.FilterGrammar
import AlLanguage.Runtime.FilterDerivations
import AlLanguage.Runtime.FilterAcceptance
import AlLanguage.Runtime.NumberText
import AlLanguage.Runtime.Filter
import AlLanguage.Runtime.Wildcards
import AlLanguage.Runtime.Record
import AlLanguage.Library.Machine
import AlLanguage.Library.Substrings
import AlLanguage.Library.Search
import AlLanguage.Library.Fueled
import AlLanguage.Library.Pointwise
import AlLanguage.Library.Ranks
import AlLanguage.Library.Breadth
import AlLanguage.Library.Filing
import AlLanguage.Library.Calendar
import AlLanguage.Library.Rounding
import AlLanguage.Library.SharedWalk
import AlLanguage.Library.Trees
import AlLanguage.Library.Threads
import AlLanguage.Runtime.Store
import AlLanguage.Runtime.RecordRun
import AlLanguage.Runtime.Cursor
import AlLanguage.Runtime.CursorDeletes
import AlLanguage.Runtime.Unset
import AlLanguage.Runtime.FlowFields
import AlLanguage.Runtime.UnsetTotals
import AlLanguage.Runtime.SetFilter
import AlLanguage.Runtime.Operators
import AlLanguage.Runtime.Caseless
import AlLanguage.Runtime.NumberFilter
import AlLanguage.Runtime.Slot
import AlLanguage.Runtime.Tables
import AlLanguage.Runtime.PictureNumbers
import AlLanguage.Runtime.Pictures
import AlLanguage.Runtime.References
import AlLanguage.Runtime.Rename
import AlLanguage.Runtime.BulkWrites
import AlLanguage.Runtime.BulkAgreement
import AlLanguage.Runtime.SharedValue
import AlLanguage.Runtime.Collections
import AlLanguage.Runtime.FormatEvaluate
import AlLanguage.Runtime.Frames
import AlLanguage.Runtime.HeldMethods
import AlLanguage.Runtime.HeldEntries
import AlLanguage.Runtime.HeldAccount
import AlLanguage.Runtime.HeldRuns
import AlLanguage.Runtime.HeldRefusals
import AlLanguage.Runtime.Json
import AlLanguage.Runtime.JsonMethods
import AlLanguage.Runtime.JsonForest
import AlLanguage.Runtime.JsonCopies
import AlLanguage.Runtime.JsonCalls
import AlLanguage.Runtime.JsonPaths
import AlLanguage.Runtime.JsonPathSyntax
import AlLanguage.Runtime.JsonSelection
import AlLanguage.Runtime.JsonRuns
import AlLanguage.Runtime.JsonValues
import AlLanguage.Runtime.JsonEdits
import AlLanguage.Runtime.JsonPrograms
import AlLanguage.Runtime.JsonAnswers
import AlLanguage.Runtime.JsonTrees
import AlLanguage.Runtime.JsonTexts
import AlLanguage.Runtime.Dates
import AlLanguage.Runtime.Weeks
import AlLanguage.Runtime.DateFormulas
import AlLanguage.Runtime.CalcDate
import AlLanguage.Runtime.Arithmetic
import AlLanguage.Runtime.IntegerRange
import AlLanguage.Runtime.Multiples
import AlLanguage.Source.Positions
import AlLanguage.Source.Documents
import AlLanguage.Source.Edits
import AlLanguage.Source.ParseCache
import AlLanguage.Source.FileIndex
import AlLanguage.Source.IndexedFiles
import AlLanguage.Source.FreshIndex
import AlLanguage.Source.Reindexing
import AlLanguage.Source.Scanning
import AlLanguage.Source.QuietScans
import AlLanguage.Symbols.Model
import AlLanguage.Symbols.AppReader
import AlLanguage.Symbols.ZipOffset
import AlLanguage.Symbols.ZipArchives
import AlLanguage.Symbols.DiskCache
import AlLanguage.Symbols.PackageLoads
import AlLanguage.Symbols.Index
import AlLanguage.Symbols.Composition
import AlLanguage.Symbols.Events
import AlLanguage.Symbols.Updates
import AlLanguage.Symbols.Concurrent
import AlLanguage.Symbols.Stale
import AlLanguage.Symbols.Loading
import AlLanguage.Symbols.SortedNames
import AlLanguage.Symbols.Agreement
import AlLanguage.Symbols.Views
import AlLanguage.Symbols.Composed
import AlLanguage.Xliff.Units
import AlLanguage.Xliff.Refresh
import AlLanguage.Xliff.Format
import AlLanguage.Xliff.Escapes
import AlLanguage.Xliff.ReadBack
import AlLanguage.Xliff.RoundTrip
import AlLanguage.Insight.Graph
import AlLanguage.Runtime.CalcFormula
import AlLanguage.Runtime.FormulaTexts
import AlLanguage.Insight.Relations
import AlLanguage.Insight.Scanners
import AlLanguage.Insight.RelationTexts
import AlLanguage.Insight.FormulaReaders
import AlLanguage.Insight.Building
import AlLanguage.Insight.Growth
import AlLanguage.Insight.Removal
import AlLanguage.Insight.Subscriptions
import AlLanguage.Insight.GraphRuns
import AlLanguage.Symbols.Versions
import AlLanguage.Syntax.Columns
import AlLanguage.Syntax.Lexical
import AlLanguage.Syntax.LexedLines
import AlLanguage.Syntax.PropertySorting
import AlLanguage.Syntax.SortedProperties
import AlLanguage.Runtime.Coverage
import AlLanguage.Runtime.CoverageSums
import AlLanguage.Interpreter.Expressions
import AlLanguage.Interpreter.Statements
import AlLanguage.Interpreter.ConditionVectors
import AlLanguage.Interpreter.ChainTrees
import AlLanguage.Interpreter.ChainSemantics
import AlLanguage.Interpreter.ConditionRuns
import AlLanguage.Interpreter.TracedExpressions
import AlLanguage.Interpreter.TracedNodes
import AlLanguage.Interpreter.ConditionResults
import AlLanguage.Analysis.FreeIds
import AlLanguage.Analysis.FreeNumbers
import AlLanguage.Analysis.Dependencies
import AlLanguage.Analysis.DependencyResults
import AlLanguage.Analysis.BreakingChanges
import AlLanguage.Analysis.Surfaces
import AlLanguage.Analysis.SurfaceCompatibility
import AlLanguage.Analysis.SurfaceResults
import AlLanguage.Insight.CallGraph
import AlLanguage.Insight.CallSites
import AlLanguage.Insight.CallResolution
import AlLanguage.Insight.CallPasses
import AlLanguage.Workspace.SemanticLifecycle
import AlLanguage.Workspace.LifecycleRuns
import AlLanguage.Dap.ReplayEngine
import AlLanguage.Dap.ReplayLinks
import AlLanguage.Dap.ReplayWalk
import AlLanguage.Dap.ReplaySteps
