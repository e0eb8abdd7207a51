import PgEddy.Api
import PgEddy.Ast
import PgEddy.CdcProtocol
import PgEddy.Db
import PgEddy.EdgeIds
import PgEddy.EdgeStore
import PgEddy.Eval
import PgEddy.Executor
import PgEddy.History
import PgEddy.Json
import PgEddy.Lemmas.Adjacency
import PgEddy.Lemmas.Buffers
import PgEddy.Lemmas.Calls
import PgEddy.Lemmas.Changes
import PgEddy.Lemmas.Contents
import PgEddy.Lemmas.Dependence
import PgEddy.Lemmas.EdgeFates
import PgEddy.Lemmas.EdgeGraph
import PgEddy.Lemmas.EdgeItems
import PgEddy.Lemmas.EdgeOps
import PgEddy.Lemmas.EdgeReplays
import PgEddy.Lemmas.Frames
import PgEddy.Lemmas.GraphSteps
import PgEddy.Lemmas.Histories
import PgEddy.Lemmas.Hops
import PgEddy.Lemmas.IndexRows
import PgEddy.Lemmas.Linked
import PgEddy.Lemmas.LiveEdges
import PgEddy.Lemmas.MirrorSteps
import PgEddy.Lemmas.Names
import PgEddy.Lemmas.NodeOps
import PgEddy.Lemmas.NodeReads
import PgEddy.Lemmas.Owners
import PgEddy.Lemmas.Pages
import PgEddy.Lemmas.PlanSteps
import PgEddy.Lemmas.PlanTwins
import PgEddy.Lemmas.Programs
import PgEddy.Lemmas.PropCells
import PgEddy.Lemmas.Records
import PgEddy.Lemmas.Replays
import PgEddy.Lemmas.Rows
import PgEddy.Lemmas.Scans
import PgEddy.Lemmas.Transport
import PgEddy.Lemmas.Twins
import PgEddy.Lemmas.Uniqueness
import PgEddy.Lemmas.VacuumReads
import PgEddy.Lemmas.Vacuums
import PgEddy.Lemmas.Versions
import PgEddy.Lemmas.WalkTwins
import PgEddy.Lemmas.Walks
import PgEddy.Lib.Alike
import PgEddy.Lib.Binary64
import PgEddy.Lib.Bytes
import PgEddy.Lib.Chain
import PgEddy.Lib.ChangeLog
import PgEddy.Lib.Dealt
import PgEddy.Lib.Descent
import PgEddy.Lib.Multigraph
import PgEddy.Lib.Paged
import PgEddy.Lib.Recorded
import PgEddy.Lib.Related
import PgEddy.Lib.Runs
import PgEddy.Lib.SortedMap
import PgEddy.Lib.Table
import PgEddy.Lib.Text
import PgEddy.Lib.Utf8
import PgEddy.Lib.Wire
import PgEddy.Locations
import PgEddy.Mutation
import PgEddy.NameIds
import PgEddy.NodeStore
import PgEddy.Page
import PgEddy.Parser
import PgEddy.Planner
import PgEddy.Store
import PgEddy.Surface
import PgEddy.Temporal
import PgEddy.Theorems.AbortedWrites
import PgEddy.Theorems.AdjacencyMultigraph
import PgEddy.Theorems.CachedLookup
import PgEddy.Theorems.CatalogTables
import PgEddy.Theorems.ChainVisibility
import PgEddy.Theorems.ChangeStream
import PgEddy.Theorems.EdgeIdentity
import PgEddy.Theorems.EdgeWalReplay
import PgEddy.Theorems.HeaderSlots
import PgEddy.Theorems.MirrorReplica
import PgEddy.Theorems.NameRegistration
import PgEddy.Theorems.NodeRaces
import PgEddy.Theorems.NodeVisibility
import PgEddy.Theorems.PathNaming
import PgEddy.Theorems.PluginFraming
import PgEddy.Theorems.PropRoundTrip
import PgEddy.Theorems.PropertyIndex
import PgEddy.Theorems.ReferentialIntegrity
import PgEddy.Theorems.SequentialSet
import PgEddy.Theorems.UniqueConstraints
import PgEddy.Theorems.UpdateAdjacency
import PgEddy.Theorems.VacuumAdjacency
import PgEddy.Theorems.ValueTransport
import PgEddy.Theorems.WalReplay
import PgEddy.Vacuum
import PgEddy.Value
import PgEddy.Wal
import PgEddy.WalDecode
import PgEddy.Writer
import PgEddy.Xact
import PgEddy.Lemmas.Parsing
import PgEddy.Lemmas.Readings
import PgEddy.Lemmas.Written
import PgEddy.Lib.LevelOrder
import PgEddy.Theorems.StoredEndpoints
import PgEddy.AggregateEval
import PgEddy.Lemmas.AggregateCalls
import PgEddy.Lemmas.Destinations
import PgEddy.Lemmas.EvalSteps
import PgEddy.Lemmas.PropSkips
import PgEddy.Lib.Bindings
import PgEddy.Substitution
import PgEddy.Theorems.AggregateDetectors
import PgEddy.Theorems.AggregateEvaluation
import PgEddy.Lib.Signed64
import PgEddy.Arithmetic
import PgEddy.Theorems.IntegerArithmetic
import PgEddy.Theorems.StringConcatenation
import PgEddy.Comparison
import PgEddy.Lemmas.Comparisons
import PgEddy.Theorems.ComparisonLaws
import PgEddy.Theorems.AliasSubstitution
import PgEddy.Theorems.ExpandCache
import PgEddy.Theorems.MatchBindings
import PgEddy.Theorems.PatternCreation
import PgEddy.Theorems.SelectiveDecoding
import PgEddy.Theorems.VarLengthSearch
import PgEddy.Lib.Chained
import PgEddy.Lib.Binary64Order
import PgEddy.Theorems.LocatedRecords
import PgEddy.Theorems.VacuumReclaims
import PgEddy.Theorems.EdgeSearch
import PgEddy.Lexer
import PgEddy.Theorems.LexerTotality
import PgEddy.Theorems.StringLiterals
import PgEddy.Theorems.RangeFunction
import PgEddy.Theorems.VarLengthBounds
import PgEddy.Theorems.EpochConversions
import PgEddy.Theorems.TruncationFloors
import PgEddy.Theorems.ExtendedDates
import PgEddy.Theorems.TemporalOrder
import PgEddy.Lib.FirstSeen
import PgEddy.Lib.StableSort
import PgEddy.Projection
import PgEddy.Lemmas.Projections
import PgEddy.Theorems.GroupedRows
import PgEddy.Theorems.PlainOrder
import PgEddy.Theorems.ReturnedRows
import PgEddy.Theorems.Extrema
import PgEddy.Theorems.ColumnNames
import PgEddy.Theorems.Unions
import PgEddy.Lib.SqlText
import PgEddy.SqlCompiler
import PgEddy.Theorems.SqlTexts
import PgEddy.SqlRows
import PgEddy.Lemmas.SqlNames
import PgEddy.Lemmas.SqlSteps
import PgEddy.Lemmas.SqlPatterns
import PgEddy.Theorems.SqlMatches
