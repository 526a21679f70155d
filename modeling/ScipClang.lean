import ScipClang.Path
import ScipClang.CompilationDatabase
import ScipClang.IpcMessages
import ScipClang.ShardPaths
import ScipClang.Library.Digits
import ScipClang.Library.FirstSeen
import ScipClang.Library.TransitionSystem
import ScipClang.FileIndexingPlanner
import ScipClang.Scheduler.Model
import ScipClang.Scheduler.Invariant
import ScipClang.Scheduler.Loops
import ScipClang.Scheduler.Operations
import ScipClang.Driver.Model
import ScipClang.Driver.Loop
import ScipClang.Driver.LoopAssertions
import ScipClang.Driver.Conservation
import ScipClang.Protocol.Model
import ScipClang.Protocol.Agreement
import ScipClang.Protocol.Answers
import ScipClang.Protocol.Progress
import ScipClang.Protocol.WorkerProcess
import ScipClang.Protocol.DriverLoop
import ScipClang.Protocol.Completion
import ScipClang.Library.HashTables
import ScipClang.Scip.Types
import ScipClang.Scip.Builders
import ScipClang.Scip.Hashing
import ScipClang.Scip.Merging
import ScipClang.Scip.ForwardDecls
import ScipClang.Scip.Resolution
import ScipClang.Scip.Finish
import ScipClang.Scip.Effects
import ScipClang.Scip.Ambiguity
import ScipClang.Scip.Documentation
import ScipClang.Library.LongestPrefix
import ScipClang.Library.Segments
import ScipClang.PathComponents
import ScipClang.Worker.IdPathMappings
import ScipClang.Worker.PackageMap
import ScipClang.Worker.PackageLookup
import ScipClang.Worker.PathNormalization
import ScipClang.Worker.FileMetadata
import ScipClang.Library.TreeHash
import ScipClang.Library.Worklist
import ScipClang.Worker.Preprocessing
import ScipClang.Worker.FileStack
import ScipClang.Worker.Documents
import ScipClang.Worker.SymbolPrefixes
import ScipClang.Worker.SemaResults
import ScipClang.Worker.MetadataCases
import ScipClang.Worker.ForwardDeclMap
import ScipClang.Worker.ExternalSymbols
import ScipClang.Worker.Inheritance
import ScipClang.Worker.Run
import ScipClang.Driver.Merge
import ScipClang.Driver.OneDocument
import ScipClang.Driver.FileIdentity
import ScipClang.SymbolFormatter
import ScipClang.Scip.LocalSymbols
import ScipClang.Scip.AnonymousTypes
import ScipClang.Driver.ShardOrder
import ScipClang.Driver.MergedShards
import ScipClang.Driver.Determinism
import ScipClang.Driver.DuplicateOccurrences
import ScipClang.Library.Json
import ScipClang.Ipc.Serialization
import ScipClang.Ipc.Queue
import ScipClang.Library.Patterns
import ScipClang.Compdb.CommandLineCleaner
import ScipClang.Compdb.Toolchains
import ScipClang.Library.Sax
import ScipClang.Compdb.Validator
import ScipClang.Compdb.Reader
import ScipClang.Compdb.Commands
import ScipClang.Compdb.Variants
import ScipClang.Compdb.LlvmCommandLineParsing
import ScipClang.Library.Memo
import ScipClang.Worker.MemberReferences
import ScipClang.Worker.DeclSymbols
import ScipClang.Worker.SymbolIdentity
import ScipClang.Worker.MacroIndexer
import ScipClang.Worker.FileSymbols
import ScipClang.Worker.WriteIndex
import ScipClang.Worker.Reproducibility
