import ScipClang.CompilationDatabase

/-!
# Messages between the driver and its workers

The data types of `indexer/IpcMessages.h`.  A job is identified by the index of
its command object in the compilation database and a subtask number: subtask `0`
is the semantic analysis of the command, subtask `1` the emission of its index.

The source avoids tagged unions (`NOTE(def: avoiding-unions)`): a job and a
result carry both kinds of details together with the `kind` that says which one
is meant.
-/

namespace ScipClang

/-- A worker is named by its position in `Scheduler.workers`. -/
abbrev WorkerId := Nat

/-- `HashValue`: the 64-bit transcript hash of a preprocessed file. -/
structure HashValue where
  rawValue : UInt64
deriving DecidableEq

/-- `JobId`. -/
@[ext]
structure JobId where
  taskId : UInt32
  subtaskId : UInt32
deriving DecidableEq

namespace JobId

/-- `JobId::Shutdown()`, which is also the default-constructed id. -/
def Shutdown : JobId := ⟨0xFFFFFFFF, 0xFFFFFFFF⟩

/-- `JobId::newTask`. -/
def newTask (taskId : UInt32) : JobId := ⟨taskId, 0⟩

/-- `JobId::nextSubtask`. -/
def nextSubtask (jobId : JobId) : JobId := ⟨jobId.taskId, jobId.subtaskId + 1⟩

@[simp] theorem taskId_newTask (taskId : UInt32) : (newTask taskId).taskId = taskId := rfl

@[simp] theorem subtaskId_newTask (taskId : UInt32) : (newTask taskId).subtaskId = 0 := rfl

@[simp] theorem taskId_nextSubtask (jobId : JobId) :
    jobId.nextSubtask.taskId = jobId.taskId := rfl

theorem newTask_injective : Function.Injective newTask := by
  intro t t' h
  exact congrArg taskId h

theorem nextSubtask_injective : Function.Injective nextSubtask := by
  intro j j' h
  obtain ⟨t, s⟩ := j
  obtain ⟨t', s'⟩ := j'
  have htask : t = t' := congrArg taskId h
  have hsub : s + 1 = s' + 1 := congrArg subtaskId h
  have hsub' : s = s' := by simpa using hsub
  rw [htask, hsub']

/-- A job with subtask number `0` is determined by its task. -/
theorem newTask_nextSubtask_taskId {j : JobId} (hsub : j.subtaskId = 0) :
    newTask j.nextSubtask.taskId = j := by
  obtain ⟨task, sub⟩ := j
  simp only at hsub
  subst hsub
  rfl

theorem nextSubtask_subtaskId_of_zero {j : JobId} (hsub : j.subtaskId = 0) :
    j.nextSubtask.subtaskId = 1 := by
  show j.subtaskId + 1 = 1
  rw [hsub]
  rfl

/-- A job is not an analysis and its follow-up at once. -/
theorem subtaskId_ne_one_of_zero {j : JobId} (hsub : j.subtaskId = 0) : j.subtaskId ≠ 1 := by
  rw [hsub]
  decide

theorem nextSubtask_ne_newTask_of_zero {j : JobId} (hsub : j.subtaskId = 0) (t : UInt32) :
    j.nextSubtask ≠ newTask t := by
  intro h
  have hone := nextSubtask_subtaskId_of_zero hsub
  rw [h, subtaskId_newTask] at hone
  exact absurd hone (by decide)

theorem newTask_ne_shutdown (t : UInt32) : newTask t ≠ Shutdown := by
  intro h
  have hsub : (0 : UInt32) = 0xFFFFFFFF := congrArg subtaskId h
  exact absurd hsub (by decide)

theorem nextSubtask_newTask_ne_shutdown (t : UInt32) : (newTask t).nextSubtask ≠ Shutdown := by
  intro h
  have hsub : (0 + 1 : UInt32) = 0xFFFFFFFF := congrArg subtaskId h
  exact absurd hsub (by decide)

end JobId

/-- `SemanticAnalysisJobDetails`. -/
structure SemanticAnalysisJobDetails where
  command : CommandObject := {}
deriving DecidableEq

/-- `PreprocessedFileInfo`: a file together with the hash of one way to expand it. -/
structure PreprocessedFileInfo where
  path : AbsolutePath
  hashValue : HashValue
deriving DecidableEq

/-- `PreprocessedFileInfoMulti`: a file that expands in several ways. -/
structure PreprocessedFileInfoMulti where
  path : AbsolutePath
  hashValues : List HashValue
deriving DecidableEq

/-- `EmitIndexJobDetails`. -/
structure EmitIndexJobDetails where
  filesToBeIndexed : List PreprocessedFileInfo := []
deriving DecidableEq

/-- `IndexJob::Kind`. -/
inductive IndexJobKind where
  | SemanticAnalysis
  | EmitIndex
deriving DecidableEq

/-- `IndexJob`.  The default value is the one that `{}` denotes in the source. -/
structure IndexJob where
  kind : IndexJobKind := .SemanticAnalysis
  semanticAnalysis : SemanticAnalysisJobDetails := {}
  emitIndex : EmitIndexJobDetails := {}
deriving DecidableEq

/-- `IndexJobRequest`. -/
structure IndexJobRequest where
  id : JobId
  job : IndexJob
deriving DecidableEq

/-- `SemanticAnalysisJobResult`. -/
structure SemanticAnalysisJobResult where
  wellBehavedFiles : List PreprocessedFileInfo := []
  illBehavedFiles : List PreprocessedFileInfoMulti := []
deriving DecidableEq

/-- `IndexingStatistics`. -/
structure IndexingStatistics where
  totalTimeMicros : UInt64 := 0
deriving DecidableEq

/-- `ShardPaths`. -/
structure ShardPaths where
  docsAndExternals : AbsolutePath := {}
  forwardDecls : AbsolutePath := {}
deriving DecidableEq

/-- `EmitIndexJobResult`. -/
structure EmitIndexJobResult where
  statistics : IndexingStatistics := {}
  shardPaths : ShardPaths := {}
deriving DecidableEq

/-- `IndexJobResult`. -/
structure IndexJobResult where
  kind : IndexJobKind
  semanticAnalysis : SemanticAnalysisJobResult := {}
  emitIndex : EmitIndexJobResult := {}
deriving DecidableEq

/-- `IndexJobResponse`. -/
structure IndexJobResponse where
  workerId : WorkerId
  jobId : JobId
  result : IndexJobResult
deriving DecidableEq

namespace SemanticAnalysisJobResult

/-- The (path, hash) pairs that a result reports, in the order in which the
planner goes through them. -/
def pairs (semaResult : SemanticAnalysisJobResult) : List PreprocessedFileInfo :=
  semaResult.illBehavedFiles.flatMap
      (fun fileInfoMulti => fileInfoMulti.hashValues.map (⟨fileInfoMulti.path, ·⟩)) ++
    semaResult.wellBehavedFiles

/-- A file is listed as ill-behaved only with more than one hash; the planner
states this as `ENFORCE(fileInfoMulti.hashValues.size() > 1)`. -/
def WellFormed (semaResult : SemanticAnalysisJobResult) : Prop :=
  ∀ fileInfoMulti ∈ semaResult.illBehavedFiles, 1 < fileInfoMulti.hashValues.length

instance (semaResult : SemanticAnalysisJobResult) : Decidable semaResult.WellFormed :=
  inferInstanceAs (Decidable (∀ fileInfoMulti ∈ semaResult.illBehavedFiles,
    1 < fileInfoMulti.hashValues.length))

end SemanticAnalysisJobResult

end ScipClang
