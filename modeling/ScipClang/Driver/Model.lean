import ScipClang.FileIndexingPlanner
import ScipClang.Scheduler.Operations

/-!
# The driver

`Driver` (`indexer/Driver.cc`) owns the scheduler, the planner and the parser of
the compilation database, and collects the results of the workers.  This module
models its functions up to `processOneOrMoreJobResults`; the loop that calls them
is in `ScipClang.Driver.Loop`.

Progress reports, logging and trace events are left out, and so are the options
that only reach the workers.  `indexedSoFar` counts the translation units of one
database, so its 32 bits cannot overflow and it is a natural number here.

The last section is about the one path on which the driver undoes a scheduling
decision and then terminates the worker: the follow-up request of a semantic
analysis cannot be sent.  `descheduleJobDueToSendError` clears
`currentlyProcessing`, which `terminateRunningWorker` reads next.
-/

namespace ScipClang

/-- The options of the driver that its own functions read. -/
structure DriverOptions where
  projectRootPath : RootPath
  statsFilePath : Str
  numWorkers : Nat
  isTesting : Bool

/-- What the environment of the driver decides: the file system and toolchain as
the parser sees them, the sends, and the handles of respawned workers.  Handles of
different processes differ, so the new handle is a function of the old one. -/
structure DriverEnv where
  parser : ParserEnv
  send : SendEnv
  terminateAndRespawn : Process → WorkerId → Process

/-- The environment in which all sends succeed. -/
def accepting (env : DriverEnv) : DriverEnv :=
  { env with send := { env.send with sendOk := fun _ => true } }

/-- `Driver`. -/
structure Driver where
  options : DriverOptions
  scheduler : Scheduler := {}
  planner : FileIndexingPlanner
  allStatistics : List (JobId × IndexingStatistics) := []
  shardPaths : List ShardPaths := []
  /-- Total number of commands in the compilation database. -/
  compdbCommandCount : Nat := 0
  indexedSoFar : Nat := 0
  /-- The options that `compdbParser` was initialized with. -/
  parseOptions : ParseOptions
  compdbParser : ResumableParser

namespace Driver

/-- `Driver::refillCount`, for a number of workers. -/
def refillCount (numWorkers : Nat) : Nat := 2 * numWorkers

/-- The driver after `openCompilationDatabase` and `spawnWorkers`. -/
def openCompilationDatabase (options : DriverOptions) (database : CompilationDatabase)
    (spawnWorker : WorkerId → Process) : Driver :=
  let numWorkers := min database.commands.length options.numWorkers
  { options := { options with numWorkers }
    scheduler := Scheduler.initializeWorkers {} numWorkers spawnWorker
    planner := .ofRoot options.projectRootPath
    compdbCommandCount := database.commands.length
    parseOptions := .create (refillCount numWorkers) options.isTesting
    compdbParser := { unread := database.commands } }

variable (env : DriverEnv)

/-- `Driver::refillJobs`.  The source returns the number of commands that were
queued; here the commands themselves are returned. -/
def refillJobs (driver : Driver) : Driver × List CommandObject :=
  let (compdbParser, commands) :=
    driver.compdbParser.parseMore env.parser driver.parseOptions
  ({ driver with
      compdbParser
      scheduler := commands.foldl Scheduler.queueSemaTask driver.scheduler },
    commands)

/-- The job that emits the index of the given files. -/
def emitJob (filesToBeIndexed : List PreprocessedFileInfo) : IndexJob :=
  { kind := .EmitIndex, semanticAnalysis := {}, emitIndex := ⟨filesToBeIndexed⟩ }

/-- `Driver::processWorkerResponse`. -/
def processWorkerResponse (driver : Driver) (response : IndexJobResponse) :
    Except SchedulerError Driver :=
  match driver.scheduler.markCompleted response.workerId response.jobId with
  | (scheduler, none) => .ok { driver with scheduler }
  | (scheduler, some workerId) =>
      match response.result.kind with
      | .SemanticAnalysis =>
          let (planner, filesToBeIndexed) :=
            driver.planner.saveSemaResult response.result.semanticAnalysis []
          let newRequestJobId := response.jobId.nextSubtask
          let (scheduler, _newRequest) := scheduler.createSubtaskAndScheduleOnWorker workerId
            response.jobId (emitJob filesToBeIndexed) (env.send.now newRequestJobId)
          if env.send.sendOk newRequestJobId then
            .ok { driver with planner, scheduler }
          else
            let scheduler := scheduler.descheduleJobDueToSendError workerId newRequestJobId
            match scheduler.terminateRunningWorker workerId
                (env.terminateAndRespawn · workerId) with
            | .error e => .error e
            | .ok scheduler => .ok { driver with planner, scheduler }
      | .EmitIndex =>
          let result := response.result.emitIndex
          .ok { driver with
            scheduler
            allStatistics :=
              if driver.options.statsFilePath = [] then driver.allStatistics
              else driver.allStatistics ++ [(response.jobId, result.statistics)]
            shardPaths := driver.shardPaths ++ [result.shardPaths]
            indexedSoFar := driver.indexedSoFar + 1 }

/-- `Driver::terminateLongRunningWorkersAndRespawn`. -/
def terminateLongRunningWorkersAndRespawn (driver : Driver) (startedBefore : Instant) :
    Except SchedulerError Driver :=
  match driver.scheduler.terminateLongRunningWorkersAndRespawn startedBefore
      env.terminateAndRespawn with
  | .error e => .error e
  | .ok scheduler => .ok { driver with scheduler }

/-- `Driver::processOneOrMoreJobResults`: the responses that the driver reads before
the queue runs empty, none of them if it times out or reads a malformed message,
and then the termination of workers that took too long. -/
def processOneOrMoreJobResults (driver : Driver) (responses : List IndexJobResponse)
    (startedBefore : Instant) : Except SchedulerError Driver :=
  match responses.foldlM (processWorkerResponse env) driver with
  | .error e => .error e
  | .ok driver => driver.terminateLongRunningWorkersAndRespawn env startedBefore

/-- The commands that the parser has yet to deliver. -/
def undelivered (driver : Driver) : List CommandObject :=
  driver.compdbParser.yields env.parser driver.parseOptions

/-- The three things that handling a response can do when sends succeed: clear the
suspicion of a terminated worker's job, go on to emitting the index, or record the
result. -/
theorem processWorkerResponse_cases {env : DriverEnv} (hsend : ∀ j, env.send.sendOk j = true)
    {driver driver' : Driver} {response : IndexJobResponse}
    (h : processWorkerResponse env driver response = .ok driver') :
    (driver.scheduler.jobOf response.workerId ≠ some response.jobId ∧
      driver' = { driver with scheduler := { driver.scheduler with
        maybeErroredJobs := driver.scheduler.maybeErroredJobs.erase response.jobId } }) ∨
    (driver.scheduler.jobOf response.workerId = some response.jobId ∧
      response.result.kind = .SemanticAnalysis ∧ ∃ planner files now,
        driver' = { driver with
          planner
          scheduler := driver.scheduler.analysed response.workerId response.jobId
            (emitJob files) now }) ∨
    (driver.scheduler.jobOf response.workerId = some response.jobId ∧
      response.result.kind = .EmitIndex ∧ ∃ statistics,
        driver' = { driver with
          scheduler :=
            (driver.scheduler.markCompleted response.workerId response.jobId).1
          allStatistics := statistics
          shardPaths := driver.shardPaths ++ [response.result.emitIndex.shardPaths]
          indexedSoFar := driver.indexedSoFar + 1 }) := by
  by_cases hlive : driver.scheduler.jobOf response.workerId = some response.jobId
  · refine Or.inr ?_
    cases hkind : response.result.kind with
    | SemanticAnalysis =>
        refine Or.inl ⟨hlive, rfl,
          (driver.planner.saveSemaResult response.result.semanticAnalysis []).1,
          (driver.planner.saveSemaResult response.result.semanticAnalysis []).2,
          env.send.now response.jobId.nextSubtask, ?_⟩
        simp only [processWorkerResponse, Scheduler.markCompleted, hlive, if_true, hkind, hsend,
          Except.ok.injEq] at h
        rw [← h]
        simp only [Scheduler.analysed, Scheduler.markCompleted, hlive, if_true]
    | EmitIndex =>
        simp only [processWorkerResponse, Scheduler.markCompleted, hlive, if_true, hkind,
          Except.ok.injEq] at h
        refine Or.inr ⟨hlive, rfl, driver'.allStatistics, ?_⟩
        rw [← h]
        simp only [Scheduler.markCompleted, hlive, if_true]
  · refine Or.inl ⟨hlive, ?_⟩
    simp only [processWorkerResponse, Scheduler.markCompleted, hlive, if_false,
      Except.ok.injEq] at h
    exact h.symm

/-! ## Recovery from a failed send of the follow-up request -/

/-- What recovery from the failed send is meant to achieve: it completes, the worker is
idle and listed once, the job may have failed and is no longer running, and the
counting check holds. -/
def RecoverySafe (driver : Driver) (response : IndexJobResponse) : Prop :=
  ∃ driver', processWorkerResponse env driver response = .ok driver' ∧
    driver'.scheduler.statusOf response.workerId = some .Idle ∧
    driver'.scheduler.idleWorkers.count response.workerId = 1 ∧
    response.jobId.nextSubtask ∈ driver'.scheduler.maybeErroredJobs ∧
    response.jobId.nextSubtask ∉ driver'.scheduler.wipJobs ∧
    driver'.scheduler.checkInvariants

variable {env}

/-- Undoing the scheduling of a job leaves its worker without a current job, so that
terminating the worker reads an empty optional. -/
theorem terminate_after_deschedule {s : Scheduler} {w : WorkerId} {st : WorkerStatus}
    (hw : s.statusOf w = some st) (j : JobId) (terminateAndRespawn : Process → Process) :
    (s.descheduleJobDueToSendError w j).terminateRunningWorker w terminateAndRespawn =
      .error .badOptionalAccess := by
  obtain ⟨info, hinfo⟩ := Option.isSome_iff_exists.mp (Scheduler.isSome_of_statusOf hw)
  have hidle : (s.descheduleJobDueToSendError w j).workers[w]? =
      some { info with currentlyProcessing := none, status := .Idle } := by
    simp [Scheduler.descheduleJobDueToSendError, Scheduler.markWorkerIdle, hinfo]
  rw [Scheduler.terminateRunningWorker, hidle]

/-- Scheduling the follow-up job keeps the worker in the table. -/
theorem statusOf_createSubtask {s : Scheduler} {w : WorkerId} {st : WorkerStatus}
    (hw : s.statusOf w = some st) (j : JobId) (job : IndexJob) (now : Instant) :
    (s.createSubtaskAndScheduleOnWorker w j job now).1.statusOf w = some .Busy := by
  have hemplace : ∀ jobId, (s.emplaceJob jobId job).workers = s.workers := by
    intro jobId
    unfold Scheduler.emplaceJob
    split <;> rfl
  have hw' : (({ s.emplaceJob j.nextSubtask job with
      wipJobs := insert j.nextSubtask s.wipJobs } : Scheduler).statusOf w) = some st := by
    simpa [Scheduler.statusOf, hemplace] using hw
  exact (Scheduler.statusOf_markWorkerBusy hw' j.nextSubtask now w).trans (if_pos rfl)

/-- **Recovery from a failed send never completes.** For every state of the driver in
which the worker of the response is alive, the recovery reads an empty
`currentlyProcessing`. -/
theorem not_recoverySafe (env : DriverEnv) (driver : Driver) (response : IndexJobResponse)
    (hlive : driver.scheduler.jobOf response.workerId = some response.jobId)
    (hkind : response.result.kind = .SemanticAnalysis)
    (hsend : env.send.sendOk response.jobId.nextSubtask = false) :
    processWorkerResponse env driver response = .error .badOptionalAccess ∧
      ¬ RecoverySafe env driver response := by
  obtain ⟨info, hinfo, -⟩ := Scheduler.exists_info_of_jobOf hlive
  have hstatus : driver.scheduler.statusOf response.workerId = some info.status := by
    simp [Scheduler.statusOf, hinfo]
  have hidle : (driver.scheduler.markCompleted response.workerId response.jobId).1.statusOf
      response.workerId = some .Idle := by
    simp only [Scheduler.markCompleted, hlive, if_true]
    exact (Scheduler.statusOf_markWorkerIdle hstatus response.workerId).trans (if_pos rfl)
  have herror : processWorkerResponse env driver response = .error .badOptionalAccess := by
    have hbusy := statusOf_createSubtask hidle response.jobId
      (emitJob (driver.planner.saveSemaResult response.result.semanticAnalysis []).2)
      (env.send.now response.jobId.nextSubtask)
    have hterminate := terminate_after_deschedule hbusy response.jobId.nextSubtask
      (env.terminateAndRespawn · response.workerId)
    simp only [Scheduler.markCompleted, hlive, if_true] at hterminate
    simp only [processWorkerResponse, Scheduler.markCompleted, hlive, if_true, hkind, hsend,
      Bool.false_eq_true, if_false, hterminate]
  refine ⟨herror, ?_⟩
  rintro ⟨driver', hok, -⟩
  rw [herror] at hok
  cases hok

/-- A driver whose only worker analyses its only translation unit. -/
def analysingDriver : Driver :=
  let driver := openCompilationDatabase ⟨⟨⟨"/p".toList⟩, .Project⟩, [], 1, true⟩
    ⟨[{}], by decide⟩ id
  { driver with
    scheduler := (driver.scheduler.queueSemaTask { index := 0 }).assignJobsToIdleWorkers
      ⟨fun _ => true, fun _ => 5⟩ }

/-- An environment in which no request of an `EmitIndex` job fits into its queue. -/
def oversizedEnv : DriverEnv where
  parser := ⟨fun _ => true, fun _ => true, fun cmdObject => cmdObject.arguments⟩
  send := ⟨fun jobId => jobId.subtaskId == 0, fun _ => 7⟩
  terminateAndRespawn process _ := process + 1

/-- The response of the worker of `analysingDriver`. -/
def semaResponse : IndexJobResponse := ⟨0, .newTask 0, { kind := .SemanticAnalysis }⟩

theorem not_recoverySafe_oversized :
    processWorkerResponse oversizedEnv analysingDriver semaResponse = .error .badOptionalAccess ∧
      ¬ RecoverySafe oversizedEnv analysingDriver semaResponse :=
  not_recoverySafe oversizedEnv analysingDriver semaResponse rfl rfl rfl

/-- The state of `analysingDriver` is reachable, its worker is alive, the follow-up request
cannot be sent, and recovery is not safe. -/
theorem recovery_reads_empty_optional :
    (∃ o, Scheduler.schedulerOps.Reachable o ∧ o.scheduler = analysingDriver.scheduler) ∧
      analysingDriver.scheduler.jobOf 0 = some (.newTask 0) ∧
      oversizedEnv.send.sendOk (JobId.newTask 0).nextSubtask = false ∧
      ¬ RecoverySafe oversizedEnv analysingDriver semaResponse := by
  refine ⟨⟨⟨analysingDriver.scheduler, [0], none⟩, ?_, rfl⟩, rfl, rfl, ?_⟩
  · refine ⟨{ scheduler := Scheduler.initializeWorkers {} 1 id }, [.queueSemaTask { index := 0 },
      .assignJobsToIdleWorkers ⟨fun _ => true, fun _ => 5⟩], ⟨1, id, rfl⟩, ?_⟩
    exact .cons (.queueSemaTask (by decide) (by simp)) (.cons .assignJobsToIdleWorkers (.nil _))
  · rintro ⟨driver', hok, -⟩
    have herror : processWorkerResponse oversizedEnv analysingDriver semaResponse =
        .error .badOptionalAccess := rfl
    rw [herror] at hok
    cases hok

end Driver

end ScipClang
