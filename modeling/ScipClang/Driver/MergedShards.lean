import ScipClang.Driver.LoopAssertions
import ScipClang.Driver.ShardOrder
import ScipClang.Worker.Run

/-!
# The translation units of the merged shards

While it merges the shards, the driver reports the path of the translation unit of each of
them.  It has kept only the paths of the shards, so it reads the number of the task off the
name and looks up the job (`Scheduler::getTuPath`), which is expected to be there.

* `ShardsQueued.step`: every shard in the list is that of a command that was queued.
* `mergedJobId_spec`: the job that is looked up for a shard is the semantic analysis of its
  command, in every run in which the responses come from workers.
-/

namespace ScipClang

/-! ## Where the shards are -/

/-- `DriverOptions::temporaryOutputDir`.  `addWorkerOptions` checks that it is not empty. -/
structure TemporaryOutputDir where
  value : Str
  nonempty : value ≠ []

theorem stdPathJoin_ne_nil (dir : Str) {name : Str} (hname : name ≠ []) :
    stdPathJoin dir name ≠ [] := by
  unfold stdPathJoin
  split
  · exact List.append_ne_nil_of_right_ne_nil dir hname
  · exact List.append_ne_nil_of_right_ne_nil dir (List.cons_ne_nil separator name)

/-- The directory in the constructor of `DriverOptions`: without an option, it is put into the
directory for temporary files. -/
def TemporaryOutputDir.create (cliTemporaryOutputDir tempDirectoryPath driverId : Str) :
    TemporaryOutputDir :=
  if hempty : cliTemporaryOutputDir = [] then
    { value := stdPathJoin
        (if tempDirectoryPath = [] then "scip-clang-temporary-output".toList
          else tempDirectoryPath)
        ("scip-clang-".toList ++ driverId)
      nonempty := stdPathJoin_ne_nil _ (List.append_ne_nil_of_left_ne_nil (by decide) driverId) }
  else ⟨cliTemporaryOutputDir, hempty⟩

/-- A response that a worker with this directory sends in some run. -/
def SentByWorker (dir : TemporaryOutputDir) (response : IndexJobResponse) : Prop :=
  ∃ (env : WorkerEnv) (options : WorkerOptions) (queues : MessageQueuePair) (rounds : Nat)
    (stopped : Bool) (worker : Worker), options.temporaryOutputDir = dir.value ∧
      queues.workerToDriver = [] ∧
      Worker.run env rounds (.forDriver options queues) = .ok (stopped, worker) ∧
      response ∈ worker.sent

theorem SentByWorker.shardPaths {dir : TemporaryOutputDir} {response : IndexJobResponse}
    (h : SentByWorker dir response) (hkind : response.result.kind = .EmitIndex) :
    response.result.emitIndex.shardPaths =
      (Shard.mk response.jobId.taskId response.workerId).paths dir.value := by
  obtain ⟨env, options, queues, rounds, stopped, worker, hdir, hsent, hran, hmem⟩ := h
  have hresponds := Worker.respondsWith_of_mem_sent hsent hran hmem
  rw [hresponds.shardPaths hkind, hresponds.workerId, ← hdir]

/-! ## The shards in a run -/

/-- Responses that the driver would take a shard from come from workers. -/
def FromWorkers (dir : TemporaryOutputDir) (_ : LoopState) : LoopLabel → Prop
  | .respond response => response.result.kind = .EmitIndex → SentByWorker dir response
  | .top => True
  | .terminate _ => True

/-- Every shard is that of a command that was queued. -/
def ShardsQueued (dir : TemporaryOutputDir) (st : LoopState) : Prop :=
  ∀ paths ∈ st.driver.shardPaths, ∃ cmd ∈ st.queued, ∃ workerId,
    paths = (Shard.mk (Scheduler.semaJobId cmd).taskId workerId).paths dir.value

section Run

variable {env : DriverEnv} {all : List CommandObject} {dir : TemporaryOutputDir}
  {st st' : LoopState}

theorem ShardsQueued.of_subset (h : ShardsQueued dir st)
    (hpaths : st'.driver.shardPaths = st.driver.shardPaths) (hqueued : st.queued ⊆ st'.queued) :
    ShardsQueued dir st' := by
  intro paths hmem
  obtain ⟨cmd, hcmd, hshard⟩ := h paths (hpaths ▸ hmem)
  exact ⟨cmd, hqueued hcmd, hshard⟩

theorem ShardsQueued.start (dir : TemporaryOutputDir) {options : DriverOptions}
    {database : CompilationDatabase} {spawnWorker : WorkerId → Process}
    (h : LoopState.start env options database spawnWorker = some st) : ShardsQueued dir st := by
  simp only [LoopState.start] at h
  split at h
  · cases h
  · rw [← Option.some.inj h]
    exact fun paths hmem => absurd hmem List.not_mem_nil

theorem ShardsQueued.loopTop (h : ShardsQueued dir st) : ShardsQueued dir (st.loopTop env) := by
  by_cases hexit : st.driver.scheduler.pendingJobs = [] ∧ st.driver.scheduler.wipJobs = ∅
  · rw [LoopState.loopTop_of_exit hexit]
    exact h
  · rw [LoopState.loopTop_of_not_exit hexit]
    have hrefilled : ShardsQueued dir (st.refilled env) := by
      unfold LoopState.refilled
      split
      · exact h.of_subset rfl (List.subset_append_left _ _)
      · exact h
    exact hrefilled

/-- The job whose index is emitted belongs to a command. -/
theorem LoopInv.exists_queued (h : LoopInv env all st) {response : IndexJobResponse}
    (hexpects : st.Expects response) :
    ∃ cmd ∈ st.queued, response.jobId.taskId = (Scheduler.semaJobId cmd).taskId := by
  obtain ⟨⟨t, ht, -, -⟩, -⟩ := hexpects
  exact h.known response.jobId t.job (Scheduler.trackedJob_eq_some.mpr ⟨t, ht, rfl⟩)

theorem ShardsQueued.step (hloop : LoopInv env all st) (h : ShardsQueued dir st) {l : LoopLabel}
    (hworkers : FromWorkers dir st l) (hstep : LoopStep env st l st') : ShardsQueued dir st' := by
  cases hstep with
  | top _ => exact h.loopTop
  | @respond response driver _ hexpects hok =>
      rcases Driver.processWorkerResponse_cases (fun _ => rfl)
        (Driver.processWorkerResponse_accepting hok) with
        ⟨-, rfl⟩ | ⟨-, -, planner, files, now, rfl⟩ | ⟨-, hemit, statistics, rfl⟩
      · exact h
      · exact h
      · intro paths hmem
        rcases List.mem_append.mp hmem with hold | hnew
        · exact h paths hold
        · obtain ⟨cmd, hcmd, htask⟩ := hloop.exists_queued hexpects
          refine ⟨cmd, hcmd, response.workerId, ?_⟩
          rw [List.mem_singleton.mp hnew, (hworkers hemit).shardPaths hemit, htask]
  | terminate _ hok =>
      refine h.of_subset ?_ (List.Subset.refl _)
      simp only [Driver.terminateLongRunningWorkersAndRespawn] at hok
      split at hok
      · cases hok
      · rw [← Except.ok.inj hok]

end Run

/-! ## The job that is looked up -/

/-- `Driver::mergeShardsAndEmit`: the job whose path is reported for a shard. -/
def mergedJobId (paths : ShardPaths) : Option JobId :=
  ((fileName paths.docsAndExternals.value).bind tryParseJobId).map JobId.newTask

theorem mergedJobId_paths (dir : TemporaryOutputDir) (shard : Shard) :
    mergedJobId (shard.paths dir.value) = some (.newTask shard.taskId) := by
  unfold mergedJobId
  rw [(tryParseJobId_paths dir.nonempty shard).1, Option.map_some]

theorem mem_emitScipIndex {shardPaths : List ShardPaths} {deterministic : Bool}
    {paths : ShardPaths} :
    paths ∈ emitScipIndex shardPaths deterministic ↔ paths ∈ shardPaths := by
  unfold emitScipIndex
  split
  · exact List.mem_mergeSort
  · exact Iff.rfl

/-- The job that is looked up for a shard is the semantic analysis of its command. -/
theorem ShardsQueued.mergedJobId {env : DriverEnv} {all : List CommandObject}
    {dir : TemporaryOutputDir} {st : LoopState} (hloop : LoopInv env all st)
    (h : ShardsQueued dir st) {paths : ShardPaths} (hmem : paths ∈ st.driver.shardPaths) :
    ∃ cmd ∈ st.queued, ∃ t, ScipClang.mergedJobId paths = some (Scheduler.semaJobId cmd) ∧
      st.driver.scheduler.allJobList (Scheduler.semaJobId cmd) = some t ∧
      t.job.kind = .SemanticAnalysis ∧
      st.driver.scheduler.getTuPath (Scheduler.semaJobId cmd) = some cmd.filePath := by
  obtain ⟨cmd, hcmd, workerId, rfl⟩ := h paths hmem
  obtain ⟨t, ht, hjob⟩ := Scheduler.trackedJob_eq_some.mp (hloop.tracked cmd hcmd)
  refine ⟨cmd, hcmd, t, mergedJobId_paths dir _, ht, by rw [hjob]; rfl, ?_⟩
  rw [Scheduler.getTuPath, ht, Option.map_some, hjob]
  rfl

/-- **The names of shards decode to their tasks**, so that a job is found for every shard that
is merged after a run. -/
theorem merged_shards_decode (dir : TemporaryOutputDir) {env : DriverEnv}
    {options : DriverOptions} {database : CompilationDatabase} {spawnWorker : WorkerId → Process}
    {st₀ st : LoopState} {ls : List LoopLabel}
    (hinit : (driverLoop env options database spawnWorker).init st₀)
    (hrun : ((driverLoop env options database spawnWorker).restrict (FromWorkers dir)).Run
      st₀ ls st) (deterministic : Bool) :
    (∀ taskId workerId,
      (fileName ((Shard.mk taskId workerId).paths dir.value).docsAndExternals.value).bind
          tryParseJobId = some taskId ∧
        (fileName ((Shard.mk taskId workerId).paths dir.value).forwardDecls.value).bind
          tryParseJobId = some taskId) ∧
    ∀ paths ∈ emitScipIndex st.driver.shardPaths deterministic,
      ∃ cmd ∈ st.queued, ∃ t, mergedJobId paths = some (Scheduler.semaJobId cmd) ∧
        st.driver.scheduler.allJobList (Scheduler.semaJobId cmd) = some t ∧
        t.job.kind = .SemanticAnalysis ∧
        st.driver.scheduler.getTuPath (Scheduler.semaJobId cmd) = some cmd.filePath := by
  refine ⟨fun taskId workerId => tryParseJobId_paths dir.nonempty ⟨taskId, workerId⟩, ?_⟩
  have hall := distinctJobs_databaseCommands env options database
  obtain ⟨hloop, hqueued⟩ : LoopInv env (databaseCommands env options database) st ∧
      ShardsQueued dir st := by
    refine hrun.preserves
      (I := fun st => LoopInv env (databaseCommands env options database) st ∧
        ShardsQueued dir st) ?_ ⟨LoopInv.start hinit, ShardsQueued.start dir hinit⟩
    rintro s l s' ⟨hloop, hqueued⟩ ⟨hworkers, hstep⟩
    exact ⟨hloop.step_anySends hall hstep, hqueued.step hloop hworkers hstep⟩
  intro paths hmem
  exact hqueued.mergedJobId hloop (mem_emitScipIndex.mp hmem)

/-- A directory for shards. -/
def shardsDir : TemporaryOutputDir := .create [] "/tmp".toList "7".toList

/-- What the worker of `oneFile` sends in the end. -/
def emitResponse : IndexJobResponse :=
  ⟨0, (JobId.newTask 0).nextSubtask, { kind := .EmitIndex, emitIndex :=
    { shardPaths := (Shard.mk 0 0).paths shardsDir.value } }⟩

theorem emitResponse_sent : SentByWorker shardsDir emitResponse :=
  ⟨{ semaResult := fun _ => some {}, tuIndexingOutput := fun _ _ => {}, canOpen := fun _ => true
     canSend := fun _ => true, totalTimeMicros := fun _ => 0 },
    { mode := .Ipc, temporaryOutputDir := shardsDir.value },
    { driverToWorker := [.request ⟨.newTask 0, Scheduler.semaJob { filePath := "a.cc".toList }⟩,
        .request ⟨(JobId.newTask 0).nextSubtask, Driver.emitJob []⟩] },
    1, false, _, rfl, rfl, rfl, List.mem_cons_of_mem _ List.mem_cons_self⟩

/-- One translation unit is analysed and indexed, and then its shard is merged. -/
theorem merged_shards_decode_oneFile : ∃ st₀ st ls,
    (driverLoop succeedingEnv oneWorker oneFile id).init st₀ ∧
      ((driverLoop succeedingEnv oneWorker oneFile id).restrict (FromWorkers shardsDir)).Run
        st₀ ls st ∧
      (∀ taskId workerId,
        (fileName ((Shard.mk taskId workerId).paths shardsDir.value).docsAndExternals.value).bind
            tryParseJobId = some taskId ∧
          (fileName ((Shard.mk taskId workerId).paths shardsDir.value).forwardDecls.value).bind
            tryParseJobId = some taskId) ∧
      ∀ paths ∈ emitScipIndex st.driver.shardPaths true,
        ∃ cmd ∈ st.queued, ∃ t, mergedJobId paths = some (Scheduler.semaJobId cmd) ∧
          st.driver.scheduler.allJobList (Scheduler.semaJobId cmd) = some t ∧
          t.job.kind = .SemanticAnalysis ∧
          st.driver.scheduler.getTuPath (Scheduler.semaJobId cmd) = some cmd.filePath := by
  have hrun : ∃ st, ((driverLoop succeedingEnv oneWorker oneFile id).restrict
      (FromWorkers shardsDir)).Run
      (LoopState.refill succeedingEnv
        { driver := .openCompilationDatabase oneWorker oneFile id
          refillCount := 0, phase := .top, queued := [], handled := [] })
      [.top, .respond ⟨0, .newTask 0, { kind := .SemanticAnalysis }⟩, .respond emitResponse,
        .terminate 10, .top] st := by
    refine ⟨_, .cons ⟨trivial, .top rfl⟩ (.cons ⟨fun hkind => IndexJobKind.noConfusion hkind,
      .respond rfl ?_ rfl⟩ (.cons ⟨fun _ => emitResponse_sent, .respond rfl ?_ rfl⟩
        (.cons ⟨trivial, .terminate rfl rfl⟩ (.cons ⟨trivial, .top rfl⟩ (.nil _)))))⟩
    · exact ⟨⟨_, rfl, rfl, rfl⟩, by decide⟩
    · exact ⟨⟨_, rfl, rfl, rfl⟩, by decide⟩
  obtain ⟨st, hrun⟩ := hrun
  have hinit : (driverLoop succeedingEnv oneWorker oneFile id).init _ := rfl
  exact ⟨_, st, _, hinit, hrun, merged_shards_decode shardsDir hinit hrun true⟩

end ScipClang
