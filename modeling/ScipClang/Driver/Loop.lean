import ScipClang.Driver.Model

/-!
# The scheduling loop

`Scheduler::runJobsTillCompletionAndShutdownWorkers` alternates between its loop
top, which refills, assigns or stops, and `processOneOrMoreJobResults`, which
handles any number of responses and then terminates the workers that took too
long.  `driverLoop` is that loop as a transition system with one step for the loop
top, one for every response and one for the termination, so that its runs are the
executions of the loop under every order and batching of responses and every set
of timeouts (`run_processOneOrMoreJobResults`).

The state carries two logs that the source does not have: the commands that were
handed to `queueSemaTask`, and what handling each response did to the results.

## Main results

* `LoopInv`: the invariant of the scheduler holds, and what has been queued and
  what the parser still has to deliver are together the commands of the database.
* `all_queued_iff`: when the loop exits, all commands of the database have been
  queued exactly if `processOneOrMoreJobResults` never lets the last running job go
  while nothing is pending and the parser has commands left.
-/

namespace ScipClang

/-- Where in the loop the driver is. -/
inductive Phase where
  | top
  /-- Inside `processOneOrMoreJobResults`. -/
  | receiving
  | done
deriving DecidableEq

/-- What the driver did with a response: whether the worker had been terminated
before, which shard paths were appended, and by how much `indexedSoFar` grew. -/
structure Handled where
  response : IndexJobResponse
  late : Bool
  appended : List ShardPaths
  counted : Nat
deriving DecidableEq

/-- The state of the loop. -/
structure LoopState where
  driver : Driver
  refillCount : Nat
  phase : Phase
  /-- The commands handed to `queueSemaTask` so far. -/
  queued : List CommandObject
  /-- The responses handled so far. -/
  handled : List Handled

namespace LoopState

variable (env : DriverEnv)

/-- `refillCount = callbacks.refillJobs()`. -/
def refill (st : LoopState) : LoopState :=
  let (driver, commands) := st.driver.refillJobs env
  { st with driver, refillCount := commands.length, queued := st.queued ++ commands }

/-- The loop body between the refill and `processOneOrMoreJobResults`. -/
def assignOrShutdown (scheduler : Scheduler) : Scheduler :=
  if scheduler.idleWorkers = [] then scheduler
  else if scheduler.pendingJobs = [] then scheduler.shutdownIdleWorkers
  else scheduler.assignJobsToIdleWorkers env.send

/-- The loop body up to `processOneOrMoreJobResults`. -/
def loopTop (st : LoopState) : LoopState :=
  if st.driver.scheduler.pendingJobs = [] ∧ st.driver.scheduler.wipJobs = ∅ then
    { st with
      driver := { st.driver with scheduler := st.driver.scheduler.shutdownIdleWorkers }
      phase := .done }
  else
    let st :=
      if st.driver.scheduler.pendingJobs = [] ∧ st.refillCount ≠ 0 then st.refill env else st
    { st with
      driver := { st.driver with scheduler := assignOrShutdown env st.driver.scheduler }
      phase := .receiving }

/-- The state in which the loop is entered.  Without a first command the driver reports
that the database has no entries that could be processed, and exits. -/
def start (options : DriverOptions) (database : CompilationDatabase)
    (spawnWorker : WorkerId → Process) : Option LoopState :=
  let st := refill env
    { driver := .openCompilationDatabase options database spawnWorker
      refillCount := 0, phase := .top, queued := [], handled := [] }
  if st.refillCount = 0 then none else some st

/-- A response that the workers can send: the job was assigned to that worker, the result
is of the kind of the job, and the job has not been answered before. -/
def Expects (st : LoopState) (response : IndexJobResponse) : Prop :=
  (∃ t, st.driver.scheduler.allJobList response.jobId = some t ∧
    t.assignedWorker = some response.workerId ∧ t.job.kind = response.result.kind) ∧
  ∀ h ∈ st.handled, h.response.jobId ≠ response.jobId

/-- The log entry for a response that took the driver from one state to another. -/
def logEntry (driver driver' : Driver) (response : IndexJobResponse) : Handled where
  response := response
  late := driver.scheduler.jobOf response.workerId ≠ some response.jobId
  appended := driver'.shardPaths.drop driver.shardPaths.length
  counted := driver'.indexedSoFar - driver.indexedSoFar

end LoopState

/-- The steps of the loop. -/
inductive LoopLabel where
  | top
  | respond (response : IndexJobResponse)
  | terminate (startedBefore : Instant)

/-- One step of the loop. -/
inductive LoopStep (env : DriverEnv) : LoopState → LoopLabel → LoopState → Prop
  | top {st : LoopState} : st.phase = .top → LoopStep env st .top (st.loopTop env)
  | respond {st : LoopState} {response : IndexJobResponse} {driver : Driver} :
      st.phase = .receiving → st.Expects response →
      st.driver.processWorkerResponse env response = .ok driver →
      LoopStep env st (.respond response)
        { st with
          driver
          handled := st.handled ++ [LoopState.logEntry st.driver driver response] }
  | terminate {st : LoopState} {startedBefore : Instant} {driver : Driver} :
      st.phase = .receiving →
      st.driver.terminateLongRunningWorkersAndRespawn env startedBefore = .ok driver →
      LoopStep env st (.terminate startedBefore) { st with driver, phase := .top }

/-- The scheduling loop of a driver for a compilation database. -/
def driverLoop (env : DriverEnv) (options : DriverOptions) (database : CompilationDatabase)
    (spawnWorker : WorkerId → Process) : TransitionSystem LoopState LoopLabel where
  init st := LoopState.start env options database spawnWorker = some st
  step := LoopStep env

/-! ## The invariant of the loop -/

/-- The scheduler is consistent, and the commands queued so far and those that the parser
has yet to deliver make up `all`. -/
structure LoopInv (env : DriverEnv) (all : List CommandObject) (st : LoopState) : Prop where
  inv : st.driver.scheduler.Inv
  split : all = st.queued ++ st.driver.undelivered env
  tracked : ∀ cmd ∈ st.queued,
    st.driver.scheduler.trackedJob (Scheduler.semaJobId cmd) = some (Scheduler.semaJob cmd)
  known : ∀ j job, st.driver.scheduler.trackedJob j = some job →
    ∃ cmd ∈ st.queued, j.taskId = (Scheduler.semaJobId cmd).taskId

/-- The commands have pairwise different job ids. -/
def DistinctJobs (all : List CommandObject) : Prop :=
  all.Pairwise fun c d => Scheduler.semaJobId c ≠ Scheduler.semaJobId d

namespace LoopInv

variable {env : DriverEnv} {all : List CommandObject} {st : LoopState}

/-- A command that has not been delivered is not in the table of jobs. -/
theorem unknown_of_undelivered (h : LoopInv env all st) (hall : DistinctJobs all)
    {cmd : CommandObject} (hcmd : cmd ∈ st.driver.undelivered env) :
    st.driver.scheduler.trackedJob (Scheduler.semaJobId cmd) = none := by
  cases hjob : st.driver.scheduler.trackedJob (Scheduler.semaJobId cmd) with
  | none => rfl
  | some job =>
      obtain ⟨cmd', hcmd', htask⟩ := h.known _ job hjob
      have hdistinct := hall
      rw [DistinctJobs, h.split, List.pairwise_append] at hdistinct
      have heq : Scheduler.semaJobId cmd' = Scheduler.semaJobId cmd :=
        congrArg JobId.newTask htask.symm
      exact absurd heq (hdistinct.2.2 cmd' hcmd' cmd hcmd)

/-- The invariant depends on the scheduler only through its own invariant and the jobs. -/
theorem of_trackedJob_eq (h : LoopInv env all st) {st' : LoopState}
    (hinv : st'.driver.scheduler.Inv)
    (hjobs : st'.driver.scheduler.trackedJob = st.driver.scheduler.trackedJob)
    (hqueued : st'.queued = st.queued)
    (hleft : st'.driver.undelivered env = st.driver.undelivered env) : LoopInv env all st' := by
  refine ⟨hinv, ?_, ?_, ?_⟩
  · rw [hqueued, hleft]
    exact h.split
  · rw [hqueued, hjobs]
    exact h.tracked
  · rw [hqueued, hjobs]
    exact h.known

theorem undelivered_refill : st.driver.undelivered env =
    (st.driver.refillJobs env).2 ++ (st.refill env).driver.undelivered env :=
  ResumableParser.yields_parseMore env.parser st.driver.parseOptions st.driver.compdbParser

/-- The commands of a refill have not been queued before. -/
theorem fresh_refill (h : LoopInv env all st) (hall : DistinctJobs all) :
    st.driver.scheduler.Fresh (st.driver.refillJobs env).2 := by
  have hdistinct := hall
  rw [DistinctJobs, h.split, undelivered_refill, List.pairwise_append,
    List.pairwise_append] at hdistinct
  refine ⟨?_, hdistinct.2.1.1⟩
  intro cmd hcmd
  rw [← Scheduler.trackedJob_eq_none]
  exact h.unknown_of_undelivered hall (by rw [undelivered_refill]; simp [hcmd])

theorem refill (h : LoopInv env all st) (hall : DistinctJobs all) :
    LoopInv env all (st.refill env) := by
  have hqueue := Scheduler.foldl_queueSemaTask_preserves
    (P := fun s queued => s.Inv ∧
      (∀ cmd ∈ queued, s.trackedJob (Scheduler.semaJobId cmd) = some (Scheduler.semaJob cmd)) ∧
      (∀ j job, s.trackedJob j = some job →
        ∃ cmd ∈ queued, j.taskId = (Scheduler.semaJobId cmd).taskId))
    ?_ (st.driver.refillJobs env).2 st.driver.scheduler st.queued (h.fresh_refill hall)
    ⟨h.inv, h.tracked, h.known⟩
  · refine ⟨hqueue.1, ?_, hqueue.2.1, hqueue.2.2⟩
    rw [h.split, undelivered_refill, ← List.append_assoc]
    rfl
  · rintro s cmd queued ⟨hinv, htracked, hknown⟩ hnew
    refine ⟨hinv.queueSemaTask hnew, ?_, ?_⟩
    · intro c hc
      rw [Scheduler.trackedJob_queueSemaTask hnew]
      rcases List.mem_append.mp hc with hc | hc
      · have hne : Scheduler.semaJobId c ≠ Scheduler.semaJobId cmd := by
          intro heq
          have hjob := htracked c hc
          rw [heq, Scheduler.trackedJob_eq_none.mpr hnew] at hjob
          cases hjob
        rw [if_neg hne, htracked c hc]
      · rw [List.mem_singleton] at hc
        rw [hc, if_pos rfl]
    · intro j job hjob
      rw [Scheduler.trackedJob_queueSemaTask hnew] at hjob
      by_cases hj : j = Scheduler.semaJobId cmd
      · exact ⟨cmd, by simp, by rw [hj]⟩
      · rw [if_neg hj] at hjob
        obtain ⟨c, hc, htask⟩ := hknown j job hjob
        exact ⟨c, by simp [hc], htask⟩

variable (env) in
theorem assignOrShutdown {s : Scheduler} (h : s.Inv) :
    (LoopState.assignOrShutdown env s).Inv ∧
      (LoopState.assignOrShutdown env s).trackedJob = s.trackedJob := by
  unfold LoopState.assignOrShutdown
  split
  · exact ⟨h, rfl⟩
  · split
    · exact ⟨h.shutdownIdleWorkers, Scheduler.trackedJob_shutdownIdleWorkers⟩
    · exact ⟨h.assignJobsToIdleWorkers env.send,
        Scheduler.trackedJob_assignJobsToIdleWorkers env.send⟩

theorem loopTop (h : LoopInv env all st) (hall : DistinctJobs all) :
    LoopInv env all (st.loopTop env) := by
  unfold LoopState.loopTop
  split
  · exact h.of_trackedJob_eq h.inv.shutdownIdleWorkers Scheduler.trackedJob_shutdownIdleWorkers
      rfl rfl
  · have hrefilled : LoopInv env all
        (if st.driver.scheduler.pendingJobs = [] ∧ st.refillCount ≠ 0 then st.refill env
          else st) := by
      split
      · exact h.refill hall
      · exact h
    obtain ⟨hinv, hjobs⟩ := assignOrShutdown env hrefilled.inv
    exact hrefilled.of_trackedJob_eq hinv hjobs rfl rfl

theorem respond (h : LoopInv env all st) (hsend : ∀ j, env.send.sendOk j = true)
    {response : IndexJobResponse} (hexpects : st.Expects response) {driver : Driver}
    (hok : st.driver.processWorkerResponse env response = .ok driver) {st' : LoopState}
    (hdriver : st'.driver = driver) (hqueued : st'.queued = st.queued) :
    LoopInv env all st' := by
  obtain ⟨⟨t, ht, hassigned, hkind⟩, -⟩ := hexpects
  rcases Driver.processWorkerResponse_cases hsend hok with
    ⟨-, rfl⟩ | ⟨hlive, hsema, planner, files, now, rfl⟩ | ⟨hlive, -, statistics, rfl⟩
  · refine h.of_trackedJob_eq ?_ (by rw [hdriver]; rfl) hqueued (by rw [hdriver]; rfl)
    rw [hdriver]
    exact h.inv.late response.jobId
  · rw [hsema] at hkind
    have hunknown := Scheduler.nextSubtask_unknown_of_running h.inv hlive ht hkind
    refine ⟨?_, ?_, ?_, ?_⟩
    · rw [hdriver]
      exact h.inv.analysed hlive ht hkind rfl
    · rw [hdriver, hqueued]
      exact h.split
    · intro cmd hcmd
      rw [hqueued] at hcmd
      rw [hdriver]
      refine (Scheduler.trackedJob_analysed hunknown _).trans ?_
      rw [if_neg, h.tracked cmd hcmd]
      exact (JobId.nextSubtask_ne_newTask_of_zero
        (Scheduler.subtaskId_of_sema h.inv ht hkind) _).symm
    · intro j job hjob
      rw [hdriver] at hjob
      rw [hqueued]
      replace hjob := (Scheduler.trackedJob_analysed hunknown j).symm.trans hjob
      by_cases hj : j = response.jobId.nextSubtask
      · rw [hj]
        exact h.known response.jobId t.job (Scheduler.trackedJob_eq_some.mpr ⟨t, ht, rfl⟩)
      · rw [if_neg hj] at hjob
        exact h.known j job hjob
  · refine h.of_trackedJob_eq ?_ ?_ hqueued (by rw [hdriver]; rfl)
    · rw [hdriver]
      exact h.inv.markCompleted _ _
    · rw [hdriver]
      exact Scheduler.trackedJob_markCompleted _ _

theorem terminate (h : LoopInv env all st) {startedBefore : Instant} {driver : Driver}
    (hok : st.driver.terminateLongRunningWorkersAndRespawn env startedBefore = .ok driver)
    {st' : LoopState} (hdriver : st'.driver = driver) (hqueued : st'.queued = st.queued) :
    LoopInv env all st' := by
  obtain ⟨s', hs', ⟨hinv, hjobs⟩, -⟩ := Scheduler.terminateLongRunning_preserves
    (P := fun s => s.Inv ∧ s.trackedJob = st.driver.scheduler.trackedJob)
    startedBefore env.terminateAndRespawn
    (fun _ h => h.1) (fun _ _ _ handle h _ hw => ⟨h.1.terminate hw handle, h.2⟩) ⟨h.inv, rfl⟩
  simp only [Driver.terminateLongRunningWorkersAndRespawn, hs', Except.ok.injEq] at hok
  subst hok
  exact h.of_trackedJob_eq (by rw [hdriver]; exact hinv) (by rw [hdriver]; exact hjobs) hqueued
    (by rw [hdriver]; rfl)

theorem step (h : LoopInv env all st) (hall : DistinctJobs all)
    (hsend : ∀ j, env.send.sendOk j = true) {l : LoopLabel} {st' : LoopState}
    (hstep : LoopStep env st l st') :
    LoopInv env all st' := by
  cases hstep with
  | top _ => exact h.loopTop hall
  | respond _ hexpects hok => exact h.respond hsend hexpects hok rfl rfl
  | terminate _ hok => exact h.terminate hok rfl rfl

end LoopInv

/-- The commands of a database, as the parser of the driver delivers them. -/
def databaseCommands (env : DriverEnv) (options : DriverOptions)
    (database : CompilationDatabase) : List CommandObject :=
  (Driver.openCompilationDatabase options database id).undelivered env

/-- The commands of a database have different job ids, because the reader cannot deliver
more objects than there are task ids. -/
theorem distinctJobs_databaseCommands (env : DriverEnv) (options : DriverOptions)
    (database : CompilationDatabase) :
    DistinctJobs (databaseCommands env options database) := by
  obtain ⟨commands, hcount⟩ := database
  set parseOptions := ParseOptions.create
    (Driver.refillCount (min commands.length options.numWorkers)) options.isTesting
  have hlt : ∀ cmd ∈ ResumableParser.keptFrom env.parser parseOptions 0 commands,
      cmd.index < 2 ^ 32 := by
    intro cmd hcmd
    have hindex := ResumableParser.index_of_mem_keptFrom env.parser parseOptions commands 0 cmd hcmd
    omega
  have hpair := ResumableParser.pairwise_index_keptFrom env.parser parseOptions commands 0
  show ((ResumableParser.keptFrom env.parser parseOptions 0 commands).map _).Pairwise _
  rw [List.pairwise_map]
  refine hpair.imp_of_mem ?_
  intro c d hc hd hlt' heq
  have hmod : c.index % 2 ^ 32 = d.index % 2 ^ 32 := by
    simpa using congrArg UInt32.toNat (JobId.newTask_injective heq)
  have hc' := hlt c hc
  have hd' := hlt d hd
  omega

theorem LoopInv.opened (env : DriverEnv) (options : DriverOptions)
    (database : CompilationDatabase) (spawnWorker : WorkerId → Process) :
    LoopInv env (databaseCommands env options database)
      { driver := .openCompilationDatabase options database spawnWorker
        refillCount := 0, phase := .top, queued := [], handled := [] } := by
  refine ⟨Scheduler.Inv.initializeWorkers _ spawnWorker, rfl, by simp, ?_⟩
  intro j job hjob
  simp [Scheduler.trackedJob, Driver.openCompilationDatabase, Scheduler.initializeWorkers] at hjob

theorem LoopInv.start {env : DriverEnv} {options : DriverOptions} {database : CompilationDatabase}
    {spawnWorker : WorkerId → Process} {st : LoopState}
    (h : LoopState.start env options database spawnWorker = some st) :
    LoopInv env (databaseCommands env options database) st := by
  have hrefilled := (LoopInv.opened env options database spawnWorker).refill
    (distinctJobs_databaseCommands env options database)
  simp only [LoopState.start] at h
  split at h
  · cases h
  · rw [Option.some.injEq] at h
    rw [← h]
    exact hrefilled

/-- The steps of `driverLoop` execute `processOneOrMoreJobResults`. -/
theorem run_processOneOrMoreJobResults {env : DriverEnv} {options : DriverOptions}
    {database : CompilationDatabase} {spawnWorker : WorkerId → Process}
    (responses : List IndexJobResponse) (startedBefore : Instant) :
    ∀ {st st' : LoopState}, (driverLoop env options database spawnWorker).Run st
        (responses.map .respond ++ [.terminate startedBefore]) st' →
      st.driver.processOneOrMoreJobResults env responses startedBefore = .ok st'.driver ∧
        st'.phase = .top := by
  induction responses with
  | nil =>
      intro st st' hrun
      cases hrun with
      | cons hstep hrest =>
          cases hstep with
          | terminate _ hok =>
              cases hrest
              exact ⟨hok, rfl⟩
  | cons response responses ih =>
      intro st st' hrun
      cases hrun with
      | cons hstep hrest =>
          cases hstep with
          | respond _ _ hok =>
              obtain ⟨hrest', htop⟩ := ih hrest
              refine ⟨?_, htop⟩
              rw [← hrest']
              simp only [Driver.processOneOrMoreJobResults, List.foldlM_cons, hok]
              rfl

/-! ## No command is dropped -/

/-- The termination at the end of `processOneOrMoreJobResults` does not end the loop early:
jobs are pending, the parser has nothing left, or some busy worker is within its time. -/
def KeepsGoing (env : DriverEnv) (st : LoopState) : LoopLabel → Prop
  | .terminate startedBefore =>
      st.driver.scheduler.pendingJobs ≠ [] ∨ st.driver.undelivered env = [] ∨
        ∃ (w : WorkerId) (info : WorkerInfo), st.driver.scheduler.workers[w]? = some info ∧
          info.status = .Busy ∧ ¬ info.startTime < startedBefore
  | .top => True
  | .respond _ => True

/-- The loop cannot exit from here with commands left. -/
def Covered (env : DriverEnv) (st : LoopState) : Prop :=
  match st.phase with
  | .top => st.driver.scheduler.pendingJobs ≠ [] ∨ st.driver.scheduler.wipJobs ≠ ∅ ∨
      st.driver.undelivered env = []
  | .receiving => True
  | .done => st.driver.undelivered env = []

/-- The loop is about to exit, or has exited, with commands left. -/
def Doomed (env : DriverEnv) (st : LoopState) : Prop :=
  st.driver.undelivered env ≠ [] ∧
    (st.phase = .done ∨ st.phase = .top ∧ st.driver.scheduler.pendingJobs = [] ∧
      st.driver.scheduler.wipJobs = ∅)

section NoCommandDropped

variable {env : DriverEnv} {all : List CommandObject} {st st' : LoopState}

/-- What the termination leaves behind. -/
theorem terminate_spec (h : LoopInv env all st) {startedBefore : Instant} {driver : Driver}
    (hok : st.driver.terminateLongRunningWorkersAndRespawn env startedBefore = .ok driver) :
    driver.undelivered env = st.driver.undelivered env ∧
      driver.scheduler.pendingJobs = st.driver.scheduler.pendingJobs ∧
      (driver.scheduler.wipJobs = ∅ ↔
        ∀ (w : WorkerId) (info : WorkerInfo), st.driver.scheduler.workers[w]? = some info →
          info.status = .Busy → info.startTime < startedBefore) := by
  obtain ⟨s', hs', ⟨-, hpending⟩, -⟩ := Scheduler.terminateLongRunning_preserves
    (P := fun s => s.Inv ∧ s.pendingJobs = st.driver.scheduler.pendingJobs)
    startedBefore env.terminateAndRespawn
    (fun _ h => h.1) (fun _ _ _ handle h _ hw => ⟨h.1.terminate hw handle, h.2⟩) ⟨h.inv, rfl⟩
  simp only [Driver.terminateLongRunningWorkersAndRespawn, hs', Except.ok.injEq] at hok
  subst hok
  exact ⟨rfl, hpending, Scheduler.wipJobs_terminateLongRunning_eq_empty h.inv hs'⟩

theorem Covered.step (h : LoopInv env all st) (hcovered : Covered env st) {l : LoopLabel}
    (hgoing : KeepsGoing env st l) (hstep : LoopStep env st l st') : Covered env st' := by
  cases hstep with
  | top hphase =>
      unfold LoopState.loopTop
      split
      · next hexit =>
        simp only [Covered, hphase] at hcovered
        simp only [Covered]
        rcases hcovered with hpending | hwip | hleft
        · exact absurd hexit.1 hpending
        · exact absurd hexit.2 hwip
        · exact hleft
      · simp only [Covered]
  | respond hphase _ _ => simp only [Covered, hphase]
  | terminate _ hok =>
      obtain ⟨hleft, hpending, hwip⟩ := terminate_spec h hok
      simp only [Covered]
      rcases hgoing with hgoing | hgoing | ⟨w, info, hinfo, hbusy, hstart⟩
      · exact Or.inl (by rw [hpending]; exact hgoing)
      · exact Or.inr (Or.inr (by rw [hleft]; exact hgoing))
      · refine Or.inr (Or.inl fun hempty => hstart ?_)
        exact hwip.mp hempty w info hinfo hbusy

theorem Doomed.step (hdoomed : Doomed env st) {l : LoopLabel} (hstep : LoopStep env st l st') :
    Doomed env st' := by
  obtain ⟨hleft, hphase⟩ := hdoomed
  cases hstep with
  | top htop =>
      rcases hphase with hdone | ⟨-, hexit⟩
      · rw [htop] at hdone
        cases hdone
      · unfold LoopState.loopTop
        rw [if_pos hexit]
        exact ⟨hleft, Or.inl rfl⟩
  | respond hrecv _ _ =>
      rcases hphase with hdone | ⟨htop, -⟩
      · rw [hrecv] at hdone
        cases hdone
      · rw [hrecv] at htop
        cases htop
  | terminate hrecv _ =>
      rcases hphase with hdone | ⟨htop, -⟩
      · rw [hrecv] at hdone
        cases hdone
      · rw [hrecv] at htop
        cases htop

/-- A step that does not keep going dooms the run. -/
theorem doomed_of_not_keepsGoing (h : LoopInv env all st) {l : LoopLabel}
    (hgoing : ¬ KeepsGoing env st l) (hstep : LoopStep env st l st') : Doomed env st' := by
  cases hstep with
  | top _ => exact absurd trivial hgoing
  | respond _ _ _ => exact absurd trivial hgoing
  | terminate _ hok =>
      obtain ⟨hleft, hpending, hwip⟩ := terminate_spec h hok
      simp only [KeepsGoing, not_or, not_exists, not_and, not_not] at hgoing
      obtain ⟨hnone, hsome, hall⟩ := hgoing
      refine ⟨by rw [hleft]; exact hsome, Or.inr ⟨rfl, by rw [hpending]; exact hnone, ?_⟩⟩
      exact hwip.mpr hall

/-- In a state of the loop, all commands have been queued exactly if the parser has none
left. -/
theorem LoopInv.all_queued_iff_undelivered (h : LoopInv env all st) (hall : DistinctJobs all) :
    (∀ cmd ∈ all, cmd ∈ st.queued ∧ st.driver.scheduler.trackedJob (Scheduler.semaJobId cmd) =
      some (Scheduler.semaJob cmd)) ↔ st.driver.undelivered env = [] := by
  constructor
  · intro hqueued
    rw [List.eq_nil_iff_forall_not_mem]
    intro cmd hcmd
    have htracked := (hqueued cmd (by rw [h.split]; simp [hcmd])).2
    rw [h.unknown_of_undelivered hall hcmd] at htracked
    cases htracked
  · intro hnone cmd hcmd
    rw [h.split, hnone, List.append_nil] at hcmd
    exact ⟨hcmd, h.tracked cmd hcmd⟩

end NoCommandDropped

/-- The first refill has put a job into the queue. -/
theorem Covered.start {env : DriverEnv} {options : DriverOptions} {database : CompilationDatabase}
    {spawnWorker : WorkerId → Process} {st : LoopState}
    (h : LoopState.start env options database spawnWorker = some st) : Covered env st := by
  simp only [LoopState.start] at h
  split at h
  · cases h
  · next hcount =>
    rw [Option.some.injEq] at h
    subst h
    refine Or.inl ?_
    set driver := Driver.openCompilationDatabase options database spawnWorker
    show ((driver.refillJobs env).2.foldl Scheduler.queueSemaTask driver.scheduler).pendingJobs ≠ []
    have hne : (driver.refillJobs env).2 ≠ [] := fun hnil => hcount (by
      show (driver.refillJobs env).2.length = 0
      rw [hnil]
      rfl)
    obtain ⟨commands, cmd, hcommands⟩ := List.eq_nil_or_concat _ |>.resolve_left hne
    rw [hcommands, List.concat_eq_append, List.foldl_append]
    simp [Scheduler.queueSemaTask]

/-- **When the loop exits, every command of the database has been queued exactly if every
step kept going.** Sends succeed; the responses, their order and their batching, and the
timeouts are arbitrary. -/
theorem all_queued_iff {env : DriverEnv} (hsend : ∀ j, env.send.sendOk j = true)
    {options : DriverOptions} {database : CompilationDatabase} {spawnWorker : WorkerId → Process}
    {st₀ st : LoopState} {ls : List LoopLabel}
    (hinit : (driverLoop env options database spawnWorker).init st₀)
    (hrun : (driverLoop env options database spawnWorker).Run st₀ ls st)
    (hdone : st.phase = .done) :
    (∀ cmd ∈ databaseCommands env options database, cmd ∈ st.queued ∧
        st.driver.scheduler.trackedJob (Scheduler.semaJobId cmd) =
          some (Scheduler.semaJob cmd)) ↔
      ((driverLoop env options database spawnWorker).restrict (KeepsGoing env)).Run st₀ ls st := by
  have hall := distinctJobs_databaseCommands env options database
  have hinv₀ := LoopInv.start hinit
  have hinv := hrun.preserves (I := LoopInv env (databaseCommands env options database))
    (fun _ _ _ h hstep => h.step hall hsend hstep) hinv₀
  rw [hinv.all_queued_iff_undelivered hall]
  constructor
  · intro hnone
    have hcases := hrun.restrict_or (G := KeepsGoing env)
      (I := LoopInv env (databaseCommands env options database)) (D := Doomed env)
      (fun _ _ _ h hstep => h.step hall hsend hstep)
      (fun _ _ _ hdoomed hstep => hdoomed.step hstep)
      (fun _ _ _ h hgoing hstep => doomed_of_not_keepsGoing h hgoing hstep) hinv₀
    rcases hcases with hrestricted | hdoomed
    · exact hrestricted
    · exact absurd hnone hdoomed.1
  · intro hrestricted
    have hcovered : LoopInv env (databaseCommands env options database) st ∧ Covered env st := by
      refine hrestricted.preserves
        (I := fun st => LoopInv env (databaseCommands env options database) st ∧ Covered env st)
        ?_ ⟨hinv₀, Covered.start hinit⟩
      rintro s l s' ⟨h, hcov⟩ ⟨hgoing, hstep⟩
      exact ⟨h.step hall hsend hstep, hcov.step h hgoing hstep⟩
    simpa only [Covered, hdone] using hcovered.2

/-- An environment in which all sends succeed, and the jobs of the first task start at
time 5, those of the second at time 25, and so on. -/
def succeedingEnv : DriverEnv where
  parser := ⟨fun _ => true, fun _ => true, fun cmdObject => cmdObject.arguments⟩
  send := ⟨fun _ => true, fun jobId => 5 + 20 * jobId.taskId.toNat⟩
  terminateAndRespawn process _ := process + 1

/-- A driver with one worker. -/
def oneWorker : DriverOptions := ⟨⟨⟨"/p".toList⟩, .Project⟩, [], 1, true⟩

/-- A database of three translation units. -/
def threeFiles : CompilationDatabase :=
  ⟨[{ filePath := "a.cc".toList }, { filePath := "b.cc".toList }, { filePath := "c.cc".toList }],
    by decide⟩

/-- A database of one translation unit. -/
def oneFile : CompilationDatabase := ⟨[{ filePath := "a.cc".toList }], by decide⟩

/-- One translation unit is analysed and indexed, and the loop exits. -/
theorem all_queued_iff_oneFile : ∃ st₀ st ls,
    (driverLoop succeedingEnv oneWorker oneFile id).init st₀ ∧
      (driverLoop succeedingEnv oneWorker oneFile id).Run st₀ ls st ∧ st.phase = .done ∧
      ∀ cmd ∈ databaseCommands succeedingEnv oneWorker oneFile, cmd ∈ st.queued ∧
        st.driver.scheduler.trackedJob (Scheduler.semaJobId cmd) =
          some (Scheduler.semaJob cmd) := by
  have hrun : ∃ st, ((driverLoop succeedingEnv oneWorker oneFile id).restrict
      (KeepsGoing succeedingEnv)).Run
      (LoopState.refill succeedingEnv
        { driver := .openCompilationDatabase oneWorker oneFile id
          refillCount := 0, phase := .top, queued := [], handled := [] })
      [.top, .respond ⟨0, .newTask 0, { kind := .SemanticAnalysis }⟩,
        .respond ⟨0, (JobId.newTask 0).nextSubtask, { kind := .EmitIndex }⟩, .terminate 10, .top]
      st ∧ st.phase = .done := by
    refine ⟨_, .cons ⟨trivial, .top rfl⟩ (.cons ⟨trivial, .respond rfl ?_ rfl⟩ (.cons
      ⟨trivial, .respond rfl ?_ rfl⟩ (.cons ⟨Or.inr (Or.inl rfl), .terminate rfl rfl⟩
        (.cons ⟨trivial, .top rfl⟩ (.nil _))))), rfl⟩
    · exact ⟨⟨_, rfl, rfl, rfl⟩, by decide⟩
    · exact ⟨⟨_, rfl, rfl, rfl⟩, by decide⟩
  obtain ⟨st, hrun, hdone⟩ := hrun
  refine ⟨_, st, _, rfl, hrun.of_restrict, hdone, ?_⟩
  have hinit : (driverLoop succeedingEnv oneWorker oneFile id).init _ := rfl
  exact (all_queued_iff (fun _ => rfl) hinit hrun.of_restrict hdone).mpr hrun

/-- With one worker, two of three commands are queued at first.  When both time out, the loop
exits and the third command is never queued. -/
theorem drops_third_command : ∃ st₀ st ls,
    (driverLoop succeedingEnv oneWorker threeFiles id).init st₀ ∧
      (driverLoop succeedingEnv oneWorker threeFiles id).Run st₀ ls st ∧ st.phase = .done ∧
      ∃ cmd ∈ databaseCommands succeedingEnv oneWorker threeFiles, cmd ∉ st.queued := by
  refine ⟨_, _, [.top, .terminate 10, .top, .terminate 30, .top], rfl,
    .cons (.top rfl) (.cons (.terminate rfl rfl) (.cons (.top rfl)
      (.cons (.terminate rfl rfl) (.cons (.top rfl) (.nil _))))), rfl, ?_⟩
  exact ⟨{ index := 2, filePath := "c.cc".toList }, by decide, by decide⟩

end ScipClang
