import ScipClang.IpcMessages
import Mathlib.Data.Finset.Card

/-!
# The scheduler

`Scheduler` (`indexer/Driver.cc`) tracks the worker processes and the jobs: which
workers are idle, busy or stopped, which jobs wait, run or may have failed.  The
operations below follow the source function by function, as compiled in release
builds: an `ENFORCE` has no effect there and leaves no trace here.  What does
survive in release builds is `std::optional::value`, which throws on an empty
optional; `terminateRunningWorker` is therefore partial.

## Design notes

* A `std::deque` or `std::vector` is a list, a `flat_hash_set` of job ids is a
  `Finset`, and `allJobList`, which is only ever looked up, is a partial function.
* What the environment decides is passed in: the outcome of each send and the
  clock reading when a worker is marked busy (`SendEnv`), and the handle of a
  spawned process.
* A process handle is the number of the process.
-/

namespace ScipClang

/-- A point of `std::chrono::steady_clock`. -/
abbrev Instant := Nat

/-- A `boost::process::child`, by its number. -/
abbrev Process := Nat

/-- `WorkerInfo::Status`. -/
inductive WorkerStatus where
  | Busy
  | Idle
  | Stopped
deriving DecidableEq

/-- `WorkerInfo`. -/
structure WorkerInfo where
  status : WorkerStatus
  processHandle : Process
  /-- Used when `status` is `Busy`. -/
  startTime : Instant
  /-- Set when `status` is `Busy`. -/
  currentlyProcessing : Option JobId
deriving DecidableEq

/-- The constructor of `WorkerInfo`: a new worker is idle. -/
def WorkerInfo.ofProcess (newWorker : Process) : WorkerInfo where
  status := .Idle
  processHandle := newWorker
  startTime := 0
  currentlyProcessing := none

/-- `TrackedIndexJob`. -/
structure TrackedIndexJob where
  job : IndexJob
  assignedWorker : Option WorkerId
deriving DecidableEq

/-- `Scheduler`. -/
structure Scheduler where
  workers : List WorkerInfo := []
  /-- Available workers in FIFO order. -/
  idleWorkers : List WorkerId := []
  stoppedWorkers : List WorkerId := []
  /-- All jobs created so far. -/
  allJobList : JobId → Option TrackedIndexJob := fun _ => none
  /-- FIFO queue of jobs that have not been scheduled yet. -/
  pendingJobs : List JobId := []
  /-- Jobs that have been scheduled but are not known to be completed. -/
  wipJobs : Finset JobId := ∅
  /-- Jobs that may have errored out. -/
  maybeErroredJobs : Finset JobId := ∅

/-- What the environment decides about the sends of one round: whether the
request of a job can be sent, and what the clock shows when its worker is marked
busy.  No job is scheduled twice, so both are functions of the job. -/
structure SendEnv where
  sendOk : JobId → Bool
  now : JobId → Instant

/-- What can go wrong in a release build. -/
inductive SchedulerError where
  /-- `workers[workerId]` with an index that is out of range. -/
  | workerOutOfRange
  /-- `currentlyProcessing.value()` on an empty optional. -/
  | badOptionalAccess
deriving DecidableEq

namespace Scheduler

/-- `workers[w].status`. -/
def statusOf (s : Scheduler) (w : WorkerId) : Option WorkerStatus :=
  s.workers[w]?.map (·.status)

/-- `workers[w].currentlyProcessing`. -/
def jobOf (s : Scheduler) (w : WorkerId) : Option JobId :=
  s.workers[w]?.bind (·.currentlyProcessing)

/-- `Scheduler::initializeWorkers`. -/
def initializeWorkers (s : Scheduler) (numWorkers : Nat) (spawn : WorkerId → Process) :
    Scheduler :=
  { s with
    workers := (List.range numWorkers).map fun workerId => .ofProcess (spawn workerId)
    idleWorkers := s.idleWorkers ++ List.range numWorkers }

/-- `Scheduler::markWorkerIdle`. -/
def markWorkerIdle (s : Scheduler) (workerId : WorkerId) : Scheduler :=
  { s with
    workers := s.workers.modify workerId fun workerInfo =>
      { workerInfo with currentlyProcessing := none, status := .Idle }
    idleWorkers := workerId :: s.idleWorkers }

/-- `Scheduler::markWorkerBusy`. -/
def markWorkerBusy (s : Scheduler) (workerId : WorkerId) (newJobId : JobId) (now : Instant) :
    Scheduler :=
  { s with
    workers := s.workers.modify workerId fun workerInfo =>
      { workerInfo with
        status := .Busy, currentlyProcessing := some newJobId, startTime := now } }

/-- `Scheduler::markWorkerStopped`. -/
def markWorkerStopped (s : Scheduler) (workerId : WorkerId) : Scheduler :=
  { s with
    workers := s.workers.modify workerId fun workerInfo => { workerInfo with status := .Stopped }
    stoppedWorkers := s.stoppedWorkers ++ [workerId] }

/-- `allJobList.emplace`: an entry that exists is kept. -/
def emplaceJob (s : Scheduler) (jobId : JobId) (job : IndexJob) : Scheduler :=
  match s.allJobList jobId with
  | some _ => s
  | none => { s with allJobList := Function.update s.allJobList jobId (some ⟨job, none⟩) }

/-- The job that the driver makes of a command object. -/
def semaJob (cmdObject : CommandObject) : IndexJob :=
  { kind := .SemanticAnalysis, semanticAnalysis := ⟨cmdObject⟩, emitIndex := {} }

/-- The id of the job that `queueSemaTask` creates. -/
def semaJobId (cmdObject : CommandObject) : JobId :=
  JobId.newTask (UInt32.ofNat cmdObject.index)

/-- `Scheduler::queueSemaTask`. -/
def queueSemaTask (s : Scheduler) (cmdObject : CommandObject) : Scheduler :=
  let s := s.emplaceJob (semaJobId cmdObject) (semaJob cmdObject)
  { s with pendingJobs := s.pendingJobs ++ [semaJobId cmdObject] }

/-- `it->second.assignedWorker = workerId`. -/
def assignWorker (s : Scheduler) (jobId : JobId) (workerId : WorkerId) : Scheduler :=
  { s with
    allJobList := Function.update s.allJobList jobId
      ((s.allJobList jobId).map fun tracked =>
        { tracked with assignedWorker := some workerId }) }

/-- `Scheduler::scheduleJobOnWorker`. -/
def scheduleJobOnWorker (s : Scheduler) (workerId : WorkerId) (jobId : JobId) (now : Instant) :
    Scheduler × IndexJobRequest :=
  let s := (s.markWorkerBusy workerId jobId now).assignWorker jobId workerId
  (s, ⟨jobId, ((s.allJobList jobId).map (·.job)).getD {}⟩)

/-- `Scheduler::createSubtaskAndScheduleOnWorker`. -/
def createSubtaskAndScheduleOnWorker (s : Scheduler) (workerId : WorkerId) (previousId : JobId)
    (job : IndexJob) (now : Instant) : Scheduler × IndexJobRequest :=
  let jobId := previousId.nextSubtask
  let s := s.emplaceJob jobId job
  let s := { s with wipJobs := insert jobId s.wipJobs, idleWorkers := s.idleWorkers.tail }
  s.scheduleJobOnWorker workerId jobId now

/-- `Scheduler::descheduleJobDueToSendError`. -/
def descheduleJobDueToSendError (s : Scheduler) (workerId : WorkerId) (jobId : JobId) :
    Scheduler :=
  let s := s.markWorkerIdle workerId
  { s with wipJobs := s.wipJobs.erase jobId }

/-- `Scheduler::markCompleted`.  The result says whether the worker was alive, in
which case it has just become idle and can be given a follow-up job. -/
def markCompleted (s : Scheduler) (workerId : WorkerId) (jobId : JobId) :
    Scheduler × Option WorkerId :=
  if s.jobOf workerId = some jobId then
    let s := s.markWorkerIdle workerId
    ({ s with wipJobs := s.wipJobs.erase jobId }, some workerId)
  else
    -- mail from the dead: the worker was terminated before its response was read
    ({ s with maybeErroredJobs := s.maybeErroredJobs.erase jobId }, none)

/-- `Scheduler::terminateRunningWorker`. -/
def terminateRunningWorker (s : Scheduler) (workerId : WorkerId)
    (terminateAndRespawn : Process → Process) : Except SchedulerError Scheduler :=
  match s.workers[workerId]? with
  | none => .error .workerOutOfRange
  | some workerInfo =>
      match workerInfo.currentlyProcessing with
      | none => .error .badOptionalAccess
      | some oldJobId =>
          .ok { s with
            wipJobs := s.wipJobs.erase oldJobId
            maybeErroredJobs := insert oldJobId s.maybeErroredJobs
            workers := s.workers.set workerId
              (.ofProcess (terminateAndRespawn workerInfo.processHandle))
            idleWorkers := s.idleWorkers ++ [workerId] }

/-- The loop body of `terminateLongRunningWorkersAndRespawn`. -/
def terminateIfLongRunning (startedBefore : Instant)
    (terminateAndRespawn : Process → WorkerId → Process) (s : Scheduler)
    (workerId : WorkerId) : Except SchedulerError Scheduler :=
  match s.workers[workerId]? with
  | none => .error .workerOutOfRange
  | some workerInfo =>
      match workerInfo.status with
      | .Idle => .ok s
      | .Stopped => .ok s
      | .Busy =>
          if workerInfo.startTime < startedBefore then
            s.terminateRunningWorker workerId (terminateAndRespawn · workerId)
          else
            .ok s

/-- `Scheduler::terminateLongRunningWorkersAndRespawn`. -/
def terminateLongRunningWorkersAndRespawn (s : Scheduler) (startedBefore : Instant)
    (terminateAndRespawn : Process → WorkerId → Process) : Except SchedulerError Scheduler :=
  (List.range s.workers.length).foldlM
    (terminateIfLongRunning startedBefore terminateAndRespawn) s

/-- `Driver::tryAssignJobToWorker`, on the scheduler: schedule the job, send the
request, and undo the scheduling if the send fails. -/
def tryAssignJobToWorker (env : SendEnv) (s : Scheduler) (workerId : WorkerId) (jobId : JobId) :
    Scheduler :=
  let s := (s.scheduleJobOnWorker workerId jobId (env.now jobId)).1
  if env.sendOk jobId then s else s.descheduleJobDueToSendError workerId jobId

/-- The loop of `assignJobsToIdleWorkers`, over the pending jobs. -/
def assignPending (env : SendEnv) : List JobId → Scheduler → Scheduler
  | [], s => s
  | nextJob :: pending, s =>
      match s.idleWorkers with
      | [] => s
      | nextWorkerId :: idle =>
          assignPending env pending
            (tryAssignJobToWorker env
              { s with
                pendingJobs := pending
                wipJobs := insert nextJob s.wipJobs
                idleWorkers := idle }
              nextWorkerId nextJob)

/-- `Scheduler::assignJobsToIdleWorkers`. -/
def assignJobsToIdleWorkers (env : SendEnv) (s : Scheduler) : Scheduler :=
  assignPending env s.pendingJobs s

/-- The loop body of `shutdownIdleWorkers`. -/
def shutdownLastIdle (s : Scheduler) (workerId : WorkerId) : Scheduler :=
  ({ s with idleWorkers := s.idleWorkers.dropLast }).markWorkerStopped workerId

/-- The lambda `shutdownIdleWorkers`: idle workers are stopped from the back. -/
def shutdownIdleWorkers (s : Scheduler) : Scheduler :=
  s.idleWorkers.reverse.foldl shutdownLastIdle s

/-- `Scheduler::numErroredJobs`. -/
def numErroredJobs (s : Scheduler) : Nat := s.maybeErroredJobs.card

/-- `Scheduler::getTuPath`. -/
def getTuPath (s : Scheduler) (jobId : JobId) : Option Str :=
  (s.allJobList jobId).map (·.job.semanticAnalysis.command.filePath)

/-- The condition that `Scheduler::checkInvariants` enforces in debug builds. -/
def checkInvariants (s : Scheduler) : Prop :=
  s.wipJobs.card + s.idleWorkers.length + s.stoppedWorkers.length = s.workers.length

end Scheduler

end ScipClang
