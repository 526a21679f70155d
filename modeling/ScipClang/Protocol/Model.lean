import ScipClang.Driver.Loop

/-!
# The protocol between the driver and its workers

Each worker reads requests from a queue of its own, which holds one message; all
workers write their responses to one queue of the driver.  The queues belong to the
driver and outlive the worker processes.  Driver and worker each keep their own idea
of which job is current: the driver in `currentlyProcessing`, the worker in its control
state (`Worker::run`, `Worker::processTranslationUnitAndRespond`).

`protocol` is the transition system of the driver, the queues and the workers under
every interleaving.  A send is two steps: the driver hands a request over and then
waits until the queue has room for it, as `boost::interprocess::message_queue::send`
does.  A request for a semantic analysis that cannot be sent is descheduled; there is no
state after a failed send of a follow-up request, which the driver does not survive.
Workers behave as in release builds: what `ENFORCE` says about the kind of a
request is not checked.  A worker can exit at any time (a crash, or its own receive
timeout); the driver can terminate it once its job has been started long enough ago.

`Agreement` is what the two sides rely on; when it holds is the subject of
`ScipClang.Protocol.Agreement`.
-/

namespace ScipClang

/-- What a worker process is doing. -/
inductive WorkerState where
  /-- `waitForRequest` in `Worker::run`. -/
  | idle
  | analysing (jobId : JobId)
  /-- `waitForRequest` in `Worker::sendRequestAndReceive`. -/
  | awaiting (jobId : JobId)
  | emitting (jobId : JobId)
  | exited
deriving DecidableEq

/-- The driver, the queues and the worker processes. -/
structure World where
  driver : Driver
  driverToWorker : WorkerId → List IndexJobRequest
  workerToDriver : List IndexJobResponse
  worker : WorkerId → WorkerState
  /-- The request that the driver is about to put into a queue. -/
  sending : Option (WorkerId × IndexJobRequest)

/-- The request that `Driver::shutdownWorker` sends. -/
def shutdownRequest : IndexJobRequest := ⟨.Shutdown, {}⟩

/-- The request that `scheduleJobOnWorker` returns for a job. -/
def requestFor (s : Scheduler) (jobId : JobId) : IndexJobRequest :=
  ⟨jobId, (s.trackedJob jobId).getD {}⟩

/-- What a worker does with the request it has received. -/
def WorkerState.receive (state : WorkerState) (request : IndexJobRequest) : WorkerState :=
  match state with
  | .idle => if request.id = .Shutdown then .exited else .analysing request.id
  | .awaiting _ => if request.id = .Shutdown then .exited else .emitting request.id
  | .analysing jobId => .analysing jobId
  | .emitting jobId => .emitting jobId
  | .exited => .exited

/-- The worker waits for a request. -/
def WorkerState.Waiting : WorkerState → Prop
  | .idle => True
  | .awaiting _ => True
  | .analysing _ => False
  | .emitting _ => False
  | .exited => False

/-- The steps of the driver and of the workers. -/
inductive ProtocolLabel where
  | queue (cmdObject : CommandObject)
  | assign (now : Instant)
  | deliver
  | sendFailed
  | respond
  | terminate (workerId : WorkerId) (startedBefore : Instant)
  | shutdown
  | dequeue (workerId : WorkerId)
  | finishAnalysis (workerId : WorkerId) (semaResult : SemanticAnalysisJobResult)
  | finishEmit (workerId : WorkerId) (emitResult : EmitIndexJobResult)
  | exit (workerId : WorkerId)

namespace World

/-- The world after the driver has changed its scheduler and turned to a send. -/
def schedule (W : World) (scheduler : Scheduler)
    (sending : Option (WorkerId × IndexJobRequest)) : World :=
  { W with driver := { W.driver with scheduler }, sending }

/-- The world after a worker has gone on. -/
def setWorker (W : World) (w : WorkerId) (state : WorkerState) : World :=
  { W with worker := Function.update W.worker w state }

/-- The request that follows the response of a live worker to a semantic analysis. -/
def followUp (driver driver' : Driver) (response : IndexJobResponse) :
    Option (WorkerId × IndexJobRequest) :=
  if driver.scheduler.jobOf response.workerId = some response.jobId ∧
      response.result.kind = .SemanticAnalysis then
    some (response.workerId, requestFor driver'.scheduler response.jobId.nextSubtask)
  else
    none

end World

/-- One step of the protocol. -/
inductive ProtocolStep (env : DriverEnv) : World → ProtocolLabel → World → Prop
  | queue {W : World} {cmdObject : CommandObject} :
      W.sending = none → W.driver.scheduler.allJobList (Scheduler.semaJobId cmdObject) = none →
      ProtocolStep env W (.queue cmdObject)
        (W.schedule (W.driver.scheduler.queueSemaTask cmdObject) none)
  | assign {W : World} {now : Instant} {jobId : JobId} {pending : List JobId} {w : WorkerId}
      {idle : List WorkerId} :
      W.sending = none → W.driver.scheduler.pendingJobs = jobId :: pending →
      W.driver.scheduler.idleWorkers = w :: idle →
      ProtocolStep env W (.assign now)
        (let (scheduler, request) := Scheduler.scheduleJobOnWorker
          { W.driver.scheduler with
            pendingJobs := pending
            wipJobs := insert jobId W.driver.scheduler.wipJobs
            idleWorkers := idle } w jobId now
        W.schedule scheduler (some (w, request)))
  | deliver {W : World} {w : WorkerId} {request : IndexJobRequest} :
      W.sending = some (w, request) → (W.driverToWorker w).length < 1 →
      ProtocolStep env W .deliver
        { W with
          driverToWorker :=
            Function.update W.driverToWorker w (W.driverToWorker w ++ [request])
          sending := none }
  | sendFailed {W : World} {w : WorkerId} {request : IndexJobRequest} :
      W.sending = some (w, request) → request.id ≠ .Shutdown →
      request.job.kind = .SemanticAnalysis →
      ProtocolStep env W .sendFailed
        (W.schedule (W.driver.scheduler.descheduleJobDueToSendError w request.id) none)
  | respond {W : World} {response : IndexJobResponse} {rest : List IndexJobResponse}
      {driver : Driver} :
      W.sending = none → W.workerToDriver = response :: rest →
      W.driver.processWorkerResponse (accepting env) response = .ok driver →
      ProtocolStep env W .respond
        { W with
          driver
          workerToDriver := rest
          sending := World.followUp W.driver driver response }
  | terminate {W : World} {w : WorkerId} {startedBefore : Instant} {scheduler : Scheduler} :
      W.sending = none → W.driver.scheduler.TimedOut startedBefore w →
      W.driver.scheduler.terminateRunningWorker w (env.terminateAndRespawn · w) = .ok scheduler →
      ProtocolStep env W (.terminate w startedBefore)
        ((W.schedule scheduler none).setWorker w .idle)
  | shutdown {W : World} {w : WorkerId} {idle : List WorkerId} :
      W.sending = none → W.driver.scheduler.idleWorkers = idle ++ [w] →
      ProtocolStep env W .shutdown
        (W.schedule (W.driver.scheduler.shutdownLastIdle w) (some (w, shutdownRequest)))
  | dequeue {W : World} {w : WorkerId} {request : IndexJobRequest}
      {rest : List IndexJobRequest} :
      (W.worker w).Waiting → W.driverToWorker w = request :: rest →
      ProtocolStep env W (.dequeue w)
        { W.setWorker w ((W.worker w).receive request) with
          driverToWorker := Function.update W.driverToWorker w rest }
  | finishAnalysis {W : World} {w : WorkerId} {jobId : JobId}
      {semaResult : SemanticAnalysisJobResult} :
      W.worker w = .analysing jobId →
      ProtocolStep env W (.finishAnalysis w semaResult)
        { W.setWorker w (.awaiting jobId) with
          workerToDriver := W.workerToDriver ++
            [⟨w, jobId, { kind := .SemanticAnalysis, semanticAnalysis := semaResult }⟩] }
  | finishEmit {W : World} {w : WorkerId} {jobId : JobId} {emitResult : EmitIndexJobResult} :
      W.worker w = .emitting jobId →
      ProtocolStep env W (.finishEmit w emitResult)
        { W.setWorker w .idle with
          workerToDriver := W.workerToDriver ++
            [⟨w, jobId, { kind := .EmitIndex, emitIndex := emitResult }⟩] }
  | exit {W : World} {w : WorkerId} : ProtocolStep env W (.exit w) (W.setWorker w .exited)

/-- The protocol, from the moment the driver has spawned its workers. -/
def protocol (env : DriverEnv) (options : DriverOptions) (database : CompilationDatabase)
    (spawnWorker : WorkerId → Process) : TransitionSystem World ProtocolLabel where
  init W := W =
    { driver := .openCompilationDatabase options database spawnWorker
      driverToWorker := fun _ => []
      workerToDriver := []
      worker := fun _ => .idle
      sending := none }
  step := ProtocolStep env

/-! ## What the two sides rely on -/

/-- The agreement between the driver and its workers. -/
structure Agreement (W : World) : Prop where
  /-- A message in a queue is the request for the current job, or a shutdown. -/
  message : ∀ w, ∀ request ∈ W.driverToWorker w,
    (∃ j, W.driver.scheduler.jobOf w = some j ∧ request = requestFor W.driver.scheduler j) ∨
      (request = shutdownRequest ∧ W.driver.scheduler.statusOf w = some .Stopped)
  /-- An idle worker finds a semantic analysis or a shutdown. -/
  idle : ∀ w, W.worker w = .idle → ∀ request ∈ W.driverToWorker w,
    request.job.kind = .SemanticAnalysis ∨ request.id = .Shutdown
  /-- A worker that awaits the follow-up of an analysis finds that, or a shutdown. -/
  awaiting : ∀ w j, W.worker w = .awaiting j → ∀ request ∈ W.driverToWorker w,
    (request.id = j.nextSubtask ∧ request.job.kind = .EmitIndex) ∨ request.id = .Shutdown
  /-- The driver never sends into a queue that holds a message. -/
  room : ∀ w request, W.sending = some (w, request) → W.driverToWorker w = []

end ScipClang
