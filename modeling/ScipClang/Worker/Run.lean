import ScipClang.Scip.Types
import ScipClang.ShardPaths

/-!
# The loop of a worker

`Worker::run` (`indexer/Worker.cc`) takes one request after the other and processes its
translation unit.  A worker gets its requests from the driver, or else, in a mode for
development, from a compilation database that it has read itself; it then has no message
queues.

Both modes share `processTranslationUnitAndRespond`.  Its local variable `innerStatus` is
set where the worker talks to the driver, and nowhere else; afterwards it is read in both
modes.

* `Worker.run_forDriver`: with a driver, the status is set before it is read, and the queues
  are there.
* `Worker.respondsWith_of_mem_sent`: what a worker of a driver sends.
* `Worker.run_compdb_cons`: without a driver, the first command is the last one.
* `Worker.handlesEveryCommand_iff`: which databases a worker gets through on its own.

Faults that are injected for testing, logging and the recorder of the preprocessor are left
out.
-/

namespace ScipClang

/-- `WorkerMode`. -/
inductive WorkerMode where
  | Ipc
  | Compdb
  | Testing
deriving DecidableEq

/-- `Worker::ReceiveStatus`. -/
inductive ReceiveStatus where
  | DriverTimeout
  | MalformedMessage
  | Shutdown
  | OK
deriving DecidableEq

/-- The options that the functions below read. -/
structure WorkerOptions where
  mode : WorkerMode
  workerId : WorkerId := 0
  indexOutputPath : Str := []
  statsFilePath : Str := []
  temporaryOutputDir : Str := []

/-- What a call of `timedReceive` comes back with. -/
inductive Received where
  | timeout
  | malformed
  | request (request : IndexJobRequest)

/-- `MessageQueuePair`: what will be received, in order, and what has been sent. -/
structure MessageQueuePair where
  driverToWorker : List Received
  workerToDriver : List IndexJobResponse := []

/-- `TuIndexingOutput`. -/
structure TuIndexingOutput where
  docsAndExternals : Index := {}
  forwardDecls : List ForwardDecl := []

/-- A message that is written to a file. -/
inductive ShardContents where
  | docsAndExternals (index : Index)
  | forwardDecls (forwardDecls : List ForwardDecl)

/-- What the worker depends on: Clang, the file system, the clock and the driver's queue. -/
structure WorkerEnv where
  /-- What semantic analysis hands to the callback, if it gets that far. -/
  semaResult : CommandObject → Option SemanticAnalysisJobResult
  /-- What is found in the files to be indexed. -/
  tuIndexingOutput : CommandObject → EmitIndexJobDetails → TuIndexingOutput
  canOpen : Str → Bool
  canSend : IndexJobResponse → Bool
  totalTimeMicros : CommandObject → UInt64

/-- `Worker`. -/
structure Worker where
  options : WorkerOptions
  /-- Non-null iff `options.mode == Ipc`. -/
  messageQueues : Option MessageQueuePair := none
  /-- Set iff `options.mode == Compdb`. -/
  compileCommands : List CommandObject := []
  commandIndex : Nat := 0
  statistics : IndexingStatistics := {}
  /-- The files written so far. -/
  files : List (Str × ShardContents) := []
  /-- The statistics written so far. -/
  stats : List (Str × Str × IndexingStatistics) := []
  /-- The commands that `processTranslationUnit` was called for so far. -/
  processed : List CommandObject := []

/-- What keeps a worker from going on. -/
inductive WorkerFault where
  /-- `messageQueues` is dereferenced while it is null. -/
  | nullMessageQueues
  /-- `innerStatus` is read while it is not initialized. -/
  | uninitializedStatus
  /-- `std::exit(EXIT_FAILURE)`. -/
  | exit
deriving DecidableEq

/-- `CHECK_STATUS`: whether the loop stops, takes the next request, or goes on with this
one. -/
inductive NextMove where
  | stop
  | next
  | proceed
deriving DecidableEq

def ReceiveStatus.check : ReceiveStatus → NextMove
  | .Shutdown => .stop
  | .DriverTimeout => .stop
  | .MalformedMessage => .next
  | .OK => .proceed

namespace Worker

/-- The worker with a compilation database of its own. -/
def forCompdb (options : WorkerOptions) (compileCommands : List CommandObject) : Worker where
  options := { options with mode := .Compdb }
  compileCommands := compileCommands

/-- The worker of a driver. -/
def forDriver (options : WorkerOptions) (queues : MessageQueuePair) : Worker where
  options := { options with mode := .Ipc }
  messageQueues := some queues

variable (env : WorkerEnv)

/-- `Worker::emitIndex`. -/
def emitIndex (worker : Worker) (message : ShardContents) (outputPath : Str) :
    Except WorkerFault Worker :=
  if env.canOpen outputPath then
    .ok { worker with files := worker.files ++ [(outputPath, message)] }
  else .error .exit

/-- `Worker::sendResult`. -/
def sendResult (worker : Worker) (requestId : JobId) (result : IndexJobResult) :
    Except WorkerFault Worker :=
  match worker.messageQueues with
  | none => .error .nullMessageQueues
  | some queues =>
      let response := ⟨worker.options.workerId, requestId, result⟩
      if env.canSend response then
        .ok { worker with
          messageQueues := some
            { queues with workerToDriver := queues.workerToDriver ++ [response] } }
      else .error .exit

/-- `Worker::waitForRequest`, for a request that was just constructed. -/
def waitForRequest (worker : Worker) :
    Except WorkerFault (ReceiveStatus × IndexJobRequest × Worker) :=
  let request : IndexJobRequest := ⟨.Shutdown, {}⟩
  if worker.options.mode = .Compdb then
    match worker.compileCommands[worker.commandIndex]? with
    | none => .ok (.Shutdown, request, worker)
    | some command =>
        .ok (.OK,
          ⟨.newTask (UInt32.ofNat worker.commandIndex), { semanticAnalysis := ⟨command⟩ }⟩,
          { worker with commandIndex := worker.commandIndex + 1 })
  else
    match worker.messageQueues with
    | none => .error .nullMessageQueues
    | some queues =>
        let worker := { worker with
          messageQueues := some { queues with driverToWorker := queues.driverToWorker.tail } }
        match queues.driverToWorker.head? with
        | none => .ok (.DriverTimeout, request, worker)
        | some .timeout => .ok (.DriverTimeout, request, worker)
        | some .malformed => .ok (.MalformedMessage, request, worker)
        | some (.request request) =>
            if request.id = .Shutdown then .ok (.Shutdown, request, worker)
            else .ok (.OK, request, worker)

/-- `Worker::sendRequestAndReceive`. -/
def sendRequestAndReceive (worker : Worker) (semaRequestId : JobId)
    (semaResult : SemanticAnalysisJobResult) :
    Except WorkerFault (ReceiveStatus × IndexJobRequest × Worker) := do
  let worker ← worker.sendResult env semaRequestId
    { kind := .SemanticAnalysis, semanticAnalysis := semaResult }
  let (status, emitIndexRequest, worker) ← worker.waitForRequest
  if status ≠ .OK then .ok (status, emitIndexRequest, worker)
  else if emitIndexRequest.id = .Shutdown then .error .exit
  else .ok (status, emitIndexRequest, worker)

/-- The local variables of `processTranslationUnitAndRespond` that the callback refers to. -/
structure Locals where
  worker : Worker
  innerStatus : Option ReceiveStatus := none
  emitIndexRequestId : JobId := .Shutdown
  callbackInvoked : Nat := 0

/-- The callback that is called after semantic analysis. -/
def callback (semaRequestId : JobId) (semaResult : SemanticAnalysisJobResult) (locals : Locals) :
    Except WorkerFault (Option EmitIndexJobDetails × Locals) := do
  let locals := { locals with callbackInvoked := locals.callbackInvoked + 1 }
  if locals.worker.options.mode = .Compdb then
    .ok (some ⟨semaResult.wellBehavedFiles ++ semaResult.illBehavedFiles.flatMap
      fun fileInfoMulti => fileInfoMulti.hashValues.map (⟨fileInfoMulti.path, ·⟩)⟩, locals)
  else
    let (status, emitIndexRequest, worker) ←
      locals.worker.sendRequestAndReceive env semaRequestId semaResult
    let locals := { locals with worker, innerStatus := some status }
    if status ≠ .OK then .ok (none, locals)
    else
      .ok (some emitIndexRequest.job.emitIndex,
        { locals with emitIndexRequestId := emitIndexRequest.id })

/-- `Worker::processTranslationUnit`: the callback decides whether there is anything to index. -/
def processTranslationUnit (command : CommandObject)
    (callback : SemanticAnalysisJobResult → Locals →
      Except WorkerFault (Option EmitIndexJobDetails × Locals)) (locals : Locals) :
    Except WorkerFault (TuIndexingOutput × Locals) := do
  let locals := { locals with
    worker := { locals.worker with processed := locals.worker.processed ++ [command] } }
  match env.semaResult command with
  | none => .ok ({}, locals)
  | some semaResult =>
      let (emitIndexDetails, locals) ← callback semaResult locals
      .ok (emitIndexDetails.elim {} (env.tuIndexingOutput command), locals)

/-- `Worker::processTranslationUnitAndRespond` after the status has been checked. -/
def emitAndRespond (command : CommandObject) (output : TuIndexingOutput)
    (emitIndexRequestId : JobId) (worker : Worker) : Except WorkerFault Worker := do
  let statistics : IndexingStatistics := ⟨env.totalTimeMicros command⟩
  if worker.options.mode = .Compdb then
    let worker ← worker.emitIndex env (.docsAndExternals output.docsAndExternals)
      worker.options.indexOutputPath
    let worker := { worker with statistics }
    .ok (if worker.options.statsFilePath = [] then worker
      else { worker with
        stats := worker.stats ++ [(worker.options.statsFilePath, command.filePath, statistics)] })
  else
    let shardPaths :=
      (Shard.mk emitIndexRequestId.taskId worker.options.workerId).paths
        worker.options.temporaryOutputDir
    let worker ← worker.emitIndex env (.docsAndExternals output.docsAndExternals)
      shardPaths.docsAndExternals.value
    let worker ← worker.emitIndex env (.forwardDecls output.forwardDecls)
      shardPaths.forwardDecls.value
    { worker with statistics }.sendResult env emitIndexRequestId
      { kind := .EmitIndex, emitIndex := { statistics, shardPaths } }

/-- `Worker::processTranslationUnitAndRespond` where the callback may not have been called:
the worker keeps going with no-ops. -/
def keepGoing (semaRequestId : JobId) (locals : Locals) : Except WorkerFault Locals :=
  if locals.callbackInvoked = 0 then do
    let (status, emitIndexRequest, worker) ←
      locals.worker.sendRequestAndReceive env semaRequestId {}
    .ok { locals with
      worker, innerStatus := some status, emitIndexRequestId := emitIndexRequest.id }
  else .ok locals

/-- `Worker::processTranslationUnitAndRespond`. -/
def processTranslationUnitAndRespond (request : IndexJobRequest) (worker : Worker) :
    Except WorkerFault (ReceiveStatus × Worker) := do
  let command := request.job.semanticAnalysis.command
  let (output, locals) ← processTranslationUnit env command (callback env request.id) { worker }
  let locals ← keepGoing env request.id locals
  match locals.innerStatus with
  | none => .error .uninitializedStatus
  | some innerStatus =>
      if innerStatus ≠ .OK then .ok (innerStatus, locals.worker)
      else do
        let worker ← emitAndRespond env command output locals.emitIndexRequestId locals.worker
        .ok (.OK, worker)

/-- One round of the loop in `Worker::run`, and whether the loop stops after it. -/
def round (worker : Worker) : Except WorkerFault (Bool × Worker) := do
  let (status, request, worker) ← worker.waitForRequest
  match status.check with
  | .stop => .ok (true, worker)
  | .next => .ok (false, worker)
  | .proceed => do
      let (status, worker) ← processTranslationUnitAndRespond env request worker
      .ok (decide (status.check = .stop), worker)

/-- `Worker::run` for a number of rounds, and whether the loop has stopped by then. -/
def run : Nat → Worker → Except WorkerFault (Bool × Worker)
  | 0, worker => .ok (false, worker)
  | rounds + 1, worker => do
      let (stopped, worker) ← round env worker
      if stopped then .ok (true, worker) else run rounds worker

/-! ## With a driver -/

section Driver

/-- A computation ends in a value with a property, if the worker does not exit. -/
def Ensures {α : Type} (P : α → Prop) : Except WorkerFault α → Prop
  | .ok a => P a
  | .error fault => fault = .exit

theorem Ensures.bind {α β : Type} {P : α → Prop} {Q : β → Prop} {x : Except WorkerFault α}
    {f : α → Except WorkerFault β} (hx : Ensures P x) (hf : ∀ a, P a → Ensures Q (f a)) :
    Ensures Q (x >>= f) := by
  cases x with
  | error fault => exact hx
  | ok a => exact hf a hx

theorem Ensures.mono {α : Type} {P Q : α → Prop} {x : Except WorkerFault α} (hx : Ensures P x)
    (himp : ∀ a, P a → Q a) : Ensures Q x := by
  cases x with
  | error fault => exact hx
  | ok a => exact himp a hx

/-- The response of a worker with these options; shards are named after the job that they
were requested for. -/
structure RespondsWith (options : WorkerOptions) (response : IndexJobResponse) : Prop where
  workerId : response.workerId = options.workerId
  shardPaths : response.result.kind = .EmitIndex → response.result.emitIndex.shardPaths =
    (Shard.mk response.jobId.taskId options.workerId).paths options.temporaryOutputDir

/-- The worker of a driver that receives at most `n` more messages. -/
structure Serves (options : WorkerOptions) (n : Nat) (worker : Worker) : Prop where
  mode : options.mode = .Ipc
  options_eq : worker.options = options
  queues : ∃ queues, worker.messageQueues = some queues ∧ queues.driverToWorker.length ≤ n ∧
    ∀ response ∈ queues.workerToDriver, RespondsWith options response

variable {env} {options : WorkerOptions} {n : Nat} {worker : Worker}

theorem Serves.mono {m : Nat} (h : Serves options n worker) (hle : n ≤ m) :
    Serves options m worker := by
  obtain ⟨queues, hqueues, hlength, hsent⟩ := h.queues
  exact ⟨h.mode, h.options_eq, queues, hqueues, hlength.trans hle, hsent⟩

/-- Only the options and the queues matter. -/
theorem Serves.congr {worker' : Worker} (h : Serves options n worker)
    (hoptions : worker'.options = worker.options)
    (hqueues : worker'.messageQueues = worker.messageQueues) : Serves options n worker' where
  mode := h.mode
  options_eq := hoptions.trans h.options_eq
  queues := hqueues ▸ h.queues

theorem serves_forDriver (options : WorkerOptions) {queues : MessageQueuePair}
    (hsent : queues.workerToDriver = []) :
    Serves { options with mode := .Ipc } queues.driverToWorker.length (forDriver options queues)
    where
  mode := rfl
  options_eq := rfl
  queues := by
    refine ⟨queues, rfl, le_refl _, ?_⟩
    rw [hsent]
    exact fun response hmem => absurd hmem List.not_mem_nil

theorem Serves.not_compdb (h : Serves options n worker) : worker.options.mode ≠ .Compdb := by
  rw [h.options_eq, h.mode]
  exact WorkerMode.noConfusion

/-- The queues are there when a result is sent. -/
theorem Serves.sendResult (h : Serves options n worker) {requestId : JobId}
    {result : IndexJobResult}
    (hresult : RespondsWith options ⟨options.workerId, requestId, result⟩) :
    Ensures (Serves options n) (worker.sendResult env requestId result) := by
  obtain ⟨queues, hqueues, hlength, hsent⟩ := h.queues
  rw [Worker.sendResult, hqueues, h.options_eq]
  dsimp only
  split
  · refine ⟨h.mode, rfl, _, rfl, hlength, fun response hmem => ?_⟩
    rcases List.mem_append.mp hmem with hold | hnew
    · exact hsent response hold
    · exact List.mem_singleton.mp hnew ▸ hresult
  · rfl

/-- Nothing is left of a request that did not arrive. -/
theorem Serves.waitForRequest (h : Serves options n worker) :
    Ensures (fun received => Serves options (n - 1) received.2.2 ∧
      (received.1.check ≠ .stop → 0 < n)) worker.waitForRequest := by
  obtain ⟨queues, hqueues, hlength, hsent⟩ := h.queues
  have hserves : Serves options (n - 1) { worker with
      messageQueues := some { queues with driverToWorker := queues.driverToWorker.tail } } :=
    ⟨h.mode, h.options_eq, _, rfl, by
      rw [List.length_tail]
      exact Nat.sub_le_sub_right hlength 1, hsent⟩
  have hpos : ∀ received, queues.driverToWorker.head? = some received → 0 < n := by
    intro received hhead
    exact (List.length_pos_of_mem (List.mem_of_mem_head? hhead)).trans_le hlength
  rw [Worker.waitForRequest, if_neg h.not_compdb, hqueues]
  dsimp only
  rcases hhead : queues.driverToWorker.head? with - | (- | - | request)
  · exact ⟨hserves, fun hstop => absurd rfl hstop⟩
  · exact ⟨hserves, fun hstop => absurd rfl hstop⟩
  · exact ⟨hserves, fun _ => hpos _ hhead⟩
  · dsimp only
    split
    · exact ⟨hserves, fun hstop => absurd rfl hstop⟩
    · exact ⟨hserves, fun _ => hpos _ hhead⟩

/-- The requests of the scheduler are not taken for the signal to shut down. -/
theorem waitForRequest_of_job (hmode : worker.options.mode ≠ .Compdb)
    {queues : MessageQueuePair} (hqueues : worker.messageQueues = some queues)
    {request : IndexJobRequest} (hhead : queues.driverToWorker.head? = some (.request request))
    {taskId : UInt32}
    (hjob : request.id = .newTask taskId ∨ request.id = (JobId.newTask taskId).nextSubtask) :
    ∃ worker', worker.waitForRequest = .ok (.OK, request, worker') := by
  have hne : request.id ≠ .Shutdown := by
    rcases hjob with hjob | hjob
    · rw [hjob]
      exact JobId.newTask_ne_shutdown taskId
    · rw [hjob]
      exact JobId.nextSubtask_newTask_ne_shutdown taskId
  rw [Worker.waitForRequest, if_neg hmode, hqueues]
  dsimp only
  rw [hhead]
  dsimp only
  rw [if_neg hne]
  exact ⟨_, rfl⟩

theorem Serves.sendRequestAndReceive (h : Serves options n worker) {semaRequestId : JobId}
    {semaResult : SemanticAnalysisJobResult} :
    Ensures (fun received => Serves options n received.2.2)
      (worker.sendRequestAndReceive env semaRequestId semaResult) := by
  have hresult : RespondsWith options ⟨options.workerId, semaRequestId,
      { kind := .SemanticAnalysis, semanticAnalysis := semaResult }⟩ :=
    ⟨rfl, fun hkind => IndexJobKind.noConfusion hkind⟩
  refine (h.sendResult hresult).bind fun worker hsent => ?_
  refine hsent.waitForRequest.bind fun ⟨status, request, worker⟩ ⟨hwait, _⟩ => ?_
  have hserves : Serves options n worker := hwait.mono (Nat.sub_le n 1)
  dsimp only
  split
  · exact hserves
  · split
    · rfl
    · exact hserves

/-- The callback sets the status. -/
theorem Serves.callback (locals : Locals) (h : Serves options n locals.worker)
    {semaRequestId : JobId} {semaResult : SemanticAnalysisJobResult} :
    Ensures (fun called => Serves options n called.2.worker ∧ called.2.innerStatus ≠ none)
      (Worker.callback env semaRequestId semaResult locals) := by
  rw [Worker.callback]
  dsimp only
  rw [if_neg h.not_compdb]
  refine h.sendRequestAndReceive.bind fun ⟨status, request, worker⟩ hserves => ?_
  dsimp only
  split
  · exact ⟨hserves, Option.some_ne_none _⟩
  · exact ⟨hserves, Option.some_ne_none _⟩

/-- The status is set, unless the callback was not called. -/
theorem Serves.processTranslationUnit (locals : Locals) (h : Serves options n locals.worker)
    {command : CommandObject} {semaRequestId : JobId} :
    Ensures (fun processed => Serves options n processed.2.worker ∧
        (processed.2.innerStatus ≠ none ∨
          processed.2.callbackInvoked = locals.callbackInvoked))
      (Worker.processTranslationUnit env command (Worker.callback env semaRequestId) locals) := by
  have hprocessed : Serves options n
      { locals.worker with processed := locals.worker.processed ++ [command] } := h.congr rfl rfl
  rw [Worker.processTranslationUnit]
  dsimp only
  split
  · exact ⟨hprocessed, Or.inr rfl⟩
  · exact (Serves.callback { locals with worker := _ } hprocessed).bind
      fun ⟨details, locals⟩ ⟨hserves, hstatus⟩ => ⟨hserves, Or.inl hstatus⟩

theorem Serves.emitIndex (h : Serves options n worker) {message : ShardContents}
    {outputPath : Str} : Ensures (Serves options n) (worker.emitIndex env message outputPath) := by
  rw [Worker.emitIndex]
  split
  · exact h.congr rfl rfl
  · rfl

/-- The shards are named after the job that they were requested for. -/
theorem Serves.emitAndRespond (h : Serves options n worker) {command : CommandObject}
    {output : TuIndexingOutput} {emitIndexRequestId : JobId} :
    Ensures (Serves options n)
      (Worker.emitAndRespond env command output emitIndexRequestId worker) := by
  rw [Worker.emitAndRespond, if_neg h.not_compdb, h.options_eq]
  refine h.emitIndex.bind fun worker hserves => ?_
  refine hserves.emitIndex.bind fun worker hserves => ?_
  have hstatistics : Serves options n
      { worker with statistics := ⟨env.totalTimeMicros command⟩ } := hserves.congr rfl rfl
  exact hstatistics.sendResult ⟨rfl, fun _ => rfl⟩

theorem Serves.keepGoing {locals : Locals} (h : Serves options n locals.worker)
    (hstatus : locals.innerStatus ≠ none ∨ locals.callbackInvoked = 0) {semaRequestId : JobId} :
    Ensures (fun locals : Locals => Serves options n locals.worker ∧ locals.innerStatus ≠ none)
      (Worker.keepGoing env semaRequestId locals) := by
  rw [Worker.keepGoing]
  split
  case isTrue hinvoked =>
      exact h.sendRequestAndReceive.bind fun _ hserves => ⟨hserves, Option.some_ne_none _⟩
  case isFalse hinvoked => exact ⟨h, hstatus.resolve_right hinvoked⟩

/-- The status is set before it is read. -/
theorem Serves.processTranslationUnitAndRespond (h : Serves options n worker)
    {request : IndexJobRequest} :
    Ensures (fun responded => Serves options n responded.2)
      (Worker.processTranslationUnitAndRespond env request worker) := by
  refine (Serves.processTranslationUnit { worker } h).bind
    fun ⟨output, locals⟩ ⟨hserves, hstatus⟩ => ?_
  refine (hserves.keepGoing hstatus).bind fun locals ⟨hserves, hstatus⟩ => ?_
  split
  case h_1 hnone => exact absurd hnone hstatus
  case h_2 innerStatus hsome =>
    split
    · exact hserves
    · exact hserves.emitAndRespond.bind fun worker hserves => hserves

theorem Serves.round (h : Serves options n worker) :
    Ensures (fun rounded => Serves options (n - 1) rounded.2 ∧ (rounded.1 = false → 0 < n))
      (Worker.round env worker) := by
  refine h.waitForRequest.bind fun ⟨status, request, worker⟩ ⟨hserves, hpos⟩ => ?_
  dsimp only at hserves hpos ⊢
  split
  case h_1 hcheck => exact ⟨hserves, fun hstopped => Bool.noConfusion hstopped⟩
  case h_2 hcheck => exact ⟨hserves, fun _ => hpos (by rw [hcheck]; exact NextMove.noConfusion)⟩
  case h_3 hcheck =>
    exact hserves.processTranslationUnitAndRespond.bind fun _ hserves =>
      ⟨hserves, fun _ => hpos (by rw [hcheck]; exact NextMove.noConfusion)⟩

/-- The loop stops as soon as there is nothing left to receive. -/
theorem Serves.run (h : Serves options n worker) (env : WorkerEnv) (rounds : Nat) :
    Ensures (fun ran => (∃ m, Serves options m ran.2) ∧ (n < rounds → ran.1 = true))
      (Worker.run env rounds worker) := by
  induction rounds generalizing n worker with
  | zero => exact ⟨⟨n, h⟩, fun hlt => absurd hlt (Nat.not_lt_zero n)⟩
  | succ rounds ih =>
      refine h.round.bind fun ⟨stopped, worker⟩ ⟨hserves, hpos⟩ => ?_
      cases stopped with
      | true => exact ⟨⟨n - 1, hserves⟩, fun _ => rfl⟩
      | false =>
          refine (ih hserves).mono fun ran ⟨hran, hstop⟩ => ⟨hran, fun hlt => hstop ?_⟩
          have := hpos rfl
          omega

end Driver

/-- What a worker of a driver has sent. -/
def sent (worker : Worker) : List IndexJobResponse :=
  worker.messageQueues.elim [] MessageQueuePair.workerToDriver

/-- **With a driver**, a worker stops after it has received everything, if it does not exit
before; it does not read what is not there. -/
theorem run_forDriver {env : WorkerEnv} {options : WorkerOptions} {queues : MessageQueuePair}
    (hsent : queues.workerToDriver = []) {rounds : Nat}
    (hrounds : queues.driverToWorker.length < rounds) :
    run env rounds (forDriver options queues) = .error .exit ∨
      ∃ worker, run env rounds (forDriver options queues) = .ok (true, worker) := by
  have hrun := (serves_forDriver options hsent).run env rounds
  cases hran : run env rounds (forDriver options queues) with
  | error fault =>
      rw [hran] at hrun
      exact Or.inl (congrArg Except.error hrun)
  | ok ran =>
      rw [hran] at hrun
      exact Or.inr ⟨ran.2, by rw [← hrun.2 hrounds]⟩

/-- What a worker of a driver sends names its shards the way the driver expects. -/
theorem respondsWith_of_mem_sent {env : WorkerEnv} {options : WorkerOptions}
    {queues : MessageQueuePair} (hsent : queues.workerToDriver = []) {rounds : Nat}
    {stopped : Bool} {worker : Worker}
    (hran : run env rounds (forDriver options queues) = .ok (stopped, worker))
    {response : IndexJobResponse} (hmem : response ∈ worker.sent) :
    RespondsWith { options with mode := .Ipc } response := by
  have hrun := (serves_forDriver options hsent).run env rounds
  rw [hran] at hrun
  obtain ⟨⟨m, hserves⟩, -⟩ := hrun
  obtain ⟨queues', hqueues, -, hresponds⟩ := hserves.queues
  have hsent' : worker.sent = queues'.workerToDriver := by
    unfold sent
    exact congrArg (fun queues => Option.elim queues [] MessageQueuePair.workerToDriver) hqueues
  exact hresponds response (hsent' ▸ hmem)

/-! ## Without a driver -/

section Compdb

variable {env : WorkerEnv} {worker : Worker}

theorem keepGoing_of_null {locals : Locals} (hqueues : locals.worker.messageQueues = none)
    (hinvoked : locals.callbackInvoked = 0) (semaRequestId : JobId) :
    keepGoing env semaRequestId locals = .error .nullMessageQueues := by
  rw [keepGoing, if_pos hinvoked, sendRequestAndReceive, sendResult, hqueues]
  rfl

/-- Without a driver, a command leads to a fault: if the callback was called, then it has not
set the status, and if not, then there is no queue for the result. -/
theorem processTranslationUnitAndRespond_compdb (hmode : worker.options.mode = .Compdb)
    (hqueues : worker.messageQueues = none) (request : IndexJobRequest) :
    processTranslationUnitAndRespond env request worker =
      .error (if (env.semaResult request.job.semanticAnalysis.command).isSome
        then .uninitializedStatus else .nullMessageQueues) := by
  rw [processTranslationUnitAndRespond, processTranslationUnit]
  cases hsema : env.semaResult request.job.semanticAnalysis.command with
  | none =>
      show (keepGoing env request.id _ >>= _) = _
      rw [keepGoing_of_null hqueues rfl]
      rfl
  | some semaResult =>
      dsimp only
      rw [callback]
      dsimp only
      rw [if_pos hmode]
      rfl

/-- **Without a driver**, the first command is the last one. -/
theorem run_compdb_cons (options : WorkerOptions) (command : CommandObject)
    (commands : List CommandObject) (rounds : Nat) :
    run env (rounds + 1) (forCompdb options (command :: commands)) =
      .error (if (env.semaResult command).isSome then .uninitializedStatus
        else .nullMessageQueues) := by
  have hround : round env (forCompdb options (command :: commands)) =
      .error (if (env.semaResult command).isSome then .uninitializedStatus
        else .nullMessageQueues) := by
    show (processTranslationUnitAndRespond env _ _ >>= _) = _
    rw [processTranslationUnitAndRespond_compdb rfl rfl]
    rfl
  rw [run, hround]
  rfl

theorem run_compdb_nil (options : WorkerOptions) (rounds : Nat) :
    run env (rounds + 1) (forCompdb options []) = .ok (true, forCompdb options []) := rfl

variable (env) in
/-- A worker without a driver gets through its database: it stops after it has processed every
command once, in order, without a fault on the way. -/
def HandlesEveryCommand (options : WorkerOptions) (commands : List CommandObject) : Prop :=
  ∃ rounds worker, run env rounds (forCompdb options commands) = .ok (true, worker) ∧
    worker.processed = commands

/-- The databases that a worker gets through are the empty ones. -/
theorem handlesEveryCommand_iff (env : WorkerEnv) (options : WorkerOptions)
    (commands : List CommandObject) :
    HandlesEveryCommand env options commands ↔ commands = [] := by
  constructor
  · rintro ⟨rounds, worker, hran, -⟩
    cases commands with
    | nil => rfl
    | cons command commands =>
        cases rounds with
        | zero => exact absurd (congrArg Prod.fst (Except.ok.inj hran)) Bool.noConfusion
        | succ rounds =>
            rw [run_compdb_cons] at hran
            cases hran
  · rintro rfl
    exact ⟨1, forCompdb options [], run_compdb_nil options 0, rfl⟩

/-- One command whose semantic analysis succeeds is too much already. -/
theorem one_command_is_not_handled :
    ¬ HandlesEveryCommand
      { semaResult := fun _ => some {}
        tuIndexingOutput := fun _ _ => {}
        canOpen := fun _ => true
        canSend := fun _ => true
        totalTimeMicros := fun _ => 0 }
      { mode := .Compdb, indexOutputPath := "index.scip".toList } [{}] := by
  rintro ⟨rounds, worker, hran, -⟩
  cases rounds with
  | zero => exact absurd (congrArg Prod.fst (Except.ok.inj hran)) Bool.noConfusion
  | succ rounds =>
      rw [run_compdb_cons] at hran
      cases hran

end Compdb

end Worker

end ScipClang
