import ScipClang.Protocol.Model
import ScipClang.Worker.Run

/-!
# The worker of the protocol

The protocol knows a worker by its `WorkerState`, which says what it waits for or is busy with;
`Worker.run` is the code.  Here the two are related: whatever the code does, the protocol lets
the worker do, in every world that the others may have brought about in the meantime.

* `World.Allows`: the protocol lets a worker take a step, as far as the worker itself can tell.
* `Worker.run_refines`: with well-formed messages, `Worker.run` is a run of the worker of the
  protocol; it takes the messages in order and sends what the code sends.
-/

namespace ScipClang

/-! ## What a worker can tell -/

/-- What a worker does that others can see. -/
inductive WorkerEvent where
  | receive (request : IndexJobRequest)
  | send (response : IndexJobResponse)
  | exit

namespace WorkerEvent

/-- The requests that are received in a run. -/
def received (events : List WorkerEvent) : List IndexJobRequest :=
  events.filterMap fun event =>
    match event with
    | receive request => some request
    | _ => none

/-- The responses that are sent in a run. -/
def sent (events : List WorkerEvent) : List IndexJobResponse :=
  events.filterMap fun event =>
    match event with
    | send response => some response
    | _ => none

end WorkerEvent

namespace World

/-- The request is the next one in the queue of the worker. -/
def Offers (W : World) (w : WorkerId) : WorkerEvent → Prop
  | .receive request => (W.driverToWorker w).head? = some request
  | _ => True

/-- The world after a worker has done something. -/
def after (W : World) (w : WorkerId) (state : WorkerState) : WorkerEvent → World
  | .receive _ =>
      { W.setWorker w state with
        driverToWorker := Function.update W.driverToWorker w (W.driverToWorker w).tail }
  | .send response =>
      { W.setWorker w state with workerToDriver := W.workerToDriver ++ [response] }
  | .exit => W.setWorker w state

/-- Whatever the others have done, the protocol lets a worker in this state do this. -/
def Allows (w : WorkerId) (state : WorkerState) (event : WorkerEvent) (state' : WorkerState) :
    Prop :=
  ∀ (env : DriverEnv) (W : World), W.worker w = state → W.Offers w event →
    ∃ l, ProtocolStep env W l (W.after w state' event)

end World

/-- A worker of the protocol, as it is seen by the others. -/
def workerProcess (w : WorkerId) : TransitionSystem WorkerState WorkerEvent where
  init state := state = .idle
  step := World.Allows w

section Allowed

variable {w : WorkerId} {state : WorkerState} {j : JobId}

theorem allows_receive (hwaiting : state.Waiting) (request : IndexJobRequest) :
    World.Allows w state (.receive request) (state.receive request) := by
  rintro env W rfl hoffers
  obtain ⟨rest, hqueue⟩ := List.head?_eq_some_iff.mp hoffers
  refine ⟨.dequeue w, ?_⟩
  have hstep := @ProtocolStep.dequeue env W w request rest hwaiting hqueue
  have htail : (W.driverToWorker w).tail = rest := by rw [hqueue, List.tail_cons]
  rwa [World.after, htail]

theorem allows_analysed (semaResult : SemanticAnalysisJobResult) :
    World.Allows w (.analysing j)
      (.send ⟨w, j, { kind := .SemanticAnalysis, semanticAnalysis := semaResult }⟩)
      (.awaiting j) :=
  fun _ _ hstate _ => ⟨.finishAnalysis w semaResult, .finishAnalysis hstate⟩

theorem allows_emitted (emitResult : EmitIndexJobResult) :
    World.Allows w (.emitting j)
      (.send ⟨w, j, { kind := .EmitIndex, emitIndex := emitResult }⟩) .idle :=
  fun _ _ hstate _ => ⟨.finishEmit w emitResult, .finishEmit hstate⟩

theorem allows_exit : World.Allows w state .exit .exited := fun _ _ _ _ => ⟨.exit w, .exit⟩

end Allowed

/-! ## What the code does -/

namespace Worker

/-- What the worker has not received yet. -/
def unread (worker : Worker) : List Received :=
  worker.messageQueues.elim [] MessageQueuePair.driverToWorker

/-- The worker has queues, and all messages in them are well-formed. -/
structure Connected (options : WorkerOptions) (worker : Worker) : Prop where
  mode : options.mode = .Ipc
  options_eq : worker.options = options
  queues : ∃ queues, worker.messageQueues = some queues
  unread : ∀ received ∈ worker.unread, ∃ request, received = .request request

/-- What the first worker has done to become the second, seen from outside. -/
def Traces (w : WorkerId) (worker : Worker) (state : WorkerState) (worker' : Worker)
    (state' : WorkerState) : Prop :=
  ∃ events, (workerProcess w).Run state events state' ∧
    worker.unread = (WorkerEvent.received events).map .request ++ worker'.unread ∧
    worker'.sent = worker.sent ++ WorkerEvent.sent events

section Traces

variable {w : WorkerId} {options : WorkerOptions} {worker worker' worker'' : Worker}
  {state state' state'' : WorkerState}

theorem Traces.refl (w : WorkerId) (worker : Worker) (state : WorkerState) :
    Traces w worker state worker state :=
  ⟨[], .nil _, rfl, (List.append_nil _).symm⟩

theorem Traces.trans (h : Traces w worker state worker' state')
    (h' : Traces w worker' state' worker'' state'') : Traces w worker state worker'' state'' := by
  obtain ⟨events, hrun, hunread, hsent⟩ := h
  obtain ⟨events', hrun', hunread', hsent'⟩ := h'
  refine ⟨events ++ events', hrun.append hrun', ?_, ?_⟩
  · rw [hunread, hunread', WorkerEvent.received, WorkerEvent.received, WorkerEvent.received,
      List.filterMap_append, List.map_append, List.append_assoc]
  · rw [hsent', hsent, WorkerEvent.sent, WorkerEvent.sent, WorkerEvent.sent,
      List.filterMap_append, List.append_assoc]

/-- Only the queues are seen from outside. -/
theorem Traces.congr (h : Traces w worker state worker' state')
    (hqueues : worker''.messageQueues = worker'.messageQueues) :
    Traces w worker state worker'' state' := by
  obtain ⟨events, hrun, hunread, hsent⟩ := h
  refine ⟨events, hrun, ?_, ?_⟩
  · rw [hunread, unread, unread, hqueues]
  · rw [← hsent, sent, sent, hqueues]

theorem Connected.congr (h : Connected options worker) (hoptions : worker'.options = worker.options)
    (hqueues : worker'.messageQueues = worker.messageQueues) : Connected options worker' where
  mode := h.mode
  options_eq := hoptions.trans h.options_eq
  queues := hqueues ▸ h.queues
  unread := by
    rw [Worker.unread, hqueues]
    exact h.unread

theorem Connected.not_compdb (h : Connected options worker) : worker.options.mode ≠ .Compdb := by
  rw [h.options_eq, h.mode]
  exact WorkerMode.noConfusion

end Traces

section Code

variable {env : WorkerEnv} {options : WorkerOptions} {worker : Worker} {state state' : WorkerState}

/-- A result is sent, if the protocol lets the worker send it. -/
theorem Connected.sendResult (h : Connected options worker) {requestId : JobId}
    {result : IndexJobResult}
    (hallows : World.Allows options.workerId state (.send ⟨options.workerId, requestId, result⟩)
      state') :
    Ensures (fun worker' => Connected options worker' ∧
      Traces options.workerId worker state worker' state')
      (worker.sendResult env requestId result) := by
  obtain ⟨queues, hqueues⟩ := h.queues
  have hunread := h.unread
  rw [Worker.unread, hqueues] at hunread
  rw [Worker.sendResult, hqueues, h.options_eq]
  dsimp only
  split
  · refine ⟨⟨h.mode, rfl, ⟨_, rfl⟩, hunread⟩, [.send _], .cons hallows (.nil _), ?_, ?_⟩
    · rw [Worker.unread, Worker.unread, hqueues]
      rfl
    · rw [sent, sent, hqueues]
      rfl
  · rfl

theorem receive_shutdown (hwaiting : state.Waiting) {request : IndexJobRequest}
    (h : request.id = .Shutdown) : state.receive request = .exited := by
  cases state with
  | idle => exact if_pos h
  | awaiting j => exact if_pos h
  | analysing j => exact hwaiting.elim
  | emitting j => exact hwaiting.elim
  | exited => rfl

/-- What a worker has received: a request for a job, or nothing that keeps it going. -/
def HasReceived (options : WorkerOptions) (worker : Worker) (state : WorkerState)
    (result : ReceiveStatus × IndexJobRequest × Worker) : Prop :=
  Connected options result.2.2 ∧
    ((result.1 = .OK ∧ result.2.1.id ≠ .Shutdown ∧
        Traces options.workerId worker state result.2.2 (state.receive result.2.1)) ∨
      (result.1.check = .stop ∧ Traces options.workerId worker state result.2.2 .exited))

theorem Connected.waitForRequest (h : Connected options worker) (hwaiting : state.Waiting) :
    Ensures (HasReceived options worker state) worker.waitForRequest := by
  obtain ⟨queues, hqueues⟩ := h.queues
  have hunread : worker.unread = queues.driverToWorker := by
    rw [Worker.unread, hqueues]
    rfl
  set worker' : Worker := { worker with
    messageQueues := some { queues with driverToWorker := queues.driverToWorker.tail } }
    with hworker'
  have hconnected : Connected options worker' := by
    refine ⟨h.mode, h.options_eq, ⟨_, rfl⟩, fun received hmem => h.unread received ?_⟩
    rw [hunread]
    exact List.mem_of_mem_tail hmem
  have hsent : worker'.sent = worker.sent := by
    rw [sent, sent, hqueues]
    rfl
  rw [Worker.waitForRequest, if_neg h.not_compdb, hqueues]
  dsimp only
  rw [← hworker']
  cases hmessages : queues.driverToWorker with
  | nil =>
      refine ⟨hconnected, Or.inr ⟨rfl, [.exit], .cons allows_exit (.nil _), ?_, ?_⟩⟩
      · rw [hunread, hmessages]
        simp [WorkerEvent.received, Worker.unread, hworker', hmessages]
      · exact hsent.trans (List.append_nil _).symm
  | cons received rest =>
      obtain ⟨request, rfl⟩ := h.unread received (by rw [hunread, hmessages]; simp)
      have htraces : Traces options.workerId worker state worker' (state.receive request) := by
        refine ⟨[.receive request], .cons (allows_receive hwaiting request) (.nil _), ?_, ?_⟩
        · rw [hunread, hmessages]
          simp [WorkerEvent.received, Worker.unread, hworker', hmessages]
        · exact hsent.trans (List.append_nil _).symm
      dsimp only [List.head?_cons]
      split
      case isTrue hshutdown =>
          refine ⟨hconnected, Or.inr ⟨rfl, ?_⟩⟩
          rwa [receive_shutdown hwaiting hshutdown] at htraces
      case isFalse hne => exact ⟨hconnected, Or.inl ⟨rfl, hne, htraces⟩⟩

/-- The analysis has been answered, and the request that follows it has been received; or the
worker stops. -/
def HasAnswered (options : WorkerOptions) (worker : Worker) (j : JobId) (status : ReceiveStatus)
    (emitIndexRequestId : JobId) (worker' : Worker) : Prop :=
  Connected options worker' ∧
    ((status = .OK ∧
        Traces options.workerId worker (.analysing j) worker' (.emitting emitIndexRequestId)) ∨
      (status.check = .stop ∧ Traces options.workerId worker (.analysing j) worker' .exited))

theorem Connected.sendRequestAndReceive (h : Connected options worker) {j : JobId}
    {semaResult : SemanticAnalysisJobResult} :
    Ensures (fun result => HasAnswered options worker j result.1 result.2.1.id result.2.2)
      (worker.sendRequestAndReceive env j semaResult) := by
  have hwaiting : (WorkerState.awaiting j).Waiting := trivial
  refine (h.sendResult (allows_analysed semaResult)).bind ?_
  rintro sent ⟨hsent, htraces⟩
  refine (hsent.waitForRequest hwaiting).bind ?_
  rintro ⟨status, request, received⟩ hreceived
  obtain ⟨hconnected, hok | hstop⟩ := hreceived
  · obtain ⟨hstatus, hne, hreceive⟩ := hok
    dsimp only at hstatus hne hreceive ⊢
    rw [WorkerState.receive, if_neg hne] at hreceive
    rw [if_neg (not_not.mpr hstatus), if_neg hne]
    exact ⟨hconnected, Or.inl ⟨hstatus, htraces.trans hreceive⟩⟩
  · obtain ⟨hcheck, hreceive⟩ := hstop
    dsimp only at hcheck hreceive ⊢
    have hstatus : status ≠ .OK := by
      rintro rfl
      cases hcheck
    rw [if_pos hstatus]
    exact ⟨hconnected, Or.inr ⟨hcheck, htraces.trans hreceive⟩⟩

/-- What the callback leaves behind if it is called. -/
def AnsweredBy (options : WorkerOptions) (worker : Worker) (j : JobId) (locals : Locals) : Prop :=
  ∃ status, locals.innerStatus = some status ∧
    HasAnswered options worker j status locals.emitIndexRequestId locals.worker

theorem Connected.callback (locals : Locals) (h : Connected options locals.worker) {j : JobId}
    {semaResult : SemanticAnalysisJobResult} :
    Ensures (fun called => AnsweredBy options locals.worker j called.2 ∧
        called.2.callbackInvoked = locals.callbackInvoked + 1)
      (Worker.callback env j semaResult locals) := by
  rw [Worker.callback]
  dsimp only
  rw [if_neg h.not_compdb]
  refine h.sendRequestAndReceive.bind ?_
  rintro ⟨status, request, received⟩ hanswered
  dsimp only at hanswered ⊢
  obtain ⟨hconnected, hok | hstop⟩ := hanswered
  · rw [if_neg (not_not.mpr hok.1)]
    exact ⟨⟨status, rfl, hconnected, Or.inl hok⟩, rfl⟩
  · have hstatus : status ≠ .OK := by
      rintro rfl
      cases hstop.1
    rw [if_pos hstatus]
    exact ⟨⟨status, rfl, hconnected, Or.inr hstop⟩, rfl⟩

theorem HasAnswered.congr {worker' received : Worker} {j emitIndexRequestId : JobId}
    {status : ReceiveStatus}
    (h : HasAnswered options worker' j status emitIndexRequestId received)
    (hqueues : worker'.messageQueues = worker.messageQueues) :
    HasAnswered options worker j status emitIndexRequestId received := by
  have htraces : Traces options.workerId worker (.analysing j) worker' (.analysing j) :=
    (Traces.refl _ worker _).congr hqueues
  exact ⟨h.1, h.2.imp (fun hok => ⟨hok.1, htraces.trans hok.2⟩)
    fun hstop => ⟨hstop.1, htraces.trans hstop.2⟩⟩

/-- The callback is called once, or not at all. -/
theorem Connected.processTranslationUnit (h : Connected options worker) {command : CommandObject}
    {j : JobId} :
    Ensures (fun processed =>
        AnsweredBy options worker j processed.2 ∧ processed.2.callbackInvoked ≠ 0 ∨
          processed.2.worker.messageQueues = worker.messageQueues ∧
            processed.2.worker.options = worker.options ∧ processed.2.callbackInvoked = 0)
      (Worker.processTranslationUnit env command (Worker.callback env j) { worker }) := by
  have hprocessed : Connected options
      { worker with processed := worker.processed ++ [command] } := h.congr rfl rfl
  rw [Worker.processTranslationUnit]
  dsimp only
  split
  · exact Or.inr ⟨rfl, rfl, rfl⟩
  · refine (Connected.callback { worker := _ } hprocessed).bind ?_
    rintro ⟨details, locals⟩ hcalled
    obtain ⟨⟨status, hstatus, hanswered⟩, hinvoked⟩ := hcalled
    exact Or.inl ⟨⟨status, hstatus, hanswered.congr rfl⟩, by
      rw [hinvoked]
      exact Nat.succ_ne_zero _⟩

/-- If the callback has not been called, the worker answers all the same. -/
theorem Connected.keepGoing (h : Connected options worker) {j : JobId} {locals : Locals}
    (hlocals : AnsweredBy options worker j locals ∧ locals.callbackInvoked ≠ 0 ∨
      locals.worker.messageQueues = worker.messageQueues ∧
        locals.worker.options = worker.options ∧ locals.callbackInvoked = 0) :
    Ensures (AnsweredBy options worker j) (Worker.keepGoing env j locals) := by
  rw [Worker.keepGoing]
  rcases hlocals with ⟨hanswered, hinvoked⟩ | ⟨hqueues, hoptions, hinvoked⟩
  · rw [if_neg hinvoked]
    exact hanswered
  · rw [if_pos hinvoked]
    have hlocals : Connected options locals.worker := h.congr hoptions hqueues
    refine hlocals.sendRequestAndReceive.bind ?_
    rintro ⟨status, request, received⟩ hanswered
    exact ⟨status, rfl, hanswered.congr hqueues⟩

/-- Writing the shards is not seen from outside. -/
theorem Connected.emitIndex (h : Connected options worker) {message : ShardContents}
    {outputPath : Str} :
    Ensures (fun worker' => Connected options worker' ∧
      worker'.messageQueues = worker.messageQueues) (worker.emitIndex env message outputPath) := by
  rw [Worker.emitIndex]
  split
  · exact ⟨h.congr rfl rfl, rfl⟩
  · rfl

theorem Connected.emitAndRespond (h : Connected options worker) {command : CommandObject}
    {output : TuIndexingOutput} {j : JobId} :
    Ensures (fun worker' => Connected options worker' ∧
        Traces options.workerId worker (.emitting j) worker' .idle)
      (Worker.emitAndRespond env command output j worker) := by
  rw [Worker.emitAndRespond, if_neg h.not_compdb, h.options_eq]
  refine h.emitIndex.bind ?_
  rintro docs ⟨hdocs, hdocsQueues⟩
  refine hdocs.emitIndex.bind ?_
  rintro decls ⟨hdecls, hdeclsQueues⟩
  have hstatistics : Connected options
      { decls with statistics := ⟨env.totalTimeMicros command⟩ } := hdecls.congr rfl rfl
  refine (hstatistics.sendResult (allows_emitted _)).mono ?_
  rintro worker' ⟨hconnected, htraces⟩
  have hwritten : Traces options.workerId worker (.emitting j)
      { decls with statistics := ⟨env.totalTimeMicros command⟩ } (.emitting j) :=
    (Traces.refl _ worker _).congr (hdeclsQueues.trans hdocsQueues)
  exact ⟨hconnected, hwritten.trans htraces⟩

/-- A request is answered twice, unless the worker stops in between. -/
theorem Connected.processTranslationUnitAndRespond (h : Connected options worker)
    {request : IndexJobRequest} :
    Ensures (fun responded => Connected options responded.2 ∧
        Traces options.workerId worker (.analysing request.id) responded.2
          (if responded.1.check = .stop then .exited else .idle))
      (Worker.processTranslationUnitAndRespond env request worker) := by
  refine h.processTranslationUnit.bind ?_
  rintro ⟨output, locals⟩ hprocessed
  refine (h.keepGoing hprocessed).bind ?_
  rintro locals ⟨status, hstatus, hconnected, hanswered⟩
  rw [hstatus]
  dsimp only
  rcases hanswered with ⟨hok, htraces⟩ | ⟨hstop, htraces⟩
  · rw [if_neg (not_not.mpr hok)]
    refine hconnected.emitAndRespond.bind ?_
    rintro worker' ⟨hresponded, hemitted⟩
    exact ⟨hresponded, htraces.trans hemitted⟩
  · have hne : status ≠ .OK := by
      rintro rfl
      cases hstop
    rw [if_pos hne]
    refine ⟨hconnected, ?_⟩
    rwa [if_pos hstop]

theorem Connected.round (h : Connected options worker) :
    Ensures (fun rounded => Connected options rounded.2 ∧
        Traces options.workerId worker .idle rounded.2 (if rounded.1 then .exited else .idle))
      (Worker.round env worker) := by
  have hwaiting : WorkerState.idle.Waiting := trivial
  refine (h.waitForRequest hwaiting).bind ?_
  rintro ⟨status, request, received⟩ hreceived
  obtain ⟨hconnected, ⟨hstatus, hne, htraces⟩ | ⟨hstop, htraces⟩⟩ := hreceived
  · dsimp only at hconnected hstatus hne htraces ⊢
    subst hstatus
    rw [WorkerState.receive, if_neg hne] at htraces
    refine hconnected.processTranslationUnitAndRespond.bind ?_
    rintro ⟨status, worker'⟩ hresponded
    obtain ⟨hconnected', hanswered⟩ := hresponded
    refine ⟨hconnected', htraces.trans ?_⟩
    by_cases hcheck : status.check = .stop <;> simpa [hcheck] using hanswered
  · dsimp only at hconnected hstop htraces ⊢
    rw [hstop]
    exact ⟨hconnected, htraces⟩

theorem Connected.run (h : Connected options worker) (rounds : Nat) :
    Ensures (fun ran => Connected options ran.2 ∧
        Traces options.workerId worker .idle ran.2 (if ran.1 then .exited else .idle))
      (Worker.run env rounds worker) := by
  induction rounds generalizing worker with
  | zero => exact ⟨h, .refl _ _ _⟩
  | succ rounds ih =>
      refine h.round.bind ?_
      rintro ⟨stopped, worker'⟩ ⟨hconnected, htraces⟩
      cases stopped with
      | true => exact ⟨hconnected, htraces⟩
      | false => exact (ih hconnected).mono fun ran hran => ⟨hran.1, htraces.trans hran.2⟩

end Code

/-- **The code refines the worker of the protocol.**  If all messages are well-formed, what the
code receives and sends in any number of rounds, in this order, the protocol lets the worker
do, one step after the other and whatever the others do in between.  The requests are those of the
queue, in order and without a gap, and the worker has exited if and only if the code has stopped. -/
theorem run_refines {env : WorkerEnv} {options : WorkerOptions}
    {requests : List IndexJobRequest} {rounds : Nat} {stopped : Bool} {worker : Worker}
    (hran : run env rounds (forDriver options { driverToWorker := requests.map .request }) =
      .ok (stopped, worker)) :
    ∃ events, (workerProcess options.workerId).Run .idle events
        (if stopped then .exited else .idle) ∧
      requests.map .request = (WorkerEvent.received events).map .request ++ worker.unread ∧
      worker.sent = WorkerEvent.sent events := by
  have hconnected : Connected { options with mode := .Ipc }
      (forDriver options { driverToWorker := requests.map .request }) := by
    refine ⟨rfl, rfl, ⟨_, rfl⟩, fun received hmem => ?_⟩
    obtain ⟨request, -, rfl⟩ := List.mem_map.mp hmem
    exact ⟨request, rfl⟩
  have hrefines := @Connected.run env _ _ hconnected rounds
  rw [hran] at hrefines
  obtain ⟨-, events, hrun, hunread, hsent⟩ := hrefines
  exact ⟨events, hrun, hunread, hsent⟩

/-- Surroundings in which everything succeeds. -/
def readyEnv : WorkerEnv where
  semaResult := fun _ => some {}
  tuIndexingOutput := fun _ _ => {}
  canOpen := fun _ => true
  canSend := fun _ => true
  totalTimeMicros := fun _ => 0

/-- A translation unit is indexed, and the worker is shut down. -/
theorem run_refines_oneUnit : ∃ events,
    (workerProcess 3).Run .idle events .exited ∧
      WorkerEvent.received events = [⟨.newTask 0, {}⟩, ⟨(JobId.newTask 0).nextSubtask,
        { kind := .EmitIndex }⟩, shutdownRequest] ∧
      (WorkerEvent.sent events).map IndexJobResponse.jobId =
        [.newTask 0, (JobId.newTask 0).nextSubtask] := by
  have hran : ∃ worker, run readyEnv 2 (forDriver { mode := .Ipc, workerId := 3 }
      { driverToWorker := [⟨.newTask 0, {}⟩, ⟨(JobId.newTask 0).nextSubtask,
        { kind := .EmitIndex }⟩, shutdownRequest].map .request }) = .ok (true, worker) ∧
      worker.unread = [] ∧
      worker.sent.map IndexJobResponse.jobId = [.newTask 0, (JobId.newTask 0).nextSubtask] :=
    ⟨_, rfl, rfl, rfl⟩
  obtain ⟨worker, hran, hunread, hsent⟩ := hran
  obtain ⟨events, hrun, hreceived, hresponses⟩ := run_refines hran
  rw [hunread, List.append_nil] at hreceived
  refine ⟨events, hrun, ?_, hresponses ▸ hsent⟩
  exact (List.map_injective_iff.mpr (fun _ _ h => Received.request.inj h) hreceived).symm

end Worker

end ScipClang
