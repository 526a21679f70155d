import ScipClang.Driver.Conservation
import ScipClang.Protocol.Model

/-!
# Agreement between the driver and its workers

The invariant behind `Agreement` says, for each worker, how what the scheduler knows
about it, the messages on their way to it, its state and the responses on their way to
the driver fit together (`AgreesAt`).  A step of the driver or of one worker changes one
of these views and leaves the others as they are (`AgreesAt.frame`,
`ProtocolInv.of_worker`).

## Main result

* `agreement_of_reachable`: agreement holds in every run in which the driver terminates a
  worker only after the worker has taken its request out of its queue, and any other
  termination breaks it at once.
-/

namespace ScipClang

/-! ## The invariant -/

/-- The messages on their way to a worker. -/
def World.mail (W : World) (w : WorkerId) : List IndexJobRequest :=
  W.driverToWorker w ++
    match W.sending with
    | some (v, request) => if v = w then [request] else []
    | none => []

/-- A response for the job is on its way to the driver. -/
def World.Answered (W : World) (j : JobId) : Prop :=
  ∃ response ∈ W.workerToDriver, response.jobId = j

namespace WorkerState

/-- The worker has nothing to do. -/
def Resting (state : WorkerState) : Prop :=
  state = .exited ∨ state = .idle

/-- The worker is where the request for the job finds it. -/
def ReadyFor (j : JobId) (state : WorkerState) : Prop :=
  state = .exited ∨ (j.subtaskId = 0 ∧ state = .idle) ∨
    ∃ i : JobId, i.subtaskId = 0 ∧ j = i.nextSubtask ∧ state = .awaiting i

/-- The worker works on the job. -/
def WorkingOn (j : JobId) (state : WorkerState) : Prop :=
  state = .exited ∨ (j.subtaskId = 0 ∧ state = .analysing j) ∨
    (j.subtaskId = 1 ∧ state = .emitting j)

/-- The worker has answered the job. -/
def DoneWith (j : JobId) (state : WorkerState) : Prop :=
  state = .exited ∨ (j.subtaskId = 0 ∧ state = .awaiting j) ∨ (j.subtaskId = 1 ∧ state = .idle)

end WorkerState

/-- The two sides agree about a worker: what the scheduler knows about it, the messages on
their way to it, its state and the responses on their way to the driver fit together. -/
inductive AgreesAt (s : Scheduler) (mail : List IndexJobRequest) (state : WorkerState)
    (answered : JobId → Prop) (w : WorkerId) : Prop
  | idle : s.jobOf w = none → s.statusOf w ≠ some .Stopped → mail = [] → state.Resting →
      AgreesAt s mail state answered w
  | stopping : s.jobOf w = none → s.statusOf w = some .Stopped → mail = [shutdownRequest] →
      state.Resting → AgreesAt s mail state answered w
  | stopped : s.jobOf w = none → s.statusOf w = some .Stopped → mail = [] → state = .exited →
      AgreesAt s mail state answered w
  | requested {j : JobId} : s.jobOf w = some j → mail = [requestFor s j] → ¬ answered j →
      state.ReadyFor j → AgreesAt s mail state answered w
  | working {j : JobId} : s.jobOf w = some j → mail = [] → ¬ answered j →
      state.WorkingOn j → AgreesAt s mail state answered w
  | done {j : JobId} : s.jobOf w = some j → mail = [] → answered j →
      state.DoneWith j → AgreesAt s mail state answered w

/-- Agreement about a worker depends on the scheduler only through the status and the
current job of that worker. -/
theorem AgreesAt.frame {s s' : Scheduler} {mail : List IndexJobRequest} {state : WorkerState}
    {answered answered' : JobId → Prop} {w : WorkerId} (h : AgreesAt s mail state answered w)
    (hjob : s'.jobOf w = s.jobOf w) (hstatus : s'.statusOf w = s.statusOf w)
    (hcurrent : ∀ j, s.jobOf w = some j → s'.trackedJob j = s.trackedJob j ∧
      (answered' j ↔ answered j)) : AgreesAt s' mail state answered' w := by
  cases h with
  | idle hnone hst hmail hstate =>
      exact .idle (hjob.trans hnone) (hstatus ▸ hst) hmail hstate
  | stopping hnone hst hmail hstate =>
      exact .stopping (hjob.trans hnone) (hstatus.trans hst) hmail hstate
  | stopped hnone hst hmail hstate =>
      exact .stopped (hjob.trans hnone) (hstatus.trans hst) hmail hstate
  | @requested j hj hmail hans hstate =>
      obtain ⟨htracked, hiff⟩ := hcurrent j hj
      refine .requested (hjob.trans hj) ?_ (fun hans' => hans (hiff.mp hans')) hstate
      rw [hmail, requestFor, requestFor, htracked]
  | @working j hj hmail hans hstate =>
      obtain ⟨-, hiff⟩ := hcurrent j hj
      exact .working (hjob.trans hj) hmail (fun hans' => hans (hiff.mp hans')) hstate
  | @done j hj hmail hans hstate =>
      obtain ⟨-, hiff⟩ := hcurrent j hj
      exact .done (hjob.trans hj) hmail (hiff.mpr hans) hstate

/-- The invariant of the protocol. -/
structure ProtocolInv (W : World) : Prop where
  inv : W.driver.scheduler.Inv
  /-- Responses are from the worker the job was assigned to, and of the kind of the job. -/
  valid : ∀ response ∈ W.workerToDriver,
    W.driver.scheduler.Assigned response.jobId response.workerId response.result.kind
  agrees : ∀ w, AgreesAt W.driver.scheduler (W.mail w) (W.worker w) W.Answered w

namespace ProtocolInv

variable {W : World}

/-- A job that is on its way to the driver was assigned to some worker. -/
theorem assigned_of_answered (h : ProtocolInv W) {j : JobId} (hj : W.Answered j) :
    ∃ w kind, W.driver.scheduler.Assigned j w kind := by
  obtain ⟨response, hmem, rfl⟩ := hj
  exact ⟨_, _, h.valid response hmem⟩

theorem not_answered_of_unknown (h : ProtocolInv W) {j : JobId}
    (hj : W.driver.scheduler.allJobList j = none) : ¬ W.Answered j := by
  intro hans
  obtain ⟨w, kind, hassigned⟩ := h.assigned_of_answered hans
  exact hassigned.ne_of_unknown hj rfl

theorem not_answered_of_pending (h : ProtocolInv W) {j : JobId}
    (hj : j ∈ W.driver.scheduler.pendingJobs) : ¬ W.Answered j := by
  intro hans
  obtain ⟨w, kind, t, ht, hworker, -⟩ := h.assigned_of_answered hans
  exact h.inv.notMem_pending_of_assigned ht hworker hj

/-- The current job of a worker is known. -/
theorem known_of_jobOf (h : ProtocolInv W) {w : WorkerId} {j : JobId}
    (hj : W.driver.scheduler.jobOf w = some j) : W.driver.scheduler.allJobList j ≠ none := by
  obtain ⟨t, ht, -⟩ := h.inv.running_assigned w j hj
  rw [ht]
  simp

/-- A response for the current job of a worker is from that worker. -/
theorem worker_of_response (h : ProtocolInv W) {response : IndexJobResponse}
    (hmem : response ∈ W.workerToDriver) {w : WorkerId}
    (hj : W.driver.scheduler.jobOf w = some response.jobId) : response.workerId = w := by
  obtain ⟨t, ht, hworker, -⟩ := h.valid response hmem
  obtain ⟨t', ht', hworker'⟩ := h.inv.running_assigned w _ hj
  rw [ht, Option.some.injEq] at ht'
  subst ht'
  rw [hworker, Option.some.injEq] at hworker'
  exact hworker'

/-- Nothing is on its way to a worker that the scheduler has listed as idle. -/
theorem resting_of_idle (h : ProtocolInv W) {w : WorkerId}
    (hstatus : W.driver.scheduler.statusOf w = some .Idle) :
    W.driver.scheduler.jobOf w = none ∧ W.mail w = [] ∧ (W.worker w).Resting := by
  cases h.agrees w with
  | idle hnone _ hmail hstate => exact ⟨hnone, hmail, hstate⟩
  | stopping _ hst _ _ => simp [hstatus] at hst
  | stopped _ hst _ _ => simp [hstatus] at hst
  | requested hj _ _ _ => simp [h.inv.statusOf_of_jobOf hj] at hstatus
  | working hj _ _ _ => simp [h.inv.statusOf_of_jobOf hj] at hstatus
  | done hj _ _ _ => simp [h.inv.statusOf_of_jobOf hj] at hstatus

theorem queue (h : ProtocolInv W) (hsending : W.sending = none) {cmdObject : CommandObject}
    (hfresh : W.driver.scheduler.allJobList (Scheduler.semaJobId cmdObject) = none) :
    ProtocolInv (W.schedule (W.driver.scheduler.queueSemaTask cmdObject) none) := by
  have hworkers : (W.driver.scheduler.queueSemaTask cmdObject).workers =
      W.driver.scheduler.workers := by
    simp [Scheduler.queueSemaTask, Scheduler.emplaceJob, hfresh]
  refine ⟨h.inv.queueSemaTask hfresh, fun r hr => (h.valid r hr).queueSemaTask hfresh, ?_⟩
  intro w
  have hmail : (W.schedule (W.driver.scheduler.queueSemaTask cmdObject) none).mail w =
      W.mail w := by
    simp [World.mail, World.schedule, hsending]
  rw [hmail]
  refine (h.agrees w).frame ?_ ?_ ?_
  · exact congrArg (fun l : List WorkerInfo => l[w]?.bind (·.currentlyProcessing)) hworkers
  · exact congrArg (fun l : List WorkerInfo => l[w]?.map (·.status)) hworkers
  · intro j hj
    refine ⟨?_, Iff.rfl⟩
    refine (Scheduler.trackedJob_queueSemaTask hfresh j).trans (if_neg ?_)
    intro heq
    rw [heq] at hj
    exact h.known_of_jobOf hj hfresh

theorem assign (h : ProtocolInv W) (hsending : W.sending = none) {j : JobId}
    {pending : List JobId} (hpending : W.driver.scheduler.pendingJobs = j :: pending)
    {w : WorkerId} {idle : List WorkerId} (hidle : W.driver.scheduler.idleWorkers = w :: idle)
    (now : Instant) {scheduler : Scheduler} {request : IndexJobRequest}
    (heq : Scheduler.scheduleJobOnWorker
      { W.driver.scheduler with
        pendingJobs := pending
        wipJobs := insert j W.driver.scheduler.wipJobs
        idleWorkers := idle } w j now = (scheduler, request)) :
    ProtocolInv (W.schedule scheduler (some (w, request))) := by
  set s₁ : Scheduler :=
    { W.driver.scheduler with
      pendingJobs := pending
      wipJobs := insert j W.driver.scheduler.wipJobs
      idleWorkers := idle } with hs₁
  have hfst : (s₁.scheduleJobOnWorker w j now).1 = scheduler := congrArg Prod.fst heq
  have hsnd : (s₁.scheduleJobOnWorker w j now).2 = request := congrArg Prod.snd heq
  have hscheduler : scheduler =
      Scheduler.tryAssignJobToWorker ⟨fun _ => true, fun _ => now⟩ s₁ w j := hfst.symm
  have hrequest : request = requestFor scheduler j := by
    rw [← hfst, ← hsnd]
    rfl
  have hmem : j ∈ W.driver.scheduler.pendingJobs := by simp [hpending]
  have hstatus : W.driver.scheduler.statusOf w = some .Idle :=
    (h.inv.mem_idle w).mp (by simp [hidle])
  have hmoves := Scheduler.Moves.tryAssign h.inv ⟨fun _ => true, fun _ => now⟩
    (fun _ => rfl) hpending w idle
  have hinv := h.inv.tryAssign ⟨fun _ => true, fun _ => now⟩ hpending hidle
  rw [← hs₁, ← hscheduler] at hmoves hinv
  have hjob : ∀ v, scheduler.jobOf v =
      if v = w then some j else W.driver.scheduler.jobOf v := by
    intro v
    rw [hscheduler]
    exact Scheduler.jobOf_markWorkerBusy (s := s₁) hstatus j now v
  have hstatus' : ∀ v, scheduler.statusOf v =
      if v = w then some .Busy else W.driver.scheduler.statusOf v := by
    intro v
    rw [hscheduler]
    exact Scheduler.statusOf_markWorkerBusy (s := s₁) hstatus j now v
  refine ⟨hinv, fun r hr => hmoves.assigned _ _ _ (h.valid r hr), ?_⟩
  intro v
  -- the worker that gets the job rests, so that nothing else is on its way to it
  by_cases hv : v = w
  · subst hv
    obtain ⟨-, hmail, hrest⟩ := h.resting_of_idle hstatus
    have hsub : j.subtaskId = 0 := by
      obtain ⟨t, ht, -, hkind⟩ := h.inv.pending_unassigned j hmem
      exact Scheduler.subtaskId_of_sema h.inv ht hkind
    refine .requested (j := j) ?_ ?_ (h.not_answered_of_pending hmem) ?_
    · exact (hjob v).trans (if_pos rfl)
    · have hempty : W.driverToWorker v = [] := by simpa [World.mail, hsending] using hmail
      simp [World.mail, World.schedule, hempty, hrequest]
    · rcases hrest with hexited | hidle'
      · exact Or.inl hexited
      · exact Or.inr (Or.inl ⟨hsub, hidle'⟩)
  · have hmail : (W.schedule scheduler (some (w, request))).mail v = W.mail v := by
      simp [World.mail, World.schedule, hsending, Ne.symm hv]
    rw [hmail]
    refine (h.agrees v).frame ((hjob v).trans (if_neg hv)) ((hstatus' v).trans (if_neg hv)) ?_
    intro k _
    exact ⟨congrFun hmoves.trackedJob k, Iff.rfl⟩

theorem deliver (h : ProtocolInv W) {w : WorkerId} {request : IndexJobRequest}
    (hsending : W.sending = some (w, request)) :
    ProtocolInv { W with
      driverToWorker := Function.update W.driverToWorker w (W.driverToWorker w ++ [request])
      sending := none } := by
  refine ⟨h.inv, h.valid, ?_⟩
  intro v
  have hmail : World.mail { W with
      driverToWorker := Function.update W.driverToWorker w (W.driverToWorker w ++ [request])
      sending := none } v = W.mail v := by
    by_cases hv : v = w
    · subst hv
      simp [World.mail, hsending]
    · simp [World.mail, hsending, hv, Ne.symm hv]
  rw [hmail]
  exact h.agrees v

/-- The only message on its way to a worker whose request is being sent is that request. -/
theorem sending_cases (h : ProtocolInv W) {w : WorkerId} {request : IndexJobRequest}
    (hsending : W.sending = some (w, request)) :
    W.driverToWorker w = [] ∧
      (request = shutdownRequest ∨ ∃ j, W.driver.scheduler.jobOf w = some j ∧
        request = requestFor W.driver.scheduler j ∧ (W.worker w).ReadyFor j) := by
  have hmail : W.mail w = W.driverToWorker w ++ [request] := by simp [World.mail, hsending]
  have hagrees := h.agrees w
  rw [hmail] at hagrees
  cases hagrees with
  | idle _ _ hnil _ => simp at hnil
  | stopping _ _ hone _ =>
      obtain ⟨hempty, hrequest⟩ := List.append_eq_singleton_iff.mp hone |>.resolve_right (by simp)
      exact ⟨hempty, Or.inl (by simpa using hrequest)⟩
  | stopped _ _ hnil _ => simp at hnil
  | @requested j hj hone _ hstate =>
      obtain ⟨hempty, hrequest⟩ := List.append_eq_singleton_iff.mp hone |>.resolve_right (by simp)
      exact ⟨hempty, Or.inr ⟨j, hj, by simpa using hrequest, hstate⟩⟩
  | working _ hnil _ _ => simp at hnil
  | done _ hnil _ _ => simp at hnil

theorem sendFailed (h : ProtocolInv W) {w : WorkerId} {request : IndexJobRequest}
    (hsending : W.sending = some (w, request)) (hshutdown : request.id ≠ .Shutdown)
    (hkind : request.job.kind = .SemanticAnalysis) :
    ProtocolInv
      (W.schedule (W.driver.scheduler.descheduleJobDueToSendError w request.id) none) := by
  obtain ⟨hempty, hrequest⟩ := h.sending_cases hsending
  rcases hrequest with rfl | ⟨j, hj, rfl, hready⟩
  · exact absurd rfl hshutdown
  obtain ⟨t, ht, -⟩ := h.inv.running_assigned w j hj
  have hsub : j.subtaskId = 0 := by
    refine Scheduler.subtaskId_of_sema h.inv ht ?_
    simpa [requestFor, Scheduler.trackedJob, ht] using hkind
  have hbusy := h.inv.statusOf_of_jobOf hj
  refine ⟨h.inv.release hj, h.valid, ?_⟩
  intro v
  by_cases hv : v = w
  · subst hv
    refine .idle ?_ ?_ ?_ ?_
    · exact (Scheduler.jobOf_markWorkerIdle hbusy v).trans (if_pos rfl)
    · intro hst
      have hidle := (Scheduler.statusOf_markWorkerIdle hbusy v).trans (if_pos rfl)
      rw [show (W.driver.scheduler.markWorkerIdle v).statusOf v = some .Stopped from hst] at hidle
      cases hidle
    · simp [World.mail, World.schedule, hempty]
    · rcases hready with hexited | ⟨-, hidle⟩ | ⟨i, hi, hnext, -⟩
      · exact Or.inl hexited
      · exact Or.inr hidle
      · rw [hnext, JobId.nextSubtask_subtaskId_of_zero hi] at hsub
        exact absurd hsub (by decide)
  · have hmail : (W.schedule (W.driver.scheduler.descheduleJobDueToSendError w
        (requestFor W.driver.scheduler j).id) none).mail v = W.mail v := by
      simp [World.mail, World.schedule, hsending, Ne.symm hv]
    rw [hmail]
    refine (h.agrees v).frame ?_ ?_ fun k _ => ⟨rfl, Iff.rfl⟩
    · exact (Scheduler.jobOf_markWorkerIdle hbusy v).trans (if_neg hv)
    · exact (Scheduler.statusOf_markWorkerIdle hbusy v).trans (if_neg hv)

theorem terminate (h : ProtocolInv W) (hsending : W.sending = none) {w : WorkerId}
    (hempty : W.driverToWorker w = []) {j : JobId}
    (hj : W.driver.scheduler.jobOf w = some j) (handle : Process) :
    ProtocolInv
      ((W.schedule (W.driver.scheduler.terminated w j handle) none).setWorker w .idle) := by
  have hsome := Scheduler.isSome_of_statusOf (h.inv.statusOf_of_jobOf hj)
  have hjob := Scheduler.jobOf_terminated hsome j handle
  have hstatus := Scheduler.statusOf_terminated hsome j handle
  refine ⟨h.inv.terminate hj handle, h.valid, ?_⟩
  intro v
  have hmail : ((W.schedule (W.driver.scheduler.terminated w j handle) none).setWorker w
      .idle).mail v = W.mail v := by
    simp [World.mail, World.schedule, World.setWorker, hsending]
  rw [hmail]
  by_cases hv : v = w
  · subst hv
    refine .idle ((hjob v).trans (if_pos rfl)) ?_ (by simp [World.mail, hsending, hempty]) ?_
    · intro hst
      have hidle := (hstatus v).trans (if_pos rfl)
      rw [show (W.driver.scheduler.terminated v j handle).statusOf v = some .Stopped from hst]
        at hidle
      cases hidle
    · exact Or.inr (by simp [World.setWorker])
  · have hstate : ((W.schedule (W.driver.scheduler.terminated w j handle) none).setWorker w
        .idle).worker v = W.worker v := by
      simp [World.schedule, World.setWorker, hv]
    rw [hstate]
    exact (h.agrees v).frame ((hjob v).trans (if_neg hv)) ((hstatus v).trans (if_neg hv))
      fun k _ => ⟨rfl, Iff.rfl⟩

theorem shutdown (h : ProtocolInv W) (hsending : W.sending = none) {w : WorkerId}
    {idle : List WorkerId} (hidle : W.driver.scheduler.idleWorkers = idle ++ [w]) :
    ProtocolInv
      (W.schedule (W.driver.scheduler.shutdownLastIdle w) (some (w, shutdownRequest))) := by
  have hw : W.driver.scheduler.statusOf w = some .Idle :=
    (h.inv.mem_idle w).mp (by simp [hidle])
  have hstatus : ∀ v, (W.driver.scheduler.shutdownLastIdle w).statusOf v =
      if v = w then some .Stopped else W.driver.scheduler.statusOf v :=
    fun v => Scheduler.statusOf_markWorkerStopped (s := { W.driver.scheduler with
      idleWorkers := W.driver.scheduler.idleWorkers.dropLast }) hw v
  have hjob : ∀ v, (W.driver.scheduler.shutdownLastIdle w).jobOf v =
      W.driver.scheduler.jobOf v :=
    fun v => Scheduler.jobOf_markWorkerStopped (s := { W.driver.scheduler with
      idleWorkers := W.driver.scheduler.idleWorkers.dropLast }) v
  refine ⟨h.inv.shutdownLastIdle hidle, h.valid, ?_⟩
  intro v
  by_cases hv : v = w
  · subst hv
    obtain ⟨hnone, hmail, hrest⟩ := h.resting_of_idle hw
    refine .stopping ((hjob v).trans hnone) ((hstatus v).trans (if_pos rfl)) ?_ hrest
    have hempty : W.driverToWorker v = [] := by simpa [World.mail, hsending] using hmail
    simp [World.mail, World.schedule, hempty]
  · have hmail : (W.schedule (W.driver.scheduler.shutdownLastIdle w)
        (some (w, shutdownRequest))).mail v = W.mail v := by
      simp [World.mail, World.schedule, hsending, Ne.symm hv]
    rw [hmail]
    exact (h.agrees v).frame (hjob v) ((hstatus v).trans (if_neg hv)) fun k _ => ⟨rfl, Iff.rfl⟩

/-- A late response changes nothing that the workers see. -/
theorem respond_late (h : ProtocolInv W) (hsending : W.sending = none)
    {response : IndexJobResponse} {rest : List IndexJobResponse}
    (hqueue : W.workerToDriver = response :: rest)
    (hdead : W.driver.scheduler.jobOf response.workerId ≠ some response.jobId)
    {sending : Option (WorkerId × IndexJobRequest)} (hnone : sending = none) :
    ProtocolInv { W with
      driver := { W.driver with scheduler := { W.driver.scheduler with
        maybeErroredJobs := W.driver.scheduler.maybeErroredJobs.erase response.jobId } }
      workerToDriver := rest
      sending } := by
  have hmem : response ∈ W.workerToDriver := by simp [hqueue]
  refine ⟨h.inv.late response.jobId, fun r hr => h.valid r (by simp [hqueue, hr]), ?_⟩
  intro v
  have hmail : World.mail { W with
      driver := { W.driver with scheduler := { W.driver.scheduler with
        maybeErroredJobs := W.driver.scheduler.maybeErroredJobs.erase response.jobId } }
      workerToDriver := rest
      sending } v = W.mail v := by
    simp [World.mail, hsending, hnone]
  rw [hmail]
  refine (h.agrees v).frame rfl rfl fun k hk => ⟨rfl, ?_⟩
  have hne : response.jobId ≠ k := by
    rintro rfl
    have hworker := h.worker_of_response hmem hk
    rw [hworker] at hdead
    exact hdead hk
  simp [World.Answered, hqueue, hne]

/-- When a response for its current job arrives, a live worker has nothing in its queue and
waits for what comes next. -/
theorem done_of_response (h : ProtocolInv W) {response : IndexJobResponse}
    (hmem : response ∈ W.workerToDriver)
    (hlive : W.driver.scheduler.jobOf response.workerId = some response.jobId) :
    W.mail response.workerId = [] ∧
      (W.worker response.workerId).DoneWith response.jobId := by
  have hans : W.Answered response.jobId := ⟨response, hmem, rfl⟩
  cases h.agrees response.workerId with
  | idle hnone _ _ _ => simp [hlive] at hnone
  | stopping hnone _ _ _ => simp [hlive] at hnone
  | stopped hnone _ _ _ => simp [hlive] at hnone
  | requested hj _ hnot _ =>
      rw [hlive, Option.some.injEq] at hj
      exact absurd (hj ▸ hans) hnot
  | working hj _ hnot _ =>
      rw [hlive, Option.some.injEq] at hj
      exact absurd (hj ▸ hans) hnot
  | done hj hmail _ hstate =>
      rw [hlive, Option.some.injEq] at hj
      subst hj
      exact ⟨hmail, hstate⟩

theorem respond_sema (h : ProtocolInv W) (hsending : W.sending = none)
    {response : IndexJobResponse} {rest : List IndexJobResponse}
    (hqueue : W.workerToDriver = response :: rest)
    (hlive : W.driver.scheduler.jobOf response.workerId = some response.jobId)
    (hsema : response.result.kind = .SemanticAnalysis) {planner : FileIndexingPlanner}
    {files : List PreprocessedFileInfo} {now : Instant}
    {sending : Option (WorkerId × IndexJobRequest)}
    (hnext : sending = some (response.workerId,
      requestFor (W.driver.scheduler.analysed response.workerId response.jobId
        (Driver.emitJob files) now) response.jobId.nextSubtask)) :
    ProtocolInv { W with
      driver := { W.driver with
        planner
        scheduler := W.driver.scheduler.analysed response.workerId response.jobId
          (Driver.emitJob files) now }
      workerToDriver := rest
      sending } := by
  have hmem : response ∈ W.workerToDriver := by simp [hqueue]
  obtain ⟨t, ht, hworker, hkind⟩ := h.valid response hmem
  rw [hsema] at hkind
  have hunknown := Scheduler.nextSubtask_unknown_of_running h.inv hlive ht hkind
  have hsub := Scheduler.subtaskId_of_sema h.inv ht hkind
  have hworkers := Scheduler.workers_analysed (Driver.emitJob files) now hlive
  have hvalid : ∀ r ∈ rest, r ∈ W.workerToDriver := fun r hr => by simp [hqueue, hr]
  refine ⟨h.inv.analysed hlive ht hkind rfl,
    fun r hr => (h.valid r (hvalid r hr)).analysed hunknown, ?_⟩
  intro v
  by_cases hv : v = response.workerId
  · subst hv
    obtain ⟨hmail, hdone⟩ := h.done_of_response hmem hlive
    refine .requested ((hworkers _).1.trans (if_pos rfl)) ?_ ?_ ?_
    · have hempty : W.driverToWorker response.workerId = [] := by
        simpa [World.mail, hsending] using hmail
      simp [World.mail, hempty, hnext]
    · rintro ⟨r, hr, hjob⟩
      exact h.not_answered_of_unknown hunknown ⟨r, hvalid r hr, hjob⟩
    · rcases hdone with hexited | ⟨-, hawaiting⟩ | ⟨hone, -⟩
      · exact Or.inl hexited
      · exact Or.inr (Or.inr ⟨response.jobId, hsub, rfl, hawaiting⟩)
      · exact absurd hone (JobId.subtaskId_ne_one_of_zero hsub)
  · have hmail : World.mail { W with
        driver := { W.driver with
          planner
          scheduler := W.driver.scheduler.analysed response.workerId response.jobId
            (Driver.emitJob files) now }
        workerToDriver := rest
        sending } v = W.mail v := by
      simp [World.mail, hsending, hnext, Ne.symm hv]
    rw [hmail]
    refine (h.agrees v).frame ((hworkers v).1.trans (if_neg hv))
      ((hworkers v).2.trans (if_neg hv)) fun k hk => ⟨?_, ?_⟩
    · -- the follow-up is new, so that no other worker can be at it
      refine (Scheduler.trackedJob_analysed hunknown k).trans (if_neg ?_)
      rintro rfl
      exact h.known_of_jobOf hk hunknown
    · have hne : response.jobId ≠ k := by
        rintro rfl
        exact hv (h.inv.jobOf_inj hk hlive)
      simp [World.Answered, hqueue, hne]

theorem respond_emit (h : ProtocolInv W) (hsending : W.sending = none)
    {response : IndexJobResponse} {rest : List IndexJobResponse}
    (hqueue : W.workerToDriver = response :: rest)
    (hlive : W.driver.scheduler.jobOf response.workerId = some response.jobId)
    (hemit : response.result.kind = .EmitIndex) {driver : Driver}
    (hdriver : driver.scheduler =
      (W.driver.scheduler.markCompleted response.workerId response.jobId).1)
    {sending : Option (WorkerId × IndexJobRequest)} (hnone : sending = none) :
    ProtocolInv { W with driver, workerToDriver := rest, sending } := by
  have hmem : response ∈ W.workerToDriver := by simp [hqueue]
  have hworkers := Scheduler.workers_markCompleted hlive
  have hone : response.jobId.subtaskId = 1 := by
    obtain ⟨t, ht, -, hkind⟩ := h.valid response hmem
    rcases h.inv.shape _ t ht with ⟨hsema, -⟩ | ⟨-, hone⟩
    · rw [hkind, hemit] at hsema
      cases hsema
    · exact hone
  refine ⟨?_, ?_, ?_⟩
  · show driver.scheduler.Inv
    rw [hdriver]
    exact h.inv.markCompleted _ _
  · intro r hr
    show driver.scheduler.Assigned _ _ _
    rw [hdriver, Scheduler.Assigned, Scheduler.allJobList_markCompleted]
    exact h.valid r (by simp [hqueue, show r ∈ rest from hr])
  · intro v
    have hmail : World.mail { W with driver, workerToDriver := rest, sending } v = W.mail v := by
      simp [World.mail, hsending, hnone]
    rw [hmail]
    show AgreesAt driver.scheduler _ _ _ v
    rw [hdriver]
    by_cases hv : v = response.workerId
    · subst hv
      obtain ⟨hmail, hdone⟩ := h.done_of_response hmem hlive
      refine .idle ((hworkers _).1.trans (if_pos rfl)) ?_ hmail ?_
      · rw [(hworkers _).2, if_pos rfl]
        simp
      · rcases hdone with hexited | ⟨hzero, -⟩ | ⟨-, hidle⟩
        · exact Or.inl hexited
        · exact absurd hone (JobId.subtaskId_ne_one_of_zero hzero)
        · exact Or.inr hidle
    · refine (h.agrees v).frame ((hworkers v).1.trans (if_neg hv))
        ((hworkers v).2.trans (if_neg hv)) fun k hk => ⟨?_, ?_⟩
      · exact congrFun (Scheduler.trackedJob_markCompleted _ _) k
      · have hne : response.jobId ≠ k := by
          rintro rfl
          exact hv (h.inv.jobOf_inj hk hlive)
        simp [World.Answered, hqueue, hne]

theorem respond (h : ProtocolInv W) {env : DriverEnv} (hsending : W.sending = none)
    {response : IndexJobResponse} {rest : List IndexJobResponse}
    (hqueue : W.workerToDriver = response :: rest) {driver : Driver}
    (hok : W.driver.processWorkerResponse (accepting env) response = .ok driver) :
    ProtocolInv { W with
      driver
      workerToDriver := rest
      sending := World.followUp W.driver driver response } := by
  have hsend : ∀ j, (accepting env).send.sendOk j = true := fun _ => rfl
  rcases Driver.processWorkerResponse_cases hsend hok with
    ⟨hdead, rfl⟩ | ⟨hlive, hsema, planner, files, now, rfl⟩ | ⟨hlive, hemit, statistics, rfl⟩
  · exact h.respond_late hsending hqueue hdead (by simp [World.followUp, hdead])
  · exact h.respond_sema hsending hqueue hlive hsema (by simp [World.followUp, hlive, hsema])
  · exact h.respond_emit hsending hqueue hlive hemit rfl (by simp [World.followUp, hemit])

/-- A step of a worker changes the messages to that worker, its state and the responses, and
nothing for the others. -/
theorem of_worker (h : ProtocolInv W) {W' : World} {w : WorkerId} (hdriver : W'.driver = W.driver)
    (hmail : ∀ v, v ≠ w → W'.mail v = W.mail v)
    (hworker : ∀ v, v ≠ w → W'.worker v = W.worker v)
    (hvalid : ∀ r ∈ W'.workerToDriver,
      W.driver.scheduler.Assigned r.jobId r.workerId r.result.kind)
    (hans : ∀ k, W.driver.scheduler.jobOf w ≠ some k → (W'.Answered k ↔ W.Answered k))
    (hagrees : AgreesAt W.driver.scheduler (W'.mail w) (W'.worker w) W'.Answered w) :
    ProtocolInv W' := by
  refine ⟨by rw [hdriver]; exact h.inv, by rw [hdriver]; exact hvalid, ?_⟩
  intro v
  rw [hdriver]
  by_cases hv : v = w
  · rw [hv]
    exact hagrees
  · rw [hmail v hv, hworker v hv]
    refine (h.agrees v).frame rfl rfl fun k hk => ⟨rfl, hans k ?_⟩
    intro hw
    exact hv (h.inv.jobOf_inj hk hw)

theorem dequeue (h : ProtocolInv W) {w : WorkerId} {request : IndexJobRequest}
    {rest : List IndexJobRequest} (hwaiting : (W.worker w).Waiting)
    (hqueue : W.driverToWorker w = request :: rest) :
    ProtocolInv { W.setWorker w ((W.worker w).receive request) with
      driverToWorker := Function.update W.driverToWorker w rest } := by
  set W' : World := { W.setWorker w ((W.worker w).receive request) with
    driverToWorker := Function.update W.driverToWorker w rest } with hW'
  have hmail : W.mail w = request :: W'.mail w := by
    simp [hW', World.mail, World.setWorker, hqueue]
  have hstate : W'.worker w = (W.worker w).receive request := by
    simp [hW', World.setWorker]
  refine h.of_worker (w := w) rfl ?_ ?_ h.valid (fun _ _ => Iff.rfl) ?_
  · intro v hv
    simp [hW', World.mail, World.setWorker, hv]
  · intro v hv
    simp [hW', World.setWorker, hv]
  rw [hstate]
  have hagrees := h.agrees w
  rw [hmail] at hagrees
  cases hagrees with
  | idle _ _ hnil _ => cases hnil
  | stopping hnone hst hone hrest =>
      rw [List.cons.injEq] at hone
      refine .stopped hnone hst hone.2 ?_
      rcases hrest with hexited | hidle
      · rw [hexited] at hwaiting
        exact absurd hwaiting id
      · rw [hidle, hone.1]
        rfl
  | stopped _ _ hnil _ => cases hnil
  | @requested j hj hone hnot hready =>
      rw [List.cons.injEq] at hone
      have hid : request.id = j := by rw [hone.1]; rfl
      refine .working hj hone.2 hnot ?_
      rcases hready with hexited | ⟨hzero, hidle⟩ | ⟨i, hi, hnext, hawaiting⟩
      · rw [hexited] at hwaiting
        exact absurd hwaiting id
      · have hne : j ≠ .Shutdown := by
          rintro rfl
          exact absurd hzero (by decide)
        refine Or.inr (Or.inl ⟨hzero, ?_⟩)
        simp [hidle, WorkerState.receive, hid, hne]
      · have hone' : j.subtaskId = 1 := by
          rw [hnext, JobId.nextSubtask_subtaskId_of_zero hi]
        have hne : j ≠ .Shutdown := by
          rintro rfl
          exact absurd hone' (by decide)
        refine Or.inr (Or.inr ⟨hone', ?_⟩)
        simp [hawaiting, WorkerState.receive, hid, hne]
  | working _ hnil _ _ => cases hnil
  | done _ hnil _ _ => cases hnil

/-- A worker that works on a job works on the one the driver has given it. -/
theorem working_of_busy (h : ProtocolInv W) {w : WorkerId} {j : JobId}
    (hstate : W.worker w = .analysing j ∨ W.worker w = .emitting j) :
    W.driver.scheduler.jobOf w = some j ∧ W.mail w = [] ∧ ¬ W.Answered j ∧
      (W.worker w).WorkingOn j := by
  cases h.agrees w with
  | idle _ _ _ hrest =>
      rcases hrest with hrest | hrest <;> simp [hrest] at hstate
  | stopping _ _ _ hrest =>
      rcases hrest with hrest | hrest <;> simp [hrest] at hstate
  | stopped _ _ _ hexited => simp [hexited] at hstate
  | requested _ _ _ hready =>
      rcases hready with hready | ⟨-, hready⟩ | ⟨i, -, -, hready⟩ <;> simp [hready] at hstate
  | @working k hk hmail hnot hworking =>
      have hjk : k = j := by
        rcases hworking with hexited | ⟨-, hwork⟩ | ⟨-, hwork⟩
        · simp [hexited] at hstate
        · simpa [hwork] using hstate
        · simpa [hwork] using hstate
      subst hjk
      exact ⟨hk, hmail, hnot, hworking⟩
  | done _ _ _ hdone =>
      rcases hdone with hdone | ⟨-, hdone⟩ | ⟨-, hdone⟩ <;> simp [hdone] at hstate

/-- A worker sends the response for its job. -/
theorem finish (h : ProtocolInv W) {w : WorkerId} {j : JobId} {state : WorkerState}
    {response : IndexJobResponse}
    (hstate : W.worker w = .analysing j ∨ W.worker w = .emitting j)
    (hworker : response.workerId = w) (hjob : response.jobId = j)
    (hkind : ∀ t, W.driver.scheduler.allJobList j = some t → t.job.kind = response.result.kind)
    (hdone : state.DoneWith j) :
    ProtocolInv { W.setWorker w state with
      workerToDriver := W.workerToDriver ++ [response] } := by
  obtain ⟨hj, hmail, -, -⟩ := h.working_of_busy hstate
  obtain ⟨t, ht, hassigned⟩ := h.inv.running_assigned w j hj
  refine h.of_worker (w := w) rfl ?_ ?_ ?_ ?_ ?_
  · intro v _
    rfl
  · intro v hv
    simp [World.setWorker, hv]
  · intro r hr
    rcases List.mem_append.mp hr with hr | hr
    · exact h.valid r hr
    · rw [List.mem_singleton] at hr
      rw [hr, hjob, hworker]
      exact ⟨t, ht, hassigned, hkind t ht⟩
  · intro k hk
    have hne : j ≠ k := by
      rintro rfl
      exact hk hj
    simp only [World.Answered, List.mem_append, List.mem_singleton]
    constructor
    · rintro ⟨r, hr | hr, hrk⟩
      · exact ⟨r, hr, hrk⟩
      · rw [hr, hjob] at hrk
        exact absurd hrk hne
    · rintro ⟨r, hr, hrk⟩
      exact ⟨r, Or.inl hr, hrk⟩
  · refine .done hj hmail ⟨response, by simp, hjob⟩ ?_
    simpa [World.setWorker] using hdone

theorem exit (h : ProtocolInv W) (w : WorkerId) : ProtocolInv (W.setWorker w .exited) := by
  refine h.of_worker (w := w) rfl (fun v _ => rfl) ?_ h.valid (fun _ _ => Iff.rfl) ?_
  · intro v hv
    simp [World.setWorker, hv]
  · have hstate : (W.setWorker w .exited).worker w = .exited := by simp [World.setWorker]
    rw [hstate]
    show AgreesAt _ (W.mail w) _ W.Answered w
    cases h.agrees w with
    | idle hnone hst hmail _ => exact .idle hnone hst hmail (Or.inl rfl)
    | stopping hnone hst hmail _ => exact .stopping hnone hst hmail (Or.inl rfl)
    | stopped hnone hst hmail _ => exact .stopped hnone hst hmail rfl
    | requested hj hmail hnot _ => exact .requested hj hmail hnot (Or.inl rfl)
    | working hj hmail hnot _ => exact .working hj hmail hnot (Or.inl rfl)
    | done hj hmail hans _ => exact .done hj hmail hans (Or.inl rfl)

theorem init (env : DriverEnv) {options : DriverOptions} {database : CompilationDatabase}
    {spawnWorker : WorkerId → Process}
    (h : (protocol env options database spawnWorker).init W) : ProtocolInv W := by
  have hW : W = _ := h
  subst hW
  have hinv := Scheduler.Inv.initializeWorkers
    (min database.commands.length options.numWorkers) spawnWorker
  refine ⟨hinv, by simp, ?_⟩
  intro w
  have hnone : (Scheduler.initializeWorkers {}
      (min database.commands.length options.numWorkers) spawnWorker).jobOf w = none := by
    cases hjob : (Scheduler.initializeWorkers {}
        (min database.commands.length options.numWorkers) spawnWorker).jobOf w with
    | none => rfl
    | some j =>
        have hmem := (hinv.mem_wip j).mpr ⟨w, hjob⟩
        simp [Scheduler.initializeWorkers] at hmem
  refine .idle hnone ?_ (by simp [World.mail]) (Or.inr rfl)
  intro hst
  have hmem := (hinv.mem_stopped w).mpr hst
  simp [Scheduler.initializeWorkers] at hmem

end ProtocolInv

/-! ## Agreement in every reachable state -/

/-- The driver terminates a worker only after the worker has taken its request. -/
def TerminatesAfterReceipt (W : World) : ProtocolLabel → Prop
  | .terminate w _ => W.driverToWorker w = []
  | _ => True

theorem ProtocolInv.step {env : DriverEnv} {W W' : World} {l : ProtocolLabel}
    (h : ProtocolInv W) (hreceipt : TerminatesAfterReceipt W l)
    (hstep : ProtocolStep env W l W') : ProtocolInv W' := by
  cases hstep with
  | queue hsending hfresh => exact h.queue hsending hfresh
  | assign hsending hpending hidle => exact h.assign hsending hpending hidle _ rfl
  | deliver hsending _ => exact h.deliver hsending
  | sendFailed hsending hshutdown hkind => exact h.sendFailed hsending hshutdown hkind
  | respond hsending hqueue hok => exact h.respond hsending hqueue hok
  | @terminate w startedBefore scheduler hsending htimed hok =>
      obtain ⟨info, hinfo, hbusy, -⟩ := htimed
      obtain ⟨j, hj⟩ := (h.inv.busy_iff w).mp (by simp [Scheduler.statusOf, hinfo, hbusy])
      obtain ⟨handle, hterminate⟩ :=
        Scheduler.terminateRunningWorker_eq_ok hj (env.terminateAndRespawn · w)
      rw [hterminate, Except.ok.injEq] at hok
      subst hok
      exact h.terminate hsending hreceipt hj handle
  | shutdown hsending hidle => exact h.shutdown hsending hidle
  | dequeue hwaiting hqueue => exact h.dequeue hwaiting hqueue
  | @finishAnalysis w j semaResult hstate =>
      obtain ⟨-, -, -, hworking⟩ := h.working_of_busy (Or.inl hstate)
      have hzero : j.subtaskId = 0 := by
        rcases hworking with hexited | ⟨hzero, -⟩ | ⟨-, hemit⟩
        · simp [hstate] at hexited
        · exact hzero
        · simp [hstate] at hemit
      refine h.finish (Or.inl hstate) rfl rfl ?_ (Or.inr (Or.inl ⟨hzero, rfl⟩))
      intro t ht
      rcases h.inv.shape j t ht with ⟨hsema, -⟩ | ⟨-, hone⟩
      · exact hsema
      · exact absurd hone (JobId.subtaskId_ne_one_of_zero hzero)
  | @finishEmit w j emitResult hstate =>
      obtain ⟨-, -, -, hworking⟩ := h.working_of_busy (Or.inr hstate)
      have hone : j.subtaskId = 1 := by
        rcases hworking with hexited | ⟨-, hanalysing⟩ | ⟨hone, -⟩
        · simp [hstate] at hexited
        · simp [hstate] at hanalysing
        · exact hone
      refine h.finish (Or.inr hstate) rfl rfl ?_ (Or.inr (Or.inr ⟨hone, rfl⟩))
      intro t ht
      rcases h.inv.shape j t ht with ⟨-, hzero⟩ | ⟨hemit, -⟩
      · exact absurd hone (JobId.subtaskId_ne_one_of_zero hzero)
      · exact hemit
  | exit => exact h.exit _

/-- The kind of a request is the kind of its job. -/
theorem kind_requestFor {s : Scheduler} (h : s.Inv) {w : WorkerId} {j : JobId}
    (hj : s.jobOf w = some j) :
    (j.subtaskId = 0 ∧ (requestFor s j).job.kind = .SemanticAnalysis) ∨
      (j.subtaskId = 1 ∧ (requestFor s j).job.kind = .EmitIndex) := by
  obtain ⟨t, ht, -⟩ := h.running_assigned w j hj
  have hrequest : (requestFor s j).job = t.job := by simp [requestFor, Scheduler.trackedJob, ht]
  rw [hrequest]
  rcases h.shape j t ht with ⟨hkind, hsub⟩ | ⟨hkind, hsub⟩
  · exact Or.inl ⟨hsub, hkind⟩
  · exact Or.inr ⟨hsub, hkind⟩

/-- A message on its way is the shutdown of a stopped worker or the request for the current
job of a worker that is ready for it. -/
theorem ProtocolInv.message_cases {W : World} (h : ProtocolInv W) {w : WorkerId}
    {request : IndexJobRequest} (hmem : request ∈ W.driverToWorker w) :
    (request = shutdownRequest ∧ W.driver.scheduler.statusOf w = some .Stopped) ∨
      ∃ j, W.driver.scheduler.jobOf w = some j ∧ request = requestFor W.driver.scheduler j ∧
        (W.worker w).ReadyFor j := by
  have hin : request ∈ W.mail w := List.mem_append_left _ hmem
  cases h.agrees w with
  | idle _ _ hnil _ => simp [hnil] at hin
  | stopping _ hst hone _ =>
      rw [hone, List.mem_singleton] at hin
      exact Or.inl ⟨hin, hst⟩
  | stopped _ _ hnil _ => simp [hnil] at hin
  | @requested j hj hone _ hready =>
      rw [hone, List.mem_singleton] at hin
      exact Or.inr ⟨j, hj, hin, hready⟩
  | working _ hnil _ _ => simp [hnil] at hin
  | done _ hnil _ _ => simp [hnil] at hin

theorem ProtocolInv.agreement {W : World} (h : ProtocolInv W) : Agreement W := by
  constructor
  case message =>
    intro w request hmem
    rcases h.message_cases hmem with hshutdown | ⟨j, hj, hrequest, -⟩
    · exact Or.inr hshutdown
    · exact Or.inl ⟨j, hj, hrequest⟩
  case idle =>
    intro w hidle request hmem
    rcases h.message_cases hmem with ⟨rfl, -⟩ | ⟨j, hj, hrequest, hready⟩
    · exact Or.inr rfl
    -- an idle worker is ready for a semantic analysis only
    · rcases hready with hready | ⟨hzero, -⟩ | ⟨i, -, -, hready⟩
      · simp [hidle] at hready
      · rcases kind_requestFor h.inv hj with ⟨-, hkind⟩ | ⟨hone, -⟩
        · exact Or.inl (by rw [hrequest, hkind])
        · exact absurd hone (JobId.subtaskId_ne_one_of_zero hzero)
      · simp [hidle] at hready
  case awaiting =>
    intro w j hawaiting request hmem
    rcases h.message_cases hmem with ⟨rfl, -⟩ | ⟨k, hk, hrequest, hready⟩
    · exact Or.inr rfl
    -- a worker that awaits the follow-up of its analysis is ready for that only
    · rcases hready with hready | ⟨-, hready⟩ | ⟨i, hi, hnext, hready⟩
      · simp [hawaiting] at hready
      · simp [hawaiting] at hready
      · rw [hawaiting, WorkerState.awaiting.injEq] at hready
        subst hready
        have hone : k.subtaskId = 1 := by
          rw [hnext, JobId.nextSubtask_subtaskId_of_zero hi]
        rcases kind_requestFor h.inv hk with ⟨hzero, -⟩ | ⟨-, hkind⟩
        · exact absurd hone (JobId.subtaskId_ne_one_of_zero hzero)
        · exact Or.inl ⟨by rw [hrequest]; exact hnext, by rw [hrequest, hkind]⟩
  case room =>
    intro w request hsending
    exact (h.sending_cases hsending).1

/-- Terminating a worker that has not taken its request leaves that request behind. -/
theorem not_agreement_of_terminate {env : DriverEnv} {W W' : World} (h : ProtocolInv W)
    {w : WorkerId} {startedBefore : Instant}
    (hstep : ProtocolStep env W (.terminate w startedBefore) W')
    (hqueue : W.driverToWorker w ≠ []) : ¬ Agreement W' := by
  cases hstep with
  | @terminate _ _ scheduler hsending htimed hok =>
      obtain ⟨info, hinfo, hbusy, -⟩ := htimed
      obtain ⟨j, hj⟩ := (h.inv.busy_iff w).mp (by simp [Scheduler.statusOf, hinfo, hbusy])
      obtain ⟨handle, hterminate⟩ :=
        Scheduler.terminateRunningWorker_eq_ok hj (env.terminateAndRespawn · w)
      rw [hterminate, Except.ok.injEq] at hok
      subst hok
      have hsome := Scheduler.isSome_of_statusOf (h.inv.statusOf_of_jobOf hj)
      obtain ⟨request, rest, hcons⟩ := List.exists_cons_of_ne_nil hqueue
      intro hagreement
      rcases hagreement.message w request (by simp [World.setWorker, World.schedule, hcons]) with
        ⟨k, hk, -⟩ | ⟨-, hst⟩
      · have hnone := (Scheduler.jobOf_terminated hsome j handle w).trans (if_pos rfl)
        rw [show (W.driver.scheduler.terminated w j handle).jobOf w = some k from hk] at hnone
        cases hnone
      · have hidle := (Scheduler.statusOf_terminated hsome j handle w).trans (if_pos rfl)
        rw [show (W.driver.scheduler.terminated w j handle).statusOf w = some .Stopped from hst]
          at hidle
        cases hidle

/-- **Agreement.** In every run in which the driver terminates workers only after they have
taken their requests, driver and workers agree in every state.  Any other termination breaks
the agreement at once. -/
theorem agreement_of_reachable {env : DriverEnv} {options : DriverOptions}
    {database : CompilationDatabase} {spawnWorker : WorkerId → Process} {W : World}
    (hreach : ((protocol env options database spawnWorker).restrict
      TerminatesAfterReceipt).Reachable W) :
    Agreement W ∧ ∀ w startedBefore W',
      (protocol env options database spawnWorker).step W (.terminate w startedBefore) W' →
      ¬ TerminatesAfterReceipt W (.terminate w startedBefore) → ¬ Agreement W' := by
  have hinv : ProtocolInv W := by
    refine hreach.invariant (I := ProtocolInv) ?_ ?_
    · intro W₀ hinit
      exact ProtocolInv.init env hinit
    · rintro W₁ l W₂ h ⟨hreceipt, hstep⟩
      exact h.step hreceipt hstep
  refine ⟨hinv.agreement, ?_⟩
  intro w startedBefore W' hstep hqueue
  exact not_agreement_of_terminate hinv hstep hqueue

/-- The worker analyses a translation unit, is given the job that emits the index, and is
terminated while it works on that. -/
theorem agreement_of_reachable_terminate : ∃ W,
    ((protocol succeedingEnv oneWorker oneFile id).restrict TerminatesAfterReceipt).Reachable W ∧
      W.worker 0 = .idle ∧ Agreement W := by
  have hreach : ∃ W, ((protocol succeedingEnv oneWorker oneFile id).restrict
      TerminatesAfterReceipt).Reachable W ∧ W.worker 0 = .idle :=
    ⟨_, ⟨_, [.queue { index := 0 }, .assign 5, .deliver, .dequeue 0, .finishAnalysis 0 {},
        .respond, .deliver, .dequeue 0, .terminate 0 10], rfl,
      .cons ⟨trivial, .queue rfl rfl⟩ (.cons ⟨trivial, .assign rfl rfl rfl⟩
        (.cons ⟨trivial, .deliver rfl (by decide)⟩ (.cons ⟨trivial, .dequeue trivial rfl⟩
          (.cons ⟨trivial, .finishAnalysis rfl⟩ (.cons ⟨trivial, .respond rfl rfl rfl⟩
            (.cons ⟨trivial, .deliver rfl (by decide)⟩ (.cons ⟨trivial, .dequeue trivial rfl⟩
              (.cons ⟨rfl, .terminate rfl ⟨_, rfl, rfl, by decide⟩ rfl⟩ (.nil _)))))))))⟩, rfl⟩
  obtain ⟨W, hreach, hidle⟩ := hreach
  exact ⟨W, hreach, hidle, (agreement_of_reachable hreach).1⟩

/-- A worker that is terminated before it has taken its request leaves the request behind for
its successor, while the driver takes the worker to be idle. -/
theorem stale_request : ∃ W,
    (protocol succeedingEnv oneWorker oneFile id).Reachable W ∧ ¬ Agreement W := by
  refine ⟨_, ⟨_, [.queue { index := 0 }, .assign 5, .deliver, .terminate 0 10], rfl,
    .cons (.queue rfl rfl) (.cons (.assign rfl rfl rfl) (.cons (.deliver rfl (by decide))
      (.cons (.terminate rfl ⟨_, rfl, rfl, by decide⟩ rfl) (.nil _))))⟩, ?_⟩
  intro hagreement
  rcases hagreement.message 0 ⟨.newTask 0, Scheduler.semaJob { index := 0 }⟩
    (List.mem_singleton.mpr rfl) with ⟨j, hj, -⟩ | ⟨-, hst⟩
  · cases hj
  · cases hst

end ScipClang
