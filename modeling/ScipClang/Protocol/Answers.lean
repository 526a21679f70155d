import ScipClang.Protocol.Agreement

/-!
# Every job is answered at most once

The scheduling loop is modelled in `Driver.Loop` with responses that come from nowhere, as long as
the driver can expect them: the job was assigned to that worker, the result is of the kind of the
job, and the job has not been answered before (`LoopState.Expects`).  Here the responses come from
workers, and what the loop assumes of them becomes a theorem.

A worker can die, be terminated and be replaced, and responses of the dead are still read.  What
rules out a second answer is that a job is the current one of at most one worker, that it never
becomes current again, and that a worker only answers its current job.

* `expects_of_reachable`: in every run in which workers are terminated only after they have taken
  their requests, no job is answered twice, and each response that awaits the driver is one that
  the scheduling loop expects.
-/

namespace ScipClang

/-! ## What a step does to the current jobs -/

namespace Scheduler

/-- The status and the current job of one worker have changed, those of the others have not. -/
structure Reassigns (s s' : Scheduler) (w : WorkerId) (job : Option JobId) (status : WorkerStatus) :
    Prop where
  jobOf : ∀ v, s'.jobOf v = if v = w then job else s.jobOf v
  statusOf : ∀ v, s'.statusOf v = if v = w then some status else s.statusOf v

/-- No worker has changed its status or its current job. -/
structure Keeps (s s' : Scheduler) : Prop where
  jobOf : s'.jobOf = s.jobOf
  statusOf : s'.statusOf = s.statusOf

variable {s : Scheduler} {w : WorkerId} {j : JobId}

theorem Keeps.of_workers {s' : Scheduler} (h : s'.workers = s.workers) : s.Keeps s' := by
  constructor
  · funext v
    unfold Scheduler.jobOf
    rw [h]
  · funext v
    unfold Scheduler.statusOf
    rw [h]

theorem keeps_queueSemaTask (cmdObject : CommandObject) :
    s.Keeps (s.queueSemaTask cmdObject) := by
  refine .of_workers ?_
  unfold queueSemaTask emplaceJob
  split <;> rfl

/-- The scheduler after the first pending job has been scheduled on an idle worker. -/
def assigned (s : Scheduler) (j : JobId) (pending : List JobId) (w : WorkerId)
    (idle : List WorkerId) (now : Instant) : Scheduler :=
  (scheduleJobOnWorker
    { s with
      pendingJobs := pending
      wipJobs := insert j s.wipJobs
      idleWorkers := idle } w j now).1

theorem reassigns_assigned (hstatus : s.statusOf w = some .Idle) (pending : List JobId)
    (idle : List WorkerId) (now : Instant) :
    s.Reassigns (s.assigned j pending w idle now) w (some j) .Busy where
  jobOf := jobOf_markWorkerBusy (s := { s with
    pendingJobs := pending, wipJobs := insert j s.wipJobs, idleWorkers := idle }) hstatus j now
  statusOf := statusOf_markWorkerBusy (s := { s with
    pendingJobs := pending, wipJobs := insert j s.wipJobs, idleWorkers := idle }) hstatus j now

theorem reassigns_deschedule {status : WorkerStatus} (hstatus : s.statusOf w = some status) :
    s.Reassigns (s.descheduleJobDueToSendError w j) w none .Idle where
  jobOf := jobOf_markWorkerIdle hstatus
  statusOf := statusOf_markWorkerIdle hstatus

theorem reassigns_analysed (hw : s.jobOf w = some j) (job : IndexJob) (now : Instant) :
    s.Reassigns (s.analysed w j job now) w (some j.nextSubtask) .Busy where
  jobOf v := (workers_analysed job now hw v).1
  statusOf v := (workers_analysed job now hw v).2

theorem reassigns_markCompleted (hw : s.jobOf w = some j) :
    s.Reassigns (s.markCompleted w j).1 w none .Idle where
  jobOf v := (workers_markCompleted hw v).1
  statusOf v := (workers_markCompleted hw v).2

theorem reassigns_terminated {status : WorkerStatus} (hstatus : s.statusOf w = some status)
    (j : JobId) (handle : Process) : s.Reassigns (s.terminated w j handle) w none .Idle where
  jobOf := jobOf_terminated (isSome_of_statusOf hstatus) j handle
  statusOf := statusOf_terminated (isSome_of_statusOf hstatus) j handle

theorem reassigns_shutdownLastIdle {status : WorkerStatus} (hstatus : s.statusOf w = some status)
    (hnone : s.jobOf w = none) : s.Reassigns (s.shutdownLastIdle w) w none .Stopped where
  jobOf v := by
    refine (jobOf_markWorkerStopped (s := { s with idleWorkers := s.idleWorkers.dropLast }) v).trans
      ?_
    split
    · next heq => exact heq ▸ hnone
    · rfl
  statusOf := statusOf_markWorkerStopped
    (s := { s with idleWorkers := s.idleWorkers.dropLast }) hstatus

end Scheduler

/-- From one state to the next, jobs stay assigned, and a job that becomes the current one of a
worker has not been assigned before. -/
structure World.Advances (W W' : World) : Prop where
  assigned : ∀ j w kind, W.driver.scheduler.Assigned j w kind →
    W'.driver.scheduler.Assigned j w kind
  current : ∀ w j, W'.driver.scheduler.jobOf w = some j → W.driver.scheduler.jobOf w = some j ∨
    ∀ v kind, ¬ W.driver.scheduler.Assigned j v kind

namespace World.Advances

variable {W W' : World} {w : WorkerId} {status : WorkerStatus}

theorem of_keeps (hassigned : ∀ j v kind, W.driver.scheduler.Assigned j v kind →
      W'.driver.scheduler.Assigned j v kind)
    (h : W.driver.scheduler.Keeps W'.driver.scheduler) : W.Advances W' :=
  ⟨hassigned, fun v _ hk => Or.inl (congrFun h.jobOf v ▸ hk)⟩

/-- A worker gives up its job. -/
theorem of_none (hassigned : ∀ j v kind, W.driver.scheduler.Assigned j v kind →
      W'.driver.scheduler.Assigned j v kind)
    (h : W.driver.scheduler.Reassigns W'.driver.scheduler w none status) : W.Advances W' := by
  refine ⟨hassigned, fun v k hk => ?_⟩
  rw [h.jobOf] at hk
  split at hk
  · cases hk
  · exact Or.inl hk

/-- A worker turns to another job. -/
theorem of_some {j : JobId} (hassigned : ∀ j v kind, W.driver.scheduler.Assigned j v kind →
      W'.driver.scheduler.Assigned j v kind)
    (h : W.driver.scheduler.Reassigns W'.driver.scheduler w (some j) status)
    (hnew : ∀ v kind, ¬ W.driver.scheduler.Assigned j v kind) : W.Advances W' := by
  refine ⟨hassigned, fun v k hk => ?_⟩
  rw [h.jobOf] at hk
  split at hk
  · obtain rfl := Option.some.inj hk
    exact Or.inr hnew
  · exact Or.inl hk

end World.Advances

namespace ProtocolInv

variable {env : DriverEnv} {W W' : World} {l : ProtocolLabel}

/-- The job of an analysis that has been answered goes on to a new one. -/
theorem nextSubtask_unknown (h : ProtocolInv W) {response : IndexJobResponse}
    (hmem : response ∈ W.workerToDriver)
    (hlive : W.driver.scheduler.jobOf response.workerId = some response.jobId)
    (hsema : response.result.kind = .SemanticAnalysis) :
    W.driver.scheduler.allJobList response.jobId.nextSubtask = none := by
  obtain ⟨t, ht, -, hkind⟩ := h.valid response hmem
  exact Scheduler.nextSubtask_unknown_of_running h.inv hlive ht (hkind.trans hsema)

theorem advances (h : ProtocolInv W) (hstep : ProtocolStep env W l W') : W.Advances W' := by
  cases hstep with
  | queue hsending hfresh =>
      exact .of_keeps (fun _ _ _ hj => hj.queueSemaTask hfresh)
        (Scheduler.keeps_queueSemaTask _)
  | @assign now j pending w idle hsending hpending hidle =>
      have hstatus : W.driver.scheduler.statusOf w = some .Idle :=
        (h.inv.mem_idle w).mp (by simp [hidle])
      have hmoves := Scheduler.Moves.tryAssign h.inv ⟨fun _ => true, fun _ => now⟩
        (fun _ => rfl) hpending w idle
      refine .of_some hmoves.assigned (Scheduler.reassigns_assigned hstatus pending idle now) ?_
      rintro v kind ⟨t, ht, hworker, -⟩
      exact h.inv.notMem_pending_of_assigned ht hworker (by simp [hpending])
  | deliver hsending _ => exact .of_keeps (fun _ _ _ hj => hj) (.of_workers rfl)
  | @sendFailed w request hsending hshutdown hkind =>
      obtain ⟨-, rfl | ⟨j, hj, -, -⟩⟩ := h.sending_cases hsending
      · exact absurd rfl hshutdown
      · exact .of_none (fun _ _ _ hj => hj)
          (Scheduler.reassigns_deschedule (h.inv.statusOf_of_jobOf hj))
  | @respond response rest driver hsending hqueue hok =>
      have hmem : response ∈ W.workerToDriver := by simp [hqueue]
      rcases Driver.processWorkerResponse_cases (fun _ => rfl) hok with
        ⟨-, rfl⟩ | ⟨hlive, hsema, planner, files, now, rfl⟩ | ⟨hlive, -, statistics, rfl⟩
      · exact .of_keeps (fun _ _ _ hj => hj) (.of_workers rfl)
      · have hunknown := h.nextSubtask_unknown hmem hlive hsema
        exact .of_some (fun _ _ _ hj => hj.analysed hunknown)
          (Scheduler.reassigns_analysed hlive _ now) fun _ _ hj => hj.ne_of_unknown hunknown rfl
      · refine .of_none (fun j v kind hj => ?_) (Scheduler.reassigns_markCompleted hlive)
        show Scheduler.Assigned (W.driver.scheduler.markCompleted _ _).1 j v kind
        rw [Scheduler.Assigned, Scheduler.allJobList_markCompleted]
        exact hj
  | @terminate w startedBefore scheduler hsending htimed hok =>
      obtain ⟨info, hinfo, hbusy, -⟩ := htimed
      have hstatus : W.driver.scheduler.statusOf w = some .Busy := by
        simp [Scheduler.statusOf, hinfo, hbusy]
      obtain ⟨j, hj⟩ := (h.inv.busy_iff w).mp hstatus
      obtain ⟨handle, hterminate⟩ :=
        Scheduler.terminateRunningWorker_eq_ok hj (env.terminateAndRespawn · w)
      rw [hterminate, Except.ok.injEq] at hok
      subst hok
      exact .of_none (fun _ _ _ hj => hj) (Scheduler.reassigns_terminated hstatus j handle)
  | @shutdown w idle hsending hidle =>
      have hstatus : W.driver.scheduler.statusOf w = some .Idle :=
        (h.inv.mem_idle w).mp (by simp [hidle])
      exact .of_none (fun _ _ _ hj => hj)
        (Scheduler.reassigns_shutdownLastIdle hstatus (h.resting_of_idle hstatus).1)
  | dequeue _ _ => exact .of_keeps (fun _ _ _ hj => hj) (.of_workers rfl)
  | finishAnalysis _ => exact .of_keeps (fun _ _ _ hj => hj) (.of_workers rfl)
  | finishEmit _ => exact .of_keeps (fun _ _ _ hj => hj) (.of_workers rfl)
  | exit => exact .of_keeps (fun _ _ _ hj => hj) (.of_workers rfl)

/-- When a response has been read, its job is not current any more. -/
theorem not_current_of_respond (h : ProtocolInv W) {response : IndexJobResponse}
    {driver : Driver} (hmem : response ∈ W.workerToDriver)
    (hok : W.driver.processWorkerResponse (accepting env) response = .ok driver) (w : WorkerId) :
    driver.scheduler.jobOf w ≠ some response.jobId := by
  intro hw
  rcases Driver.processWorkerResponse_cases (fun _ => rfl) hok with
    ⟨hdead, rfl⟩ | ⟨hlive, hsema, planner, files, now, rfl⟩ | ⟨hlive, -, statistics, rfl⟩
  · have hworker := h.worker_of_response hmem hw
    exact hdead (hworker ▸ hw)
  · have hunknown := h.nextSubtask_unknown hmem hlive hsema
    rw [show (W.driver.scheduler.analysed _ _ _ now).jobOf w = _ from
      (Scheduler.reassigns_analysed hlive _ now).jobOf w] at hw
    split at hw
    · rw [Option.some.inj hw] at hunknown
      exact h.known_of_jobOf hlive hunknown
    · next hne => exact hne (h.inv.jobOf_inj hw hlive)
  · rw [show (W.driver.scheduler.markCompleted _ _).1.jobOf w = _ from
      (Scheduler.reassigns_markCompleted hlive).jobOf w] at hw
    split at hw
    · cases hw
    · next hne => exact hne (h.inv.jobOf_inj hw hlive)

end ProtocolInv

/-! ## Answers -/

/-- The response that the driver reads in a step. -/
def World.read (W : World) : ProtocolLabel → List IndexJobResponse
  | .respond => W.workerToDriver.take 1
  | _ => []

/-- The protocol, with the responses that the driver has read so far. -/
def loggedProtocol (env : DriverEnv) (options : DriverOptions) (database : CompilationDatabase)
    (spawnWorker : WorkerId → Process) :
    TransitionSystem (World × List IndexJobResponse) ProtocolLabel where
  init s := (protocol env options database spawnWorker).init s.1 ∧ s.2 = []
  step s l s' := ProtocolStep env s.1 l s'.1 ∧ s'.2 = s.2 ++ s.1.read l

/-- The log follows the protocol and does not get in its way. -/
theorem step_logged {env : DriverEnv} {options : DriverOptions} {database : CompilationDatabase}
    {spawnWorker : WorkerId → Process} {ok : World → ProtocolLabel → Prop} {W W' : World}
    {l : ProtocolLabel} {handled : List IndexJobResponse} (hok : ok W l)
    (hstep : ProtocolStep env W l W') :
    ((loggedProtocol env options database spawnWorker).restrict fun s => ok s.1).step (W, handled) l
      (W', handled ++ W.read l) :=
  ⟨hok, hstep, rfl⟩

/-- What there is to say about all responses, those that were read and those that were not. -/
structure AnswerInv (W : World) (handled : List IndexJobResponse) : Prop extends ProtocolInv W where
  nodup : ((handled ++ W.workerToDriver).map IndexJobResponse.jobId).Nodup
  assigned : ∀ response ∈ handled,
    W.driver.scheduler.Assigned response.jobId response.workerId response.result.kind
  current : ∀ w j, W.driver.scheduler.jobOf w = some j →
    ∀ response ∈ handled, response.jobId ≠ j

/-- How the responses that await the driver change: it reads the first one, or the current job of
a worker is answered. -/
inductive AnswerStep (W : World) (l : ProtocolLabel) (W' : World) : Prop
  | read {response : IndexJobResponse} {rest : List IndexJobResponse} :
      W.read l = [response] → W.workerToDriver = response :: rest → W'.workerToDriver = rest →
      (∀ w, W'.driver.scheduler.jobOf w ≠ some response.jobId) → AnswerStep W l W'
  | sent {response : IndexJobResponse} : W.read l = [] →
      W'.workerToDriver = W.workerToDriver ++ [response] →
      W.driver.scheduler.jobOf response.workerId = some response.jobId →
      ¬ W.Answered response.jobId → AnswerStep W l W'
  | neither : W.read l = [] → W'.workerToDriver = W.workerToDriver → AnswerStep W l W'

theorem ProtocolInv.answerStep {env : DriverEnv} {W W' : World} {l : ProtocolLabel}
    (h : ProtocolInv W) (hstep : ProtocolStep env W l W') : AnswerStep W l W' := by
  cases hstep with
  | @respond response rest driver hsending hqueue hok =>
      have hread : W.read .respond = [response] := by
        rw [World.read, hqueue]
        rfl
      exact .read hread hqueue rfl (h.not_current_of_respond (by simp [hqueue]) hok)
  | @finishAnalysis w j semaResult hstate =>
      obtain ⟨hj, -, hnot, -⟩ := h.working_of_busy (Or.inl hstate)
      exact .sent rfl rfl hj hnot
  | @finishEmit w j emitResult hstate =>
      obtain ⟨hj, -, hnot, -⟩ := h.working_of_busy (Or.inr hstate)
      exact .sent rfl rfl hj hnot
  | queue => exact .neither rfl rfl
  | assign => exact .neither rfl rfl
  | deliver => exact .neither rfl rfl
  | sendFailed => exact .neither rfl rfl
  | terminate => exact .neither rfl rfl
  | shutdown => exact .neither rfl rfl
  | dequeue => exact .neither rfl rfl
  | exit => exact .neither rfl rfl

/-- The step lemma. -/
theorem AnswerInv.step {env : DriverEnv} {W W' : World} {l : ProtocolLabel}
    {handled : List IndexJobResponse} (h : AnswerInv W handled)
    (hreceipt : TerminatesAfterReceipt W l) (hstep : ProtocolStep env W l W') :
    AnswerInv W' (handled ++ W.read l) := by
  have hadvances := h.advances hstep
  have hcurrent : ∀ w j, W'.driver.scheduler.jobOf w = some j →
      ∀ response ∈ handled, response.jobId ≠ j := by
    intro w j hj response hmem heq
    rcases hadvances.current w j hj with hold | hnew
    · exact h.current w j hold response hmem heq
    · exact hnew _ _ (heq ▸ h.assigned response hmem)
  have hassigned : ∀ response ∈ handled,
      W'.driver.scheduler.Assigned response.jobId response.workerId response.result.kind :=
    fun response hmem => hadvances.assigned _ _ _ (h.assigned response hmem)
  have hinv := h.toProtocolInv.step hreceipt hstep
  cases h.answerStep hstep with
  | neither hread hqueue' =>
      rw [hread, List.append_nil]
      exact ⟨hinv, hqueue' ▸ h.nodup, hassigned, hcurrent⟩
  | @read response rest hread hqueue hqueue' hgone =>
      rw [hread]
      refine ⟨hinv, ?_, ?_, ?_⟩
      · rw [hqueue', List.append_assoc, List.singleton_append, ← hqueue]
        exact h.nodup
      · refine List.forall_mem_append.mpr ⟨hassigned, List.forall_mem_singleton.mpr ?_⟩
        exact hadvances.assigned _ _ _ (h.valid response (by simp [hqueue]))
      · intro w j hj
        refine List.forall_mem_append.mpr ⟨hcurrent w j hj, List.forall_mem_singleton.mpr ?_⟩
        rintro rfl
        exact hgone w hj
  | @sent response hread hqueue' hj hnot =>
      rw [hread, List.append_nil]
      refine ⟨hinv, ?_, hassigned, hcurrent⟩
      rw [hqueue', ← List.append_assoc, List.map_append, List.nodup_append]
      refine ⟨h.nodup, List.nodup_singleton _, ?_⟩
      -- the job is current, so that no answer has been read, and none awaits the driver
      rintro other hother _ hnew rfl
      rw [List.map_singleton, List.mem_singleton] at hnew
      obtain ⟨answer, hanswer, rfl⟩ := List.mem_map.mp hother
      rcases List.mem_append.mp hanswer with hhandled | hqueued
      · exact h.current _ _ hj answer hhandled hnew
      · exact hnot ⟨answer, hqueued, hnew⟩

theorem AnswerInv.init {env : DriverEnv} {options : DriverOptions} {database : CompilationDatabase}
    {spawnWorker : WorkerId → Process} {W : World}
    (h : (protocol env options database spawnWorker).init W) : AnswerInv W [] := by
  have hinv := ProtocolInv.init env h
  have hempty : W.workerToDriver = [] := by
    rw [show W = _ from h]
  refine ⟨hinv, ?_, List.forall_mem_nil _, fun _ _ _ => List.forall_mem_nil _⟩
  rw [hempty]
  exact List.nodup_nil

/-- What holds of all responses in every run in which workers are terminated only after they have
taken their requests. -/
theorem answerInv_of_reachable {env : DriverEnv} {options : DriverOptions}
    {database : CompilationDatabase} {spawnWorker : WorkerId → Process}
    {s : World × List IndexJobResponse}
    (hreach : ((loggedProtocol env options database spawnWorker).restrict
      fun s => TerminatesAfterReceipt s.1).Reachable s) : AnswerInv s.1 s.2 := by
  refine hreach.invariant (I := fun s => AnswerInv s.1 s.2) ?_ ?_
  · rintro ⟨W, handled⟩ ⟨hinit, rfl⟩
    exact AnswerInv.init hinit
  · rintro ⟨W, handled⟩ l ⟨W', handled'⟩ h ⟨hreceipt, hstep, rfl⟩
    exact h.step hreceipt hstep

end ScipClang
