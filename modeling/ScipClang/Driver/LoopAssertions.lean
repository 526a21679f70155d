import ScipClang.Driver.Loop

/-!
# The assertions of the scheduling loop

`Scheduler::runJobsTillCompletionAndShutdownWorkers` asserts that a refill leaves as
many jobs pending as it has counted, that some job is running whenever the driver
waits for results, and that all workers have been stopped when the loop exits.
Sends may fail here: `tryAssignJobToWorker` then takes the job out of `wipJobs`
again, and nothing puts it back into the queue.

The follow-up request of a semantic analysis goes through another function.  If it
cannot be sent, `processWorkerResponse` throws and the run ends there
(`Driver.not_recoverySafe`).

## Main results

* `wipJobs_assignPending_eq_empty`: an assignment round leaves nothing running
  exactly if nothing was running and no pending job could be sent.
* `AssertionInv`: the workers are stopped only once nothing can become pending.
* `run_asserted_iff`: all assertions of a run hold exactly if, whenever an iteration begins
  with jobs pending and none running, the request of a pending job can be sent.
-/

namespace ScipClang

namespace Scheduler

variable {s : Scheduler}

/-! ## One assignment round -/

/-- If anything is running or could be sent, something is running after the round. -/
theorem wipJobs_assignPending_eq_empty (env : SendEnv) (pending : List JobId) :
    ∀ s : Scheduler, s.Inv → s.pendingJobs = pending →
      ((assignPending env pending s).wipJobs = ∅ ↔
        s.wipJobs = ∅ ∧ (s.idleWorkers = [] ∨ ∀ j ∈ pending, env.sendOk j = false)) := by
  induction pending with
  | nil => intro s _ _; simp [assignPending]
  | cons nextJob pending ih =>
      intro s h hpending
      rw [assignPending]
      cases hidle : s.idleWorkers with
      | nil => simp
      | cons w idle =>
          have hnext := h.tryAssign env hpending hidle
          have hnot : nextJob ∉ s.wipJobs := by
            obtain ⟨t, ht, hnone, -⟩ := h.pending_unassigned nextJob (by simp [hpending])
            exact (h.notMem_of_unassigned ht hnone).1
          rw [ih _ hnext (by unfold tryAssignJobToWorker; split <;> rfl)]
          cases hsend : env.sendOk nextJob with
          | true =>
              simp [tryAssignJobToWorker, hsend, scheduleJobOnWorker, assignWorker,
                markWorkerBusy]
          | false =>
              -- the job leaves `wipJobs` again, and its worker is the next idle one
              simp [tryAssignJobToWorker, hsend, scheduleJobOnWorker, assignWorker,
                markWorkerBusy, descheduleJobDueToSendError, markWorkerIdle,
                Finset.erase_insert hnot]

theorem wipJobs_assignJobsToIdleWorkers_eq_empty (env : SendEnv) (h : s.Inv) :
    (s.assignJobsToIdleWorkers env).wipJobs = ∅ ↔
      s.wipJobs = ∅ ∧ (s.idleWorkers = [] ∨ ∀ j ∈ s.pendingJobs, env.sendOk j = false) :=
  wipJobs_assignPending_eq_empty env s.pendingJobs s h rfl

/-! ## What the operations leave alone -/

/-- No worker has been stopped or added. -/
def SameStaff (s s' : Scheduler) : Prop :=
  s'.stoppedWorkers = s.stoppedWorkers ∧ s'.workers.length = s.workers.length

theorem sameStaff_tryAssignJobToWorker (env : SendEnv) (w : WorkerId) (j : JobId) :
    s.SameStaff (tryAssignJobToWorker env s w j) := by
  unfold tryAssignJobToWorker
  split
  · simp [SameStaff, scheduleJobOnWorker, assignWorker, markWorkerBusy]
  · simp [SameStaff, scheduleJobOnWorker, assignWorker, markWorkerBusy,
      descheduleJobDueToSendError, markWorkerIdle]

theorem sameStaff_assignJobsToIdleWorkers (env : SendEnv) :
    s.SameStaff (s.assignJobsToIdleWorkers env) := by
  refine assignJobsToIdleWorkers_preserves (P := fun s' => s.SameStaff s') env ?_ ⟨rfl, rfl⟩
  intro s' nextJob pending w idle _ _ h
  have hround := sameStaff_tryAssignJobToWorker (s := { s' with
    pendingJobs := pending
    wipJobs := insert nextJob s'.wipJobs
    idleWorkers := idle }) env w nextJob
  exact ⟨hround.1.trans h.1, hround.2.trans h.2⟩

theorem sameStaff_foldl_queueSemaTask (commands : List CommandObject) :
    s.SameStaff (commands.foldl queueSemaTask s) := by
  induction commands generalizing s with
  | nil => exact ⟨rfl, rfl⟩
  | cons cmd commands ih =>
      have hqueue : s.SameStaff (s.queueSemaTask cmd) := by
        unfold queueSemaTask emplaceJob
        split <;> exact ⟨rfl, rfl⟩
      have hrest := ih (s := s.queueSemaTask cmd)
      exact ⟨hrest.1.trans hqueue.1, hrest.2.trans hqueue.2⟩

theorem wipJobs_foldl_queueSemaTask (commands : List CommandObject) :
    (commands.foldl queueSemaTask s).wipJobs = s.wipJobs := by
  induction commands generalizing s with
  | nil => rfl
  | cons cmd commands ih =>
      rw [List.foldl_cons, ih]
      unfold queueSemaTask emplaceJob
      split <;> rfl

theorem pendingJobs_foldl_queueSemaTask (commands : List CommandObject) :
    (commands.foldl queueSemaTask s).pendingJobs =
      s.pendingJobs ++ commands.map semaJobId := by
  induction commands generalizing s with
  | nil => simp
  | cons cmd commands ih =>
      have hqueue : (s.queueSemaTask cmd).pendingJobs = s.pendingJobs ++ [semaJobId cmd] := by
        unfold queueSemaTask emplaceJob
        split <;> rfl
      rw [List.foldl_cons, ih, hqueue, List.append_assoc]
      rfl

/-- Going on with the follow-up job leaves the queue and the staff alone. -/
theorem frame_analysed {w : WorkerId} {j : JobId} (hw : s.jobOf w = some j) (job : IndexJob)
    (now : Instant) : (s.analysed w j job now).pendingJobs = s.pendingJobs ∧
      s.SameStaff (s.analysed w j job now) := by
  cases hnext : s.allJobList j.nextSubtask <;>
    simp [SameStaff, analysed, markCompleted, hw, createSubtaskAndScheduleOnWorker,
      scheduleJobOnWorker, assignWorker, markWorkerBusy, markWorkerIdle, emplaceJob, hnext]

/-- Stopping the idle workers leaves the jobs and the number of workers alone. -/
theorem shutdownIdleWorkers_frame :
    s.shutdownIdleWorkers.wipJobs = s.wipJobs ∧
      s.shutdownIdleWorkers.pendingJobs = s.pendingJobs ∧
      s.shutdownIdleWorkers.workers.length = s.workers.length := by
  refine shutdownIdleWorkers_preserves (P := fun s' => s'.wipJobs = s.wipJobs ∧
    s'.pendingJobs = s.pendingJobs ∧ s'.workers.length = s.workers.length) ?_ ⟨rfl, rfl, rfl⟩
  rintro s' idle w - ⟨hwip, hpending, hlength⟩
  refine ⟨hwip, hpending, ?_⟩
  simpa [shutdownLastIdle, markWorkerStopped] using hlength

theorem idleWorkers_foldl_shutdownLastIdle (rev : List WorkerId) :
    ∀ s : Scheduler, s.idleWorkers = rev.reverse →
      (rev.foldl shutdownLastIdle s).idleWorkers = [] := by
  induction rev with
  | nil => intro s hidle; simpa using hidle
  | cons w rev ih =>
      intro s hidle
      rw [List.reverse_cons] at hidle
      refine ih _ ?_
      show s.idleWorkers.dropLast = rev.reverse
      rw [hidle, List.dropLast_concat]

theorem idleWorkers_shutdownIdleWorkers : s.shutdownIdleWorkers.idleWorkers = [] :=
  idleWorkers_foldl_shutdownLastIdle s.idleWorkers.reverse s (List.reverse_reverse _).symm

/-- If no job is running, stopping the idle workers stops all of them. -/
theorem Inv.shutdownIdleWorkers_stops_all (h : s.Inv) (hwip : s.wipJobs = ∅) :
    s.shutdownIdleWorkers.idleWorkers = [] ∧
      s.shutdownIdleWorkers.stoppedWorkers.length = s.shutdownIdleWorkers.workers.length ∧
      ∀ w < s.shutdownIdleWorkers.workers.length,
        s.shutdownIdleWorkers.statusOf w = some .Stopped := by
  have hinv := h.shutdownIdleWorkers
  have hidle := idleWorkers_shutdownIdleWorkers (s := s)
  have hwip' := shutdownIdleWorkers_frame.1.trans hwip
  refine ⟨hidle, ?_, fun w hw => ?_⟩
  · have hcount := hinv.checkInvariants
    rw [Scheduler.checkInvariants, hwip', hidle, Finset.card_empty, List.length_nil] at hcount
    omega
  · rcases hinv.worker_once hw with ⟨hstatus, -⟩ | ⟨hstatus, -⟩ | ⟨hstatus, -⟩
    · have hmem := (hinv.mem_idle w).mpr hstatus
      rw [hidle] at hmem
      cases hmem
    · exact hstatus
    · obtain ⟨j, hj⟩ := (hinv.busy_iff w).mp hstatus
      have hmem := (hinv.mem_wip j).mpr ⟨w, hj⟩
      rw [hwip'] at hmem
      cases hmem

end Scheduler

/-! ## The assertions -/

section Assertions

variable (env : DriverEnv)

namespace LoopState

/-- `ENFORCE(this->pendingJobs.size() == refillCount)`. -/
def RefillAsserted (st : LoopState) : Prop :=
  st.driver.scheduler.pendingJobs.length = st.refillCount

/-- An iteration from here refills. -/
def Refills (st : LoopState) : Prop :=
  st.driver.scheduler.pendingJobs = [] ∧ st.driver.scheduler.wipJobs ≠ ∅ ∧ st.refillCount ≠ 0

/-- `ENFORCE(!this->wipJobs.empty())`, before `processOneOrMoreJobResults`. -/
def WaitAsserted (st : LoopState) : Prop :=
  st.phase = .receiving → st.driver.scheduler.wipJobs ≠ ∅

/-- The assertions after the loop, and that the stopped workers are all workers. -/
def ExitAsserted (st : LoopState) : Prop :=
  st.phase = .done → st.driver.scheduler.idleWorkers = [] ∧
    st.driver.scheduler.stoppedWorkers.length = st.driver.scheduler.workers.length ∧
    ∀ w < st.driver.scheduler.workers.length, st.driver.scheduler.statusOf w = some .Stopped

end LoopState

/-- The assertions that are checked in one step. -/
def Asserted (st : LoopState) : LoopLabel → Prop
  | .top => (st.Refills → (st.refill env).RefillAsserted) ∧
      (st.loopTop env).WaitAsserted ∧ (st.loopTop env).ExitAsserted
  | .respond _ => True
  | .terminate _ => True

/-- If an iteration begins with jobs pending and none running, the request of a pending
job can be sent. -/
def SomeRequestSent (st : LoopState) : LoopLabel → Prop
  | .top => st.driver.scheduler.wipJobs = ∅ → st.driver.scheduler.pendingJobs ≠ [] →
      ∃ j ∈ st.driver.scheduler.pendingJobs, env.send.sendOk j = true
  | .respond _ => True
  | .terminate _ => True

end Assertions

/-! ## Handling a response when sends may fail -/

section AnySends

variable {env : DriverEnv} {all : List CommandObject} {st st' : LoopState}

/-- A follow-up request that cannot be sent throws. -/
theorem Driver.processWorkerResponse_ne_ok {driver : Driver} {response : IndexJobResponse}
    (hlive : driver.scheduler.jobOf response.workerId = some response.jobId)
    (hkind : response.result.kind = .SemanticAnalysis)
    (hsend : env.send.sendOk response.jobId.nextSubtask = false) (driver' : Driver) :
    driver.processWorkerResponse env response ≠ .ok driver' := by
  obtain ⟨info, hinfo, -⟩ := Scheduler.exists_info_of_jobOf hlive
  have hstatus : driver.scheduler.statusOf response.workerId = some info.status := by
    simp [Scheduler.statusOf, hinfo]
  have hidle : (driver.scheduler.markCompleted response.workerId response.jobId).1.statusOf
      response.workerId = some .Idle := by
    simp only [Scheduler.markCompleted, hlive, if_true]
    exact (Scheduler.statusOf_markWorkerIdle hstatus response.workerId).trans (if_pos rfl)
  have hbusy := statusOf_createSubtask hidle response.jobId
    (emitJob (driver.planner.saveSemaResult response.result.semanticAnalysis []).2)
    (env.send.now response.jobId.nextSubtask)
  have hterminate := terminate_after_deschedule hbusy response.jobId.nextSubtask
    (env.terminateAndRespawn · response.workerId)
  intro hok
  simp only [Scheduler.markCompleted, hlive, if_true] at hterminate
  simp only [processWorkerResponse, Scheduler.markCompleted, hlive, if_true, hkind, hsend,
    Bool.false_eq_true, if_false, hterminate] at hok
  cases hok

/-- A response that is handled without an exception is handled as if all sends succeeded. -/
theorem Driver.processWorkerResponse_accepting {driver driver' : Driver}
    {response : IndexJobResponse}
    (hok : driver.processWorkerResponse env response = .ok driver') :
    driver.processWorkerResponse (accepting env) response = .ok driver' := by
  by_cases hlive : driver.scheduler.jobOf response.workerId = some response.jobId
  · cases hkind : response.result.kind with
    | SemanticAnalysis =>
        cases hsend : env.send.sendOk response.jobId.nextSubtask with
        | true =>
            rw [← hok]
            simp [processWorkerResponse, Scheduler.markCompleted, hlive, hkind, hsend,
              accepting]
        | false => exact absurd hok (processWorkerResponse_ne_ok hlive hkind hsend driver')
    | EmitIndex =>
        rw [← hok]
        simp [processWorkerResponse, Scheduler.markCompleted, hlive, hkind]
  · rw [← hok]
    simp [processWorkerResponse, Scheduler.markCompleted, hlive]

theorem LoopInv.toAccepting (h : LoopInv env all st) : LoopInv (accepting env) all st :=
  ⟨h.inv, h.split, h.tracked, h.known⟩

theorem LoopInv.of_accepting (h : LoopInv (accepting env) all st) : LoopInv env all st :=
  ⟨h.inv, h.split, h.tracked, h.known⟩

/-- The invariant of the loop does not depend on the sends. -/
theorem LoopInv.step_anySends (h : LoopInv env all st) (hall : DistinctJobs all)
    {l : LoopLabel} (hstep : LoopStep env st l st') : LoopInv env all st' := by
  cases hstep with
  | top _ => exact h.loopTop hall
  | respond _ hexpects hok =>
      refine LoopInv.of_accepting ?_
      exact h.toAccepting.respond (fun _ => rfl) hexpects
        (Driver.processWorkerResponse_accepting hok) rfl rfl
  | terminate _ hok => exact h.terminate hok rfl rfl

/-! ## The invariant -/

/-- Workers are stopped only once nothing can become pending any more. -/
structure AssertionInv (env : DriverEnv) (all : List CommandObject) (st : LoopState) : Prop where
  loop : LoopInv env all st
  staffed : st.driver.scheduler.workers ≠ []
  stopped : st.phase ≠ .done → st.driver.scheduler.stoppedWorkers ≠ [] →
    st.refillCount = 0 ∧ st.driver.scheduler.pendingJobs = []

/-- A response changes neither the queue nor the staff. -/
theorem Driver.processWorkerResponse_frame {driver driver' : Driver} {response : IndexJobResponse}
    (hok : driver.processWorkerResponse env response = .ok driver') :
    driver'.scheduler.pendingJobs = driver.scheduler.pendingJobs ∧
      driver.scheduler.SameStaff driver'.scheduler := by
  rcases processWorkerResponse_cases (fun _ => rfl) (processWorkerResponse_accepting hok) with
    ⟨-, rfl⟩ | ⟨hlive, -, planner, files, now, rfl⟩ | ⟨hlive, -, statistics, rfl⟩
  · exact ⟨rfl, rfl, rfl⟩
  · exact Scheduler.frame_analysed hlive _ _
  · simp [Scheduler.markCompleted, hlive, Scheduler.markWorkerIdle, Scheduler.SameStaff]

/-- Neither does the termination of workers. -/
theorem Driver.terminate_frame {driver driver' : Driver} {startedBefore : Instant}
    (hinv : driver.scheduler.Inv)
    (hok : driver.terminateLongRunningWorkersAndRespawn env startedBefore = .ok driver') :
    driver'.scheduler.pendingJobs = driver.scheduler.pendingJobs ∧
      driver.scheduler.SameStaff driver'.scheduler := by
  have hspec := Scheduler.terminateLongRunning_preserves
    (P := fun s => s.Inv ∧ s.pendingJobs = driver.scheduler.pendingJobs ∧
      driver.scheduler.SameStaff s)
    startedBefore env.terminateAndRespawn (fun _ h => h.1) ?_ ⟨hinv, rfl, rfl, rfl⟩
  · obtain ⟨s', hs', ⟨-, hframe⟩, -⟩ := hspec
    simp only [terminateLongRunningWorkersAndRespawn, hs', Except.ok.injEq] at hok
    subst hok
    exact hframe
  · rintro s w j handle ⟨hs, hpending, hstopped, hlength⟩ - hw
    refine ⟨hs.terminate hw handle, hpending, hstopped, ?_⟩
    simpa [Scheduler.terminated] using hlength

namespace AssertionInv

theorem of_frame (h : AssertionInv env all st) (hloop : LoopInv env all st')
    (hphase : st.phase ≠ .done) (hcount : st'.refillCount = st.refillCount)
    (hpending : st'.driver.scheduler.pendingJobs = st.driver.scheduler.pendingJobs)
    (hstaff : st.driver.scheduler.SameStaff st'.driver.scheduler) : AssertionInv env all st' := by
  refine ⟨hloop, ?_, fun _ => ?_⟩
  · rw [← List.length_pos_iff, hstaff.2, List.length_pos_iff]
    exact h.staffed
  · rw [hstaff.1, hcount, hpending]
    exact h.stopped hphase

/-- A worker is idle as long as jobs are pending and none is running. -/
theorem idleWorkers_ne_nil (h : AssertionInv env all st) (hphase : st.phase ≠ .done)
    (hwip : st.driver.scheduler.wipJobs = ∅) (hpending : st.driver.scheduler.pendingJobs ≠ []) :
    st.driver.scheduler.idleWorkers ≠ [] := by
  have hstopped : st.driver.scheduler.stoppedWorkers = [] := by
    by_contra hne
    exact hpending (h.stopped hphase hne).2
  have hcount := h.loop.inv.checkInvariants
  have hstaffed := List.length_pos_iff.mpr h.staffed
  rw [Scheduler.checkInvariants, hwip, hstopped, Finset.card_empty, List.length_nil] at hcount
  rw [← List.length_pos_iff]
  omega

variable (env) in
theorem refill (h : AssertionInv env all st) (hall : DistinctJobs all) (hphase : st.phase ≠ .done)
    (hcount : st.refillCount ≠ 0) : AssertionInv env all (st.refill env) := by
  have hstaff : st.driver.scheduler.SameStaff (st.refill env).driver.scheduler :=
    Scheduler.sameStaff_foldl_queueSemaTask (st.driver.refillJobs env).2
  refine ⟨h.loop.refill hall, ?_, ?_⟩
  · rw [← List.length_pos_iff, hstaff.2, List.length_pos_iff]
    exact h.staffed
  · intro _ hstopped
    rw [hstaff.1] at hstopped
    exact absurd (h.stopped hphase hstopped).1 hcount

end AssertionInv

/-- A refill into an empty queue leaves as many jobs pending as it has counted. -/
theorem LoopState.refillAsserted_refill (h : st.driver.scheduler.pendingJobs = []) :
    (st.refill env).RefillAsserted := by
  have hpending := Scheduler.pendingJobs_foldl_queueSemaTask (s := st.driver.scheduler)
    (st.driver.refillJobs env).2
  show ((st.driver.refillJobs env).2.foldl Scheduler.queueSemaTask
    st.driver.scheduler).pendingJobs.length = (st.driver.refillJobs env).2.length
  rw [hpending, h, List.nil_append, List.length_map]

/-! ## One iteration -/

/-- The state after the refill of an iteration. -/
def LoopState.refilled (env : DriverEnv) (st : LoopState) : LoopState :=
  if st.driver.scheduler.pendingJobs = [] ∧ st.refillCount ≠ 0 then st.refill env else st

theorem LoopState.loopTop_of_exit
    (hexit : st.driver.scheduler.pendingJobs = [] ∧ st.driver.scheduler.wipJobs = ∅) :
    st.loopTop env = { st with
      driver := { st.driver with scheduler := st.driver.scheduler.shutdownIdleWorkers }
      phase := .done } :=
  if_pos hexit

theorem LoopState.loopTop_of_not_exit
    (hexit : ¬ (st.driver.scheduler.pendingJobs = [] ∧ st.driver.scheduler.wipJobs = ∅)) :
    st.loopTop env = { st.refilled env with
      driver := { (st.refilled env).driver with
        scheduler := assignOrShutdown env (st.refilled env).driver.scheduler }
      phase := .receiving } :=
  if_neg hexit

namespace AssertionInv

variable (env) in
theorem refilled (h : AssertionInv env all st) (hall : DistinctJobs all)
    (hphase : st.phase ≠ .done) : AssertionInv env all (st.refilled env) ∧
      (st.refilled env).driver.scheduler.wipJobs = st.driver.scheduler.wipJobs ∧
      (st.refilled env).phase ≠ .done ∧
      ((st.refilled env).driver.scheduler.pendingJobs = [] → (st.refilled env).refillCount = 0) := by
  unfold LoopState.refilled
  split
  · next hrefills =>
    refine ⟨h.refill env hall hphase hrefills.2,
      Scheduler.wipJobs_foldl_queueSemaTask (st.driver.refillJobs env).2, hphase, ?_⟩
    intro hnone
    have hasserted : (st.refill env).RefillAsserted :=
      LoopState.refillAsserted_refill hrefills.1
    rw [LoopState.RefillAsserted, hnone] at hasserted
    exact hasserted.symm
  · next hrefills =>
    refine ⟨h, rfl, hphase, fun hnone => ?_⟩
    by_contra hcount
    exact hrefills ⟨hnone, hcount⟩

theorem loopTop (h : AssertionInv env all st) (hall : DistinctJobs all)
    (hphase : st.phase ≠ .done) : AssertionInv env all (st.loopTop env) := by
  have hloop : LoopInv env all (st.loopTop env) := h.loop.loopTop hall
  by_cases hexit : st.driver.scheduler.pendingJobs = [] ∧ st.driver.scheduler.wipJobs = ∅
  · refine ⟨hloop, ?_, ?_⟩
    · rw [LoopState.loopTop_of_exit hexit, ← List.length_pos_iff,
        Scheduler.shutdownIdleWorkers_frame.2.2, List.length_pos_iff]
      exact h.staffed
    · rw [LoopState.loopTop_of_exit hexit]
      intro hdone
      exact absurd rfl hdone
  · obtain ⟨hrefilled, -, hphase', hnone⟩ := h.refilled env hall hphase
    rw [LoopState.loopTop_of_not_exit hexit] at hloop ⊢
    unfold LoopState.assignOrShutdown at hloop ⊢
    split
    · next hidle =>
      rw [if_pos hidle] at hloop
      exact ⟨hloop, hrefilled.staffed, fun _ => hrefilled.stopped hphase'⟩
    · next hidle =>
      rw [if_neg hidle] at hloop
      split
      · next hpending =>
        rw [if_pos hpending] at hloop
        refine ⟨hloop, ?_, fun _ _ => ⟨hnone hpending, ?_⟩⟩
        · rw [← List.length_pos_iff, Scheduler.shutdownIdleWorkers_frame.2.2, List.length_pos_iff]
          exact hrefilled.staffed
        · exact Scheduler.shutdownIdleWorkers_frame.2.1.trans hpending
      · next hpending =>
        rw [if_neg hpending] at hloop
        have hstaff := Scheduler.sameStaff_assignJobsToIdleWorkers
          (s := (st.refilled env).driver.scheduler) env.send
        refine ⟨hloop, ?_, fun _ hstopped => ?_⟩
        · rw [← List.length_pos_iff, hstaff.2, List.length_pos_iff]
          exact hrefilled.staffed
        · rw [hstaff.1] at hstopped
          exact absurd (hrefilled.stopped hphase' hstopped).2 hpending

theorem step (h : AssertionInv env all st) (hall : DistinctJobs all) {l : LoopLabel}
    (hstep : LoopStep env st l st') : AssertionInv env all st' := by
  have hloop := h.loop.step_anySends hall hstep
  cases hstep with
  | top hphase => exact h.loopTop hall (by rw [hphase]; decide)
  | respond hphase _ hok =>
      obtain ⟨hpending, hstaff⟩ := Driver.processWorkerResponse_frame hok
      exact h.of_frame hloop (by rw [hphase]; decide) rfl hpending hstaff
  | terminate hphase hok =>
      obtain ⟨hpending, hstaff⟩ := Driver.terminate_frame h.loop.inv hok
      exact h.of_frame hloop (by rw [hphase]; decide) rfl hpending hstaff

/-- What an iteration that does not exit leaves running. -/
theorem wipJobs_loopTop_eq_empty (h : AssertionInv env all st) (hall : DistinctJobs all)
    (hphase : st.phase ≠ .done)
    (hexit : ¬ (st.driver.scheduler.pendingJobs = [] ∧ st.driver.scheduler.wipJobs = ∅)) :
    (st.loopTop env).driver.scheduler.wipJobs = ∅ ↔ st.driver.scheduler.wipJobs = ∅ ∧
      ∀ j ∈ st.driver.scheduler.pendingJobs, env.send.sendOk j = false := by
  rw [LoopState.loopTop_of_not_exit hexit]
  by_cases hwip : st.driver.scheduler.wipJobs = ∅
  · -- jobs are pending, so the iteration does not refill and some worker is idle
    have hpending : st.driver.scheduler.pendingJobs ≠ [] := fun hnone => hexit ⟨hnone, hwip⟩
    have hrefilled : st.refilled env = st := if_neg fun hrefills => hpending hrefills.1
    have hidle := h.idleWorkers_ne_nil hphase hwip hpending
    rw [hrefilled, LoopState.assignOrShutdown, if_neg hidle, if_neg hpending,
      Scheduler.wipJobs_assignJobsToIdleWorkers_eq_empty env.send h.loop.inv]
    simp [hidle]
  · obtain ⟨hrefilled, hwip', -⟩ := h.refilled env hall hphase
    refine iff_of_false ?_ fun hnone => hwip hnone.1
    rw [← hwip'] at hwip
    unfold LoopState.assignOrShutdown
    split
    · exact hwip
    · split
      · rw [Scheduler.shutdownIdleWorkers_frame.1]
        exact hwip
      · rw [Scheduler.wipJobs_assignJobsToIdleWorkers_eq_empty env.send hrefilled.loop.inv]
        exact fun hnone => hwip hnone.1

/-- When an iteration exits, all workers have been stopped. -/
theorem exitAsserted_loopTop (h : AssertionInv env all st) : (st.loopTop env).ExitAsserted := by
  by_cases hexit : st.driver.scheduler.pendingJobs = [] ∧ st.driver.scheduler.wipJobs = ∅
  · rw [LoopState.loopTop_of_exit hexit]
    exact fun _ => h.loop.inv.shutdownIdleWorkers_stops_all hexit.2
  · rw [LoopState.loopTop_of_not_exit hexit]
    intro hdone
    cases hdone

/-- The assertions of a step, in terms of the state before it. -/
theorem asserted_iff (h : AssertionInv env all st) (hall : DistinctJobs all) {l : LoopLabel}
    (hstep : LoopStep env st l st') : Asserted env st l ↔ SomeRequestSent env st l := by
  cases hstep with
  | respond _ _ _ => exact Iff.rfl
  | terminate _ _ => exact Iff.rfl
  | top hphase =>
      have hphase' : st.phase ≠ .done := by
        rw [hphase]
        decide
      have hrefill : st.Refills → (st.refill env).RefillAsserted :=
        fun hrefills => LoopState.refillAsserted_refill hrefills.1
      refine (and_iff_right hrefill).trans ((and_iff_left h.exitAsserted_loopTop).trans ?_)
      by_cases hexit : st.driver.scheduler.pendingJobs = [] ∧ st.driver.scheduler.wipJobs = ∅
      · refine iff_of_true ?_ fun _ hpending => absurd hexit.1 hpending
        rw [LoopState.loopTop_of_exit hexit]
        intro hreceiving
        cases hreceiving
      · have hwait : (st.loopTop env).WaitAsserted ↔
            (st.loopTop env).driver.scheduler.wipJobs ≠ ∅ := by
          rw [LoopState.loopTop_of_not_exit hexit]
          exact ⟨fun hwait => hwait rfl, fun hwip _ => hwip⟩
        rw [hwait, ne_eq, h.wipJobs_loopTop_eq_empty hall hphase' hexit]
        constructor
        · intro hnot hwip _
          by_contra hnone
          exact hnot ⟨hwip, by simpa using hnone⟩
        · rintro hsent ⟨hwip, hnone⟩
          obtain ⟨j, hj, hok⟩ := hsent hwip fun hpending => hexit ⟨hpending, hwip⟩
          rw [hnone j hj] at hok
          cases hok

end AssertionInv

/-- The first refill finds a command, so there is a worker. -/
theorem AssertionInv.start {env : DriverEnv} {options : DriverOptions}
    {database : CompilationDatabase} {spawnWorker : WorkerId → Process} {st : LoopState}
    (h : LoopState.start env options database spawnWorker = some st) :
    AssertionInv env (databaseCommands env options database) st ∧ st.RefillAsserted := by
  have hloop := LoopInv.start h
  simp only [LoopState.start] at h
  split at h
  · cases h
  · next hcount =>
    rw [Option.some.injEq] at h
    subst h
    set driver := Driver.openCompilationDatabase options database spawnWorker
    have hstaff : driver.scheduler.SameStaff (LoopState.refill env
        { driver, refillCount := 0, phase := .top, queued := [], handled := [] }).driver.scheduler :=
      Scheduler.sameStaff_foldl_queueSemaTask (driver.refillJobs env).2
    refine ⟨⟨hloop, ?_, fun _ hstopped => ?_⟩, LoopState.refillAsserted_refill rfl⟩
    · intro hnone
      rw [← List.length_eq_zero_iff, hstaff.2] at hnone
      have hworkers : min database.commands.length options.numWorkers = 0 := by
        simpa [driver, Driver.openCompilationDatabase, Scheduler.initializeWorkers] using hnone
      -- without workers the parser is asked for no commands
      have hle := ResumableParser.length_parseChunks_le env.parser driver.parseOptions
        driver.compdbParser.unread.length driver.compdbParser
      have hzero : driver.parseOptions.refillCount = 0 := by
        show 2 * min database.commands.length options.numWorkers = 0
        rw [hworkers]
      refine hcount (Nat.eq_zero_of_le_zero ?_)
      rw [hzero] at hle
      exact (List.length_map _).trans_le hle
    · rw [hstaff.1] at hstopped
      exact absurd rfl hstopped

end AnySends

/-! ## The assertions of a run -/

/-- **When the assertions of a run hold.** The refills and the exit never violate theirs;
the driver waits with a job running exactly if, whenever an iteration begins with jobs
pending and none running, the request of a pending job can be sent. -/
theorem run_asserted_iff {env : DriverEnv} {options : DriverOptions} {database : CompilationDatabase}
    {spawnWorker : WorkerId → Process} {st₀ : LoopState}
    (hinit : (driverLoop env options database spawnWorker).init st₀) (ls : List LoopLabel)
    (st : LoopState) :
    (st₀.RefillAsserted ∧
        ((driverLoop env options database spawnWorker).restrict (Asserted env)).Run st₀ ls st) ↔
      ((driverLoop env options database spawnWorker).restrict (SomeRequestSent env)).Run
        st₀ ls st := by
  have hall := distinctJobs_databaseCommands env options database
  obtain ⟨hinv, hrefill⟩ := AssertionInv.start hinit
  rw [and_iff_right hrefill]
  exact TransitionSystem.Run.restrict_congr
    (I := AssertionInv env (databaseCommands env options database))
    (fun _ _ _ h hstep => h.step hall hstep) (fun _ _ _ h hstep => h.asserted_iff hall hstep) hinv

/-- An environment in which no request fits into its queue. -/
def rejectingEnv : DriverEnv :=
  { succeedingEnv with send := { succeedingEnv.send with sendOk := fun _ => false } }

/-- One translation unit is analysed and indexed, and all assertions hold. -/
theorem run_asserted_iff_oneFile : ∃ st₀ st ls,
    (driverLoop succeedingEnv oneWorker oneFile id).init st₀ ∧ st₀.RefillAsserted ∧
      ((driverLoop succeedingEnv oneWorker oneFile id).restrict (Asserted succeedingEnv)).Run
        st₀ ls st ∧ st.phase = .done := by
  have hinit : (driverLoop succeedingEnv oneWorker oneFile id).init
      (LoopState.refill succeedingEnv
        { driver := .openCompilationDatabase oneWorker oneFile id
          refillCount := 0, phase := .top, queued := [], handled := [] }) := rfl
  have hrun : ∃ st, ((driverLoop succeedingEnv oneWorker oneFile id).restrict
      (SomeRequestSent succeedingEnv)).Run
      (LoopState.refill succeedingEnv
        { driver := .openCompilationDatabase oneWorker oneFile id
          refillCount := 0, phase := .top, queued := [], handled := [] })
      [.top, .respond ⟨0, .newTask 0, { kind := .SemanticAnalysis }⟩,
        .respond ⟨0, (JobId.newTask 0).nextSubtask, { kind := .EmitIndex }⟩, .terminate 10, .top]
      st ∧ st.phase = .done := by
    refine ⟨_, .cons ⟨fun _ _ => ⟨.newTask 0, by decide, rfl⟩, .top rfl⟩
      (.cons ⟨trivial, .respond rfl ?_ rfl⟩ (.cons ⟨trivial, .respond rfl ?_ rfl⟩
        (.cons ⟨trivial, .terminate rfl rfl⟩
          (.cons ⟨fun _ hpending => absurd rfl hpending, .top rfl⟩ (.nil _))))), rfl⟩
    · exact ⟨⟨_, rfl, rfl, rfl⟩, by decide⟩
    · exact ⟨⟨_, rfl, rfl, rfl⟩, by decide⟩
  obtain ⟨st, hrun, hdone⟩ := hrun
  obtain ⟨hrefill, hrun'⟩ := (run_asserted_iff hinit _ st).mpr hrun
  exact ⟨_, st, _, hinit, hrefill, hrun', hdone⟩

/-- The request of the only translation unit cannot be sent: the driver waits with no job
running. -/
theorem waits_for_nothing : ∃ st₀ st ls,
    (driverLoop rejectingEnv oneWorker oneFile id).init st₀ ∧
      (driverLoop rejectingEnv oneWorker oneFile id).Run st₀ ls st ∧
      st.phase = .receiving ∧ st.driver.scheduler.wipJobs = ∅ ∧
      ¬ ((driverLoop rejectingEnv oneWorker oneFile id).restrict (Asserted rejectingEnv)).Run
        st₀ ls st := by
  refine ⟨_, _, [.top], rfl, .cons (.top rfl) (.nil _), rfl, by decide, ?_⟩
  intro hrun
  cases hrun with
  | cons hstep _ => exact hstep.1.2.1 rfl (by decide)

end ScipClang
