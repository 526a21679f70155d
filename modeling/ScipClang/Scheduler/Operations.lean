import ScipClang.Scheduler.Loops
import ScipClang.Library.TransitionSystem

/-!
# Every sequence of scheduler operations

The driver calls the operations of the scheduler in an order that depends on the
workers, the clock and the message queues.  `schedulerOps` leaves that order open:
after the workers have been initialized, any operation can follow any other, under
the conditions that the driver meets at its call sites.

* `queueSemaTask` is called with a command whose index has not been queued before.
  Indexes fit into the 32 bits of a task id.
* `markCompleted` is called for a response of the worker that the job was assigned
  to, whether or not that worker is still alive.  Nothing here depends on how often
  a job is answered.
* `createSubtaskAndScheduleOnWorker` takes the `LatestIdleWorkerId` that a successful
  `markCompleted` has just returned, so no other operation comes between the two,
  and it is called for a semantic analysis with a job that emits the index.
* `terminateRunningWorker` is called on a busy worker.

The main result, `reachable_consistent`, is the promise of the comments on the
fields of `Scheduler`.
-/

namespace ScipClang

namespace Scheduler

/-! ## The follow-up job of a semantic analysis -/

/-- What `LatestIdleWorkerId` stands for: the worker is at the front of the idle
workers, and the job that it has completed is in no job set. -/
def FreshToken (s : Scheduler) (w : WorkerId) (j : JobId) : Prop :=
  (∃ idle, s.idleWorkers = w :: idle) ∧ j ∉ s.pendingJobs ∧ j ∉ s.wipJobs ∧
    j ∉ s.maybeErroredJobs ∧ (j.subtaskId = 0 → s.allJobList j.nextSubtask = none)

theorem freshToken_markCompleted {s : Scheduler} (h : s.Inv) {w : WorkerId} {j : JobId}
    (hw : s.jobOf w = some j) : FreshToken (s.markCompleted w j).1 w j := by
  have hwip : j ∈ s.wipJobs := (h.mem_wip j).mpr ⟨w, hw⟩
  obtain ⟨t, ht, hassigned⟩ := h.running_assigned w j hw
  simp only [markCompleted, hw, if_true]
  refine ⟨⟨s.idleWorkers, rfl⟩, h.notMem_pending_of_assigned ht hassigned, ?_, ?_, ?_⟩
  · exact Finset.notMem_erase j s.wipJobs
  · exact Finset.disjoint_left.mp h.wip_errored hwip
  · intro hsub
    exact h.nextSubtask_unknown hsub (Or.inr (Or.inl hwip))

/-- The state after the response of a live worker to a semantic analysis: the worker goes
on with the job that emits the index. -/
def analysed (s : Scheduler) (w : WorkerId) (j : JobId) (job : IndexJob) (now : Instant) :
    Scheduler :=
  ((s.markCompleted w j).1.createSubtaskAndScheduleOnWorker w j job now).1

section Analysed

variable {s : Scheduler} {w : WorkerId} {j : JobId} {t : TrackedIndexJob} {job : IndexJob}
  {now : Instant}

theorem subtaskId_of_sema (h : s.Inv) (ht : s.allJobList j = some t)
    (hkind : t.job.kind = .SemanticAnalysis) : j.subtaskId = 0 := by
  rcases h.shape j t ht with ⟨-, hsub⟩ | ⟨hkind', -⟩
  · exact hsub
  · rw [hkind] at hkind'
    cases hkind'

/-- As long as a semantic analysis runs, its follow-up job does not exist. -/
theorem nextSubtask_unknown_of_running (h : s.Inv) (hw : s.jobOf w = some j)
    (ht : s.allJobList j = some t) (hkind : t.job.kind = .SemanticAnalysis) :
    s.allJobList j.nextSubtask = none :=
  h.nextSubtask_unknown (subtaskId_of_sema h ht hkind)
    (Or.inr (Or.inl ((h.mem_wip j).mpr ⟨w, hw⟩)))

theorem allJobList_markCompleted (w : WorkerId) (j : JobId) :
    (s.markCompleted w j).1.allJobList = s.allJobList := by
  unfold markCompleted
  split <;> rfl

theorem Inv.analysed (h : s.Inv) (hw : s.jobOf w = some j) (ht : s.allJobList j = some t)
    (hkind : t.job.kind = .SemanticAnalysis) (hemit : job.kind = .EmitIndex) :
    (s.analysed w j job now).Inv := by
  obtain ⟨⟨idle, hidle⟩, hpend, hwip, herr, hnext⟩ := freshToken_markCompleted h hw
  have hsub := subtaskId_of_sema h ht hkind
  refine (h.markCompleted w j).createSubtask hidle (t := t) ?_ hsub (hnext hsub) hpend hwip herr
    hemit now
  rw [allJobList_markCompleted, ht]

theorem allJobList_analysed (hunknown : s.allJobList j.nextSubtask = none) :
    (s.analysed w j job now).allJobList =
      Function.update s.allJobList j.nextSubtask (some ⟨job, some w⟩) := by
  have hunknown' : (s.markCompleted w j).1.allJobList j.nextSubtask = none := by
    rw [allJobList_markCompleted, hunknown]
  funext k
  by_cases hk : k = j.nextSubtask
  · simp [Scheduler.analysed, createSubtaskAndScheduleOnWorker, scheduleJobOnWorker, assignWorker,
      markWorkerBusy, emplaceJob, hunknown', hk]
  · simp [Scheduler.analysed, createSubtaskAndScheduleOnWorker, scheduleJobOnWorker, assignWorker,
      markWorkerBusy, emplaceJob, hunknown', hk, allJobList_markCompleted]

theorem trackedJob_analysed (hunknown : s.allJobList j.nextSubtask = none) (k : JobId) :
    (s.analysed w j job now).trackedJob k =
      if k = j.nextSubtask then some job else s.trackedJob k := by
  rw [trackedJob, allJobList_analysed hunknown]
  by_cases hk : k = j.nextSubtask
  · simp [hk]
  · simp [hk, trackedJob]

variable (job now) in
/-- The follow-up job takes the place of the analysis among the running jobs. -/
theorem jobs_analysed (hw : s.jobOf w = some j) (hunknown : s.allJobList j.nextSubtask = none) :
    (s.analysed w j job now).wipJobs = insert j.nextSubtask (s.wipJobs.erase j) ∧
      (s.analysed w j job now).pendingJobs = s.pendingJobs ∧
      (s.analysed w j job now).maybeErroredJobs = s.maybeErroredJobs := by
  simp [Scheduler.analysed, markCompleted, hw, createSubtaskAndScheduleOnWorker,
    scheduleJobOnWorker, assignWorker, markWorkerBusy, markWorkerIdle, emplaceJob, hunknown]

variable (job now) in
/-- The worker goes from the analysis to the follow-up job, the others keep theirs. -/
theorem workers_analysed (hw : s.jobOf w = some j) (v : WorkerId) :
    (s.analysed w j job now).jobOf v = (if v = w then some j.nextSubtask else s.jobOf v) ∧
      (s.analysed w j job now).statusOf v = (if v = w then some .Busy else s.statusOf v) := by
  obtain ⟨info, hinfo, -⟩ := exists_info_of_jobOf hw
  have hstatus : s.statusOf w = some info.status := by simp [statusOf, hinfo]
  have hcompleted : (s.markCompleted w j).1.workers = (s.markWorkerIdle w).workers := by
    simp [markCompleted, hw]
  have hemplace : ((s.markCompleted w j).1.emplaceJob j.nextSubtask job).workers =
      (s.markWorkerIdle w).workers := by
    unfold emplaceJob
    split <;> exact hcompleted
  have hstatus' : ∀ u, (s.markWorkerIdle w).statusOf u =
      if u = w then some .Idle else s.statusOf u := statusOf_markWorkerIdle hstatus
  have hjob' : ∀ u, (s.markWorkerIdle w).jobOf u =
      if u = w then none else s.jobOf u := jobOf_markWorkerIdle hstatus
  set s₁ : Scheduler :=
    { (s.markCompleted w j).1.emplaceJob j.nextSubtask job with
      wipJobs := insert j.nextSubtask
        ((s.markCompleted w j).1.emplaceJob j.nextSubtask job).wipJobs
      idleWorkers := ((s.markCompleted w j).1.emplaceJob j.nextSubtask job).idleWorkers.tail }
    with hs₁
  have hs₁status : ∀ u, s₁.statusOf u = (s.markWorkerIdle w).statusOf u := by
    intro u
    simp only [statusOf, hs₁, hemplace]
  have hs₁job : ∀ u, s₁.jobOf u = (s.markWorkerIdle w).jobOf u := by
    intro u
    simp only [jobOf, hs₁, hemplace]
  have hidle : s₁.statusOf w = some .Idle := by rw [hs₁status, hstatus', if_pos rfl]
  constructor
  · refine (jobOf_markWorkerBusy hidle j.nextSubtask now v).trans ?_
    by_cases hv : v = w
    · rw [if_pos hv, if_pos hv]
    · rw [if_neg hv, if_neg hv, hs₁job, hjob', if_neg hv]
  · refine (statusOf_markWorkerBusy hidle j.nextSubtask now v).trans ?_
    by_cases hv : v = w
    · rw [if_pos hv, if_pos hv]
    · rw [if_neg hv, if_neg hv, hs₁status, hstatus', if_neg hv]

/-- A live worker that has completed its job is idle, the others keep theirs. -/
theorem workers_markCompleted (hw : s.jobOf w = some j) (v : WorkerId) :
    (s.markCompleted w j).1.jobOf v = (if v = w then none else s.jobOf v) ∧
      (s.markCompleted w j).1.statusOf v = (if v = w then some .Idle else s.statusOf v) := by
  obtain ⟨info, hinfo, -⟩ := exists_info_of_jobOf hw
  have hstatus : s.statusOf w = some info.status := by simp [statusOf, hinfo]
  simp only [markCompleted, hw, if_true]
  exact ⟨jobOf_markWorkerIdle hstatus v, statusOf_markWorkerIdle hstatus v⟩

end Analysed

/-! ## The transition system -/

/-- The calls of the driver into the scheduler. -/
inductive Op where
  | queueSemaTask (cmdObject : CommandObject)
  | assignJobsToIdleWorkers (env : SendEnv)
  | markCompleted (workerId : WorkerId) (jobId : JobId)
  | createSubtaskAndScheduleOnWorker (job : IndexJob) (now : Instant)
  | terminateRunningWorker (workerId : WorkerId) (terminateAndRespawn : Process → Process)
  | shutdownIdleWorkers

/-- The scheduler, the indexes queued so far and, right after a successful
`markCompleted`, the worker and the job it was successful for. -/
structure OpState where
  scheduler : Scheduler
  queued : List ℕ := []
  latest : Option (WorkerId × JobId) := none

/-- One operation. -/
inductive OpStep : OpState → Op → OpState → Prop
  | queueSemaTask {o : OpState} {cmdObject : CommandObject} :
      cmdObject.index < 2 ^ 32 → cmdObject.index ∉ o.queued →
      OpStep o (.queueSemaTask cmdObject)
        ⟨o.scheduler.queueSemaTask cmdObject, cmdObject.index :: o.queued, none⟩
  | assignJobsToIdleWorkers {o : OpState} {env : SendEnv} :
      OpStep o (.assignJobsToIdleWorkers env)
        ⟨o.scheduler.assignJobsToIdleWorkers env, o.queued, none⟩
  | markCompleted {o : OpState} {w : WorkerId} {j : JobId} {t : TrackedIndexJob} :
      o.scheduler.allJobList j = some t → t.assignedWorker = some w →
      OpStep o (.markCompleted w j)
        ⟨(o.scheduler.markCompleted w j).1, o.queued,
          (o.scheduler.markCompleted w j).2.map (·, j)⟩
  | createSubtaskAndScheduleOnWorker {o : OpState} {w : WorkerId} {j : JobId}
      {t : TrackedIndexJob} {job : IndexJob} {now : Instant} :
      o.latest = some (w, j) → o.scheduler.allJobList j = some t →
      t.job.kind = .SemanticAnalysis → job.kind = .EmitIndex →
      OpStep o (.createSubtaskAndScheduleOnWorker job now)
        ⟨(o.scheduler.createSubtaskAndScheduleOnWorker w j job now).1, o.queued, none⟩
  | terminateRunningWorker {o : OpState} {w : WorkerId} {terminateAndRespawn : Process → Process}
      {s' : Scheduler} :
      o.scheduler.statusOf w = some .Busy →
      o.scheduler.terminateRunningWorker w terminateAndRespawn = .ok s' →
      OpStep o (.terminateRunningWorker w terminateAndRespawn) ⟨s', o.queued, none⟩
  | shutdownIdleWorkers {o : OpState} :
      OpStep o .shutdownIdleWorkers ⟨o.scheduler.shutdownIdleWorkers, o.queued, none⟩

/-- The operations in any order, once the workers have been initialized. -/
def schedulerOps : TransitionSystem OpState Op where
  init o := ∃ numWorkers spawn, o = { scheduler := initializeWorkers {} numWorkers spawn }
  step := OpStep

/-! ## The invariant of the reachable states -/

/-- The invariant of `schedulerOps`. -/
structure OpInv (o : OpState) : Prop where
  inv : o.scheduler.Inv
  /-- Every job belongs to a queued command. -/
  queued : ∀ j job, o.scheduler.trackedJob j = some job →
    ∃ i ∈ o.queued, i < 2 ^ 32 ∧ j.taskId = UInt32.ofNat i
  latest : ∀ w j, o.latest = some (w, j) → FreshToken o.scheduler w j

theorem OpInv.init {o : OpState} (h : schedulerOps.init o) : OpInv o := by
  obtain ⟨numWorkers, spawn, rfl⟩ := h
  refine ⟨Inv.initializeWorkers numWorkers spawn, ?_, ?_⟩
  · intro j job hj
    simp [trackedJob, initializeWorkers] at hj
  · intro w j hlatest
    cases hlatest

theorem OpInv.step {o o' : OpState} {op : Op} (h : OpInv o) (hstep : schedulerOps.step o op o') :
    OpInv o' := by
  cases hstep with
  | @queueSemaTask cmdObject hlt hnew =>
      have hfresh : o.scheduler.allJobList (semaJobId cmdObject) = none := by
        rw [← trackedJob_eq_none]
        cases hjob : o.scheduler.trackedJob (semaJobId cmdObject) with
        | none => rfl
        | some job =>
            obtain ⟨i, hi, hilt, htask⟩ := h.queued _ job hjob
            have hnat : cmdObject.index = i := by
              have hmod : cmdObject.index % 2 ^ 32 = i % 2 ^ 32 := by
                simpa [semaJobId] using congrArg UInt32.toNat htask
              omega
            rw [hnat] at hnew
            exact absurd hi hnew
      refine ⟨h.inv.queueSemaTask hfresh, ?_, by simp⟩
      intro j job hj
      rw [trackedJob_queueSemaTask hfresh] at hj
      by_cases hjnew : j = semaJobId cmdObject
      · exact ⟨cmdObject.index, by simp, hlt, by rw [hjnew]; rfl⟩
      · rw [if_neg hjnew] at hj
        obtain ⟨i, hi, hrest⟩ := h.queued j job hj
        exact ⟨i, by simp [hi], hrest⟩
  | @assignJobsToIdleWorkers env =>
      refine ⟨h.inv.assignJobsToIdleWorkers env, ?_, by simp⟩
      simpa using h.queued
  | @markCompleted w j t ht hassigned =>
      refine ⟨h.inv.markCompleted w j, by simpa using h.queued, ?_⟩
      intro w' j' hlatest
      by_cases hw : o.scheduler.jobOf w = some j
      · have htoken := freshToken_markCompleted h.inv hw
        simp only [Scheduler.markCompleted, hw, if_true, Option.map_some, Option.some.injEq,
          Prod.mk.injEq] at hlatest
        obtain ⟨rfl, rfl⟩ := hlatest
        exact htoken
      · simp [Scheduler.markCompleted, hw] at hlatest
  | @createSubtaskAndScheduleOnWorker w j t job now hlatest ht hkind hemit =>
      obtain ⟨⟨idle, hidle⟩, hpend, hwip, herr, hnext⟩ := h.latest w j hlatest
      have hsub := subtaskId_of_sema h.inv ht hkind
      refine ⟨h.inv.createSubtask hidle ht hsub (hnext hsub) hpend hwip herr hemit now, ?_, by simp⟩
      intro k job' hk
      rw [trackedJob_createSubtask (hnext hsub)] at hk
      by_cases hknew : k = j.nextSubtask
      · have := h.queued j t.job (trackedJob_eq_some.mpr ⟨t, ht, rfl⟩)
        simpa [hknew] using this
      · rw [if_neg hknew] at hk
        exact h.queued k job' hk
  | @terminateRunningWorker w terminateAndRespawn s' hbusy hok =>
      obtain ⟨j, hj⟩ := (h.inv.busy_iff w).mp hbusy
      obtain ⟨handle, heq⟩ := terminateRunningWorker_eq_ok hj terminateAndRespawn
      rw [heq, Except.ok.injEq] at hok
      subst hok
      exact ⟨h.inv.terminate hj handle, h.queued, by simp⟩
  | shutdownIdleWorkers =>
      refine ⟨h.inv.shutdownIdleWorkers, ?_, by simp⟩
      simpa using h.queued

theorem reachable_opInv {o : OpState} (h : schedulerOps.Reachable o) : OpInv o :=
  h.invariant (fun _ => OpInv.init) (fun _ _ _ => OpInv.step)

/-! ## What the comments on the fields promise -/

/-- The containers and the per-worker fields describe one assignment of jobs to workers. -/
structure Consistent (s : Scheduler) : Prop where
  /-- Every worker is in exactly one of the three groups, once, and its status says which. -/
  worker_once : ∀ w < s.workers.length,
    (s.statusOf w = some .Idle ∧ s.idleWorkers.count w = 1 ∧ w ∉ s.stoppedWorkers) ∨
      (s.statusOf w = some .Stopped ∧ s.stoppedWorkers.count w = 1 ∧ w ∉ s.idleWorkers) ∨
      (s.statusOf w = some .Busy ∧ w ∉ s.idleWorkers ∧ w ∉ s.stoppedWorkers)
  worker_index : ∀ w, w ∈ s.idleWorkers ∨ w ∈ s.stoppedWorkers → w < s.workers.length
  current_iff : ∀ w < s.workers.length, (s.jobOf w).isSome ↔ s.statusOf w = some .Busy
  /-- `currentlyProcessing` is a bijection between the busy workers and the running jobs. -/
  current_bij : Set.BijOn s.jobOf { w | s.statusOf w = some .Busy }
    (some '' (s.wipJobs : Set JobId))
  nodup_pending : s.pendingJobs.Nodup
  pending_wip : ∀ j ∈ s.pendingJobs, j ∉ s.wipJobs
  pending_errored : ∀ j ∈ s.pendingJobs, j ∉ s.maybeErroredJobs
  wip_errored : ∀ j ∈ s.wipJobs, j ∉ s.maybeErroredJobs
  known : ∀ j, j ∈ s.pendingJobs ∨ j ∈ s.wipJobs ∨ j ∈ s.maybeErroredJobs →
    (s.allJobList j).isSome

theorem statusOf_lt {s : Scheduler} {w : WorkerId} {st : WorkerStatus}
    (h : s.statusOf w = some st) : w < s.workers.length := by
  have hsome := isSome_of_statusOf h
  simpa using hsome

theorem exists_statusOf {s : Scheduler} {w : WorkerId} (hw : w < s.workers.length) :
    ∃ st, s.statusOf w = some st :=
  ⟨s.workers[w].status, by simp [statusOf, hw]⟩

namespace Inv

variable {s : Scheduler}

theorem worker_once (h : s.Inv) {w : WorkerId} (hw : w < s.workers.length) :
    (s.statusOf w = some .Idle ∧ s.idleWorkers.count w = 1 ∧ w ∉ s.stoppedWorkers) ∨
      (s.statusOf w = some .Stopped ∧ s.stoppedWorkers.count w = 1 ∧ w ∉ s.idleWorkers) ∨
      (s.statusOf w = some .Busy ∧ w ∉ s.idleWorkers ∧ w ∉ s.stoppedWorkers) := by
  obtain ⟨st, hst⟩ := exists_statusOf hw
  have hidle := h.mem_idle w
  have hstopped := h.mem_stopped w
  rw [hst] at hidle hstopped
  cases st with
  | Idle =>
      refine Or.inl ⟨hst, ?_, by simpa using hstopped⟩
      exact List.count_eq_one_of_mem h.nodup_idle (hidle.mpr rfl)
  | Stopped =>
      refine Or.inr (Or.inl ⟨hst, ?_, by simpa using hidle⟩)
      exact List.count_eq_one_of_mem h.nodup_stopped (hstopped.mpr rfl)
  | Busy => exact Or.inr (Or.inr ⟨hst, by simpa using hidle, by simpa using hstopped⟩)

theorem current_bij (h : s.Inv) : Set.BijOn s.jobOf { w | s.statusOf w = some .Busy }
    (some '' (s.wipJobs : Set JobId)) := by
  refine ⟨?_, ?_, ?_⟩
  · intro w hw
    obtain ⟨j, hj⟩ := (h.busy_iff w).mp hw
    exact ⟨j, (h.mem_wip j).mpr ⟨w, hj⟩, hj.symm⟩
  · intro w hw w' _ heq
    obtain ⟨j, hj⟩ := (h.busy_iff w).mp hw
    exact h.jobOf_inj hj (heq ▸ hj)
  · rintro _ ⟨j, hj, rfl⟩
    obtain ⟨w, hw⟩ := (h.mem_wip j).mp hj
    exact ⟨w, h.statusOf_of_jobOf hw, hw⟩

theorem consistent (h : s.Inv) : s.Consistent where
  worker_once _ hw := h.worker_once hw
  worker_index w hw := by
    rcases hw with hw | hw
    · exact statusOf_lt ((h.mem_idle w).mp hw)
    · exact statusOf_lt ((h.mem_stopped w).mp hw)
  current_iff w _ := by rw [h.busy_iff, Option.isSome_iff_exists]
  current_bij := h.current_bij
  nodup_pending := h.nodup_pending
  pending_wip j hj := by
    obtain ⟨t, ht, hnone, -⟩ := h.pending_unassigned j hj
    exact (h.notMem_of_unassigned ht hnone).1
  pending_errored j hj := by
    obtain ⟨t, ht, hnone, -⟩ := h.pending_unassigned j hj
    exact (h.notMem_of_unassigned ht hnone).2
  wip_errored _ hj := Finset.disjoint_left.mp h.wip_errored hj
  known j hj := by
    rcases hj with hj | hj | hj
    · obtain ⟨t, ht, -⟩ := h.pending_unassigned j hj
      simp [ht]
    · obtain ⟨w, hw⟩ := (h.mem_wip j).mp hj
      obtain ⟨t, ht, -⟩ := h.running_assigned w j hw
      simp [ht]
    · obtain ⟨t, w, ht, -⟩ := h.errored_assigned j hj
      simp [ht]

/-- The running jobs are as many as the busy workers. -/
theorem card_wip (h : s.Inv) : s.wipJobs.card =
    ((Finset.range s.workers.length).filter fun w => s.statusOf w = some .Busy).card := by
  symm
  refine Finset.card_bij (fun w hw => (s.jobOf w).get ?_) ?_ ?_ ?_
  · have hbusy := (Finset.mem_filter.mp hw).2
    rw [h.busy_iff] at hbusy
    exact Option.isSome_iff_exists.mpr hbusy
  · intro w _
    exact (h.mem_wip _).mpr ⟨w, by simp⟩
  · intro w hw w' _ heq
    rw [← Option.some_inj, Option.some_get, Option.some_get] at heq
    obtain ⟨j, hj⟩ := (h.busy_iff w).mp (Finset.mem_filter.mp hw).2
    exact h.jobOf_inj hj (heq ▸ hj)
  · intro j hj
    obtain ⟨w, hw⟩ := (h.mem_wip j).mp hj
    have hbusy := h.statusOf_of_jobOf hw
    exact ⟨w, Finset.mem_filter.mpr ⟨Finset.mem_range.mpr (statusOf_lt hbusy), hbusy⟩, by simp [hw]⟩

/-- The counting check of `checkInvariants` is a consequence of the invariant. -/
theorem checkInvariants (h : s.Inv) : s.checkInvariants := by
  have hgroup : ∀ (l : List WorkerId) (st : WorkerStatus), l.Nodup →
      (∀ w, w ∈ l ↔ s.statusOf w = some st) →
      l.length = ((Finset.range s.workers.length).filter fun w => s.statusOf w = some st).card := by
    intro l st hnodup hmem
    rw [← List.toFinset_card_of_nodup hnodup]
    congr 1
    ext w
    rw [List.mem_toFinset, Finset.mem_filter, Finset.mem_range, hmem]
    exact ⟨fun hst => ⟨statusOf_lt hst, hst⟩, fun hst => hst.2⟩
  have hcover : ∀ w ∈ Finset.range s.workers.length,
      s.statusOf w = some .Busy ∨ s.statusOf w = some .Idle ∨ s.statusOf w = some .Stopped := by
    intro w hw
    obtain ⟨st, hst⟩ := exists_statusOf (Finset.mem_range.mp hw)
    cases st <;> simp [hst]
  unfold Scheduler.checkInvariants
  rw [h.card_wip, hgroup _ _ h.nodup_idle h.mem_idle, hgroup _ _ h.nodup_stopped h.mem_stopped]
  conv_rhs => rw [← Finset.card_range s.workers.length]
  rw [← Finset.card_union_of_disjoint, ← Finset.card_union_of_disjoint]
  · congr 1
    ext w
    simp only [Finset.mem_union, Finset.mem_filter]
    constructor
    · tauto
    · intro hw
      have := hcover w hw
      tauto
  · rw [Finset.disjoint_left]
    intro w hw hw'
    simp only [Finset.mem_union, Finset.mem_filter] at hw hw'
    rcases hw with hw | hw <;> simp [hw.2] at hw'
  · rw [Finset.disjoint_left]
    intro w hw hw'
    simp only [Finset.mem_filter] at hw hw'
    simp [hw.2] at hw'

end Inv

/-- **The representation invariant.** After every sequence of operations, the scheduler
is consistent, and terminating any busy worker is defined. -/
theorem reachable_consistent {o : OpState} (h : schedulerOps.Reachable o) :
    o.scheduler.Consistent ∧ ∀ w terminateAndRespawn, o.scheduler.statusOf w = some .Busy →
      ∃ s', o.scheduler.terminateRunningWorker w terminateAndRespawn = .ok s' := by
  have hinv := (reachable_opInv h).inv
  refine ⟨hinv.consistent, ?_⟩
  intro w terminateAndRespawn hbusy
  obtain ⟨j, hj⟩ := (hinv.busy_iff w).mp hbusy
  obtain ⟨handle, heq⟩ := terminateRunningWorker_eq_ok hj terminateAndRespawn
  exact ⟨_, heq⟩

/-- One worker runs the semantic analysis of one command and is then given the job of
emitting the index. -/
theorem reachable_consistent_subtask :
    (((((initializeWorkers {} 1 id).queueSemaTask { index := 0 }).assignJobsToIdleWorkers
      ⟨fun _ => true, fun _ => 5⟩).markCompleted 0 (.newTask 0)).1.createSubtaskAndScheduleOnWorker
        0 (.newTask 0) { kind := .EmitIndex } 7).1.Consistent := by
  refine (reachable_consistent (o := ⟨_, [0], none⟩)
    ⟨{ scheduler := initializeWorkers {} 1 id }, [.queueSemaTask { index := 0 },
      .assignJobsToIdleWorkers ⟨fun _ => true, fun _ => 5⟩, .markCompleted 0 (.newTask 0),
      .createSubtaskAndScheduleOnWorker { kind := .EmitIndex } 7], ⟨1, id, rfl⟩, ?_⟩).1
  refine .cons (.queueSemaTask (by decide) (by simp)) (.cons .assignJobsToIdleWorkers ?_)
  refine .cons (.markCompleted (t := ⟨semaJob { index := 0 }, some 0⟩) rfl rfl) (.cons ?_ (.nil _))
  exact .createSubtaskAndScheduleOnWorker (t := ⟨semaJob { index := 0 }, some 0⟩) rfl rfl rfl rfl

end Scheduler

end ScipClang
