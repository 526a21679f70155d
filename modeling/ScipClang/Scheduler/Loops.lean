import ScipClang.Scheduler.Invariant

/-!
# The loops of the scheduler

Assigning jobs, stopping idle workers, terminating workers that took too long and
queueing the commands of one refill are loops over one-element operations.  Each
loop has an induction rule, "what every round preserves, the loop preserves", and
the facts about a loop are instances of its rule.

The table of jobs is seen through `trackedJob`: scheduling changes the assigned
worker of a job, never the job itself.
-/

namespace ScipClang

namespace Scheduler

/-! ## The loops, one round at a time -/

/-- What every round of the assignment loop preserves, the loop preserves. -/
theorem assignPending_preserves {P : Scheduler → Prop} {env : SendEnv}
    (hround : ∀ s nextJob pending w idle, s.pendingJobs = nextJob :: pending →
      s.idleWorkers = w :: idle → P s →
      P (tryAssignJobToWorker env
        { s with
          pendingJobs := pending
          wipJobs := insert nextJob s.wipJobs
          idleWorkers := idle } w nextJob)) (pending : List JobId) :
    ∀ s : Scheduler, s.pendingJobs = pending → P s → P (assignPending env pending s) := by
  induction pending with
  | nil =>
      intro s _ h
      exact h
  | cons nextJob pending ih =>
      intro s hpending h
      rw [assignPending]
      cases hidle : s.idleWorkers with
      | nil => exact h
      | cons w idle =>
          refine ih _ ?_ (hround s nextJob pending w idle hpending hidle h)
          unfold tryAssignJobToWorker
          split <;> rfl

theorem assignJobsToIdleWorkers_preserves {P : Scheduler → Prop} (env : SendEnv)
    (hround : ∀ s nextJob pending w idle, s.pendingJobs = nextJob :: pending →
      s.idleWorkers = w :: idle → P s →
      P (tryAssignJobToWorker env
        { s with
          pendingJobs := pending
          wipJobs := insert nextJob s.wipJobs
          idleWorkers := idle } w nextJob)) {s : Scheduler} (h : P s) :
    P (s.assignJobsToIdleWorkers env) :=
  assignPending_preserves hround s.pendingJobs s rfl h

/-- What stopping the last idle worker preserves, stopping all of them preserves. -/
theorem foldl_shutdownLastIdle_preserves {P : Scheduler → Prop}
    (hround : ∀ s idle w, s.idleWorkers = idle ++ [w] → P s → P (s.shutdownLastIdle w))
    (rev : List WorkerId) :
    ∀ s : Scheduler, s.idleWorkers = rev.reverse → P s →
      P (rev.foldl Scheduler.shutdownLastIdle s) := by
  induction rev with
  | nil =>
      intro s _ h
      exact h
  | cons w rev ih =>
      intro s hidle h
      rw [List.reverse_cons] at hidle
      refine ih _ ?_ (hround s rev.reverse w hidle h)
      show s.idleWorkers.dropLast = rev.reverse
      rw [hidle, List.dropLast_concat]

theorem shutdownIdleWorkers_preserves {P : Scheduler → Prop}
    (hround : ∀ s idle w, s.idleWorkers = idle ++ [w] → P s → P (s.shutdownLastIdle w))
    {s : Scheduler} (h : P s) : P s.shutdownIdleWorkers :=
  foldl_shutdownLastIdle_preserves hround s.idleWorkers.reverse s (List.reverse_reverse _).symm h

namespace Inv

variable {s : Scheduler}

/-- One round of the assignment loop, whether or not the send succeeds. -/
theorem tryAssign (h : s.Inv) (env : SendEnv) {nextJob : JobId} {pending : List JobId}
    (hpending : s.pendingJobs = nextJob :: pending) {w : WorkerId} {idle : List WorkerId}
    (hidle : s.idleWorkers = w :: idle) :
    (tryAssignJobToWorker env
      { s with
        pendingJobs := pending
        wipJobs := insert nextJob s.wipJobs
        idleWorkers := idle } w nextJob).Inv := by
  have hmem : nextJob ∈ s.pendingJobs := by simp [hpending]
  have hnot : nextJob ∉ pending := by
    have := h.nodup_pending
    rw [hpending, List.nodup_cons] at this
    exact this.1
  obtain ⟨t, ht, hnone, -⟩ := h.pending_unassigned nextJob hmem
  have hlater : ∀ j' t', s.allJobList j' = some t' → j'.subtaskId = 1 →
      JobId.newTask j'.taskId ≠ nextJob := by
    intro j' t' ht' hone heq
    obtain ⟨-, hpend, -⟩ := h.emit_after_sema j' t' ht' hone
    rw [heq] at hpend
    exact hpend hmem
  have hscheduled := h.scheduleJobOnWorker hidle ht hnone
    (by rw [hpending]; exact List.sublist_cons_self _ _) hnot hlater (env.now nextJob)
  have hw : s.statusOf w = some .Idle := (h.mem_idle w).mp (by simp [hidle])
  unfold tryAssignJobToWorker
  by_cases hok : env.sendOk nextJob
  · simpa only [hok, if_true] using hscheduled
  · simp only [hok]
    refine hscheduled.release ?_
    exact (jobOf_markWorkerBusy (s := { s with
      pendingJobs := pending
      wipJobs := insert nextJob s.wipJobs
      idleWorkers := idle }) hw nextJob (env.now nextJob) w).trans (if_pos rfl)

theorem assignJobsToIdleWorkers (h : s.Inv) (env : SendEnv) :
    (s.assignJobsToIdleWorkers env).Inv :=
  assignJobsToIdleWorkers_preserves env
    (fun _ _ _ _ _ hpending hidle h => h.tryAssign env hpending hidle) h

theorem shutdownIdleWorkers (h : s.Inv) : s.shutdownIdleWorkers.Inv :=
  shutdownIdleWorkers_preserves (fun _ _ _ hidle h => h.shutdownLastIdle hidle) h

end Inv

/-! ## Terminating the workers that took too long -/

/-- The worker is busy with a job that it started too long ago. -/
def TimedOut (s : Scheduler) (startedBefore : Instant) (w : WorkerId) : Prop :=
  ∃ info, s.workers[w]? = some info ∧ info.status = .Busy ∧ info.startTime < startedBefore

section TimedOut

variable {s : Scheduler} {startedBefore : Instant} {w : WorkerId}
  {terminateAndRespawn : Process → WorkerId → Process}

theorem timedOut_terminated {j : JobId} {handle : Process} {v : WorkerId}
    (h : (s.terminated w j handle).TimedOut startedBefore v) :
    v ≠ w ∧ s.TimedOut startedBefore v := by
  obtain ⟨info, hinfo, hbusy, hstart⟩ := h
  have hvw : v ≠ w := by
    intro heq
    rw [heq] at hinfo
    simp only [terminated, List.getElem?_set_self', Option.map_eq_map, Option.map_eq_some_iff]
      at hinfo
    obtain ⟨_, _, hidle⟩ := hinfo
    rw [← hidle] at hbusy
    cases hbusy
  refine ⟨hvw, info, ?_, hbusy, hstart⟩
  rw [← hinfo]
  exact (List.getElem?_set_ne (Ne.symm hvw)).symm

variable (startedBefore terminateAndRespawn) in
/-- One round of the loop terminates the worker exactly if it has timed out. -/
theorem terminateIfLongRunning_cases (h : s.Inv) (hw : w < s.workers.length) :
    (¬ s.TimedOut startedBefore w ∧
        terminateIfLongRunning startedBefore terminateAndRespawn s w = .ok s) ∨
      (s.TimedOut startedBefore w ∧ ∃ j handle, s.jobOf w = some j ∧
        terminateIfLongRunning startedBefore terminateAndRespawn s w =
          .ok (s.terminated w j handle)) := by
  have hinfo : s.workers[w]? = some s.workers[w] := List.getElem?_eq_getElem hw
  by_cases htimed : s.TimedOut startedBefore w
  · obtain ⟨info, hinfo', hbusy, hstart⟩ := htimed
    rw [hinfo, Option.some.injEq] at hinfo'
    subst hinfo'
    obtain ⟨j, hj⟩ := (h.busy_iff w).mp (by simp [statusOf, hinfo, hbusy])
    obtain ⟨handle, hterminate⟩ :=
      terminateRunningWorker_eq_ok hj (terminateAndRespawn · w)
    refine Or.inr ⟨⟨_, hinfo, hbusy, hstart⟩, j, handle, hj, ?_⟩
    rw [terminateIfLongRunning, hinfo]
    simp only [hbusy, hstart, if_true, hterminate]
  · refine Or.inl ⟨htimed, ?_⟩
    rw [terminateIfLongRunning, hinfo]
    cases hstatus : s.workers[w].status with
    | Idle => simp [hstatus]
    | Stopped => simp [hstatus]
    | Busy =>
        have hstart : ¬ s.workers[w].startTime < startedBefore :=
          fun hstart => htimed ⟨_, hinfo, hstatus, hstart⟩
        simp [hstatus, hstart]

variable (startedBefore terminateAndRespawn) in
theorem foldlM_terminateIfLongRunning {P : Scheduler → Prop} (hInv : ∀ s, P s → s.Inv)
    (hround : ∀ s w j handle, P s → s.TimedOut startedBefore w → s.jobOf w = some j →
      P (s.terminated w j handle)) (ws : List WorkerId) :
    ∀ s : Scheduler, P s → (∀ w ∈ ws, w < s.workers.length) →
      ∃ s', ws.foldlM (terminateIfLongRunning startedBefore terminateAndRespawn) s = .ok s' ∧
        P s' ∧ (∀ w ∈ ws, ¬ s'.TimedOut startedBefore w) ∧
        (∀ w, ¬ s.TimedOut startedBefore w → ¬ s'.TimedOut startedBefore w) := by
  induction ws with
  | nil =>
      intro s h _
      exact ⟨s, rfl, h, by simp, fun _ hw => hw⟩
  | cons w ws ih =>
      intro s h hlt
      have hlt' : ∀ v ∈ ws, v < s.workers.length := fun v hv => hlt v (by simp [hv])
      rw [List.foldlM_cons]
      rcases terminateIfLongRunning_cases startedBefore terminateAndRespawn
          (hInv s h) (hlt w (by simp)) with ⟨hnot, heq⟩ | ⟨htimed, j, handle, hj, heq⟩
      · obtain ⟨s', hs', hP, hgone, hmono⟩ := ih s h hlt'
        refine ⟨s', by rw [heq]; exact hs', hP, ?_, hmono⟩
        intro v hv
        rcases List.mem_cons.mp hv with rfl | hv
        · exact hmono v hnot
        · exact hgone v hv
      · obtain ⟨s', hs', hP, hgone, hmono⟩ :=
          ih (s.terminated w j handle) (hround s w j handle h htimed hj)
            (by simpa [terminated] using hlt')
        refine ⟨s', by rw [heq]; exact hs', hP, ?_, ?_⟩
        · intro v hv
          rcases List.mem_cons.mp hv with rfl | hv
          · exact hmono v fun htimed' => (timedOut_terminated htimed').1 rfl
          · exact hgone v hv
        · intro v hv
          exact hmono v fun htimed' => hv (timedOut_terminated htimed').2

variable (startedBefore terminateAndRespawn) in
/-- **The termination loop never fails**, it preserves what every single termination
preserves, and it leaves no worker behind that has timed out. -/
theorem terminateLongRunning_preserves {P : Scheduler → Prop} (hInv : ∀ s, P s → s.Inv)
    (hround : ∀ s w j handle, P s → s.TimedOut startedBefore w → s.jobOf w = some j →
      P (s.terminated w j handle)) (h : P s) :
    ∃ s', s.terminateLongRunningWorkersAndRespawn startedBefore terminateAndRespawn = .ok s' ∧
      P s' ∧ ∀ w, ¬ s'.TimedOut startedBefore w := by
  obtain ⟨s', hs', hP, hgone, hmono⟩ := foldlM_terminateIfLongRunning
    startedBefore terminateAndRespawn hInv hround (List.range s.workers.length) s h
    (by simp)
  refine ⟨s', hs', hP, ?_⟩
  intro w
  by_cases hw : w < s.workers.length
  · exact hgone w (List.mem_range.mpr hw)
  · refine hmono w ?_
    rintro ⟨info, hinfo, -⟩
    rw [List.getElem?_eq_none (Nat.le_of_not_lt hw)] at hinfo
    cases hinfo

/-- After the termination loop no job runs exactly if every busy worker had timed out. -/
theorem wipJobs_terminateLongRunning_eq_empty (h : s.Inv) {s' : Scheduler}
    (hok : s.terminateLongRunningWorkersAndRespawn startedBefore terminateAndRespawn = .ok s') :
    s'.wipJobs = ∅ ↔ ∀ (w : WorkerId) (info : WorkerInfo), s.workers[w]? = some info →
      info.status = .Busy → info.startTime < startedBefore := by
  -- a busy worker is either untouched by the loop or had timed out
  have hspec := terminateLongRunning_preserves startedBefore terminateAndRespawn
    (P := fun r => r.Inv ∧
      (∀ (v : WorkerId) (info : WorkerInfo), s.workers[v]? = some info → info.status = .Busy →
        ¬ info.startTime < startedBefore → r.workers[v]? = some info) ∧
      (∀ (v : WorkerId) (info : WorkerInfo), r.workers[v]? = some info → info.status = .Busy →
        s.workers[v]? = some info))
    (s := s)
    (fun _ h => h.1) ?_ ⟨h, fun _ _ hinfo _ _ => hinfo, fun _ _ hinfo _ => hinfo⟩
  · obtain ⟨s'', hs'', ⟨hinv, hold, hnew⟩, hgone⟩ := hspec
    rw [hs'', Except.ok.injEq] at hok
    subst hok
    have hbusy : s''.wipJobs = ∅ ↔ ∀ w, s''.statusOf w ≠ some .Busy := by
      rw [Finset.eq_empty_iff_forall_notMem]
      constructor
      · intro hnone w hw
        obtain ⟨j, hj⟩ := (hinv.busy_iff w).mp hw
        exact hnone j ((hinv.mem_wip j).mpr ⟨w, hj⟩)
      · intro hnone j hj
        obtain ⟨w, hw⟩ := (hinv.mem_wip j).mp hj
        exact hnone w (hinv.statusOf_of_jobOf hw)
    rw [hbusy]
    constructor
    · intro hnone w info hinfo hstatus
      by_contra hstart
      exact hnone w (by simp [statusOf, hold w info hinfo hstatus hstart, hstatus])
    · intro hall w hw
      simp only [statusOf, Option.map_eq_some_iff] at hw
      obtain ⟨info, hinfo, hstatus⟩ := hw
      exact hgone w ⟨info, hinfo, hstatus, hall w info (hnew w info hinfo hstatus) hstatus⟩
  · rintro r w j handle ⟨hr, hold, hnew⟩ ⟨info, hinfo, hstatus, hstart⟩ hw
    refine ⟨hr.terminate hw handle, ?_, ?_⟩
    · intro v info' hinfo' hstatus' hstart'
      have hvw : v ≠ w := by
        rintro rfl
        rw [hold v info' hinfo' hstatus' hstart', Option.some.injEq] at hinfo
        exact hstart' (hinfo ▸ hstart)
      exact (List.getElem?_set_ne (Ne.symm hvw)).trans (hold v info' hinfo' hstatus' hstart')
    · intro v info' hinfo' hstatus'
      by_cases hvw : v = w
      · subst hvw
        have hidle := statusOf_terminated (s := r) (w := v) (by simp [hinfo]) j handle v
        simp [statusOf, hinfo', hstatus'] at hidle
      · exact hnew v info' ((List.getElem?_set_ne (Ne.symm hvw)).symm.trans hinfo') hstatus'

end TimedOut

/-! ## The jobs in the table

Scheduling changes the assigned worker of a job, never the job itself. -/

/-- `allJobList[jobId].job`. -/
def trackedJob (s : Scheduler) (jobId : JobId) : Option IndexJob :=
  (s.allJobList jobId).map (·.job)

section TrackedJob

variable {s : Scheduler}

theorem trackedJob_eq_none {j : JobId} : s.trackedJob j = none ↔ s.allJobList j = none := by
  simp [trackedJob]

theorem trackedJob_eq_some {j : JobId} {job : IndexJob} :
    s.trackedJob j = some job ↔ ∃ t, s.allJobList j = some t ∧ t.job = job := by
  simp [trackedJob]

@[simp] theorem trackedJob_scheduleJobOnWorker (w : WorkerId) (j : JobId) (now : Instant) :
    (s.scheduleJobOnWorker w j now).1.trackedJob = s.trackedJob := by
  funext k
  by_cases hk : k = j
  · subst hk
    simp only [trackedJob, scheduleJobOnWorker, assignWorker, markWorkerBusy,
      Function.update_self, Option.map_map]
    rfl
  · simp [trackedJob, scheduleJobOnWorker, assignWorker, markWorkerBusy, hk]

theorem trackedJob_tryAssignJobToWorker (env : SendEnv) (w : WorkerId) (j : JobId) :
    (tryAssignJobToWorker env s w j).trackedJob = s.trackedJob := by
  unfold tryAssignJobToWorker
  split
  · exact trackedJob_scheduleJobOnWorker w j _
  · exact trackedJob_scheduleJobOnWorker w j _

@[simp] theorem trackedJob_assignJobsToIdleWorkers (env : SendEnv) :
    (s.assignJobsToIdleWorkers env).trackedJob = s.trackedJob := by
  refine assignJobsToIdleWorkers_preserves (P := fun s' => s'.trackedJob = s.trackedJob) env ?_ rfl
  intro s' nextJob pending w idle _ _ h
  rw [trackedJob_tryAssignJobToWorker]
  exact h

@[simp] theorem trackedJob_shutdownIdleWorkers :
    s.shutdownIdleWorkers.trackedJob = s.trackedJob :=
  shutdownIdleWorkers_preserves (P := fun s' => s'.trackedJob = s.trackedJob)
    (fun _ _ _ _ h => h) rfl

@[simp] theorem trackedJob_markCompleted (w : WorkerId) (j : JobId) :
    (s.markCompleted w j).1.trackedJob = s.trackedJob := by
  unfold markCompleted
  split <;> rfl

theorem trackedJob_queueSemaTask {cmdObject : CommandObject}
    (hfresh : s.allJobList (semaJobId cmdObject) = none) (j : JobId) :
    (s.queueSemaTask cmdObject).trackedJob j =
      if j = semaJobId cmdObject then some (semaJob cmdObject) else s.trackedJob j := by
  by_cases hj : j = semaJobId cmdObject
  · simp [trackedJob, queueSemaTask, emplaceJob, hfresh, hj]
  · simp [trackedJob, queueSemaTask, emplaceJob, hfresh, hj]

theorem trackedJob_createSubtask {w : WorkerId} {j : JobId} {job : IndexJob} {now : Instant}
    (hunknown : s.allJobList j.nextSubtask = none) (k : JobId) :
    (s.createSubtaskAndScheduleOnWorker w j job now).1.trackedJob k =
      if k = j.nextSubtask then some job else s.trackedJob k := by
  simp only [createSubtaskAndScheduleOnWorker, trackedJob_scheduleJobOnWorker]
  by_cases hk : k = j.nextSubtask
  · simp [trackedJob, emplaceJob, hunknown, hk]
  · simp [trackedJob, emplaceJob, hunknown, hk]

end TrackedJob

/-! ## Queueing the commands of one refill -/

/-- The commands have not been queued before, and none of them occurs twice. -/
def Fresh (s : Scheduler) (commands : List CommandObject) : Prop :=
  (∀ cmd ∈ commands, s.allJobList (semaJobId cmd) = none) ∧
    commands.Pairwise fun c d => semaJobId c ≠ semaJobId d

theorem fresh_queueSemaTask {s : Scheduler} {cmd : CommandObject} {commands : List CommandObject}
    (h : s.Fresh (cmd :: commands)) : (s.queueSemaTask cmd).Fresh commands := by
  obtain ⟨hnone, hpair⟩ := h
  rw [List.pairwise_cons] at hpair
  refine ⟨?_, hpair.2⟩
  intro c hc
  rw [← trackedJob_eq_none, trackedJob_queueSemaTask (hnone cmd (by simp)),
    if_neg (hpair.1 c hc).symm, trackedJob_eq_none]
  exact hnone c (by simp [hc])

/-- What queueing one fresh command preserves, queueing fresh commands preserves. -/
theorem foldl_queueSemaTask_preserves {P : Scheduler → List CommandObject → Prop}
    (hround : ∀ s cmd commands, P s commands → s.allJobList (semaJobId cmd) = none →
      P (s.queueSemaTask cmd) (commands ++ [cmd])) (commands : List CommandObject) :
    ∀ (s : Scheduler) (queued : List CommandObject), s.Fresh commands → P s queued →
      P (commands.foldl queueSemaTask s) (queued ++ commands) := by
  induction commands with
  | nil =>
      intro s queued _ h
      simpa using h
  | cons cmd commands ih =>
      intro s queued hfresh h
      have hnext := ih (s.queueSemaTask cmd) (queued ++ [cmd]) (fresh_queueSemaTask hfresh)
        (hround s cmd queued h (hfresh.1 cmd (by simp)))
      simpa using hnext

end Scheduler

end ScipClang
