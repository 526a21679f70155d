import ScipClang.Scheduler.Model

/-!
# The representation invariant of the scheduler

The comments on the fields of `Scheduler` promise that the six containers and the
per-worker fields describe one consistent assignment of jobs to workers; the only
executable trace of that promise is the counting check `checkInvariants`, which
release builds compile out.

`Scheduler.Inv` is the invariant behind the comments.  It speaks about the workers
only through `statusOf` and `jobOf`, and about a job through its entry in
`allJobList`: a pending job is unassigned, a running or errored job is assigned,
and an index is emitted for a task only after its semantic analysis has left all
three job sets.  The pairwise disjointness of the job sets and the injectivity of
`jobOf` follow from that.

Each operation has one lemma here that says that it keeps the invariant; the loops
over workers and jobs are in `ScipClang.Scheduler.Loops`.
-/

namespace ScipClang

namespace Scheduler

/-! ## What each primitive does to the workers

All three `mark...` functions modify the entry of one worker, so that each of the
two observations changes at most at that worker. -/

section Primitives

variable {s : Scheduler} {w : WorkerId} {st : WorkerStatus}

theorem map_getElem?_modify {α β : Type} (l : List α) {f : α → α} {g : α → β} {c : β}
    (hg : ∀ a, g (f a) = c) {i : ℕ} (hi : l[i]?.isSome) (k : ℕ) :
    (l.modify i f)[k]?.map g = if k = i then some c else l[k]?.map g := by
  obtain ⟨a, ha⟩ := Option.isSome_iff_exists.mp hi
  by_cases hk : k = i
  · subst hk
    simp [ha, hg]
  · simp [hk, Ne.symm hk, List.getElem?_modify_ne]

theorem bind_getElem?_modify {α β : Type} (l : List α) {f : α → α} {g : α → Option β}
    {c : Option β} (hg : ∀ a, g (f a) = c) {i : ℕ} (hi : l[i]?.isSome) (k : ℕ) :
    (l.modify i f)[k]?.bind g = if k = i then c else l[k]?.bind g := by
  obtain ⟨a, ha⟩ := Option.isSome_iff_exists.mp hi
  by_cases hk : k = i
  · subst hk
    simp [ha, hg]
  · simp [hk, Ne.symm hk, List.getElem?_modify_ne]

theorem isSome_of_statusOf (h : s.statusOf w = some st) : s.workers[w]?.isSome := by
  simp only [statusOf, Option.map_eq_some_iff] at h
  obtain ⟨info, hinfo, -⟩ := h
  simp [hinfo]

theorem statusOf_markWorkerIdle (h : s.statusOf w = some st) (v : WorkerId) :
    (s.markWorkerIdle w).statusOf v = if v = w then some .Idle else s.statusOf v := by
  simp only [statusOf, markWorkerIdle]
  refine map_getElem?_modify s.workers ?_ (isSome_of_statusOf h) v
  intro workerInfo
  rfl

theorem jobOf_markWorkerIdle (h : s.statusOf w = some st) (v : WorkerId) :
    (s.markWorkerIdle w).jobOf v = if v = w then none else s.jobOf v := by
  simp only [jobOf, markWorkerIdle]
  refine bind_getElem?_modify s.workers ?_ (isSome_of_statusOf h) v
  intro workerInfo
  rfl

theorem statusOf_markWorkerBusy (h : s.statusOf w = some st) (j : JobId) (now : Instant)
    (v : WorkerId) :
    (s.markWorkerBusy w j now).statusOf v = if v = w then some .Busy else s.statusOf v := by
  simp only [statusOf, markWorkerBusy]
  refine map_getElem?_modify s.workers ?_ (isSome_of_statusOf h) v
  intro workerInfo
  rfl

theorem jobOf_markWorkerBusy (h : s.statusOf w = some st) (j : JobId) (now : Instant)
    (v : WorkerId) :
    (s.markWorkerBusy w j now).jobOf v = if v = w then some j else s.jobOf v := by
  simp only [jobOf, markWorkerBusy]
  refine bind_getElem?_modify s.workers ?_ (isSome_of_statusOf h) v
  intro workerInfo
  rfl

theorem statusOf_markWorkerStopped (h : s.statusOf w = some st) (v : WorkerId) :
    (s.markWorkerStopped w).statusOf v = if v = w then some .Stopped else s.statusOf v := by
  simp only [statusOf, markWorkerStopped]
  refine map_getElem?_modify s.workers ?_ (isSome_of_statusOf h) v
  intro workerInfo
  rfl

theorem jobOf_markWorkerStopped (v : WorkerId) :
    (s.markWorkerStopped w).jobOf v = s.jobOf v := by
  by_cases hv : v = w
  · subst hv
    cases hinfo : s.workers[v]? <;> simp [jobOf, markWorkerStopped, hinfo]
  · simp [jobOf, markWorkerStopped, Ne.symm hv, List.getElem?_modify_ne]

theorem exists_info_of_jobOf {j : JobId} (h : s.jobOf w = some j) :
    ∃ info, s.workers[w]? = some info ∧ info.currentlyProcessing = some j := by
  simpa [jobOf, Option.bind_eq_some_iff] using h

/-- The state after terminating a worker that runs a job: the job may have failed and
the respawned worker is idle. -/
def terminated (s : Scheduler) (w : WorkerId) (j : JobId) (handle : Process) : Scheduler :=
  { s with
    wipJobs := s.wipJobs.erase j
    maybeErroredJobs := insert j s.maybeErroredJobs
    workers := s.workers.set w (.ofProcess handle)
    idleWorkers := s.idleWorkers ++ [w] }

theorem statusOf_terminated (h : s.workers[w]?.isSome) (j : JobId) (handle : Process)
    (v : WorkerId) :
    (s.terminated w j handle).statusOf v = if v = w then some .Idle else s.statusOf v := by
  by_cases hv : v = w
  · subst hv
    have hlt : v < s.workers.length := by simpa using h
    simp [statusOf, terminated, hlt, WorkerInfo.ofProcess]
  · simp [statusOf, terminated, hv, List.getElem?_set_ne (Ne.symm hv)]

theorem jobOf_terminated (h : s.workers[w]?.isSome) (j : JobId) (handle : Process)
    (v : WorkerId) :
    (s.terminated w j handle).jobOf v = if v = w then none else s.jobOf v := by
  by_cases hv : v = w
  · subst hv
    have hlt : v < s.workers.length := by simpa using h
    simp [jobOf, terminated, hlt, WorkerInfo.ofProcess]
  · simp [jobOf, terminated, hv, List.getElem?_set_ne (Ne.symm hv)]

/-- `terminateRunningWorker` succeeds on a worker that has a current job. -/
theorem terminateRunningWorker_eq_ok {j : JobId} (h : s.jobOf w = some j)
    (terminateAndRespawn : Process → Process) :
    ∃ handle, s.terminateRunningWorker w terminateAndRespawn = .ok (s.terminated w j handle) := by
  obtain ⟨info, hinfo, hjob⟩ := exists_info_of_jobOf h
  exact ⟨terminateAndRespawn info.processHandle,
    by simp [terminateRunningWorker, terminated, hinfo, hjob]⟩

end Primitives

/-! ## The invariant -/

/-- The representation invariant. -/
structure Inv (s : Scheduler) : Prop where
  nodup_idle : s.idleWorkers.Nodup
  nodup_stopped : s.stoppedWorkers.Nodup
  mem_idle : ∀ w, w ∈ s.idleWorkers ↔ s.statusOf w = some .Idle
  mem_stopped : ∀ w, w ∈ s.stoppedWorkers ↔ s.statusOf w = some .Stopped
  /-- `currentlyProcessing` is set exactly for busy workers. -/
  busy_iff : ∀ w, s.statusOf w = some .Busy ↔ ∃ j, s.jobOf w = some j
  mem_wip : ∀ j, j ∈ s.wipJobs ↔ ∃ w, s.jobOf w = some j
  nodup_pending : s.pendingJobs.Nodup
  wip_errored : Disjoint s.wipJobs s.maybeErroredJobs
  /-- Semantic analysis is subtask 0, emitting the index subtask 1. -/
  shape : ∀ j t, s.allJobList j = some t →
    (t.job.kind = .SemanticAnalysis ∧ j.subtaskId = 0) ∨
      (t.job.kind = .EmitIndex ∧ j.subtaskId = 1)
  pending_unassigned : ∀ j ∈ s.pendingJobs, ∃ t, s.allJobList j = some t ∧
    t.assignedWorker = none ∧ t.job.kind = .SemanticAnalysis
  running_assigned : ∀ w j, s.jobOf w = some j → ∃ t, s.allJobList j = some t ∧
    t.assignedWorker = some w
  errored_assigned : ∀ j ∈ s.maybeErroredJobs, ∃ t w, s.allJobList j = some t ∧
    t.assignedWorker = some w
  /-- An index is emitted only after the semantic analysis of the task has left
  the job sets for good. -/
  emit_after_sema : ∀ j t, s.allJobList j = some t → j.subtaskId = 1 →
    (∃ t', s.allJobList (.newTask j.taskId) = some t') ∧
      JobId.newTask j.taskId ∉ s.pendingJobs ∧ JobId.newTask j.taskId ∉ s.wipJobs ∧
      JobId.newTask j.taskId ∉ s.maybeErroredJobs

namespace Inv

variable {s : Scheduler}

/-- No two workers process the same job. -/
theorem jobOf_inj (h : s.Inv) {w w' : WorkerId} {j : JobId} (hw : s.jobOf w = some j)
    (hw' : s.jobOf w' = some j) : w = w' := by
  obtain ⟨t, ht, hassigned⟩ := h.running_assigned w j hw
  obtain ⟨t', ht', hassigned'⟩ := h.running_assigned w' j hw'
  rw [ht, Option.some.injEq] at ht'
  subst ht'
  rw [hassigned, Option.some.injEq] at hassigned'
  exact hassigned'

/-- A job without an assigned worker neither runs nor has failed. -/
theorem notMem_of_unassigned (h : s.Inv) {j : JobId} {t : TrackedIndexJob}
    (ht : s.allJobList j = some t) (hnone : t.assignedWorker = none) :
    j ∉ s.wipJobs ∧ j ∉ s.maybeErroredJobs := by
  constructor
  · intro hmem
    obtain ⟨w, hw⟩ := (h.mem_wip j).mp hmem
    obtain ⟨t', ht', hassigned⟩ := h.running_assigned w j hw
    rw [ht, Option.some.injEq] at ht'
    subst ht'
    rw [hnone] at hassigned
    cases hassigned
  · intro hmem
    obtain ⟨t', w, ht', hassigned⟩ := h.errored_assigned j hmem
    rw [ht, Option.some.injEq] at ht'
    subst ht'
    rw [hnone] at hassigned
    cases hassigned

/-- A running or failed job is assigned, hence not pending. -/
theorem notMem_pending_of_assigned (h : s.Inv) {j : JobId} {t : TrackedIndexJob} {w : WorkerId}
    (ht : s.allJobList j = some t) (hsome : t.assignedWorker = some w) :
    j ∉ s.pendingJobs := by
  intro hmem
  obtain ⟨t', ht', hnone, -⟩ := h.pending_unassigned j hmem
  rw [ht, Option.some.injEq] at ht'
  subst ht'
  rw [hsome] at hnone
  cases hnone

theorem statusOf_of_jobOf (h : s.Inv) {w : WorkerId} {j : JobId} (hw : s.jobOf w = some j) :
    s.statusOf w = some .Busy :=
  (h.busy_iff w).mpr ⟨j, hw⟩

/-- If one worker gives up its job, the others still process the remaining ones. -/
theorem erase_iff (h : s.Inv) {w : WorkerId} {j : JobId} (hw : s.jobOf w = some j)
    {f : WorkerId → Option JobId} (hf : ∀ v, f v = if v = w then none else s.jobOf v)
    (k : JobId) : (k ≠ j ∧ ∃ v, s.jobOf v = some k) ↔ ∃ v, f v = some k := by
  constructor
  · rintro ⟨hne, v, hv⟩
    have hvw : v ≠ w := by
      rintro rfl
      rw [hw, Option.some.injEq] at hv
      exact hne hv.symm
    exact ⟨v, by rw [hf, if_neg hvw, hv]⟩
  · rintro ⟨v, hv⟩
    rw [hf] at hv
    by_cases hvw : v = w
    · simp [hvw] at hv
    · rw [if_neg hvw] at hv
      refine ⟨?_, v, hv⟩
      rintro rfl
      exact hvw (h.jobOf_inj hv hw)

/-- If an idle worker takes a job, the others still process theirs. -/
theorem insert_iff (h : s.Inv) {w : WorkerId} (hw : s.statusOf w = some .Idle) {j : JobId}
    {f : WorkerId → Option JobId} (hf : ∀ v, f v = if v = w then some j else s.jobOf v)
    (k : JobId) : (k = j ∨ ∃ v, s.jobOf v = some k) ↔ ∃ v, f v = some k := by
  constructor
  · rintro (rfl | ⟨v, hv⟩)
    · exact ⟨w, by rw [hf, if_pos rfl]⟩
    · have hvw : v ≠ w := by
        rintro rfl
        have hbusy := h.statusOf_of_jobOf hv
        rw [hw] at hbusy
        cases hbusy
      exact ⟨v, by rw [hf, if_neg hvw, hv]⟩
  · rintro ⟨v, hv⟩
    rw [hf] at hv
    by_cases hvw : v = w
    · rw [if_pos hvw, Option.some.injEq] at hv
      exact .inl hv.symm
    · rw [if_neg hvw] at hv
      exact .inr ⟨v, hv⟩

/-- The idle workers other than one of them. -/
theorem otherIdle (h : s.Inv) {w : WorkerId} {idle : List WorkerId}
    (hperm : s.idleWorkers.Perm (w :: idle)) :
    s.statusOf w = some .Idle ∧ idle.Nodup ∧
      ∀ v, v ∈ idle ↔ v ≠ w ∧ s.statusOf v = some .Idle := by
  obtain ⟨hnotMem, hnodup⟩ := List.nodup_cons.mp (hperm.nodup_iff.mp h.nodup_idle)
  refine ⟨(h.mem_idle w).mp (hperm.mem_iff.mpr List.mem_cons_self), hnodup, fun v => ?_⟩
  rw [← h.mem_idle, hperm.mem_iff, List.mem_cons]
  constructor
  · intro hmem
    refine ⟨?_, .inr hmem⟩
    rintro rfl
    exact hnotMem hmem
  · rintro ⟨hvw, hmem⟩
    exact hmem.resolve_left hvw

/-- A semantic analysis job whose follow-up job exists is in none of the job sets. -/
theorem nextSubtask_unknown (h : s.Inv) {j : JobId} (hsub : j.subtaskId = 0)
    (hmem : j ∈ s.pendingJobs ∨ j ∈ s.wipJobs ∨ j ∈ s.maybeErroredJobs) :
    s.allJobList j.nextSubtask = none := by
  cases hnext : s.allJobList j.nextSubtask with
  | none => rfl
  | some t =>
      have hone : j.nextSubtask.subtaskId = 1 := JobId.nextSubtask_subtaskId_of_zero hsub
      have hself : JobId.newTask j.nextSubtask.taskId = j := JobId.newTask_nextSubtask_taskId hsub
      obtain ⟨-, hpend, hwip, herr⟩ := h.emit_after_sema _ t hnext hone
      rw [hself] at hpend hwip herr
      tauto

/-! ## The operations keep the invariant -/

theorem initializeWorkers (numWorkers : Nat) (spawn : WorkerId → Process) :
    (Scheduler.initializeWorkers {} numWorkers spawn).Inv := by
  have hworkers : ∀ w, (Scheduler.initializeWorkers {} numWorkers spawn).workers[w]? =
      if w < numWorkers then some (.ofProcess (spawn w)) else none := by
    intro w
    by_cases hw : w < numWorkers <;> simp [Scheduler.initializeWorkers, hw]
  have hstatus : ∀ w, (Scheduler.initializeWorkers {} numWorkers spawn).statusOf w =
      if w < numWorkers then some .Idle else none := by
    intro w
    rw [statusOf, hworkers]
    split <;> rfl
  have hjob : ∀ w, (Scheduler.initializeWorkers {} numWorkers spawn).jobOf w = none := by
    intro w
    rw [jobOf, hworkers]
    split <;> rfl
  constructor
  case nodup_idle => simpa [Scheduler.initializeWorkers] using List.nodup_range
  case nodup_stopped => simp [Scheduler.initializeWorkers]
  case mem_idle =>
    intro w
    rw [hstatus]
    simp [Scheduler.initializeWorkers]
  case mem_stopped =>
    intro w
    rw [hstatus]
    simp only [Scheduler.initializeWorkers, List.not_mem_nil, false_iff]
    split <;> simp
  case busy_iff =>
    intro w
    rw [hstatus, hjob]
    split <;> simp
  case mem_wip =>
    intro j
    simp only [hjob]
    simp [Scheduler.initializeWorkers]
  case nodup_pending => simp [Scheduler.initializeWorkers]
  case wip_errored => simp [Scheduler.initializeWorkers]
  case shape => simp [Scheduler.initializeWorkers]
  case pending_unassigned => simp [Scheduler.initializeWorkers]
  case running_assigned =>
    intro w j hw
    rw [hjob] at hw
    cases hw
  case errored_assigned => simp [Scheduler.initializeWorkers]
  case emit_after_sema => simp [Scheduler.initializeWorkers]

/-- A new entry leaves the other entries of the table as they are. -/
theorem update_of_known {j k : JobId} {t : TrackedIndexJob} (hfresh : s.allJobList j = none)
    (hk : s.allJobList k = some t) (entry : Option TrackedIndexJob) :
    Function.update s.allJobList j entry k = some t := by
  have hne : k ≠ j := by
    rintro rfl
    rw [hfresh] at hk
    cases hk
  rw [Function.update_of_ne hne, hk]

/-- A job queued for the first time is only added to the pending jobs. -/
theorem queueSemaTask (h : s.Inv) {cmdObject : CommandObject}
    (hfresh : s.allJobList (semaJobId cmdObject) = none) :
    (s.queueSemaTask cmdObject).Inv := by
  have heq : s.queueSemaTask cmdObject = { s with
      allJobList := Function.update s.allJobList (semaJobId cmdObject)
        (some ⟨semaJob cmdObject, none⟩)
      pendingJobs := s.pendingJobs ++ [semaJobId cmdObject] } := by
    simp [Scheduler.queueSemaTask, emplaceJob, hfresh]
  have hknown : ∀ j t, s.allJobList j = some t → j ≠ semaJobId cmdObject := by
    intro j t ht hj
    rw [hj, hfresh] at ht
    cases ht
  have hpending : semaJobId cmdObject ∉ s.pendingJobs := by
    intro hmem
    obtain ⟨t, ht, -⟩ := h.pending_unassigned _ hmem
    exact hknown _ t ht rfl
  rw [heq]
  constructor
  case nodup_idle => exact h.nodup_idle
  case nodup_stopped => exact h.nodup_stopped
  case mem_idle => exact h.mem_idle
  case mem_stopped => exact h.mem_stopped
  case busy_iff => exact h.busy_iff
  case mem_wip => exact h.mem_wip
  case nodup_pending =>
    refine List.nodup_append.mpr ⟨h.nodup_pending, List.nodup_singleton _, ?_⟩
    intro j hj k hk hjk
    rw [List.mem_singleton] at hk
    subst hjk hk
    exact hpending hj
  case wip_errored => exact h.wip_errored
  case shape =>
    intro j t ht
    by_cases hj : j = semaJobId cmdObject
    · subst hj
      simp only [Function.update_self, Option.some.injEq] at ht
      subst ht
      exact Or.inl ⟨rfl, rfl⟩
    · simp only [Function.update_of_ne hj] at ht
      exact h.shape j t ht
  case pending_unassigned =>
    intro j hj
    rcases List.mem_append.mp hj with hj | hj
    · obtain ⟨t, ht, hrest⟩ := h.pending_unassigned j hj
      exact ⟨t, update_of_known hfresh ht _, hrest⟩
    · rw [List.mem_singleton] at hj
      subst hj
      exact ⟨⟨semaJob cmdObject, none⟩, by simp only [Function.update_self], rfl, rfl⟩
  case running_assigned =>
    intro w j hw
    obtain ⟨t, ht, hrest⟩ := h.running_assigned w j hw
    exact ⟨t, update_of_known hfresh ht _, hrest⟩
  case errored_assigned =>
    intro j hj
    obtain ⟨t, w, ht, hrest⟩ := h.errored_assigned j hj
    exact ⟨t, w, update_of_known hfresh ht _, hrest⟩
  case emit_after_sema =>
    intro j t ht hsub
    have hj : j ≠ semaJobId cmdObject := by
      intro hj
      rw [hj] at hsub
      exact absurd hsub (by simp [semaJobId])
    simp only [Function.update_of_ne hj] at ht
    obtain ⟨⟨t', ht'⟩, hpend, hwip, herr⟩ := h.emit_after_sema j t ht hsub
    refine ⟨⟨t', update_of_known hfresh ht' _⟩, ?_, hwip, herr⟩
    rw [List.mem_append, List.mem_singleton]
    rintro (hmem | hmem)
    · exact hpend hmem
    · exact hknown _ t' ht' hmem

/-- Scheduling an unassigned job on the first idle worker.  Both callers are
instances: the assignment loop takes the job off the pending jobs, the follow-up
job of a semantic analysis was never pending. -/
theorem scheduleJobOnWorker (h : s.Inv) {w : WorkerId} {idle : List WorkerId}
    (hidle : s.idleWorkers = w :: idle) {j : JobId} {t : TrackedIndexJob}
    (hj : s.allJobList j = some t) (hnone : t.assignedWorker = none) {pending : List JobId}
    (hsub : pending.Sublist s.pendingJobs) (hnot : j ∉ pending)
    (hlater : ∀ j' t', s.allJobList j' = some t' → j'.subtaskId = 1 →
      JobId.newTask j'.taskId ≠ j) (now : Instant) :
    (({ s with
        pendingJobs := pending
        wipJobs := insert j s.wipJobs
        idleWorkers := idle } : Scheduler).scheduleJobOnWorker w j now).1.Inv := by
  obtain ⟨hw, hnodup, hother⟩ := h.otherIdle (List.Perm.of_eq hidle)
  obtain ⟨hwip, herr⟩ := h.notMem_of_unassigned hj hnone
  set s₁ : Scheduler := { s with
    pendingJobs := pending, wipJobs := insert j s.wipJobs, idleWorkers := idle } with hs₁
  have hw₁ : s₁.statusOf w = some .Idle := hw
  set s' := (s₁.scheduleJobOnWorker w j now).1 with hs'
  have hstatus : ∀ v, s'.statusOf v = if v = w then some .Busy else s.statusOf v :=
    fun v => statusOf_markWorkerBusy hw₁ j now v
  have hjob : ∀ v, s'.jobOf v = if v = w then some j else s.jobOf v :=
    fun v => jobOf_markWorkerBusy hw₁ j now v
  have hassigned : s'.allJobList j = some { t with assignedWorker := some w } := by
    simp [hs', Scheduler.scheduleJobOnWorker, assignWorker, markWorkerBusy, hs₁, hj]
  have hkeep : ∀ k, k ≠ j → s'.allJobList k = s.allJobList k := by
    intro k hk
    simp [hs', Scheduler.scheduleJobOnWorker, assignWorker, markWorkerBusy, hs₁, hk]
  -- the jobs that are tracked stay the same, whether they are the scheduled one or not
  have hknown : ∀ k, (s'.allJobList k).map TrackedIndexJob.job =
      (s.allJobList k).map TrackedIndexJob.job := by
    intro k
    by_cases hk : k = j
    · rw [hk, hassigned, hj]
      rfl
    · rw [hkeep k hk]
  have hold : ∀ k u, s'.allJobList k = some u →
      ∃ u', s.allJobList k = some u' ∧ u'.job = u.job := by
    intro k u hu
    exact Option.map_eq_some_iff.mp (by rw [← hknown, hu, Option.map_some])
  constructor
  case nodup_idle => exact hnodup
  case nodup_stopped => exact h.nodup_stopped
  case mem_idle =>
    intro v
    show v ∈ idle ↔ _
    rw [hother, hstatus]
    by_cases hv : v = w <;> simp [hv]
  case mem_stopped =>
    intro v
    show v ∈ s.stoppedWorkers ↔ _
    rw [h.mem_stopped, hstatus]
    by_cases hv : v = w <;> simp [hv, hw]
  case busy_iff =>
    intro v
    rw [hstatus, hjob]
    by_cases hv : v = w
    · simp [hv]
    · simpa [hv] using h.busy_iff v
  case mem_wip =>
    intro k
    show k ∈ insert j s.wipJobs ↔ _
    rw [Finset.mem_insert, h.mem_wip]
    exact h.insert_iff hw hjob k
  case nodup_pending => exact hsub.nodup h.nodup_pending
  case wip_errored =>
    show Disjoint (insert j s.wipJobs) s.maybeErroredJobs
    rw [Finset.disjoint_insert_left]
    exact ⟨herr, h.wip_errored⟩
  case shape =>
    intro k u hu
    obtain ⟨u', hu', heq⟩ := hold k u hu
    rw [← heq]
    exact h.shape k u' hu'
  case pending_unassigned =>
    intro k hk
    have hkj : k ≠ j := by
      rintro rfl
      exact hnot hk
    rw [hkeep k hkj]
    exact h.pending_unassigned k (hsub.subset hk)
  case running_assigned =>
    intro v k hv
    rw [hjob] at hv
    by_cases hvw : v = w
    -- the assigned worker is recorded in the table at the moment the worker becomes busy
    · rw [if_pos hvw, Option.some.injEq] at hv
      subst hv
      exact ⟨_, hassigned, by rw [hvw]⟩
    · rw [if_neg hvw] at hv
      have hkj : k ≠ j := by
        rintro rfl
        exact hwip ((h.mem_wip k).mpr ⟨v, hv⟩)
      rw [hkeep k hkj]
      exact h.running_assigned v k hv
  case errored_assigned =>
    intro k hk
    have hkj : k ≠ j := by
      rintro rfl
      exact herr hk
    rw [hkeep k hkj]
    exact h.errored_assigned k hk
  case emit_after_sema =>
    intro k u hu hone
    obtain ⟨u', hu', -⟩ := hold k u hu
    obtain ⟨⟨t', ht'⟩, hpend, hwip', herr'⟩ := h.emit_after_sema k u' hu' hone
    obtain ⟨t'', ht'', -⟩ : ∃ t'', s'.allJobList (.newTask k.taskId) = some t'' ∧
        t''.job = t'.job :=
      Option.map_eq_some_iff.mp (by rw [hknown, ht', Option.map_some])
    refine ⟨⟨t'', ht''⟩, fun hmem => hpend (hsub.subset hmem), ?_, herr'⟩
    show JobId.newTask k.taskId ∉ insert j s.wipJobs
    rw [Finset.mem_insert]
    rintro (heq | hmem)
    · exact hlater k u' hu' hone heq
    · exact hwip' hmem

/-- A worker that gives up its job becomes idle, and the job leaves the running jobs; it may
be among the failed ones afterwards.  This is what happens to a worker that is released and to
one that is terminated. -/
theorem giveUp (h : s.Inv) {w : WorkerId} {j : JobId} (hw : s.jobOf w = some j) {s' : Scheduler}
    (hstatus : ∀ v, s'.statusOf v = if v = w then some .Idle else s.statusOf v)
    (hjob : ∀ v, s'.jobOf v = if v = w then none else s.jobOf v)
    (hidle : s'.idleWorkers.Perm (w :: s.idleWorkers))
    (hstopped : s'.stoppedWorkers = s.stoppedWorkers)
    (hpending : s'.pendingJobs = s.pendingJobs) (htable : s'.allJobList = s.allJobList)
    (hwip : s'.wipJobs = s.wipJobs.erase j)
    (herrored : s'.maybeErroredJobs ⊆ insert j s.maybeErroredJobs) : s'.Inv := by
  have hbusy := h.statusOf_of_jobOf hw
  have hrunning : j ∈ s.wipJobs := (h.mem_wip j).mpr ⟨w, hw⟩
  constructor
  case nodup_idle =>
    refine hidle.nodup_iff.mpr (List.nodup_cons.mpr ⟨fun hmem => ?_, h.nodup_idle⟩)
    rw [h.mem_idle, hbusy] at hmem
    cases hmem
  case nodup_stopped => rw [hstopped]; exact h.nodup_stopped
  case mem_idle =>
    intro v
    rw [hidle.mem_iff, List.mem_cons, h.mem_idle, hstatus]
    by_cases hv : v = w <;> simp [hv]
  case mem_stopped =>
    intro v
    rw [hstopped, h.mem_stopped, hstatus]
    by_cases hv : v = w <;> simp [hv, hbusy]
  case busy_iff =>
    intro v
    rw [hstatus, hjob]
    by_cases hv : v = w
    · simp [hv]
    · simpa [hv] using h.busy_iff v
  case mem_wip =>
    intro k
    rw [hwip, Finset.mem_erase, h.mem_wip]
    exact h.erase_iff hw hjob k
  case nodup_pending => rw [hpending]; exact h.nodup_pending
  case wip_errored =>
    rw [hwip]
    refine Finset.disjoint_of_subset_right herrored (Finset.disjoint_insert_right.mpr ?_)
    exact ⟨Finset.notMem_erase j s.wipJobs,
      Finset.disjoint_of_subset_left (Finset.erase_subset j s.wipJobs) h.wip_errored⟩
  case shape => rw [htable]; exact h.shape
  case pending_unassigned => rw [hpending, htable]; exact h.pending_unassigned
  case running_assigned =>
    intro v k hv
    rw [hjob] at hv
    by_cases hvw : v = w
    · simp [hvw] at hv
    · rw [if_neg hvw] at hv
      rw [htable]
      exact h.running_assigned v k hv
  case errored_assigned =>
    intro k hk
    rw [htable]
    rcases Finset.mem_insert.mp (herrored hk) with rfl | hk
    · obtain ⟨t, ht, hassigned⟩ := h.running_assigned w k hw
      exact ⟨t, w, ht, hassigned⟩
    · exact h.errored_assigned k hk
  case emit_after_sema =>
    intro k u hu hone
    rw [htable] at hu ⊢
    obtain ⟨hknown, hpend, hnotWip, herr⟩ := h.emit_after_sema k u hu hone
    rw [hpending, hwip]
    refine ⟨hknown, hpend, fun hmem => hnotWip (Finset.mem_of_mem_erase hmem), fun hmem => ?_⟩
    rcases Finset.mem_insert.mp (herrored hmem) with heq | hmem
    · rw [heq] at hnotWip
      exact hnotWip hrunning
    · exact herr hmem

/-- A worker that stops processing its job becomes idle and the job leaves the
running jobs.  This is what a response of a live worker does, and what undoing a
failed send does. -/
theorem release (h : s.Inv) {w : WorkerId} {j : JobId} (hw : s.jobOf w = some j) :
    ({ s.markWorkerIdle w with
        wipJobs := (s.markWorkerIdle w).wipJobs.erase j } : Scheduler).Inv := by
  have hbusy := h.statusOf_of_jobOf hw
  exact h.giveUp hw (statusOf_markWorkerIdle hbusy) (jobOf_markWorkerIdle hbusy)
    (List.Perm.refl _) rfl rfl rfl rfl (Finset.subset_insert j s.maybeErroredJobs)

/-- A terminated worker is respawned idle, and its job may have failed. -/
theorem terminate (h : s.Inv) {w : WorkerId} {j : JobId} (hw : s.jobOf w = some j)
    (handle : Process) : (s.terminated w j handle).Inv := by
  have hworker := isSome_of_statusOf (h.statusOf_of_jobOf hw)
  exact h.giveUp hw (statusOf_terminated hworker j handle) (jobOf_terminated hworker j handle)
    (List.perm_append_singleton w s.idleWorkers) rfl rfl rfl rfl (Finset.Subset.refl _)

/-- Mail from the dead: the job is no longer taken to have failed. -/
theorem late (h : s.Inv) (j : JobId) :
    ({ s with maybeErroredJobs := s.maybeErroredJobs.erase j } : Scheduler).Inv := by
  refine { h with wip_errored := ?_, errored_assigned := ?_, emit_after_sema := ?_ }
  · exact Finset.disjoint_of_subset_right (Finset.erase_subset j _) h.wip_errored
  · intro k hk
    exact h.errored_assigned k (Finset.mem_of_mem_erase hk)
  · intro k u hu hone
    obtain ⟨hknown, hpend, hwip, herr⟩ := h.emit_after_sema k u hu hone
    exact ⟨hknown, hpend, hwip, fun hmem => herr (Finset.mem_of_mem_erase hmem)⟩

/-- A response of a live worker releases it, a late one only clears the suspicion. -/
theorem markCompleted (h : s.Inv) (w : WorkerId) (j : JobId) : (s.markCompleted w j).1.Inv := by
  unfold Scheduler.markCompleted
  by_cases hw : s.jobOf w = some j
  · rw [if_pos hw]
    exact h.release hw
  · rw [if_neg hw]
    exact h.late j

/-- The last idle worker is stopped. -/
theorem shutdownLastIdle (h : s.Inv) {idle : List WorkerId} {w : WorkerId}
    (hidle : s.idleWorkers = idle ++ [w]) : (s.shutdownLastIdle w).Inv := by
  obtain ⟨hw, hnodup, hother⟩ :=
    h.otherIdle (hidle ▸ List.perm_append_singleton w idle : s.idleWorkers.Perm (w :: idle))
  have hidle' : (s.shutdownLastIdle w).idleWorkers = idle := by
    show s.idleWorkers.dropLast = idle
    rw [hidle, List.dropLast_concat]
  have hstatus : ∀ v, (s.shutdownLastIdle w).statusOf v =
      if v = w then some .Stopped else s.statusOf v :=
    fun v => statusOf_markWorkerStopped (s := { s with idleWorkers := s.idleWorkers.dropLast }) hw v
  have hjob : ∀ v, (s.shutdownLastIdle w).jobOf v = s.jobOf v :=
    fun v => jobOf_markWorkerStopped (s := { s with idleWorkers := s.idleWorkers.dropLast }) v
  constructor
  case nodup_idle =>
    rw [hidle']
    exact hnodup
  case nodup_stopped =>
    show (s.stoppedWorkers ++ [w]).Nodup
    refine List.nodup_append.mpr ⟨h.nodup_stopped, List.nodup_singleton _, ?_⟩
    intro v hv v' hv' hvv'
    rw [List.mem_singleton] at hv'
    subst hvv' hv'
    rw [h.mem_stopped, hw] at hv
    cases hv
  case mem_idle =>
    intro v
    rw [hidle', hother, hstatus]
    by_cases hv : v = w <;> simp [hv]
  case mem_stopped =>
    intro v
    show v ∈ s.stoppedWorkers ++ [w] ↔ _
    rw [hstatus, List.mem_append, List.mem_singleton]
    by_cases hv : v = w
    · simp [hv]
    · simpa [hv] using h.mem_stopped v
  case busy_iff =>
    intro v
    simp only [hjob]
    rw [← h.busy_iff, hstatus]
    by_cases hv : v = w
    · simp [hv, hw]
    · simp [hv]
  case mem_wip =>
    intro k
    simp only [hjob]
    exact h.mem_wip k
  case nodup_pending => exact h.nodup_pending
  case wip_errored => exact h.wip_errored
  case shape => exact h.shape
  case pending_unassigned => exact h.pending_unassigned
  case running_assigned =>
    intro v k hv
    rw [hjob] at hv
    exact h.running_assigned v k hv
  case errored_assigned => exact h.errored_assigned
  case emit_after_sema => exact h.emit_after_sema

/-- The state after creating the follow-up job of a semantic analysis that has left
the job sets. -/
theorem emplaceEmit (h : s.Inv) {j : JobId} {t : TrackedIndexJob} (hj : s.allJobList j = some t)
    (hsub : j.subtaskId = 0) (hunknown : s.allJobList j.nextSubtask = none)
    (hpend : j ∉ s.pendingJobs) (hwip : j ∉ s.wipJobs) (herr : j ∉ s.maybeErroredJobs)
    {job : IndexJob} (hkind : job.kind = .EmitIndex) :
    ({ s with allJobList := Function.update s.allJobList j.nextSubtask (some ⟨job, none⟩) } :
      Scheduler).Inv := by
  have hone : j.nextSubtask.subtaskId = 1 := JobId.nextSubtask_subtaskId_of_zero hsub
  have hself : JobId.newTask j.nextSubtask.taskId = j := JobId.newTask_nextSubtask_taskId hsub
  refine { h with
    shape := ?_, pending_unassigned := ?_, running_assigned := ?_, errored_assigned := ?_,
    emit_after_sema := ?_ }
  · intro k u hu
    by_cases hk : k = j.nextSubtask
    · subst hk
      simp only [Function.update_self, Option.some.injEq] at hu
      subst hu
      exact Or.inr ⟨hkind, hone⟩
    · simp only [Function.update_of_ne hk] at hu
      exact h.shape k u hu
  · intro k hk
    obtain ⟨u, hu, hrest⟩ := h.pending_unassigned k hk
    exact ⟨u, update_of_known hunknown hu _, hrest⟩
  · intro v k hv
    obtain ⟨u, hu, hrest⟩ := h.running_assigned v k hv
    exact ⟨u, update_of_known hunknown hu _, hrest⟩
  · intro k hk
    obtain ⟨u, v, hu, hrest⟩ := h.errored_assigned k hk
    exact ⟨u, v, update_of_known hunknown hu _, hrest⟩
  · intro k u hu hk1
    by_cases hk : k = j.nextSubtask
    · subst hk
      rw [hself]
      exact ⟨⟨t, update_of_known hunknown hj _⟩, hpend, hwip, herr⟩
    · simp only [Function.update_of_ne hk] at hu
      obtain ⟨⟨t', ht'⟩, hrest⟩ := h.emit_after_sema k u hu hk1
      exact ⟨⟨t', update_of_known hunknown ht' _⟩, hrest⟩

/-- Creating the follow-up job of a semantic analysis and scheduling it on the
worker that has just become idle. -/
theorem createSubtask (h : s.Inv) {w : WorkerId} {idle : List WorkerId}
    (hidle : s.idleWorkers = w :: idle) {j : JobId} {t : TrackedIndexJob}
    (hj : s.allJobList j = some t) (hsub : j.subtaskId = 0)
    (hunknown : s.allJobList j.nextSubtask = none) (hpend : j ∉ s.pendingJobs)
    (hwip : j ∉ s.wipJobs) (herr : j ∉ s.maybeErroredJobs) {job : IndexJob}
    (hkind : job.kind = .EmitIndex) (now : Instant) :
    (s.createSubtaskAndScheduleOnWorker w j job now).1.Inv := by
  have hemplaced := h.emplaceEmit hj hsub hunknown hpend hwip herr hkind
  have hpending : j.nextSubtask ∉ s.pendingJobs := by
    intro hmem
    obtain ⟨u, hu, -⟩ := h.pending_unassigned _ hmem
    rw [hunknown] at hu
    cases hu
  have hscheduled := hemplaced.scheduleJobOnWorker hidle
    (j := j.nextSubtask) (t := ⟨job, none⟩) (by simp) rfl (List.Sublist.refl _) hpending
    (fun j' _ _ _ => (JobId.nextSubtask_ne_newTask_of_zero hsub j'.taskId).symm) now
  simpa [Scheduler.createSubtaskAndScheduleOnWorker, emplaceJob, hunknown, hidle] using hscheduled

end Inv

end Scheduler

end ScipClang
