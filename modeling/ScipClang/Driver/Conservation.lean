import ScipClang.Driver.Loop

/-!
# Conservation of translation units

Every queued task goes through two jobs, and a worker may be terminated between any
two steps.  This module keeps books: at any time a job that has been created is
pending, running, suspected to have failed, or answered, and the four groups add up
to the tasks that were queued.

The one leak is mail from the dead.  `markCompleted` takes the job of a late response
out of `maybeErroredJobs`, because the worker did complete it, but the driver returns
before it looks at the result.  The task is then neither indexed nor suspected to have
failed.

## Main results

* `Ledger`: the books, kept by every step of the loop (`Ledger.step`).
* `conserved_iff`: when the loop exits, translation units are conserved exactly if no
  response was late.
-/

namespace ScipClang

/-! ## Moving jobs between the job sets -/

namespace Scheduler

/-- The job is pending, running or suspected to have failed. -/
def Open (s : Scheduler) (j : JobId) : Prop :=
  j ∈ s.pendingJobs ∨ j ∈ s.wipJobs ∨ j ∈ s.maybeErroredJobs

/-- The number of open jobs. -/
def numOpen (s : Scheduler) : Nat :=
  s.pendingJobs.length + s.wipJobs.card + s.maybeErroredJobs.card

/-- The job was assigned to the worker. -/
def Assigned (s : Scheduler) (j : JobId) (w : WorkerId) (kind : IndexJobKind) : Prop :=
  ∃ t, s.allJobList j = some t ∧ t.assignedWorker = some w ∧ t.job.kind = kind

section Assigned

variable {s : Scheduler} {j : JobId} {w : WorkerId} {kind : IndexJobKind}

theorem Assigned.ne_of_unknown (h : s.Assigned j w kind) {k : JobId}
    (hk : s.allJobList k = none) : j ≠ k := by
  obtain ⟨t, ht, -⟩ := h
  rintro rfl
  rw [hk] at ht
  cases ht

theorem Assigned.queueSemaTask (h : s.Assigned j w kind) {cmd : CommandObject}
    (hfresh : s.allJobList (semaJobId cmd) = none) : (s.queueSemaTask cmd).Assigned j w kind := by
  have hj := h.ne_of_unknown hfresh
  obtain ⟨t, ht, hrest⟩ := h
  refine ⟨t, ?_, hrest⟩
  simp [Scheduler.queueSemaTask, emplaceJob, hfresh, hj, ht]

theorem Assigned.analysed (h : s.Assigned j w kind) {v : WorkerId} {k : JobId}
    (hunknown : s.allJobList k.nextSubtask = none) {job : IndexJob} {now : Instant} :
    (s.analysed v k job now).Assigned j w kind := by
  have hj := h.ne_of_unknown hunknown
  obtain ⟨t, ht, hrest⟩ := h
  refine ⟨t, ?_, hrest⟩
  rw [allJobList_analysed hunknown, Function.update_of_ne hj, ht]

end Assigned

/-- From one state to the other, jobs have at most moved between the job sets. -/
structure Moves (s s' : Scheduler) : Prop where
  trackedJob : s'.trackedJob = s.trackedJob
  assigned : ∀ j w kind, s.Assigned j w kind → s'.Assigned j w kind
  open_iff : ∀ j, s'.Open j ↔ s.Open j
  numOpen : s'.numOpen = s.numOpen

namespace Moves

variable {s s' s'' : Scheduler}

theorem refl (s : Scheduler) : Moves s s :=
  ⟨rfl, fun _ _ _ h => h, fun _ => Iff.rfl, rfl⟩

theorem trans (h : Moves s s') (h' : Moves s' s'') : Moves s s'' where
  trackedJob := h'.trackedJob.trans h.trackedJob
  assigned j w kind hj := h'.assigned j w kind (h.assigned j w kind hj)
  open_iff j := (h'.open_iff j).trans (h.open_iff j)
  numOpen := h'.numOpen.trans h.numOpen

/-- A pending job is assigned and becomes a running one. -/
theorem tryAssign (h : s.Inv) (env : SendEnv) (hsend : ∀ j, env.sendOk j = true)
    {nextJob : JobId} {pending : List JobId} (hpending : s.pendingJobs = nextJob :: pending)
    (w : WorkerId) (idle : List WorkerId) :
    Moves s (tryAssignJobToWorker env
      { s with
        pendingJobs := pending
        wipJobs := insert nextJob s.wipJobs
        idleWorkers := idle } w nextJob) := by
  obtain ⟨t, ht, hnone, -⟩ := h.pending_unassigned nextJob (by simp [hpending])
  have hwip := (h.notMem_of_unassigned ht hnone).1
  simp only [tryAssignJobToWorker, hsend, if_true]
  refine ⟨trackedJob_scheduleJobOnWorker _ _ _, ?_, ?_, ?_⟩
  · rintro j v kind ⟨u, hu, hassigned, hkind⟩
    have hj : j ≠ nextJob := by
      rintro rfl
      rw [ht, Option.some.injEq] at hu
      rw [← hu, hnone] at hassigned
      cases hassigned
    exact ⟨u, (Function.update_of_ne hj _ _).trans hu, hassigned, hkind⟩
  · intro j
    show (j ∈ pending ∨ j ∈ insert nextJob s.wipJobs ∨ j ∈ s.maybeErroredJobs) ↔ s.Open j
    rw [Open, hpending, Finset.mem_insert, List.mem_cons]
    tauto
  · show pending.length + (insert nextJob s.wipJobs).card + s.maybeErroredJobs.card = s.numOpen
    rw [Scheduler.numOpen, hpending, Finset.card_insert_of_notMem hwip, List.length_cons]
    omega

theorem assignJobsToIdleWorkers (h : s.Inv) {env : SendEnv} (hsend : ∀ j, env.sendOk j = true) :
    Moves s (s.assignJobsToIdleWorkers env) := by
  have hspec := assignJobsToIdleWorkers_preserves (P := fun r => r.Inv ∧ Moves s r) env
    ?_ ⟨h, refl s⟩
  · exact hspec.2
  · rintro r nextJob pending w idle hpending hidle ⟨hr, hmoves⟩
    exact ⟨hr.tryAssign env hpending hidle, hmoves.trans (tryAssign hr env hsend hpending w idle)⟩

theorem shutdownIdleWorkers : Moves s s.shutdownIdleWorkers :=
  shutdownIdleWorkers_preserves (P := fun r => Moves s r)
    (fun _ _ _ _ h => ⟨h.trackedJob, h.assigned, h.open_iff, h.numOpen⟩) (refl s)

/-- A running job becomes one that is suspected to have failed. -/
theorem terminated (h : s.Inv) {w : WorkerId} {j : JobId} (hw : s.jobOf w = some j)
    (handle : Process) : Moves s (s.terminated w j handle) := by
  have hwip : j ∈ s.wipJobs := (h.mem_wip j).mpr ⟨w, hw⟩
  have herr : j ∉ s.maybeErroredJobs := Finset.disjoint_left.mp h.wip_errored hwip
  refine ⟨rfl, fun _ _ _ h => h, ?_, ?_⟩
  · intro k
    show (k ∈ s.pendingJobs ∨ k ∈ s.wipJobs.erase j ∨ k ∈ insert j s.maybeErroredJobs) ↔ s.Open k
    rw [Open, Finset.mem_insert, Finset.mem_erase]
    by_cases hk : k = j
    · subst hk
      simp [hwip]
    · simp [hk]
  · show s.pendingJobs.length + (s.wipJobs.erase j).card + (insert j s.maybeErroredJobs).card =
      s.numOpen
    have hcard := Finset.card_erase_add_one hwip
    rw [Scheduler.numOpen, Finset.card_insert_of_notMem herr]
    omega

theorem terminateLongRunning (h : s.Inv) {startedBefore : Instant}
    {terminateAndRespawn : Process → WorkerId → Process}
    (hok : s.terminateLongRunningWorkersAndRespawn startedBefore terminateAndRespawn = .ok s') :
    Moves s s' := by
  obtain ⟨s'', hs'', ⟨-, hmoves⟩, -⟩ := terminateLongRunning_preserves
    (P := fun r => r.Inv ∧ Moves s r) startedBefore terminateAndRespawn (fun _ h => h.1)
    (fun _ _ _ handle h _ hw => ⟨h.1.terminate hw handle, h.2.trans (terminated h.1 hw handle)⟩)
    ⟨h, refl s⟩
  rw [hs'', Except.ok.injEq] at hok
  rw [← hok]
  exact hmoves

end Moves

end Scheduler

/-! ## The books -/

/-- The responses whose worker had been terminated before. -/
def numLate (handled : List Handled) : Nat := handled.countP (·.late)

/-- The growth of `indexedSoFar`. -/
def numCounted (handled : List Handled) : Nat := (handled.map (·.counted)).sum

/-- The books of the scheduler: which jobs are open and which have been answered. -/
structure Ledger (s : Scheduler) (handled : List Handled) (numQueued : Nat) : Prop where
  /-- Only assigned jobs are answered, and with a result of their kind. -/
  answered : ∀ h ∈ handled,
    s.Assigned h.response.jobId h.response.workerId h.response.result.kind
  once : (handled.map (·.response.jobId)).Nodup
  closed : ∀ h ∈ handled, ¬ s.Open h.response.jobId
  open_or_answered : ∀ j job, s.trackedJob j = some job →
    s.Open j ∨ ∃ h ∈ handled, h.response.jobId = j
  /-- The index of a task is emitted exactly after its analysis was answered in time. -/
  followUp : ∀ j, j.subtaskId = 0 → (s.trackedJob j.nextSubtask ≠ none ↔
    ∃ h ∈ handled, h.response.jobId = j ∧ h.late = false)
  balance : numCounted handled + numLate handled + s.numOpen = numQueued

namespace Ledger

variable {s s' : Scheduler} {handled : List Handled} {n : Nat}

theorem moves (h : Ledger s handled n) (hmoves : s.Moves s') : Ledger s' handled n where
  answered e he := hmoves.assigned _ _ _ (h.answered e he)
  once := h.once
  closed e he hopen := h.closed e he ((hmoves.open_iff _).mp hopen)
  open_or_answered j job hjob := by
    rw [hmoves.trackedJob] at hjob
    rcases h.open_or_answered j job hjob with hopen | hanswered
    · exact Or.inl ((hmoves.open_iff j).mpr hopen)
    · exact Or.inr hanswered
  followUp j hsub := by
    rw [hmoves.trackedJob]
    exact h.followUp j hsub
  balance := by
    rw [hmoves.numOpen]
    exact h.balance

theorem init (numWorkers : Nat) (spawn : WorkerId → Process) :
    Ledger (Scheduler.initializeWorkers {} numWorkers spawn) [] 0 := by
  constructor <;>
    simp [Scheduler.initializeWorkers, Scheduler.trackedJob, Scheduler.numOpen, numCounted, numLate]

/-- A queued command is pending. -/
theorem queueSemaTask (h : Ledger s handled n) {cmd : CommandObject}
    (hfresh : s.allJobList (Scheduler.semaJobId cmd) = none) :
    Ledger (s.queueSemaTask cmd) handled (n + 1) := by
  have hpending : (s.queueSemaTask cmd).pendingJobs =
      s.pendingJobs ++ [Scheduler.semaJobId cmd] := by
    simp [Scheduler.queueSemaTask, Scheduler.emplaceJob, hfresh]
  have hwip : (s.queueSemaTask cmd).wipJobs = s.wipJobs := by
    simp [Scheduler.queueSemaTask, Scheduler.emplaceJob, hfresh]
  have herr : (s.queueSemaTask cmd).maybeErroredJobs = s.maybeErroredJobs := by
    simp [Scheduler.queueSemaTask, Scheduler.emplaceJob, hfresh]
  have hopen : ∀ j, (s.queueSemaTask cmd).Open j ↔ s.Open j ∨ j = Scheduler.semaJobId cmd := by
    intro j
    simp only [Scheduler.Open, hpending, hwip, herr, List.mem_append, List.mem_singleton]
    tauto
  constructor
  case answered =>
    intro e he
    exact (h.answered e he).queueSemaTask hfresh
  case once => exact h.once
  case closed =>
    intro e he
    rw [hopen, not_or]
    exact ⟨h.closed e he, (h.answered e he).ne_of_unknown hfresh⟩
  case open_or_answered =>
    intro j job hjob
    rw [Scheduler.trackedJob_queueSemaTask hfresh] at hjob
    by_cases hj : j = Scheduler.semaJobId cmd
    · exact Or.inl ((hopen j).mpr (Or.inr hj))
    · rw [if_neg hj] at hjob
      rcases h.open_or_answered j job hjob with hj' | hj'
      · exact Or.inl ((hopen j).mpr (Or.inl hj'))
      · exact Or.inr hj'
  case followUp =>
    intro j hsub
    have hne : j.nextSubtask ≠ Scheduler.semaJobId cmd :=
      JobId.nextSubtask_ne_newTask_of_zero hsub _
    rw [Scheduler.trackedJob_queueSemaTask hfresh, if_neg hne]
    exact h.followUp j hsub
  case balance =>
    have hbalance := h.balance
    rw [Scheduler.numOpen] at hbalance ⊢
    rw [hpending, hwip, herr, List.length_append, List.length_singleton]
    omega

section Respond

variable {e : Handled}

theorem once_append (h : Ledger s handled n)
    (hnew : ∀ h ∈ handled, h.response.jobId ≠ e.response.jobId) :
    ((handled ++ [e]).map (·.response.jobId)).Nodup := by
  rw [List.map_append, List.nodup_append]
  refine ⟨h.once, by simp, ?_⟩
  intro j hj k hk hjk
  obtain ⟨h', hh', rfl⟩ := List.mem_map.mp hj
  simp only [List.map_cons, List.map_nil, List.mem_singleton] at hk
  exact hnew h' hh' (hjk.trans hk)

theorem numCounted_append : numCounted (handled ++ [e]) = numCounted handled + e.counted := by
  simp [numCounted]

theorem numLate_append :
    numLate (handled ++ [e]) = numLate handled + if e.late then 1 else 0 := by
  simp [numLate, List.countP_singleton]

/-- A response that closes its job and opens new ones. -/
theorem answer (h : Ledger s handled n) (opened : JobId → Prop)
    (hassigned : s.Assigned e.response.jobId e.response.workerId e.response.result.kind)
    (hnew : ∀ h ∈ handled, h.response.jobId ≠ e.response.jobId)
    (hkeep : ∀ j w kind, s.Assigned j w kind → s'.Assigned j w kind)
    (hunknown : ∀ j, opened j → s.allJobList j = none)
    (htracked : ∀ j, ¬ opened j → s'.trackedJob j = s.trackedJob j)
    (hopen : ∀ j, s'.Open j ↔ (s.Open j ∧ j ≠ e.response.jobId) ∨ opened j)
    (hfollow : ∀ j, j.subtaskId = 0 → (s'.trackedJob j.nextSubtask ≠ none ↔
      s.trackedJob j.nextSubtask ≠ none ∨ e.response.jobId = j ∧ e.late = false))
    (hnum : e.counted + (if e.late then 1 else 0) + s'.numOpen = s.numOpen) :
    Ledger s' (handled ++ [e]) n := by
  have hanswered : ∀ h' ∈ handled ++ [e],
      s.Assigned h'.response.jobId h'.response.workerId h'.response.result.kind := by
    intro h' hh'
    rcases List.mem_append.mp hh' with hh' | hh'
    · exact h.answered h' hh'
    · rw [List.mem_singleton] at hh'
      rw [hh']
      exact hassigned
  constructor
  case answered =>
    intro h' hh'
    exact hkeep _ _ _ (hanswered h' hh')
  case once => exact h.once_append hnew
  case closed =>
    intro h' hh' hopen'
    rcases (hopen _).mp hopen' with ⟨hopen', hne⟩ | hopened
    · rcases List.mem_append.mp hh' with hh' | hh'
      · exact h.closed h' hh' hopen'
      · rw [List.mem_singleton] at hh'
        exact hne (by rw [hh'])
    · exact (hanswered h' hh').ne_of_unknown (hunknown _ hopened) rfl
  case open_or_answered =>
    intro j job hjob
    by_cases hopened : opened j
    · exact Or.inl ((hopen j).mpr (Or.inr hopened))
    · rw [htracked j hopened] at hjob
      by_cases hj : j = e.response.jobId
      · exact Or.inr ⟨e, by simp, hj.symm⟩
      · rcases h.open_or_answered j job hjob with hopen' | ⟨h', hh', hj'⟩
        · exact Or.inl ((hopen j).mpr (Or.inl ⟨hopen', hj⟩))
        · exact Or.inr ⟨h', by simp [hh'], hj'⟩
  case followUp =>
    intro j hsub
    simp only [hfollow j hsub, h.followUp j hsub, List.mem_append, List.mem_singleton,
      or_and_right, exists_or, exists_eq_left]
  case balance =>
    have hbalance := h.balance
    rw [numCounted_append, numLate_append]
    omega

/-- A response that closes its job without opening another one. -/
theorem close (h : Ledger s handled n)
    (hassigned : s.Assigned e.response.jobId e.response.workerId e.response.result.kind)
    (hnew : ∀ h ∈ handled, h.response.jobId ≠ e.response.jobId)
    (htracked : s'.trackedJob = s.trackedJob)
    (hkeep : ∀ j w kind, s.Assigned j w kind → s'.Assigned j w kind)
    (hopen : ∀ j, s'.Open j ↔ s.Open j ∧ j ≠ e.response.jobId)
    (hfollow : e.response.jobId.subtaskId = 0 → e.late = true)
    (hnum : s'.numOpen + 1 = s.numOpen)
    (hcount : e.counted + (if e.late then 1 else 0) = 1) : Ledger s' (handled ++ [e]) n := by
  refine h.answer (fun _ => False) hassigned hnew hkeep (fun _ => False.elim)
    (fun j _ => by rw [htracked]) (fun j => by rw [hopen, or_false]) ?_ (by omega)
  intro j hsub
  rw [htracked, or_iff_left]
  rintro ⟨rfl, hlate⟩
  rw [hfollow hsub] at hlate
  cases hlate

/-- The job of a late response is suspected to have failed. -/
theorem errored_of_late (h : Ledger s handled n) (hinv : s.Inv)
    (hassigned : s.Assigned e.response.jobId e.response.workerId e.response.result.kind)
    (hnew : ∀ h ∈ handled, h.response.jobId ≠ e.response.jobId)
    (hlate : s.jobOf e.response.workerId ≠ some e.response.jobId) :
    e.response.jobId ∈ s.maybeErroredJobs := by
  obtain ⟨t, ht, hworker, -⟩ := hassigned
  rcases h.open_or_answered _ t.job (Scheduler.trackedJob_eq_some.mpr ⟨t, ht, rfl⟩) with
    (hpending | hwip | herr) | ⟨h', hh', hj'⟩
  · exact absurd hpending (hinv.notMem_pending_of_assigned ht hworker)
  · obtain ⟨w, hw⟩ := (hinv.mem_wip _).mp hwip
    obtain ⟨t', ht', hworker'⟩ := hinv.running_assigned w _ hw
    rw [ht, Option.some.injEq] at ht'
    subst ht'
    rw [hworker, Option.some.injEq] at hworker'
    rw [← hworker'] at hw
    exact absurd hw hlate
  · exact herr
  · exact absurd hj' (hnew h' hh')

/-- Mail from the dead. -/
theorem late (h : Ledger s handled n) (hinv : s.Inv)
    (hassigned : s.Assigned e.response.jobId e.response.workerId e.response.result.kind)
    (hnew : ∀ h ∈ handled, h.response.jobId ≠ e.response.jobId)
    (hdead : s.jobOf e.response.workerId ≠ some e.response.jobId)
    (hlate : e.late = true) (hcounted : e.counted = 0) :
    Ledger { s with maybeErroredJobs := s.maybeErroredJobs.erase e.response.jobId }
      (handled ++ [e]) n := by
  have herr := h.errored_of_late hinv hassigned hnew hdead
  have hpending : e.response.jobId ∉ s.pendingJobs := by
    obtain ⟨t, ht, hworker, -⟩ := hassigned
    exact hinv.notMem_pending_of_assigned ht hworker
  have hwip : e.response.jobId ∉ s.wipJobs := Finset.disjoint_right.mp hinv.wip_errored herr
  refine h.close hassigned hnew rfl (fun _ _ _ h => h) ?_ (fun _ => hlate) ?_ ?_
  · intro j
    simp only [Scheduler.Open, Finset.mem_erase]
    by_cases hj : j = e.response.jobId
    · subst hj
      simp [hpending, hwip]
    · simp [hj]
  · have hcard := Finset.card_erase_add_one herr
    simp only [Scheduler.numOpen]
    omega
  · rw [hcounted, hlate]
    rfl

/-- The result of emitting an index, from a live worker. -/
theorem emitted (h : Ledger s handled n) (hinv : s.Inv)
    (hassigned : s.Assigned e.response.jobId e.response.workerId .EmitIndex)
    (hkind : e.response.result.kind = .EmitIndex)
    (hnew : ∀ h ∈ handled, h.response.jobId ≠ e.response.jobId)
    (hlive : s.jobOf e.response.workerId = some e.response.jobId)
    (hlate : e.late = false) (hcounted : e.counted = 1) :
    Ledger (s.markCompleted e.response.workerId e.response.jobId).1 (handled ++ [e]) n := by
  have hwip : e.response.jobId ∈ s.wipJobs := (hinv.mem_wip _).mpr ⟨_, hlive⟩
  have herr := Finset.disjoint_left.mp hinv.wip_errored hwip
  obtain ⟨t, ht, hworker, hemit⟩ := hassigned
  have hpending := hinv.notMem_pending_of_assigned ht hworker
  refine h.close (by rw [hkind]; exact ⟨t, ht, hworker, hemit⟩) hnew
    (Scheduler.trackedJob_markCompleted _ _) ?_ ?_ ?_ ?_ ?_
  · intro j w kind hj
    rw [Scheduler.Assigned, Scheduler.allJobList_markCompleted]
    exact hj
  · intro j
    simp only [Scheduler.markCompleted, hlive, if_true, Scheduler.markWorkerIdle, Scheduler.Open,
      Finset.mem_erase]
    by_cases hj : j = e.response.jobId
    · subst hj
      simp [hpending, herr]
    · simp [hj]
  · intro hsub
    rcases hinv.shape _ t ht with ⟨hsema, -⟩ | ⟨-, hone⟩
    · rw [hemit] at hsema
      cases hsema
    · exact absurd hone (JobId.subtaskId_ne_one_of_zero hsub)
  · have hcard := Finset.card_erase_add_one hwip
    simp only [Scheduler.markCompleted, hlive, if_true, Scheduler.markWorkerIdle,
      Scheduler.numOpen]
    omega
  · rw [hcounted, hlate]
    rfl

/-- The result of a semantic analysis, from a live worker: the job that emits the index
takes the place of the analysis. -/
theorem analysed (h : Ledger s handled n) (hinv : s.Inv)
    (hassigned : s.Assigned e.response.jobId e.response.workerId .SemanticAnalysis)
    (hkind : e.response.result.kind = .SemanticAnalysis)
    (hnew : ∀ h ∈ handled, h.response.jobId ≠ e.response.jobId)
    (hlive : s.jobOf e.response.workerId = some e.response.jobId)
    (hlate : e.late = false) (hcounted : e.counted = 0) {job : IndexJob} {now : Instant} :
    Ledger (s.analysed e.response.workerId e.response.jobId job now) (handled ++ [e]) n := by
  obtain ⟨t, ht, hworker, hsema⟩ := hassigned
  have hunknown := Scheduler.nextSubtask_unknown_of_running hinv hlive ht hsema
  have hsub := Scheduler.subtaskId_of_sema hinv ht hsema
  have hself : e.response.jobId ≠ e.response.jobId.nextSubtask := by
    intro heq
    rw [← heq, ht] at hunknown
    cases hunknown
  have hwip : e.response.jobId ∈ s.wipJobs := (hinv.mem_wip _).mpr ⟨_, hlive⟩
  have herr := Finset.disjoint_left.mp hinv.wip_errored hwip
  have hpending := hinv.notMem_pending_of_assigned ht hworker
  have hnotOpen : ¬ s.Open e.response.jobId.nextSubtask := by
    intro hopen
    have hsome := (hinv.consistent).known _ hopen
    rw [hunknown] at hsome
    cases hsome
  obtain ⟨hwip', hpending', herr'⟩ := Scheduler.jobs_analysed job now hlive hunknown
  have hopen : ∀ j, (s.analysed e.response.workerId e.response.jobId job now).Open j ↔
      (s.Open j ∧ j ≠ e.response.jobId) ∨ j = e.response.jobId.nextSubtask := by
    intro j
    simp only [Scheduler.Open, hwip', hpending', herr', Finset.mem_insert, Finset.mem_erase]
    by_cases hj : j = e.response.jobId
    · subst hj
      simp [hpending, herr, hself]
    · simp only [hj, ne_eq, not_false_eq_true, true_and, and_true]
      tauto
  refine h.answer (· = e.response.jobId.nextSubtask)
    (by rw [hkind]; exact ⟨t, ht, hworker, hsema⟩) hnew (fun _ _ _ hj => hj.analysed hunknown)
    (fun j hj => by rw [hj, hunknown]) (fun j hj => ?_) hopen (fun j _ => ?_) ?_
  · rw [Scheduler.trackedJob_analysed hunknown, if_neg hj]
  · -- the analysis that was answered in time is the only one that gets a new follow-up
    rw [Scheduler.trackedJob_analysed hunknown]
    by_cases hj : j = e.response.jobId
    · subst hj
      simp [hlate]
    · have hnext : j.nextSubtask ≠ e.response.jobId.nextSubtask :=
        fun heq => hj (JobId.nextSubtask_injective heq)
      rw [if_neg hnext, or_iff_left fun heq => hj heq.1.symm]
  · -- the answered job leaves the running jobs and its follow-up takes its place
    have hcard := Finset.card_erase_add_one hwip
    have hnext : e.response.jobId.nextSubtask ∉ s.wipJobs.erase e.response.jobId :=
      fun hmem => hnotOpen (Or.inr (Or.inl (Finset.mem_of_mem_erase hmem)))
    rw [Scheduler.numOpen, Scheduler.numOpen, hcounted, hlate, hwip', hpending', herr',
      Finset.card_insert_of_notMem hnext]
    simp only [Bool.false_eq_true, if_false]
    omega

end Respond

end Ledger

/-- The books of the driver: the ledger of its scheduler, and what the log says about the
results. -/
structure Books (st : LoopState) : Prop where
  ledger : Ledger st.driver.scheduler st.handled st.queued.length
  shardPaths : st.driver.shardPaths = st.handled.flatMap (·.appended)
  indexedSoFar : st.driver.indexedSoFar = numCounted st.handled
  /-- Exactly the results of emitting an index that are not late are recorded. -/
  appended : ∀ h ∈ st.handled, h.appended =
    if h.late = false ∧ h.response.result.kind = .EmitIndex then
      [h.response.result.emitIndex.shardPaths] else []
  counted : ∀ h ∈ st.handled, h.counted = h.appended.length

namespace Books

variable {env : DriverEnv} {all : List CommandObject} {st : LoopState}

theorem of_moves (h : Books st) {st' : LoopState}
    (hmoves : st.driver.scheduler.Moves st'.driver.scheduler)
    (hqueued : st'.queued = st.queued) (hhandled : st'.handled = st.handled)
    (hpaths : st'.driver.shardPaths = st.driver.shardPaths)
    (hindexed : st'.driver.indexedSoFar = st.driver.indexedSoFar) : Books st' := by
  refine ⟨?_, ?_, ?_, ?_, ?_⟩
  · rw [hhandled, hqueued]
    exact h.ledger.moves hmoves
  · rw [hpaths, hhandled]
    exact h.shardPaths
  · rw [hindexed, hhandled]
    exact h.indexedSoFar
  · rw [hhandled]
    exact h.appended
  · rw [hhandled]
    exact h.counted

theorem refill (h : Books st) (hloop : LoopInv env all st) (hall : DistinctJobs all) :
    Books (st.refill env) := by
  refine ⟨?_, h.shardPaths, h.indexedSoFar, h.appended, h.counted⟩
  exact Scheduler.foldl_queueSemaTask_preserves
    (P := fun s queued => Ledger s st.handled queued.length)
    (fun s cmd queued hledger hnew => by simpa using hledger.queueSemaTask hnew)
    (st.driver.refillJobs env).2 st.driver.scheduler st.queued (hloop.fresh_refill hall) h.ledger

theorem loopTop (h : Books st) (hloop : LoopInv env all st) (hall : DistinctJobs all)
    (hsend : ∀ j, env.send.sendOk j = true) : Books (st.loopTop env) := by
  unfold LoopState.loopTop
  split
  · exact h.of_moves Scheduler.Moves.shutdownIdleWorkers rfl rfl rfl rfl
  · have hrefilled : ∃ st', st' = (if st.driver.scheduler.pendingJobs = [] ∧ st.refillCount ≠ 0
        then st.refill env else st) ∧ Books st' ∧ LoopInv env all st' := by
      refine ⟨_, rfl, ?_⟩
      split
      · exact ⟨h.refill hloop hall, hloop.refill hall⟩
      · exact ⟨h, hloop⟩
    obtain ⟨st', heq, hbooks, hloop'⟩ := hrefilled
    rw [← heq]
    refine hbooks.of_moves ?_ rfl rfl rfl rfl
    show st'.driver.scheduler.Moves (LoopState.assignOrShutdown env st'.driver.scheduler)
    unfold LoopState.assignOrShutdown
    split
    · exact Scheduler.Moves.refl _
    · split
      · exact Scheduler.Moves.shutdownIdleWorkers
      · exact Scheduler.Moves.assignJobsToIdleWorkers hloop'.inv hsend

/-- The books after a response, from the ledger and the new log entry. -/
theorem append (h : Books st) {driver : Driver} {e : Handled}
    (hledger : Ledger driver.scheduler (st.handled ++ [e]) st.queued.length)
    (hpaths : driver.shardPaths = st.driver.shardPaths ++ e.appended)
    (hindexed : driver.indexedSoFar = st.driver.indexedSoFar + e.counted)
    (happended : e.appended =
      if e.late = false ∧ e.response.result.kind = .EmitIndex then
        [e.response.result.emitIndex.shardPaths] else [])
    (hcounted : e.counted = e.appended.length) :
    Books { st with driver, handled := st.handled ++ [e] } := by
  refine ⟨hledger, ?_, ?_, ?_, ?_⟩
  · show driver.shardPaths = _
    rw [hpaths, h.shardPaths]
    simp
  · show driver.indexedSoFar = _
    rw [hindexed, h.indexedSoFar, Ledger.numCounted_append]
  · intro h' hh'
    rcases List.mem_append.mp hh' with hh' | hh'
    · exact h.appended h' hh'
    · rw [List.mem_singleton] at hh'
      rw [hh']
      exact happended
  · intro h' hh'
    rcases List.mem_append.mp hh' with hh' | hh'
    · exact h.counted h' hh'
    · rw [List.mem_singleton] at hh'
      rw [hh']
      exact hcounted

theorem respond (h : Books st) (hloop : LoopInv env all st)
    (hsend : ∀ j, env.send.sendOk j = true) {response : IndexJobResponse}
    (hexpects : st.Expects response) {driver : Driver}
    (hok : st.driver.processWorkerResponse env response = .ok driver) :
    Books { st with
      driver
      handled := st.handled ++ [LoopState.logEntry st.driver driver response] } := by
  obtain ⟨⟨t, ht, hworker, hkind⟩, hnew⟩ := hexpects
  rcases Driver.processWorkerResponse_cases hsend hok with
    ⟨hdead, rfl⟩ | ⟨hlive, hsema, planner, files, now, rfl⟩ | ⟨hlive, hemit, statistics, rfl⟩
  · refine h.append ?_ ?_ ?_ ?_ ?_
    · refine h.ledger.late (e := LoopState.logEntry st.driver _ response) hloop.inv
        ⟨t, ht, hworker, hkind⟩ hnew hdead ?_ ?_
      · simp [LoopState.logEntry, hdead]
      · simp [LoopState.logEntry]
    · simp [LoopState.logEntry]
    · simp [LoopState.logEntry]
    · simp [LoopState.logEntry, hdead]
    · simp [LoopState.logEntry]
  · refine h.append ?_ ?_ ?_ ?_ ?_
    · refine h.ledger.analysed (e := LoopState.logEntry st.driver _ response) hloop.inv
        ⟨t, ht, hworker, by rw [hkind, hsema]⟩ hsema hnew hlive ?_ ?_
      · simp [LoopState.logEntry, hlive]
      · simp [LoopState.logEntry]
    · simp [LoopState.logEntry]
    · simp [LoopState.logEntry]
    · simp [LoopState.logEntry, hsema]
    · simp [LoopState.logEntry]
  · refine h.append ?_ ?_ ?_ ?_ ?_
    · refine h.ledger.emitted (e := LoopState.logEntry st.driver _ response) hloop.inv
        ⟨t, ht, hworker, by rw [hkind, hemit]⟩ hemit hnew hlive ?_ ?_
      · simp [LoopState.logEntry, hlive]
      · simp [LoopState.logEntry]
    · simp [LoopState.logEntry]
    · simp [LoopState.logEntry]
    · simp [LoopState.logEntry, hlive, hemit]
    · simp [LoopState.logEntry]

theorem step (h : Books st) (hloop : LoopInv env all st) (hall : DistinctJobs all)
    (hsend : ∀ j, env.send.sendOk j = true) {l : LoopLabel} {st' : LoopState}
    (hstep : LoopStep env st l st') : Books st' := by
  cases hstep with
  | top _ => exact h.loopTop hloop hall hsend
  | respond _ hexpects hok => exact h.respond hloop hsend hexpects hok
  | @terminate startedBefore driver _ hok =>
      have hmoves : st.driver.scheduler.Moves driver.scheduler ∧
          driver.shardPaths = st.driver.shardPaths ∧
          driver.indexedSoFar = st.driver.indexedSoFar := by
        unfold Driver.terminateLongRunningWorkersAndRespawn at hok
        split at hok
        · cases hok
        · next scheduler hterminate =>
          rw [Except.ok.injEq] at hok
          subst hok
          exact ⟨Scheduler.Moves.terminateLongRunning hloop.inv hterminate, rfl, rfl⟩
      exact h.of_moves hmoves.1 rfl rfl hmoves.2.1 hmoves.2.2

theorem start {options : DriverOptions} {database : CompilationDatabase}
    {spawnWorker : WorkerId → Process}
    (h : LoopState.start env options database spawnWorker = some st) : Books st := by
  have hempty : Books
      { driver := .openCompilationDatabase options database spawnWorker
        refillCount := 0, phase := .top, queued := [], handled := [] } :=
    ⟨Ledger.init _ spawnWorker, rfl, rfl, by simp, by simp⟩
  have hrefilled := hempty.refill (LoopInv.opened env options database spawnWorker)
    (distinctJobs_databaseCommands env options database)
  simp only [LoopState.start] at h
  split at h
  · cases h
  · rw [Option.some.injEq] at h
    rw [← h]
    exact hrefilled

end Books

/-! ## Conservation -/

/-- The log entries of the task of a command. -/
def entriesOf (st : LoopState) (cmd : CommandObject) : List Handled :=
  st.handled.filter fun h => h.response.jobId.taskId = (Scheduler.semaJobId cmd).taskId

/-- The task was indexed: the shard paths of its `EmitIndex` result were appended once,
and it was counted once. -/
def Indexed (st : LoopState) (cmd : CommandObject) : Prop :=
  ∃ h ∈ st.handled, h.response.jobId = (Scheduler.semaJobId cmd).nextSubtask ∧
    h.response.result.kind = .EmitIndex ∧
    (entriesOf st cmd).flatMap (·.appended) = [h.response.result.emitIndex.shardPaths] ∧
    numCounted (entriesOf st cmd) = 1

/-- One of the jobs of the task is suspected to have failed. -/
def Failed (st : LoopState) (cmd : CommandObject) : Prop :=
  Scheduler.semaJobId cmd ∈ st.driver.scheduler.maybeErroredJobs ∨
    (Scheduler.semaJobId cmd).nextSubtask ∈ st.driver.scheduler.maybeErroredJobs

/-- Translation units are conserved. -/
structure Conserved (st : LoopState) : Prop where
  /-- The log accounts for all that was appended and counted. -/
  shardPaths : st.driver.shardPaths = st.handled.flatMap (·.appended)
  indexedSoFar : st.driver.indexedSoFar = numCounted st.handled
  task : ∀ cmd ∈ st.queued, Xor (Indexed st cmd) (Failed st cmd)
  total : st.driver.indexedSoFar + st.driver.scheduler.numErroredJobs = st.queued.length
  /-- No received result of emitting an index is discarded. -/
  kept : ∀ h ∈ st.handled, h.response.result.kind = .EmitIndex →
    h.appended = [h.response.result.emitIndex.shardPaths]

theorem flatMap_eq_of_unique {α β : Type} {f : α → List β} {a : α} :
    ∀ {l : List α}, l.Nodup → a ∈ l → (∀ x ∈ l, x ≠ a → f x = []) → l.flatMap f = f a
  | [], _, ha, _ => absurd ha (by simp)
  | x :: l, hnodup, ha, hnil => by
      rw [List.nodup_cons] at hnodup
      rw [List.flatMap_cons]
      by_cases hx : x = a
      · subst hx
        have hrest : l.flatMap f = [] := by
          rw [List.flatMap_eq_nil_iff]
          intro y hy
          exact hnil y (by simp [hy]) fun hyx => hnodup.1 (hyx ▸ hy)
        rw [hrest, List.append_nil]
      · rw [hnil x (by simp) hx, List.nil_append]
        refine flatMap_eq_of_unique hnodup.2 ?_ fun y hy => hnil y (by simp [hy])
        rcases List.mem_cons.mp ha with rfl | ha
        · exact absurd rfl hx
        · exact ha

namespace Books

variable {env : DriverEnv} {all : List CommandObject} {st : LoopState}

/-- A log entry is determined by its job. -/
theorem entry_unique (h : Books st) {a b : Handled} (ha : a ∈ st.handled) (hb : b ∈ st.handled)
    (hjob : a.response.jobId = b.response.jobId) : a = b :=
  List.inj_on_of_nodup_map h.ledger.once ha hb hjob

/-- Answered jobs are analyses with subtask number 0 or emissions with subtask number 1. -/
theorem entry_shape (h : Books st) (hloop : LoopInv env all st) {a : Handled}
    (ha : a ∈ st.handled) :
    (a.response.result.kind = .SemanticAnalysis ∧ a.response.jobId.subtaskId = 0) ∨
      (a.response.result.kind = .EmitIndex ∧ a.response.jobId.subtaskId = 1) := by
  obtain ⟨t, ht, -, hkind⟩ := h.ledger.answered a ha
  rw [← hkind]
  exact hloop.inv.shape _ t ht

/-- A task whose index was emitted in time was indexed. -/
theorem indexed_of_emitted (h : Books st) (hloop : LoopInv env all st) {cmd : CommandObject}
    {a : Handled} (ha : a ∈ st.handled)
    (hjob : a.response.jobId = (Scheduler.semaJobId cmd).nextSubtask) (hlate : a.late = false) :
    Indexed st cmd := by
  have hone : a.response.jobId.subtaskId = 1 := by rw [hjob]; rfl
  have hkind : a.response.result.kind = .EmitIndex := by
    rcases h.entry_shape hloop ha with ⟨-, hzero⟩ | ⟨hkind, -⟩
    · exact absurd hone (JobId.subtaskId_ne_one_of_zero hzero)
    · exact hkind
  have happended : a.appended = [a.response.result.emitIndex.shardPaths] := by
    rw [h.appended a ha, if_pos ⟨hlate, hkind⟩]
  have hentries : (entriesOf st cmd).flatMap (·.appended) = a.appended := by
    refine flatMap_eq_of_unique (f := Handled.appended) ?_ ?_ ?_
    · exact (List.Nodup.of_map _ h.ledger.once).filter _
    · exact List.mem_filter.mpr ⟨ha, by simp [hjob]⟩
    · intro b hb hne
      obtain ⟨hb, htask⟩ := List.mem_filter.mp hb
      -- another entry of the task is its analysis, which appends nothing
      have hsema : b.response.result.kind ≠ .EmitIndex := by
        intro hemit
        rcases h.entry_shape hloop hb with ⟨hsema, -⟩ | ⟨-, hone'⟩
        · rw [hemit] at hsema
          cases hsema
        · refine hne (h.entry_unique hb ha ?_)
          have htask' : b.response.jobId.taskId = a.response.jobId.taskId := by
            rw [hjob]
            simpa using htask
          exact JobId.ext htask' (hone'.trans hone.symm)
      rw [h.appended b hb, if_neg fun hand => hsema hand.2]
  refine ⟨a, ha, hjob, hkind, hentries.trans happended, ?_⟩
  have hcount : numCounted (entriesOf st cmd) =
      ((entriesOf st cmd).flatMap (·.appended)).length := by
    rw [numCounted, List.length_flatMap]
    congr 1
    refine List.map_congr_left fun b hb => ?_
    exact h.counted b (List.mem_filter.mp hb).1
  rw [hcount, hentries, happended]
  rfl

/-- An answered job is not suspected to have failed. -/
theorem not_errored (h : Books st) {a : Handled} (ha : a ∈ st.handled) :
    a.response.jobId ∉ st.driver.scheduler.maybeErroredJobs :=
  fun hmem => h.ledger.closed a ha (Or.inr (Or.inr hmem))

/-- A task that was indexed has not failed. -/
theorem not_failed_of_indexed (h : Books st) {cmd : CommandObject}
    (hindexed : Indexed st cmd) : ¬ Failed st cmd := by
  obtain ⟨a, ha, hjob, -⟩ := hindexed
  obtain ⟨t, ht, -, -⟩ := h.ledger.answered a ha
  have hnext : st.driver.scheduler.trackedJob (Scheduler.semaJobId cmd).nextSubtask ≠ none := by
    rw [Ne, Scheduler.trackedJob_eq_none, ← hjob, ht]
    simp
  rintro (hsema | hemit)
  · obtain ⟨b, hb, hjob', -⟩ := (h.ledger.followUp (Scheduler.semaJobId cmd) rfl).mp hnext
    exact h.not_errored hb (hjob' ▸ hsema)
  · exact h.not_errored ha (hjob ▸ hemit)

/-- Once nothing is pending or running, a task without late responses was indexed or has
failed. -/
theorem indexed_or_failed (h : Books st) (hloop : LoopInv env all st)
    (hpending : st.driver.scheduler.pendingJobs = []) (hwip : st.driver.scheduler.wipJobs = ∅)
    (hlate : ∀ a ∈ st.handled, a.late = false) {cmd : CommandObject} (hcmd : cmd ∈ st.queued) :
    Indexed st cmd ∨ Failed st cmd := by
  have hclosed : ∀ j job, st.driver.scheduler.trackedJob j = some job →
      j ∈ st.driver.scheduler.maybeErroredJobs ∨ ∃ a ∈ st.handled, a.response.jobId = j := by
    intro j job hjob
    rcases h.ledger.open_or_answered j job hjob with (hj | hj | hj) | hanswered
    · simp [hpending] at hj
    · simp [hwip] at hj
    · exact Or.inl hj
    · exact Or.inr hanswered
  rcases hclosed _ _ (hloop.tracked cmd hcmd) with herr | ⟨a, ha, hjob⟩
  · exact Or.inr (Or.inl herr)
  · have hnext := (h.ledger.followUp (Scheduler.semaJobId cmd) rfl).mpr
      ⟨a, ha, hjob, hlate a ha⟩
    obtain ⟨job, hjob'⟩ := Option.ne_none_iff_exists'.mp hnext
    rcases hclosed _ job hjob' with herr | ⟨b, hb, hemit⟩
    · exact Or.inr (Or.inr herr)
    · exact Or.inl (h.indexed_of_emitted hloop hb hemit (hlate b hb))

/-- **Once nothing is pending or running, translation units are conserved exactly if no
response was late.** -/
theorem conserved_iff_not_late (h : Books st) (hloop : LoopInv env all st)
    (hpending : st.driver.scheduler.pendingJobs = []) (hwip : st.driver.scheduler.wipJobs = ∅) :
    Conserved st ↔ ∀ a ∈ st.handled, a.late = false := by
  constructor
  · intro hconserved a ha
    by_contra hlate
    rw [Bool.not_eq_false] at hlate
    rcases h.entry_shape hloop ha with ⟨hkind, hzero⟩ | ⟨hkind, -⟩
    · -- a late analysis is never followed up, and no longer suspected to have failed
      obtain ⟨t, ht, -, -⟩ := h.ledger.answered a ha
      obtain ⟨cmd, hcmd, htask⟩ :=
        hloop.known _ t.job (Scheduler.trackedJob_eq_some.mpr ⟨t, ht, rfl⟩)
      have hjob : a.response.jobId = Scheduler.semaJobId cmd := JobId.ext htask hzero
      have hnext : st.driver.scheduler.trackedJob (Scheduler.semaJobId cmd).nextSubtask = none := by
        by_contra hsome
        obtain ⟨b, hb, hjob', hlate'⟩ :=
          (h.ledger.followUp (Scheduler.semaJobId cmd) rfl).mp hsome
        rw [h.entry_unique hb ha (hjob'.trans hjob.symm), hlate] at hlate'
        cases hlate'
      have hnotIndexed : ¬ Indexed st cmd := by
        rintro ⟨b, hb, hjob', -⟩
        obtain ⟨t', ht', -, -⟩ := h.ledger.answered b hb
        rw [Scheduler.trackedJob_eq_none, ← hjob', ht'] at hnext
        cases hnext
      have hnotFailed : ¬ Failed st cmd := by
        rintro (hsema | hemit)
        · exact h.not_errored ha (hjob ▸ hsema)
        · have hsome := hloop.inv.consistent.known _ (Or.inr (Or.inr hemit))
          rw [Scheduler.trackedJob_eq_none.mp hnext] at hsome
          cases hsome
      rcases hconserved.task cmd hcmd with ⟨hindexed, -⟩ | ⟨hfailed, -⟩
      · exact hnotIndexed hindexed
      · exact hnotFailed hfailed
    · have hkept := hconserved.kept a ha hkind
      rw [h.appended a ha, if_neg (by simp [hlate])] at hkept
      cases hkept
  · intro hlate
    refine ⟨h.shardPaths, h.indexedSoFar, ?_, ?_, ?_⟩
    · intro cmd hcmd
      rcases h.indexed_or_failed hloop hpending hwip hlate hcmd with hindexed | hfailed
      · exact Or.inl ⟨hindexed, h.not_failed_of_indexed hindexed⟩
      · exact Or.inr ⟨hfailed, fun hindexed => h.not_failed_of_indexed hindexed hfailed⟩
    · have hbalance := h.ledger.balance
      have hnone : numLate st.handled = 0 := by
        rw [numLate, List.countP_eq_zero]
        intro a ha
        simp [hlate a ha]
      rw [Scheduler.numOpen, hpending, hwip] at hbalance
      rw [h.indexedSoFar, Scheduler.numErroredJobs]
      simp only [List.length_nil, Finset.card_empty] at hbalance
      omega
    · intro a ha hkind
      rw [h.appended a ha, if_pos ⟨hlate a ha, hkind⟩]

end Books

/-- A response is handled while its worker still processes the job. -/
def NotLate (st : LoopState) : LoopLabel → Prop
  | .respond response =>
      st.driver.scheduler.jobOf response.workerId = some response.jobId
  | .top => True
  | .terminate _ => True

/-- The loop exits only when nothing is pending or running. -/
def Finished (st : LoopState) : Prop :=
  st.phase = .done →
    st.driver.scheduler.pendingJobs = [] ∧ st.driver.scheduler.wipJobs = ∅

theorem Finished.step {env : DriverEnv} {st st' : LoopState} {l : LoopLabel}
    (hstep : LoopStep env st l st') : Finished st' := by
  intro hdone
  cases hstep with
  | top _ =>
      unfold LoopState.loopTop at hdone ⊢
      split at hdone
      · next hexit =>
        rw [if_pos hexit]
        exact Scheduler.shutdownIdleWorkers_preserves
          (P := fun s => s.pendingJobs = [] ∧ s.wipJobs = ∅) (fun _ _ _ _ h => h) hexit
      · cases hdone
  | respond hphase _ _ => simp [hphase] at hdone
  | terminate _ _ => cases hdone

theorem handled_loopTop {env : DriverEnv} {st : LoopState} :
    (st.loopTop env).handled = st.handled := by
  unfold LoopState.loopTop
  split
  · rfl
  · show (if _ then _ else _ : LoopState).handled = _
    split <;> rfl

/-- The log only grows. -/
theorem handled_mono {env : DriverEnv} {st st' : LoopState} {l : LoopLabel}
    (hstep : LoopStep env st l st') {h : Handled} (hh : h ∈ st.handled) : h ∈ st'.handled := by
  cases hstep with
  | top _ =>
      rw [handled_loopTop]
      exact hh
  | respond _ _ _ => exact List.mem_append_left _ hh
  | terminate _ _ => exact hh

section Conservation

variable {env : DriverEnv} {options : DriverOptions} {database : CompilationDatabase}
  {spawnWorker : WorkerId → Process} {st₀ st : LoopState} {ls : List LoopLabel}

/-- The books are kept along every run. -/
theorem books_of_run (hsend : ∀ j, env.send.sendOk j = true)
    (hinit : (driverLoop env options database spawnWorker).init st₀)
    (hrun : (driverLoop env options database spawnWorker).Run st₀ ls st) :
    LoopInv env (databaseCommands env options database) st ∧ Books st ∧ Finished st := by
  have hall := distinctJobs_databaseCommands env options database
  refine hrun.preserves (I := fun st =>
    LoopInv env (databaseCommands env options database) st ∧ Books st ∧ Finished st) ?_ ?_
  · rintro s l s' ⟨hloop, hbooks, -⟩ hstep
    exact ⟨hloop.step hall hsend hstep, hbooks.step hloop hall hsend hstep, Finished.step hstep⟩
  · refine ⟨LoopInv.start hinit, Books.start hinit, ?_⟩
    intro hdone
    simp only [driverLoop, LoopState.start] at hinit
    split at hinit
    · cases hinit
    · rw [Option.some.injEq] at hinit
      rw [← hinit] at hdone
      cases hdone

/-- **When the loop exits, translation units are conserved exactly if no response was late.**
Sends succeed; the responses, their order, and the timeouts are arbitrary. -/
theorem conserved_iff (hsend : ∀ j, env.send.sendOk j = true)
    (hinit : (driverLoop env options database spawnWorker).init st₀)
    (hrun : (driverLoop env options database spawnWorker).Run st₀ ls st)
    (hdone : st.phase = .done) :
    Conserved st ↔
      ((driverLoop env options database spawnWorker).restrict NotLate).Run st₀ ls st := by
  obtain ⟨hloop, hbooks, hfinished⟩ := books_of_run hsend hinit hrun
  obtain ⟨hpending, hwip⟩ := hfinished hdone
  rw [hbooks.conserved_iff_not_late hloop hpending hwip]
  constructor
  · intro hlate
    -- otherwise some response was late when it was handled, and stays in the list
    have hcases := hrun.restrict_or (G := NotLate) (I := fun _ => True)
      (D := fun st => ∃ h ∈ st.handled, h.late = true) (fun _ _ _ _ _ => trivial) ?_ ?_ trivial
    · rcases hcases with hrestricted | ⟨h, hh, hlate'⟩
      · exact hrestricted
      · rw [hlate h hh] at hlate'
        cases hlate'
    · rintro s l s' ⟨h, hh, hlate'⟩ hstep
      exact ⟨h, handled_mono hstep hh, hlate'⟩
    · intro s l s' _ hnot hstep
      cases hstep with
      | top _ => exact absurd trivial hnot
      | terminate _ _ => exact absurd trivial hnot
      | respond _ _ _ =>
          exact ⟨_, List.mem_append.mpr (Or.inr (List.mem_singleton.mpr rfl)), decide_eq_true hnot⟩
  · intro hrestricted
    refine hrestricted.preserves (I := fun st => ∀ h ∈ st.handled, h.late = false) ?_ ?_
    · rintro s l s' hlate ⟨hnot, hstep⟩
      cases hstep with
      | top _ =>
          rw [handled_loopTop]
          exact hlate
      | terminate _ _ => exact hlate
      | respond _ _ _ =>
          intro h hh
          rcases List.mem_append.mp hh with hh | hh
          · exact hlate h hh
          · rw [List.mem_singleton] at hh
            rw [hh]
            exact decide_eq_false (not_not.mpr hnot)
    · simp only [driverLoop, LoopState.start] at hinit
      split at hinit
      · cases hinit
      · rw [Option.some.injEq] at hinit
        rw [← hinit]
        simp [LoopState.refill]

end Conservation

/-- The response of the only worker to a semantic analysis. -/
def semaResponseOf (task : UInt32) : IndexJobResponse :=
  ⟨0, .newTask task, { kind := .SemanticAnalysis }⟩

/-- The response of the only worker to emitting an index. -/
def emitResponseOf (task : UInt32) : IndexJobResponse :=
  ⟨0, (JobId.newTask task).nextSubtask, { kind := .EmitIndex }⟩

/-- One translation unit is analysed and indexed in time. -/
theorem conserved_iff_oneFile : ∃ st₀ st ls,
    (driverLoop succeedingEnv oneWorker oneFile id).init st₀ ∧
      (driverLoop succeedingEnv oneWorker oneFile id).Run st₀ ls st ∧ st.phase = .done ∧
      Conserved st := by
  have hrun : ∃ st, ((driverLoop succeedingEnv oneWorker oneFile id).restrict NotLate).Run
      (LoopState.refill succeedingEnv
        { driver := .openCompilationDatabase oneWorker oneFile id
          refillCount := 0, phase := .top, queued := [], handled := [] })
      [.top, .respond (semaResponseOf 0), .respond (emitResponseOf 0), .terminate 10, .top] st ∧
      st.phase = .done := by
    refine ⟨_, .cons ⟨trivial, .top rfl⟩ (.cons ⟨rfl, .respond rfl ?_ rfl⟩ (.cons
      ⟨rfl, .respond rfl ?_ rfl⟩ (.cons ⟨trivial, .terminate rfl rfl⟩
        (.cons ⟨trivial, .top rfl⟩ (.nil _))))), rfl⟩
    · exact ⟨⟨_, rfl, rfl, rfl⟩, by decide⟩
    · exact ⟨⟨_, rfl, rfl, rfl⟩, by decide⟩
  obtain ⟨st, hrun, hdone⟩ := hrun
  refine ⟨_, st, _, rfl, hrun.of_restrict, hdone, ?_⟩
  have hinit : (driverLoop succeedingEnv oneWorker oneFile id).init _ := rfl
  exact (conserved_iff (fun _ => rfl) hinit hrun.of_restrict hdone).mpr hrun

/-- A database of two translation units. -/
def twoFiles : CompilationDatabase :=
  ⟨[{ filePath := "a.cc".toList }, { filePath := "b.cc".toList }], by decide⟩

/-- The worker is terminated while it emits the index of the first translation unit, and its
result is read after the respawned worker has been given the second one.  The result is
discarded. -/
theorem late_result_discarded : ∃ st₀ st ls,
    (driverLoop succeedingEnv oneWorker twoFiles id).init st₀ ∧
      (driverLoop succeedingEnv oneWorker twoFiles id).Run st₀ ls st ∧ st.phase = .done ∧
      ¬ Conserved st := by
  refine ⟨_, _, [.top, .respond (semaResponseOf 0), .terminate 10, .top,
      .respond (emitResponseOf 0), .respond (semaResponseOf 1), .respond (emitResponseOf 1),
      .terminate 20, .top], rfl,
    .cons (.top rfl) (.cons (.respond rfl ?_ rfl) (.cons (.terminate rfl rfl) (.cons (.top rfl)
      (.cons (.respond rfl ?_ rfl) (.cons (.respond rfl ?_ rfl) (.cons (.respond rfl ?_ rfl)
        (.cons (.terminate rfl rfl) (.cons (.top rfl) (.nil _))))))))), rfl, ?_⟩
  · exact ⟨⟨_, rfl, rfl, rfl⟩, by decide⟩
  · exact ⟨⟨_, rfl, rfl, rfl⟩, by decide⟩
  · exact ⟨⟨_, rfl, rfl, rfl⟩, by decide⟩
  · exact ⟨⟨_, rfl, rfl, rfl⟩, by decide⟩
  · intro hconserved
    have hkept := hconserved.kept ⟨emitResponseOf 0, true, [], 0⟩ (by decide) rfl
    cases hkept

end ScipClang
