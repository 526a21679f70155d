import ScipClang.Driver.LoopAssertions
import ScipClang.Protocol.Answers
import ScipClang.Protocol.Progress

/-!
# The scheduling loop among the workers

The protocol lets the driver queue, assign and send one thing at a time.  The loop of the code
refills, assigns jobs to all idle workers or stops all of them in one go, and `driverLoop` takes its
responses from nowhere.  Here the loop of the code runs among the workers of the protocol: its
requests go into their queues, and what it reads are their responses.

The model of the loop does not keep the requests.  What has been sent to a worker in a step can be
told from the scheduler before and after the step (`Scheduler.sentTo`); that this is what the
driver of the protocol sends is part of the refinement.

* `reachable_of_loopAmongWorkers`: whatever the loop and its workers do, if workers are terminated
  only after they have taken their requests, then the protocol can get there too, and the loop has
  read only responses that it expects.
-/

namespace ScipClang

/-! ## What has been sent -/

namespace Scheduler

/-- What the driver has sent to a worker while its scheduler went from one state to another. -/
def sentTo (s s' : Scheduler) (w : WorkerId) : List IndexJobRequest :=
  match s'.jobOf w with
  | some j => if s.jobOf w = some j then [] else [requestFor s' j]
  | none => if s'.statusOf w = some .Stopped ∧ s.statusOf w ≠ some .Stopped then [shutdownRequest]
      else []

/-- Running jobs go on, and stopped workers stay stopped. -/
structure Continues (s s' : Scheduler) : Prop where
  jobOf : ∀ w j, s.jobOf w = some j → s'.jobOf w = some j
  requestFor : ∀ w j, s.jobOf w = some j → requestFor s' j = requestFor s j
  stopped : ∀ w, s.statusOf w = some .Stopped → s'.statusOf w = some .Stopped ∧ s'.jobOf w = none

/-- Workers either go on as before or lose their jobs. -/
def Drops (s s' : Scheduler) : Prop :=
  ∀ w, s'.jobOf w = s.jobOf w ∧ s'.statusOf w = s.statusOf w ∨
    s'.jobOf w = none ∧ s'.statusOf w = some .Idle

variable {s s' s'' : Scheduler} {w : WorkerId} {j : JobId}

theorem Continues.trans (h : s.Continues s') (h' : s'.Continues s'') : s.Continues s'' where
  jobOf w j hj := h'.jobOf w j (h.jobOf w j hj)
  requestFor w j hj := (h'.requestFor w j (h.jobOf w j hj)).trans (h.requestFor w j hj)
  stopped w hw := h'.stopped w (h.stopped w hw).1

theorem Inv.continues_refl (h : s.Inv) : s.Continues s where
  jobOf _ _ hj := hj
  requestFor _ _ _ := rfl
  stopped w hw := by
    refine ⟨hw, ?_⟩
    cases hj : s.jobOf w with
    | none => rfl
    | some j =>
        rw [h.statusOf_of_jobOf hj] at hw
        cases hw

/-- What was sent in two stages. -/
theorem sentTo_trans (h : s.Continues s') (h' : s'.Continues s'') (w : WorkerId) :
    s.sentTo s' w ++ s'.sentTo s'' w = s.sentTo s'' w := by
  unfold sentTo
  cases hj : s'.jobOf w with
  | some j =>
      have hreq := h'.requestFor w j hj
      simp [h'.jobOf w j hj, hreq]
  | none =>
      -- a worker without a job had none before
      have hnone : s.jobOf w = none := by
        cases hold : s.jobOf w with
        | none => rfl
        | some j =>
            rw [h.jobOf w j hold] at hj
            cases hj
      cases hj' : s''.jobOf w with
      | some j =>
          have hrunning : s'.statusOf w ≠ some .Stopped := by
            intro hstopped
            rw [(h'.stopped w hstopped).2] at hj'
            cases hj'
          simp [hnone, hrunning]
      | none =>
          by_cases hstopped : s'.statusOf w = some .Stopped
          · simp [hstopped, (h'.stopped w hstopped).1]
          · have hold : s.statusOf w ≠ some .Stopped := fun hold =>
              hstopped (h.stopped w hold).1
            simp [hstopped, hold]

theorem Drops.trans (h : s.Drops s') (h' : s'.Drops s'') : s.Drops s'' := by
  intro w
  rcases h' w with ⟨hjob, hstatus⟩ | hidle
  · rw [hjob, hstatus]
    exact h w
  · exact Or.inr hidle

theorem keeps_foldl_queueSemaTask (commands : List CommandObject) :
    s.Keeps (commands.foldl queueSemaTask s) := by
  induction commands generalizing s with
  | nil => exact .of_workers rfl
  | cons cmdObject commands ih =>
      have hqueue := keeps_queueSemaTask (s := s) cmdObject
      have hrest := ih (s := s.queueSemaTask cmdObject)
      exact ⟨hrest.jobOf.trans hqueue.jobOf, hrest.statusOf.trans hqueue.statusOf⟩

theorem Keeps.sentTo (h : s.Keeps s') (w : WorkerId) : s.sentTo s' w = [] := by
  unfold Scheduler.sentTo
  rw [h.jobOf, h.statusOf]
  cases hj : s.jobOf w <;> simp

theorem Drops.sentTo (h : s.Drops s') (w : WorkerId) : s.sentTo s' w = [] := by
  unfold Scheduler.sentTo
  rcases h w with ⟨hjob, hstatus⟩ | ⟨hnone, hidle⟩
  · rw [hjob, hstatus]
    cases hj : s.jobOf w <;> simp
  · simp [hnone, hidle]

theorem Reassigns.sentTo_some {status : WorkerStatus} (h : s.Reassigns s' w (some j) status)
    (hnew : s.jobOf w ≠ some j) (v : WorkerId) :
    s.sentTo s' v = if v = w then [requestFor s' j] else [] := by
  unfold Scheduler.sentTo
  rw [h.jobOf, h.statusOf]
  by_cases hv : v = w
  · subst hv
    simp [hnew]
  · cases hj : s.jobOf v <;> simp [hv]

theorem Reassigns.sentTo_stopped (h : s.Reassigns s' w none .Stopped)
    (hrunning : s.statusOf w ≠ some .Stopped) (v : WorkerId) :
    s.sentTo s' v = if v = w then [shutdownRequest] else [] := by
  unfold Scheduler.sentTo
  rw [h.jobOf, h.statusOf]
  by_cases hv : v = w
  · subst hv
    simp [hrunning]
  · cases hj : s.jobOf v <;> simp [hv]

/-- Undoing an assignment leaves an idle worker as it was. -/
theorem Reassigns.keeps_deschedule (h : s.Reassigns s' w (some j) .Busy)
    (hstatus : s.statusOf w = some .Idle) (hnone : s.jobOf w = none) :
    s.Keeps (s'.descheduleJobDueToSendError w j) := by
  have hback : s'.Reassigns (s'.descheduleJobDueToSendError w j) w none .Idle :=
    reassigns_deschedule ((h.statusOf w).trans (if_pos rfl))
  constructor
  · funext v
    rw [hback.jobOf, h.jobOf]
    split
    · next hv => rw [hv, hnone]
    · rfl
  · funext v
    rw [hback.statusOf, h.statusOf]
    split
    · next hv => rw [hv, hstatus]
    · rfl

theorem Reassigns.drops (h : s.Reassigns s' w none .Idle) : s.Drops s' := by
  intro v
  rw [h.jobOf, h.statusOf]
  by_cases hv : v = w
  · simp [hv]
  · simp [hv]

end Scheduler

/-! ## What the loop brings about in the protocol -/

/-- The world in which the driver has brought its scheduler into another state, and all that it had
to send for this has arrived. -/
def World.sends (W : World) (s : Scheduler) : World :=
  { W with
    driver := { W.driver with scheduler := s }
    driverToWorker := fun w => W.driverToWorker w ++ W.driver.scheduler.sentTo s w }

/-- A run of the protocol leads to this world, with these responses read on the way, and
terminates workers only after they have taken their requests. -/
def World.Reached (env : DriverEnv) (options : DriverOptions) (database : CompilationDatabase)
    (spawnWorker : WorkerId → Process) (handled : List IndexJobResponse) (W : World) : Prop :=
  ((loggedProtocol env options database spawnWorker).restrict
    fun s => TerminatesAfterReceipt s.1).Reachable (W, handled)

section Reached

variable {env : DriverEnv} {options : DriverOptions} {database : CompilationDatabase}
  {spawnWorker : WorkerId → Process} {handled : List IndexJobResponse} {W : World}

theorem World.Reached.answerInv (h : W.Reached env options database spawnWorker handled) :
    AnswerInv W handled := answerInv_of_reachable h

theorem World.Reached.next {W' : World} {l : ProtocolLabel}
    (h : W.Reached env options database spawnWorker handled) (hstep : ProtocolStep env W l W')
    (hreceipt : TerminatesAfterReceipt W l) (hread : W.read l = []) :
    W'.Reached env options database spawnWorker handled := by
  have hnext : W'.Reached env options database spawnWorker (handled ++ W.read l) :=
    h.step (step_logged hreceipt hstep)
  rwa [hread, List.append_nil] at hnext

/-- What is handed over is put into the queue, which is empty. -/
theorem World.Reached.delivered {w : WorkerId} {request : IndexJobRequest}
    (h : W.Reached env options database spawnWorker handled)
    (hsending : W.sending = some (w, request)) :
    World.Reached env options database spawnWorker handled { W with
      driverToWorker := Function.update W.driverToWorker w (W.driverToWorker w ++ [request])
      sending := none } := by
  have hroom : (W.driverToWorker w).length < 1 := by
    rw [(h.answerInv.sending_cases hsending).1]
    exact Nat.one_pos
  exact h.next (.deliver hsending hroom) trivial rfl

/-- The driver can bring its scheduler into this state, while nothing is read and no worker does
anything. -/
structure Drives (env : DriverEnv) (options : DriverOptions) (database : CompilationDatabase)
    (spawnWorker : WorkerId → Process) (handled : List IndexJobResponse) (W : World)
    (s : Scheduler) : Prop where
  reached : (W.sends s).Reached env options database spawnWorker handled
  continues : W.driver.scheduler.Continues s

theorem World.sends_sends {s s' : Scheduler} (h : W.driver.scheduler.Continues s)
    (h' : s.Continues s') : (W.sends s).sends s' = W.sends s' := by
  unfold World.sends
  congr 1
  funext w
  exact (List.append_assoc _ _ _).trans (congrArg _ (Scheduler.sentTo_trans h h' w))

/-- Nothing has been sent. -/
theorem World.sends_of_nil {s : Scheduler} (hsending : W.sending = none)
    (h : ∀ w, W.driver.scheduler.sentTo s w = []) : W.sends s = W.schedule s none := by
  unfold World.sends World.schedule
  simp [h, hsending]

/-- One request has been sent. -/
theorem World.sends_of_single {s : Scheduler} {w : WorkerId} {request : IndexJobRequest}
    (hsending : W.sending = none)
    (h : ∀ v, W.driver.scheduler.sentTo s v = if v = w then [request] else []) :
    W.sends s = { W.schedule s (some (w, request)) with
      driverToWorker := Function.update W.driverToWorker w (W.driverToWorker w ++ [request])
      sending := none } := by
  unfold World.sends World.schedule
  simp only [h, hsending, World.mk.injEq, and_true, true_and]
  funext v
  by_cases hv : v = w
  · simp [hv]
  · simp [hv]

theorem Drives.trans {s s' : Scheduler}
    (h : Drives env options database spawnWorker handled W s)
    (h' : Drives env options database spawnWorker handled (W.sends s) s') :
    Drives env options database spawnWorker handled W s' :=
  ⟨World.sends_sends h.continues h'.continues ▸ h'.reached, h.continues.trans h'.continues⟩

theorem Drives.refl (h : W.Reached env options database spawnWorker handled)
    (hsending : W.sending = none) :
    Drives env options database spawnWorker handled W W.driver.scheduler := by
  have hkeeps : W.driver.scheduler.Keeps W.driver.scheduler := ⟨rfl, rfl⟩
  refine ⟨?_, h.answerInv.inv.continues_refl⟩
  rw [World.sends_of_nil hsending hkeeps.sentTo, World.schedule, ← hsending]
  exact h

theorem drives_queue (h : W.Reached env options database spawnWorker handled)
    (hsending : W.sending = none) {cmdObject : CommandObject}
    (hfresh : W.driver.scheduler.allJobList (Scheduler.semaJobId cmdObject) = none) :
    Drives env options database spawnWorker handled W
      (W.driver.scheduler.queueSemaTask cmdObject) := by
  have hkeeps := Scheduler.keeps_queueSemaTask (s := W.driver.scheduler) cmdObject
  refine ⟨?_, ?_, ?_, ?_⟩
  · rw [World.sends_of_nil hsending hkeeps.sentTo]
    exact h.next (.queue hsending hfresh) trivial rfl
  · intro w j hj
    exact (congrFun hkeeps.jobOf w).trans hj
  · intro w j hj
    have hne : j ≠ Scheduler.semaJobId cmdObject := by
      rintro rfl
      exact h.answerInv.known_of_jobOf hj hfresh
    rw [requestFor, Scheduler.trackedJob_queueSemaTask hfresh, if_neg hne]
    rfl
  · intro w hw
    rw [hkeeps.statusOf, hkeeps.jobOf]
    exact h.answerInv.inv.continues_refl.stopped w hw

theorem drives_shutdown (h : W.Reached env options database spawnWorker handled)
    (hsending : W.sending = none) {w : WorkerId} {idle : List WorkerId}
    (hidle : W.driver.scheduler.idleWorkers = idle ++ [w]) :
    Drives env options database spawnWorker handled W
      (W.driver.scheduler.shutdownLastIdle w) := by
  have hstatus : W.driver.scheduler.statusOf w = some .Idle :=
    (h.answerInv.inv.mem_idle w).mp (by simp [hidle])
  have hnone := (h.answerInv.resting_of_idle hstatus).1
  have hmoves := Scheduler.reassigns_shutdownLastIdle hstatus hnone
  refine ⟨?_, ?_, fun _ _ _ => rfl, ?_⟩
  · rw [World.sends_of_single hsending (hmoves.sentTo_stopped (by simp [hstatus]))]
    exact (h.next (.shutdown hsending hidle) trivial rfl).delivered rfl
  · intro v j hj
    rw [hmoves.jobOf, if_neg, hj]
    rintro rfl
    rw [hnone] at hj
    cases hj
  · intro v hv
    have hold := h.answerInv.inv.continues_refl.stopped v hv
    rw [hmoves.statusOf, hmoves.jobOf]
    by_cases hvw : v = w
    · simp [hvw]
    · simp [hvw, hold]

/-- A job is assigned and its request is sent; if that fails, the assignment is undone. -/
theorem drives_tryAssign (h : W.Reached env options database spawnWorker handled)
    (hsending : W.sending = none) {j : JobId} {pending : List JobId}
    (hpending : W.driver.scheduler.pendingJobs = j :: pending) {w : WorkerId}
    {idle : List WorkerId} (hidle : W.driver.scheduler.idleWorkers = w :: idle) :
    Drives env options database spawnWorker handled W (Scheduler.tryAssignJobToWorker env.send
      { W.driver.scheduler with
        pendingJobs := pending
        wipJobs := insert j W.driver.scheduler.wipJobs
        idleWorkers := idle } w j) := by
  have hstatus : W.driver.scheduler.statusOf w = some .Idle :=
    (h.answerInv.inv.mem_idle w).mp (by simp [hidle])
  have hnone := (h.answerInv.resting_of_idle hstatus).1
  set s := W.driver.scheduler.assigned j pending w idle (env.send.now j) with hs
  have hmoves : W.driver.scheduler.Reassigns s w (some j) .Busy :=
    Scheduler.reassigns_assigned hstatus pending idle (env.send.now j)
  have hassigned : World.Reached env options database spawnWorker handled
      (W.schedule s (some (w, requestFor s j))) :=
    h.next (.assign hsending hpending hidle) trivial rfl
  have htracked : s.trackedJob = W.driver.scheduler.trackedJob :=
    Scheduler.trackedJob_scheduleJobOnWorker w j (env.send.now j)
  have hjob : s.jobOf w = some j := (hmoves.jobOf w).trans (if_pos rfl)
  rw [Scheduler.tryAssignJobToWorker]
  cases env.send.sendOk j with
  | true =>
      refine ⟨?_, ?_, fun _ _ _ => ?_, ?_⟩
      · have hsent := hmoves.sentTo_some (by simp [hnone])
        rw [if_pos rfl]
        show (W.sends s).Reached env options database spawnWorker handled
        rw [World.sends_of_single hsending hsent]
        exact hassigned.delivered rfl
      · intro v k hk
        refine (hmoves.jobOf v).trans ((if_neg ?_).trans hk)
        rintro rfl
        rw [hnone] at hk
        cases hk
      · show requestFor s _ = _
        rw [requestFor, htracked]
        rfl
      · intro v hv
        show s.statusOf v = some .Stopped ∧ s.jobOf v = none
        have hvw : v ≠ w := by
          rintro rfl
          rw [hstatus] at hv
          cases hv
        rw [hmoves.statusOf, hmoves.jobOf, if_neg hvw, if_neg hvw]
        exact h.answerInv.inv.continues_refl.stopped v hv
  | false =>
      have hkeeps : W.driver.scheduler.Keeps (s.descheduleJobDueToSendError w j) :=
        hmoves.keeps_deschedule hstatus hnone
      have hzero : j.subtaskId = 0 := by
        obtain ⟨t, ht, -, hkind⟩ := h.answerInv.inv.pending_unassigned j (by simp [hpending])
        exact Scheduler.subtaskId_of_sema h.answerInv.inv ht hkind
      have hinv : s.Inv := hassigned.answerInv.inv
      have hkind : (requestFor s j).job.kind = .SemanticAnalysis := by
        rcases kind_requestFor hinv hjob with ⟨-, hsema⟩ | ⟨hone, -⟩
        · exact hsema
        · exact absurd hone (JobId.subtaskId_ne_one_of_zero hzero)
      have hne : (requestFor s j).id ≠ .Shutdown := CalmInv.ne_shutdown_of_jobOf hinv hjob
      refine ⟨?_, ?_, fun _ _ _ => ?_, ?_⟩
      · rw [if_neg Bool.false_ne_true]
        show (W.sends (s.descheduleJobDueToSendError w j)).Reached env options database spawnWorker
          handled
        rw [World.sends_of_nil hsending hkeeps.sentTo]
        exact hassigned.next (.sendFailed rfl hne hkind) trivial rfl
      · intro v k hk
        exact (congrFun hkeeps.jobOf v).trans hk
      · show requestFor s _ = _
        rw [requestFor, htracked]
        rfl
      · intro v hv
        have hold := h.answerInv.inv.continues_refl.stopped v hv
        exact ⟨(congrFun hkeeps.statusOf v).trans hold.1, (congrFun hkeeps.jobOf v).trans hold.2⟩

theorem drives_shutdownIdleWorkers (h : W.Reached env options database spawnWorker handled)
    (hsending : W.sending = none) :
    Drives env options database spawnWorker handled W
      W.driver.scheduler.shutdownIdleWorkers := by
  refine Scheduler.shutdownIdleWorkers_preserves (fun s idle w hidle hs => ?_)
    (.refl h hsending)
  exact hs.trans (drives_shutdown hs.reached hsending hidle)

/-- What the loop does between the refill and the responses. -/
theorem drives_assignOrShutdown (h : W.Reached env options database spawnWorker handled)
    (hsending : W.sending = none) :
    Drives env options database spawnWorker handled W
      (LoopState.assignOrShutdown env W.driver.scheduler) := by
  unfold LoopState.assignOrShutdown
  split
  · exact .refl h hsending
  · split
    · exact drives_shutdownIdleWorkers h hsending
    · refine Scheduler.assignJobsToIdleWorkers_preserves env.send
        (fun s j pending w idle hpending hidle hs => ?_) (.refl h hsending)
      exact hs.trans (drives_tryAssign hs.reached hsending hpending hidle)

theorem drives_refill (h : W.Reached env options database spawnWorker handled)
    (hsending : W.sending = none) {commands : List CommandObject}
    (hfresh : W.driver.scheduler.Fresh commands) :
    Drives env options database spawnWorker handled W
      (commands.foldl Scheduler.queueSemaTask W.driver.scheduler) := by
  refine Scheduler.foldl_queueSemaTask_preserves
    (P := fun s _ => Drives env options database spawnWorker handled W s)
    (fun s cmd _ hs hnone => ?_) commands _ [] hfresh (.refl h hsending)
  exact hs.trans (drives_queue hs.reached hsending hnone)

/-! ### Terminations -/

/-- The world in which workers have been terminated and respawned, namely those that have lost
their jobs. -/
def World.respawns (W : World) (s : Scheduler) : World :=
  { W with
    driver := { W.driver with scheduler := s }
    worker := fun w => if s.jobOf w = W.driver.scheduler.jobOf w then W.worker w else .idle }

theorem World.respawns_respawns {s s' : Scheduler} (h : W.driver.scheduler.Drops s)
    (h' : s.Drops s') : (W.respawns s).respawns s' = W.respawns s' := by
  unfold World.respawns
  congr 1
  funext w
  show (if s'.jobOf w = s.jobOf w then if s.jobOf w = W.driver.scheduler.jobOf w then W.worker w
    else .idle else .idle) = if s'.jobOf w = W.driver.scheduler.jobOf w then W.worker w else .idle
  rcases h w with ⟨hjob, -⟩ | ⟨hnone, -⟩
  · rw [hjob, if_pos rfl]
  · have hnone' : s'.jobOf w = none := by
      rcases h' w with ⟨hjob', -⟩ | ⟨hnone', -⟩
      · exact hjob'.trans hnone
      · exact hnone'
    rw [hnone, hnone', if_pos rfl]

/-- One round of the termination loop. -/
theorem reached_terminateIfLongRunning {startedBefore : Instant}
    (h : W.Reached env options database spawnWorker handled) (hsending : W.sending = none)
    (hreceipt : ∀ w, W.driver.scheduler.TimedOut startedBefore w → W.driverToWorker w = [])
    {w : WorkerId} (hw : w < W.driver.scheduler.workers.length) :
    ∃ s, Scheduler.terminateIfLongRunning startedBefore env.terminateAndRespawn
        W.driver.scheduler w = .ok s ∧ W.driver.scheduler.Drops s ∧
      (W.respawns s).Reached env options database spawnWorker handled ∧
      s.workers.length = W.driver.scheduler.workers.length ∧
      ∀ v, s.TimedOut startedBefore v → W.driver.scheduler.TimedOut startedBefore v := by
  have hinv := h.answerInv.inv
  rcases Scheduler.terminateIfLongRunning_cases startedBefore env.terminateAndRespawn hinv hw with
    ⟨-, hok⟩ | ⟨htimed, j, handle, hj, hok⟩
  · refine ⟨_, hok, fun v => Or.inl ⟨rfl, rfl⟩, ?_, rfl, fun _ hv => hv⟩
    have hsame : W.respawns W.driver.scheduler = W := by
      unfold World.respawns
      simp
    rwa [hsame]
  · have hstatus := hinv.statusOf_of_jobOf hj
    have hmoves := Scheduler.reassigns_terminated hstatus j handle
    have hterminate : W.driver.scheduler.terminateRunningWorker w
        (env.terminateAndRespawn · w) = .ok (W.driver.scheduler.terminated w j handle) := by
      obtain ⟨info, hinfo, hbusy, hstart⟩ := htimed
      rw [← hok, Scheduler.terminateIfLongRunning, hinfo]
      simp only [hbusy, hstart, if_true]
    refine ⟨_, hok, hmoves.drops, ?_, ?_, fun v hv => (Scheduler.timedOut_terminated hv).2⟩
    · have hstep : World.Reached env options database spawnWorker handled
          ((W.schedule (W.driver.scheduler.terminated w j handle) none).setWorker w .idle) :=
        h.next (.terminate hsending htimed hterminate) (hreceipt w htimed) rfl
      have hworld : (W.schedule (W.driver.scheduler.terminated w j handle) none).setWorker w .idle =
          W.respawns (W.driver.scheduler.terminated w j handle) := by
        unfold World.respawns World.setWorker World.schedule
        simp only [hsending, World.mk.injEq, and_true, true_and]
        funext v
        rw [hmoves.jobOf]
        by_cases hv : v = w
        · subst hv
          simp [hj]
        · simp [hv]
      rwa [← hworld]
    · exact List.length_set

/-- The termination loop. -/
theorem reached_terminateLongRunning {startedBefore : Instant} (ws : List WorkerId) :
    ∀ {W : World}, W.Reached env options database spawnWorker handled → W.sending = none →
      (∀ w, W.driver.scheduler.TimedOut startedBefore w → W.driverToWorker w = []) →
      (∀ w ∈ ws, w < W.driver.scheduler.workers.length) → ∀ {s : Scheduler},
      ws.foldlM (Scheduler.terminateIfLongRunning startedBefore env.terminateAndRespawn)
        W.driver.scheduler = .ok s →
      W.driver.scheduler.Drops s ∧
        (W.respawns s).Reached env options database spawnWorker handled := by
  induction ws with
  | nil =>
      intro W h hsending _ _ s hok
      obtain rfl : W.driver.scheduler = s := Except.ok.inj hok
      have hsame : W.respawns W.driver.scheduler = W := by
        unfold World.respawns
        simp
      exact ⟨fun v => Or.inl ⟨rfl, rfl⟩, hsame.symm ▸ h⟩
  | cons w ws ih =>
      intro W h hsending hreceipt hws s hok
      obtain ⟨hw, hws⟩ := List.forall_mem_cons.mp hws
      obtain ⟨s₁, hround, hdrops, hreached, hlength, htimed⟩ :=
        reached_terminateIfLongRunning h hsending hreceipt hw
      rw [List.foldlM_cons, hround] at hok
      obtain ⟨hrest, hend⟩ := ih hreached hsending (fun v hv => hreceipt v (htimed v hv))
        (fun v hv => (hws v hv).trans_eq hlength.symm) hok
      exact ⟨hdrops.trans hrest, World.respawns_respawns hdrops hrest ▸ hend⟩

/-! ### Responses -/

/-- A response has been handled, and the request that follows it has arrived. -/
theorem reached_respond (h : W.Reached env options database spawnWorker handled)
    (hsending : W.sending = none) {response : IndexJobResponse} {rest : List IndexJobResponse}
    (hqueue : W.workerToDriver = response :: rest) {driver : Driver}
    (hok : W.driver.processWorkerResponse (accepting env) response = .ok driver) :
    World.Reached env options database spawnWorker (handled ++ [response])
      { W.sends driver.scheduler with driver, workerToDriver := rest } := by
  have hmem : response ∈ W.workerToDriver := by simp [hqueue]
  have hread : W.read .respond = [response] := by
    rw [World.read, hqueue]
    rfl
  have hhandled : World.Reached env options database spawnWorker (handled ++ [response])
      { W with
        driver
        workerToDriver := rest
        sending := World.followUp W.driver driver response } := by
    have hnext : World.Reached env options database spawnWorker (handled ++ W.read .respond) _ :=
      h.step (step_logged trivial (.respond hsending hqueue hok))
    rwa [hread] at hnext
  -- without a follow-up nothing is sent
  have hnothing : World.followUp W.driver driver response = none →
      (∀ w, W.driver.scheduler.sentTo driver.scheduler w = []) →
      World.Reached env options database spawnWorker (handled ++ [response])
        { W.sends driver.scheduler with driver, workerToDriver := rest } := by
    intro hnone hnil
    rw [World.sends_of_nil hsending hnil]
    rwa [hnone] at hhandled
  rcases Driver.processWorkerResponse_cases (fun _ => rfl) hok with
    ⟨hdead, rfl⟩ | ⟨hlive, hsema, planner, files, now, rfl⟩ | ⟨hlive, hemit, statistics, rfl⟩
  · have hkeeps : W.driver.scheduler.Keeps { W.driver.scheduler with
        maybeErroredJobs := W.driver.scheduler.maybeErroredJobs.erase response.jobId } :=
      .of_workers rfl
    exact hnothing (by simp [World.followUp, hdead]) hkeeps.sentTo
  · have hmoves := Scheduler.reassigns_analysed hlive (Driver.emitJob files) now
    have hnew : W.driver.scheduler.jobOf response.workerId ≠ some response.jobId.nextSubtask := by
      intro hnext
      exact h.answerInv.known_of_jobOf hnext (h.answerInv.nextSubtask_unknown hmem hlive hsema)
    have hsends := World.sends_of_single hsending (hmoves.sentTo_some hnew)
    rw [hsends]
    rw [World.followUp, if_pos ⟨hlive, hsema⟩] at hhandled
    exact hhandled.delivered rfl
  · have hmoves := Scheduler.reassigns_markCompleted hlive
    exact hnothing (by simp [World.followUp, hemit]) hmoves.drops.sentTo

end Reached

/-! ## The loop among its workers -/

/-- The loop of the driver, the queues and the workers. -/
structure LoopWorld where
  loop : LoopState
  driverToWorker : WorkerId → List IndexJobRequest
  workerToDriver : List IndexJobResponse
  worker : WorkerId → WorkerState

namespace LoopWorld

/-- What the protocol sees.  It does not say where the commands come from, so its driver keeps the
parser that it began with. -/
def world (L : LoopWorld) (compdbParser : ResumableParser) : World where
  driver := { L.loop.driver with compdbParser }
  driverToWorker := L.driverToWorker
  workerToDriver := L.workerToDriver
  worker := L.worker
  sending := none

/-- The loop has gone on, and its requests have arrived. -/
def after (L : LoopWorld) (loop : LoopState) : LoopWorld :=
  { L with
    loop
    driverToWorker := fun w =>
      L.driverToWorker w ++ L.loop.driver.scheduler.sentTo loop.driver.scheduler w }

end LoopWorld

/-- The step is one of a worker. -/
def ProtocolLabel.OfWorker : ProtocolLabel → Prop
  | .dequeue _ => True
  | .finishAnalysis _ _ => True
  | .finishEmit _ _ => True
  | .exit _ => True
  | _ => False

/-- The loop takes a step, or a worker does. -/
inductive LoopWorldLabel where
  | loop (l : LoopLabel)
  | worker (l : ProtocolLabel)

/-- One step of the loop or of a worker.  The loop reads the first response in its queue, and
respawns the workers that it has terminated. -/
inductive LoopWorldStep (env : DriverEnv) : LoopWorld → LoopWorldLabel → LoopWorld → Prop
  | top {L : LoopWorld} :
      L.loop.phase = .top →
      LoopWorldStep env L (.loop .top) (L.after (L.loop.loopTop env))
  | respond {L : LoopWorld} {response : IndexJobResponse} {rest : List IndexJobResponse}
      {driver : Driver} :
      L.loop.phase = .receiving → L.workerToDriver = response :: rest →
      L.loop.driver.processWorkerResponse env response = .ok driver →
      LoopWorldStep env L (.loop (.respond response))
        { L.after { L.loop with
            driver
            handled := L.loop.handled ++
              [LoopState.logEntry L.loop.driver driver response] } with
          workerToDriver := rest }
  | terminate {L : LoopWorld} {startedBefore : Instant} {driver : Driver} :
      L.loop.phase = .receiving →
      L.loop.driver.terminateLongRunningWorkersAndRespawn env startedBefore = .ok driver →
      LoopWorldStep env L (.loop (.terminate startedBefore))
        { L.after { L.loop with driver, phase := .top } with
          worker := fun w =>
            if driver.scheduler.jobOf w = L.loop.driver.scheduler.jobOf w then L.worker w
            else .idle }
  | worker {L : LoopWorld} {l : ProtocolLabel} {W : World} :
      l.OfWorker → ProtocolStep env (L.world L.loop.driver.compdbParser) l W →
      LoopWorldStep env L (.worker l)
        { L with
          driverToWorker := W.driverToWorker
          workerToDriver := W.workerToDriver
          worker := W.worker }

/-- The scheduling loop of a driver for a compilation database, with its workers. -/
def loopAmongWorkers (env : DriverEnv) (options : DriverOptions) (database : CompilationDatabase)
    (spawnWorker : WorkerId → Process) : TransitionSystem LoopWorld LoopWorldLabel where
  init L := (driverLoop env options database spawnWorker).init L.loop ∧
    L.driverToWorker = (fun _ => []) ∧ L.workerToDriver = [] ∧ L.worker = fun _ => .idle
  step := LoopWorldStep env

/-- The loop terminates workers only after they have taken their requests. -/
def LoopWorld.TerminatesAfterReceipt (L : LoopWorld) : LoopWorldLabel → Prop
  | .loop .top => True
  | .loop (.respond _) => True
  | .loop (.terminate startedBefore) =>
      ∀ w, L.loop.driver.scheduler.TimedOut startedBefore w → L.driverToWorker w = []
  | .worker _ => True

/-! ## Refinement -/

section Refinement

variable {env : DriverEnv} {options : DriverOptions} {database : CompilationDatabase}
  {spawnWorker : WorkerId → Process}

/-- The steps of a worker do not depend on the driver. -/
theorem ProtocolStep.setDriver {W W' : World} {l : ProtocolLabel} (hl : l.OfWorker)
    (hstep : ProtocolStep env W l W') (driver : Driver) :
    ProtocolStep env { W with driver } l { W' with driver } ∧ TerminatesAfterReceipt W l ∧
      W.read l = [] ∧ W'.sending = W.sending := by
  cases hstep with
  | dequeue hwaiting hqueue => exact ⟨.dequeue hwaiting hqueue, trivial, rfl, rfl⟩
  | finishAnalysis hstate => exact ⟨.finishAnalysis hstate, trivial, rfl, rfl⟩
  | finishEmit hstate => exact ⟨.finishEmit hstate, trivial, rfl, rfl⟩
  | exit => exact ⟨.exit, trivial, rfl, rfl⟩
  | queue => cases hl
  | assign => cases hl
  | deliver => cases hl
  | sendFailed => cases hl
  | respond => cases hl
  | terminate => cases hl
  | shutdown => cases hl

/-- Handling a response does not depend on the parser. -/
theorem Driver.processWorkerResponse_setParser {driver driver' : Driver}
    {response : IndexJobResponse} (compdbParser : ResumableParser)
    (hok : driver.processWorkerResponse env response = .ok driver') :
    Driver.processWorkerResponse env { driver with compdbParser } response =
      .ok { driver' with compdbParser } := by
  have hok' := processWorkerResponse_accepting hok
  by_cases hlive : driver.scheduler.jobOf response.workerId = some response.jobId
  · cases hkind : response.result.kind with
    | SemanticAnalysis =>
        cases hsend : env.send.sendOk response.jobId.nextSubtask with
        | true =>
            simp only [processWorkerResponse, Scheduler.markCompleted, hlive, if_true, hkind, hsend,
              Except.ok.injEq] at hok ⊢
            rw [← hok]
        | false => exact absurd hok (processWorkerResponse_ne_ok hlive hkind hsend driver')
    | EmitIndex =>
        simp only [processWorkerResponse, Scheduler.markCompleted, hlive, if_true, hkind,
          Except.ok.injEq] at hok ⊢
        rw [← hok]
  · simp only [processWorkerResponse, Scheduler.markCompleted, hlive, if_false,
      Except.ok.injEq] at hok ⊢
    rw [← hok]

/-- The loop begins with a refill. -/
theorem LoopState.eq_refill_of_start {st : LoopState}
    (h : LoopState.start env options database spawnWorker = some st) :
    st = LoopState.refill env
      { driver := .openCompilationDatabase options database spawnWorker
        refillCount := 0, phase := .top, queued := [], handled := [] } := by
  simp only [LoopState.start] at h
  split at h
  · cases h
  · exact (Option.some.inj h).symm

variable (env options database spawnWorker) in
/-- The protocol can get to where the loop and its workers are, and so can the loop on its own. -/
structure LoopWorldInv (L : LoopWorld) : Prop where
  reached : (L.world { unread := database.commands }).Reached env options database spawnWorker
    (L.loop.handled.map Handled.response)
  loop : (driverLoop env options database spawnWorker).Reachable L.loop

namespace LoopWorldInv

variable {L L' : LoopWorld}

theorem loopInv (h : LoopWorldInv env options database spawnWorker L) :
    LoopInv env (databaseCommands env options database) L.loop :=
  h.loop.invariant (I := LoopInv env (databaseCommands env options database))
    (fun _ hinit => LoopInv.start hinit) fun _ _ _ hinv hstep =>
      hinv.step_anySends (distinctJobs_databaseCommands env options database) hstep

/-- An iteration of the loop, as what the driver of the protocol brings about. -/
theorem drives_loopTop (h : LoopWorldInv env options database spawnWorker L) :
    Drives env options database spawnWorker (L.loop.handled.map Handled.response)
      (L.world { unread := database.commands }) (L.loop.loopTop env).driver.scheduler := by
  by_cases hexit : L.loop.driver.scheduler.pendingJobs = [] ∧ L.loop.driver.scheduler.wipJobs = ∅
  · rw [LoopState.loopTop_of_exit hexit]
    exact drives_shutdownIdleWorkers h.reached rfl
  · rw [LoopState.loopTop_of_not_exit hexit]
    by_cases hrefills : L.loop.driver.scheduler.pendingJobs = [] ∧ L.loop.refillCount ≠ 0
    · have hrefilled := drives_refill h.reached rfl
        (h.loopInv.fresh_refill (distinctJobs_databaseCommands env options database))
      rw [LoopState.refilled, if_pos hrefills]
      exact hrefilled.trans (drives_assignOrShutdown hrefilled.reached rfl)
    · rw [LoopState.refilled, if_neg hrefills]
      exact drives_assignOrShutdown h.reached rfl

theorem top (h : LoopWorldInv env options database spawnWorker L) (hphase : L.loop.phase = .top) :
    LoopWorldInv env options database spawnWorker (L.after (L.loop.loopTop env)) := by
  refine ⟨?_, h.loop.step (.top hphase)⟩
  have hworld : (L.after (L.loop.loopTop env)).world { unread := database.commands } =
      (L.world { unread := database.commands }).sends (L.loop.loopTop env).driver.scheduler := by
    unfold LoopState.loopTop
    split
    · rfl
    · split <;> rfl
  rw [hworld, show (L.after (L.loop.loopTop env)).loop.handled = L.loop.handled from
    handled_loopTop]
  exact h.drives_loopTop.reached

/-- The responses of the workers are those that the loop expects. -/
theorem expects (h : LoopWorldInv env options database spawnWorker L) {response : IndexJobResponse}
    (hmem : response ∈ L.workerToDriver) : L.loop.Expects response := by
  refine ⟨h.reached.answerInv.valid response hmem, fun entry hentry heq => ?_⟩
  have hnodup := h.reached.answerInv.nodup
  rw [List.map_append, List.nodup_append] at hnodup
  exact hnodup.2.2 _ (List.mem_map_of_mem (List.mem_map_of_mem hentry)) _
    (List.mem_map_of_mem hmem) heq

theorem respond (h : LoopWorldInv env options database spawnWorker L)
    (hphase : L.loop.phase = .receiving) {response : IndexJobResponse}
    {rest : List IndexJobResponse} (hqueue : L.workerToDriver = response :: rest) {driver : Driver}
    (hok : L.loop.driver.processWorkerResponse env response = .ok driver) :
    LoopWorldInv env options database spawnWorker
      { L.after { L.loop with
          driver
          handled := L.loop.handled ++ [LoopState.logEntry L.loop.driver driver response] } with
        workerToDriver := rest } := by
  refine ⟨?_, h.loop.step (.respond hphase (h.expects (by simp [hqueue])) hok)⟩
  have hreached := reached_respond h.reached rfl hqueue
    (Driver.processWorkerResponse_accepting (Driver.processWorkerResponse_setParser _ hok))
  have hlog : (L.loop.handled ++ [LoopState.logEntry L.loop.driver driver response]).map
      Handled.response = L.loop.handled.map Handled.response ++ [response] := by
    simp [LoopState.logEntry]
  rw [← hlog] at hreached
  exact hreached

theorem terminate (h : LoopWorldInv env options database spawnWorker L)
    (hphase : L.loop.phase = .receiving) {startedBefore : Instant} {driver : Driver}
    (hok : L.loop.driver.terminateLongRunningWorkersAndRespawn env startedBefore = .ok driver)
    (hreceipt : ∀ w, L.loop.driver.scheduler.TimedOut startedBefore w → L.driverToWorker w = []) :
    LoopWorldInv env options database spawnWorker
      { L.after { L.loop with driver, phase := .top } with
        worker := fun w =>
          if driver.scheduler.jobOf w = L.loop.driver.scheduler.jobOf w then L.worker w
          else .idle } := by
  refine ⟨?_, h.loop.step (.terminate hphase hok)⟩
  rw [Driver.terminateLongRunningWorkersAndRespawn] at hok
  cases hround : L.loop.driver.scheduler.terminateLongRunningWorkersAndRespawn startedBefore
      env.terminateAndRespawn with
  | error e =>
      rw [hround] at hok
      cases hok
  | ok s =>
      rw [hround] at hok
      obtain rfl := Except.ok.inj hok
      obtain ⟨hdrops, hreached⟩ := reached_terminateLongRunning _ h.reached rfl hreceipt
        (fun w hw => List.mem_range.mp hw) hround
      have hqueues : (fun w => L.driverToWorker w ++ L.loop.driver.scheduler.sentTo s w) =
          L.driverToWorker := by
        funext w
        rw [show L.loop.driver.scheduler.sentTo s w = [] from hdrops.sentTo w, List.append_nil]
      unfold LoopWorld.after LoopWorld.world
      dsimp only
      rw [hqueues]
      exact hreached

theorem step (h : LoopWorldInv env options database spawnWorker L) {l : LoopWorldLabel}
    (hreceipt : L.TerminatesAfterReceipt l) (hstep : LoopWorldStep env L l L') :
    LoopWorldInv env options database spawnWorker L' := by
  cases hstep with
  | top hphase => exact h.top hphase
  | respond hphase hqueue hok => exact h.respond hphase hqueue hok
  | terminate hphase hok => exact h.terminate hphase hok hreceipt
  | @worker l W hl hstep =>
      refine ⟨?_, h.loop⟩
      obtain ⟨hstep', hreceipt', hread, hsending⟩ := hstep.setDriver hl
        { L.loop.driver with compdbParser := { unread := database.commands } }
      obtain ⟨driver, driverToWorker, workerToDriver, worker, sending⟩ := W
      obtain rfl : sending = none := hsending
      exact World.Reached.next h.reached hstep' hreceipt' hread

theorem init (h : (loopAmongWorkers env options database spawnWorker).init L) :
    LoopWorldInv env options database spawnWorker L := by
  obtain ⟨hinit, hdriver, hworker, hidle⟩ := h
  refine ⟨?_, _, [], hinit, .nil _⟩
  set W : World :=
    { driver := .openCompilationDatabase options database spawnWorker
      driverToWorker := fun _ => []
      workerToDriver := []
      worker := fun _ => .idle
      sending := none } with hW
  have hstart : W.Reached env options database spawnWorker [] := 
    ⟨(W, []), [], ⟨rfl, rfl⟩, .nil _⟩
  have hrefilled := drives_refill hstart rfl
    ((LoopInv.opened env options database spawnWorker).fresh_refill
      (distinctJobs_databaseCommands env options database))
  have hloop := LoopState.eq_refill_of_start hinit
  have hworld := hrefilled.reached
  rw [World.sends_of_nil rfl (Scheduler.keeps_foldl_queueSemaTask _).sentTo] at hworld
  obtain ⟨loop, driverToWorker, workerToDriver, worker⟩ := L
  subst hloop hdriver hworker hidle
  exact hworld

end LoopWorldInv

theorem loopWorldInv_of_reachable {L : LoopWorld}
    (hreach : ((loopAmongWorkers env options database spawnWorker).restrict
      LoopWorld.TerminatesAfterReceipt).Reachable L) :
    LoopWorldInv env options database spawnWorker L := by
  refine hreach.invariant (I := LoopWorldInv env options database spawnWorker) ?_ ?_
  · exact fun _ hinit => LoopWorldInv.init hinit
  · rintro L l L' h ⟨hreceipt, hstep⟩
    exact h.step hreceipt hstep

/-- **The loop among its workers refines the protocol.**  Sends may fail, workers may die at any
time, and the loop may terminate those that have taken their requests.  Wherever the loop and its
workers get, the protocol can get, with the same queues and the same workers; and the loop
on its own can get to where the loop is, because every response is one that it expects. -/
theorem reachable_of_loopAmongWorkers {L : LoopWorld}
    (hreach : ((loopAmongWorkers env options database spawnWorker).restrict
      LoopWorld.TerminatesAfterReceipt).Reachable L) :
    ((protocol env options database spawnWorker).restrict TerminatesAfterReceipt).Reachable
        (L.world { unread := database.commands }) ∧
      (driverLoop env options database spawnWorker).Reachable L.loop := by
  have h := loopWorldInv_of_reachable hreach
  refine ⟨?_, h.loop⟩
  -- the log of the responses is left behind
  refine TransitionSystem.Reachable.map (f := Prod.fst) ?_ ?_ h.reached
  · rintro ⟨W, handled⟩ ⟨hinit, -⟩
    exact hinit
  · rintro ⟨W, handled⟩ l ⟨W', handled'⟩ ⟨hreceipt, hstep, -⟩
    exact ⟨hreceipt, hstep⟩

end Refinement

/-- One translation unit is analysed and indexed by the only worker, and the loop has read both
responses. -/
theorem reachable_of_loopAmongWorkers_oneFile : ∃ L : LoopWorld,
    L.loop.handled.map (·.response.jobId) = [.newTask 0, (JobId.newTask 0).nextSubtask] ∧
      ((protocol succeedingEnv oneWorker oneFile id).restrict TerminatesAfterReceipt).Reachable
        (L.world { unread := oneFile.commands }) ∧
      (driverLoop succeedingEnv oneWorker oneFile id).Reachable L.loop := by
  have hinit : (loopAmongWorkers succeedingEnv oneWorker oneFile id).init
      { loop := .refill succeedingEnv
          { driver := .openCompilationDatabase oneWorker oneFile id
            refillCount := 0, phase := .top, queued := [], handled := [] }
        driverToWorker := fun _ => [], workerToDriver := [], worker := fun _ => .idle } :=
    ⟨rfl, rfl, rfl, rfl⟩
  have hreach : ∃ L : LoopWorld,
      ((loopAmongWorkers succeedingEnv oneWorker oneFile id).restrict
        LoopWorld.TerminatesAfterReceipt).Reachable L ∧
      L.loop.handled.map (·.response.jobId) = [.newTask 0, (JobId.newTask 0).nextSubtask] :=
    ⟨_, ⟨_, [.loop .top, .worker (.dequeue 0), .worker (.finishAnalysis 0 {}),
      .loop (.respond ⟨0, .newTask 0, { kind := .SemanticAnalysis }⟩), .worker (.dequeue 0),
      .worker (.finishEmit 0 {}),
      .loop (.respond ⟨0, (JobId.newTask 0).nextSubtask, { kind := .EmitIndex }⟩)], hinit,
      .cons ⟨trivial, .top rfl⟩ <|
      .cons ⟨trivial, .worker trivial (.dequeue trivial rfl)⟩ <|
      .cons ⟨trivial, .worker trivial (.finishAnalysis rfl)⟩ <|
      .cons ⟨trivial, .respond rfl rfl rfl⟩ <|
      .cons ⟨trivial, .worker trivial (.dequeue trivial rfl)⟩ <|
      .cons ⟨trivial, .worker trivial (.finishEmit rfl)⟩ <|
      .cons ⟨trivial, .respond rfl rfl rfl⟩ (.nil _)⟩, rfl⟩
  obtain ⟨L, hreach, hhandled⟩ := hreach
  exact ⟨L, hhandled, reachable_of_loopAmongWorkers hreach⟩

end ScipClang
