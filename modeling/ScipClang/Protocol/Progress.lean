import Mathlib.Algebra.BigOperators.Group.Finset.Basic
import ScipClang.Protocol.Answers

/-!
# The protocol gets done

A translation unit takes nine steps: its analysis is assigned, delivered, taken out of the queue,
finished and answered, and then the job that emits the index is delivered, taken, finished and
answered.  A worker takes three more steps to be shut down.  If no send fails and no worker exits
before it is told to, every step of the protocol is one of these, and as long as some are left,
one of them can be taken: no one waits for a message that is not on its way.

A run is calm if nothing fails, translation units are queued only before the first worker is shut
down, and workers are shut down only when no translation unit waits, as in the loop of the driver.

* `CalmInv.balance`: the steps of a calm run, and those that are left, add up.
* `done_of_calm`: every calm run is bounded, and ends only when every translation unit is indexed
  and every worker has been shut down.
-/

namespace ScipClang

/-! ## Calm runs -/

/-- Nothing fails, and workers are shut down when there is nothing left to do. -/
def Calm (W : World) : ProtocolLabel → Prop
  | .queue _ => W.driver.scheduler.stoppedWorkers = []
  | .shutdown => W.driver.scheduler.pendingJobs = []
  | .sendFailed => False
  | .terminate _ _ => False
  | .exit _ => False
  | _ => True

namespace ProtocolLabel

/-- The number of translation units that are queued in a step. -/
def queued : ProtocolLabel → Nat
  | queue _ => 1
  | _ => 0

end ProtocolLabel

namespace World

/-- The driver is about to send something to the worker. -/
def sendsTo (W : World) (w : WorkerId) : Bool := W.sending.any fun sending => sending.1 = w

/-- A response for the job awaits the driver. -/
def answered (W : World) (j : JobId) : Bool :=
  W.workerToDriver.any fun response => response.jobId = j

/-- The number of steps that follow a job. -/
def followingSteps (j : JobId) : Nat := if j.subtaskId = 0 then 4 + 3 else 3

/-- The number of steps until the worker is shut down, if it gets no further translation unit. -/
def remainingAt (W : World) (w : WorkerId) : Nat :=
  match W.driver.scheduler.jobOf w with
  | some j => followingSteps j +
      if W.sendsTo w then 4 else if W.driverToWorker w ≠ [] then 3
        else if W.answered j then 1 else 2
  | none =>
      if W.driver.scheduler.statusOf w = some .Stopped then
        if W.sendsTo w then 2 else if W.driverToWorker w ≠ [] then 1 else 0
      else 3

/-- The worker has a job. -/
def busyAt (W : World) (w : WorkerId) : Nat :=
  if (W.driver.scheduler.jobOf w).isSome then 1 else 0

/-- The number of steps that are left, for a number of workers. -/
def remaining (numWorkers : Nat) (W : World) : Nat :=
  9 * W.driver.scheduler.pendingJobs.length + ∑ w ∈ Finset.range numWorkers, W.remainingAt w

/-- The translation units that are indexed, waiting or being worked on. -/
def accounted (numWorkers : Nat) (W : World) : Nat :=
  W.driver.indexedSoFar + W.driver.scheduler.pendingJobs.length +
    ∑ w ∈ Finset.range numWorkers, W.busyAt w

/-- Everything has been done. -/
structure Done (numWorkers : Nat) (W : World) : Prop where
  pending : W.driver.scheduler.pendingJobs = []
  wip : W.driver.scheduler.wipJobs = ∅
  responses : W.workerToDriver = []
  sending : W.sending = none
  workers : ∀ w < numWorkers, W.driver.scheduler.statusOf w = some .Stopped ∧
    W.worker w = .exited ∧ W.driverToWorker w = []

variable {W W' : World} {w : WorkerId}

theorem sendsTo_iff : W.sendsTo w = true ↔ ∃ request, W.sending = some (w, request) := by
  unfold sendsTo
  rw [Option.any_eq_true]
  constructor
  · rintro ⟨⟨v, request⟩, hsending, heq⟩
    obtain rfl := of_decide_eq_true heq
    exact ⟨request, hsending⟩
  · rintro ⟨request, hsending⟩
    exact ⟨_, hsending, decide_eq_true rfl⟩

theorem answered_iff {j : JobId} : W.answered j = true ↔ W.Answered j := by
  unfold answered Answered
  simp only [List.any_eq_true, decide_eq_true_eq]

/-- Nothing is on its way to the worker. -/
theorem mail_eq_nil_iff : W.mail w = [] ↔ W.sendsTo w = false ∧ W.driverToWorker w = [] := by
  unfold mail sendsTo
  rw [List.append_eq_nil_iff, and_comm]
  refine and_congr_left fun _ => ?_
  cases W.sending with
  | none => simp
  | some sending =>
      by_cases h : sending.1 = w <;> simp [h]

/-- What follows a response goes to the worker that it came from. -/
theorem followUp_cases (driver driver' : Driver) (response : IndexJobResponse) :
    followUp driver driver' response = none ∨
      ∃ request, followUp driver driver' response = some (response.workerId, request) := by
  unfold followUp
  split
  · exact Or.inr ⟨_, rfl⟩
  · exact Or.inl rfl

/-- What a worker has left to do depends on what it and the driver know of it. -/
theorem remainingAt_congr (hjob : W'.driver.scheduler.jobOf w = W.driver.scheduler.jobOf w)
    (hstatus : W'.driver.scheduler.statusOf w = W.driver.scheduler.statusOf w)
    (hsends : W'.sendsTo w = W.sendsTo w) (hmail : W'.driverToWorker w = W.driverToWorker w)
    (hanswered : ∀ j, W.driver.scheduler.jobOf w = some j → (W'.Answered j ↔ W.Answered j)) :
    W'.remainingAt w = W.remainingAt w := by
  unfold remainingAt
  rw [hjob, hstatus, hsends, hmail]
  cases hcurrent : W.driver.scheduler.jobOf w with
  | none => rfl
  | some j =>
      have hans : W'.answered j = W.answered j := by
        rw [Bool.eq_iff_iff, answered_iff, answered_iff]
        exact hanswered j hcurrent
      dsimp only
      rw [hans]

section Stages

variable {j : JobId}

theorem remainingAt_sending (hj : W.driver.scheduler.jobOf w = some j)
    (hsends : W.sendsTo w = true) : W.remainingAt w = followingSteps j + 4 := by
  rw [remainingAt, hj]
  exact congrArg _ (if_pos hsends)

theorem remainingAt_mailed (hj : W.driver.scheduler.jobOf w = some j)
    (hsends : W.sendsTo w = false) (hmail : W.driverToWorker w ≠ []) :
    W.remainingAt w = followingSteps j + 3 := by
  rw [remainingAt, hj]
  simp [hsends, hmail]

theorem remainingAt_working (hj : W.driver.scheduler.jobOf w = some j) (hmail : W.mail w = [])
    (hnot : ¬ W.Answered j) : W.remainingAt w = followingSteps j + 2 := by
  obtain ⟨hsends, hqueue⟩ := mail_eq_nil_iff.mp hmail
  rw [← answered_iff] at hnot
  rw [remainingAt, hj]
  simp [hsends, hqueue, hnot]

theorem remainingAt_answered (hj : W.driver.scheduler.jobOf w = some j) (hmail : W.mail w = [])
    (hans : W.Answered j) : W.remainingAt w = followingSteps j + 1 := by
  obtain ⟨hsends, hqueue⟩ := mail_eq_nil_iff.mp hmail
  rw [← answered_iff] at hans
  rw [remainingAt, hj]
  simp [hsends, hqueue, hans]

theorem remainingAt_idle (hnone : W.driver.scheduler.jobOf w = none)
    (hstatus : W.driver.scheduler.statusOf w ≠ some .Stopped) : W.remainingAt w = 3 := by
  rw [remainingAt, hnone]
  exact if_neg hstatus

theorem remainingAt_stopping (hnone : W.driver.scheduler.jobOf w = none)
    (hstatus : W.driver.scheduler.statusOf w = some .Stopped) (hsends : W.sendsTo w = true) :
    W.remainingAt w = 2 := by
  rw [remainingAt, hnone]
  exact (if_pos hstatus).trans (if_pos hsends)

theorem remainingAt_stopping_mailed (hnone : W.driver.scheduler.jobOf w = none)
    (hstatus : W.driver.scheduler.statusOf w = some .Stopped) (hsends : W.sendsTo w = false)
    (hmail : W.driverToWorker w ≠ []) : W.remainingAt w = 1 := by
  rw [remainingAt, hnone]
  simp [hstatus, hsends, hmail]

theorem remainingAt_stopped (hnone : W.driver.scheduler.jobOf w = none)
    (hstatus : W.driver.scheduler.statusOf w = some .Stopped) (hmail : W.mail w = []) :
    W.remainingAt w = 0 := by
  obtain ⟨hsends, hqueue⟩ := mail_eq_nil_iff.mp hmail
  rw [remainingAt, hnone]
  simp [hstatus, hsends, hqueue]

theorem followingSteps_of_zero (h : j.subtaskId = 0) :
    followingSteps j = followingSteps j.nextSubtask + 4 := by
  have hone := JobId.nextSubtask_subtaskId_of_zero h
  simp [followingSteps, h, hone]

theorem followingSteps_of_one (h : j.subtaskId = 1) : followingSteps j = 3 := by
  simp [followingSteps, h]

end Stages

theorem busyAt_congr (hjob : W'.driver.scheduler.jobOf w = W.driver.scheduler.jobOf w) :
    W'.busyAt w = W.busyAt w := by
  unfold busyAt
  rw [hjob]

end World

namespace Scheduler

variable (numWorkers : Nat) (spawnWorker : WorkerId → Process) (w : WorkerId)

theorem statusOf_initializeWorkers :
    (initializeWorkers {} numWorkers spawnWorker).statusOf w =
      if w < numWorkers then some .Idle else none := by
  by_cases hw : w < numWorkers <;>
    simp [initializeWorkers, statusOf, WorkerInfo.ofProcess, hw]

theorem jobOf_initializeWorkers :
    (initializeWorkers {} numWorkers spawnWorker).jobOf w = none := by
  by_cases hw : w < numWorkers <;>
    simp [initializeWorkers, jobOf, WorkerInfo.ofProcess, hw]

end Scheduler

/-! ## The invariant -/

/-- What holds in calm runs only: all responses are from workers that live on, and a worker has
exited only if it was told to. -/
structure CalmInv (numWorkers : Nat) (W : World) : Prop extends ProtocolInv W where
  nodup : (W.workerToDriver.map IndexJobResponse.jobId).Nodup
  live : ∀ response ∈ W.workerToDriver,
    W.driver.scheduler.jobOf response.workerId = some response.jobId
  exited : ∀ w, W.worker w = .exited →
    W.driver.scheduler.statusOf w = some .Stopped ∧ W.mail w = []
  stopped : ∀ w, W.driver.scheduler.statusOf w = some .Stopped →
    W.driver.scheduler.pendingJobs = []
  workers : ∀ w, (W.driver.scheduler.statusOf w).isSome ↔ w < numWorkers

/-- One worker has got one step further, and the others have not moved. -/
structure Spends (numWorkers : Nat) (W W' : World) (w : WorkerId) : Prop where
  lt : w < numWorkers
  others : ∀ v, v ≠ w → W'.remainingAt v = W.remainingAt v ∧ W'.busyAt v = W.busyAt v
  steps : 9 * W'.driver.scheduler.pendingJobs.length + W'.remainingAt w + 1 =
    9 * W.driver.scheduler.pendingJobs.length + W.remainingAt w
  results : W'.driver.indexedSoFar + W'.driver.scheduler.pendingJobs.length + W'.busyAt w =
    W.driver.indexedSoFar + W.driver.scheduler.pendingJobs.length + W.busyAt w

/-- If only one summand changes, the sum changes by as much. -/
theorem sum_add_of_others {f f' : WorkerId → Nat} {numWorkers : Nat} {w : WorkerId}
    (hw : w < numWorkers) (hothers : ∀ v, v ≠ w → f' v = f v) :
    ∑ v ∈ Finset.range numWorkers, f' v + f w = ∑ v ∈ Finset.range numWorkers, f v + f' w := by
  have hmem : w ∈ Finset.range numWorkers := Finset.mem_range.mpr hw
  have hrest : ∑ v ∈ (Finset.range numWorkers).erase w, f' v =
      ∑ v ∈ (Finset.range numWorkers).erase w, f v :=
    Finset.sum_congr rfl fun v hv => hothers v (Finset.ne_of_mem_erase hv)
  have hsum : f w + ∑ v ∈ (Finset.range numWorkers).erase w, f v =
      ∑ v ∈ Finset.range numWorkers, f v := Finset.add_sum_erase _ f hmem
  have hsum' : f' w + ∑ v ∈ (Finset.range numWorkers).erase w, f' v =
      ∑ v ∈ Finset.range numWorkers, f' v := Finset.add_sum_erase _ f' hmem
  omega

theorem Spends.remaining {numWorkers : Nat} {W W' : World} {w : WorkerId}
    (h : Spends numWorkers W W' w) : W'.remaining numWorkers + 1 = W.remaining numWorkers := by
  have hsum := sum_add_of_others h.lt fun v hv => (h.others v hv).1
  have hsteps := h.steps
  unfold World.remaining
  omega

theorem Spends.accounted {numWorkers : Nat} {W W' : World} {w : WorkerId}
    (h : Spends numWorkers W W' w) : W'.accounted numWorkers = W.accounted numWorkers := by
  have hsum := sum_add_of_others h.lt fun v hv => (h.others v hv).2
  have hresults := h.results
  unfold World.accounted
  omega

namespace CalmInv

variable {numWorkers : Nat} {W : World}

theorem lt_of_statusOf (h : CalmInv numWorkers W) {w : WorkerId} {status : WorkerStatus}
    (hstatus : W.driver.scheduler.statusOf w = some status) : w < numWorkers :=
  (h.workers w).mp (by rw [hstatus]; rfl)

theorem lt_of_jobOf (h : CalmInv numWorkers W) {w : WorkerId} {j : JobId}
    (hj : W.driver.scheduler.jobOf w = some j) : w < numWorkers :=
  h.lt_of_statusOf (h.inv.statusOf_of_jobOf hj)

/-- A worker that has a job has not exited. -/
theorem not_exited (h : CalmInv numWorkers W) {w : WorkerId} {j : JobId}
    (hj : W.driver.scheduler.jobOf w = some j) : W.worker w ≠ .exited := by
  intro hexited
  have hstopped := (h.exited w hexited).1
  rw [h.inv.statusOf_of_jobOf hj] at hstopped
  cases hstopped

/-! ### What a step pays -/

theorem spends_assign (h : CalmInv numWorkers W) (hsending : W.sending = none) {j : JobId}
    {pending : List JobId} (hpending : W.driver.scheduler.pendingJobs = j :: pending)
    {w : WorkerId} {idle : List WorkerId} (hidle : W.driver.scheduler.idleWorkers = w :: idle)
    (now : Instant) (request : IndexJobRequest) :
    Spends numWorkers W
      (W.schedule (W.driver.scheduler.assigned j pending w idle now) (some (w, request))) w := by
  set W' := W.schedule (W.driver.scheduler.assigned j pending w idle now) (some (w, request))
    with hW'
  have hstatus : W.driver.scheduler.statusOf w = some .Idle :=
    (h.inv.mem_idle w).mp (by simp [hidle])
  have hreassigns : W.driver.scheduler.Reassigns W'.driver.scheduler w (some j) .Busy :=
    Scheduler.reassigns_assigned hstatus pending idle now
  obtain ⟨hnone, -, -⟩ := h.resting_of_idle hstatus
  have hsub : j.subtaskId = 0 := by
    obtain ⟨t, ht, -, hkind⟩ := h.inv.pending_unassigned j (by simp [hpending])
    exact Scheduler.subtaskId_of_sema h.inv ht hkind
  have hjob : W'.driver.scheduler.jobOf w = some j := (hreassigns.jobOf w).trans (if_pos rfl)
  have hlength : W'.driver.scheduler.pendingJobs = pending := rfl
  have hindexed : W'.driver.indexedSoFar = W.driver.indexedSoFar := rfl
  refine ⟨h.lt_of_statusOf hstatus, fun v hv => ⟨?_, ?_⟩, ?_, ?_⟩
  · refine World.remainingAt_congr ((hreassigns.jobOf v).trans (if_neg hv))
      ((hreassigns.statusOf v).trans (if_neg hv)) ?_ rfl fun _ _ => Iff.rfl
    simp [hW', World.sendsTo, World.schedule, hsending, Ne.symm hv]
  · exact World.busyAt_congr ((hreassigns.jobOf v).trans (if_neg hv))
  · rw [World.remainingAt_sending hjob (World.sendsTo_iff.mpr ⟨request, rfl⟩),
      World.remainingAt_idle hnone (by simp [hstatus]), hlength, hpending, List.length_cons,
      World.followingSteps_of_zero hsub,
      World.followingSteps_of_one (JobId.nextSubtask_subtaskId_of_zero hsub)]
    omega
  · rw [World.busyAt, World.busyAt, hjob, hnone, hlength, hpending, hindexed, List.length_cons]
    simp only [Option.isSome_some, Option.isSome_none, if_true, Bool.false_eq_true, if_false]
    omega

/-- The worker whose request is being sent has a job or has been stopped, and its queue is empty. -/
theorem spends_deliver (h : CalmInv numWorkers W) {w : WorkerId} {request : IndexJobRequest}
    (hsending : W.sending = some (w, request)) :
    Spends numWorkers W
      { W with
        driverToWorker := Function.update W.driverToWorker w (W.driverToWorker w ++ [request])
        sending := none } w := by
  set W' : World := { W with
    driverToWorker := Function.update W.driverToWorker w (W.driverToWorker w ++ [request])
    sending := none } with hW'
  have hempty := (h.sending_cases hsending).1
  have hmail : W.mail w = [request] := by simp [World.mail, hsending, hempty]
  have hsends : W.sendsTo w = true := World.sendsTo_iff.mpr ⟨request, hsending⟩
  have hmailed : W'.driverToWorker w ≠ [] := by simp [hW']
  refine ⟨?_, fun v hv => ⟨World.remainingAt_congr rfl rfl ?_ ?_ fun _ _ => Iff.rfl, rfl⟩, ?_, rfl⟩
  · cases h.agrees w with
    | idle _ _ hnil _ => simp [hmail] at hnil
    | stopping _ hst _ _ => exact h.lt_of_statusOf hst
    | stopped _ _ hnil _ => simp [hmail] at hnil
    | requested hj _ _ _ => exact h.lt_of_jobOf hj
    | working _ hnil _ _ => simp [hmail] at hnil
    | done _ hnil _ _ => simp [hmail] at hnil
  · simp [hW', World.sendsTo, hsending, Ne.symm hv]
  · exact Function.update_of_ne hv _ _
  · cases h.agrees w with
    | idle _ _ hnil _ => simp [hmail] at hnil
    | stopping hnone hst _ _ =>
        rw [World.remainingAt_stopping hnone hst hsends,
          @World.remainingAt_stopping_mailed W' w hnone hst rfl hmailed]
    | stopped _ _ hnil _ => simp [hmail] at hnil
    | @requested j hj _ _ _ =>
        rw [World.remainingAt_sending hj hsends, @World.remainingAt_mailed W' w j hj rfl hmailed]
        rfl
    | working _ hnil _ _ => simp [hmail] at hnil
    | done _ hnil _ _ => simp [hmail] at hnil

theorem spends_shutdown (h : CalmInv numWorkers W) (hsending : W.sending = none) {w : WorkerId}
    {idle : List WorkerId} (hidle : W.driver.scheduler.idleWorkers = idle ++ [w]) :
    Spends numWorkers W
      (W.schedule (W.driver.scheduler.shutdownLastIdle w) (some (w, shutdownRequest))) w := by
  set W' := W.schedule (W.driver.scheduler.shutdownLastIdle w) (some (w, shutdownRequest)) with hW'
  have hstatus : W.driver.scheduler.statusOf w = some .Idle :=
    (h.inv.mem_idle w).mp (by simp [hidle])
  obtain ⟨hnone, -, -⟩ := h.resting_of_idle hstatus
  have hreassigns : W.driver.scheduler.Reassigns W'.driver.scheduler w none .Stopped :=
    Scheduler.reassigns_shutdownLastIdle hstatus hnone
  have hjob : W'.driver.scheduler.jobOf w = none := (hreassigns.jobOf w).trans (if_pos rfl)
  have hstopped : W'.driver.scheduler.statusOf w = some .Stopped :=
    (hreassigns.statusOf w).trans (if_pos rfl)
  refine ⟨h.lt_of_statusOf hstatus, fun v hv => ⟨?_, ?_⟩, ?_, ?_⟩
  · refine World.remainingAt_congr ((hreassigns.jobOf v).trans (if_neg hv))
      ((hreassigns.statusOf v).trans (if_neg hv)) ?_ rfl fun _ _ => Iff.rfl
    simp [hW', World.sendsTo, World.schedule, hsending, Ne.symm hv]
  · exact World.busyAt_congr ((hreassigns.jobOf v).trans (if_neg hv))
  · rw [World.remainingAt_stopping hjob hstopped (World.sendsTo_iff.mpr ⟨shutdownRequest, rfl⟩),
      World.remainingAt_idle hnone (by simp [hstatus])]
    rfl
  · rw [World.busyAt_congr (hjob.trans hnone.symm)]
    rfl

theorem spends_dequeue (h : CalmInv numWorkers W) {w : WorkerId} {request : IndexJobRequest}
    {rest : List IndexJobRequest} (hqueue : W.driverToWorker w = request :: rest)
    (state : WorkerState) :
    Spends numWorkers W
      { W.setWorker w state with
        driverToWorker := Function.update W.driverToWorker w rest } w := by
  set W' : World := { W.setWorker w state with
    driverToWorker := Function.update W.driverToWorker w rest } with hW'
  have hcons : W.mail w = request :: W'.mail w := by
    simp [hW', World.mail, World.setWorker, hqueue]
  have hmailed : W.driverToWorker w ≠ [] := by simp [hqueue]
  -- there is one message, and nothing is being sent after it
  have hone : ∀ message, W.mail w = [message] → W'.mail w = [] := by
    intro message hmail
    rw [hcons, List.cons.injEq] at hmail
    exact hmail.2
  have hsends : W'.mail w = [] → W.sendsTo w = false := fun hmail =>
    (World.mail_eq_nil_iff.mp hmail).1
  refine ⟨?_, fun v hv => ⟨World.remainingAt_congr rfl rfl rfl (Function.update_of_ne hv _ _)
    fun _ _ => Iff.rfl, rfl⟩, ?_, rfl⟩
  · cases h.agrees w with
    | idle _ _ hnil _ => simp [hcons] at hnil
    | stopping _ hst _ _ => exact h.lt_of_statusOf hst
    | stopped _ _ hnil _ => simp [hcons] at hnil
    | requested hj _ _ _ => exact h.lt_of_jobOf hj
    | working _ hnil _ _ => simp [hcons] at hnil
    | done _ hnil _ _ => simp [hcons] at hnil
  · cases h.agrees w with
    | idle _ _ hnil _ => simp [hcons] at hnil
    | stopping hnone hst hmail _ =>
        have hnil := hone _ hmail
        rw [World.remainingAt_stopping_mailed hnone hst (hsends hnil) hmailed,
          @World.remainingAt_stopped W' w hnone hst hnil]
        rfl
    | stopped _ _ hnil _ => simp [hcons] at hnil
    | @requested j hj hmail hnot _ =>
        have hnil := hone _ hmail
        rw [World.remainingAt_mailed hj (hsends hnil) hmailed,
          @World.remainingAt_working W' w j hj hnil hnot]
        rfl
    | working _ hnil _ _ => simp [hcons] at hnil
    | done _ hnil _ _ => simp [hcons] at hnil

theorem spends_finish (h : CalmInv numWorkers W) {w : WorkerId} {j : JobId} {state : WorkerState}
    {response : IndexJobResponse} (hstate : W.worker w = .analysing j ∨ W.worker w = .emitting j)
    (hjob : response.jobId = j) :
    Spends numWorkers W
      { W.setWorker w state with workerToDriver := W.workerToDriver ++ [response] } w := by
  set W' : World := { W.setWorker w state with
    workerToDriver := W.workerToDriver ++ [response] } with hW'
  obtain ⟨hj, hmail, hnot, -⟩ := h.working_of_busy hstate
  have hans : W'.Answered j := ⟨response, by simp [hW'], hjob⟩
  refine ⟨h.lt_of_jobOf hj, fun v hv => ⟨World.remainingAt_congr rfl rfl rfl rfl fun k hk => ?_,
    rfl⟩, ?_, rfl⟩
  · have hne : j ≠ k := by
      rintro rfl
      exact hv (h.inv.jobOf_inj hk hj)
    simp only [hW', World.Answered, List.mem_append, List.mem_singleton]
    constructor
    · rintro ⟨r, hr | rfl, hrk⟩
      · exact ⟨r, hr, hrk⟩
      · exact absurd (hjob.symm.trans hrk) hne
    · rintro ⟨r, hr, hrk⟩
      exact ⟨r, Or.inl hr, hrk⟩
  · rw [World.remainingAt_working hj hmail hnot, @World.remainingAt_answered W' w j hj hmail hans]
    rfl

/-- Responses for other jobs are not touched when one is read. -/
theorem answered_rest_iff {W W' : World} {response : IndexJobResponse}
    {rest : List IndexJobResponse} (hqueue : W.workerToDriver = response :: rest)
    (hrest : W'.workerToDriver = rest) {k : JobId} (hne : response.jobId ≠ k) :
    W'.Answered k ↔ W.Answered k := by
  simp [World.Answered, hqueue, hrest, hne]

theorem spends_respond (h : CalmInv numWorkers W) {env : DriverEnv} (hsending : W.sending = none)
    {response : IndexJobResponse} {rest : List IndexJobResponse}
    (hqueue : W.workerToDriver = response :: rest) {driver : Driver}
    (hok : W.driver.processWorkerResponse (accepting env) response = .ok driver) :
    Spends numWorkers W
      { W with
        driver
        workerToDriver := rest
        sending := World.followUp W.driver driver response } response.workerId := by
  set W' : World := { W with
    driver
    workerToDriver := rest
    sending := World.followUp W.driver driver response } with hW'
  have hmem : response ∈ W.workerToDriver := by simp [hqueue]
  have hlive := h.live response hmem
  obtain ⟨hmail, -⟩ := h.done_of_response hmem hlive
  obtain ⟨t, ht, -, hkind⟩ := h.valid response hmem
  have hbefore := World.remainingAt_answered hlive hmail ⟨response, hmem, rfl⟩
  have hothers : ∀ v, v ≠ response.workerId → ∀ k, W.driver.scheduler.jobOf v = some k →
      (W'.Answered k ↔ W.Answered k) := by
    intro v hv k hk
    refine answered_rest_iff hqueue rfl ?_
    rintro rfl
    exact hv (h.inv.jobOf_inj hk hlive)
  have hsends : ∀ v, v ≠ response.workerId → W'.sendsTo v = W.sendsTo v := by
    intro v hv
    rcases World.followUp_cases W.driver driver response with hnone | ⟨request, hsome⟩
    · simp [hW', World.sendsTo, hsending, hnone]
    · simp [hW', World.sendsTo, hsending, hsome, Ne.symm hv]
  rcases Driver.processWorkerResponse_cases (fun _ => rfl) hok with
    ⟨hdead, -⟩ | ⟨-, hsema, planner, files, now, hdriver⟩ | ⟨-, hemit, statistics, hdriver⟩
  · exact absurd hlive hdead
  · -- the worker turns to the job that emits the index
    have hsub := Scheduler.subtaskId_of_sema h.inv ht (hkind.trans hsema)
    have hreassigns : W.driver.scheduler.Reassigns W'.driver.scheduler response.workerId
        (some response.jobId.nextSubtask) .Busy := by
      show W.driver.scheduler.Reassigns driver.scheduler _ _ _
      rw [hdriver]
      exact Scheduler.reassigns_analysed hlive _ now
    have hpending : W'.driver.scheduler.pendingJobs = W.driver.scheduler.pendingJobs := by
      show driver.scheduler.pendingJobs = _
      rw [hdriver]
      exact (Scheduler.jobs_analysed _ now hlive (h.nextSubtask_unknown hmem hlive hsema)).2.1
    have hindexed : W'.driver.indexedSoFar = W.driver.indexedSoFar := by
      show driver.indexedSoFar = _
      rw [hdriver]
    have hjob := (hreassigns.jobOf response.workerId).trans (if_pos rfl)
    refine ⟨h.lt_of_jobOf hlive, fun v hv => ⟨?_, ?_⟩, ?_, ?_⟩
    · exact World.remainingAt_congr ((hreassigns.jobOf v).trans (if_neg hv))
        ((hreassigns.statusOf v).trans (if_neg hv)) (hsends v hv) rfl (hothers v hv)
    · exact World.busyAt_congr ((hreassigns.jobOf v).trans (if_neg hv))
    · rw [hpending, hbefore, World.followingSteps_of_zero hsub,
        World.remainingAt_sending hjob (World.sendsTo_iff.mpr ⟨_, if_pos ⟨hlive, hsema⟩⟩)]
      rfl
    · rw [hpending, hindexed, World.busyAt, World.busyAt, hjob, hlive]
      rfl
  · -- the worker is done with the translation unit
    have hone : response.jobId.subtaskId = 1 := by
      rcases h.inv.shape _ t ht with ⟨hsema, -⟩ | ⟨-, hone⟩
      · rw [hkind, hemit] at hsema
        cases hsema
      · exact hone
    have hreassigns : W.driver.scheduler.Reassigns W'.driver.scheduler response.workerId none
        .Idle := by
      show W.driver.scheduler.Reassigns driver.scheduler _ _ _
      rw [hdriver]
      exact Scheduler.reassigns_markCompleted hlive
    have hpending : W'.driver.scheduler.pendingJobs = W.driver.scheduler.pendingJobs := by
      show driver.scheduler.pendingJobs = _
      rw [hdriver]
      simp only [Scheduler.markCompleted, hlive, if_true]
      rfl
    have hindexed : W'.driver.indexedSoFar = W.driver.indexedSoFar + 1 := by
      show driver.indexedSoFar = _
      rw [hdriver]
    have hjob := (hreassigns.jobOf response.workerId).trans (if_pos rfl)
    have hidle := (hreassigns.statusOf response.workerId).trans (if_pos rfl)
    refine ⟨h.lt_of_jobOf hlive, fun v hv => ⟨?_, ?_⟩, ?_, ?_⟩
    · exact World.remainingAt_congr ((hreassigns.jobOf v).trans (if_neg hv))
        ((hreassigns.statusOf v).trans (if_neg hv)) (hsends v hv) rfl (hothers v hv)
    · exact World.busyAt_congr ((hreassigns.jobOf v).trans (if_neg hv))
    · rw [hpending, hbefore, World.followingSteps_of_one hone,
        World.remainingAt_idle hjob (by simp [hidle])]
    · rw [hpending, hindexed, World.busyAt, World.busyAt, hjob, hlive]
      simp only [Option.isSome_some, Option.isSome_none, if_true, Bool.false_eq_true, if_false]
      omega

/-! ### The step lemma -/

/-- A step that leaves status and jobs of all workers alone. -/
theorem of_keeps (h : CalmInv numWorkers W) {W' : World} (hinv : ProtocolInv W')
    (hkeeps : W.driver.scheduler.Keeps W'.driver.scheduler)
    (hnodup : (W'.workerToDriver.map IndexJobResponse.jobId).Nodup)
    (hlive : ∀ response ∈ W'.workerToDriver,
      W.driver.scheduler.jobOf response.workerId = some response.jobId)
    (hexited : ∀ w, W'.worker w = .exited →
      W.driver.scheduler.statusOf w = some .Stopped ∧ W'.mail w = [])
    (hpending : ∀ w, W.driver.scheduler.statusOf w = some .Stopped →
      W'.driver.scheduler.pendingJobs = []) : CalmInv numWorkers W' where
  toProtocolInv := hinv
  nodup := hnodup
  live response hmem := (congrFun hkeeps.jobOf _).trans (hlive response hmem)
  exited w hw := ⟨(congrFun hkeeps.statusOf w).trans (hexited w hw).1, (hexited w hw).2⟩
  stopped w hw := hpending w ((congrFun hkeeps.statusOf w).symm.trans hw)
  workers w := by
    rw [hkeeps.statusOf]
    exact h.workers w

/-- A step that gives one worker another status and another job. -/
theorem of_reassigns (h : CalmInv numWorkers W) {W' : World} (hinv : ProtocolInv W')
    {w : WorkerId} {job : Option JobId} {before after : WorkerStatus}
    (hbefore : W.driver.scheduler.statusOf w = some before) (hne : before ≠ .Stopped)
    (hreassigns : W.driver.scheduler.Reassigns W'.driver.scheduler w job after)
    (hworker : W'.worker = W.worker) (hmail : ∀ v, v ≠ w → W'.mail v = W.mail v)
    (hnodup : (W'.workerToDriver.map IndexJobResponse.jobId).Nodup)
    (hlive : ∀ response ∈ W'.workerToDriver, response.workerId ≠ w ∧
      W.driver.scheduler.jobOf response.workerId = some response.jobId)
    (hpending : W.driver.scheduler.pendingJobs = [] → W'.driver.scheduler.pendingJobs = [])
    (hafter : after = .Stopped → W'.driver.scheduler.pendingJobs = []) :
    CalmInv numWorkers W' where
  toProtocolInv := hinv
  nodup := hnodup
  live response hmem := by
    obtain ⟨hv, hjob⟩ := hlive response hmem
    exact (hreassigns.jobOf _).trans ((if_neg hv).trans hjob)
  exited v hv := by
    obtain ⟨hstatus, hnil⟩ := h.exited v (hworker ▸ hv)
    have hvw : v ≠ w := by
      rintro rfl
      exact hne (Option.some.inj (hbefore.symm.trans hstatus))
    exact ⟨(hreassigns.statusOf v).trans ((if_neg hvw).trans hstatus), (hmail v hvw).trans hnil⟩
  stopped v hv := by
    rw [hreassigns.statusOf] at hv
    split at hv
    · exact hafter (Option.some.inj hv)
    · exact hpending (h.stopped v hv)
  workers v := by
    rw [hreassigns.statusOf, ← h.workers v]
    split
    · next heq => rw [heq, hbefore]; rfl
    · rfl

theorem of_respond (h : CalmInv numWorkers W) {env : DriverEnv} (hsending : W.sending = none)
    {response : IndexJobResponse} {rest : List IndexJobResponse}
    (hqueue : W.workerToDriver = response :: rest) {driver : Driver}
    (hok : W.driver.processWorkerResponse (accepting env) response = .ok driver) :
    CalmInv numWorkers
      { W with
        driver
        workerToDriver := rest
        sending := World.followUp W.driver driver response } := by
  set W' : World := { W with
    driver
    workerToDriver := rest
    sending := World.followUp W.driver driver response } with hW'
  have hmem : response ∈ W.workerToDriver := by simp [hqueue]
  have hinv : ProtocolInv W' := h.respond hsending hqueue hok
  have hlive := h.live response hmem
  have hbusy := h.inv.statusOf_of_jobOf hlive
  have hnodup := h.nodup
  rw [hqueue, List.map_cons, List.nodup_cons] at hnodup
  -- the other responses are from other workers
  have hrest : ∀ other ∈ W'.workerToDriver, other.workerId ≠ response.workerId ∧
      W.driver.scheduler.jobOf other.workerId = some other.jobId := by
    intro other hother
    have hjob := h.live other (by rw [hqueue]; exact List.mem_cons_of_mem _ hother)
    refine ⟨fun heq => hnodup.1 ?_, hjob⟩
    rw [heq, hlive, Option.some.injEq] at hjob
    exact hjob ▸ List.mem_map_of_mem hother
  have hmail : ∀ v, v ≠ response.workerId → W'.mail v = W.mail v := by
    intro v hv
    rcases World.followUp_cases W.driver driver response with hnone | ⟨request, hsome⟩
    · simp [hW', World.mail, hsending, hnone]
    · simp [hW', World.mail, hsending, hsome, Ne.symm hv]
  rcases Driver.processWorkerResponse_cases (fun _ => rfl) hok with
    ⟨hdead, -⟩ | ⟨-, hsema, planner, files, now, hdriver⟩ | ⟨-, hemit, statistics, hdriver⟩
  · exact absurd hlive hdead
  · have hreassigns : W.driver.scheduler.Reassigns W'.driver.scheduler response.workerId
        (some response.jobId.nextSubtask) .Busy := by
      show W.driver.scheduler.Reassigns driver.scheduler _ _ _
      rw [hdriver]
      exact Scheduler.reassigns_analysed hlive _ now
    refine h.of_reassigns hinv hbusy (by simp) hreassigns rfl hmail hnodup.2 hrest ?_
      (by simp)
    intro hpending
    show driver.scheduler.pendingJobs = []
    rw [hdriver]
    exact (Scheduler.jobs_analysed _ now hlive
      (h.nextSubtask_unknown hmem hlive hsema)).2.1.trans hpending
  · have hreassigns : W.driver.scheduler.Reassigns W'.driver.scheduler response.workerId none
        .Idle := by
      show W.driver.scheduler.Reassigns driver.scheduler _ _ _
      rw [hdriver]
      exact Scheduler.reassigns_markCompleted hlive
    refine h.of_reassigns hinv hbusy (by simp) hreassigns rfl hmail hnodup.2 hrest ?_
      (by simp)
    intro hpending
    show driver.scheduler.pendingJobs = []
    rw [hdriver]
    simp only [Scheduler.markCompleted, hlive, if_true]
    exact hpending

/-- The request for a job is not taken for the signal to shut down. -/
theorem ne_shutdown_of_jobOf {s : Scheduler} (h : s.Inv) {w : WorkerId} {j : JobId}
    (hj : s.jobOf w = some j) : (requestFor s j).id ≠ .Shutdown := by
  rintro hshutdown
  obtain rfl : j = .Shutdown := hshutdown
  rcases kind_requestFor h hj with ⟨hzero, -⟩ | ⟨hone, -⟩
  · exact absurd hzero (by decide)
  · exact absurd hone (by decide)

theorem receive_ne_exited {state : WorkerState} (hwaiting : state.Waiting)
    {request : IndexJobRequest} (hid : request.id ≠ .Shutdown) : state.receive request ≠ .exited := by
  cases state with
  | idle => simp [WorkerState.receive, hid]
  | awaiting j => simp [WorkerState.receive, hid]
  | analysing j => exact hwaiting.elim
  | emitting j => exact hwaiting.elim
  | exited => exact hwaiting.elim

/-- Workers that take a message exit if they are told to, and otherwise go to work. -/
theorem of_dequeue (h : CalmInv numWorkers W) {w : WorkerId} {request : IndexJobRequest}
    {rest : List IndexJobRequest} (hwaiting : (W.worker w).Waiting)
    (hqueue : W.driverToWorker w = request :: rest) :
    CalmInv numWorkers
      { W.setWorker w ((W.worker w).receive request) with
        driverToWorker := Function.update W.driverToWorker w rest } := by
  set W' : World := { W.setWorker w ((W.worker w).receive request) with
    driverToWorker := Function.update W.driverToWorker w rest } with hW'
  have hinv : ProtocolInv W' := h.dequeue hwaiting hqueue
  have hcons : W.mail w = request :: W'.mail w := by
    simp [hW', World.mail, World.setWorker, hqueue]
  refine h.of_keeps hinv (.of_workers rfl) h.nodup h.live (fun v hv => ?_) h.stopped
  by_cases hvw : v = w
  · subst hvw
    cases h.agrees v with
    | idle _ _ hnil _ => simp [hcons] at hnil
    | stopping hnone hst hmail _ =>
        rw [hcons, List.cons.injEq] at hmail
        exact ⟨hst, hmail.2⟩
    | stopped _ _ hnil _ => simp [hcons] at hnil
    | @requested j hj hmail _ _ =>
        rw [hcons, List.cons.injEq] at hmail
        exact absurd ((Function.update_self v _ W.worker).symm.trans hv)
          (receive_ne_exited hwaiting (hmail.1 ▸ ne_shutdown_of_jobOf h.inv hj))
    | working _ hnil _ _ => simp [hcons] at hnil
    | done _ hnil _ _ => simp [hcons] at hnil
  · have hold : W.worker v = .exited := by
      rw [← hv]
      simp [hW', World.setWorker, hvw]
    obtain ⟨hst, hnil⟩ := h.exited v hold
    refine ⟨hst, ?_⟩
    rw [← hnil]
    simp [hW', World.mail, World.setWorker, hvw]

/-- A worker that has finished waits for the next message. -/
theorem of_finish (h : CalmInv numWorkers W) {w : WorkerId} {j : JobId} {state : WorkerState}
    {response : IndexJobResponse} (hstate : W.worker w = .analysing j ∨ W.worker w = .emitting j)
    (hworker : response.workerId = w) (hjob : response.jobId = j) (hne : state ≠ .exited)
    (hinv : ProtocolInv { W.setWorker w state with
      workerToDriver := W.workerToDriver ++ [response] }) :
    CalmInv numWorkers
      { W.setWorker w state with workerToDriver := W.workerToDriver ++ [response] } := by
  obtain ⟨hj, -, hnot, -⟩ := h.working_of_busy hstate
  refine h.of_keeps hinv (.of_workers rfl) ?_ ?_ (fun v hv => ?_) h.stopped
  · rw [List.map_append, List.nodup_append]
    refine ⟨h.nodup, List.nodup_singleton _, ?_⟩
    rintro _ hold _ hnew rfl
    rw [List.map_singleton, List.mem_singleton, hjob] at hnew
    obtain ⟨other, hother, hsame⟩ := List.mem_map.mp hold
    exact hnot ⟨other, hother, hsame.trans hnew⟩
  · refine List.forall_mem_append.mpr ⟨h.live, List.forall_mem_singleton.mpr ?_⟩
    rw [hworker, hjob]
    exact hj
  · by_cases hvw : v = w
    · subst hvw
      exact absurd ((Function.update_self v _ W.worker).symm.trans hv) hne
    · exact h.exited v ((Function.update_of_ne hvw _ W.worker).symm.trans hv)

/-- The step lemma. -/
theorem step (h : CalmInv numWorkers W) {env : DriverEnv} {W' : World} {l : ProtocolLabel}
    (hcalm : Calm W l) (hstep : ProtocolStep env W l W') : CalmInv numWorkers W' := by
  have hinv : ProtocolInv W' := by
    refine h.toProtocolInv.step ?_ hstep
    cases l with
    | terminate => exact hcalm.elim
    | _ => trivial
  cases hstep with
  | sendFailed => exact hcalm.elim
  | terminate => exact hcalm.elim
  | exit => exact hcalm.elim
  | @queue cmdObject hsending hfresh =>
      have hmail : ∀ v, (W.schedule (W.driver.scheduler.queueSemaTask cmdObject) none).mail v =
          W.mail v := by
        intro v
        simp [World.mail, World.schedule, hsending]
      refine h.of_keeps hinv (Scheduler.keeps_queueSemaTask cmdObject) h.nodup h.live
        (fun v hv => ?_) fun v hv => ?_
      · rw [hmail]
        exact h.exited v hv
      · -- nothing is queued once a worker has been stopped
        have hmem := (h.inv.mem_stopped v).mpr hv
        rw [show W.driver.scheduler.stoppedWorkers = [] from hcalm] at hmem
        exact absurd hmem List.not_mem_nil
  | @assign now j pending w idle hsending hpending hidle =>
      have hstatus : W.driver.scheduler.statusOf w = some .Idle :=
        (h.inv.mem_idle w).mp (by simp [hidle])
      refine h.of_reassigns hinv hstatus (by simp)
        (Scheduler.reassigns_assigned hstatus pending idle now) rfl (fun v hv => ?_) h.nodup
        (fun response hmem => ⟨?_, h.live response hmem⟩) (fun hnil => ?_)
        (by simp)
      · simp [World.mail, World.schedule, hsending, Ne.symm hv]
      · rintro rfl
        have hnone := (h.resting_of_idle hstatus).1
        rw [h.live response hmem] at hnone
        cases hnone
      · rw [hpending] at hnil
        cases hnil
  | @deliver w request hsending _ =>
      refine h.of_keeps hinv (.of_workers rfl) h.nodup h.live (fun v hv => ?_) h.stopped
      obtain ⟨hst, hnil⟩ := h.exited v hv
      have hvw : w ≠ v := by
        rintro rfl
        simp [World.mail, hsending] at hnil
      refine ⟨hst, ?_⟩
      rw [← hnil]
      simp [World.mail, hsending, hvw, Ne.symm hvw]
  | @respond response rest driver hsending hqueue hok => exact h.of_respond hsending hqueue hok
  | @shutdown w idle hsending hidle =>
      have hstatus : W.driver.scheduler.statusOf w = some .Idle :=
        (h.inv.mem_idle w).mp (by simp [hidle])
      have hnone := (h.resting_of_idle hstatus).1
      refine h.of_reassigns hinv hstatus (by simp)
        (Scheduler.reassigns_shutdownLastIdle hstatus hnone) rfl (fun v hv => ?_) h.nodup
        (fun response hmem => ⟨?_, h.live response hmem⟩) (fun _ => hcalm) (fun _ => hcalm)
      · simp [World.mail, World.schedule, hsending, Ne.symm hv]
      · rintro rfl
        rw [h.live response hmem] at hnone
        cases hnone
  | dequeue hwaiting hqueue => exact h.of_dequeue hwaiting hqueue
  | @finishAnalysis w j semaResult hstate =>
      exact h.of_finish (Or.inl hstate) rfl rfl (by simp) hinv
  | @finishEmit w j emitResult hstate =>
      exact h.of_finish (Or.inr hstate) rfl rfl (by simp) hinv

theorem init (env : DriverEnv) {options : DriverOptions} {database : CompilationDatabase}
    {spawnWorker : WorkerId → Process}
    (h : (protocol env options database spawnWorker).init W) :
    CalmInv (min database.commands.length options.numWorkers) W := by
  have hinv := ProtocolInv.init env h
  have hW : W = _ := h
  subst hW
  have hstatus := Scheduler.statusOf_initializeWorkers
    (min database.commands.length options.numWorkers) spawnWorker
  refine ⟨hinv, List.nodup_nil, List.forall_mem_nil _, (fun w hw => nomatch hw), ?_, ?_⟩
  · intro w hw
    have hidle := (hstatus w).symm.trans hw
    split at hidle
    · cases hidle
    · cases hidle
  · intro w
    refine (iff_of_eq (congrArg (fun status => status.isSome = true) (hstatus w))).trans ?_
    split
    · next hw => exact iff_of_true rfl hw
    · next hw => exact iff_of_false Bool.false_ne_true hw

/-! ### Progress -/

/-- A response that awaits the driver can be read. -/
theorem exists_processWorkerResponse (env : DriverEnv) (driver : Driver)
    (response : IndexJobResponse) :
    ∃ driver', driver.processWorkerResponse (accepting env) response = .ok driver' := by
  unfold Driver.processWorkerResponse
  split
  · exact ⟨_, rfl⟩
  · split
    · exact ⟨_, if_pos rfl⟩
    · exact ⟨_, rfl⟩

/-- **No one waits in vain**: as long as something is left to do, some step can be taken that is
not failure, and it does not take another translation unit. -/
theorem progress (h : CalmInv numWorkers W) (hpos : 0 < numWorkers) (env : DriverEnv) :
    (∃ l W', l.queued = 0 ∧ Calm W l ∧ ProtocolStep env W l W') ∨ W.Done numWorkers := by
  cases hsending : W.sending with
  | some sending =>
      refine Or.inl ⟨.deliver, _, rfl, trivial, .deliver hsending ?_⟩
      rw [(h.sending_cases hsending).1]
      exact Nat.one_pos
  | none =>
  cases hqueue : W.workerToDriver with
  | cons response rest =>
      obtain ⟨driver, hok⟩ := exists_processWorkerResponse env W.driver response
      exact Or.inl ⟨.respond, _, rfl, trivial, .respond hsending hqueue hok⟩
  | nil =>
  have hanswered : ∀ j, ¬ W.Answered j := by
    rintro j ⟨response, hmem, -⟩
    rw [hqueue] at hmem
    exact List.not_mem_nil hmem
  have hmail : ∀ w, W.mail w = W.driverToWorker w := by
    intro w
    simp [World.mail, hsending]
  by_cases hwaiting : ∃ w, (W.worker w).Waiting ∧ W.driverToWorker w ≠ []
  · obtain ⟨w, hwaits, hne⟩ := hwaiting
    obtain ⟨request, rest, hcons⟩ := List.exists_cons_of_ne_nil hne
    exact Or.inl ⟨.dequeue w, _, rfl, trivial, .dequeue hwaits hcons⟩
  by_cases hworking : ∃ w j, W.worker w = .analysing j ∨ W.worker w = .emitting j
  · obtain ⟨w, j, hanalysing | hemitting⟩ := hworking
    · exact Or.inl ⟨.finishAnalysis w {}, _, rfl, trivial, .finishAnalysis hanalysing⟩
    · exact Or.inl ⟨.finishEmit w {}, _, rfl, trivial, .finishEmit hemitting⟩
  -- every worker rests or has been stopped
  have hrest : ∀ w, W.driver.scheduler.jobOf w = none ∧ W.driverToWorker w = [] ∧
      (W.driver.scheduler.statusOf w = some .Stopped → W.worker w = .exited) := by
    intro w
    cases h.agrees w with
    | idle hnone hst hnil _ => exact ⟨hnone, hmail w ▸ hnil, fun hstopped => absurd hstopped hst⟩
    | stopped hnone hst hnil hexited => exact ⟨hnone, hmail w ▸ hnil, fun _ => hexited⟩
    | stopping hnone hst hone hresting =>
        rcases hresting with hexited | hidle
        · exact absurd ((h.exited w hexited).2.symm.trans hone) (by simp)
        · refine absurd ⟨w, ?_, ?_⟩ hwaiting
          · rw [hidle]
            trivial
          · rw [← hmail, hone]
            exact List.cons_ne_nil _ _
    | @requested j hj hone _ hready =>
        refine absurd ⟨w, ?_, ?_⟩ hwaiting
        · rcases hready with hexited | ⟨-, hidle⟩ | ⟨i, -, -, hawaiting⟩
          · exact absurd hexited (h.not_exited hj)
          · rw [hidle]
            trivial
          · rw [hawaiting]
            trivial
        · rw [← hmail, hone]
          exact List.cons_ne_nil _ _
    | @working j hj _ _ hwork =>
        rcases hwork with hexited | ⟨-, hanalysing⟩ | ⟨-, hemitting⟩
        · exact absurd hexited (h.not_exited hj)
        · exact absurd ⟨w, j, Or.inl hanalysing⟩ hworking
        · exact absurd ⟨w, j, Or.inr hemitting⟩ hworking
    | done hj _ hans _ => exact absurd hans (hanswered _)
  by_cases hidle : W.driver.scheduler.idleWorkers = []
  · -- everyone has been stopped, and then nothing was waiting
    have hstopped : ∀ w < numWorkers, W.driver.scheduler.statusOf w = some .Stopped := by
      intro w hw
      obtain ⟨status, hstatus⟩ := Option.isSome_iff_exists.mp ((h.workers w).mpr hw)
      cases status with
      | Stopped => exact hstatus
      | Idle =>
          have hmem := (h.inv.mem_idle w).mpr hstatus
          rw [hidle] at hmem
          exact absurd hmem List.not_mem_nil
      | Busy =>
          obtain ⟨j, hj⟩ := (h.inv.busy_iff w).mp hstatus
          rw [(hrest w).1] at hj
          cases hj
    refine Or.inr ⟨h.stopped 0 (hstopped 0 hpos), ?_, hqueue, hsending, fun w hw =>
      ⟨hstopped w hw, (hrest w).2.2 (hstopped w hw), (hrest w).2.1⟩⟩
    rw [Finset.eq_empty_iff_forall_notMem]
    intro j hj
    obtain ⟨w, hw⟩ := (h.inv.mem_wip j).mp hj
    rw [(hrest w).1] at hw
    cases hw
  · cases hpending : W.driver.scheduler.pendingJobs with
    | cons j pending =>
        obtain ⟨w, idle, hcons⟩ := List.exists_cons_of_ne_nil hidle
        exact Or.inl ⟨.assign 0, _, rfl, trivial, .assign hsending hpending hcons⟩
    | nil =>
        obtain ⟨idle, w, hlast⟩ := (List.eq_nil_or_concat' _).resolve_left hidle
        exact Or.inl ⟨.shutdown, _, rfl, hpending, .shutdown hsending hlast⟩

end CalmInv

/-! ## Runs -/

/-- The translation units that are queued in a run. -/
def queuedIn (ls : List ProtocolLabel) : Nat := (ls.map ProtocolLabel.queued).sum

section Runs

variable {env : DriverEnv} {options : DriverOptions} {database : CompilationDatabase}
  {spawnWorker : WorkerId → Process} {numWorkers : Nat} {W W' : World} {l : ProtocolLabel}

/-- A step of a calm run queues a translation unit, or it is one of those that are left. -/
theorem CalmInv.balance_step (h : CalmInv numWorkers W) (hcalm : Calm W l)
    (hstep : ProtocolStep env W l W') :
    W'.remaining numWorkers + 1 = W.remaining numWorkers + 10 * l.queued ∧
      W'.accounted numWorkers = W.accounted numWorkers + l.queued := by
  have hspends : ∀ {w}, l.queued = 0 → Spends numWorkers W W' w →
      W'.remaining numWorkers + 1 = W.remaining numWorkers + 10 * l.queued ∧
        W'.accounted numWorkers = W.accounted numWorkers + l.queued := by
    intro w hnone hspends
    rw [hnone]
    exact ⟨hspends.remaining, hspends.accounted⟩
  cases hstep with
  | sendFailed => exact hcalm.elim
  | terminate => exact hcalm.elim
  | exit => exact hcalm.elim
  | @queue cmdObject hsending hfresh =>
      have hkeeps := @Scheduler.keeps_queueSemaTask W.driver.scheduler cmdObject
      have hlength : (W.driver.scheduler.queueSemaTask cmdObject).pendingJobs.length =
          W.driver.scheduler.pendingJobs.length + 1 := by
        simp [Scheduler.queueSemaTask, Scheduler.emplaceJob, hfresh]
      have hremaining : ∀ v, (W.schedule (W.driver.scheduler.queueSemaTask cmdObject)
          none).remainingAt v = W.remainingAt v := fun v =>
        World.remainingAt_congr (congrFun hkeeps.jobOf v) (congrFun hkeeps.statusOf v)
          (by simp [World.sendsTo, World.schedule, hsending]) rfl fun _ _ => Iff.rfl
      have hbusy : ∀ v, (W.schedule (W.driver.scheduler.queueSemaTask cmdObject)
          none).busyAt v = W.busyAt v := fun v => World.busyAt_congr (congrFun hkeeps.jobOf v)
      unfold World.remaining World.accounted
      simp only [hremaining, hbusy]
      dsimp only [World.schedule, ProtocolLabel.queued]
      rw [hlength]
      omega
  | @assign now j pending w idle hsending hpending hidle =>
      exact hspends rfl (h.spends_assign hsending hpending hidle now _)
  | deliver hsending _ => exact hspends rfl (h.spends_deliver hsending)
  | respond hsending hqueue hok => exact hspends rfl (h.spends_respond hsending hqueue hok)
  | shutdown hsending hidle => exact hspends rfl (h.spends_shutdown hsending hidle)
  | dequeue _ hqueue => exact hspends rfl (h.spends_dequeue hqueue _)
  | finishAnalysis hstate => exact hspends rfl (h.spends_finish (Or.inl hstate) rfl)
  | finishEmit hstate => exact hspends rfl (h.spends_finish (Or.inr hstate) rfl)

/-- **The steps of a calm run and those that are left add up**, and so do the translation units. -/
theorem CalmInv.balance {ls : List ProtocolLabel} (h : CalmInv numWorkers W)
    (hrun : ((protocol env options database spawnWorker).restrict Calm).Run W ls W') :
    W'.remaining numWorkers + ls.length = W.remaining numWorkers + 10 * queuedIn ls ∧
      W'.accounted numWorkers = W.accounted numWorkers + queuedIn ls := by
  have hinv : ∀ s l s', CalmInv numWorkers s →
      ((protocol env options database spawnWorker).restrict Calm).step s l s' →
        CalmInv numWorkers s' := fun s l s' hs hstep => hs.step hstep.1 hstep.2
  have hremaining : W'.remaining numWorkers + (ls.map fun _ => 1).sum =
      W.remaining numWorkers + (ls.map fun l => 10 * l.queued).sum :=
    hrun.balance hinv (fun s l s' hs hstep => (hs.balance_step hstep.1 hstep.2).1) h
  have haccounted : W'.accounted numWorkers + (ls.map fun _ => 0).sum =
      W.accounted numWorkers + (ls.map ProtocolLabel.queued).sum :=
    hrun.balance hinv (fun s l s' hs hstep => (hs.balance_step hstep.1 hstep.2).2) h
  rw [List.sum_map_mul_left] at hremaining
  simp only [List.map_const', List.sum_replicate, smul_eq_mul, mul_one, mul_zero, add_zero]
    at hremaining haccounted
  exact ⟨hremaining, haccounted⟩

/-- In the beginning, what is left is to shut the workers down. -/
theorem remaining_init (h : (protocol env options database spawnWorker).init W) :
    W.remaining (min database.commands.length options.numWorkers) =
        3 * min database.commands.length options.numWorkers ∧
      W.accounted (min database.commands.length options.numWorkers) = 0 := by
  have hW : W = _ := h
  subst hW
  have hjob := Scheduler.jobOf_initializeWorkers
    (min database.commands.length options.numWorkers) spawnWorker
  constructor
  · refine (Nat.zero_add _).trans ((Finset.sum_congr rfl fun w hw => ?_).trans
      ((Finset.sum_const 3).trans ?_))
    · have hstatus := Scheduler.statusOf_initializeWorkers
        (min database.commands.length options.numWorkers) spawnWorker w
      rw [if_pos (Finset.mem_range.mp hw)] at hstatus
      refine World.remainingAt_idle (hjob w) fun hstopped => ?_
      cases hstatus.symm.trans hstopped
    · rw [Finset.card_range, smul_eq_mul, Nat.mul_comm]
  · refine (Nat.zero_add _).trans (Finset.sum_eq_zero fun w _ => ?_)
    exact if_neg fun hsome => Bool.false_ne_true
      ((congrArg Option.isSome (hjob w)).symm.trans hsome)

/-- When everything has been done, nothing is left, and every translation unit is indexed. -/
theorem World.Done.remaining_eq (h : W.Done numWorkers) (hinv : CalmInv numWorkers W) :
    W.remaining numWorkers = 0 ∧ W.accounted numWorkers = W.driver.indexedSoFar := by
  have hnone : ∀ w < numWorkers, W.driver.scheduler.jobOf w = none := by
    intro w hw
    rw [Option.eq_none_iff_forall_ne_some]
    intro j hj
    have hstatus := (h.workers w hw).1
    rw [hinv.inv.statusOf_of_jobOf hj] at hstatus
    cases hstatus
  have hremaining : ∑ w ∈ Finset.range numWorkers, W.remainingAt w = 0 := by
    refine Finset.sum_eq_zero fun w hw => ?_
    have hlt := Finset.mem_range.mp hw
    obtain ⟨hstatus, -, hqueue⟩ := h.workers w hlt
    refine World.remainingAt_stopped (hnone w hlt) hstatus ?_
    rw [World.mail, hqueue, h.sending]
    rfl
  have hbusy : ∑ w ∈ Finset.range numWorkers, W.busyAt w = 0 := by
    refine Finset.sum_eq_zero fun w hw => ?_
    rw [World.busyAt, hnone w (Finset.mem_range.mp hw)]
    rfl
  have hlength : W.driver.scheduler.pendingJobs.length = 0 := by
    rw [h.pending]
    rfl
  unfold World.remaining World.accounted
  omega

/-- **A calm run is bounded, and ends only when everything has been done**: a worker and a
translation unit account for three and ten steps, and as long as the run has taken fewer, it can go
on without another translation unit.  When it cannot, every translation unit that was queued has
been indexed, and every worker has exited. -/
theorem done_of_calm {W₀ : World} {ls : List ProtocolLabel}
    (hinit : (protocol env options database spawnWorker).init W₀)
    (hpos : 0 < min database.commands.length options.numWorkers)
    (hrun : ((protocol env options database spawnWorker).restrict Calm).Run W₀ ls W) :
    ls.length ≤ 10 * queuedIn ls + 3 * min database.commands.length options.numWorkers ∧
      ((∃ l W', l.queued = 0 ∧ Calm W l ∧ ProtocolStep env W l W') ∨
        (W.Done (min database.commands.length options.numWorkers) ∧
          W.driver.indexedSoFar = queuedIn ls ∧
          ls.length =
            10 * queuedIn ls + 3 * min database.commands.length options.numWorkers)) := by
  have h₀ := CalmInv.init env hinit
  have h : CalmInv (min database.commands.length options.numWorkers) W :=
    hrun.preserves (fun s l s' hs hstep => hs.step hstep.1 hstep.2) h₀
  obtain ⟨hremaining, haccounted⟩ := h₀.balance hrun
  obtain ⟨hremaining₀, haccounted₀⟩ := remaining_init hinit
  refine ⟨by omega, (h.progress hpos env).imp_right fun hdone => ?_⟩
  obtain ⟨hremaining', haccounted'⟩ := hdone.remaining_eq h
  exact ⟨hdone, by omega, by omega⟩

end Runs

/-- The run in which the only worker indexes the only file of the compilation database. -/
theorem done_of_calm_oneFile : ∃ (W : World) (ls : List ProtocolLabel),
    W.driver.indexedSoFar = 1 ∧ ls.length ≤ 10 * queuedIn ls + 3 * 1 ∧
      ((∃ l W', l.queued = 0 ∧ Calm W l ∧ ProtocolStep succeedingEnv W l W') ∨
        (W.Done 1 ∧ W.driver.indexedSoFar = queuedIn ls ∧
          ls.length = 10 * queuedIn ls + 3 * 1)) := by
  have hrun : ∃ W ls, ((protocol succeedingEnv oneWorker oneFile id).restrict Calm).Run
      { driver := .openCompilationDatabase oneWorker oneFile id
        driverToWorker := fun _ => []
        workerToDriver := []
        worker := fun _ => .idle
        sending := none } ls W ∧ W.driver.indexedSoFar = 1 :=
    ⟨_, [.queue { index := 0 }, .assign 5, .deliver, .dequeue 0, .finishAnalysis 0 {}, .respond,
        .deliver, .dequeue 0, .finishEmit 0 {}, .respond, .shutdown],
      .cons ⟨rfl, .queue rfl rfl⟩ <|
      .cons ⟨trivial, .assign rfl rfl rfl⟩ <|
      .cons ⟨trivial, .deliver rfl (by decide)⟩ <|
      .cons ⟨trivial, .dequeue trivial rfl⟩ <|
      .cons ⟨trivial, .finishAnalysis rfl⟩ <|
      .cons ⟨trivial, .respond rfl rfl rfl⟩ <|
      .cons ⟨trivial, .deliver rfl (by decide)⟩ <|
      .cons ⟨trivial, .dequeue trivial rfl⟩ <|
      .cons ⟨trivial, .finishEmit rfl⟩ <|
      .cons ⟨trivial, .respond rfl rfl rfl⟩ <|
      .cons ⟨rfl, @ProtocolStep.shutdown _ _ 0 [] rfl rfl⟩ (.nil _), rfl⟩
  obtain ⟨W, ls, hrun, hindexed⟩ := hrun
  exact ⟨W, ls, hindexed,
    @done_of_calm succeedingEnv oneWorker oneFile id W _ ls rfl Nat.one_pos hrun⟩

end ScipClang
