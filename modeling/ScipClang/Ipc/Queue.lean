import ScipClang.Ipc.Serialization

/-!
# Receiving responses

How the driver takes messages out of the queue that all workers write to
(`JsonIpcQueue`, `Driver::processOneOrMoreJobResults`).  The first message of a call is
awaited with `timedReceive`, and a message that cannot be decoded ends the call.  All
messages that have arrived in the meantime are then taken with `tryReceiveInstant`, which
only asserts that decoding went well: in release builds the response is processed in
whatever state the failed decoding left it.

* `Message`: a queue holds encoded responses and messages that are rejected.
* `takenBy`: which messages a call takes.
* `processedOnce_of_tail`: a call is right if only its first message can be malformed.
-/

namespace ScipClang

open Json

variable {encoding : Encoding}

/-! ## Messages -/

/-- A message in the queue from the workers to the driver: an encoded response, or a message
that is not JSON (`none`) or that is rejected by the decoder, possibly after it has assigned
some fields. -/
inductive Message (encoding : Encoding) where
  | encoded (response : IndexJobResponse) (sendable : response.Sendable encoding)
  | malformed (json : Option Json)
      (rejected : ∀ value, json = some value →
        ∀ target, (IndexJobResponse.fromJSON value target).2 = false)

namespace Message

/-- The JSON value that the bytes of a message are parsed to. -/
def json : Message encoding → Option Json
  | .encoded response _ => some (response.toJSON encoding)
  | .malformed json _ => json

/-- The message is a valid encoding. -/
def IsEncoded : Message encoding → Prop
  | .encoded _ _ => True
  | .malformed _ _ => False

instance (message : Message encoding) : Decidable message.IsEncoded :=
  match message with
  | .encoded _ _ => .isTrue trivial
  | .malformed _ _ => .isFalse id

/-- `JsonIpcQueue::timedReceive` when it gets the message: the contents of the response
afterwards, and whether there was no error. -/
def receive (message : Message encoding) (response : IndexJobResponse) :
    IndexJobResponse × Bool :=
  match message.json with
  | some value => IndexJobResponse.fromJSON value response
  | none => (response, false)

/-- The response has the contents of the message. -/
def Delivers (message : Message encoding) (received : IndexJobResponse) : Prop :=
  ∃ response sendable, message = .encoded response sendable ∧ response.Transmits received

theorem receive_of_isEncoded {message : Message encoding} (h : message.IsEncoded)
    (response : IndexJobResponse) :
    ∃ received, message.receive response = (received, true) ∧ message.Delivers received := by
  cases message with
  | encoded sent sendable =>
      obtain ⟨received, heq, htransmits⟩ := IndexJobResponse.fromJSON_toJSON sendable response
      exact ⟨received, heq, sent, sendable, rfl, htransmits⟩
  | malformed json rejected => exact absurd h id

theorem receive_of_not_isEncoded {message : Message encoding} (h : ¬message.IsEncoded)
    (response : IndexJobResponse) : (message.receive response).2 = false := by
  cases message with
  | encoded sent sendable => exact absurd trivial h
  | malformed json rejected =>
      unfold receive
      cases hjson : (Message.malformed json rejected).json with
      | none => rfl
      | some value => exact rejected value hjson response

end Message

/-! ## Calls -/

section Calls

/- What `processWorkerResponse` leaves of a response that was moved into it. -/
variable (movedFrom : IndexJobResponse → IndexJobResponse)

/-- The loop over `tryReceiveInstant`: the responses that `processWorkerResponse` is called
with, given the messages that are in the queue before it is found empty. -/
def processInstantly : IndexJobResponse → List (Message encoding) → List IndexJobResponse
  | _, [] => []
  | response, message :: messages =>
      let response := (message.receive response).1
      response :: processInstantly (movedFrom response) messages

/-- `Driver::processOneOrMoreJobResults`, with the messages that it finds in the queue; none is
a timeout.  The responses that `processWorkerResponse` is called with. -/
def processOneOrMoreJobResults (response : IndexJobResponse) :
    List (Message encoding) → List IndexJobResponse
  | [] => []
  | message :: messages =>
      let (response, ok) := message.receive response
      if ok then response :: processInstantly movedFrom (movedFrom response) messages else []

/-- The messages that a call takes: all that it finds, unless the first is malformed. -/
def takenBy : List (Message encoding) → List (Message encoding)
  | [] => []
  | message :: messages => if message.IsEncoded then message :: messages else [message]

/-- A call: how many messages it finds, and what the uninitialised response holds. -/
structure ReceiveCall where
  arrived : Nat
  response : IndexJobResponse

/-- The messages that each of a sequence of calls takes out of the queue. -/
def batches : List ReceiveCall → List (Message encoding) → List (List (Message encoding))
  | [], _ => []
  | call :: calls, queue =>
      let taken := takenBy (queue.take call.arrived)
      taken :: batches calls (queue.drop taken.length)

/-- All responses that `processWorkerResponse` is called with. -/
def processed : List ReceiveCall → List (Message encoding) → List IndexJobResponse
  | [], _ => []
  | call :: calls, queue =>
      let found := queue.take call.arrived
      processOneOrMoreJobResults movedFrom call.response found ++
        processed calls (queue.drop (takenBy found).length)

/-- `processWorkerResponse` was called exactly once for each well-formed message, in order and
with the contents of the message. -/
def ProcessedOnce (messages : List (Message encoding)) (responses : List IndexJobResponse) :
    Prop :=
  List.Forall₂ Message.Delivers (messages.filter fun message => message.IsEncoded) responses

/-! ## What one call does -/

theorem length_processInstantly (response : IndexJobResponse)
    (messages : List (Message encoding)) :
    (processInstantly movedFrom response messages).length = messages.length := by
  induction messages generalizing response with
  | nil => rfl
  | cons message messages ih => rw [processInstantly, List.length_cons, ih, List.length_cons]

theorem forall₂_processInstantly (response : IndexJobResponse)
    {messages : List (Message encoding)} (h : ∀ message ∈ messages, message.IsEncoded) :
    List.Forall₂ Message.Delivers messages (processInstantly movedFrom response messages) := by
  induction messages generalizing response with
  | nil => exact List.Forall₂.nil
  | cons message messages ih =>
      obtain ⟨received, heq, hdelivers⟩ :=
        Message.receive_of_isEncoded (h message List.mem_cons_self) response
      rw [processInstantly, heq]
      exact List.Forall₂.cons hdelivers
        (ih _ fun other hother => h other (List.mem_cons_of_mem _ hother))

/-- A call processes as many responses as it takes messages, unless the first is malformed. -/
theorem length_processOneOrMoreJobResults (response : IndexJobResponse)
    (found : List (Message encoding)) :
    (processOneOrMoreJobResults movedFrom response found).length =
      match found with
      | [] => 0
      | message :: messages => if message.IsEncoded then messages.length + 1 else 0 := by
  cases found with
  | nil => rfl
  | cons message messages =>
      by_cases hencoded : message.IsEncoded
      · obtain ⟨received, heq, -⟩ := Message.receive_of_isEncoded hencoded response
        simp only [processOneOrMoreJobResults, heq, if_true, hencoded, List.length_cons,
          length_processInstantly]
      · have hfailed := Message.receive_of_not_isEncoded hencoded response
        simp only [processOneOrMoreJobResults, hfailed, hencoded]
        rfl

/-- A call is right if only its first message can be malformed. -/
theorem processedOnce_of_tail (response : IndexJobResponse) {found : List (Message encoding)}
    (h : ∀ message ∈ (takenBy found).tail, message.IsEncoded) :
    ProcessedOnce (takenBy found) (processOneOrMoreJobResults movedFrom response found) := by
  cases found with
  | nil => exact List.Forall₂.nil
  | cons message messages =>
      unfold ProcessedOnce
      by_cases hencoded : message.IsEncoded
      · rw [takenBy, if_pos hencoded] at h ⊢
        have hall : ∀ other ∈ message :: messages, other.IsEncoded := by
          intro other hother
          rcases List.mem_cons.mp hother with rfl | hrest
          · exact hencoded
          · exact h other hrest
        obtain ⟨received, heq, hdelivers⟩ := Message.receive_of_isEncoded hencoded response
        rw [List.filter_eq_self.mpr fun other hother => by simpa using hall other hother]
        simp only [processOneOrMoreJobResults, heq, if_true]
        exact List.Forall₂.cons hdelivers (forall₂_processInstantly movedFrom _ h)
      · have hfailed := Message.receive_of_not_isEncoded hencoded response
        rw [takenBy, if_neg hencoded, List.filter_cons_of_neg (by simpa using hencoded)]
        simp only [processOneOrMoreJobResults, hfailed, List.filter_nil]
        exact List.Forall₂.nil

/-- A call never processes fewer responses than there are well-formed messages, and more if it
takes a malformed one after the first. -/
theorem length_filter_takenBy (response : IndexJobResponse) (found : List (Message encoding)) :
    ((takenBy found).filter fun message => message.IsEncoded).length ≤
        (processOneOrMoreJobResults movedFrom response found).length ∧
      (((takenBy found).filter fun message => message.IsEncoded).length =
          (processOneOrMoreJobResults movedFrom response found).length →
        ∀ message ∈ (takenBy found).tail, message.IsEncoded) := by
  rw [length_processOneOrMoreJobResults]
  cases found with
  | nil => simp [takenBy]
  | cons message messages =>
      by_cases hencoded : message.IsEncoded
      · simp only [takenBy, if_pos hencoded]
        rw [List.filter_cons_of_pos (by simpa using hencoded), List.length_cons]
        refine ⟨Nat.succ_le_succ (List.length_filter_le _ _), fun heq other hother => ?_⟩
        have hlength := Nat.succ.inj heq
        simpa using List.length_filter_eq_length_iff.mp hlength other hother
      · simp [takenBy, hencoded]

/-! ## Sequences of calls -/

theorem length_filter_batches (calls : List ReceiveCall) (queue : List (Message encoding)) :
    ((batches calls queue).flatten.filter fun message => message.IsEncoded).length ≤
        (processed movedFrom calls queue).length ∧
      (((batches calls queue).flatten.filter fun message => message.IsEncoded).length =
          (processed movedFrom calls queue).length →
        ∀ batch ∈ batches calls queue, ∀ message ∈ batch.tail, message.IsEncoded) := by
  induction calls generalizing queue with
  | nil => simp [batches, processed]
  | cons call calls ih =>
      -- neither the first call nor the others can make up for a response too many
      obtain ⟨hle, hfirst⟩ :=
        length_filter_takenBy movedFrom call.response (queue.take call.arrived)
      obtain ⟨hle', hrest⟩ := ih (queue.drop (takenBy (queue.take call.arrived)).length)
      simp only [batches, processed, List.flatten_cons, List.filter_append, List.length_append]
      refine ⟨Nat.add_le_add hle hle', fun heq batch hbatch => ?_⟩
      rcases List.mem_cons.mp hbatch with rfl | hbatch
      · exact hfirst (by omega)
      · exact hrest (by omega) batch hbatch

theorem takenBy_eq_take (queue : List (Message encoding)) (arrived : Nat) :
    takenBy (queue.take arrived) = queue.take (takenBy (queue.take arrived)).length := by
  have hprefix : takenBy (queue.take arrived) <+: queue := by
    refine List.IsPrefix.trans ?_ (List.take_prefix arrived queue)
    cases queue.take arrived with
    | nil => exact List.prefix_rfl
    | cons message messages =>
        rw [takenBy]
        split
        · exact List.prefix_rfl
        · exact ⟨messages, rfl⟩
  exact List.prefix_iff_eq_take.mp hprefix

/-- Messages are taken in the order of the queue. -/
theorem flatten_batches_prefix (calls : List ReceiveCall) (queue : List (Message encoding)) :
    (batches calls queue).flatten <+: queue := by
  induction calls generalizing queue with
  | nil => exact List.nil_prefix
  | cons call calls ih =>
      rw [batches, List.flatten_cons]
      obtain ⟨rest, hrest⟩ := ih (queue.drop (takenBy (queue.take call.arrived)).length)
      refine ⟨rest, ?_⟩
      rw [List.append_assoc, hrest]
      nth_rewrite 1 [takenBy_eq_take]
      exact List.take_append_drop _ queue

/-- A call that finds a message takes at least one. -/
theorem length_takenBy_pos {queue : List (Message encoding)} {arrived : Nat}
    (harrived : 1 ≤ arrived) (hqueue : queue ≠ []) :
    1 ≤ (takenBy (queue.take arrived)).length := by
  cases queue with
  | nil => exact absurd rfl hqueue
  | cons message queue =>
      obtain ⟨n, rfl⟩ := Nat.exists_eq_add_of_le' harrived
      rw [List.take_succ_cons, takenBy]
      split <;> simp

/-- Enough calls that each find a message take all messages. -/
theorem flatten_batches_eq {calls : List ReceiveCall} {queue : List (Message encoding)}
    (harrived : ∀ call ∈ calls, 1 ≤ call.arrived) (hlength : queue.length ≤ calls.length) :
    (batches calls queue).flatten = queue := by
  induction calls generalizing queue with
  | nil =>
      rw [List.eq_nil_of_length_eq_zero (Nat.le_zero.mp hlength)]
      rfl
  | cons call calls ih =>
      rw [batches, List.flatten_cons,
        ih fun other hother => harrived other (List.mem_cons_of_mem _ hother)]
      · nth_rewrite 1 [takenBy_eq_take]
        exact List.take_append_drop _ queue
      · cases queue with
        | nil => simp
        | cons message queue =>
            have hpos := length_takenBy_pos (harrived call List.mem_cons_self)
              (List.cons_ne_nil message queue)
            rw [List.length_drop]
            simp only [List.length_cons] at hlength hpos ⊢
            omega

end Calls

/-- **When responses are processed exactly once**: over any sequence of calls,
`processWorkerResponse` is called once for each well-formed message that was taken, in order and
with its contents, if and only if no malformed message is taken by `tryReceiveInstant`, that is,
after the first message of a call.  Messages are taken in the order of the queue, and all of
them by enough calls that each find one. -/
theorem processedOnce_iff (movedFrom : IndexJobResponse → IndexJobResponse)
    (calls : List ReceiveCall) (queue : List (Message encoding)) :
    (ProcessedOnce (batches calls queue).flatten (processed movedFrom calls queue) ↔
      ∀ batch ∈ batches calls queue, ∀ message ∈ batch.tail, message.IsEncoded) ∧
    (batches calls queue).flatten <+: queue ∧
    ((∀ call ∈ calls, 1 ≤ call.arrived) → queue.length ≤ calls.length →
      (batches calls queue).flatten = queue) := by
  refine ⟨⟨fun h => ?_, fun h => ?_⟩, flatten_batches_prefix calls queue, flatten_batches_eq⟩
  · exact (length_filter_batches movedFrom calls queue).2 (List.Forall₂.length_eq h)
  · induction calls generalizing queue with
    | nil => exact List.Forall₂.nil
    | cons call calls ih =>
        rw [ProcessedOnce, batches, List.flatten_cons, List.filter_append]
        refine List.rel_append ?_ ?_
        · exact processedOnce_of_tail movedFrom call.response (h _ List.mem_cons_self)
        · exact ih _ fun batch hbatch => h batch (List.mem_cons_of_mem _ hbatch)

/-- A response, and a message that is not JSON. -/
def truncatedQueue : List (Message asciiEncoding) :=
  [.encoded sampleResponse sendable_sampleResponse, .malformed none (by simp)]

/-- Both messages are there when the call starts. -/
def bothArrived : ReceiveCall where
  arrived := 2
  response := ⟨0, JobId.Shutdown, { kind := .SemanticAnalysis }⟩

/-- The message that is not JSON is processed as well. -/
theorem truncated_processed :
    (batches [bothArrived] truncatedQueue).flatten.length = truncatedQueue.length ∧
      ¬ProcessedOnce (batches [bothArrived] truncatedQueue).flatten
        (processed (fun response => response) [bothArrived] truncatedQueue) := by
  refine ⟨by decide, fun h => ?_⟩
  have hlength := List.Forall₂.length_eq h
  exact absurd hlength (by decide)

/-- Taken by two calls, the message is dropped. -/
theorem processedOnce_iff_twoCalls :
    ProcessedOnce truncatedQueue (processed (fun response => response)
      [{ bothArrived with arrived := 1 }, { bothArrived with arrived := 1 }] truncatedQueue) := by
  have hspec := processedOnce_iff (fun response => response)
    [{ bothArrived with arrived := 1 }, { bothArrived with arrived := 1 }] truncatedQueue
  have htaken := hspec.2.2 (by decide) (by decide)
  have hprocessed := hspec.1.mpr (by decide)
  rwa [htaken] at hprocessed

end ScipClang
