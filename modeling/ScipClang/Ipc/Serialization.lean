import ScipClang.IpcMessages
import ScipClang.Library.Json

/-!
# Messages as JSON

The encoders and decoders of `indexer/IpcMessages.cc`.  A decoder writes into an object that
may hold something already (the driver reuses one response for all messages), and only the
details that the kind of a job selects are sent.

Numbers and texts go through `Json`; printing and parsing JSON is left to LLVM.

* `IndexJobRequest.fromJSON_toJSON`, `IndexJobResponse.fromJSON_toJSON`: what a message is
  decoded to, whatever the target held before.
-/

namespace ScipClang

open Json

/-! ## Identifiers and hashes -/

namespace JobId

/-- `JobId::to64Bit`. -/
def to64Bit (jobId : JobId) : UInt64 :=
  (jobId.taskId.toUInt64 <<< 32) + jobId.subtaskId.toUInt64

/-- `JobId::from64Bit`. -/
def from64Bit (v : UInt64) : JobId := ⟨(v >>> 32).toUInt32, v.toUInt32⟩

/-- `toJSON(JobId)`. -/
def toJSON (jobId : JobId) : Json := ofUInt64 jobId.to64Bit

/-- `fromJSON(JobId)`. -/
def fromJSON : Decoder JobId := fun json target =>
  json.getAsUINT64.elim (target, false) fun value => (from64Bit value, true)

theorem toNat_to64Bit (jobId : JobId) :
    jobId.to64Bit.toNat = jobId.taskId.toNat * 2 ^ 32 + jobId.subtaskId.toNat := by
  have htask := jobId.taskId.toNat_lt
  have hsubtask := jobId.subtaskId.toNat_lt
  simp only [to64Bit, UInt64.toNat_add, UInt64.toNat_shiftLeft, UInt32.toNat_toUInt64]
  have hshift : (32 : UInt64).toNat % 64 = 32 := by decide
  rw [hshift, Nat.shiftLeft_eq]
  omega

/-- The two halves are packed without loss. -/
theorem from64Bit_to64Bit (jobId : JobId) : from64Bit jobId.to64Bit = jobId := by
  have htask := jobId.taskId.toNat_lt
  have hsubtask := jobId.subtaskId.toNat_lt
  have hvalue := toNat_to64Bit jobId
  apply JobId.ext
  · apply UInt32.toNat_inj.mp
    show ((jobId.to64Bit >>> 32).toUInt32).toNat = jobId.taskId.toNat
    have hshift : (32 : UInt64).toNat % 64 = 32 := by decide
    rw [UInt64.toNat_toUInt32, UInt64.toNat_shiftRight, hshift, Nat.shiftRight_eq_div_pow, hvalue]
    omega
  · apply UInt32.toNat_inj.mp
    show (jobId.to64Bit.toUInt32).toNat = jobId.subtaskId.toNat
    rw [UInt64.toNat_toUInt32, hvalue]
    omega

theorem decodes_toJSON (jobId : JobId) : Decodes fromJSON jobId.toJSON jobId := by
  intro target
  unfold fromJSON toJSON
  rw [getAsUINT64_ofUInt64]
  show (from64Bit jobId.to64Bit, true) = (jobId, true)
  rw [from64Bit_to64Bit]

theorem toJSON_injective : Function.Injective toJSON := by
  intro j j' h
  rw [← from64Bit_to64Bit j, ofUInt64_injective h, from64Bit_to64Bit]

end JobId

namespace HashValue

/-- `toJSON(HashValue)`. -/
def toJSON (h : HashValue) : Json := ofUInt64 h.rawValue

/-- `fromJSON(HashValue)`. -/
def fromJSON : Decoder HashValue :=
  decodeInto rawValue (fun value _ => ⟨value⟩) decodeUINT64

theorem decodes_toJSON (h : HashValue) : Decodes fromJSON h.toJSON h := fun target =>
  decodeInto_of_decodes (decodes_ofUInt64 h.rawValue) target

end HashValue

namespace AbsolutePath

/-- `AbsolutePath::toJSON`. -/
def toJSON (encoding : Encoding) (p : AbsolutePath) : Json := ofString encoding p.value

/-- `AbsolutePath::fromJSON`. -/
def fromJSON : Decoder AbsolutePath := decodeInto value (fun value _ => ⟨value⟩) decodeString

theorem decodes_toJSON {encoding : Encoding} {p : AbsolutePath}
    (h : encoding.isUTF8 p.value = true) : Decodes fromJSON (p.toJSON encoding) p :=
  fun target => decodeInto_of_decodes (decodes_ofString h) target

end AbsolutePath

/-! ## Details and results -/

namespace CommandObject

/-- `toJSON(CommandObject)`; the index is not sent. -/
def toJSON (encoding : Encoding) (cmd : CommandObject) : Json :=
  .object [("directory".toList, ofString encoding cmd.workingDirectory),
    ("file".toList, ofString encoding cmd.filePath),
    ("arguments".toList, ofList (ofString encoding) cmd.arguments)]

/-- `fromJSON(CommandObject)`. -/
def fromJSON : Decoder CommandObject := decodeObject <|
  (member "directory".toList workingDirectory
    (fun workingDirectory cmd => { cmd with workingDirectory }) decodeString).andThen <|
  (member "file".toList filePath (fun filePath cmd => { cmd with filePath })
    decodeString).andThen <|
  member "arguments".toList arguments (fun arguments cmd => { cmd with arguments })
    (decodeList [] decodeString)

/-- All texts of the command are UTF-8. -/
def IsUTF8 (encoding : Encoding) (cmd : CommandObject) : Prop :=
  encoding.isUTF8 cmd.workingDirectory = true ∧ encoding.isUTF8 cmd.filePath = true ∧
    ∀ argument ∈ cmd.arguments, encoding.isUTF8 argument = true

theorem fromJSON_toJSON {encoding : Encoding} {cmd : CommandObject} (h : cmd.IsUTF8 encoding)
    (target : CommandObject) :
    fromJSON (cmd.toJSON encoding) target = ({ cmd with index := target.index }, true) := by
  obtain ⟨hdirectory, hfile, harguments⟩ := h
  have hlist : Decodes (decodeList [] decodeString)
      (ofList (ofString encoding) cmd.arguments) cmd.arguments :=
    decodes_ofList fun argument hargument => decodes_ofString (harguments argument hargument)
  rw [fromJSON, toJSON, decodeObject_object,
    MemberDecoder.andThen_of_eq (member_of_decodes rfl (decodes_ofString hdirectory) _),
    MemberDecoder.andThen_of_eq (member_of_decodes rfl (decodes_ofString hfile) _),
    member_of_decodes rfl hlist]

end CommandObject

namespace PreprocessedFileInfo

/-- `toJSON(PreprocessedFileInfo)`. -/
def toJSON (encoding : Encoding) (t : PreprocessedFileInfo) : Json :=
  .object [("path".toList, t.path.toJSON encoding), ("hashValue".toList, t.hashValue.toJSON)]

/-- `fromJSON(PreprocessedFileInfo)`. -/
def fromJSON : Decoder PreprocessedFileInfo := decodeObject <|
  (member "path".toList path (fun path t => { t with path }) AbsolutePath.fromJSON).andThen <|
  member "hashValue".toList hashValue (fun hashValue t => { t with hashValue })
    HashValue.fromJSON

theorem decodes_toJSON {encoding : Encoding} {t : PreprocessedFileInfo}
    (h : encoding.isUTF8 t.path.value = true) : Decodes fromJSON (t.toJSON encoding) t :=
  fun target => decodeObject_two (by decide) (AbsolutePath.decodes_toJSON h)
    t.hashValue.decodes_toJSON target

end PreprocessedFileInfo

namespace PreprocessedFileInfoMulti

/-- `toJSON(PreprocessedFileInfoMulti)`. -/
def toJSON (encoding : Encoding) (t : PreprocessedFileInfoMulti) : Json :=
  .object [("path".toList, t.path.toJSON encoding),
    ("hashValues".toList, ofList HashValue.toJSON t.hashValues)]

/-- `fromJSON(PreprocessedFileInfoMulti)`. -/
def fromJSON : Decoder PreprocessedFileInfoMulti := decodeObject <|
  (member "path".toList path (fun path t => { t with path }) AbsolutePath.fromJSON).andThen <|
  member "hashValues".toList hashValues (fun hashValues t => { t with hashValues })
    (decodeList ⟨0⟩ HashValue.fromJSON)

theorem decodes_toJSON {encoding : Encoding} {t : PreprocessedFileInfoMulti}
    (h : encoding.isUTF8 t.path.value = true) : Decodes fromJSON (t.toJSON encoding) t :=
  fun target => decodeObject_two (by decide) (AbsolutePath.decodes_toJSON h)
    (decodes_ofList fun hashValue _ => hashValue.decodes_toJSON) target

end PreprocessedFileInfoMulti

namespace SemanticAnalysisJobDetails

/-- `toJSON(SemanticAnalysisJobDetails)`. -/
def toJSON (encoding : Encoding) (t : SemanticAnalysisJobDetails) : Json :=
  t.command.toJSON encoding

/-- `fromJSON(SemanticAnalysisJobDetails)`. -/
def fromJSON : Decoder SemanticAnalysisJobDetails :=
  decodeInto command (fun command _ => ⟨command⟩) (decodeFresh {} CommandObject.fromJSON)

/-- The command is decoded into a fresh object, so that its index is the poison value. -/
theorem decodes_toJSON {encoding : Encoding} {t : SemanticAnalysisJobDetails}
    (h : t.command.IsUTF8 encoding) : Decodes fromJSON (t.toJSON encoding)
      ⟨{ t.command with index := ({} : CommandObject).index }⟩ :=
  fun target => decodeInto_of_decodes (decodes_fresh (CommandObject.fromJSON_toJSON h {})) target

end SemanticAnalysisJobDetails

namespace EmitIndexJobDetails

/-- `toJSON(EmitIndexJobDetails)`. -/
def toJSON (encoding : Encoding) (t : EmitIndexJobDetails) : Json :=
  ofList (PreprocessedFileInfo.toJSON encoding) t.filesToBeIndexed

/-- `fromJSON(EmitIndexJobDetails)`. -/
def fromJSON : Decoder EmitIndexJobDetails :=
  decodeInto filesToBeIndexed (fun filesToBeIndexed _ => ⟨filesToBeIndexed⟩)
    (decodeFresh [] (decodeList ⟨{}, ⟨0⟩⟩ PreprocessedFileInfo.fromJSON))

/-- All paths are UTF-8. -/
def IsUTF8 (encoding : Encoding) (t : EmitIndexJobDetails) : Prop :=
  ∀ fileInfo ∈ t.filesToBeIndexed, encoding.isUTF8 fileInfo.path.value = true

theorem decodes_toJSON {encoding : Encoding} {t : EmitIndexJobDetails} (h : t.IsUTF8 encoding) :
    Decodes fromJSON (t.toJSON encoding) t :=
  fun target => decodeInto_of_decodes (decodes_fresh (decodes_ofList
    (fun fileInfo hfileInfo => PreprocessedFileInfo.decodes_toJSON (h fileInfo hfileInfo)) []))
    target

end EmitIndexJobDetails

namespace SemanticAnalysisJobResult

/-- `toJSON(SemanticAnalysisJobResult)`. -/
def toJSON (encoding : Encoding) (t : SemanticAnalysisJobResult) : Json :=
  .object [("wellBehavedFiles".toList,
      ofList (PreprocessedFileInfo.toJSON encoding) t.wellBehavedFiles),
    ("illBehavedFiles".toList,
      ofList (PreprocessedFileInfoMulti.toJSON encoding) t.illBehavedFiles)]

/-- `fromJSON(SemanticAnalysisJobResult)`. -/
def fromJSON : Decoder SemanticAnalysisJobResult := decodeObject <|
  (member "wellBehavedFiles".toList wellBehavedFiles
    (fun wellBehavedFiles t => { t with wellBehavedFiles })
    (decodeList ⟨{}, ⟨0⟩⟩ PreprocessedFileInfo.fromJSON)).andThen <|
  member "illBehavedFiles".toList illBehavedFiles
    (fun illBehavedFiles t => { t with illBehavedFiles })
    (decodeList ⟨{}, []⟩ PreprocessedFileInfoMulti.fromJSON)

/-- All paths are UTF-8. -/
def IsUTF8 (encoding : Encoding) (t : SemanticAnalysisJobResult) : Prop :=
  (∀ fileInfo ∈ t.wellBehavedFiles, encoding.isUTF8 fileInfo.path.value = true) ∧
    ∀ fileInfoMulti ∈ t.illBehavedFiles, encoding.isUTF8 fileInfoMulti.path.value = true

theorem decodes_toJSON {encoding : Encoding} {t : SemanticAnalysisJobResult}
    (h : t.IsUTF8 encoding) : Decodes fromJSON (t.toJSON encoding) t :=
  fun target => decodeObject_two (by decide)
    (decodes_ofList fun fileInfo hfileInfo =>
      PreprocessedFileInfo.decodes_toJSON (h.1 fileInfo hfileInfo))
    (decodes_ofList fun fileInfoMulti hfileInfoMulti =>
      PreprocessedFileInfoMulti.decodes_toJSON (h.2 fileInfoMulti hfileInfoMulti)) target

end SemanticAnalysisJobResult

namespace IndexingStatistics

/-- `toJSON(IndexingStatistics)`. -/
def toJSON (t : IndexingStatistics) : Json := ofUInt64 t.totalTimeMicros

/-- `fromJSON(IndexingStatistics)`. -/
def fromJSON : Decoder IndexingStatistics :=
  decodeInto totalTimeMicros (fun totalTimeMicros _ => ⟨totalTimeMicros⟩)
    (decodeFresh 0 decodeUINT64)

theorem decodes_toJSON (t : IndexingStatistics) : Decodes fromJSON t.toJSON t := fun target =>
  decodeInto_of_decodes (decodes_fresh (decodes_ofUInt64 t.totalTimeMicros 0)) target

end IndexingStatistics

namespace ShardPaths

/-- `toJSON(ShardPaths)`. -/
def toJSON (encoding : Encoding) (t : ShardPaths) : Json :=
  .object [("docsAndExternals".toList, t.docsAndExternals.toJSON encoding),
    ("forwardDecls".toList, t.forwardDecls.toJSON encoding)]

/-- `fromJSON(ShardPaths)`. -/
def fromJSON : Decoder ShardPaths := decodeObject <|
  (member "docsAndExternals".toList docsAndExternals
    (fun docsAndExternals t => { t with docsAndExternals }) AbsolutePath.fromJSON).andThen <|
  member "forwardDecls".toList forwardDecls (fun forwardDecls t => { t with forwardDecls })
    AbsolutePath.fromJSON

theorem decodes_toJSON {encoding : Encoding} {t : ShardPaths}
    (hdocs : encoding.isUTF8 t.docsAndExternals.value = true)
    (hdecls : encoding.isUTF8 t.forwardDecls.value = true) :
    Decodes fromJSON (t.toJSON encoding) t := fun target =>
  decodeObject_two (by decide) (AbsolutePath.decodes_toJSON hdocs)
    (AbsolutePath.decodes_toJSON hdecls) target

end ShardPaths

namespace EmitIndexJobResult

/-- `toJSON(EmitIndexJobResult)`. -/
def toJSON (encoding : Encoding) (t : EmitIndexJobResult) : Json :=
  .object [("statistics".toList, t.statistics.toJSON),
    ("shardPaths".toList, t.shardPaths.toJSON encoding)]

/-- `fromJSON(EmitIndexJobResult)`. -/
def fromJSON : Decoder EmitIndexJobResult := decodeObject <|
  (member "statistics".toList statistics (fun statistics t => { t with statistics })
    IndexingStatistics.fromJSON).andThen <|
  member "shardPaths".toList shardPaths (fun shardPaths t => { t with shardPaths })
    ShardPaths.fromJSON

/-- Both paths are UTF-8. -/
def IsUTF8 (encoding : Encoding) (t : EmitIndexJobResult) : Prop :=
  encoding.isUTF8 t.shardPaths.docsAndExternals.value = true ∧
    encoding.isUTF8 t.shardPaths.forwardDecls.value = true

theorem decodes_toJSON {encoding : Encoding} {t : EmitIndexJobResult} (h : t.IsUTF8 encoding) :
    Decodes fromJSON (t.toJSON encoding) t := fun target =>
  decodeObject_two (by decide) t.statistics.decodes_toJSON
    (ShardPaths.decodes_toJSON h.1 h.2) target

end EmitIndexJobResult

/-! ## Jobs -/

namespace IndexJobKind

/-- `toJSON(IndexJob::Kind)`. -/
def toJSON : IndexJobKind → Json
  | .SemanticAnalysis => .string "SemanticAnalysis".toList
  | .EmitIndex => .string "EmitIndex".toList

/-- `fromJSON(IndexJob::Kind)`. -/
def fromJSON : Decoder IndexJobKind := fun json target =>
  match json with
  | .string text =>
      if text = "SemanticAnalysis".toList then (.SemanticAnalysis, true)
      else if text = "EmitIndex".toList then (.EmitIndex, true)
      else (target, false)
  | _ => (target, false)

theorem decodes_toJSON (kind : IndexJobKind) : Decodes fromJSON kind.toJSON kind := by
  intro target
  cases kind <;> rfl

end IndexJobKind

section IndexJobs

/- `IndexJob` and `IndexJobResult` go through one template, which asks for a kind and for
both details. -/

variable {σ α β : Type}

/-- `toJSONIndexJob`. -/
def toJSONIndexJob (kind : IndexJobKind) (semanticAnalysis emitIndex : Json) : Json :=
  .object [("kind".toList, kind.toJSON),
    ("details".toList, match kind with
      | .SemanticAnalysis => semanticAnalysis
      | .EmitIndex => emitIndex)]

/-- `fromJSONIndexJob`: the kind decides where the details go. -/
def fromJSONIndexJob (kind : σ → IndexJobKind) (setKind : IndexJobKind → σ → σ)
    (semanticAnalysis emitIndex : MemberDecoder σ) : Decoder σ := decodeObject <|
  (member "kind".toList kind setKind IndexJobKind.fromJSON).andThen fun members t =>
    match kind t with
    | .SemanticAnalysis => semanticAnalysis members t
    | .EmitIndex => emitIndex members t

theorem fromJSONIndexJob_eq {kind : σ → IndexJobKind} {setKind : IndexJobKind → σ → σ}
    (hset : ∀ k t, kind (setKind k t) = k) (semanticAnalysis emitIndex : MemberDecoder σ)
    (k : IndexJobKind) (details₁ details₂ : Json) (target : σ) :
    fromJSONIndexJob kind setKind semanticAnalysis emitIndex
        (toJSONIndexJob k details₁ details₂) target =
      match k with
      | .SemanticAnalysis => semanticAnalysis
          [("kind".toList, k.toJSON), ("details".toList, details₁)] (setKind k target)
      | .EmitIndex => emitIndex
          [("kind".toList, k.toJSON), ("details".toList, details₂)] (setKind k target) := by
  unfold fromJSONIndexJob toJSONIndexJob
  rw [decodeObject_object,
    MemberDecoder.andThen_of_eq (member_of_decodes rfl k.decodes_toJSON target), hset]
  cases k <;> rfl

end IndexJobs

namespace IndexJob

/-- `toJSON(IndexJob)`. -/
def toJSON (encoding : Encoding) (job : IndexJob) : Json :=
  toJSONIndexJob job.kind (job.semanticAnalysis.toJSON encoding) (job.emitIndex.toJSON encoding)

/-- `fromJSON(IndexJob)`. -/
def fromJSON : Decoder IndexJob :=
  fromJSONIndexJob kind (fun kind t => { t with kind })
    (member "details".toList semanticAnalysis
      (fun semanticAnalysis t => { t with semanticAnalysis })
      SemanticAnalysisJobDetails.fromJSON)
    (member "details".toList emitIndex (fun emitIndex t => { t with emitIndex })
      EmitIndexJobDetails.fromJSON)

/-- All texts of the details that are sent are UTF-8. -/
def IsUTF8 (encoding : Encoding) (job : IndexJob) : Prop :=
  match job.kind with
  | .SemanticAnalysis => job.semanticAnalysis.command.IsUTF8 encoding
  | .EmitIndex => job.emitIndex.IsUTF8 encoding

/-- A job is transmitted as the other one: same kind, and the same details of that kind, the
index of a command apart. -/
def Transmits (job received : IndexJob) : Prop :=
  received.kind = job.kind ∧
    match job.kind with
    | .SemanticAnalysis => received.semanticAnalysis.command =
        { job.semanticAnalysis.command with index := received.semanticAnalysis.command.index }
    | .EmitIndex => received.emitIndex = job.emitIndex

theorem fromJSON_toJSON {encoding : Encoding} {job : IndexJob} (h : job.IsUTF8 encoding)
    (target : IndexJob) :
    ∃ received, fromJSON (job.toJSON encoding) target = (received, true) ∧
      job.Transmits received := by
  rw [fromJSON, toJSON, fromJSONIndexJob_eq (fun _ _ => rfl)]
  unfold IsUTF8 at h
  unfold Transmits
  cases hkind : job.kind with
  | SemanticAnalysis =>
      rw [hkind] at h
      exact ⟨_, member_of_decodes rfl (SemanticAnalysisJobDetails.decodes_toJSON h) _, rfl, rfl⟩
  | EmitIndex =>
      rw [hkind] at h
      exact ⟨_, member_of_decodes rfl (EmitIndexJobDetails.decodes_toJSON h) _, rfl, rfl⟩

end IndexJob

namespace IndexJobResult

/-- `toJSON(IndexJobResult)`. -/
def toJSON (encoding : Encoding) (job : IndexJobResult) : Json :=
  toJSONIndexJob job.kind (job.semanticAnalysis.toJSON encoding) (job.emitIndex.toJSON encoding)

/-- `fromJSON(IndexJobResult)`. -/
def fromJSON : Decoder IndexJobResult :=
  fromJSONIndexJob kind (fun kind t => { t with kind })
    (member "details".toList semanticAnalysis
      (fun semanticAnalysis t => { t with semanticAnalysis })
      SemanticAnalysisJobResult.fromJSON)
    (member "details".toList emitIndex (fun emitIndex t => { t with emitIndex })
      EmitIndexJobResult.fromJSON)

/-- All texts of the details that are sent are UTF-8. -/
def IsUTF8 (encoding : Encoding) (job : IndexJobResult) : Prop :=
  match job.kind with
  | .SemanticAnalysis => job.semanticAnalysis.IsUTF8 encoding
  | .EmitIndex => job.emitIndex.IsUTF8 encoding

/-- A result is transmitted as the other one: same kind, and the same details of that kind. -/
def Transmits (job received : IndexJobResult) : Prop :=
  received.kind = job.kind ∧
    match job.kind with
    | .SemanticAnalysis => received.semanticAnalysis = job.semanticAnalysis
    | .EmitIndex => received.emitIndex = job.emitIndex

theorem fromJSON_toJSON {encoding : Encoding} {job : IndexJobResult} (h : job.IsUTF8 encoding)
    (target : IndexJobResult) :
    ∃ received, fromJSON (job.toJSON encoding) target = (received, true) ∧
      job.Transmits received := by
  rw [fromJSON, toJSON, fromJSONIndexJob_eq (fun _ _ => rfl)]
  unfold IsUTF8 at h
  unfold Transmits
  cases hkind : job.kind with
  | SemanticAnalysis =>
      rw [hkind] at h
      exact ⟨_, member_of_decodes rfl (SemanticAnalysisJobResult.decodes_toJSON h) _, rfl, rfl⟩
  | EmitIndex =>
      rw [hkind] at h
      exact ⟨_, member_of_decodes rfl (EmitIndexJobResult.decodes_toJSON h) _, rfl, rfl⟩

end IndexJobResult

/-! ## Messages -/

namespace IndexJobRequest

/-- `toJSON(IndexJobRequest)`. -/
def toJSON (encoding : Encoding) (t : IndexJobRequest) : Json :=
  .object [("id".toList, t.id.toJSON), ("job".toList, t.job.toJSON encoding)]

/-- `fromJSON(IndexJobRequest)`. -/
def fromJSON : Decoder IndexJobRequest := decodeObject <|
  (member "id".toList id (fun id t => { t with id }) JobId.fromJSON).andThen <|
  member "job".toList job (fun job t => { t with job }) IndexJob.fromJSON

theorem fromJSON_toJSON {encoding : Encoding} {request : IndexJobRequest}
    (h : request.job.IsUTF8 encoding) (target : IndexJobRequest) :
    ∃ received, fromJSON (request.toJSON encoding) target = (received, true) ∧
      received.id = request.id ∧ request.job.Transmits received.job := by
  obtain ⟨job, hjob, htransmits⟩ := IndexJob.fromJSON_toJSON h target.job
  refine ⟨⟨request.id, job⟩, ?_, rfl, htransmits⟩
  rw [fromJSON, toJSON, decodeObject_object,
    MemberDecoder.andThen_of_eq (member_of_decodes rfl request.id.decodes_toJSON target)]
  exact member_of_eq rfl hjob

end IndexJobRequest

namespace IndexJobResponse

/-- `toJSON(IndexJobResponse)`. -/
def toJSON (encoding : Encoding) (r : IndexJobResponse) : Json :=
  .object [("workerId".toList, ofUInt64 (UInt64.ofNat r.workerId)),
    ("jobId".toList, r.jobId.toJSON), ("result".toList, r.result.toJSON encoding)]

/-- `fromJSON(IndexJobResponse)`. -/
def fromJSON : Decoder IndexJobResponse := decodeObject <|
  (member "workerId".toList (fun r => UInt64.ofNat r.workerId)
    (fun workerId r => { r with workerId := workerId.toNat }) decodeUINT64).andThen <|
  (member "jobId".toList jobId (fun jobId r => { r with jobId }) JobId.fromJSON).andThen <|
  member "result".toList result (fun result r => { r with result }) IndexJobResult.fromJSON

/-- The response is one that a worker can send: its `WorkerId` has 64 bits, and the texts of
the details that are sent are UTF-8. -/
structure Sendable (encoding : Encoding) (r : IndexJobResponse) : Prop where
  workerId_lt : r.workerId < 2 ^ 64
  isUTF8 : r.result.IsUTF8 encoding

/-- A response is transmitted as the other one. -/
def Transmits (response received : IndexJobResponse) : Prop :=
  received.workerId = response.workerId ∧ received.jobId = response.jobId ∧
    response.result.Transmits received.result

theorem fromJSON_toJSON {encoding : Encoding} {response : IndexJobResponse}
    (h : response.Sendable encoding) (target : IndexJobResponse) :
    ∃ received, fromJSON (response.toJSON encoding) target = (received, true) ∧
      response.Transmits received := by
  obtain ⟨result, hresult, htransmits⟩ := IndexJobResult.fromJSON_toJSON h.isUTF8 target.result
  refine ⟨⟨response.workerId, response.jobId, result⟩, ?_, rfl, rfl, htransmits⟩
  have hworker : (UInt64.ofNat response.workerId).toNat = response.workerId :=
    Nat.mod_eq_of_lt h.workerId_lt
  rw [fromJSON, toJSON, decodeObject_object,
    MemberDecoder.andThen_of_eq (member_of_decodes rfl (decodes_ofUInt64 _) target),
    MemberDecoder.andThen_of_eq (member_of_decodes rfl response.jobId.decodes_toJSON _), hworker]
  exact member_of_eq rfl hresult

end IndexJobResponse

/-- **Messages are transmitted faithfully**: decoding an encoded message succeeds, whatever the
target held before, and gives back the ids, the kind and the details of that kind, the index of
a command apart; and different jobs have different encodings. -/
theorem messages_transmitted (encoding : Encoding) :
    (∀ request target : IndexJobRequest, request.job.IsUTF8 encoding →
      ∃ received, IndexJobRequest.fromJSON (request.toJSON encoding) target = (received, true) ∧
        received.id = request.id ∧ request.job.Transmits received.job) ∧
    (∀ response target : IndexJobResponse, response.Sendable encoding →
      ∃ received, IndexJobResponse.fromJSON (response.toJSON encoding) target = (received, true) ∧
        response.Transmits received) ∧
    ∀ jobId jobId' : JobId, jobId ≠ jobId' → jobId.toJSON ≠ jobId'.toJSON :=
  ⟨fun _ target h => IndexJobRequest.fromJSON_toJSON h target,
    fun _ target h => IndexJobResponse.fromJSON_toJSON h target,
    fun _ _ h heq => h (JobId.toJSON_injective heq)⟩

/-- Texts without bytes from `0x80` on are UTF-8 as they are. -/
def asciiEncoding : Encoding where
  isUTF8 text := text.all fun c => c.toNat < 128
  fixUTF8 text := text

/-- A request to index `a.cc`. -/
def sampleRequest : IndexJobRequest where
  id := JobId.newTask 7
  job := { semanticAnalysis :=
    ⟨{ index := 7, workingDirectory := "/p".toList, filePath := "a.cc".toList,
       arguments := ["clang".toList, "a.cc".toList] }⟩ }

/-- A response with the largest of all hashes. -/
def sampleResponse : IndexJobResponse where
  workerId := 3
  jobId := JobId.newTask 7
  result := { kind := .SemanticAnalysis,
              semanticAnalysis := ⟨[⟨⟨"/p/a.h".toList⟩, ⟨0xFFFFFFFFFFFFFFFF⟩⟩], []⟩ }

theorem sendable_sampleResponse : sampleResponse.Sendable asciiEncoding := by
  refine ⟨by decide, ?_⟩
  show SemanticAnalysisJobResult.IsUTF8 asciiEncoding sampleResponse.result.semanticAnalysis
  unfold SemanticAnalysisJobResult.IsUTF8
  decide

theorem messages_transmitted_sample :
    (∃ received, IndexJobRequest.fromJSON (sampleRequest.toJSON asciiEncoding)
        ⟨JobId.Shutdown, {}⟩ = (received, true) ∧
      received.id = sampleRequest.id ∧ sampleRequest.job.Transmits received.job) ∧
    (∃ received, IndexJobResponse.fromJSON (sampleResponse.toJSON asciiEncoding)
        ⟨0, JobId.Shutdown, { kind := .EmitIndex }⟩ = (received, true) ∧
      sampleResponse.Transmits received) ∧
    JobId.Shutdown.toJSON ≠ (JobId.newTask 7).toJSON := by
  have hrequest : sampleRequest.job.IsUTF8 asciiEncoding := by
    show CommandObject.IsUTF8 asciiEncoding sampleRequest.job.semanticAnalysis.command
    unfold CommandObject.IsUTF8
    decide
  have htransmitted := messages_transmitted asciiEncoding
  exact ⟨htransmitted.1 _ _ hrequest, htransmitted.2.1 _ _ sendable_sampleResponse,
    htransmitted.2.2 _ _ (by decide)⟩

end ScipClang
