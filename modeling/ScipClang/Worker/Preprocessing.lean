import ScipClang.Library.TreeHash
import ScipClang.Worker.IdPathMappings

/-!
# Transcript hashes

While Clang preprocesses a translation unit, `IndexerPreprocessorWrapper`
(`indexer/Preprocessing.cc`) keeps a stack of the files that are being expanded, each with a
running hash.  When a file is left, its hash is recorded under its file id and mixed into the
hash of the file that includes it.

The path of a file is mixed into its hash only if the history of the file is recorded, which is
a debugging feature.  Without it the hash tells nothing about the included files but the shape
of their own includes.

* `Inclusion`: what is entered and left between two points of a translation unit.
* `run_events`: the stack machine computes the hash of the transcript, `LabelledTree.hash`.
* `hashesDistinguish_iff`: when hashes tell two expansions of a header apart.
-/

namespace ScipClang

open HashTables

/-! ## The stack machine -/

/-- `PreprocessorHistoryRecorder`, apart from its output. -/
structure PreprocessorHistoryRecorder where
  /-- `HeaderFilter::matches`. -/
  filter : Str → Bool
  preferRelativePaths : Bool
  rootPath : Str

/-- `PreprocessorHistoryRecorder::normalizePath`, as `Worker` sets it up. -/
def PreprocessorHistoryRecorder.normalizePath (recorder : PreprocessorHistoryRecorder)
    (path : Str) : Str :=
  if recorder.preferRelativePaths && recorder.rootPath.isPrefixOf path then
    path.drop recorder.rootPath.length
  else path

/-- What the wrapper asks of Clang. -/
structure SourceManager where
  /-- `getFileEntryForID`, and `tryGetRealPathName` of the entry. -/
  realPathName : FileId → Option Str
  /-- `debug::tryGetPath`. -/
  tryGetPath : Option FileId → Str

/-- `HashValue::mix`, with the bytes of a text and the decimal number of a hash value; a new hash
value, `init`, is 0. -/
structure HashOperations (H : Type) (B : Type) extends HashFunction H B where
  bytes : Str → B
  format : H → Str

/-- The hash function has no collisions, and no text has the bytes of a hash value. -/
structure HashOperations.CollisionFree {H B : Type} (ops : HashOperations H B) : Prop where
  collisionFree : ops.toHashFunction.CollisionFree
  bytes_injective : Function.Injective ops.bytes
  bytes_ne_raw : ∀ text h, ops.bytes text ≠ ops.raw h

section Machine

variable {H B : Type}

/-- `HistoryEntry`. -/
structure HistoryEntry (H : Type) where
  beforeHash : H
  afterHash : H
  mixedValue : Str
  mixContext : Str
  contextData : Str

/-- `HashValueBuilder`. -/
structure HashValueBuilder (H : Type) where
  runningHash : H
  history : Option (List (HistoryEntry H))

/-- `HeaderInfoBuilder`. -/
structure HeaderInfoBuilder (H : Type) where
  hashValueBuilder : HashValueBuilder H
  fileId : FileId

/-- `PreprocessorHistory`. -/
structure PreprocessorHistory (H : Type) where
  path : Str
  history : List (HistoryEntry H)
  finalHashValue : H

/-- `IndexerPreprocessorWrapper`; `none` on the stack stands for an invalid file. -/
structure IndexerPreprocessorWrapper (H : Type) where
  stack : List (Option (HeaderInfoBuilder H)) := []
  finishedProcessing : AList fun _ : FileId => H := ∅
  /-- What has been written to `recorder->yamlStream`. -/
  yamlStream : List (PreprocessorHistory H) := []

/-- `HashValueBuilder::mix` or `mixWithContext`, whichever `MIX_INTO_HASH` chooses. -/
def HashValueBuilder.mix (ops : HashOperations H B) (builder : HashValueBuilder H) (data : B)
    (mixedValue contextData mixContext : Str) : HashValueBuilder H :=
  let runningHash := ops.mix builder.runningHash data
  { runningHash
    history := builder.history.map fun history => history ++
      [⟨builder.runningHash, runningHash, mixedValue, mixContext, contextData⟩] }

namespace IndexerPreprocessorWrapper

variable (ops : HashOperations H B) (recorder : Option PreprocessorHistoryRecorder)
  (sourceManager : SourceManager)

/-- `MIX_INTO_HASH`. -/
def mixIntoHash (wrapper : IndexerPreprocessorWrapper H) (data : B)
    (mixedValue contextData mixContext : Str) : IndexerPreprocessorWrapper H :=
  match wrapper.stack with
  | some info :: rest =>
      { wrapper with
        stack := some { info with hashValueBuilder :=
          (info.hashValueBuilder.mix ops data mixedValue contextData mixContext) } :: rest }
  | _ => wrapper

/-- `enterFileImpl`. -/
def enterFileImpl (recordHistory : Bool) (enteredFileId : FileId)
    (wrapper : IndexerPreprocessorWrapper H) : IndexerPreprocessorWrapper H :=
  { wrapper with
    stack := some ⟨⟨ops.init, if recordHistory then some [] else none⟩, enteredFileId⟩ ::
      wrapper.stack }

/-- The path that `enterFile` mixes into the hash of a file with the given path. -/
def selfPath (path : Option Str) : Option Str :=
  match recorder, path with
  | some recorder, some path =>
      if path ≠ [] ∧ recorder.filter path = true then some (recorder.normalizePath path) else none
  | _, _ => none

/-- `enterFile`; there is no file id if the location or the file is invalid. -/
def enterFile (entered : Option FileId) (wrapper : IndexerPreprocessorWrapper H) :
    IndexerPreprocessorWrapper H :=
  match entered with
  | none => { wrapper with stack := none :: wrapper.stack }
  | some enteredFileId =>
      match selfPath recorder (sourceManager.realPathName enteredFileId) with
      | some path => (wrapper.enterFileImpl ops true enteredFileId).mixIntoHash ops
          (ops.bytes path) path [] "self path".toList
      | none => wrapper.enterFileImpl ops false enteredFileId

/-- `pathKeyForHistory`; only used if there is a recorder. -/
def pathKeyForHistory (fileId : Option FileId) : Str :=
  recorder.elim [] fun recorder => recorder.normalizePath (sourceManager.tryGetPath fileId)

/-- The first hash of a file is kept. -/
def insertFinished (finishedProcessing : AList fun _ : FileId => H) (entry : FileId × H) :
    AList fun _ : FileId => H :=
  if entry.1 ∈ finishedProcessing then finishedProcessing
  else finishedProcessing.insert entry.1 entry.2

/-- `exitFileImpl`; no result stands for an exception, or for undefined behaviour. -/
def exitFileImpl (fileId : Option FileId) (wrapper : IndexerPreprocessorWrapper H) :
    Option (IndexerPreprocessorWrapper H × Option H) :=
  match fileId, wrapper.stack with
  | none, _ :: rest => some ({ wrapper with stack := rest }, none)
  | some _, some info :: rest =>
      let hashValue := info.hashValueBuilder.runningHash
      some ({ stack := rest
              finishedProcessing := insertFinished wrapper.finishedProcessing
                (info.fileId, hashValue)
              yamlStream := wrapper.yamlStream ++ (info.hashValueBuilder.history.map fun history =>
                ⟨pathKeyForHistory recorder sourceManager (some info.fileId), history,
                  hashValue⟩).toList }, some hashValue)
  | _, _ => none

/-- `exitFile`. -/
def exitFile (previousFileId : Option FileId) (wrapper : IndexerPreprocessorWrapper H) :
    Option (IndexerPreprocessorWrapper H) := do
  let (wrapper, optHash) ← wrapper.exitFileImpl recorder sourceManager previousFileId
  match optHash with
  | none => some wrapper
  | some hashValue =>
      if wrapper.stack.isEmpty then some wrapper
      else some (wrapper.mixIntoHash ops (ops.raw hashValue) (ops.format hashValue)
        (pathKeyForHistory recorder sourceManager previousFileId) "hash for #include".toList)

end IndexerPreprocessorWrapper

/-- The calls of `FileChanged` that do something. -/
inductive FileChange where
  | enterFile (entered : Option FileId)
  | exitFile (previousFileId : Option FileId)

/-- `FileChanged`. -/
def IndexerPreprocessorWrapper.fileChanged (ops : HashOperations H B)
    (recorder : Option PreprocessorHistoryRecorder) (sourceManager : SourceManager)
    (wrapper : IndexerPreprocessorWrapper H) : FileChange → Option (IndexerPreprocessorWrapper H)
  | .enterFile entered => some (wrapper.enterFile ops recorder sourceManager entered)
  | .exitFile previousFileId => wrapper.exitFile ops recorder sourceManager previousFileId

end Machine

/-! ## Expansions and transcripts -/

/-- What is entered and left again: a file, or something that is left with an invalid file id,
such as the text between two line markers. -/
inductive Inclusion where
  | file (fileId : FileId) (includes : List Inclusion)
  | dropped (entered : Option FileId) (includes : List Inclusion)

namespace Inclusion

mutual

/-- The calls of `FileChanged` for an inclusion. -/
def events : Inclusion → List FileChange
  | .file fileId includes =>
      .enterFile (some fileId) :: (eventsAll includes ++ [.exitFile (some fileId)])
  | .dropped entered includes => .enterFile entered :: (eventsAll includes ++ [.exitFile none])

/-- The calls of `FileChanged` for one inclusion after the other. -/
def eventsAll : List Inclusion → List FileChange
  | [] => []
  | inclusion :: inclusions => events inclusion ++ eventsAll inclusions

end

mutual

/-- The files that are expanded, with what they include, in the order in which they are left. -/
def expansions : Inclusion → List (FileId × List Inclusion)
  | .file fileId includes => expansionsAll includes ++ [(fileId, includes)]
  | .dropped _ includes => expansionsAll includes

/-- The files that are expanded by one inclusion after the other. -/
def expansionsAll : List Inclusion → List (FileId × List Inclusion)
  | [] => []
  | inclusion :: inclusions => expansions inclusion ++ expansionsAll inclusions

end

mutual

/-- The file that an inclusion is an expansion of, with its transcript. -/
def transcriptTree (sourceManager : SourceManager) :
    Inclusion → Option (LabelledTree (Option Str))
  | .file fileId includes =>
      some (.node (sourceManager.realPathName fileId) (transcript sourceManager includes))
  | .dropped _ _ => none

/-- The transcript of an expansion: the included files in order, each with its path and with its
own transcript. -/
def transcript (sourceManager : SourceManager) :
    List Inclusion → List (LabelledTree (Option Str))
  | [] => []
  | inclusion :: inclusions =>
      (transcriptTree sourceManager inclusion).toList ++ transcript sourceManager inclusions

end

end Inclusion

/-! ## What the machine computes -/

namespace IndexerPreprocessorWrapper

variable {H B : Type} (ops : HashOperations H B) (recorder : Option PreprocessorHistoryRecorder)
  (sourceManager : SourceManager)

/-- The data that the path of a file adds to its hash. -/
def selfData (path : Option Str) : Option B := (selfPath recorder path).map ops.bytes

/-- The hash of an expansion of a file. -/
def expansionHash (expansion : FileId × List Inclusion) : H :=
  (LabelledTree.node (sourceManager.realPathName expansion.1)
    (Inclusion.transcript sourceManager expansion.2)).hash ops.toHashFunction
      (selfData ops recorder)

/-- A sequence of calls of `FileChanged`. -/
def run (wrapper : IndexerPreprocessorWrapper H) (changes : List FileChange) :
    Option (IndexerPreprocessorWrapper H) :=
  changes.foldlM (fileChanged ops recorder sourceManager) wrapper

/-- The file at the top of the stack has taken up some transcripts, and the expansions are
recorded. -/
structure TakesUp (trees : List (LabelledTree (Option Str)))
    (expansions : List (FileId × List Inclusion)) (before after : IndexerPreprocessorWrapper H) :
    Prop where
  stack_top : ∀ info rest, before.stack = some info :: rest →
    ∃ builder : HashValueBuilder H, after.stack = some ⟨builder, info.fileId⟩ :: rest ∧
      builder.runningHash = LabelledTree.hashAll ops.toHashFunction (selfData ops recorder)
        info.hashValueBuilder.runningHash trees
  stack_invalid : ∀ rest, before.stack = none :: rest → after.stack = none :: rest
  stack_empty : before.stack = [] → after.stack = []
  finished : after.finishedProcessing = (expansions.map fun expansion =>
    (expansion.1, expansionHash ops recorder sourceManager expansion)).foldl insertFinished
      before.finishedProcessing

variable {ops recorder sourceManager}

theorem run_append (wrapper : IndexerPreprocessorWrapper H) (first second : List FileChange) :
    wrapper.run ops recorder sourceManager (first ++ second) =
      (wrapper.run ops recorder sourceManager first).bind fun middle =>
        middle.run ops recorder sourceManager second :=
  List.foldlM_append

theorem run_cons (wrapper : IndexerPreprocessorWrapper H) (change : FileChange)
    (changes : List FileChange) :
    wrapper.run ops recorder sourceManager (change :: changes) =
      (wrapper.fileChanged ops recorder sourceManager change).bind fun next =>
        next.run ops recorder sourceManager changes :=
  List.foldlM_cons

theorem takesUp_refl (wrapper : IndexerPreprocessorWrapper H) :
    TakesUp ops recorder sourceManager [] [] wrapper wrapper where
  stack_top info rest h := ⟨info.hashValueBuilder, h, by rw [LabelledTree.hashAll]⟩
  stack_invalid _ h := h
  stack_empty h := h
  finished := rfl

theorem TakesUp.trans {trees trees' : List (LabelledTree (Option Str))}
    {expansions expansions' : List (FileId × List Inclusion)}
    {before middle after : IndexerPreprocessorWrapper H}
    (h : TakesUp ops recorder sourceManager trees expansions before middle)
    (h' : TakesUp ops recorder sourceManager trees' expansions' middle after) :
    TakesUp ops recorder sourceManager (trees ++ trees') (expansions ++ expansions') before
      after where
  stack_top info rest hstack := by
    obtain ⟨builder, hmiddle, hhash⟩ := h.stack_top info rest hstack
    obtain ⟨builder', hafter, hhash'⟩ := h'.stack_top _ rest hmiddle
    refine ⟨builder', hafter, ?_⟩
    rw [hhash', hhash, LabelledTree.hashAll_append]
  stack_invalid rest hstack := h'.stack_invalid rest (h.stack_invalid rest hstack)
  stack_empty hstack := h'.stack_empty (h.stack_empty hstack)
  finished := by
    rw [h'.finished, h.finished, List.map_append, List.foldl_append]

/-- A file is entered with the hash of its path, if that is recorded. -/
theorem enterFile_some (wrapper : IndexerPreprocessorWrapper H) (fileId : FileId) :
    ∃ builder : HashValueBuilder H,
      wrapper.enterFile ops recorder sourceManager (some fileId) =
        { wrapper with stack := some ⟨builder, fileId⟩ :: wrapper.stack } ∧
      builder.runningHash = (selfData ops recorder (sourceManager.realPathName fileId)).elim
        ops.init (ops.mix ops.init) := by
  cases hpath : selfPath recorder (sourceManager.realPathName fileId) with
  | none =>
      refine ⟨⟨ops.init, none⟩, ?_, ?_⟩
      · simp only [enterFile, hpath]
        rfl
      · rw [selfData, hpath]
        rfl
  | some path =>
      refine ⟨HashValueBuilder.mix ops ⟨ops.init, some []⟩ (ops.bytes path) path []
        "self path".toList, ?_, ?_⟩
      · simp only [enterFile, hpath]
        rfl
      · rw [selfData, hpath]
        rfl

/-- A file that is left: its hash is recorded, and the file below takes it up. -/
theorem exitFile_some {wrapper : IndexerPreprocessorWrapper H} {builder : HashValueBuilder H}
    {fileId : FileId} {rest : List (Option (HeaderInfoBuilder H))}
    (hstack : wrapper.stack = some ⟨builder, fileId⟩ :: rest) :
    ∃ wrapper', wrapper.exitFile ops recorder sourceManager (some fileId) = some wrapper' ∧
      wrapper'.finishedProcessing =
        insertFinished wrapper.finishedProcessing (fileId, builder.runningHash) ∧
      (∀ info below, rest = some info :: below → ∃ builder' : HashValueBuilder H,
        wrapper'.stack = some ⟨builder', info.fileId⟩ :: below ∧
          builder'.runningHash = ops.mix info.hashValueBuilder.runningHash
            (ops.raw builder.runningHash)) ∧
      (∀ below, rest = none :: below → wrapper'.stack = none :: below) ∧
      (rest = [] → wrapper'.stack = []) := by
  unfold exitFile exitFileImpl
  rw [hstack]
  cases rest with
  | nil => exact ⟨_, rfl, rfl, nofun, nofun, fun _ => rfl⟩
  | cons below others =>
      cases below with
      | none =>
          refine ⟨_, rfl, rfl, nofun, fun below heq => ?_, nofun⟩
          obtain ⟨-, rfl⟩ := List.cons.inj heq
          rfl
      | some info =>
          refine ⟨_, rfl, rfl, fun info' below heq => ?_, nofun, nofun⟩
          obtain ⟨hinfo, rfl⟩ := List.cons.inj heq
          obtain rfl := Option.some.inj hinfo
          exact ⟨_, rfl, rfl⟩

theorem exitFile_none {wrapper : IndexerPreprocessorWrapper H}
    {top : Option (HeaderInfoBuilder H)} {rest : List (Option (HeaderInfoBuilder H))}
    (hstack : wrapper.stack = top :: rest) :
    wrapper.exitFile ops recorder sourceManager none = some { wrapper with stack := rest } := by
  unfold exitFile exitFileImpl
  rw [hstack]
  rfl

/-- What is said about the calls for some inclusions. -/
def Computes (ops : HashOperations H B) (recorder : Option PreprocessorHistoryRecorder)
    (sourceManager : SourceManager) (changes : List FileChange)
    (trees : List (LabelledTree (Option Str))) (expansions : List (FileId × List Inclusion)) :
    Prop :=
  ∀ wrapper : IndexerPreprocessorWrapper H, ∃ wrapper',
    wrapper.run ops recorder sourceManager changes = some wrapper' ∧
      TakesUp ops recorder sourceManager trees expansions wrapper wrapper'

theorem computes_file (fileId : FileId) {includes : List Inclusion}
    (h : Computes ops recorder sourceManager (Inclusion.eventsAll includes)
      (Inclusion.transcript sourceManager includes) (Inclusion.expansionsAll includes)) :
    Computes ops recorder sourceManager (Inclusion.file fileId includes).events
      [.node (sourceManager.realPathName fileId) (Inclusion.transcript sourceManager includes)]
      (Inclusion.file fileId includes).expansions := by
  intro wrapper
  obtain ⟨builder, henter, hstart⟩ := @enterFile_some _ _ ops recorder sourceManager wrapper fileId
  obtain ⟨middle, hmiddle, htakes⟩ := h (wrapper.enterFile ops recorder sourceManager (some fileId))
  obtain ⟨builder', hstack, hhash⟩ := htakes.stack_top ⟨builder, fileId⟩ wrapper.stack
    (by rw [henter])
  obtain ⟨after, hexit, hfinished, htop, hinvalid, hempty⟩ :=
    @exitFile_some _ _ ops recorder sourceManager _ _ _ _ hstack
  -- the file has taken up its path and its includes
  have hexpansion : builder'.runningHash =
      expansionHash ops recorder sourceManager (fileId, includes) := by
    rw [hhash, hstart, expansionHash, LabelledTree.hash]
  refine ⟨after, ?_, ?_, hinvalid, hempty, ?_⟩
  · rw [Inclusion.events, run_cons]
    show (IndexerPreprocessorWrapper.run _ _ _ _ _) = _
    rw [run_append, hmiddle, Option.bind_some, run_cons]
    show (exitFile _ _ _ _ _).bind _ = _
    rw [hexit]
    rfl
  · intro info rest hrest
    obtain ⟨builder'', hafter, hmixed⟩ := htop info rest hrest
    refine ⟨builder'', hafter, ?_⟩
    rw [hmixed, hexpansion, LabelledTree.hashAll, LabelledTree.hashAll]
    rfl
  · rw [hfinished, htakes.finished, Inclusion.expansions, List.map_append, List.foldl_append,
      hexpansion, henter]
    rfl

theorem computes_dropped (entered : Option FileId) {includes : List Inclusion}
    (h : Computes ops recorder sourceManager (Inclusion.eventsAll includes)
      (Inclusion.transcript sourceManager includes) (Inclusion.expansionsAll includes)) :
    Computes ops recorder sourceManager (Inclusion.dropped entered includes).events []
      (Inclusion.dropped entered includes).expansions := by
  intro wrapper
  obtain ⟨middle, hmiddle, htakes⟩ := h (wrapper.enterFile ops recorder sourceManager entered)
  -- whatever was pushed is popped
  have hstack : ∃ top, middle.stack = top :: wrapper.stack := by
    cases entered with
    | none => exact ⟨none, htakes.stack_invalid wrapper.stack rfl⟩
    | some fileId =>
        obtain ⟨builder, henter, -⟩ := @enterFile_some _ _ ops recorder sourceManager wrapper fileId
        obtain ⟨builder', hstack, -⟩ := htakes.stack_top ⟨builder, fileId⟩ wrapper.stack
          (by rw [henter])
        exact ⟨_, hstack⟩
  have hfinished : (wrapper.enterFile ops recorder sourceManager entered).finishedProcessing =
      wrapper.finishedProcessing := by
    cases entered with
    | none => rfl
    | some fileId =>
        obtain ⟨builder, henter, -⟩ := @enterFile_some _ _ ops recorder sourceManager wrapper fileId
        rw [henter]
  obtain ⟨top, hstack⟩ := hstack
  refine ⟨{ middle with stack := wrapper.stack }, ?_, ?_⟩
  · rw [Inclusion.events, run_cons]
    show (IndexerPreprocessorWrapper.run _ _ _ _ _) = _
    rw [run_append, hmiddle, Option.bind_some, run_cons]
    show (exitFile _ _ _ _ _).bind _ = _
    rw [exitFile_none hstack]
    rfl
  · refine ⟨(@takesUp_refl _ _ ops recorder sourceManager wrapper).stack_top,
      fun _ hrest => hrest, fun hnil => hnil, ?_⟩
    rw [htakes.finished, hfinished, Inclusion.expansions]

theorem Computes.append {changes changes' : List FileChange}
    {trees trees' : List (LabelledTree (Option Str))}
    {expansions expansions' : List (FileId × List Inclusion)}
    (h : Computes ops recorder sourceManager changes trees expansions)
    (h' : Computes ops recorder sourceManager changes' trees' expansions') :
    Computes ops recorder sourceManager (changes ++ changes') (trees ++ trees')
      (expansions ++ expansions') := by
  intro wrapper
  obtain ⟨middle, hmiddle, htakes⟩ := h wrapper
  obtain ⟨after, hafter, htakes'⟩ := h' middle
  refine ⟨after, ?_, htakes.trans htakes'⟩
  rw [run_append, hmiddle, Option.bind_some, hafter]

mutual

/-- **The machine computes transcript hashes**: an inclusion leaves the stack as it was, but for
the file at the top, which has taken up the transcript, and every expansion is recorded. -/
theorem run_events : ∀ inclusion : Inclusion,
    Computes ops recorder sourceManager inclusion.events
      (inclusion.transcriptTree sourceManager).toList inclusion.expansions
  | .file fileId includes => computes_file fileId (run_eventsAll includes)
  | .dropped entered includes => computes_dropped entered (run_eventsAll includes)

theorem run_eventsAll : ∀ inclusions : List Inclusion,
    Computes ops recorder sourceManager (Inclusion.eventsAll inclusions)
      (Inclusion.transcript sourceManager inclusions) (Inclusion.expansionsAll inclusions)
  | [] => fun wrapper => ⟨wrapper, rfl, takesUp_refl wrapper⟩
  | inclusion :: inclusions => (run_events inclusion).append (run_eventsAll inclusions)

end

/-- Of files that are left once each, every hash is kept. -/
theorem lookup_foldl_insertFinished {entries : List (FileId × H)}
    (hnodup : (entries.map Prod.fst).Nodup) {finishedProcessing : AList fun _ : FileId => H}
    (hfresh : ∀ entry ∈ entries, entry.1 ∉ finishedProcessing) {entry : FileId × H}
    (hentry : entry ∈ entries) :
    (entries.foldl insertFinished finishedProcessing).lookup entry.1 = some entry.2 := by
  have hkeep : ∀ (others : List (FileId × H)) (table : AList fun _ : FileId => H) (fileId : FileId)
      (hashValue : H), table.lookup fileId = some hashValue →
      (others.foldl insertFinished table).lookup fileId = some hashValue := by
    intro others
    induction others with
    | nil => intro table fileId hashValue h; exact h
    | cons other others ih =>
        intro table fileId hashValue h
        apply ih
        unfold insertFinished
        split
        · exact h
        · rename_i habsent
          rw [AList.lookup_insert_ne, h]
          rintro rfl
          exact habsent (AList.lookup_isSome.mp (by rw [h]; rfl))
  induction entries generalizing finishedProcessing with
  | nil => cases hentry
  | cons first entries ih =>
      rw [List.map_cons, List.nodup_cons] at hnodup
      have hinsert : insertFinished finishedProcessing first =
          finishedProcessing.insert first.1 first.2 :=
        if_neg (hfresh first List.mem_cons_self)
      rw [List.foldl_cons, hinsert]
      rcases List.mem_cons.mp hentry with rfl | hmem
      · exact hkeep entries _ _ _ (AList.lookup_insert _)
      · refine ih hnodup.2 (fun other hother => ?_) hmem
        rw [AList.mem_insert, not_or]
        refine ⟨fun heq => hnodup.1 ?_, hfresh other (List.mem_cons_of_mem _ hother)⟩
        exact heq ▸ List.mem_map_of_mem hother

end IndexerPreprocessorWrapper

/-! ## Telling expansions apart -/

/-- What Clang makes of a translation unit: every `#include` has a file id of its own. -/
structure PreprocessedUnit where
  sourceManager : SourceManager
  mainFileId : FileId
  includes : List Inclusion
  nodup : ((Inclusion.file mainFileId includes).expansions.map Prod.fst).Nodup

namespace PreprocessedUnit

variable {H B : Type} (ops : HashOperations H B) (recorder : Option PreprocessorHistoryRecorder)

/-- The expansions of the files of the unit. -/
def expansions (tu : PreprocessedUnit) : List (FileId × List Inclusion) :=
  (Inclusion.file tu.mainFileId tu.includes).expansions

/-- The hash that is recorded for a file: `flushState` leaves the main file. -/
def recordedHash (tu : PreprocessedUnit) (fileId : FileId) : Option H :=
  (IndexerPreprocessorWrapper.run ops recorder tu.sourceManager {}
    (Inclusion.file tu.mainFileId tu.includes).events).bind fun wrapper =>
      wrapper.finishedProcessing.lookup fileId

/-- The transcript of an expansion. -/
def transcript (tu : PreprocessedUnit) (expansion : FileId × List Inclusion) :
    List (LabelledTree (Option Str)) :=
  Inclusion.transcript tu.sourceManager expansion.2

/-- The transcript with the paths as they are recorded, if at all. -/
def recordedTranscript (tu : PreprocessedUnit) (expansion : FileId × List Inclusion) :
    List (LabelledTree (Option Str)) :=
  LabelledTree.relabelAll (IndexerPreprocessorWrapper.selfPath recorder) (tu.transcript expansion)

variable {ops recorder}

theorem recordedHash_eq {tu : PreprocessedUnit} {expansion : FileId × List Inclusion}
    (h : expansion ∈ tu.expansions) :
    tu.recordedHash ops recorder expansion.1 =
      some (IndexerPreprocessorWrapper.expansionHash ops recorder tu.sourceManager expansion) := by
  obtain ⟨wrapper, hrun, htakes⟩ := @IndexerPreprocessorWrapper.run_events _ _ ops recorder
    tu.sourceManager (.file tu.mainFileId tu.includes) {}
  rw [recordedHash, hrun, Option.bind_some, htakes.finished]
  have hmem : (expansion.1, IndexerPreprocessorWrapper.expansionHash ops recorder tu.sourceManager
      expansion) ∈ tu.expansions.map fun expansion =>
        (expansion.1, IndexerPreprocessorWrapper.expansionHash ops recorder tu.sourceManager
          expansion) := List.mem_map.mpr ⟨expansion, h, rfl⟩
  refine IndexerPreprocessorWrapper.lookup_foldl_insertFinished ?_ ?_ hmem
  · rw [List.map_map]
    exact tu.nodup
  · intro _ _
    exact AList.notMem_empty _

/-- Two expansions of a path have the same hash if and only if their transcripts are the same as
far as they are recorded. -/
theorem recordedHash_eq_iff (hfree : ops.CollisionFree) {tu tu' : PreprocessedUnit}
    {expansion expansion' : FileId × List Inclusion}
    (hpath : tu.sourceManager.realPathName expansion.1 =
      tu'.sourceManager.realPathName expansion'.1) :
    IndexerPreprocessorWrapper.expansionHash ops recorder tu.sourceManager expansion =
        IndexerPreprocessorWrapper.expansionHash ops recorder tu'.sourceManager expansion' ↔
      tu.recordedTranscript recorder expansion = tu'.recordedTranscript recorder expansion' := by
  have hseparated : LabelledTree.Separated ops.toHashFunction
      (IndexerPreprocessorWrapper.selfData ops recorder) := by
    intro path h hraw
    obtain ⟨text, -, hbytes⟩ := Option.map_eq_some_iff.mp hraw
    exact hfree.bytes_ne_raw text h hbytes
  have hdata : IndexerPreprocessorWrapper.selfData ops recorder =
      Option.map ops.bytes ∘ IndexerPreprocessorWrapper.selfPath recorder := rfl
  unfold IndexerPreprocessorWrapper.expansionHash
  rw [LabelledTree.hash_eq_iff hfree.collisionFree hseparated, hpath, LabelledTree.relabel,
    LabelledTree.relabel, LabelledTree.node.injEq, hdata]
  rw [← LabelledTree.relabelAll_relabelAll, ← LabelledTree.relabelAll_relabelAll]
  constructor
  · rintro ⟨-, h⟩
    exact LabelledTree.relabelAll_injective (Option.map_injective hfree.bytes_injective) h
  · intro h
    exact ⟨rfl, congrArg _ h⟩

end PreprocessedUnit

/-- **When hashes tell expansions apart**: for two expansions of the same path, the recorded
hashes are equal exactly if the transcripts are, if and only if the transcripts are equal or
still differ when the path of every included file is replaced by what the recorder makes of it,
which is nothing at all for files whose history is not recorded. -/
theorem hashesDistinguish_iff {H B : Type} {ops : HashOperations H B} (hfree : ops.CollisionFree)
    (recorder : Option PreprocessorHistoryRecorder) {tu tu' : PreprocessedUnit}
    {expansion expansion' : FileId × List Inclusion} (hexpansion : expansion ∈ tu.expansions)
    (hexpansion' : expansion' ∈ tu'.expansions) {path : Str}
    (hpath : tu.sourceManager.realPathName expansion.1 = some path)
    (hpath' : tu'.sourceManager.realPathName expansion'.1 = some path) :
    ∃ hashValue hashValue' : H, tu.recordedHash ops recorder expansion.1 = some hashValue ∧
      tu'.recordedHash ops recorder expansion'.1 = some hashValue' ∧
      ((hashValue = hashValue' ↔ tu.transcript expansion = tu'.transcript expansion') ↔
        (tu.transcript expansion = tu'.transcript expansion' ∨
          tu.recordedTranscript recorder expansion ≠
            tu'.recordedTranscript recorder expansion')) := by
  refine ⟨_, _, PreprocessedUnit.recordedHash_eq hexpansion,
    PreprocessedUnit.recordedHash_eq hexpansion', ?_⟩
  rw [PreprocessedUnit.recordedHash_eq_iff hfree (hpath.trans hpath'.symm)]
  have hmono : tu.transcript expansion = tu'.transcript expansion' →
      tu.recordedTranscript recorder expansion = tu'.recordedTranscript recorder expansion' :=
    fun h => congrArg (LabelledTree.relabelAll _) h
  constructor
  · intro h
    by_cases hrecorded : tu.recordedTranscript recorder expansion =
        tu'.recordedTranscript recorder expansion'
    · exact Or.inl (h.mp hrecorded)
    · exact Or.inr hrecorded
  · rintro (heq | hne)
    · exact iff_of_true (hmono heq) heq
    · exact iff_of_false hne (mt hmono hne)

/-- Hash values that tell how they came about. -/
inductive Digest where
  | init
  | mixText (digest : Digest) (text : Str)
  | mixValue (digest value : Digest)
deriving DecidableEq

/-- The operations on `Digest`; the numbers of the history are left blank. -/
def digestOperations : HashOperations Digest (Str ⊕ Digest) where
  init := .init
  mix digest data := data.elim (.mixText digest) (.mixValue digest)
  raw := Sum.inr
  bytes := Sum.inl
  format _ := []

theorem collisionFree_digestOperations : digestOperations.CollisionFree where
  collisionFree :=
    { mix_inj := by
        rintro h h' (text | value) (text' | value') heq
        · obtain ⟨rfl, rfl⟩ := Digest.mixText.inj heq
          exact ⟨rfl, rfl⟩
        · cases heq
        · cases heq
        · obtain ⟨rfl, rfl⟩ := Digest.mixValue.inj heq
          exact ⟨rfl, rfl⟩
      mix_ne_init := by
        rintro h (text | value) heq
        · cases heq
        · cases heq
      raw_injective := Sum.inr_injective }
  bytes_injective := Sum.inl_injective
  bytes_ne_raw _ _ := Sum.inl_ne_inr

/-- Main file 1 includes `h.h` as file 2, which includes file 3 with the given path. -/
def unitWithHeader (included : Str) : PreprocessedUnit where
  sourceManager :=
    { realPathName := fun fileId =>
        if fileId.id = 1 then some "/p/main.cc".toList
        else if fileId.id = 2 then some "/p/h.h".toList else some included
      tryGetPath := fun _ => [] }
  mainFileId := ⟨1⟩
  includes := [.file ⟨2⟩ [.file ⟨3⟩ []]]
  nodup := by decide

/-- The expansion of `h.h`. -/
def headerExpansion : FileId × List Inclusion := (⟨2⟩, [.file ⟨3⟩ []])

/-- A recorder for all files. -/
def recordAll : PreprocessorHistoryRecorder where
  filter _ := true
  preferRelativePaths := true
  rootPath := "/p/".toList

theorem mem_expansions_unitWithHeader (included : Str) :
    headerExpansion ∈ (unitWithHeader included).expansions := by
  show _ ∈ [((⟨3⟩ : FileId), ([] : List Inclusion)), headerExpansion, _]
  exact List.mem_cons_of_mem _ List.mem_cons_self

theorem transcript_unitWithHeader_ne :
    (unitWithHeader "/p/a.h".toList).transcript headerExpansion ≠
      (unitWithHeader "/p/b.h".toList).transcript headerExpansion := by
  intro h
  have hlabel := LabelledTree.node.inj (List.cons.inj h).1
  exact absurd hlabel.1 (by decide)

/-- With a recorder the hashes of `h.h` differ. -/
theorem hashesDistinguish_iff_recordAll :
    (unitWithHeader "/p/a.h".toList).recordedHash digestOperations (some recordAll) ⟨2⟩ ≠
      (unitWithHeader "/p/b.h".toList).recordedHash digestOperations (some recordAll) ⟨2⟩ := by
  obtain ⟨hashValue, hashValue', hhash, hhash', hiff⟩ := hashesDistinguish_iff
    collisionFree_digestOperations (some recordAll)
    (mem_expansions_unitWithHeader "/p/a.h".toList) (mem_expansions_unitWithHeader "/p/b.h".toList)
    rfl rfl
  have hrecorded : (unitWithHeader "/p/a.h".toList).recordedTranscript (some recordAll)
      headerExpansion ≠
        (unitWithHeader "/p/b.h".toList).recordedTranscript (some recordAll) headerExpansion := by
    intro h
    have hlabel := LabelledTree.node.inj (List.cons.inj h).1
    exact absurd hlabel.1 (by decide)
  intro heq
  have hvalues : hashValue = hashValue' :=
    Option.some.inj (hhash.symm.trans (heq.trans hhash'))
  exact transcript_unitWithHeader_ne ((hiff.mpr (Or.inr hrecorded)).mp hvalues)

/-- Without one they are the same, although `h.h` includes different files. -/
theorem sameHash_differentIncludes :
    digestOperations.CollisionFree ∧
      (unitWithHeader "/p/a.h".toList).recordedHash digestOperations none ⟨2⟩ =
        (unitWithHeader "/p/b.h".toList).recordedHash digestOperations none ⟨2⟩ ∧
      ((unitWithHeader "/p/a.h".toList).recordedHash digestOperations none ⟨2⟩).isSome = true ∧
      (unitWithHeader "/p/a.h".toList).sourceManager.realPathName ⟨2⟩ =
        (unitWithHeader "/p/b.h".toList).sourceManager.realPathName ⟨2⟩ ∧
      (unitWithHeader "/p/a.h".toList).transcript headerExpansion ≠
        (unitWithHeader "/p/b.h".toList).transcript headerExpansion := by
  exact ⟨collisionFree_digestOperations, by decide, by decide, by decide,
    transcript_unitWithHeader_ne⟩

end ScipClang
