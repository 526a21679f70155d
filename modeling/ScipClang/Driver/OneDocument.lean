import ScipClang.Driver.Merge

/-!
# One document per file

The driver processes the semantic analysis results of translation units one after the
other and answers each with the files its worker is to index; the shards are merged in any
order, and some may be missing.

A worker indexes its main file no matter what the driver answers.  So the planner does not
have the last word on which files are indexed, and a main file that is compiled by two
commands in the same way ends up in the index twice.

* `mem_toBeIndexed_iff`: the files that are indexed, in terms of what the translation units
  report.
* `NoSharedPath`: the condition under which every path gets one document.
-/

namespace ScipClang

open HashTables

/-- A list without duplicates has at most one element if all its elements are equal. -/
theorem length_le_one_iff_of_nodup {α : Type} [DecidableEq α] {l : List α} (h : l.Nodup) :
    l.length ≤ 1 ↔ ∀ x ∈ l, ∀ y ∈ l, x = y := by
  rw [← List.toFinset_card_of_nodup h, Finset.card_le_one]
  simp

section OneDocument

variable (env : PathEnv) (root : RootPath) (runs : List WorkerRun)

/-- The shards that are merged: each belongs to one of the translation units, and no
translation unit has two.  External symbols come along. -/
structure MergedShards where
  shards : List (Fin runs.length × List SymbolInformation)
  nodup : (shards.map Prod.fst).Nodup

/-- The semantic analysis results, in the order in which the driver processes them. -/
def semaResults : List SemanticAnalysisJobResult := runs.map WorkerRun.semaResult

/-- The planner after all results. -/
def finalPlanner : FileIndexingPlanner :=
  ((FileIndexingPlanner.ofRoot root).saveAll (semaResults runs)).1

/-- The files that the driver asks the worker of a translation unit to index. -/
def filesToBeIndexed (task : Fin runs.length) : List PreprocessedFileInfo :=
  ((FileIndexingPlanner.ofRoot root).saveAll (semaResults runs)).2.getD task []

/-- The shard of a translation unit. -/
def indexShard (shard : Fin runs.length × List SymbolInformation) : Index where
  documents := (runs.get shard.1).documents env root (filesToBeIndexed root runs shard.1)
  externalSymbols := shard.2

/-- The index that the driver writes. -/
def writtenIndex (merged : MergedShards runs) (forwardDeclShards : List (List ForwardDecl))
    (orders : MergeOrders) (deterministic : Bool) : Option (List Index) :=
  mergeShardsAndEmit (finalPlanner root runs) (merged.shards.map (indexShard env root runs))
    forwardDeclShards orders deterministic

/-- The translation unit has a file for the (path, hash) pair, and none that was processed
earlier reports the pair. -/
def FirstToReport (task : Fin runs.length) (fileInfo : PreprocessedFileInfo)
    (fileId : FileId) : Prop :=
  (runs.get task).clangIdLookupMap.lookup fileInfo.path fileInfo.hashValue = some fileId ∧
    ∀ earlier < task, fileInfo ∉ (runs.get earlier).semaResult.pairs

/-- The worker of a translation unit indexes the file: it is the main file, or the file of a
pair that the translation unit is the first to report. -/
def WorkerIndexes (task : Fin runs.length) (fileId : FileId) : Prop :=
  fileId = (runs.get task).tu.mainFileId ∨ ∃ fileInfo, FirstToReport runs task fileInfo fileId

/-- The file has the given path in the project, and the shard of its translation unit is
merged. -/
def MergedUnder (merged : MergedShards runs) (path : Str) (task : Fin runs.length)
    (fileId : FileId) : Prop :=
  task ∈ merged.shards.map Prod.fst ∧
    ((runs.get task).projectPath env root fileId).map RootRelativePathRef.value = some path

/-- Exactly one hash was reported for the file that the path stands for. -/
def HasOneHash (path : Str) : Prop :=
  (FileIndexingPlanner.reportedHashes (semaResults runs)
    (root.makeAbsolute ⟨path, .Project⟩)).card = 1

/-- The condition under which every path gets one document, a condition on the paths of files
with a single hash: a main file is nobody else's main file and not the file of a pair that
is reported first, and different pairs that are reported first have different paths. -/
structure NoSharedPath (merged : MergedShards runs) : Prop where
  mainFile : ∀ path task task' fileId', HasOneHash root runs path →
    MergedUnder env root runs merged path task (runs.get task).tu.mainFileId →
    MergedUnder env root runs merged path task' fileId' → WorkerIndexes runs task' fileId' →
      task' = task ∧ fileId' = (runs.get task).tu.mainFileId
  reported : ∀ path task fileInfo fileId task' fileInfo' fileId', HasOneHash root runs path →
    MergedUnder env root runs merged path task fileId →
    MergedUnder env root runs merged path task' fileId' →
    FirstToReport runs task fileInfo fileId → FirstToReport runs task' fileInfo' fileId' →
      fileInfo = fileInfo'

variable {env root runs}

theorem wellFormed_semaResults : ∀ result ∈ semaResults runs, result.WellFormed := by
  intro result hmem
  obtain ⟨run, -, rfl⟩ := List.mem_map.mp hmem
  exact PreprocessorState.wellFormed_semaResult run.deterministic

theorem isMultiplyIndexedApproximate_finalPlanner (path : Str) :
    isMultiplyIndexedApproximate (finalPlanner root runs) path = false ↔
      HasOneHash root runs path := by
  rw [isMultiplyIndexedApproximate, finalPlanner, HasOneHash,
    FileIndexingPlanner.isMultiplyIndexed_saveAll root _ wellFormed_semaResults]
  by_cases hzero : (FileIndexingPlanner.reportedHashes (semaResults runs)
      (root.makeAbsolute ⟨path, .Project⟩)).card = 0
  · simp [hzero]
  · by_cases hone : (FileIndexingPlanner.reportedHashes (semaResults runs)
        (root.makeAbsolute ⟨path, .Project⟩)).card = 1
    · simp [hone]
    · simp [hzero, hone]

/-- The files the driver asks for are the reported ones that are new. -/
theorem mem_filesToBeIndexed {task : Fin runs.length} {fileInfo : PreprocessedFileInfo} :
    fileInfo ∈ filesToBeIndexed root runs task ↔
      fileInfo ∈ (runs.get task).semaResult.pairs ∧
        ∀ earlier < task, fileInfo ∉ (runs.get earlier).semaResult.pairs := by
  have hhanded := FileIndexingPlanner.mem_saveAll_getElem root (semaResults runs) task fileInfo
  have hlist : fileInfo ∈ filesToBeIndexed root runs task ↔
      ∃ handedOut, ((FileIndexingPlanner.ofRoot root).saveAll
        (semaResults runs)).2[(task : ℕ)]? = some handedOut ∧ fileInfo ∈ handedOut := by
    rw [filesToBeIndexed, List.getD_eq_getElem?_getD]
    cases ((FileIndexingPlanner.ofRoot root).saveAll (semaResults runs)).2[(task : ℕ)]? <;> simp
  have hresult : ∀ k : Fin runs.length, (semaResults runs)[(k : ℕ)]? =
      some (runs.get k).semaResult := by
    intro k
    simp [semaResults]
  rw [hlist, hhanded, hresult]
  refine and_congr (by simp) ?_
  constructor
  · intro hnone earlier hlt
    exact hnone earlier hlt _ (hresult earlier)
  · intro hnone k hk result hget
    have hbound : k < runs.length := lt_trans hk task.isLt
    rw [hresult ⟨k, hbound⟩, Option.some.injEq] at hget
    rw [← hget]
    exact hnone ⟨k, hbound⟩ hk

theorem FirstToReport.reported {task : Fin runs.length} {fileInfo : PreprocessedFileInfo}
    {fileId : FileId} (h : FirstToReport runs task fileInfo fileId) :
    fileInfo ∈ (runs.get task).semaResult.pairs :=
  (PreprocessorState.mem_pairs_semaResult _ _).mpr (Option.isSome_iff_exists.mpr ⟨fileId, h.1⟩)

/-- One translation unit is the first to report a pair, with one file. -/
theorem FirstToReport.unique {task task' : Fin runs.length} {fileInfo : PreprocessedFileInfo}
    {fileId fileId' : FileId} (h : FirstToReport runs task fileInfo fileId)
    (h' : FirstToReport runs task' fileInfo fileId') : task = task' ∧ fileId = fileId' := by
  obtain rfl : task = task' := by
    rcases lt_trichotomy task task' with hlt | heq | hlt
    · exact absurd h.reported (h'.2 task hlt)
    · exact heq
    · exact absurd h'.reported (h.2 task' hlt)
  exact ⟨rfl, Option.some.inj (h.1.symm.trans h'.1)⟩

/-- A file of a translation unit belongs to one pair. -/
theorem FirstToReport.fileInfo_unique {task : Fin runs.length}
    {fileInfo fileInfo' : PreprocessedFileInfo} {fileId : FileId}
    (h : FirstToReport runs task fileInfo fileId)
    (h' : FirstToReport runs task fileInfo' fileId) : fileInfo = fileInfo' := by
  obtain ⟨hpath, hhash⟩ := PreprocessorState.mapSound_clangIdLookupMap.lookup _ _ _ h.1
  obtain ⟨hpath', hhash'⟩ := PreprocessorState.mapSound_clangIdLookupMap.lookup _ _ _ h'.1
  cases fileInfo
  cases fileInfo'
  rw [PreprocessedFileInfo.mk.injEq]
  exact ⟨Option.some.inj (hpath.symm.trans hpath'), Option.some.inj (hhash.symm.trans hhash')⟩

/-- Two files that are indexed under the path of a file with a single hash are the same. -/
theorem noSharedPath_iff {merged : MergedShards runs} :
    NoSharedPath env root runs merged ↔ ∀ path, HasOneHash root runs path →
      ∀ task fileId task' fileId', MergedUnder env root runs merged path task fileId →
        WorkerIndexes runs task fileId → MergedUnder env root runs merged path task' fileId' →
          WorkerIndexes runs task' fileId' → task = task' ∧ fileId = fileId' := by
  constructor
  · rintro h path hhash task fileId task' fileId' hunder (rfl | ⟨fileInfo, hfirst⟩) hunder'
      hindexed'
    · obtain ⟨rfl, rfl⟩ := h.mainFile path task task' fileId' hhash hunder hunder' hindexed'
      exact ⟨rfl, rfl⟩
    · rcases hindexed' with rfl | ⟨fileInfo', hfirst'⟩
      · exact h.mainFile path task' task fileId hhash hunder' hunder (.inr ⟨fileInfo, hfirst⟩)
      · obtain rfl := h.reported path task fileInfo fileId task' fileInfo' fileId' hhash hunder
          hunder' hfirst hfirst'
        exact hfirst.unique hfirst'
  · intro h
    constructor
    case mainFile =>
      intro path task task' fileId' hhash hunder hunder' hindexed'
      exact h path hhash task' fileId' task _ hunder' hindexed' hunder (.inl rfl)
    case reported =>
      intro path task fileInfo fileId task' fileInfo' fileId' hhash hunder hunder' hfirst hfirst'
      obtain ⟨rfl, rfl⟩ := h path hhash task fileId task' fileId' hunder (.inr ⟨fileInfo, hfirst⟩)
        hunder' (.inr ⟨fileInfo', hfirst'⟩)
      exact hfirst.fileInfo_unique hfirst'

/-- What the worker indexes, in terms of what the translation units report. -/
theorem mem_toBeIndexed_iff {task : Fin runs.length} {fileId : FileId} :
    fileId ∈ (runs.get task).toBeIndexed (filesToBeIndexed root runs task) ↔
      WorkerIndexes runs task fileId := by
  rw [WorkerRun.mem_toBeIndexed, WorkerIndexes]
  refine or_congr_right ?_
  constructor
  · rintro ⟨fileInfo, hmem, hlookup⟩
    exact ⟨fileInfo, hlookup, (mem_filesToBeIndexed.mp hmem).2⟩
  · rintro ⟨fileInfo, hfirst⟩
    exact ⟨fileInfo, mem_filesToBeIndexed.mpr ⟨hfirst.reported, hfirst.2⟩, hfirst.1⟩

variable (env root runs) in
/-- The files that the merged shards have documents for. -/
def emittedFiles (merged : MergedShards runs) :
    List (Fin runs.length × RootRelativePathRef × FileId) :=
  (merged.shards.map Prod.fst).flatMap fun task =>
    ((runs.get task).indexedProjectFiles env root (filesToBeIndexed root runs task)).map
      (Prod.mk task)

theorem nodup_emittedFiles (merged : MergedShards runs) :
    (emittedFiles env root runs merged).Nodup := by
  have hnodup : ∀ task : Fin runs.length,
      ((runs.get task).indexedProjectFiles env root (filesToBeIndexed root runs task)).Nodup := by
    intro task
    rw [WorkerRun.indexedProjectFiles_perm.nodup_iff]
    refine WorkerRun.nodup_toBeIndexed.filterMap ?_
    intro f g pair hf hg
    obtain ⟨p, -, hp⟩ := Option.map_eq_some_iff.mp hf
    obtain ⟨q, -, hq⟩ := Option.map_eq_some_iff.mp hg
    exact congrArg Prod.snd (hp.trans hq.symm)
  rw [emittedFiles, List.nodup_flatMap]
  refine ⟨fun task _ => (hnodup task).map (Prod.mk_right_injective task), ?_⟩
  refine merged.nodup.imp ?_
  intro task task' hne
  simp only [Function.onFun]
  intro x hx hx'
  obtain ⟨pair, -, rfl⟩ := List.mem_map.mp hx
  obtain ⟨pair', -, heq⟩ := List.mem_map.mp hx'
  exact hne (congrArg Prod.fst heq).symm

theorem mem_emittedFiles {merged : MergedShards runs} {task : Fin runs.length}
    {path : RootRelativePathRef} {fileId : FileId} :
    (task, path, fileId) ∈ emittedFiles env root runs merged ↔
      task ∈ merged.shards.map Prod.fst ∧ WorkerIndexes runs task fileId ∧
        (runs.get task).projectPath env root fileId = some path := by
  rw [emittedFiles, List.mem_flatMap]
  constructor
  · rintro ⟨other, hother, hmem⟩
    obtain ⟨pair, hpair, heq⟩ := List.mem_map.mp hmem
    obtain ⟨rfl, rfl⟩ := Prod.mk.inj heq
    obtain ⟨hindexed, hpath⟩ := WorkerRun.mem_indexedProjectFiles.mp hpair
    exact ⟨hother, mem_toBeIndexed_iff.mp hindexed, hpath⟩
  · rintro ⟨hmerged, hindexed, hpath⟩
    exact ⟨task, hmerged, List.mem_map.mpr ⟨(path, fileId),
      WorkerRun.mem_indexedProjectFiles.mpr ⟨mem_toBeIndexed_iff.mpr hindexed, hpath⟩, rfl⟩⟩

/-- The documents of all merged shards, one for every emitted file. -/
theorem documents_merged (merged : MergedShards runs) :
    (merged.shards.map (indexShard env root runs)).flatMap Index.documents =
      (emittedFiles env root runs merged).map fun file => (runs.get file.1).document file.2 := by
  rw [emittedFiles, List.map_flatMap, List.flatMap_map, List.flatMap_map]
  refine List.flatMap_congr fun shard _ => ?_
  rw [List.map_map]
  rfl

/-- The documents read for a path are few if and only if the files behind them are. -/
theorem length_filter_merged_le_one (merged : MergedShards runs) (path : Str) :
    (((merged.shards.map (indexShard env root runs)).flatMap Index.documents).filter fun doc =>
        doc.relativePath = path).length ≤ 1 ↔
      ∀ task fileId task' fileId', MergedUnder env root runs merged path task fileId →
        WorkerIndexes runs task fileId → MergedUnder env root runs merged path task' fileId' →
          WorkerIndexes runs task' fileId' → task = task' ∧ fileId = fileId' := by
  rw [documents_merged, List.filter_map, List.length_map,
    length_le_one_iff_of_nodup ((nodup_emittedFiles merged).filter _)]
  constructor
  · rintro hall task fileId task' fileId' ⟨htask, hpath⟩ hindexed ⟨htask', hpath'⟩ hindexed'
    obtain ⟨p, hp, hvalue⟩ := Option.map_eq_some_iff.mp hpath
    obtain ⟨p', hp', hvalue'⟩ := Option.map_eq_some_iff.mp hpath'
    have hmem : (task, p, fileId) ∈ emittedFiles env root runs merged :=
      mem_emittedFiles.mpr ⟨htask, hindexed, hp⟩
    have hmem' : (task', p', fileId') ∈ emittedFiles env root runs merged :=
      mem_emittedFiles.mpr ⟨htask', hindexed', hp'⟩
    have heq := hall _ (List.mem_filter.mpr ⟨hmem, by simpa [WorkerRun.document] using hvalue⟩)
      _ (List.mem_filter.mpr ⟨hmem', by simpa [WorkerRun.document] using hvalue'⟩)
    simp only [Prod.mk.injEq] at heq
    exact ⟨heq.1, heq.2.2⟩
  · rintro hall ⟨task, p, fileId⟩ hmem ⟨task', p', fileId'⟩ hmem'
    obtain ⟨hmem, hvalue⟩ := List.mem_filter.mp hmem
    obtain ⟨hmem', hvalue'⟩ := List.mem_filter.mp hmem'
    obtain ⟨htask, hindexed, hp⟩ := mem_emittedFiles.mp hmem
    obtain ⟨htask', hindexed', hp'⟩ := mem_emittedFiles.mp hmem'
    simp only [Function.comp_apply, WorkerRun.document, decide_eq_true_eq] at hvalue hvalue'
    obtain ⟨rfl, rfl⟩ := hall task fileId task' fileId'
      ⟨htask, by rw [hp, Option.map_some, hvalue]⟩ hindexed
      ⟨htask', by rw [hp', Option.map_some, hvalue']⟩ hindexed'
    rw [hp, Option.some.injEq] at hp'
    rw [hp']

/-- **Exactly when the index has one document for every path.** -/
theorem oneDocumentPerPath_iff (merged : MergedShards runs)
    (forwardDeclShards : List (List ForwardDecl)) (orders : MergeOrders) (deterministic : Bool) :
    ∃ output, writtenIndex env root runs merged forwardDeclShards orders deterministic =
        some output ∧
      (OneDocumentPerPath output ↔ NoSharedPath env root runs merged) := by
  obtain ⟨output, hmerge, hcount⟩ := mergeShardsAndEmit_spec (finalPlanner root runs)
    (merged.shards.map (indexShard env root runs)) forwardDeclShards orders deterministic
  refine ⟨output, hmerge, ?_⟩
  rw [noSharedPath_iff]
  constructor
  · intro hone path hhash
    have hsingle := (isMultiplyIndexedApproximate_finalPlanner path).mpr hhash
    rw [← length_filter_merged_le_one, ← (hcount path).2 hsingle]
    exact hone path
  · intro hshared path
    cases hmulti : isMultiplyIndexedApproximate (finalPlanner root runs) path with
    | true => exact (hcount path).1 hmulti
    | false =>
        rw [(hcount path).2 hmulti, length_filter_merged_le_one]
        exact hshared path ((isMultiplyIndexedApproximate_finalPlanner path).mp hmulti)

end OneDocument

/-- The main file `/p/foo.cc` of a command that is run in `/p/build`. -/
def mainFileRun : WorkerRun where
  tu :=
    { finishedProcessing := AList.singleton ⟨1⟩ ⟨7⟩
      getAbsPath := fun fileId => if fileId = ⟨1⟩ then some ⟨"/p/foo.cc".toList⟩ else none
      mainFileId := ⟨1⟩
      buildRootPath := ⟨⟨"/p/build".toList⟩, .Build⟩
      emitDocumentOccurrencesAndSymbols := fun _ => ([], []) }
  packageMap := { projectRootPath := ⟨⟨"/p".toList⟩, .Project⟩, isTesting := false }
  order := .inOrder
  deterministic := false

/-- The shards of two commands are merged. -/
def bothShards : MergedShards [mainFileRun, mainFileRun] where
  shards := [(0, []), (1, [])]
  nodup := by decide

/-- Two commands compile `/p/foo.cc` in the same way, and it has two documents. -/
theorem main_file_emitted_twice :
    ∃ output, writtenIndex posixEnv ⟨⟨"/p".toList⟩, .Project⟩ [mainFileRun, mainFileRun] bothShards
        [] ⟨.inOrder, fun _ => .inOrder, .inOrder⟩ false = some output ∧
      ¬ OneDocumentPerPath output := by
  obtain ⟨output, hmerge, hcount⟩ := mergeShardsAndEmit_spec
    (finalPlanner ⟨⟨"/p".toList⟩, .Project⟩ [mainFileRun, mainFileRun])
    (bothShards.shards.map
      (indexShard posixEnv ⟨⟨"/p".toList⟩, .Project⟩ [mainFileRun, mainFileRun]))
    [] ⟨.inOrder, fun _ => .inOrder, .inOrder⟩ false
  refine ⟨output, hmerge, fun hone => ?_⟩
  have hsingle : isMultiplyIndexedApproximate
      (finalPlanner ⟨⟨"/p".toList⟩, .Project⟩ [mainFileRun, mainFileRun]) "foo.cc".toList =
        false := by
    decide
  have htwo := (hcount "foo.cc".toList).2 hsingle
  have hdocuments : (((bothShards.shards.map
      (indexShard posixEnv ⟨⟨"/p".toList⟩, .Project⟩ [mainFileRun, mainFileRun])).flatMap
        Index.documents).filter fun doc => doc.relativePath = "foo.cc".toList).length = 2 := by
    decide
  have hle := hone "foo.cc".toList
  omega

end ScipClang
