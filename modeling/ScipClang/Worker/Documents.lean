import ScipClang.Worker.FileMetadata

/-!
# The documents a worker emits

Once the driver has answered the semantic analysis of a translation unit, the worker
indexes the main file and the files it was asked for (`IndexerAstConsumer` and
`IndexerAstVisitor::writeIndex`, `indexer/AstConsumer.cc`), and emits one document for
each of these file ids that is in the project.

What goes into a document is the business of the indexers of declarations and macros and
is a parameter here.
-/

namespace ScipClang

open HashTables

/-! ## Metadata of all files -/

/-- `FileMetadataMap`. -/
structure FileMetadataMap where
  map : AList (fun _ : FileId => FileMetadata) := ∅
  projectRootPath : RootPath
  buildRootPath : RootPath
  packageMap : PackageMap

namespace FileMetadataMap

/-- `FileMetadataMap::insert`: metadata that exists is kept. -/
def insert (env : PathEnv) (fileMetadataMap : FileMetadataMap) (fileId : FileId)
    (absPath : AbsolutePath) : FileMetadataMap :=
  let (optPackageMetadata, packageMap) := fileMetadataMap.packageMap.lookup env absPath.value
  { fileMetadataMap with
    packageMap := packageMap
    map := upsert fileMetadataMap.map fileId (·.getD
      (fileMetadata env fileMetadataMap.projectRootPath fileMetadataMap.buildRootPath
        optPackageMetadata absPath)) }

/-- `FileMetadataMap::populate`. -/
def populate (env : PathEnv) (fileMetadataMap : FileMetadataMap)
    (order : IterationOrder WorkerTable) (clangIdLookupMap : ClangIdLookupMap) :
    FileMetadataMap :=
  (order.iterate .clangIdLookupMap clangIdLookupMap.entries).foldl
    (fun fileMetadataMap entry =>
      (order.iterate (.hashToFileId entry.1) entry.2.entries).foldl
        (fun fileMetadataMap hashAndId => fileMetadataMap.insert env hashAndId.2 entry.1)
        fileMetadataMap)
    fileMetadataMap

/-- The loop of `populate` over the (path, hash) pairs, as one loop over files. -/
theorem populate_eq {env : PathEnv} {fileMetadataMap : FileMetadataMap}
    (order : IterationOrder WorkerTable) (clangIdLookupMap : ClangIdLookupMap) :
    fileMetadataMap.populate env order clangIdLookupMap =
      ((order.iterate .clangIdLookupMap clangIdLookupMap.entries).flatMap fun entry =>
        (order.iterate (.hashToFileId entry.1) entry.2.entries).map fun hashAndId =>
          (hashAndId.2, entry.1)).foldl
        (fun fileMetadataMap file => fileMetadataMap.insert env file.1 file.2) fileMetadataMap := by
  simp only [populate, List.foldl_flatMap, List.foldl_map]

/-- `FileMetadataMap::getStableFileId`. -/
def getStableFileId (fileMetadataMap : FileMetadataMap) (fileId : FileId) :
    Option StableFileId :=
  (fileMetadataMap.map.lookup fileId).map FileMetadata.stableFileId

end FileMetadataMap

/-- `operator<=>` of `RootRelativePathRef`. -/
def compareRootRelativePathRef (lhs rhs : RootRelativePathRef) : Ordering :=
  (compareStrings lhs.value rhs.value).then (compare lhs.kind.ctorIdx rhs.kind.ctorIdx)

/-- A translation unit as the worker sees it after preprocessing. -/
structure TranslationUnit extends PreprocessorState where
  mainFileId : FileId
  buildRootPath : RootPath
  emitDocumentOccurrencesAndSymbols : FileId → List Occurrence × List SymbolInformation

/-- One translation unit in one worker: the package map as it is when the worker gets
there, and the order in which hash tables happen to be iterated. -/
structure WorkerRun where
  tu : TranslationUnit
  packageMap : PackageMap
  order : IterationOrder WorkerTable
  deterministic : Bool

namespace WorkerRun

variable (env : PathEnv) (projectRootPath : RootPath) (run : WorkerRun)
  (filesToBeIndexed : List PreprocessedFileInfo)

/-- The map from (path, hash) pairs to file ids. -/
def clangIdLookupMap : ClangIdLookupMap := run.tu.toPreprocessorState.clangIdLookupMap run.order

/-- The result of the semantic analysis. -/
def semaResult : SemanticAnalysisJobResult :=
  run.tu.toPreprocessorState.semaResult run.order run.deterministic

/-- The metadata after `IndexerAstConsumer::computeFileIdsToBeIndexed`. -/
def fileMetadataMap : FileMetadataMap :=
  let fileMetadataMap := FileMetadataMap.populate env
    { projectRootPath := projectRootPath, buildRootPath := run.tu.buildRootPath,
      packageMap := run.packageMap }
    run.order run.clangIdLookupMap
  match run.tu.getAbsPath run.tu.mainFileId with
  | some mainFileAbsPath => fileMetadataMap.insert env run.tu.mainFileId mainFileAbsPath
  | none => fileMetadataMap

/-- The loop body that resolves a (path, hash) pair sent by the driver. -/
def resolveFile (toBeIndexed : List FileId) (fileInfo : PreprocessedFileInfo) : List FileId :=
  match run.clangIdLookupMap.lookup fileInfo.path fileInfo.hashValue with
  | some fileId => toBeIndexed.insert fileId
  | none => toBeIndexed

/-- `toBeIndexed` in `IndexerAstConsumer::HandleTranslationUnit`; the main file is always
part of it. -/
def toBeIndexed : List FileId :=
  let mainFile := if (run.tu.getAbsPath run.tu.mainFileId).isSome then [run.tu.mainFileId] else []
  (filesToBeIndexed.foldl run.resolveFile mainFile).insert run.tu.mainFileId

/-- `indexedProjectFiles` in `IndexerAstVisitor::writeIndex`. -/
def indexedProjectFiles : List (RootRelativePathRef × FileId) :=
  let indexedProjectFiles :=
    (run.order.iterate .toBeIndexed (run.toBeIndexed filesToBeIndexed)).filterMap fun fileId =>
      match (run.fileMetadataMap env projectRootPath).getStableFileId fileId with
      | some stableFileId =>
          if stableFileId.isInProject then some (stableFileId.path, fileId) else none
      | none => none
  if run.deterministic then
    indexedProjectFiles.mergeSort fun p1 p2 => (compareRootRelativePathRef p1.1 p2.1).isLE
  else indexedProjectFiles

/-- A document of `IndexerAstVisitor::writeIndex`. -/
def document (projectFile : RootRelativePathRef × FileId) : Document :=
  let contents := run.tu.emitDocumentOccurrencesAndSymbols projectFile.2
  { language := "CPP".toList
    relativePath := projectFile.1.value
    occurrences := contents.1
    symbols := contents.2 }

/-- The documents of the shard that `IndexerAstVisitor::writeIndex` emits. -/
def documents : List Document :=
  (run.indexedProjectFiles env projectRootPath filesToBeIndexed).map run.document

/-! ## Which files are indexed -/

variable {env projectRootPath run filesToBeIndexed} {fileId : FileId}

theorem mem_foldl_resolveFile (files : List PreprocessedFileInfo) (set : List FileId) :
    fileId ∈ files.foldl run.resolveFile set ↔ fileId ∈ set ∨
      ∃ fileInfo ∈ files,
        run.clangIdLookupMap.lookup fileInfo.path fileInfo.hashValue = some fileId := by
  induction files generalizing set with
  | nil => simp
  | cons fileInfo files ih =>
      rw [List.foldl_cons, ih, resolveFile]
      cases hlookup : run.clangIdLookupMap.lookup fileInfo.path fileInfo.hashValue with
      | none => simp [hlookup]
      | some found =>
          simp only [List.mem_insert_iff, List.exists_mem_cons_iff, hlookup, Option.some.injEq,
            eq_comm (a := fileId)]
          tauto

theorem nodup_foldl_resolveFile (files : List PreprocessedFileInfo) {set : List FileId}
    (h : set.Nodup) : (files.foldl run.resolveFile set).Nodup := by
  induction files generalizing set with
  | nil => exact h
  | cons fileInfo files ih =>
      refine ih ?_
      unfold resolveFile
      split
      · exact h.insert
      · exact h

theorem nodup_toBeIndexed : (run.toBeIndexed filesToBeIndexed).Nodup := by
  unfold toBeIndexed
  refine (nodup_foldl_resolveFile filesToBeIndexed ?_).insert
  split
  · exact List.nodup_singleton _
  · exact List.nodup_nil

/-- The worker indexes its main file and the files the driver asked for. -/
theorem mem_toBeIndexed :
    fileId ∈ run.toBeIndexed filesToBeIndexed ↔ fileId = run.tu.mainFileId ∨
      ∃ fileInfo ∈ filesToBeIndexed,
        run.clangIdLookupMap.lookup fileInfo.path fileInfo.hashValue = some fileId := by
  unfold toBeIndexed
  rw [List.mem_insert_iff, mem_foldl_resolveFile, ← or_assoc]
  refine or_congr_left ?_
  split
  · rw [List.mem_singleton, or_self]
  · rw [or_iff_left List.not_mem_nil]

variable (env projectRootPath run) in
/-- The in-project path of a file, if it has one. -/
def projectPath (fileId : FileId) : Option RootRelativePathRef :=
  match (run.fileMetadataMap env projectRootPath).getStableFileId fileId with
  | some stableFileId => if stableFileId.isInProject then some stableFileId.path else none
  | none => none

theorem indexedProjectFiles_perm :
    (run.indexedProjectFiles env projectRootPath filesToBeIndexed).Perm
      ((run.toBeIndexed filesToBeIndexed).filterMap fun fileId =>
        (run.projectPath env projectRootPath fileId).map fun path => (path, fileId)) := by
  have hbody : (fun fileId =>
      match (run.fileMetadataMap env projectRootPath).getStableFileId fileId with
      | some stableFileId =>
          if stableFileId.isInProject then some (stableFileId.path, fileId) else none
      | none => none) =
      fun fileId => (run.projectPath env projectRootPath fileId).map fun path =>
        (path, fileId) := by
    funext fileId
    unfold projectPath
    split
    · split <;> rfl
    · rfl
  have hiterate := (run.order.perm .toBeIndexed (run.toBeIndexed filesToBeIndexed)).filterMap
    fun fileId => (run.projectPath env projectRootPath fileId).map fun path => (path, fileId)
  unfold indexedProjectFiles
  rw [hbody]
  dsimp only
  split
  · exact (List.mergeSort_perm _ _).trans hiterate
  · exact hiterate

theorem mem_indexedProjectFiles {path : RootRelativePathRef} :
    (path, fileId) ∈ run.indexedProjectFiles env projectRootPath filesToBeIndexed ↔
      fileId ∈ run.toBeIndexed filesToBeIndexed ∧
        run.projectPath env projectRootPath fileId = some path := by
  rw [indexedProjectFiles_perm.mem_iff, List.mem_filterMap]
  constructor
  · rintro ⟨other, hmem, hpath⟩
    obtain ⟨otherPath, hother, heq⟩ := Option.map_eq_some_iff.mp hpath
    obtain ⟨rfl, rfl⟩ := Prod.mk.inj heq
    exact ⟨hmem, hother⟩
  · rintro ⟨hmem, hpath⟩
    exact ⟨fileId, hmem, by rw [hpath]; rfl⟩

end WorkerRun

end ScipClang
