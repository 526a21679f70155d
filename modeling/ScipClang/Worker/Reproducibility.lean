import ScipClang.Worker.MetadataCases
import ScipClang.Worker.WriteIndex

/-!
# Does a shard depend on hash tables?

With `deterministic` set, everything that goes into a shard is sorted.  Before that, the worker
has iterated over hash tables all the same: to collect the files that were preprocessed, to find
their packages, and to save the references between files.

This does not show in the shard if no two file ids stand for the same path and hash, if no two
documents have the same path, and if files with the same `StableFileId` are in the same package
(`IndexedUnit.Reproducible`).  For the merge of the shards, the same question is answered in
`Driver.Determinism`.

* `IndexedUnit.handleTranslationUnit_reorder`: the shard of a translation unit is the same,
  however hash tables are iterated.
-/

namespace ScipClang

open HashTables Memo

/-! ## Packages -/

namespace PackageMap

variable {env : PathEnv} {projectRootPath : RootPath} {isTesting : Bool}
  {entries : Option (List PackageMapEntry)} {created : PackageMap}

/-- The package of a file does not depend on what was looked up before. -/
theorem lookup_lookups (hspec : PathSpec env)
    (hcreate : create env projectRootPath isTesting entries = some created)
    {earlier : List Str} (hearlier : ∀ path ∈ earlier, isAbsolute path = true) {path : Str}
    (hpath : isAbsolute path = true) :
    ((created.lookups env earlier).2.lookup env path).1 = (created.lookup env path).1 := by
  by_cases hnil : created.map.entries = []
  · rw [lookups_of_entries_eq_nil hnil]
  · rcases lookup_create hspec hcreate hearlier hpath with hfound | ⟨hempty, -⟩
    · rcases lookup_create hspec hcreate (List.forall_mem_nil _) hpath with hfirst | ⟨hempty, -⟩
      · exact hfound.trans hfirst.symm
      · exact absurd hempty hnil
    · exact absurd hempty hnil

theorem lookups_concat (packageMap : PackageMap) (earlier : List Str) (path : Str) :
    (packageMap.lookups env (earlier ++ [path])).2 =
      ((packageMap.lookups env earlier).2.lookup env path).2 := by
  induction earlier generalizing packageMap with
  | nil => rfl
  | cons first earlier ih => exact ih _

end PackageMap

/-! ## Metadata -/

namespace FileMetadataMap

variable {env : PathEnv} {projectRootPath : RootPath} {created : PackageMap}

/-- The metadata of a file, given the package map at the start. -/
def plainMetadata (env : PathEnv) (created : PackageMap) (projectRootPath buildRootPath : RootPath)
    (absPath : AbsolutePath) : FileMetadata :=
  fileMetadata env projectRootPath buildRootPath (created.lookup env absPath.value).1 absPath

/-- The package map has answered some lookups. -/
def HasLookedUp (env : PathEnv) (created packageMap : PackageMap) : Prop :=
  ∃ earlier : List Str, (∀ path ∈ earlier, isAbsolute path = true) ∧
    packageMap = (created.lookups env earlier).2

theorem HasLookedUp.insert {files : FileMetadataMap} (h : HasLookedUp env created files.packageMap)
    (fileId : FileId) {absPath : AbsolutePath} (habsolute : isAbsolute absPath.value = true) :
    HasLookedUp env created (files.insert env fileId absPath).packageMap := by
  obtain ⟨earlier, hearlier, hmap⟩ := h
  refine ⟨earlier ++ [absPath.value], fun path hpath => ?_, ?_⟩
  · rcases List.mem_append.mp hpath with hpath | hpath
    · exact hearlier path hpath
    · exact List.mem_singleton.mp hpath ▸ habsolute
  · rw [PackageMap.lookups_concat, ← hmap]
    rfl

/-- Inserting a file. -/
theorem getFileMetadata_insert {isTesting : Bool} {entries : Option (List PackageMapEntry)}
    (hspec : PathSpec env)
    (hcreate : PackageMap.create env projectRootPath isTesting entries = some created)
    {files : FileMetadataMap} (h : HasLookedUp env created files.packageMap) (fileId : FileId)
    {absPath : AbsolutePath} (habsolute : isAbsolute absPath.value = true) (other : FileId) :
    (files.insert env fileId absPath).getFileMetadata other =
      (files.getFileMetadata other).or (if other = fileId then
        some (plainMetadata env created files.projectRootPath files.buildRootPath absPath)
        else none) := by
  obtain ⟨earlier, hearlier, hmap⟩ := h
  have hpackage : (files.packageMap.lookup env absPath.value).1 =
      (created.lookup env absPath.value).1 := by
    rw [hmap]
    exact PackageMap.lookup_lookups hspec hcreate hearlier habsolute
  unfold getFileMetadata insert plainMetadata
  dsimp only
  rw [lookup_upsert, hpackage]
  split
  · next heq =>
    subst heq
    cases files.map.lookup other <;> rfl
  · rw [Option.or_none]

/-- Inserting many files: what is there is kept, and of each file id the first path counts. -/
theorem getFileMetadata_foldl_insert {isTesting : Bool}
    {entries : Option (List PackageMapEntry)} (hspec : PathSpec env)
    (hcreate : PackageMap.create env projectRootPath isTesting entries = some created)
    (inserted : List (FileId × AbsolutePath)) {files : FileMetadataMap}
    (h : HasLookedUp env created files.packageMap)
    (habsolute : ∀ file ∈ inserted, isAbsolute file.2.value = true) :
    let after := inserted.foldl (fun files file => files.insert env file.1 file.2) files
    HasLookedUp env created after.packageMap ∧ after.projectRootPath = files.projectRootPath ∧
      after.buildRootPath = files.buildRootPath ∧ ∀ fileId, after.getFileMetadata fileId =
        (files.getFileMetadata fileId).or ((inserted.find? fun file => file.1 = fileId).map
          fun file => plainMetadata env created files.projectRootPath files.buildRootPath file.2) := by
  induction inserted generalizing files with
  | nil => exact ⟨h, rfl, rfl, fun fileId => (Option.or_none).symm⟩
  | cons file inserted ih =>
      obtain ⟨hfile, hrest⟩ := List.forall_mem_cons.mp habsolute
      obtain ⟨hlooked, hproject, hbuild, hmetadata⟩ := ih (h.insert file.1 hfile) hrest
      refine ⟨hlooked, hproject, hbuild, fun fileId => ?_⟩
      refine (hmetadata fileId).trans ?_
      rw [getFileMetadata_insert hspec hcreate h file.1 hfile, Option.or_assoc, List.find?_cons]
      congr 1
      by_cases heq : fileId = file.1
      · rw [if_pos heq, decide_eq_true heq.symm]
        rfl
      · rw [if_neg heq, decide_eq_false (Ne.symm heq)]
        rfl

end FileMetadataMap

/-! ## File ids -/

namespace PreprocessorState

variable {state : PreprocessorState}

/-- Without two file ids for the same path and hash, the lookup map has all files. -/
theorem lookup_clangIdLookupMap_iff (h : state.OneFileIdPerPair)
    {order : IterationOrder WorkerTable} {absPath : AbsolutePath} {hashValue : HashValue}
    {fileId : FileId} :
    (state.clangIdLookupMap order).lookup absPath hashValue = some fileId ↔
      state.getAbsPath fileId = some absPath ∧
        state.finishedProcessing.lookup fileId = some hashValue := by
  refine ⟨mapSound_clangIdLookupMap.lookup absPath hashValue fileId, fun hfile => ?_⟩
  obtain ⟨hpath, hhash⟩ := hfile
  have hentry : (⟨fileId, hashValue⟩ : Σ _ : FileId, HashValue) ∈
      state.finishedProcessing.entries := AList.mem_lookup_iff.mp hhash
  have hsome : (findLast? (fun entry => state.getAbsPath entry.1 = some absPath ∧
      entry.2 = hashValue) (order.iterate .finishedProcessing
        state.finishedProcessing.entries)).isSome := by
    rw [isSome_findLast?]
    exact ⟨⟨fileId, hashValue⟩, (order.perm _ _).mem_iff.mpr hentry,
      decide_eq_true ⟨hpath, rfl⟩⟩
  obtain ⟨found, hfound⟩ := Option.isSome_iff_exists.mp hsome
  obtain ⟨hmem, hkind⟩ := findLast?_eq_some_imp hfound
  obtain ⟨hfoundPath, hfoundHash⟩ := of_decide_eq_true hkind
  have hsame : (⟨fileId, hashValue⟩ : Σ _ : FileId, HashValue) = found :=
    h _ hentry found ((order.perm _ _).mem_iff.mp hmem)
      ⟨by rw [hpath]; rfl, hpath.trans hfoundPath.symm, hfoundHash.symm⟩
  rw [clangIdLookupMap, lookup_foldl_insertFinished, hfound, ← hsame]
  rfl

theorem lookup_clangIdLookupMap_congr (h : state.OneFileIdPerPair)
    (order order' : IterationOrder WorkerTable) :
    (state.clangIdLookupMap order).lookup = (state.clangIdLookupMap order').lookup := by
  funext absPath hashValue
  ext fileId
  rw [lookup_clangIdLookupMap_iff h, lookup_clangIdLookupMap_iff h]

/-- Any file id of a path is that of a file with this path. -/
theorem getAbsPath_of_lookupAnyFileId {order : IterationOrder WorkerTable}
    {absPath : AbsolutePath} {fileId : FileId}
    (h : (state.clangIdLookupMap order).lookupAnyFileId order absPath = some fileId) :
    ∃ hashValue, (state.clangIdLookupMap order).lookup absPath hashValue = some fileId := by
  unfold ClangIdLookupMap.lookupAnyFileId at h
  split at h
  · cases h
  · next hashToFileId hpath =>
    obtain ⟨⟨hashValue, id⟩, hhead, rfl⟩ := Option.map_eq_some_iff.mp h
    have hmem := ((order.perm _ _).mem_iff).mp (List.mem_of_mem_head? hhead)
    exact ⟨hashValue, Option.bind_eq_some_iff.mpr
      ⟨hashToFileId, hpath, AList.mem_lookup_iff.mpr hmem⟩⟩

/-- A path with a file has some file id. -/
theorem isSome_lookupAnyFileId {order : IterationOrder WorkerTable} {absPath : AbsolutePath}
    {hashValue : HashValue} {fileId : FileId}
    (h : (state.clangIdLookupMap order).lookup absPath hashValue = some fileId) :
    ((state.clangIdLookupMap order).lookupAnyFileId order absPath).isSome := by
  obtain ⟨hashToFileId, hpath, hhash⟩ := Option.bind_eq_some_iff.mp h
  unfold ClangIdLookupMap.lookupAnyFileId
  rw [hpath]
  dsimp only
  rw [Option.isSome_map, List.isSome_head?]
  intro hnil
  have hmem := ((order.perm (.hashToFileId absPath) hashToFileId.entries).mem_iff).mpr
    (AList.mem_lookup_iff.mp hhash)
  rw [hnil] at hmem
  exact List.not_mem_nil hmem

end PreprocessorState

/-! ## Indexers -/

theorem TuIndexer.projectFilePath_congr {tuIndexer other : TuIndexer}
    (hfiles : tuIndexer.fileIdsToBeIndexed = other.fileIdsToBeIndexed)
    (hstable : tuIndexer.fileMetadataMap.getStableFileId = other.fileMetadataMap.getStableFileId) :
    tuIndexer.projectFilePath = other.projectFilePath := by
  funext fileId
  unfold projectFilePath
  rw [hfiles, hstable]

namespace TuCall

/-- The file that something is saved in. -/
def fileId : TuCall → FileId
  | definition call => call.location.fileId
  | use (.reference _ location _ _) => location.fileId
  | use (.forwardDeclaration _ location _) => location.fileId
  | occurrence _ location _ => location.fileId

/-- What a call sets aside. -/
def setsAside (tuIndexer : TuIndexer) : TuCall → Option SavedForwardDecl
  | definition _ => none
  | use call => tuIndexer.setsAside call
  | occurrence _ _ _ => none

/-- What a call says about an external symbol. -/
def savesExternal (indexer : DefinitionIndexer) : TuCall → Option (Str × SymbolInformation)
  | definition call => indexer.savesExternal call
  | use _ => none
  | occurrence _ _ _ => none

theorem savesAt_of_ne {call : TuCall} {fileId : FileId} (h : call.fileId ≠ fileId)
    (path : Option RootRelativePathRef) : call.savesAt fileId path = none := by
  cases call with
  | definition call => exact if_neg fun hboth => h hboth.1
  | occurrence symbol location allRoles => exact if_neg h
  | use call =>
      cases call with
      | forwardDeclaration symbol location docComment => rfl
      | reference symbol location maybeFwdDecl extraRoles =>
          cases maybeFwdDecl with
          | none => exact if_neg fun hboth => h hboth.1
          | some docComment => rfl

theorem definesAt_of_ne {call : TuCall} {fileId : FileId} (h : call.fileId ≠ fileId)
    (path : Option RootRelativePathRef) : call.definesAt fileId path = none := by
  cases call with
  | definition call => exact if_neg fun hboth => h hboth.1
  | use call => rfl
  | occurrence symbol location allRoles => rfl

end TuCall

namespace DefinitionIndexer

variable {indexer : DefinitionIndexer}

theorem savesExternal_congr {indexer other : DefinitionIndexer}
    (hfiles : indexer.fileIdsToBeIndexed = other.fileIdsToBeIndexed)
    (hstable : indexer.fileMetadataMap.getStableFileId = other.fileMetadataMap.getStableFileId) :
    indexer.savesExternal = other.savesExternal := by
  funext call
  unfold savesExternal
  rw [hfiles, hstable]

/-- What a call does to everything that is emitted besides the documents. -/
theorem perform_spec (call : TuCall) :
    (indexer.perform call).forwardDeclarations =
        (call.setsAside indexer.toTuIndexer).elim indexer.forwardDeclarations (fun saved =>
          indexer.forwardDeclarations.insert saved.symbol saved.docComment saved.path
            saved.range) ∧
      (indexer.perform call).externalSymbols =
        (call.savesExternal indexer).elim indexer.externalSymbols fun saved =>
          upsert indexer.externalSymbols saved.1 (externalEntry (withPlaceholder saved.2)) := by
  cases call with
  | occurrence symbol location allRoles => exact ⟨rfl, rfl⟩
  | use call => exact ⟨TuIndexer.perform_spec call |>.2, rfl⟩
  | definition call =>
      refine ⟨?_, (saveDefinition_spec call).2⟩
      show (indexer.saveDefinition call).forwardDeclarations = indexer.forwardDeclarations
      by_cases hpath : (indexer.projectFilePath call.location.fileId).isSome
      · rw [saveDefinition_of_isSome call hpath]
        rfl
      · rw [(saveDefinition_of_not_isSome call hpath).1]

theorem Saves.savesExternal {call : TuCall} {after : DefinitionIndexer}
    (h : indexer.Saves call after) : after.savesExternal = indexer.savesExternal :=
  savesExternal_congr h.fileIdsToBeIndexed (congrArg _ h.fileMetadataMap)

/-- **What is emitted besides the documents.** -/
theorem foldl_perform_spec (calls : List TuCall) :
    (calls.foldl perform indexer).forwardDeclarations =
        (calls.filterMap (TuCall.setsAside indexer.toTuIndexer)).foldl
          (fun map saved => ForwardDeclMap.insert map saved.symbol saved.docComment saved.path
            saved.range) indexer.forwardDeclarations ∧
      (calls.foldl perform indexer).externalSymbols =
        (calls.filterMap (TuCall.savesExternal indexer)).foldl
          (fun table saved => upsert table saved.1 (externalEntry (withPlaceholder saved.2)))
          indexer.externalSymbols := by
  induction calls generalizing indexer with
  | nil => exact ⟨rfl, rfl⟩
  | cons call calls ih =>
      have hsaves := @saves_perform indexer call
      obtain ⟨hforward, hexternal⟩ := @perform_spec indexer call
      have hsetsAside : TuCall.setsAside (indexer.perform call).toTuIndexer =
          TuCall.setsAside indexer.toTuIndexer := by
        funext other
        cases other with
        | use other =>
            dsimp only [TuCall.setsAside, TuIndexer.setsAside]
            rw [hsaves.projectFilePath]
        | definition other => rfl
        | occurrence symbol location allRoles => rfl
      have hsavesExternal : TuCall.savesExternal (indexer.perform call) =
          TuCall.savesExternal indexer := by
        funext other
        cases other with
        | definition other => exact congrFun hsaves.savesExternal other
        | use other => rfl
        | occurrence symbol location allRoles => rfl
      obtain ⟨ihforward, ihexternal⟩ := @ih (indexer.perform call)
      rw [List.foldl_cons, ihforward, ihexternal, hsetsAside, hsavesExternal, hforward, hexternal,
        List.filterMap_cons, List.filterMap_cons]
      refine ⟨?_, ?_⟩
      · cases call.setsAside indexer.toTuIndexer <;> rfl
      · cases call.savesExternal indexer <;> rfl

end DefinitionIndexer

/-! ## Inclusions -/

/-- What is saved for the inclusions in a file lies in this file. -/
theorem MacroIndexer.fileId_of_mem_includesInFile {source : MacroSource} {calls : List MacroCall}
    {fileId : FileId} {inclusion : TokenLocation × AbsolutePath}
    (h : inclusion ∈ (performAll source calls).includesInFile fileId) :
    inclusion.1.fileId = fileId := by
  have hperform : ∀ (calls : List MacroCall) (indexer : MacroIndexer),
      (∀ file, ∀ inclusion ∈ indexer.includesInFile file, inclusion.1.fileId = file) →
      ∀ file, ∀ inclusion ∈ (calls.foldl (perform source) indexer).includesInFile file,
        inclusion.1.fileId = file := by
    intro calls
    induction calls with
    | nil => exact fun indexer h => h
    | cons call calls ih =>
        refine fun indexer h => ih _ ?_
        cases call with
        | definition macroNameToken macroInfo =>
            dsimp only [perform, saveDefinition]
            split <;> exact h
        | reference macroNameToken macroDefinition =>
            dsimp only [perform, saveReference]
            split
            · exact h
            · split
              · exact h
              · split
                · exact h
                · split <;> exact h
        | inclusionDirective pathRange includedFilePath =>
            intro file inclusion hmem
            unfold includesInFile at hmem
            dsimp only [perform, saveInclude] at hmem
            rw [lookup_upsert] at hmem
            split at hmem
            · next heq =>
              rcases List.mem_append.mp hmem with hold | hnew
              · exact h file inclusion (heq ▸ hold)
              · rw [List.mem_singleton.mp hnew, heq]
            · exact h file inclusion hmem
  refine hperform calls {} (fun file inclusion hmem => ?_) fileId inclusion h
  exact absurd hmem List.not_mem_nil

/-! ## A translation unit, whatever the order -/

/-- The orders in which the worker iterates over its hash tables. -/
structure IterationOrders where
  order : IterationOrder WorkerTable
  macroOrder : IterationOrder MacroTable
  documentOrder : IterationOrder DefinitionIndexer.DocumentTable
  externalOrder : IterationOrder DefinitionTable
  forwardDeclOrder : IterationOrder TuIndexerTable

namespace IndexedUnit

/-- The same translation unit, with other orders. -/
def reorder (unit : IndexedUnit) (orders : IterationOrders) : IndexedUnit :=
  { unit with
    order := orders.order
    macroOrder := orders.macroOrder
    documentOrder := orders.documentOrder
    externalOrder := orders.externalOrder
    forwardDeclOrder := orders.forwardDeclOrder }

/-- The files of a translation unit: no file id can stand for another one. -/
structure StableFiles (env : PathEnv) (projectRootPath : RootPath) (created : PackageMap)
    (unit : IndexedUnit) : Prop where
  isCreated : ∃ isTesting entries,
    PackageMap.create env projectRootPath isTesting entries = some created
  packageMap : FileMetadataMap.HasLookedUp env created unit.packageMap
  absolute : ∀ fileId absPath, unit.tu.getAbsPath fileId = some absPath →
    isAbsolute absPath.value = true
  oneFileIdPerPair : unit.tu.toPreprocessorState.OneFileIdPerPair

/-- What a reproducible shard takes: neither a file id nor a document can stand for another one. -/
structure Reproducible (env : PathEnv) (projectRootPath : RootPath)
    (filesToBeIndexed : List PreprocessedFileInfo) (created : PackageMap) (unit : IndexedUnit) :
    Prop extends unit.StableFiles env projectRootPath created where
  deterministic : unit.deterministic = true
  distinctPaths : ((unit.indexedProjectFiles env projectRootPath filesToBeIndexed).map
    Prod.fst).Nodup
  fileSymbolsAgree : (unit.fileMetadataMap env projectRootPath).FileSymbolsAgree

/-- The metadata of a file: it has metadata if preprocessing got to its end, and it has a path. -/
def plainFileMetadata (env : PathEnv) (projectRootPath : RootPath) (created : PackageMap)
    (unit : IndexedUnit) (fileId : FileId) : Option FileMetadata :=
  if fileId = unit.tu.mainFileId ∨ fileId ∈ unit.tu.finishedProcessing then
    (unit.tu.getAbsPath fileId).map
      (FileMetadataMap.plainMetadata env created projectRootPath unit.tu.buildRootPath)
  else none

variable {env : PathEnv} {projectRootPath : RootPath} {created : PackageMap} {unit : IndexedUnit}
  {filesToBeIndexed : List PreprocessedFileInfo} {orders : IterationOrders}

theorem lookup_clangIdLookupMap (h : unit.tu.toPreprocessorState.OneFileIdPerPair)
    {absPath : AbsolutePath} {hashValue : HashValue} {fileId : FileId} :
    unit.clangIdLookupMap.lookup absPath hashValue = some fileId ↔
      unit.tu.getAbsPath fileId = some absPath ∧
        unit.tu.finishedProcessing.lookup fileId = some hashValue :=
  PreprocessorState.lookup_clangIdLookupMap_iff h

theorem lookup_clangIdLookupMap_reorder (h : unit.tu.toPreprocessorState.OneFileIdPerPair) :
    (unit.reorder orders).clangIdLookupMap.lookup = unit.clangIdLookupMap.lookup :=
  PreprocessorState.lookup_clangIdLookupMap_congr h _ _

variable (unit) in
/-- The files that `populate` inserts. -/
def populated : List (FileId × AbsolutePath) :=
  (unit.order.iterate .clangIdLookupMap unit.clangIdLookupMap.entries).flatMap fun entry =>
    (unit.order.iterate (.hashToFileId entry.1) entry.2.entries).map fun hashAndId =>
      (hashAndId.2, entry.1)

theorem mem_populated (h : unit.tu.toPreprocessorState.OneFileIdPerPair)
    {file : FileId × AbsolutePath} :
    file ∈ unit.populated ↔
      file.1 ∈ unit.tu.finishedProcessing ∧ unit.tu.getAbsPath file.1 = some file.2 := by
  obtain ⟨id, absPath⟩ := file
  simp only [populated, List.mem_flatMap, List.mem_map, (unit.order.perm _ _).mem_iff,
    Prod.mk.injEq]
  constructor
  · rintro ⟨⟨path, hashToFileId⟩, hentry, ⟨hashValue, found⟩, hhash, rfl, rfl⟩
    obtain ⟨hpath, hfinished⟩ := (lookup_clangIdLookupMap h).mp (Option.bind_eq_some_iff.mpr
      ⟨hashToFileId, AList.mem_lookup_iff.mpr hentry, AList.mem_lookup_iff.mpr hhash⟩)
    exact ⟨AList.lookup_isSome.mp (by rw [hfinished]; rfl), hpath⟩
  · rintro ⟨hfinished, hpath⟩
    obtain ⟨hashValue, hhash⟩ := Option.isSome_iff_exists.mp (AList.lookup_isSome.mpr hfinished)
    obtain ⟨hashToFileId, hmap, hid⟩ := Option.bind_eq_some_iff.mp
      ((lookup_clangIdLookupMap h).mpr ⟨hpath, hhash⟩)
    exact ⟨⟨absPath, hashToFileId⟩, AList.mem_lookup_iff.mp hmap, ⟨hashValue, id⟩,
      AList.mem_lookup_iff.mp hid, rfl, rfl⟩

theorem find?_populated (h : unit.tu.toPreprocessorState.OneFileIdPerPair) (fileId : FileId) :
    (unit.populated.find? fun file => file.1 = fileId).map Prod.snd =
      if fileId ∈ unit.tu.finishedProcessing then unit.tu.getAbsPath fileId else none := by
  cases hfind : unit.populated.find? fun file => file.1 = fileId with
  | some file =>
      obtain ⟨hfinished, hpath⟩ := (mem_populated h).mp (List.mem_of_find?_eq_some hfind)
      obtain rfl : file.1 = fileId := by simpa using List.find?_some hfind
      rw [if_pos hfinished, hpath, Option.map_some]
  | none =>
      rw [Option.map_none]
      symm
      rw [ite_eq_right_iff, Option.eq_none_iff_forall_not_mem]
      intro hfinished absPath hpath
      exact List.find?_eq_none.mp hfind (fileId, absPath) ((mem_populated h).mpr ⟨hfinished, hpath⟩)
        (decide_eq_true rfl)

/-- **The metadata of all files** does not depend on the order in which they are found. -/
theorem getFileMetadata_fileMetadataMap (hspec : PathSpec env)
    (h : unit.StableFiles env projectRootPath created) :
    (unit.fileMetadataMap env projectRootPath).getFileMetadata =
      unit.plainFileMetadata env projectRootPath created := by
  obtain ⟨isTesting, entries, hcreate⟩ := h.isCreated
  obtain ⟨hlooked, hproject, hbuild, hpopulated⟩ :=
    FileMetadataMap.getFileMetadata_foldl_insert hspec hcreate unit.populated
      (show FileMetadataMap.HasLookedUp env created
        (⟨∅, projectRootPath, unit.tu.buildRootPath, unit.packageMap⟩ : FileMetadataMap).packageMap
        from h.packageMap)
      fun file hfile => h.absolute file.1 file.2 ((mem_populated h.oneFileIdPerPair).mp hfile).2
  funext fileId
  unfold WorkerRun.fileMetadataMap
  dsimp only
  rw [FileMetadataMap.populate_eq]
  have hfound : ((unit.populated.find? fun file => file.1 = fileId).map fun file =>
      FileMetadataMap.plainMetadata env created projectRootPath unit.tu.buildRootPath file.2) =
      (if fileId ∈ unit.tu.finishedProcessing then unit.tu.getAbsPath fileId else none).map
        (FileMetadataMap.plainMetadata env created projectRootPath unit.tu.buildRootPath) := by
    rw [← find?_populated h.oneFileIdPerPair, Option.map_map]
    rfl
  have hentry := (hpopulated fileId).trans (Option.none_or.trans hfound)
  unfold plainFileMetadata
  cases hmain : unit.tu.getAbsPath unit.tu.mainFileId with
  | none =>
      refine hentry.trans ?_
      by_cases hid : fileId = unit.tu.mainFileId
      · subst hid
        rw [hmain, ite_self, if_pos (.inl rfl)]
      · simp only [hid, false_or]
        split <;> rfl
  | some mainFileAbsPath =>
      refine (FileMetadataMap.getFileMetadata_insert hspec hcreate hlooked _
        (h.absolute _ _ hmain) fileId).trans ?_
      rw [hproject, hbuild]
      refine (congrArg (Option.or · _) hentry).trans ?_
      by_cases hid : fileId = unit.tu.mainFileId
      · subst hid
        rw [if_pos rfl, if_pos (Or.inl rfl : _ ∨ unit.tu.mainFileId ∈ unit.tu.finishedProcessing),
          hmain]
        split <;> rfl
      · rw [if_neg hid, Option.or_none]
        simp only [hid, false_or]
        split <;> rfl

/-! ### Files and symbols -/

theorem StableFiles.reorder (h : unit.StableFiles env projectRootPath created) :
    (unit.reorder orders).StableFiles env projectRootPath created :=
  ⟨h.isCreated, h.packageMap, h.absolute, h.oneFileIdPerPair⟩

theorem getFileMetadata_reorder (hspec : PathSpec env)
    (h : unit.StableFiles env projectRootPath created) :
    ((unit.reorder orders).fileMetadataMap env projectRootPath).getFileMetadata =
      (unit.fileMetadataMap env projectRootPath).getFileMetadata :=
  (getFileMetadata_fileMetadataMap hspec h.reorder).trans
    (getFileMetadata_fileMetadataMap hspec h).symm

theorem getStableFileId_reorder (hspec : PathSpec env)
    (h : unit.StableFiles env projectRootPath created) :
    ((unit.reorder orders).fileMetadataMap env projectRootPath).getStableFileId =
      (unit.fileMetadataMap env projectRootPath).getStableFileId := by
  funext fileId
  exact congrArg (Option.map FileMetadata.stableFileId)
    (congrFun (getFileMetadata_reorder hspec h) fileId)

theorem toBeIndexed_reorder (h : unit.StableFiles env projectRootPath created) :
    (unit.reorder orders).toBeIndexed filesToBeIndexed = unit.toBeIndexed filesToBeIndexed := by
  have hresolve : (unit.reorder orders).resolveFile = unit.resolveFile := by
    funext set fileInfo
    unfold WorkerRun.resolveFile
    rw [lookup_clangIdLookupMap_reorder h.oneFileIdPerPair]
  unfold WorkerRun.toBeIndexed
  rw [hresolve]
  rfl

theorem compareRootRelativePathRef_eq_iff {lhs rhs : RootRelativePathRef} :
    compareRootRelativePathRef lhs rhs = .eq ↔ lhs = rhs := by
  obtain ⟨value, kind⟩ := lhs
  obtain ⟨value', kind'⟩ := rhs
  unfold compareRootRelativePathRef
  rw [Ordering.then_eq_eq, Std.LawfulEqCmp.compare_eq_iff_eq, compare_eq_iff_eq,
    RootRelativePathRef.mk.injEq]
  refine and_congr_right fun _ => ⟨fun hkind => ?_, fun hkind => hkind ▸ rfl⟩
  cases kind <;> cases kind' <;> first | rfl | cases hkind

instance : Std.TransCmp compareRootRelativePathRef :=
  transCmp_then (transCmp_comap compareStrings RootRelativePathRef.value)
    (transCmp_comap compare fun path : RootRelativePathRef => path.kind.ctorIdx)

theorem comparesKey_projectFiles :
    ComparesKey (fun p1 p2 : RootRelativePathRef × FileId => compareRootRelativePathRef p1.1 p2.1)
      Prod.fst :=
  fun _ _ => compareRootRelativePathRef_eq_iff

/-- The files of the project come in the order of their paths. -/
theorem indexedProjectFiles_reorder (hspec : PathSpec env)
    (h : unit.Reproducible env projectRootPath filesToBeIndexed created) :
    (unit.reorder orders).indexedProjectFiles env projectRootPath filesToBeIndexed =
      unit.indexedProjectFiles env projectRootPath filesToBeIndexed := by
  have : Std.TransCmp fun p1 p2 : RootRelativePathRef × FileId =>
      compareRootRelativePathRef p1.1 p2.1 := transCmp_comap compareRootRelativePathRef Prod.fst
  have hdistinct := h.distinctPaths
  have hdeterministic : (unit.reorder orders).deterministic = true := h.deterministic
  unfold WorkerRun.indexedProjectFiles at hdistinct ⊢
  rw [h.deterministic] at hdistinct
  rw [h.deterministic, hdeterministic, toBeIndexed_reorder h.toStableFiles,
    getStableFileId_reorder hspec h.toStableFiles]
  dsimp only [if_true] at hdistinct ⊢
  symm
  refine mergeSort_congr_of_comparesKey comparesKey_projectFiles ?_
    (((List.mergeSort_perm _ _).map Prod.fst).nodup_iff.mp hdistinct)
  exact ((unit.order.perm _ _).trans ((unit.reorder orders).order.perm _ _).symm).filterMap _

theorem plainMacroSymbol_reorder (hspec : PathSpec env)
    (h : unit.StableFiles env projectRootPath created) :
    ((unit.reorder orders).macroSource env projectRootPath).plainMacroSymbol =
      (unit.macroSource env projectRootPath).plainMacroSymbol := by
  funext defLoc
  have hfile : ((unit.reorder orders).fileMetadataMap env projectRootPath).getFileMetadata
      (unit.getPresumedLoc defLoc).fileId = _ := congrFun (getFileMetadata_reorder hspec h) _
  unfold MacroSource.plainMacroSymbol MacroSource.identity
  dsimp only [macroSource]
  rw [show (unit.reorder orders).getPresumedLoc = unit.getPresumedLoc from rfl, hfile]

theorem macroIndexer_reorder :
    (unit.reorder orders).macroIndexer env projectRootPath = unit.macroIndexer env projectRootPath := by
  have hperform : MacroIndexer.perform ((unit.reorder orders).macroSource env projectRootPath) =
      MacroIndexer.perform (unit.macroSource env projectRootPath) := by
    funext indexer call
    cases call <;> rfl
  unfold macroIndexer MacroIndexer.performAll
  rw [hperform]
  rfl

/-! ### What is saved -/

/-- The metadata that an `#include` leads to is that of its path. -/
theorem bind_lookupAnyFileId (hspec : PathSpec env)
    (h : unit.StableFiles env projectRootPath created) (absPath : AbsolutePath)
    (fileMetadata : FileMetadata) :
    (unit.clangIdLookupMap.lookupAnyFileId unit.order absPath).bind
        (unit.fileMetadataMap env projectRootPath).getFileMetadata = some fileMetadata ↔
      (∃ hashValue, (unit.clangIdLookupMap.lookup absPath hashValue).isSome) ∧
        fileMetadata = FileMetadataMap.plainMetadata env created projectRootPath
          unit.tu.buildRootPath absPath := by
  have hmetadata : ∀ fileId,
      unit.clangIdLookupMap.lookupAnyFileId unit.order absPath = some fileId →
      (unit.fileMetadataMap env projectRootPath).getFileMetadata fileId =
        some (FileMetadataMap.plainMetadata env created projectRootPath unit.tu.buildRootPath
          absPath) := by
    intro fileId hany
    obtain ⟨hashValue, hlookup⟩ := PreprocessorState.getAbsPath_of_lookupAnyFileId hany
    obtain ⟨hpath, hhash⟩ := (lookup_clangIdLookupMap h.oneFileIdPerPair).mp hlookup
    rw [getFileMetadata_fileMetadataMap hspec h, plainFileMetadata,
      if_pos (.inr (AList.lookup_isSome.mp (by rw [hhash]; rfl))), hpath, Option.map_some]
  rw [Option.bind_eq_some_iff]
  constructor
  · rintro ⟨fileId, hany, hfile⟩
    obtain ⟨hashValue, hlookup⟩ := PreprocessorState.getAbsPath_of_lookupAnyFileId hany
    refine ⟨⟨hashValue, ?_⟩, ?_⟩
    · rw [show unit.clangIdLookupMap.lookup absPath hashValue = some fileId from hlookup]
      rfl
    · exact Option.some.inj (hfile.symm.trans (hmetadata fileId hany))
  · rintro ⟨⟨hashValue, hsome⟩, rfl⟩
    obtain ⟨fileId, hlookup⟩ := Option.isSome_iff_exists.mp hsome
    obtain ⟨found, hany⟩ := Option.isSome_iff_exists.mp
      (PreprocessorState.isSome_lookupAnyFileId hlookup)
    exact ⟨found, hany, hmetadata found hany⟩

theorem includeCall_reorder (hspec : PathSpec env)
    (h : unit.StableFiles env projectRootPath created) :
    (unit.reorder orders).includeCall env projectRootPath filesToBeIndexed =
      unit.includeCall env projectRootPath filesToBeIndexed := by
  funext inclusion
  have hbind : ((unit.reorder orders).clangIdLookupMap.lookupAnyFileId
      (unit.reorder orders).order inclusion.2).bind
        ((unit.reorder orders).fileMetadataMap env projectRootPath).getFileMetadata =
      (unit.clangIdLookupMap.lookupAnyFileId unit.order inclusion.2).bind
        (unit.fileMetadataMap env projectRootPath).getFileMetadata := by
    ext fileMetadata
    rw [bind_lookupAnyFileId hspec h, bind_lookupAnyFileId hspec h.reorder,
      lookup_clangIdLookupMap_reorder h.oneFileIdPerPair]
    rfl
  unfold includeCall
  rw [toBeIndexed_reorder h]
  simp only [Option.bind_eq_bind]
  rw [← Option.bind_assoc, ← Option.bind_assoc, hbind]

theorem fileCalls_reorder (hspec : PathSpec env)
    (h : unit.StableFiles env projectRootPath created) :
    (unit.reorder orders).fileCalls env projectRootPath filesToBeIndexed =
      unit.fileCalls env projectRootPath filesToBeIndexed := by
  funext fileId
  have hdefinition : (unit.reorder orders).fileDefinitionCall env projectRootPath fileId =
      unit.fileDefinitionCall env projectRootPath fileId := by
    unfold fileDefinitionCall
    rw [getFileMetadata_reorder hspec h]
    rfl
  unfold fileCalls
  rw [hdefinition, includeCall_reorder hspec h, macroIndexer_reorder]

theorem projectFilePath_reorder (hspec : PathSpec env)
    (h : unit.StableFiles env projectRootPath created) :
    ((unit.reorder orders).startIndexer env projectRootPath filesToBeIndexed).projectFilePath =
      (unit.startIndexer env projectRootPath filesToBeIndexed).projectFilePath :=
  TuIndexer.projectFilePath_congr (toBeIndexed_reorder h) (getStableFileId_reorder hspec h)

theorem savesExternal_reorder (hspec : PathSpec env)
    (h : unit.StableFiles env projectRootPath created) :
    ((unit.reorder orders).startIndexer env projectRootPath filesToBeIndexed).savesExternal =
      (unit.startIndexer env projectRootPath filesToBeIndexed).savesExternal :=
  DefinitionIndexer.savesExternal_congr (toBeIndexed_reorder h) (getStableFileId_reorder hspec h)

/-- What is saved for a file lies in this file, and goes into its document. -/
theorem spec_of_mem_fileCalls {call : TuCall} {fileId : FileId}
    (h : call ∈ unit.fileCalls env projectRootPath filesToBeIndexed fileId) :
    call.fileId = fileId ∧ (∀ tuIndexer, call.setsAside tuIndexer = none) ∧
      call.savesExternal (unit.startIndexer env projectRootPath filesToBeIndexed) = none := by
  rcases List.mem_append.mp h with hdefinition | hinclude
  · rw [Option.mem_toList] at hdefinition
    obtain ⟨fileMetadata, hmetadata, hcall⟩ := Option.bind_eq_some_iff.mp hdefinition
    dsimp only at hcall
    split at hcall
    · cases hcall
    · next hskip =>
      obtain rfl := Option.some.inj hcall
      have hproject : fileMetadata.stableFileId.isInProject = true := by
        by_contra hproject
        exact hskip (.inr hproject)
      have hstable : (unit.fileMetadataMap env projectRootPath).getStableFileId fileId =
          some fileMetadata.stableFileId := congrArg (Option.map FileMetadata.stableFileId) hmetadata
      unfold DefinitionIndexer.fileDefinition
      split
      · refine ⟨rfl, fun _ => rfl, ?_⟩
        dsimp only [TuCall.savesExternal, DefinitionIndexer.savesExternal, startIndexer,
          DefinitionIndexer.start]
        rw [hstable]
        simp [hproject]
      · exact ⟨rfl, fun _ => rfl, rfl⟩
  · obtain ⟨inclusion, hinclusion, hcall⟩ := List.mem_filterMap.mp hinclude
    obtain ⟨refFileId, -, hcall⟩ := Option.bind_eq_some_iff.mp hcall
    obtain ⟨fileMetadata, -, hcall⟩ := Option.bind_eq_some_iff.mp hcall
    split at hcall
    · cases hcall
    · obtain rfl := Option.some.inj hcall
      exact ⟨MacroIndexer.fileId_of_mem_includesInFile hinclusion, fun _ => rfl, rfl⟩

theorem spec_of_mem_referenceCalls {call : TuCall}
    (h : call ∈ unit.referenceCalls env projectRootPath filesToBeIndexed) :
    (∀ tuIndexer, call.setsAside tuIndexer = none) ∧
      call.savesExternal (unit.startIndexer env projectRootPath filesToBeIndexed) = none := by
  obtain ⟨fileId, -, hcall⟩ := List.mem_flatMap.mp h
  exact (spec_of_mem_fileCalls hcall).2

/-- What is saved before the traversal is saved in the files that are to be indexed; each of them
is visited once. -/
theorem filterMap_referenceCalls {β : Type} {f : TuCall → Option β} {fileId : FileId}
    (hmem : fileId ∈ unit.toBeIndexed filesToBeIndexed)
    (hother : ∀ call : TuCall, call.fileId ≠ fileId → f call = none) :
    (unit.referenceCalls env projectRootPath filesToBeIndexed).filterMap f =
      (unit.fileCalls env projectRootPath filesToBeIndexed fileId).filterMap f := by
  have hperm := unit.order.perm .toBeIndexed (unit.toBeIndexed filesToBeIndexed)
  obtain ⟨before, after, hsplit⟩ := List.append_of_mem (hperm.mem_iff.mpr hmem)
  have hnodup := hperm.nodup_iff.mpr (@WorkerRun.nodup_toBeIndexed unit.toWorkerRun _)
  rw [hsplit, List.nodup_middle, List.nodup_cons, List.mem_append, not_or] at hnodup
  have hnil : ∀ files : List FileId, fileId ∉ files →
      (files.flatMap (unit.fileCalls env projectRootPath filesToBeIndexed)).filterMap f = [] := by
    intro files hnotMem
    rw [List.filterMap_eq_nil_iff]
    intro call hcall
    obtain ⟨file, hfile, hcall⟩ := List.mem_flatMap.mp hcall
    refine hother call ?_
    rw [(spec_of_mem_fileCalls hcall).1]
    rintro rfl
    exact hnotMem hfile
  unfold referenceCalls
  rw [hsplit, List.flatMap_append, List.flatMap_cons, List.filterMap_append, List.filterMap_append,
    hnil before hnodup.1.1, hnil after hnodup.1.2, List.nil_append, List.append_nil]

/-! ### The shard -/

/-- The indexer after the traversal. -/
def indexerAtEnd (env : PathEnv) (projectRootPath : RootPath) (unit : IndexedUnit)
    (filesToBeIndexed : List PreprocessedFileInfo) : DefinitionIndexer :=
  (unit.referenceCalls env projectRootPath filesToBeIndexed ++ unit.calls).foldl
    DefinitionIndexer.perform (unit.startIndexer env projectRootPath filesToBeIndexed)

theorem forwardDeclarations_reorder (hspec : PathSpec env)
    (h : unit.StableFiles env projectRootPath created) :
    ((unit.reorder orders).indexerAtEnd env projectRootPath filesToBeIndexed).forwardDeclarations =
      (unit.indexerAtEnd env projectRootPath filesToBeIndexed).forwardDeclarations := by
  -- only the traversal sets something aside
  have hcalls : ∀ unit : IndexedUnit,
      (unit.indexerAtEnd env projectRootPath filesToBeIndexed).forwardDeclarations =
        (unit.calls.filterMap (TuCall.setsAside
          (unit.startIndexer env projectRootPath filesToBeIndexed).toTuIndexer)).foldl
            (fun map saved => ForwardDeclMap.insert map saved.symbol saved.docComment saved.path
              saved.range) ∅ := by
    intro unit
    refine DefinitionIndexer.foldl_perform_spec _ |>.1.trans ?_
    rw [List.filterMap_append, List.filterMap_eq_nil_iff.mpr fun call hcall =>
      (spec_of_mem_referenceCalls hcall).1 _]
    rfl
  have hsetsAside : TuCall.setsAside
      ((unit.reorder orders).startIndexer env projectRootPath filesToBeIndexed).toTuIndexer =
      TuCall.setsAside (unit.startIndexer env projectRootPath filesToBeIndexed).toTuIndexer := by
    funext call
    cases call with
    | use call =>
        dsimp only [TuCall.setsAside, TuIndexer.setsAside]
        rw [projectFilePath_reorder hspec h]
    | definition call => rfl
    | occurrence symbol location allRoles => rfl
  rw [hcalls, hcalls, hsetsAside]
  rfl

theorem externalSymbols_reorder (hspec : PathSpec env)
    (h : unit.StableFiles env projectRootPath created) :
    ((unit.reorder orders).indexerAtEnd env projectRootPath filesToBeIndexed).externalSymbols =
      (unit.indexerAtEnd env projectRootPath filesToBeIndexed).externalSymbols := by
  -- only the traversal finds definitions in other packages
  have hcalls : ∀ unit : IndexedUnit,
      (unit.indexerAtEnd env projectRootPath filesToBeIndexed).externalSymbols =
        (unit.calls.filterMap (TuCall.savesExternal
          (unit.startIndexer env projectRootPath filesToBeIndexed))).foldl
            (fun table saved => upsert table saved.1
              (DefinitionIndexer.externalEntry (DefinitionIndexer.withPlaceholder saved.2))) ∅ := by
    intro unit
    refine DefinitionIndexer.foldl_perform_spec _ |>.2.trans ?_
    rw [List.filterMap_append, List.filterMap_eq_nil_iff.mpr fun call hcall =>
      (spec_of_mem_referenceCalls hcall).2]
    rfl
  have hsaves : TuCall.savesExternal
      ((unit.reorder orders).startIndexer env projectRootPath filesToBeIndexed) =
      TuCall.savesExternal (unit.startIndexer env projectRootPath filesToBeIndexed) := by
    funext call
    cases call with
    | definition call => exact congrFun (savesExternal_reorder hspec h) call
    | use call => rfl
    | occurrence symbol location allRoles => rfl
  rw [hcalls, hcalls, hsaves]
  rfl

/-- What calls add to the document of a file. -/
theorem filterMap_allCalls_reorder {β : Type} (hspec : PathSpec env)
    (h : unit.StableFiles env projectRootPath created) {f : TuCall → Option β} {fileId : FileId}
    (hmem : fileId ∈ unit.toBeIndexed filesToBeIndexed)
    (hother : ∀ call : TuCall, call.fileId ≠ fileId → f call = none) :
    ((unit.reorder orders).referenceCalls env projectRootPath filesToBeIndexed ++
        (unit.reorder orders).calls).filterMap f =
      (unit.referenceCalls env projectRootPath filesToBeIndexed ++ unit.calls).filterMap f := by
  have hmem' : fileId ∈ (unit.reorder orders).toBeIndexed filesToBeIndexed := by
    rw [toBeIndexed_reorder h]
    exact hmem
  rw [List.filterMap_append, List.filterMap_append, filterMap_referenceCalls hmem hother,
    filterMap_referenceCalls hmem' hother, fileCalls_reorder hspec h]
  rfl

theorem macrosAt_reorder (hdeterministic : unit.deterministic = true) (fileId : FileId) :
    (unit.reorder orders).macrosAt env projectRootPath fileId =
      unit.macrosAt env projectRootPath fileId := by
  unfold macrosAt
  rw [macroIndexer_reorder, show (unit.reorder orders).deterministic = unit.deterministic from rfl,
    hdeterministic]
  have hset := @MacroIndexer.getD_lookup_table (unit.macroSource env projectRootPath)
    unit.macroCalls fileId
  refine extract_congr_of_comparesKey comparesKey_compareMacroOccurrences _ _ _ ?_
  rw [macroIndexer, hset]
  exact nodup_keys_foldl_insertBy comparesKey_compareMacroOccurrences _ List.nodup_nil

theorem plainDocument_reorder (hspec : PathSpec env)
    (h : unit.Reproducible env projectRootPath filesToBeIndexed created)
    {projectFile : RootRelativePathRef × FileId}
    (hfile : projectFile ∈ unit.indexedProjectFiles env projectRootPath filesToBeIndexed) :
    (unit.reorder orders).plainDocument env projectRootPath
        ((unit.reorder orders).indexerAtEnd env projectRootPath filesToBeIndexed) projectFile =
      unit.plainDocument env projectRootPath
        (unit.indexerAtEnd env projectRootPath filesToBeIndexed) projectFile := by
  have hmem := (WorkerRun.mem_indexedProjectFiles.mp hfile).1
  have hpath : ((unit.reorder orders).startIndexer env projectRootPath
      filesToBeIndexed).projectFilePath = _ := projectFilePath_reorder hspec h.toStableFiles
  have hmacros : ((unit.reorder orders).macroSource env projectRootPath).plainMacroSymbol = _ :=
    plainMacroSymbol_reorder hspec h.toStableFiles
  have hoccurrences :
      ((unit.reorder orders).indexerAtEnd env projectRootPath filesToBeIndexed).occurrencesAt
        projectFile.2 =
      (unit.indexerAtEnd env projectRootPath filesToBeIndexed).occurrencesAt projectFile.2 := by
    unfold indexerAtEnd
    rw [DefinitionIndexer.occurrencesAt_foldl_perform,
      DefinitionIndexer.occurrencesAt_foldl_perform, hpath,
      filterMap_allCalls_reorder hspec h.toStableFiles hmem fun call hne =>
        TuCall.savesAt_of_ne hne _]
    rfl
  have hsymbols :
      ((unit.reorder orders).indexerAtEnd env projectRootPath filesToBeIndexed).symbolInfosAt
        projectFile.2 =
      (unit.indexerAtEnd env projectRootPath filesToBeIndexed).symbolInfosAt projectFile.2 := by
    unfold indexerAtEnd
    rw [DefinitionIndexer.symbolInfosAt_foldl_perform,
      DefinitionIndexer.symbolInfosAt_foldl_perform, hpath,
      filterMap_allCalls_reorder hspec h.toStableFiles hmem fun call hne =>
        TuCall.definesAt_of_ne hne _]
    rfl
  have hemitted :
      ((unit.reorder orders).indexerAtEnd env projectRootPath filesToBeIndexed).emittedSymbols
        (unit.reorder orders).documentOrder true projectFile.2 =
      (unit.indexerAtEnd env projectRootPath filesToBeIndexed).emittedSymbols unit.documentOrder
        true projectFile.2 :=
    map_extract_congr _ _ _ fun symbol =>
      congrArg (fun table => Option.map _ (AList.lookup symbol table)) hsymbols
  unfold plainDocument
  rw [macrosAt_reorder h.deterministic,
    show (unit.reorder orders).deterministic = true from h.deterministic, h.deterministic,
    hoccurrences, hemitted]
  unfold FileLocalMacroOccurrence.plainOccurrence FileLocalMacroOccurrence.plainSymbol
  dsimp only
  rw [hmacros]

theorem externalMacros_reorder (hspec : PathSpec env)
    (h : unit.Reproducible env projectRootPath filesToBeIndexed created) :
    (unit.reorder orders).externalMacros env projectRootPath =
      unit.externalMacros env projectRootPath := by
  unfold externalMacros
  rw [macroIndexer_reorder, plainMacroSymbol_reorder hspec h.toStableFiles,
    show (unit.reorder orders).deterministic = true from h.deterministic, h.deterministic]
  let info (defLoc : Nat) : SymbolInformation :=
    { symbol := (unit.macroSource env projectRootPath).plainMacroSymbol defLoc }
  exact @map_extract_of_key _ _ _ _ (compare : Nat → Nat → Ordering) _ _ MacroInfo.definitionLoc
    info _ _ _ _

/-- The shard, in terms of the indexer after the traversal. -/
theorem handleTranslationUnit_eq (replaceInvalid : Str → Str)
    (hagree : (unit.fileMetadataMap env projectRootPath).FileSymbolsAgree) :
    unit.handleTranslationUnit env projectRootPath filesToBeIndexed replaceInvalid =
      ((unit.indexerAtEnd env projectRootPath filesToBeIndexed).forwardDeclarations.emit
        replaceInvalid unit.forwardDeclOrder unit.deterministic).map fun forwardDecls =>
          { docsAndExternals :=
              { documents := (unit.indexedProjectFiles env projectRootPath filesToBeIndexed).map
                  (unit.plainDocument env projectRootPath
                    (unit.indexerAtEnd env projectRootPath filesToBeIndexed))
                externalSymbols :=
                  (unit.indexerAtEnd env projectRootPath filesToBeIndexed).emitExternalSymbols
                    unit.externalOrder unit.deterministic ++
                      unit.externalMacros env projectRootPath }
            forwardDecls } := by
  unfold handleTranslationUnit
  rw [tuIndexer_eq hagree, Option.bind_eq_bind, Option.bind_some, call_writeIndex]
  rfl

/-- Everything the other way round. -/
def reversedOrders : IterationOrders where
  order := .reversed
  macroOrder := .reversed
  documentOrder := .reversed
  externalOrder := .reversed
  forwardDeclOrder := .reversed

theorem reproducible_macroUnit :
    macroUnit.Reproducible packageEnv macroProject []
      { projectRootPath := macroProject, isTesting := false } where
  isCreated := ⟨false, none, rfl⟩
  packageMap := ⟨[], List.forall_mem_nil _, rfl⟩
  absolute := by
    intro fileId absPath hpath
    dsimp only [macroUnit] at hpath
    split at hpath
    · obtain rfl := Option.some.inj hpath
      rfl
    · cases hpath
  oneFileIdPerPair := by
    intro entry hentry other hother _
    rw [List.mem_singleton.mp hentry, List.mem_singleton.mp hother]
  deterministic := rfl
  distinctPaths := by
    have hfiles : (macroUnit.toBeIndexed []).filterMap (fun fileId =>
        (macroUnit.projectPath packageEnv macroProject fileId).map fun path => (path, fileId)) =
          [(⟨['m'], .Project⟩, ⟨1⟩)] := by decide
    refine ((WorkerRun.indexedProjectFiles_perm.map Prod.fst).nodup_iff).mpr ?_
    rw [hfiles]
    exact List.nodup_singleton _
  fileSymbolsAgree := @FileMetadataMap.FileSymbolsAgree.of_entries_eq _ ⟨1⟩ macroFile (by decide)

end IndexedUnit

end ScipClang
