import ScipClang.Driver.OneDocument

/-!
# Worker and driver agree on file identity

A worker gives a file a relative path by one of four rules; the driver turns a relative
path back into an absolute one by joining it with the project root.  The two agree for
every in-project file that is not *remapped*: a file below the build root that belongs to
no package, and that also exists in the project at the same relative path, is indexed
under the path of the latter.

Two things are taken for granted here.  The project root shares a textual beginning only
with paths below it (`SharesNoPrefix`), since `tryMakeRelative` does not look for
component boundaries; and the indexer does not run in the mode for tests, where the
whole file system counts as one package.

* `FileMetadataMap.Sound`: the metadata of a file id was computed from its own path, with a
  package at or above it.
-/

namespace ScipClang

open HashTables

/-! ## The package map of a worker -/

/-- The package maps that a worker can have: a new one, and what lookups make of it. -/
inductive PackageMap.Reachable (env : PathEnv) (root : RootPath) : PackageMap → Prop where
  | create {entries : Option (List PackageMapEntry)} {packageMap : PackageMap} :
      PackageMap.create env root false entries = some packageMap → Reachable env root packageMap
  | lookup {packageMap : PackageMap} {filepath : Str} : Reachable env root packageMap →
      NormalPath filepath → isNormalized env filepath = true →
        Reachable env root (packageMap.lookup env filepath).2

/-- A package map that can be used for the files of a project. -/
structure PackageMap.ValidFor (packageMap : PackageMap) (root : RootPath) : Prop where
  valid : packageMap.Valid
  projectRootPath_eq : packageMap.projectRootPath = root
  isTesting_eq : packageMap.isTesting = false

theorem PackageMap.validFor_lookup {env : PathEnv} (hparent : ParentPathSpec env)
    {packageMap : PackageMap} {root : RootPath} (h : packageMap.ValidFor root) {filepath : Str}
    (hpath : NormalPath filepath) (hnormalized : isNormalized env filepath = true) :
    (packageMap.lookup env filepath).2.ValidFor root := by
  obtain ⟨hvalid, hroot, htesting, -⟩ :=
    PackageMap.lookup_spec hparent h.valid h.isTesting_eq hpath hnormalized
  exact ⟨hvalid, hroot.trans h.projectRootPath_eq, htesting.trans h.isTesting_eq⟩

theorem PackageMap.Reachable.validFor {env : PathEnv} (hparent : ParentPathSpec env)
    {root : RootPath} {packageMap : PackageMap} (h : PackageMap.Reachable env root packageMap) :
    packageMap.ValidFor root := by
  induction h with
  | create hcreate =>
      obtain ⟨hvalid, hroot, htesting⟩ := PackageMap.create_spec hcreate
      exact ⟨hvalid, hroot, htesting⟩
  | lookup _ hpath hnormalized ih => exact PackageMap.validFor_lookup hparent ih hpath hnormalized

/-! ## The metadata of a file id -/

theorem packageInfo_fileMetadata (env : PathEnv) (projectRootPath buildRootPath : RootPath)
    (optPackageMetadata : Option PackageMetadata) (absPath : AbsolutePath) :
    (fileMetadata env projectRootPath buildRootPath optPackageMetadata absPath).packageInfo =
      optPackageMetadata := by
  have hcheck : ∀ opt, (checkInProjectPath env projectRootPath opt absPath).packageInfo = opt := by
    intro opt
    unfold checkInProjectPath
    split <;> rfl
  cases optPackageMetadata with
  | some packageMetadata =>
      simp only [fileMetadata]
      split <;> rfl
  | none =>
      simp only [fileMetadata]
      split
      · split
        · split <;> rfl
        · exact hcheck none
      · exact hcheck none

namespace FileMetadataMap

/-- The metadata of a file id was computed from its own path, with a package at or above
it. -/
structure Sound (env : PathEnv) (getAbsPath : FileId → Option AbsolutePath)
    (root buildRootPath : RootPath) (fileMetadataMap : FileMetadataMap) : Prop where
  projectRootPath_eq : fileMetadataMap.projectRootPath = root
  buildRootPath_eq : fileMetadataMap.buildRootPath = buildRootPath
  packageMap : fileMetadataMap.packageMap.ValidFor root
  metadata : ∀ fileId metadata, fileMetadataMap.map.lookup fileId = some metadata →
    ∃ absPath, getAbsPath fileId = some absPath ∧
      metadata = fileMetadata env root buildRootPath metadata.packageInfo absPath ∧
      ∀ packageInfo, metadata.packageInfo = some packageInfo →
        PackageMap.EntryValid root.value.value absPath.value packageInfo

section Sound

variable {env : PathEnv} {getAbsPath : FileId → Option AbsolutePath}
  {root buildRootPath : RootPath} {fileMetadataMap : FileMetadataMap}

theorem sound_insert (hparent : ParentPathSpec env)
    (h : fileMetadataMap.Sound env getAbsPath root buildRootPath) {fileId : FileId}
    {absPath : AbsolutePath} (habs : getAbsPath fileId = some absPath)
    (hpath : NormalPath absPath.value) (hnormalized : isNormalized env absPath.value = true) :
    (fileMetadataMap.insert env fileId absPath).Sound env getAbsPath root buildRootPath where
  projectRootPath_eq := h.projectRootPath_eq
  buildRootPath_eq := h.buildRootPath_eq
  packageMap := PackageMap.validFor_lookup hparent h.packageMap hpath hnormalized
  metadata := by
    intro other metadata hlookup
    simp only [insert, lookup_upsert] at hlookup
    split at hlookup
    · rename_i heq
      subst heq
      cases hold : fileMetadataMap.map.lookup other with
      | some old =>
          rw [hold, Option.getD_some, Option.some.injEq] at hlookup
          exact h.metadata other metadata (hlookup ▸ hold)
      | none =>
          rw [hold, Option.getD_none, Option.some.injEq] at hlookup
          subst hlookup
          rw [h.projectRootPath_eq, h.buildRootPath_eq, packageInfo_fileMetadata]
          refine ⟨absPath, habs, rfl, ?_⟩
          have hfound := (PackageMap.lookup_spec hparent h.packageMap.valid
            h.packageMap.isTesting_eq hpath hnormalized).2.2.2
          rw [h.packageMap.projectRootPath_eq] at hfound
          exact hfound
    · exact h.metadata other metadata hlookup

/-- A loop that inserts files under their own paths. -/
theorem sound_foldl_insert (hparent : ParentPathSpec env) (files : List (FileId × AbsolutePath))
    (hfiles : ∀ file ∈ files, getAbsPath file.1 = some file.2 ∧ NormalPath file.2.value ∧
      isNormalized env file.2.value = true)
    (h : fileMetadataMap.Sound env getAbsPath root buildRootPath) :
    (files.foldl (fun fileMetadataMap file => fileMetadataMap.insert env file.1 file.2)
      fileMetadataMap).Sound env getAbsPath root buildRootPath := by
  induction files generalizing fileMetadataMap with
  | nil => exact h
  | cons file files ih =>
      obtain ⟨habs, hpath, hnormalized⟩ := hfiles file List.mem_cons_self
      exact ih (fun other hother => hfiles other (List.mem_cons_of_mem _ hother))
        (sound_insert hparent h habs hpath hnormalized)

end Sound

end FileMetadataMap

/-! ## The files of a translation unit -/

namespace WorkerRun

/-- What is assumed of a translation unit and its worker. -/
structure Admissible (env : PathEnv) (root : RootPath) (run : WorkerRun) : Prop where
  packageMap : PackageMap.Reachable env root run.packageMap
  normal : ∀ fileId absPath, run.tu.getAbsPath fileId = some absPath →
    NormalPath absPath.value ∧ isNormalized env absPath.value = true
  sharesNoPrefix : ∀ fileId absPath, run.tu.getAbsPath fileId = some absPath →
    SharesNoPrefix root.value.value absPath.value

/-- The file is indexed in place of another file of the project. -/
def IsRemapped (env : PathEnv) (root : RootPath) (run : WorkerRun) (fileId : FileId)
    (absPath : AbsolutePath) : Prop :=
  ∃ metadata, (run.fileMetadataMap env root).map.lookup fileId = some metadata ∧
    Remapped env root run.tu.buildRootPath metadata.packageInfo absPath

variable {env : PathEnv} {root : RootPath} {run : WorkerRun}

theorem sound_fileMetadataMap (hparent : ParentPathSpec env) (h : run.Admissible env root) :
    (run.fileMetadataMap env root).Sound env run.tu.getAbsPath root run.tu.buildRootPath := by
  have hpopulated : (FileMetadataMap.populate env
      { projectRootPath := root, buildRootPath := run.tu.buildRootPath,
        packageMap := run.packageMap } run.order run.clangIdLookupMap).Sound env
      run.tu.getAbsPath root run.tu.buildRootPath := by
    rw [FileMetadataMap.populate_eq]
    refine FileMetadataMap.sound_foldl_insert hparent _ ?_
      ⟨rfl, rfl, h.packageMap.validFor hparent, ?_⟩
    · -- the lookup map leads from a path to files with that path
      rintro ⟨fileId, absPath⟩ hmem
      obtain ⟨⟨path, hashToFileId⟩, hentry, hmap⟩ := List.mem_flatMap.mp hmem
      obtain ⟨⟨hashValue, id⟩, hid, heq⟩ := List.mem_map.mp hmap
      obtain ⟨rfl, rfl⟩ := Prod.mk.inj heq
      have hpath := AList.mem_lookup_iff.mpr ((run.order.perm _ _).mem_iff.mp hentry)
      have hhash := AList.mem_lookup_iff.mpr ((run.order.perm _ _).mem_iff.mp hid)
      have habs := (PreprocessorState.mapSound_clangIdLookupMap.lookup path hashValue id
        (Option.bind_eq_some_iff.mpr ⟨hashToFileId, hpath, hhash⟩)).1
      exact ⟨habs, h.normal id path habs⟩
    · intro fileId metadata hlookup
      rw [AList.lookup_empty] at hlookup
      cases hlookup
  unfold fileMetadataMap
  dsimp only
  split
  · rename_i mainFileAbsPath habs
    obtain ⟨hpath, hnormalized⟩ := h.normal _ _ habs
    exact FileMetadataMap.sound_insert hparent hpopulated habs hpath hnormalized
  · exact hpopulated

theorem not_isBelow_self (root : Str) : ¬ IsBelow root root := by
  rintro ⟨rest, hne, -, heq⟩
  have hlength := congrArg List.length heq
  have hpos := List.length_pos_iff.mpr hne
  unfold joinPath at hlength
  split at hlength
  · rw [List.length_append] at hlength
    omega
  · rw [List.length_append, List.length_cons] at hlength
    omega

/-- The path of an emitted document, for a file that is remapped and for one that is not. -/
theorem makeAbsolute_of_emitted (hparent : ParentPathSpec env) (h : run.Admissible env root)
    {path : RootRelativePathRef} {fileId : FileId} {absPath : AbsolutePath}
    (hpath : run.projectPath env root fileId = some path)
    (habs : run.tu.getAbsPath fileId = some absPath) :
    (¬ run.IsRemapped env root fileId absPath →
      root.makeAbsolute ⟨path.value, .Project⟩ = absPath) ∧
    (run.IsRemapped env root fileId absPath →
      (run.tu.buildRootPath.tryMakeRelative absPath.value).map RootRelativePathRef.value =
        some path.value) := by
  have hsound := sound_fileMetadataMap hparent h
  unfold projectPath FileMetadataMap.getStableFileId at hpath
  cases hlookup : (run.fileMetadataMap env root).map.lookup fileId with
  | none =>
      rw [hlookup] at hpath
      cases hpath
  | some metadata =>
      obtain ⟨other, hother, hmetadata, hpackage⟩ := hsound.metadata fileId metadata hlookup
      obtain rfl : other = absPath := Option.some.inj (hother.symm.trans habs)
      rw [hlookup, Option.map_some] at hpath
      dsimp only at hpath
      split at hpath
      · rename_i hin
        obtain rfl := Option.some.inj hpath
        have hshares := h.sharesNoPrefix fileId other habs
        have hne : other.value ≠ root.value.value := by
          intro heq
          exact not_isBelow_self root.value.value (heq ▸ hshares (heq ▸ List.prefix_refl _))
        have hremapped : run.IsRemapped env root fileId other ↔
            Remapped env root run.tu.buildRootPath metadata.packageInfo other := by
          constructor
          · rintro ⟨metadata', hlookup', hremapped⟩
            rw [hlookup, Option.some.injEq] at hlookup'
            rwa [hlookup']
          · intro hremapped
            exact ⟨metadata, hlookup, hremapped⟩
        rw [hremapped]
        rw [hmetadata] at hin
        have hboth := makeAbsolute_fileMetadata hpackage hne hshares hin
        rw [← hmetadata] at hboth
        exact hboth
      · cases hpath

end WorkerRun

/-! ## All translation units -/

/-- The hashes that the driver recorded for a reported file. -/
theorem hashesSoFar_finalPlanner {root : RootPath} {runs : List WorkerRun} {run : WorkerRun}
    (hrun : run ∈ runs) {absPath : AbsolutePath} {hashValue : HashValue}
    (hreported : (⟨absPath, hashValue⟩ : PreprocessedFileInfo) ∈ run.semaResult.pairs) :
    (finalPlanner root runs).hashesSoFar absPath =
      some (FileIndexingPlanner.reportedHashes (semaResults runs) absPath) := by
  have hmem : hashValue ∈ FileIndexingPlanner.reportedHashes (semaResults runs) absPath :=
    FileIndexingPlanner.mem_reportedHashes.mpr
      (List.mem_flatMap.mpr ⟨run.semaResult, List.mem_map.mpr ⟨run, hrun, rfl⟩, hreported⟩)
  rw [finalPlanner, FileIndexingPlanner.hashesSoFar_saveAll root _ wellFormed_semaResults,
    if_neg (Finset.ne_empty_of_mem hmem)]

/-- In a project without remapped files, different pairs have different paths: only main files
can get several documents. -/
theorem noSharedPath_of_mainFile {env : PathEnv} (hparent : ParentPathSpec env) {root : RootPath}
    {runs : List WorkerRun} (hruns : ∀ run ∈ runs, run.Admissible env root)
    (hremapped : ∀ run ∈ runs, ∀ fileId absPath, run.tu.getAbsPath fileId = some absPath →
      ¬ run.IsRemapped env root fileId absPath) {merged : MergedShards runs}
    (hmain : ∀ path task task' fileId', HasOneHash root runs path →
      MergedUnder env root runs merged path task (runs.get task).tu.mainFileId →
      MergedUnder env root runs merged path task' fileId' → WorkerIndexes runs task' fileId' →
        task' = task ∧ fileId' = (runs.get task).tu.mainFileId) :
    NoSharedPath env root runs merged := by
  have hidentity : ∀ path task fileInfo fileId,
      MergedUnder env root runs merged path task fileId →
      FirstToReport runs task fileInfo fileId →
        root.makeAbsolute ⟨path, .Project⟩ = fileInfo.path ∧
          fileInfo.hashValue ∈
            FileIndexingPlanner.reportedHashes (semaResults runs) fileInfo.path := by
    rintro path task fileInfo fileId ⟨-, hpath⟩ hfirst
    have hrun : runs.get task ∈ runs := List.get_mem runs task
    obtain ⟨habs, -⟩ := PreprocessorState.mapSound_clangIdLookupMap.lookup _ _ _ hfirst.1
    obtain ⟨p, hp, rfl⟩ := Option.map_eq_some_iff.mp hpath
    refine ⟨(WorkerRun.makeAbsolute_of_emitted hparent (hruns _ hrun) hp habs).1
      (hremapped _ hrun fileId _ habs), ?_⟩
    exact FileIndexingPlanner.mem_reportedHashes.mpr (List.mem_flatMap.mpr
      ⟨_, List.mem_map.mpr ⟨_, hrun, rfl⟩, hfirst.reported⟩)
  refine ⟨hmain, ?_⟩
  intro path task fileInfo fileId task' fileInfo' fileId' hone hunder hunder' hfirst hfirst'
  obtain ⟨hpath, hhash⟩ := hidentity path task fileInfo fileId hunder hfirst
  obtain ⟨hpath', hhash'⟩ := hidentity path task' fileInfo' fileId' hunder' hfirst'
  rw [← hpath] at hhash
  rw [← hpath'] at hhash'
  have hsame := Finset.card_le_one.mp (le_of_eq hone) _ hhash _ hhash'
  cases fileInfo
  cases fileInfo'
  rw [PreprocessedFileInfo.mk.injEq]
  exact ⟨hpath.symm.trans hpath', hsame⟩

/-- The main file `/p/build/foo.cc`, which the build generates next to `/p/foo.cc`. -/
def generatedFileRun : WorkerRun :=
  { mainFileRun with
    tu :=
      { mainFileRun.tu with
        getAbsPath := fun fileId =>
          if fileId = ⟨1⟩ then some ⟨"/p/build/foo.cc".toList⟩ else none } }

end ScipClang
