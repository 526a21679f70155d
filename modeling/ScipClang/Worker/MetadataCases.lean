import ScipClang.Worker.Documents
import ScipClang.Worker.PathNormalization

/-!
# The cases of file metadata

`indexer/FileMetadata.h` lists the possible cases of a `FileMetadata`: a file of the project, a
file of another package, and an external file with a made up path and no package.

`FileMetadataMap::insert` gets to the made up path also when a package was found, but its root
is not a textual prefix of the path.  This happens for paths that are not normalized, since the
package is looked up under the normalized path (`existsUnique_case_insert_iff`).
-/

namespace ScipClang

open HashTables

/-- The cases that are documented for `FileMetadata`. -/
inductive MetadataCase where
  | project
  | package
  | synthetic
deriving DecidableEq

/-- The conditions of a case. -/
def MetadataCase.Holds : MetadataCase → FileMetadata → Prop
  | project, metadata =>
      metadata.stableFileId.isInProject = true ∧ metadata.stableFileId.isSynthetic = false
  | package, metadata =>
      metadata.stableFileId.isInProject = false ∧ metadata.stableFileId.isSynthetic = false ∧
        metadata.packageInfo.isSome
  | synthetic, metadata =>
      metadata.stableFileId.isInProject = false ∧ metadata.stableFileId.isSynthetic = true ∧
        metadata.packageInfo = none

namespace MetadataCase

/-- No two cases hold of one file. -/
theorem Holds.unique {metadata : FileMetadata} {case other : MetadataCase}
    (h : case.Holds metadata) (h' : other.Holds metadata) : case = other := by
  cases case <;> cases other <;> simp_all [Holds]

theorem existsUnique_iff {metadata : FileMetadata} :
    (∃! case : MetadataCase, case.Holds metadata) ↔
      ∃ case : MetadataCase, case.Holds metadata := by
  constructor
  · exact ExistsUnique.exists
  · rintro ⟨case, h⟩
    exact ⟨case, h, fun other h' => h'.unique h⟩

theorem exists_iff {metadata : FileMetadata} :
    (∃ case : MetadataCase, case.Holds metadata) ↔
      if metadata.stableFileId.isSynthetic then
        metadata.stableFileId.isInProject = false ∧ metadata.packageInfo = none
      else metadata.stableFileId.isInProject = true ∨ metadata.packageInfo.isSome := by
  constructor
  · rintro ⟨case, h⟩
    cases case <;> simp_all [Holds]
  · intro h
    split at h
    · rename_i hsynthetic
      exact ⟨synthetic, h.1, hsynthetic, h.2⟩
    · rename_i hsynthetic
      rw [Bool.not_eq_true] at hsynthetic
      cases hproject : metadata.stableFileId.isInProject with
      | true => exact ⟨project, hproject, hsynthetic⟩
      | false =>
          rcases h with h | h
          · rw [hproject] at h
            cases h
          · exact ⟨package, hproject, hsynthetic, h⟩

end MetadataCase

section Decision

variable {env : PathEnv} {projectRootPath buildRootPath : RootPath} {absPath : AbsolutePath}

theorem exists_case_syntheticMetadata_iff {optPackageMetadata : Option PackageMetadata} :
    (∃ case : MetadataCase, case.Holds (syntheticMetadata env optPackageMetadata absPath)) ↔
      optPackageMetadata = none := by
  have hsynthetic :
      (syntheticMetadata env optPackageMetadata absPath).stableFileId.isSynthetic = true := rfl
  rw [MetadataCase.exists_iff, if_pos hsynthetic]
  exact and_iff_right rfl

theorem exists_case_checkInProjectPath :
    ∃ case : MetadataCase, case.Holds (checkInProjectPath env projectRootPath none absPath) := by
  unfold checkInProjectPath
  split
  · exact ⟨.project, rfl, rfl⟩
  · exact exists_case_syntheticMetadata_iff.mpr rfl

theorem exists_case_fileMetadata_none : ∃ case : MetadataCase, case.Holds
    (fileMetadata env projectRootPath buildRootPath none absPath) := by
  simp only [fileMetadata]
  split
  · split
    · split
      · exact ⟨.project, rfl, rfl⟩
      · exact exists_case_syntheticMetadata_iff.mpr rfl
    · exact exists_case_checkInProjectPath
  · exact exists_case_checkInProjectPath

/-- The decision ends in none of the cases if the prefix check fails after a package was
found. -/
theorem exists_case_fileMetadata_iff {optPackageMetadata : Option PackageMetadata} :
    (∃ case : MetadataCase, case.Holds
      (fileMetadata env projectRootPath buildRootPath optPackageMetadata absPath)) ↔
      ∀ packageMetadata, optPackageMetadata = some packageMetadata →
        packageMetadata.rootPath <+: absPath.value := by
  cases optPackageMetadata with
  | none => exact iff_of_true exists_case_fileMetadata_none (fun _ hnone => (by cases hnone))
  | some packageMetadata =>
      simp only [Option.some.injEq, forall_eq', ← isSome_makeRelative]
      cases hrel : makeRelative packageMetadata.rootPath absPath.value with
      | some strView =>
          simp only [fileMetadata, hrel]
          refine iff_of_true (MetadataCase.exists_iff.mpr ?_) rfl
          exact .inr rfl
      | none =>
          simp only [fileMetadata, hrel, exists_case_syntheticMetadata_iff]
          simp

end Decision

/-! ## The package that is found -/

namespace PackageMap

variable {env : PathEnv} {projectRootPath : RootPath} {isTesting : Bool}
  {entries : Option (List PackageMapEntry)} {created : PackageMap}

theorem create_eq_some
    (h : create env projectRootPath isTesting entries = some created) :
    created.map.entries = [] ∨ ∃ fileEntries, populate env
      { projectRootPath := projectRootPath, isTesting := isTesting } fileEntries =
        some created := by
  cases entries with
  | none =>
      obtain rfl := Option.some.inj h
      exact .inl rfl
  | some fileEntries => exact .inr ⟨fileEntries, h⟩

/-- Lookups in an empty map change nothing. -/
theorem lookups_of_entries_eq_nil (hnil : created.map.entries = []) (paths : List Str) :
    (created.lookups env paths).2 = created := by
  have hlookup : ∀ path, (created.lookup env path).2 = created := by
    intro path
    unfold lookup
    rw [if_pos hnil]
    split <;> rfl
  induction paths with
  | nil => rfl
  | cons path paths ih =>
      rw [lookups]
      simp only [hlookup, ih]

/-- The package that is found is the nearest one, also after other lookups; in a test without a
package map it is the file system root. -/
theorem lookup_create (hspec : PathSpec env)
    (hcreate : create env projectRootPath isTesting entries = some created)
    {earlier : List Str} (hearlier : ∀ path ∈ earlier, isAbsolute path = true) {path : Str}
    (hpath : isAbsolute path = true) :
    ((created.lookups env earlier).2.lookup env path).1 = created.nearestPackage path ∨
      created.map.entries = [] ∧ ((created.lookups env earlier).2.lookup env path).1 =
        some ⟨testPackageId, [separator], true⟩ := by
  rcases create_eq_some hcreate with hnil | ⟨fileEntries, hpopulate⟩
  · rw [lookups_of_entries_eq_nil hnil, lookup, if_pos hnil]
    split
    · exact .inr ⟨hnil, rfl⟩
    · have hnone : ∀ dir, entryAt created.map dir = none :=
        fun dir => entries_eq_nil_iff.mp hnil (ofComponents dir)
      refine .inl ?_
      rw [nearestPackage, longestPrefix_eq_none.mpr fun dir _ => hnone dir, ite_self]
  · have hentries := entriesNormal_of_populate hspec hpopulate
    have hne := (ofEntries_populate hpopulate).2
    have hlooked := (hentries.lookedUp.lookups hspec hne hearlier).2
    exact .inl (hlooked.lookup hspec hne hpath).1

end PackageMap

namespace FileMetadataMap

/-- What is stored for a new file. -/
theorem lookup_insert {env : PathEnv} {fileMetadataMap : FileMetadataMap} {fileId : FileId}
    (hfresh : fileMetadataMap.map.lookup fileId = none) (absPath : AbsolutePath) :
    (fileMetadataMap.insert env fileId absPath).map.lookup fileId =
      some (fileMetadata env fileMetadataMap.projectRootPath fileMetadataMap.buildRootPath
        (fileMetadataMap.packageMap.lookup env absPath.value).1 absPath) := by
  unfold insert
  rw [lookup_upsert, if_pos rfl, hfresh, Option.getD_none]

/-- **The metadata of a new file is in exactly one of the documented cases** if and only if the
path begins with the root of the nearest package, if there is one. -/
theorem existsUnique_case_insert_iff {env : PathEnv} (hspec : PathSpec env)
    {projectRootPath : RootPath} {isTesting : Bool} {entries : Option (List PackageMapEntry)}
    {created : PackageMap}
    (hcreate : PackageMap.create env projectRootPath isTesting entries = some created)
    {earlier : List Str} (hearlier : ∀ path ∈ earlier, isAbsolute path = true)
    {fileMetadataMap : FileMetadataMap}
    (hpackageMap : fileMetadataMap.packageMap = (created.lookups env earlier).2)
    {fileId : FileId} (hfresh : fileMetadataMap.map.lookup fileId = none)
    {absPath : AbsolutePath} (habsolute : isAbsolute absPath.value = true) :
    (∃ metadata, (fileMetadataMap.insert env fileId absPath).map.lookup fileId = some metadata ∧
      ∃! case : MetadataCase, case.Holds metadata) ↔
      ∀ packageMetadata, created.nearestPackage absPath.value = some packageMetadata →
        packageMetadata.rootPath <+: absPath.value := by
  rw [lookup_insert hfresh]
  simp only [Option.some.injEq, exists_eq_left', MetadataCase.existsUnique_iff,
    exists_case_fileMetadata_iff, hpackageMap]
  rcases PackageMap.lookup_create hspec hcreate hearlier habsolute with hfound | ⟨hnil, hfound⟩
  · rw [hfound]
  · rw [hfound]
    refine iff_of_true ?_ ?_
    · rintro packageMetadata heq
      obtain rfl := Option.some.inj heq
      obtain ⟨rest, hrest⟩ := List.head?_eq_some_iff.mp (head?_of_isAbsolute habsolute)
      exact ⟨rest, hrest.symm⟩
    · intro packageMetadata hnearest
      have hnone : ∀ dir, PackageMap.entryAt created.map dir = none :=
        fun dir => PackageMap.entries_eq_nil_iff.mp hnil (ofComponents dir)
      rw [PackageMap.nearestPackage, longestPrefix_eq_none.mpr fun dir _ => hnone dir, ite_self]
        at hnearest
      cases hnearest

end FileMetadataMap

/-- The metadata of the files of the project with a package inside. -/
def projectFiles : FileMetadataMap where
  projectRootPath := ⟨⟨"/p".toList⟩, .Project⟩
  buildRootPath := ⟨⟨"/p/build".toList⟩, .Build⟩
  packageMap := packages

theorem existsUnique_case_packageFile :
    ∃ metadata, (projectFiles.insert packageEnv ⟨1⟩ ⟨"/p/ext/x.h".toList⟩).map.lookup ⟨1⟩ =
      some metadata ∧ ∃! case : MetadataCase, case.Holds metadata := by
  have hnearest : packages.nearestPackage "/p/ext/x.h".toList = some extPackage := by
    decide +kernel
  refine (FileMetadataMap.existsUnique_case_insert_iff pathSpec_packageEnv
    (show PackageMap.create packageEnv ⟨⟨"/p".toList⟩, .Project⟩ false (some packageEntries) =
      some packages from rfl) (List.forall_mem_nil _) rfl rfl (by decide)).mpr ?_
  intro packageMetadata hfound
  obtain rfl := Option.some.inj (hnearest.symm.trans hfound)
  decide

/-- The package of `/p/./ext/x.h` is found, but its root `/p/ext` is not a textual prefix. -/
theorem no_case_dotFile :
    PackageMap.create packageEnv ⟨⟨"/p".toList⟩, .Project⟩ false (some packageEntries) =
        some packages ∧
      ∃ metadata, (projectFiles.insert packageEnv ⟨1⟩ ⟨"/p/./ext/x.h".toList⟩).map.lookup ⟨1⟩ =
          some metadata ∧
        metadata.stableFileId.isSynthetic = true ∧ metadata.packageInfo = some extPackage ∧
        ∀ case : MetadataCase, ¬ case.Holds metadata := by
  have hfound : (packages.lookup packageEnv "/p/./ext/x.h".toList).1 = some extPackage := by
    decide +kernel
  have hmetadata : fileMetadata packageEnv projectFiles.projectRootPath
      projectFiles.buildRootPath (some extPackage) ⟨"/p/./ext/x.h".toList⟩ =
        syntheticMetadata packageEnv (some extPackage) ⟨"/p/./ext/x.h".toList⟩ := by
    have hrel : makeRelative extPackage.rootPath "/p/./ext/x.h".toList = none := by
      decide
    simp only [fileMetadata, hrel]
  refine ⟨rfl, syntheticMetadata packageEnv (some extPackage) ⟨"/p/./ext/x.h".toList⟩, ?_, rfl,
    rfl, not_exists.mp ?_⟩
  · rw [FileMetadataMap.lookup_insert rfl, ← hmetadata, ← hfound]
    rfl
  · rw [exists_case_syntheticMetadata_iff]
    simp

end ScipClang
