import ScipClang.Worker.IdPathMappings
import ScipClang.Worker.PackageMap

/-!
# The path under which a file is indexed

`FileMetadataMap` (`indexer/IdPathMappings.cc`) gives every file of a translation unit a
path that is stable across machines.  There are four rules: relative to the root of the
package, relative to the build root if the file also exists in the project at that
place, relative to the project root, and a made up path.

`fileMetadata` is the decision for one file, given the package that was found for it.

`makeAbsolute_fileMetadata` says that the path of an in-project file leads back to the file
unless the file was *remapped* from the build root to another place in the project.
-/

namespace ScipClang

open HashTables

/-- `StableFileId`. -/
structure StableFileId where
  path : RootRelativePathRef
  isInProject : Bool
  isSynthetic : Bool
deriving DecidableEq

/-- `FileMetadata`. -/
structure FileMetadata where
  stableFileId : StableFileId
  originalPath : AbsolutePath
  packageInfo : Option PackageMetadata
deriving DecidableEq

section Decision

variable (env : PathEnv) (projectRootPath buildRootPath : RootPath)

/-- The path made up for a file that is neither in a package nor in the project. -/
def syntheticMetadata (optPackageMetadata : Option PackageMetadata) (absPath : AbsolutePath) :
    FileMetadata where
  stableFileId :=
    { path := ⟨"<external>/".toList ++ env.hashForText absPath.value ++
        separator :: (fileName absPath.value).getD [], .Build⟩
      isInProject := false
      isSynthetic := true }
  originalPath := absPath
  packageInfo := optPackageMetadata

/-- The last check: is the file inside the project root? -/
def checkInProjectPath (optPackageMetadata : Option PackageMetadata) (absPath : AbsolutePath) :
    FileMetadata :=
  match projectRootPath.tryMakeRelative absPath.value with
  | some projectRootRelPath =>
      ⟨⟨projectRootRelPath, true, false⟩, absPath, optPackageMetadata⟩
  | none => syntheticMetadata env optPackageMetadata absPath

/-- The metadata that `FileMetadataMap::insert` stores for a file, given the package that was
found for it. -/
def fileMetadata (optPackageMetadata : Option PackageMetadata) (absPath : AbsolutePath) :
    FileMetadata :=
  match optPackageMetadata with
  | some packageMetadata =>
      match makeRelative packageMetadata.rootPath absPath.value with
      | some strView =>
          ⟨⟨⟨strView, .External⟩, packageMetadata.isMainPackage, false⟩, absPath,
            optPackageMetadata⟩
      | none => syntheticMetadata env optPackageMetadata absPath
  | none =>
      match buildRootPath.tryMakeRelative absPath.value with
      | some buildRootRelPath =>
          let originalFileSourcePath :=
            projectRootPath.makeAbsoluteAllowKindMismatch buildRootRelPath
          match env.realPath originalFileSourcePath.value with
          | some realPath =>
              if realPath = originalFileSourcePath.value then
                ⟨⟨⟨buildRootRelPath.value, .Project⟩, true, false⟩, absPath, none⟩
              else syntheticMetadata env none absPath
          | none => checkInProjectPath env projectRootPath none absPath
      | none => checkInProjectPath env projectRootPath none absPath

/-- A file below the build root, outside of all packages, takes the place of another file in
the project. -/
def Remapped (optPackageMetadata : Option PackageMetadata) (absPath : AbsolutePath) : Prop :=
  optPackageMetadata = none ∧ ∃ buildRootRelPath,
    buildRootPath.tryMakeRelative absPath.value = some buildRootRelPath ∧
    let originalFileSourcePath := projectRootPath.makeAbsoluteAllowKindMismatch buildRootRelPath
    env.realPath originalFileSourcePath.value = some originalFileSourcePath.value ∧
      originalFileSourcePath ≠ absPath

end Decision

/-- A root that is a textual beginning of the path is a directory above it. -/
def SharesNoPrefix (root path : Str) : Prop := root <+: path → IsBelow root path

section Identity

variable {env : PathEnv} {projectRootPath buildRootPath : RootPath}
  {optPackageMetadata : Option PackageMetadata} {absPath : AbsolutePath}

@[simp] theorem isInProject_syntheticMetadata :
    (syntheticMetadata env optPackageMetadata absPath).stableFileId.isInProject = false := rfl

theorem makeAbsolute_of_makeRelative {root : RootPath} {strView : Str} (kind : RootKind)
    (h : makeRelative root.value.value absPath.value = some strView)
    (hbelow : IsBelow root.value.value absPath.value) :
    root.makeAbsolute ⟨strView, kind⟩ = absPath := by
  obtain ⟨rest, hrest, hjoin⟩ := makeRelative_of_isBelow hbelow
  obtain rfl : strView = rest := Option.some.inj (h.symm.trans hrest)
  cases absPath
  simpa [RootPath.makeAbsolute, RootPath.makeAbsoluteAllowKindMismatch] using hjoin

theorem isPrefix_of_makeRelative {root path strView : Str}
    (h : makeRelative root path = some strView) : root <+: path := by
  unfold makeRelative at h
  split at h
  · rename_i hprefix
    exact List.isPrefixOf_iff_prefix.mp hprefix
  · cases h

theorem makeAbsolute_checkInProjectPath
    (hshares : SharesNoPrefix projectRootPath.value.value absPath.value)
    (hin : (checkInProjectPath env projectRootPath optPackageMetadata
      absPath).stableFileId.isInProject = true) :
    projectRootPath.makeAbsolute
      ⟨(checkInProjectPath env projectRootPath optPackageMetadata absPath).stableFileId.path.value,
        .Project⟩ = absPath := by
  unfold checkInProjectPath at hin ⊢
  cases hrel : projectRootPath.tryMakeRelative absPath.value with
  | none =>
      simp only [hrel, isInProject_syntheticMetadata, Bool.false_eq_true] at hin
  | some projectRootRelPath =>
      obtain ⟨strView, hstrView, rfl⟩ := Option.map_eq_some_iff.mp hrel
      exact makeAbsolute_of_makeRelative .Project hstrView
        (hshares (isPrefix_of_makeRelative hstrView))

/-- **The path of an in-project file leads back to the file**, unless the file was remapped
from the build root; then it leads to the place in the project. -/
theorem makeAbsolute_fileMetadata
    (hpackage : ∀ packageMetadata, optPackageMetadata = some packageMetadata →
      PackageMap.EntryValid projectRootPath.value.value absPath.value packageMetadata)
    (hne : absPath.value ≠ projectRootPath.value.value)
    (hshares : SharesNoPrefix projectRootPath.value.value absPath.value)
    (hin : (fileMetadata env projectRootPath buildRootPath optPackageMetadata
      absPath).stableFileId.isInProject = true) :
    (¬ Remapped env projectRootPath buildRootPath optPackageMetadata absPath →
      projectRootPath.makeAbsolute
        ⟨(fileMetadata env projectRootPath buildRootPath optPackageMetadata
          absPath).stableFileId.path.value, .Project⟩ = absPath) ∧
    (Remapped env projectRootPath buildRootPath optPackageMetadata absPath →
      (buildRootPath.tryMakeRelative absPath.value).map RootRelativePathRef.value =
        some (fileMetadata env projectRootPath buildRootPath optPackageMetadata
          absPath).stableFileId.path.value) := by
  cases optPackageMetadata with
  | some packageMetadata =>
      refine ⟨fun _ => ?_, fun hremapped => absurd hremapped.1 (by simp)⟩
      obtain ⟨hbelow, hmain⟩ := hpackage packageMetadata rfl
      cases hrel : makeRelative packageMetadata.rootPath absPath.value with
      | none =>
          simp only [fileMetadata, hrel, isInProject_syntheticMetadata, Bool.false_eq_true] at hin
      | some strView =>
          simp only [fileMetadata, hrel] at hin ⊢
          rw [hmain.mp hin] at hrel hbelow
          rcases hbelow with heq | hbelow
          · exact absurd heq hne
          · exact makeAbsolute_of_makeRelative .Project hrel hbelow
  | none =>
      cases hrel : buildRootPath.tryMakeRelative absPath.value with
      | none =>
          refine ⟨fun _ => ?_, ?_⟩
          · simp only [fileMetadata, hrel] at hin ⊢
            exact makeAbsolute_checkInProjectPath hshares hin
          · rintro ⟨-, buildRootRelPath, hsome, -⟩
            rw [hrel] at hsome
            cases hsome
      | some buildRootRelPath =>
          cases hreal : env.realPath
              (projectRootPath.makeAbsoluteAllowKindMismatch buildRootRelPath).value with
          | none =>
              refine ⟨fun _ => ?_, ?_⟩
              · simp only [fileMetadata, hrel, hreal] at hin ⊢
                exact makeAbsolute_checkInProjectPath hshares hin
              · rintro ⟨-, other, hsome, hexists, -⟩
                rw [hrel, Option.some.injEq] at hsome
                subst hsome
                rw [hreal] at hexists
                cases hexists
          | some realPath =>
              simp only [fileMetadata, hrel, hreal] at hin ⊢
              split at hin
              · rename_i hsame
                rw [if_pos hsame]
                subst hsame
                refine ⟨fun hremapped => ?_, fun _ => rfl⟩
                by_contra hmoved
                exact hremapped ⟨rfl, buildRootRelPath, hrel, hreal, hmoved⟩
              · simp only [isInProject_syntheticMetadata, Bool.false_eq_true] at hin

end Identity

end ScipClang
