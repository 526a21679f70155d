import ScipClang.IpcMessages
import ScipClang.Library.FirstSeen
import Mathlib.Data.Finset.Image

/-!
# Planning which files a worker indexes

`FileIndexingPlanner` (`indexer/Driver.cc`) decides, for every semantic analysis
result, which of the reported (path, hash) pairs the reporting worker has to
index.  It keeps the set of hashes seen so far for every absolute path; a pair is
handed out when its hash is inserted for the first time.

The abstract picture is the scan of `FirstSeen`: `Tracks planner seen` says that
the nested map represents the set `seen` of pairs, and `saveSemaResult_spec` that
one call is one `FirstSeen.claim`.  Everything about a sequence of calls is then
a statement about `FirstSeen.claimBatches`.

The map is also what the driver consults when it merges shards:
`isMultiplyIndexed` tells whether several hashes were recorded for the absolute
path behind a relative one.
-/

namespace ScipClang

/-- `FileIndexingPlanner`. -/
structure FileIndexingPlanner where
  hashesSoFar : AbsolutePath → Option (Finset HashValue) := fun _ => none
  projectRootPath : RootPath

namespace FileIndexingPlanner

/-- The constructor of `FileIndexingPlanner`. -/
def ofRoot (projectRootPath : RootPath) : FileIndexingPlanner :=
  { projectRootPath := projectRootPath }

/-- `hashesSoFar.insert({path, emptyHashSet})`: an entry that exists is kept. -/
def insertPath (planner : FileIndexingPlanner) (path : AbsolutePath) : FileIndexingPlanner :=
  match planner.hashesSoFar path with
  | some _ => planner
  | none => { planner with hashesSoFar := Function.update planner.hashesSoFar path (some ∅) }

/-- `hashes.insert(hashValue)` on the entry of `path`, appending the pair to
`filesToBeIndexed` if the hash is new. -/
def insertHash (path : AbsolutePath)
    (st : FileIndexingPlanner × List PreprocessedFileInfo) (hashValue : HashValue) :
    FileIndexingPlanner × List PreprocessedFileInfo :=
  let hashes := (st.1.hashesSoFar path).getD ∅
  if hashValue ∈ hashes then
    st
  else
    ({ st.1 with
        hashesSoFar := Function.update st.1.hashesSoFar path (some (insert hashValue hashes)) },
      st.2 ++ [⟨path, hashValue⟩])

/-- The loop body for an ill-behaved file. -/
def saveIllBehaved (st : FileIndexingPlanner × List PreprocessedFileInfo)
    (fileInfoMulti : PreprocessedFileInfoMulti) :
    FileIndexingPlanner × List PreprocessedFileInfo :=
  fileInfoMulti.hashValues.foldl (insertHash fileInfoMulti.path)
    (st.1.insertPath fileInfoMulti.path, st.2)

/-- The loop body for a well-behaved file. -/
def saveWellBehaved (st : FileIndexingPlanner × List PreprocessedFileInfo)
    (fileInfo : PreprocessedFileInfo) :
    FileIndexingPlanner × List PreprocessedFileInfo :=
  insertHash fileInfo.path (st.1.insertPath fileInfo.path, st.2) fileInfo.hashValue

/-- `FileIndexingPlanner::saveSemaResult`. -/
def saveSemaResult (planner : FileIndexingPlanner) (semaResult : SemanticAnalysisJobResult)
    (filesToBeIndexed : List PreprocessedFileInfo) :
    FileIndexingPlanner × List PreprocessedFileInfo :=
  let st := semaResult.illBehavedFiles.foldl saveIllBehaved (planner, filesToBeIndexed)
  semaResult.wellBehavedFiles.foldl saveWellBehaved st

/-- `FileIndexingPlanner::MultiplyIndexed`. -/
inductive MultiplyIndexed where
  | True
  | False
  | Unknown
deriving DecidableEq

/-- `FileIndexingPlanner::isMultiplyIndexed`. -/
def isMultiplyIndexed (planner : FileIndexingPlanner) (relativePath : RootRelativePathRef) :
    MultiplyIndexed :=
  match planner.hashesSoFar (planner.projectRootPath.makeAbsolute relativePath) with
  | none => .Unknown
  | some hashes => if 1 < hashes.card then .True else .False

/-- The driver passes one result after the other, each with an empty
`filesToBeIndexed`. -/
def saveAll (planner : FileIndexingPlanner) :
    List SemanticAnalysisJobResult → FileIndexingPlanner × List (List PreprocessedFileInfo)
  | [] => (planner, [])
  | semaResult :: rest =>
      let st := planner.saveSemaResult semaResult []
      let tail := st.1.saveAll rest
      (tail.1, st.2 :: tail.2)

/-! ## The nested map represents a set of pairs -/

/-- The map records exactly the pairs of `seen`. -/
def Tracks (planner : FileIndexingPlanner) (seen : Finset PreprocessedFileInfo) : Prop :=
  ∀ path hashValue, (⟨path, hashValue⟩ : PreprocessedFileInfo) ∈ seen ↔
    hashValue ∈ (planner.hashesSoFar path).getD ∅

/-- No entry of the map is the empty set. -/
def EntriesNonempty (planner : FileIndexingPlanner) : Prop :=
  ∀ path hashes, planner.hashesSoFar path = some hashes → hashes.Nonempty

@[simp] theorem projectRootPath_insertPath (planner : FileIndexingPlanner) (path : AbsolutePath) :
    (planner.insertPath path).projectRootPath = planner.projectRootPath := by
  unfold insertPath
  split <;> rfl

@[simp] theorem projectRootPath_insertHash (path : AbsolutePath)
    (st : FileIndexingPlanner × List PreprocessedFileInfo) (hashValue : HashValue) :
    (insertHash path st hashValue).1.projectRootPath = st.1.projectRootPath := by
  unfold insertHash
  simp only
  split <;> rfl

/-- Creating an empty entry does not change what the map records. -/
@[simp] theorem getD_insertPath (planner : FileIndexingPlanner) (path other : AbsolutePath) :
    ((planner.insertPath path).hashesSoFar other).getD ∅ =
      (planner.hashesSoFar other).getD ∅ := by
  unfold insertPath
  cases hentry : planner.hashesSoFar path with
  | some hashes => rfl
  | none =>
      by_cases hpath : other = path
      · subst hpath
        simp [hentry]
      · simp [hpath]

theorem tracks_insertPath {planner : FileIndexingPlanner} {seen : Finset PreprocessedFileInfo}
    (htracks : planner.Tracks seen) (path : AbsolutePath) :
    (planner.insertPath path).Tracks seen := by
  intro other hashValue
  rw [getD_insertPath]
  exact htracks other hashValue

/-- One insertion is one step of the scan. -/
theorem insertHash_spec {planner : FileIndexingPlanner} {seen : Finset PreprocessedFileInfo}
    (htracks : planner.Tracks seen) (path : AbsolutePath) (hashValue : HashValue)
    (out : List PreprocessedFileInfo) :
    (insertHash path (planner, out) hashValue).1.Tracks (insert ⟨path, hashValue⟩ seen) ∧
      (insertHash path (planner, out) hashValue).2 =
        out ++ FirstSeen.claim seen [⟨path, hashValue⟩] := by
  have hmem := htracks path hashValue
  by_cases hold : hashValue ∈ (planner.hashesSoFar path).getD ∅
  · have hseen : (⟨path, hashValue⟩ : PreprocessedFileInfo) ∈ seen := hmem.mpr hold
    rw [Finset.insert_eq_of_mem hseen]
    simp only [insertHash, hold, if_true]
    exact ⟨htracks, by simp [FirstSeen.claim, hseen]⟩
  · have hseen : (⟨path, hashValue⟩ : PreprocessedFileInfo) ∉ seen := fun h => hold (hmem.mp h)
    simp only [insertHash, hold, if_false]
    refine ⟨fun other h => ?_, by simp [FirstSeen.claim, hseen]⟩
    rw [Finset.mem_insert, PreprocessedFileInfo.mk.injEq]
    by_cases hpath : other = path
    · subst hpath
      have hother := htracks other h
      simp only [Function.update_self, Option.getD_some, Finset.mem_insert, hother, true_and]
    · simp only [hpath, false_and, false_or, Function.update_of_ne hpath]
      exact htracks other h

/-- The inner loop over the hashes of one path. -/
theorem foldl_insertHash_spec (path : AbsolutePath) (hashValues : List HashValue) :
    ∀ {planner : FileIndexingPlanner} {seen : Finset PreprocessedFileInfo}
      (_ : planner.Tracks seen) (out : List PreprocessedFileInfo),
      (hashValues.foldl (insertHash path) (planner, out)).1.Tracks
          (seen ∪ (hashValues.map (PreprocessedFileInfo.mk path)).toFinset) ∧
        (hashValues.foldl (insertHash path) (planner, out)).2 =
          out ++ FirstSeen.claim seen (hashValues.map (PreprocessedFileInfo.mk path)) := by
  induction hashValues with
  | nil =>
      intro planner seen htracks out
      simpa [FirstSeen.claim] using htracks
  | cons hashValue hashValues ih =>
      intro planner seen htracks out
      obtain ⟨hstep, hout⟩ := insertHash_spec htracks path hashValue out
      obtain ⟨htail, houts⟩ := ih hstep (insertHash path (planner, out) hashValue).2
      have hcons := FirstSeen.claim_append seen [⟨path, hashValue⟩]
        (hashValues.map (PreprocessedFileInfo.mk path))
      have hunion : seen ∪ ((hashValue :: hashValues).map (PreprocessedFileInfo.mk path)).toFinset =
          insert ⟨path, hashValue⟩ seen ∪
            (hashValues.map (PreprocessedFileInfo.mk path)).toFinset := by
        ext f
        simp only [List.map_cons, Finset.mem_union, List.mem_toFinset, List.mem_cons,
          Finset.mem_insert]
        tauto
      have hone : seen ∪ [(⟨path, hashValue⟩ : PreprocessedFileInfo)].toFinset =
          insert ⟨path, hashValue⟩ seen := by
        ext f
        simp only [List.toFinset_cons, List.toFinset_nil, Finset.mem_union, Finset.mem_insert,
          Finset.notMem_empty, or_false]
        tauto
      rw [List.foldl_cons, hunion]
      refine ⟨htail, ?_⟩
      rw [houts, hout, List.append_assoc, List.map_cons, ← hone, ← hcons]
      rfl

/-- One ill-behaved file. -/
theorem saveIllBehaved_spec {planner : FileIndexingPlanner} {seen : Finset PreprocessedFileInfo}
    (htracks : planner.Tracks seen) (out : List PreprocessedFileInfo)
    (fileInfoMulti : PreprocessedFileInfoMulti) :
    (saveIllBehaved (planner, out) fileInfoMulti).1.Tracks
        (seen ∪ (fileInfoMulti.hashValues.map
          (PreprocessedFileInfo.mk fileInfoMulti.path)).toFinset) ∧
      (saveIllBehaved (planner, out) fileInfoMulti).2 =
        out ++ FirstSeen.claim seen (fileInfoMulti.hashValues.map
          (PreprocessedFileInfo.mk fileInfoMulti.path)) :=
  foldl_insertHash_spec fileInfoMulti.path fileInfoMulti.hashValues
    (tracks_insertPath htracks fileInfoMulti.path) out

/-- One well-behaved file. -/
theorem saveWellBehaved_spec {planner : FileIndexingPlanner} {seen : Finset PreprocessedFileInfo}
    (htracks : planner.Tracks seen) (out : List PreprocessedFileInfo)
    (fileInfo : PreprocessedFileInfo) :
    (saveWellBehaved (planner, out) fileInfo).1.Tracks (seen ∪ [fileInfo].toFinset) ∧
      (saveWellBehaved (planner, out) fileInfo).2 = out ++ FirstSeen.claim seen [fileInfo] :=
  foldl_insertHash_spec fileInfo.path [fileInfo.hashValue]
    (tracks_insertPath htracks fileInfo.path) out

/-- A loop whose body scans the pairs `pairsOf x` scans the pairs of the whole
list. -/
theorem foldl_scan {β : Type} (pairsOf : β → List PreprocessedFileInfo)
    (body : FileIndexingPlanner × List PreprocessedFileInfo → β →
      FileIndexingPlanner × List PreprocessedFileInfo)
    (hbody : ∀ {planner : FileIndexingPlanner} {seen : Finset PreprocessedFileInfo}
      (_ : planner.Tracks seen) (out : List PreprocessedFileInfo) (x : β),
      (body (planner, out) x).1.Tracks (seen ∪ (pairsOf x).toFinset) ∧
        (body (planner, out) x).2 = out ++ FirstSeen.claim seen (pairsOf x))
    (xs : List β) :
    ∀ {planner : FileIndexingPlanner} {seen : Finset PreprocessedFileInfo}
      (_ : planner.Tracks seen) (out : List PreprocessedFileInfo),
      (xs.foldl body (planner, out)).1.Tracks (seen ∪ (xs.flatMap pairsOf).toFinset) ∧
        (xs.foldl body (planner, out)).2 = out ++ FirstSeen.claim seen (xs.flatMap pairsOf) := by
  induction xs with
  | nil =>
      intro planner seen htracks out
      simpa [FirstSeen.claim] using htracks
  | cons x xs ih =>
      intro planner seen htracks out
      obtain ⟨hstep, hout⟩ := hbody htracks out x
      obtain ⟨htail, houts⟩ := ih hstep (body (planner, out) x).2
      rw [List.foldl_cons, List.flatMap_cons, List.toFinset_append, ← Finset.union_assoc,
        FirstSeen.claim_append, ← List.append_assoc, ← hout]
      exact ⟨htail, houts⟩

/-- **One call is one scan of the reported pairs.** -/
theorem saveSemaResult_spec {planner : FileIndexingPlanner} {seen : Finset PreprocessedFileInfo}
    (htracks : planner.Tracks seen) (semaResult : SemanticAnalysisJobResult)
    (out : List PreprocessedFileInfo) :
    (planner.saveSemaResult semaResult out).1.Tracks (seen ∪ semaResult.pairs.toFinset) ∧
      (planner.saveSemaResult semaResult out).2 =
        out ++ FirstSeen.claim seen semaResult.pairs := by
  obtain ⟨hill, hout⟩ := foldl_scan
    (fun fileInfoMulti => fileInfoMulti.hashValues.map
      (PreprocessedFileInfo.mk fileInfoMulti.path))
    saveIllBehaved saveIllBehaved_spec semaResult.illBehavedFiles htracks out
  obtain ⟨hwell, houts⟩ := foldl_scan (fun fileInfo => [fileInfo]) saveWellBehaved
    saveWellBehaved_spec semaResult.wellBehavedFiles hill
    (semaResult.illBehavedFiles.foldl saveIllBehaved (planner, out)).2
  have hself : semaResult.wellBehavedFiles.flatMap (fun fileInfo => [fileInfo]) =
      semaResult.wellBehavedFiles := List.flatMap_singleton' _
  rw [hself] at hwell houts
  rw [SemanticAnalysisJobResult.pairs, List.toFinset_append, ← Finset.union_assoc,
    FirstSeen.claim_append, ← List.append_assoc, ← hout]
  exact ⟨hwell, houts⟩

@[simp] theorem projectRootPath_saveSemaResult (planner : FileIndexingPlanner)
    (semaResult : SemanticAnalysisJobResult) (out : List PreprocessedFileInfo) :
    (planner.saveSemaResult semaResult out).1.projectRootPath = planner.projectRootPath := by
  have hhashes : ∀ (path : AbsolutePath) (hashValues : List HashValue)
      (st : FileIndexingPlanner × List PreprocessedFileInfo),
      (hashValues.foldl (insertHash path) st).1.projectRootPath = st.1.projectRootPath := by
    intro path hashValues
    induction hashValues with
    | nil => intro st; rfl
    | cons hashValue hashValues ih =>
        intro st
        rw [List.foldl_cons, ih, projectRootPath_insertHash]
  have hill : ∀ (files : List PreprocessedFileInfoMulti)
      (st : FileIndexingPlanner × List PreprocessedFileInfo),
      (files.foldl saveIllBehaved st).1.projectRootPath = st.1.projectRootPath := by
    intro files
    induction files with
    | nil => intro st; rfl
    | cons file files ih =>
        intro st
        rw [List.foldl_cons, ih, saveIllBehaved, hhashes, projectRootPath_insertPath]
  have hwell : ∀ (files : List PreprocessedFileInfo)
      (st : FileIndexingPlanner × List PreprocessedFileInfo),
      (files.foldl saveWellBehaved st).1.projectRootPath = st.1.projectRootPath := by
    intro files
    induction files with
    | nil => intro st; rfl
    | cons file files ih =>
        intro st
        rw [List.foldl_cons, ih, saveWellBehaved, projectRootPath_insertHash,
          projectRootPath_insertPath]
  rw [saveSemaResult, hwell, hill]

/-! ## Entries are never left empty

An entry is created empty and filled by the insertions that follow.  It is the
`ENFORCE` on the number of hashes of an ill-behaved file that makes sure that
some insertion does follow. -/

/-- Every entry but the one of `path` is nonempty. -/
def EntriesNonemptyBut (planner : FileIndexingPlanner) (path : AbsolutePath) : Prop :=
  ∀ other hashes, other ≠ path → planner.hashesSoFar other = some hashes → hashes.Nonempty

theorem entriesNonemptyBut_insertPath {planner : FileIndexingPlanner}
    (hne : planner.EntriesNonempty) (path : AbsolutePath) :
    (planner.insertPath path).EntriesNonemptyBut path := by
  intro other hashes hother hentry
  unfold insertPath at hentry
  split at hentry
  · exact hne other hashes hentry
  · simp only [Function.update_of_ne hother] at hentry
    exact hne other hashes hentry

/-- Inserting a hash repairs the entry it inserts into. -/
theorem entriesNonempty_insertHash {planner : FileIndexingPlanner} {path : AbsolutePath}
    (hne : planner.EntriesNonemptyBut path) (hashValue : HashValue)
    (out : List PreprocessedFileInfo) :
    (insertHash path (planner, out) hashValue).1.EntriesNonempty := by
  intro other hashes hentry
  by_cases hold : hashValue ∈ (planner.hashesSoFar path).getD ∅
  · simp only [insertHash, hold, if_true] at hentry
    by_cases hpath : other = path
    · subst hpath
      rw [hentry, Option.getD_some] at hold
      exact ⟨hashValue, hold⟩
    · exact hne other hashes hpath hentry
  · simp only [insertHash, hold, if_false] at hentry
    by_cases hpath : other = path
    · subst hpath
      rw [Function.update_self, Option.some.injEq] at hentry
      exact ⟨hashValue, by simp [← hentry]⟩
    · rw [Function.update_of_ne hpath] at hentry
      exact hne other hashes hpath hentry

theorem entriesNonempty_foldl_insertHash (path : AbsolutePath) (hashValues : List HashValue) :
    ∀ (st : FileIndexingPlanner × List PreprocessedFileInfo),
      st.1.EntriesNonempty → (hashValues.foldl (insertHash path) st).1.EntriesNonempty := by
  induction hashValues with
  | nil => intro st hne; exact hne
  | cons hashValue hashValues ih =>
      intro st hne
      refine ih _ (entriesNonempty_insertHash ?_ hashValue st.2)
      intro other hashes _ hentry
      exact hne other hashes hentry

theorem entriesNonempty_saveIllBehaved
    (st : FileIndexingPlanner × List PreprocessedFileInfo) (hne : st.1.EntriesNonempty)
    (fileInfoMulti : PreprocessedFileInfoMulti) (hlen : 1 < fileInfoMulti.hashValues.length) :
    (saveIllBehaved st fileInfoMulti).1.EntriesNonempty := by
  unfold saveIllBehaved
  cases hhashes : fileInfoMulti.hashValues with
  | nil => simp [hhashes] at hlen
  | cons hashValue hashValues =>
      rw [List.foldl_cons]
      exact entriesNonempty_foldl_insertHash _ hashValues _
        (entriesNonempty_insertHash (entriesNonemptyBut_insertPath hne _) hashValue st.2)

theorem entriesNonempty_saveSemaResult {planner : FileIndexingPlanner}
    (hne : planner.EntriesNonempty) {semaResult : SemanticAnalysisJobResult}
    (hwf : semaResult.WellFormed) (out : List PreprocessedFileInfo) :
    (planner.saveSemaResult semaResult out).1.EntriesNonempty := by
  have hill : ∀ (files : List PreprocessedFileInfoMulti),
      (∀ f ∈ files, 1 < f.hashValues.length) →
      ∀ st : FileIndexingPlanner × List PreprocessedFileInfo, st.1.EntriesNonempty →
        (files.foldl saveIllBehaved st).1.EntriesNonempty := by
    intro files
    induction files with
    | nil => intro _ st hst; exact hst
    | cons file files ih =>
        intro hfiles st hst
        refine ih (fun f hf => hfiles f (List.mem_cons_of_mem file hf)) _ ?_
        exact entriesNonempty_saveIllBehaved st hst file (hfiles file List.mem_cons_self)
  have hwell : ∀ (files : List PreprocessedFileInfo)
      (st : FileIndexingPlanner × List PreprocessedFileInfo), st.1.EntriesNonempty →
        (files.foldl saveWellBehaved st).1.EntriesNonempty := by
    intro files
    induction files with
    | nil => intro st hst; exact hst
    | cons file files ih =>
        intro st hst
        exact ih _ (entriesNonempty_insertHash (entriesNonemptyBut_insertPath hst _)
          file.hashValue st.2)
  exact hwell _ _ (hill _ hwf _ hne)

/-! ## A whole sequence of results -/

/-- The distinct hashes that a sequence of results reports for a path. -/
def reportedHashes (results : List SemanticAnalysisJobResult) (path : AbsolutePath) :
    Finset HashValue :=
  (((results.flatMap SemanticAnalysisJobResult.pairs).filter (·.path = path)).map
    (·.hashValue)).toFinset

theorem mem_reportedHashes {results : List SemanticAnalysisJobResult} {path : AbsolutePath}
    {hashValue : HashValue} :
    hashValue ∈ reportedHashes results path ↔
      (⟨path, hashValue⟩ : PreprocessedFileInfo) ∈
        results.flatMap SemanticAnalysisJobResult.pairs := by
  simp only [reportedHashes, List.mem_toFinset, List.mem_map, List.mem_filter,
    decide_eq_true_eq]
  constructor
  · rintro ⟨⟨p, h⟩, ⟨hmem, rfl⟩, rfl⟩
    exact hmem
  · intro hmem
    exact ⟨⟨path, hashValue⟩, ⟨hmem, rfl⟩, rfl⟩

theorem tracks_empty (root : RootPath) :
    (ofRoot root).Tracks ∅ := by
  intro path hashValue
  simp [ofRoot]

/-- The run of the planner over a sequence of results is the scan of their pairs. -/
theorem saveAll_spec (results : List SemanticAnalysisJobResult) :
    ∀ {planner : FileIndexingPlanner} {seen : Finset PreprocessedFileInfo}
      (_ : planner.Tracks seen),
      (planner.saveAll results).1.Tracks
          (seen ∪ (results.flatMap SemanticAnalysisJobResult.pairs).toFinset) ∧
        (planner.saveAll results).2 =
          FirstSeen.claimBatches seen (results.map SemanticAnalysisJobResult.pairs) ∧
        (planner.saveAll results).1.projectRootPath = planner.projectRootPath := by
  induction results with
  | nil =>
      intro planner seen htracks
      simpa [saveAll, FirstSeen.claimBatches] using htracks
  | cons semaResult results ih =>
      intro planner seen htracks
      obtain ⟨hstep, hout⟩ := saveSemaResult_spec htracks semaResult []
      obtain ⟨htail, houts, hroot⟩ := ih hstep
      refine ⟨?_, ?_, ?_⟩
      · rw [List.flatMap_cons, List.toFinset_append, ← Finset.union_assoc]
        exact htail
      · rw [saveAll, houts, hout, List.nil_append, List.map_cons, FirstSeen.claimBatches]
      · rw [saveAll, hroot, projectRootPath_saveSemaResult]

theorem entriesNonempty_saveAll (results : List SemanticAnalysisJobResult) :
    ∀ {planner : FileIndexingPlanner}, planner.EntriesNonempty →
      (∀ r ∈ results, r.WellFormed) → (planner.saveAll results).1.EntriesNonempty := by
  induction results with
  | nil => intro planner hne _; exact hne
  | cons semaResult results ih =>
      intro planner hne hwf
      exact ih (entriesNonempty_saveSemaResult hne (hwf semaResult List.mem_cons_self) [])
        (fun r hr => hwf r (List.mem_cons_of_mem semaResult hr))

/-- After a sequence of well-formed results the entry of a path is the set of
hashes reported for it, and there is no entry if none was. -/
theorem hashesSoFar_saveAll (root : RootPath) (results : List SemanticAnalysisJobResult)
    (hwf : ∀ r ∈ results, r.WellFormed) (path : AbsolutePath) :
    ((ofRoot root).saveAll results).1.hashesSoFar path =
      if reportedHashes results path = ∅ then none
      else some (reportedHashes results path) := by
  obtain ⟨htracks, -, -⟩ := saveAll_spec results (tracks_empty root)
  have hne : ((ofRoot root).saveAll results).1.EntriesNonempty :=
    entriesNonempty_saveAll results (fun p hs h => by simp [ofRoot] at h) hwf
  have hset : (((ofRoot root).saveAll results).1.hashesSoFar
      path).getD ∅ = reportedHashes results path := by
    ext hashValue
    rw [← htracks path hashValue, mem_reportedHashes]
    simp
  cases hentry : ((ofRoot root).saveAll results).1.hashesSoFar
      path with
  | none =>
      rw [hentry, Option.getD_none] at hset
      rw [if_pos hset.symm]
  | some hashes =>
      rw [hentry, Option.getD_some] at hset
      have hnonempty : reportedHashes results path ≠ ∅ := by
        rw [← hset]
        exact (hne path hashes hentry).ne_empty
      rw [if_neg hnonempty, hset]

/-- The merge-time test in terms of the reported hashes. -/
theorem isMultiplyIndexed_saveAll (root : RootPath) (results : List SemanticAnalysisJobResult)
    (hwf : ∀ r ∈ results, r.WellFormed) (relativePath : RootRelativePathRef) :
    ((ofRoot root).saveAll results).1.isMultiplyIndexed
        relativePath =
      if (reportedHashes results (root.makeAbsolute relativePath)).card = 0 then .Unknown
      else if (reportedHashes results (root.makeAbsolute relativePath)).card = 1 then .False
      else .True := by
  have hroot : ((ofRoot root).saveAll results).1.projectRootPath = root :=
    (saveAll_spec results (tracks_empty root)).2.2
  unfold isMultiplyIndexed
  rw [hroot, hashesSoFar_saveAll root results hwf]
  generalize reportedHashes results (root.makeAbsolute relativePath) = hashes
  by_cases hempty : hashes = ∅
  · simp [hempty]
  · have hpos : 0 < hashes.card := Finset.card_pos.mpr (Finset.nonempty_iff_ne_empty.mpr hempty)
    simp only [hempty, if_false, Finset.card_eq_zero]
    by_cases hone : hashes.card = 1
    · simp [hone]
    · have hmany : 1 < hashes.card := by omega
      simp [hone, hmany]

/-- What is handed out for a result: the pairs it reports and no earlier result did. -/
theorem mem_saveAll_getElem (root : RootPath) (results : List SemanticAnalysisJobResult) (i : ℕ)
    (f : PreprocessedFileInfo) :
    (∃ handedOut, ((ofRoot root).saveAll results).2[i]? = some handedOut ∧ f ∈ handedOut) ↔
      (∃ r, results[i]? = some r ∧ f ∈ r.pairs) ∧
        ∀ k < i, ∀ r, results[k]? = some r → f ∉ r.pairs := by
  rw [(saveAll_spec results (tracks_empty root)).2.1, FirstSeen.mem_claimBatches_getElem]
  simp only [List.getElem?_map, Option.map_eq_some_iff, Finset.notMem_empty, not_false_eq_true,
    true_and, forall_exists_index, and_imp, forall_apply_eq_imp_iff₂]
  simp

/-- **File planning is exactly-once and order-independent.**  Every reported pair
is handed out exactly once, to the first result that contains it; nothing else is
handed out; the set of handed-out pairs is the same for every order of the
results; and afterwards `isMultiplyIndexed` counts the distinct hashes reported
for the absolute path. -/
theorem saveAll_exactly_once (root : RootPath) (results : List SemanticAnalysisJobResult)
    (hwf : ∀ r ∈ results, r.WellFormed) :
    (∀ (i : ℕ) (f : PreprocessedFileInfo),
      (∃ handedOut,
        ((ofRoot root).saveAll results).2[i]? = some handedOut ∧
          f ∈ handedOut) ↔
        (∃ r, results[i]? = some r ∧ f ∈ r.pairs) ∧
          ∀ k < i, ∀ r, results[k]? = some r → f ∉ r.pairs) ∧
    ((ofRoot root).saveAll results).2.flatten.Nodup ∧
    (∀ f : PreprocessedFileInfo,
      f ∈ ((ofRoot root).saveAll results).2.flatten ↔
        ∃ r ∈ results, f ∈ r.pairs) ∧
    (∀ results' : List SemanticAnalysisJobResult, results'.Perm results →
      ∀ f : PreprocessedFileInfo,
        f ∈ ((ofRoot root).saveAll results').2.flatten ↔
          f ∈ ((ofRoot root).saveAll results).2.flatten) ∧
    (∀ relativePath : RootRelativePathRef,
      let planner := ((ofRoot root).saveAll results).1
      let hashes := reportedHashes results (root.makeAbsolute relativePath)
      (planner.isMultiplyIndexed relativePath = .True ↔ 2 ≤ hashes.card) ∧
        (planner.isMultiplyIndexed relativePath = .False ↔ hashes.card = 1) ∧
        (planner.isMultiplyIndexed relativePath = .Unknown ↔ hashes.card = 0)) := by
  have hclaims : ∀ rs : List SemanticAnalysisJobResult,
      ((ofRoot root).saveAll rs).2 =
        FirstSeen.claimBatches ∅ (rs.map SemanticAnalysisJobResult.pairs) :=
    fun rs => (saveAll_spec rs (tracks_empty root)).2.1
  have hmem : ∀ (rs : List SemanticAnalysisJobResult) (f : PreprocessedFileInfo),
      f ∈ ((ofRoot root).saveAll rs).2.flatten ↔
        ∃ r ∈ rs, f ∈ r.pairs := by
    intro rs f
    rw [hclaims, FirstSeen.mem_flatten_claimBatches]
    simp
  refine ⟨mem_saveAll_getElem root results, ?_, hmem results, fun results' hperm f => ?_,
    fun relativePath => ?_⟩
  · rw [hclaims]
    exact FirstSeen.nodup_flatten_claimBatches ∅ _
  · rw [hmem, hmem]
    simp only [hperm.mem_iff]
  · simp only [isMultiplyIndexed_saveAll root results hwf relativePath]
    generalize reportedHashes results (root.makeAbsolute relativePath) = hashes
    by_cases hzero : hashes.card = 0
    · simp [hzero]
    · by_cases hone : hashes.card = 1
      · simp [hone]
      · simp only [hzero, hone, if_false]
        refine ⟨⟨fun _ => by omega, fun _ => trivial⟩, ?_, ?_⟩ <;> simp

/-- A header that is well-behaved in one translation unit and ill-behaved in the
next. -/
theorem saveAll_exactly_once_header :
    let header : AbsolutePath := ⟨"/p/a.h".toList⟩
    let root : RootPath := ⟨⟨"/p".toList⟩, .Project⟩
    let results : List SemanticAnalysisJobResult :=
      [⟨[⟨header, ⟨1⟩⟩], []⟩, ⟨[], [⟨header, [⟨1⟩, ⟨2⟩]⟩]⟩]
    (∀ r ∈ results, r.WellFormed) ∧
      ((ofRoot root).saveAll results).2.flatten.Nodup ∧
      ((ofRoot root).saveAll results).1.isMultiplyIndexed
        ⟨"a.h".toList, .Project⟩ = .True := by
  intro header root results
  have hwf : ∀ r ∈ results, r.WellFormed := by decide
  obtain ⟨-, hnodup, -, -, hmulti⟩ := saveAll_exactly_once root results hwf
  refine ⟨hwf, hnodup, (hmulti ⟨"a.h".toList, .Project⟩).1.mpr ?_⟩
  decide

end FileIndexingPlanner

end ScipClang
