import ScipClang.Worker.Documents

/-!
# What the semantic analysis reports

`flushState` groups the finished files of a translation unit by path and hash.  Every pair that
occurs is reported exactly once (`ReportsExactly`), a path with one hash as well-behaved and a
path with several hashes in one ill-behaved entry.

The driver asks for some of the pairs, and each of them leads back to a file id with this path
and this hash (`semaResult_resolved`).
-/

namespace ScipClang

open HashTables

namespace PreprocessorState

/-- A finished file with the path has the hash. -/
def Occurs (state : PreprocessorState) (absPath : AbsolutePath) (hashValue : HashValue) : Prop :=
  ∃ fileId, state.getAbsPath fileId = some absPath ∧
    state.finishedProcessing.lookup fileId = some hashValue

/-- The result reports every pair that occurs exactly once: a path is well-behaved if it has one
hash, and otherwise all its hashes are in one ill-behaved entry. -/
structure ReportsExactly (state : PreprocessorState) (result : SemanticAnalysisJobResult) :
    Prop where
  mem_pairs : ∀ fileInfo, fileInfo ∈ result.pairs ↔
    state.Occurs fileInfo.path fileInfo.hashValue
  nodup_pairs : result.pairs.Nodup
  wellBehaved : ∀ absPath hashValue, ⟨absPath, hashValue⟩ ∈ result.wellBehavedFiles ↔
    state.Occurs absPath hashValue ∧ ∀ other, state.Occurs absPath other → other = hashValue
  illBehaved : ∀ absPath, (∃ multi ∈ result.illBehavedFiles, multi.path = absPath) ↔
    ∃ hashValue other, state.Occurs absPath hashValue ∧ state.Occurs absPath other ∧
      hashValue ≠ other
  hashValues : ∀ multi ∈ result.illBehavedFiles, 1 < multi.hashValues.length ∧
    multi.hashValues.Nodup ∧ ∀ hashValue, hashValue ∈ multi.hashValues ↔
      state.Occurs multi.path hashValue
  nodup_paths : (result.illBehavedFiles.map PreprocessedFileInfoMulti.path).Nodup

variable {state : PreprocessorState} {order : IterationOrder WorkerTable}

/-! ## The map has every pair that occurs -/

theorem isSome_lookup_insertFinished (map : ClangIdLookupMap)
    (entry : Σ _ : FileId, HashValue) (absPath : AbsolutePath) (hashValue : HashValue) :
    ((state.insertFinished map entry).lookup absPath hashValue).isSome ↔
      (map.lookup absPath hashValue).isSome ∨
        state.getAbsPath entry.1 = some absPath ∧ entry.2 = hashValue := by
  unfold insertFinished
  cases hpath : state.getAbsPath entry.1 with
  | none => simp
  | some other =>
      rw [ClangIdLookupMap.lookup_insert, Option.some.injEq]
      by_cases h : absPath = other ∧ hashValue = entry.2
      · rw [if_pos h]
        exact iff_of_true rfl (.inr ⟨h.1.symm, h.2.symm⟩)
      · rw [if_neg h, or_iff_left]
        rintro ⟨hother, hentry⟩
        exact h ⟨hother.symm, hentry.symm⟩

variable (order) in
theorem isSome_lookup_clangIdLookupMap (absPath : AbsolutePath) (hashValue : HashValue) :
    ((state.clangIdLookupMap order).lookup absPath hashValue).isSome ↔
      state.Occurs absPath hashValue := by
  have hloop : ∀ (entries : List (Σ _ : FileId, HashValue)) (map : ClangIdLookupMap),
      ((entries.foldl state.insertFinished map).lookup absPath hashValue).isSome ↔
        (map.lookup absPath hashValue).isSome ∨
          ∃ entry ∈ entries, state.getAbsPath entry.1 = some absPath ∧ entry.2 = hashValue := by
    intro entries
    induction entries with
    | nil => simp
    | cons entry entries ih =>
        intro map
        rw [List.foldl_cons, ih, isSome_lookup_insertFinished, List.exists_mem_cons_iff, or_assoc]
  have hempty : ((∅ : ClangIdLookupMap).lookup absPath hashValue).isSome = false := by
    rw [ClangIdLookupMap.lookup, AList.lookup_empty]
    rfl
  rw [clangIdLookupMap, hloop, hempty]
  constructor
  · rintro (hfalse | ⟨⟨fileId, _⟩, hentry, hpath, rfl⟩)
    · cases hfalse
    · exact ⟨fileId, hpath, AList.mem_lookup_iff.mpr ((order.perm _ _).mem_iff.mp hentry)⟩
  · rintro ⟨fileId, hpath, hhash⟩
    exact .inr ⟨⟨fileId, hashValue⟩,
      (order.perm _ _).mem_iff.mpr (AList.mem_lookup_iff.mp hhash), hpath, rfl⟩

/-! ## What occurs and what is in the map -/

section Entries

variable {entry : Σ _ : AbsolutePath, AList fun _ : HashValue => FileId}
  {absPath : AbsolutePath} {hashValue : HashValue}

theorem nodup_reportedEntries : ((reportedEntries state order).map Sigma.fst).Nodup :=
  ((order.perm _ _).map _).nodup_iff.mpr (state.clangIdLookupMap order).nodupKeys

theorem nodup_hashesOf : (hashesOf order entry).Nodup :=
  hashesOf_perm.nodup_iff.mpr entry.2.keys_nodup

theorem occurs_iff_mem_hashesOf (h : entry ∈ reportedEntries state order) :
    state.Occurs entry.1 hashValue ↔ hashValue ∈ hashesOf order entry := by
  rw [← isSome_lookup_clangIdLookupMap order, isSome_lookup_iff_mem_hashesOf h]

variable (order) in
theorem Occurs.exists_entry (h : state.Occurs absPath hashValue) :
    ∃ entry ∈ reportedEntries state order, entry.1 = absPath :=
  exists_entry_of_lookup ((isSome_lookup_clangIdLookupMap order _ _).mpr h)

theorem hasOneHash_iff (h : hashValue ∈ hashesOf order entry) :
    hasOneHash entry = true ↔ ∀ other ∈ hashesOf order entry, other = hashValue := by
  rw [hasOneHash, decide_eq_true_eq, ← hashesOf_perm.length_eq]
  constructor
  · intro hone other hother
    obtain ⟨single, hsingle⟩ := List.length_eq_one_iff.mp hone
    rw [hsingle, List.mem_singleton] at h hother
    rw [h, hother]
  · intro hall
    have hle : (hashesOf order entry).length ≤ [hashValue].length :=
      (nodup_hashesOf.subperm fun other hother =>
        List.mem_singleton.mpr (hall other hother)).length_le
    exact le_antisymm hle (List.length_pos_of_mem h)

theorem hasOneHash_eq_false_iff (h : entry ∈ reportedEntries state order) :
    hasOneHash entry = false ↔
      ∃ hashValue other, state.Occurs entry.1 hashValue ∧ state.Occurs entry.1 other ∧
        hashValue ≠ other := by
  simp only [occurs_iff_mem_hashesOf h]
  rw [← Bool.not_eq_true]
  constructor
  · intro hnot
    obtain ⟨hashValue, hhash⟩ := List.exists_mem_of_ne_nil _ (hashesOf_ne_nil h)
    rw [hasOneHash_iff hhash] at hnot
    push Not at hnot
    obtain ⟨other, hother, hne⟩ := hnot
    exact ⟨hashValue, other, hhash, hother, hne.symm⟩
  · rintro ⟨hashValue, other, hhash, hother, hne⟩ hone
    exact hne ((hasOneHash_iff hhash).mp hone other hother).symm

theorem nodup_flatMap_pairsOf :
    ((reportedEntries state order).flatMap (pairsOf order)).Nodup := by
  refine List.nodup_flatMap.mpr ⟨fun entry _ => ?_, ?_⟩
  · exact nodup_hashesOf.map fun hashValue other heq => congrArg PreprocessedFileInfo.hashValue heq
  · -- pairs of different entries have different paths
    refine (List.pairwise_map.mp nodup_reportedEntries).imp fun {entry other} hne fileInfo => ?_
    intro hmem hother
    exact hne ((mem_pairsOf.mp hmem).1.trans (mem_pairsOf.mp hother).1.symm)

end Entries

/-! ## What is reported -/

section Result

variable {deterministic : Bool} {absPath : AbsolutePath} {hashValue : HashValue}

theorem mem_wellBehavedFiles {fileInfo : PreprocessedFileInfo} :
    fileInfo ∈ (state.semaResult order deterministic).wellBehavedFiles ↔
      ∃ entry ∈ reportedEntries state order, hasOneHash entry = true ∧
        entry.1 = fileInfo.path ∧ fileInfo.hashValue ∈ hashesOf order entry := by
  rw [(semaResult_perm deterministic).1.mem_iff, List.mem_flatMap]
  simp only [List.mem_filter, mem_pairsOf, and_assoc]

theorem mem_wellBehavedFiles_iff :
    ⟨absPath, hashValue⟩ ∈ (state.semaResult order deterministic).wellBehavedFiles ↔
      state.Occurs absPath hashValue ∧ ∀ other, state.Occurs absPath other → other = hashValue := by
  rw [mem_wellBehavedFiles]
  constructor
  · rintro ⟨entry, hentry, hone, rfl, hhash⟩
    simp only [occurs_iff_mem_hashesOf hentry]
    exact ⟨hhash, (hasOneHash_iff hhash).mp hone⟩
  · rintro ⟨hoccurs, hall⟩
    obtain ⟨entry, hentry, rfl⟩ := hoccurs.exists_entry order
    simp only [occurs_iff_mem_hashesOf hentry] at hoccurs hall
    exact ⟨entry, hentry, (hasOneHash_iff hoccurs).mpr hall, rfl, hoccurs⟩

theorem exists_illBehaved_iff :
    (∃ multi ∈ (state.semaResult order deterministic).illBehavedFiles, multi.path = absPath) ↔
      ∃ hashValue other, state.Occurs absPath hashValue ∧ state.Occurs absPath other ∧
        hashValue ≠ other := by
  constructor
  · rintro ⟨multi, hmulti, rfl⟩
    obtain ⟨entry, hentry, hmany, rfl⟩ := mem_illBehavedFiles.mp hmulti
    exact (hasOneHash_eq_false_iff hentry).mp hmany
  · intro hmany
    obtain ⟨hashValue, other, hoccurs, -⟩ := id hmany
    obtain ⟨entry, hentry, rfl⟩ := hoccurs.exists_entry order
    exact ⟨_, mem_illBehavedFiles.mpr
      ⟨entry, hentry, (hasOneHash_eq_false_iff hentry).mpr hmany, rfl⟩, rfl⟩

theorem nodup_illBehaved_paths :
    ((state.semaResult order deterministic).illBehavedFiles.map
      PreprocessedFileInfoMulti.path).Nodup := by
  rw [((semaResult_perm deterministic).2.map _).nodup_iff, List.map_map]
  exact nodup_reportedEntries.sublist (List.filter_sublist.map _)

theorem reportsExactly_semaResult :
    state.ReportsExactly (state.semaResult order deterministic) where
  mem_pairs fileInfo := by rw [mem_pairs_semaResult, isSome_lookup_clangIdLookupMap]
  nodup_pairs := (pairs_semaResult_perm deterministic).nodup_iff.mpr nodup_flatMap_pairsOf
  wellBehaved _ _ := mem_wellBehavedFiles_iff
  illBehaved _ := exists_illBehaved_iff
  hashValues multi hmulti := by
    refine ⟨wellFormed_semaResult deterministic multi hmulti, ?_⟩
    obtain ⟨entry, hentry, -, rfl⟩ := mem_illBehavedFiles.mp hmulti
    exact ⟨nodup_hashesOf, fun hashValue => (occurs_iff_mem_hashesOf hentry).symm⟩
  nodup_paths := nodup_illBehaved_paths

end Result

end PreprocessorState

namespace WorkerRun

variable {run : WorkerRun} {fileInfo : PreprocessedFileInfo}

theorem exists_lookup_of_mem_pairs (h : fileInfo ∈ run.semaResult.pairs) :
    ∃ fileId, run.clangIdLookupMap.lookup fileInfo.path fileInfo.hashValue = some fileId ∧
      run.tu.getAbsPath fileId = some fileInfo.path ∧
      run.tu.finishedProcessing.lookup fileId = some fileInfo.hashValue := by
  obtain ⟨fileId, hlookup⟩ := Option.isSome_iff_exists.mp
    ((PreprocessorState.mem_pairs_semaResult run.deterministic fileInfo).mp h)
  exact ⟨fileId, hlookup, PreprocessorState.mapSound_clangIdLookupMap.lookup _ _ _ hlookup⟩

/-- The result of the semantic analysis and the request for an index match: every pair that
occurs is reported exactly once, and every reported pair that is asked for is resolved to a file
with this path and this hash. -/
theorem semaResult_resolved (run : WorkerRun) :
    run.tu.toPreprocessorState.ReportsExactly run.semaResult ∧
      ∀ filesToBeIndexed ⊆ run.semaResult.pairs, ∀ fileInfo ∈ filesToBeIndexed, ∃ fileId,
        run.clangIdLookupMap.lookup fileInfo.path fileInfo.hashValue = some fileId ∧
        fileId ∈ run.toBeIndexed filesToBeIndexed ∧
        run.tu.getAbsPath fileId = some fileInfo.path ∧
        run.tu.finishedProcessing.lookup fileId = some fileInfo.hashValue := by
  refine ⟨PreprocessorState.reportsExactly_semaResult, ?_⟩
  intro filesToBeIndexed hsubset fileInfo hmem
  obtain ⟨fileId, hlookup, hpath, hhash⟩ := exists_lookup_of_mem_pairs (hsubset hmem)
  exact ⟨fileId, hlookup, mem_toBeIndexed.mpr (.inr ⟨fileInfo, hmem, hlookup⟩), hpath, hhash⟩

end WorkerRun

/-- The main file `/p/foo.cc`, and `/p/foo.h` included twice with different macros. -/
def headerWithTwoHashes : WorkerRun where
  tu :=
    { finishedProcessing := ((∅ : AList fun _ : FileId => HashValue).insert ⟨1⟩ ⟨7⟩
        |>.insert ⟨2⟩ ⟨8⟩ |>.insert ⟨3⟩ ⟨9⟩ |>.insert ⟨4⟩ ⟨8⟩)
      getAbsPath := fun fileId =>
        if fileId = ⟨1⟩ then some ⟨"/p/foo.cc".toList⟩ else some ⟨"/p/foo.h".toList⟩
      mainFileId := ⟨1⟩
      buildRootPath := ⟨⟨"/p/build".toList⟩, .Build⟩
      emitDocumentOccurrencesAndSymbols := fun _ => ([], []) }
  packageMap := { projectRootPath := ⟨⟨"/p".toList⟩, .Project⟩, isTesting := false }
  order := .inOrder
  deterministic := false

/-- The driver asks for one of the two variants of the header. -/
theorem semaResult_resolved_headerWithTwoHashes :
    ∃ fileId, headerWithTwoHashes.clangIdLookupMap.lookup ⟨"/p/foo.h".toList⟩ ⟨8⟩ = some fileId ∧
      fileId ∈ headerWithTwoHashes.toBeIndexed [⟨⟨"/p/foo.h".toList⟩, ⟨8⟩⟩] ∧
      headerWithTwoHashes.tu.getAbsPath fileId = some ⟨"/p/foo.h".toList⟩ ∧
      headerWithTwoHashes.tu.finishedProcessing.lookup fileId = some ⟨8⟩ :=
  (headerWithTwoHashes.semaResult_resolved).2 [⟨⟨"/p/foo.h".toList⟩, ⟨8⟩⟩] (by decide) _
    List.mem_cons_self

end ScipClang
