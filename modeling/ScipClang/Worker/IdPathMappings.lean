import ScipClang.IpcMessages
import ScipClang.Scip.Types

/-!
# From Clang's file ids to (path, hash) pairs

Inside a worker a file is a `clang::FileID`; the driver and the worker talk about (path,
hash) pairs.  After preprocessing, `IndexerPreprocessorWrapper::flushState` turns the
table of finished files into a `ClangIdLookupMap`, which leads from pairs back to file
ids, and into the result that the worker reports.

Several file ids may have the same path and hash; the map keeps the one inserted last,
and which one that is depends on the iteration order of the table.

The map and the result agree: the map has a file id for exactly the reported pairs
(`mem_pairs_semaResult`), and that file id has the path and the hash of the pair
(`mapSound_clangIdLookupMap`).
-/

namespace ScipClang

open HashTables

/-- `clang::FileID`. -/
structure FileId where
  id : Nat
deriving DecidableEq

/-- The hash tables that a worker iterates over. -/
inductive WorkerTable where
  | finishedProcessing
  | clangIdLookupMap
  | hashToFileId (path : AbsolutePath)
  | toBeIndexed

/-- `ClangIdLookupMap`. -/
abbrev ClangIdLookupMap := AList fun _ : AbsolutePath => AList fun _ : HashValue => FileId

namespace ClangIdLookupMap

/-- `ClangIdLookupMap::insert`. -/
def insert (map : ClangIdLookupMap) (absPath : AbsolutePath) (hashValue : HashValue)
    (fileId : FileId) : ClangIdLookupMap :=
  upsert map absPath fun hashToFileId => (hashToFileId.getD ∅).insert hashValue fileId

/-- `ClangIdLookupMap::lookup`. -/
def lookup (map : ClangIdLookupMap) (absPath : AbsolutePath) (hashValue : HashValue) :
    Option FileId :=
  (AList.lookup absPath map).bind (AList.lookup hashValue)

theorem lookup_insert (map : ClangIdLookupMap) (absPath other : AbsolutePath)
    (hashValue otherHash : HashValue) (fileId : FileId) :
    (map.insert absPath hashValue fileId).lookup other otherHash =
      if other = absPath ∧ otherHash = hashValue then some fileId
      else map.lookup other otherHash := by
  rw [lookup, insert, lookup_upsert]
  by_cases hpath : other = absPath
  · subst hpath
    rw [if_pos rfl, Option.bind_some]
    by_cases hhash : otherHash = hashValue
    · subst hhash
      rw [if_pos ⟨rfl, rfl⟩, AList.lookup_insert]
    · rw [if_neg fun h => hhash h.2, AList.lookup_insert_ne hhash, lookup]
      cases AList.lookup other map <;> rfl
  · rw [if_neg hpath, if_neg fun h => hpath h.1]
    rfl

end ClangIdLookupMap

/-- What the preprocessor knows about a translation unit when it is done: the hash of
every finished file (`finishedProcessing`), and which of them are files with an absolute
path (`getAbsPath` in `flushState`). -/
structure PreprocessorState where
  finishedProcessing : AList fun _ : FileId => HashValue
  getAbsPath : FileId → Option AbsolutePath

/-- `operator<=>` of `PreprocessedFileInfo`. -/
def comparePreprocessedFileInfo (lhs rhs : PreprocessedFileInfo) : Ordering :=
  (compare lhs.hashValue.rawValue rhs.hashValue.rawValue).then <|
  compareStrings lhs.path.value rhs.path.value

/-- `operator<=>` of `PreprocessedFileInfoMulti`. -/
def comparePreprocessedFileInfoMulti (lhs rhs : PreprocessedFileInfoMulti) : Ordering :=
  (compareStrings lhs.path.value rhs.path.value).then <|
  compareRange (fun h₁ h₂ => compare h₁.rawValue h₂.rawValue) lhs.hashValues rhs.hashValues

namespace PreprocessorState

variable (state : PreprocessorState) (order : IterationOrder WorkerTable)

/-- The loop body that fills the `ClangIdLookupMap`. -/
def insertFinished (clangIdLookupMap : ClangIdLookupMap) (entry : Σ _ : FileId, HashValue) :
    ClangIdLookupMap :=
  match state.getAbsPath entry.1 with
  | some absPath => clangIdLookupMap.insert absPath entry.2 entry.1
  | none => clangIdLookupMap

/-- The `ClangIdLookupMap` after `flushState`. -/
def clangIdLookupMap : ClangIdLookupMap :=
  (order.iterate .finishedProcessing state.finishedProcessing.entries).foldl
    state.insertFinished ∅

/-- The callback of `flushState` for one path: a path with one hash is well-behaved. -/
def report (result : SemanticAnalysisJobResult)
    (entry : Σ _ : AbsolutePath, AList fun _ : HashValue => FileId) : SemanticAnalysisJobResult :=
  let hashes := order.iterate (.hashToFileId entry.1) entry.2.keys
  if entry.2.keys.length = 1 then
    { result with
      wellBehavedFiles := result.wellBehavedFiles ++ hashes.map (PreprocessedFileInfo.mk entry.1) }
  else
    { result with illBehavedFiles := result.illBehavedFiles ++ [⟨entry.1, hashes⟩] }

/-- The result after `IndexerPreprocessorWrapper::flushState`. -/
def semaResult (deterministic : Bool) : SemanticAnalysisJobResult :=
  let result := (order.iterate .clangIdLookupMap (state.clangIdLookupMap order).entries).foldl
    (report order) {}
  if deterministic then
    { wellBehavedFiles := result.wellBehavedFiles.mergeSort fun lhs rhs =>
        (comparePreprocessedFileInfo lhs rhs).isLE
      illBehavedFiles := result.illBehavedFiles.mergeSort fun lhs rhs =>
        (comparePreprocessedFileInfoMulti lhs rhs).isLE }
  else result

end PreprocessorState

/-! ## The map and the result agree -/

namespace PreprocessorState

variable {state : PreprocessorState} {order : IterationOrder WorkerTable}

/-- The map only leads to finished files, under their own path and hash, and keeps no empty
entry. -/
structure MapSound (state : PreprocessorState) (map : ClangIdLookupMap) : Prop where
  lookup : ∀ absPath hashValue fileId, map.lookup absPath hashValue = some fileId →
    state.getAbsPath fileId = some absPath ∧
      state.finishedProcessing.lookup fileId = some hashValue
  keys_ne_nil : ∀ absPath hashToFileId, AList.lookup absPath map = some hashToFileId →
    hashToFileId.keys ≠ []

theorem mapSound_insertFinished {map : ClangIdLookupMap} (h : state.MapSound map)
    {entry : Σ _ : FileId, HashValue} (hentry : entry ∈ state.finishedProcessing.entries) :
    state.MapSound (state.insertFinished map entry) := by
  unfold insertFinished
  cases hpath : state.getAbsPath entry.1 with
  | none => exact h
  | some absPath =>
      constructor
      case lookup =>
        intro other otherHash fileId hlookup
        rw [ClangIdLookupMap.lookup_insert] at hlookup
        split at hlookup
        · rename_i heq
          obtain ⟨rfl, rfl⟩ := heq
          obtain rfl := Option.some.inj hlookup
          exact ⟨hpath, AList.mem_lookup_iff.mpr hentry⟩
        · exact h.lookup other otherHash fileId hlookup
      case keys_ne_nil =>
        intro other hashToFileId hlookup
        simp only [ClangIdLookupMap.insert, lookup_upsert] at hlookup
        split at hlookup
        · obtain rfl := Option.some.inj hlookup
          rw [AList.keys_insert]
          exact List.cons_ne_nil _ _
        · exact h.keys_ne_nil other hashToFileId hlookup

theorem mapSound_clangIdLookupMap : state.MapSound (state.clangIdLookupMap order) := by
  have hloop : ∀ (entries : List (Σ _ : FileId, HashValue)) (map : ClangIdLookupMap),
      state.MapSound map → (∀ entry ∈ entries, entry ∈ state.finishedProcessing.entries) →
        state.MapSound (entries.foldl state.insertFinished map) := by
    intro entries
    induction entries with
    | nil => intro map h _; exact h
    | cons entry entries ih =>
        intro map h hentries
        exact ih _ (mapSound_insertFinished h (hentries entry List.mem_cons_self))
          fun other hother => hentries other (List.mem_cons_of_mem _ hother)
  refine hloop _ ∅ ⟨?_, ?_⟩ fun entry hentry => (order.perm _ _).mem_iff.mp hentry
  · intro absPath hashValue fileId hlookup
    rw [ClangIdLookupMap.lookup, AList.lookup_empty] at hlookup
    cases hlookup
  · intro absPath hashToFileId hlookup
    rw [AList.lookup_empty] at hlookup
    cases hlookup

/-! ## What is reported -/

section Report

variable (order) in
/-- The hashes of a path, in the order in which they are iterated. -/
def hashesOf (entry : Σ _ : AbsolutePath, AList fun _ : HashValue => FileId) : List HashValue :=
  order.iterate (.hashToFileId entry.1) entry.2.keys

variable (order) in
/-- The pairs that are reported for a path. -/
def pairsOf (entry : Σ _ : AbsolutePath, AList fun _ : HashValue => FileId) :
    List PreprocessedFileInfo :=
  (hashesOf order entry).map (PreprocessedFileInfo.mk entry.1)

/-- The path has one hash. -/
def hasOneHash (entry : Σ _ : AbsolutePath, AList fun _ : HashValue => FileId) : Bool :=
  entry.2.keys.length = 1

/-- What the callback has reported after several paths. -/
theorem foldl_report (entries : List (Σ _ : AbsolutePath, AList fun _ : HashValue => FileId))
    (result : SemanticAnalysisJobResult) :
    entries.foldl (report order) result =
      { wellBehavedFiles := result.wellBehavedFiles ++
          (entries.filter hasOneHash).flatMap (pairsOf order)
        illBehavedFiles := result.illBehavedFiles ++
          (entries.filter fun entry => !hasOneHash entry).map fun entry =>
            ⟨entry.1, hashesOf order entry⟩ } := by
  induction entries generalizing result with
  | nil => simp
  | cons entry entries ih =>
      rw [List.foldl_cons, ih, report]
      by_cases hone : entry.2.keys.length = 1
      · have hhas : hasOneHash entry = true := decide_eq_true hone
        simp only [hone, if_true, List.filter_cons, hhas, List.flatMap_cons, List.append_assoc,
          Bool.not_true, Bool.false_eq_true, if_false]
        rfl
      · have hhas : hasOneHash entry = false := decide_eq_false hone
        simp only [hone, if_false, List.filter_cons, hhas, List.append_assoc, Bool.not_false,
          Bool.false_eq_true, if_true, List.map_cons]
        rfl

variable (state order) in
/-- The paths with their hashes, in the order in which `flushState` goes through them. -/
def reportedEntries : List (Σ _ : AbsolutePath, AList fun _ : HashValue => FileId) :=
  order.iterate .clangIdLookupMap (state.clangIdLookupMap order).entries

theorem semaResult_perm (deterministic : Bool) :
    (state.semaResult order deterministic).wellBehavedFiles.Perm
        (((reportedEntries state order).filter hasOneHash).flatMap (pairsOf order)) ∧
      (state.semaResult order deterministic).illBehavedFiles.Perm
        (((reportedEntries state order).filter fun entry => !hasOneHash entry).map fun entry =>
          ⟨entry.1, hashesOf order entry⟩) := by
  have hreport := @foldl_report order (reportedEntries state order) {}
  unfold semaResult
  rw [← reportedEntries, hreport]
  cases deterministic with
  | true => exact ⟨List.mergeSort_perm _ _, List.mergeSort_perm _ _⟩
  | false => exact ⟨List.Perm.refl _, List.Perm.refl _⟩

variable {entry : Σ _ : AbsolutePath, AList fun _ : HashValue => FileId}

theorem mem_reportedEntries : entry ∈ reportedEntries state order ↔
    AList.lookup entry.1 (state.clangIdLookupMap order) = some entry.2 := by
  rw [reportedEntries, (order.perm _ _).mem_iff]
  exact AList.mem_lookup_iff.symm

theorem hashesOf_perm : (hashesOf order entry).Perm entry.2.keys := order.perm _ _

theorem isSome_lookup_iff_mem_hashesOf (h : entry ∈ reportedEntries state order)
    (hashValue : HashValue) :
    ((state.clangIdLookupMap order).lookup entry.1 hashValue).isSome ↔
      hashValue ∈ hashesOf order entry := by
  rw [ClangIdLookupMap.lookup, mem_reportedEntries.mp h, Option.bind_some, AList.lookup_isSome,
    hashesOf_perm.mem_iff, AList.mem_keys]

theorem exists_entry_of_lookup {absPath : AbsolutePath} {hashValue : HashValue}
    (h : ((state.clangIdLookupMap order).lookup absPath hashValue).isSome) :
    ∃ entry ∈ reportedEntries state order, entry.1 = absPath := by
  obtain ⟨fileId, hlookup⟩ := Option.isSome_iff_exists.mp h
  obtain ⟨hashToFileId, hpath, -⟩ := Option.bind_eq_some_iff.mp hlookup
  exact ⟨⟨absPath, hashToFileId⟩, mem_reportedEntries.mpr hpath, rfl⟩

theorem hashesOf_ne_nil (h : entry ∈ reportedEntries state order) : hashesOf order entry ≠ [] := by
  intro hnil
  have hkeys : entry.2.keys = [] := List.perm_nil.mp (hnil ▸ hashesOf_perm.symm)
  exact mapSound_clangIdLookupMap.keys_ne_nil _ _ (mem_reportedEntries.mp h) hkeys

theorem mem_pairsOf {fileInfo : PreprocessedFileInfo} : fileInfo ∈ pairsOf order entry ↔
    entry.1 = fileInfo.path ∧ fileInfo.hashValue ∈ hashesOf order entry := by
  rw [pairsOf, List.mem_map]
  constructor
  · rintro ⟨hashValue, hhash, rfl⟩
    exact ⟨rfl, hhash⟩
  · rintro ⟨hpath, hhash⟩
    exact ⟨fileInfo.hashValue, hhash, by rw [hpath]⟩

end Report

theorem mem_illBehavedFiles {deterministic : Bool} {multi : PreprocessedFileInfoMulti} :
    multi ∈ (state.semaResult order deterministic).illBehavedFiles ↔
      ∃ entry ∈ reportedEntries state order, hasOneHash entry = false ∧
        ⟨entry.1, hashesOf order entry⟩ = multi := by
  rw [(semaResult_perm deterministic).2.mem_iff, List.mem_map]
  simp only [List.mem_filter, Bool.not_eq_true', and_assoc]

theorem pairs_semaResult_perm (deterministic : Bool) :
    (state.semaResult order deterministic).pairs.Perm
      ((reportedEntries state order).flatMap (pairsOf order)) := by
  obtain ⟨hwell, hill⟩ := @semaResult_perm state order deterministic
  have hpairs := (hill.flatMap_right fun multi =>
    multi.hashValues.map (PreprocessedFileInfo.mk multi.path)).append hwell
  rw [List.flatMap_map] at hpairs
  have hsplit : (((reportedEntries state order).filter hasOneHash).flatMap (pairsOf order) ++
      ((reportedEntries state order).filter fun entry => !hasOneHash entry).flatMap
        (pairsOf order)).Perm ((reportedEntries state order).flatMap (pairsOf order)) := by
    rw [← List.flatMap_append]
    exact (List.filter_append_perm hasOneHash _).flatMap_right _
  exact hpairs.trans (List.perm_append_comm.trans hsplit)

/-- Sorting does not change what is reported. -/
theorem mem_pairs_semaResult (deterministic : Bool) (fileInfo : PreprocessedFileInfo) :
    fileInfo ∈ (state.semaResult order deterministic).pairs ↔
      ((state.clangIdLookupMap order).lookup fileInfo.path fileInfo.hashValue).isSome := by
  rw [(pairs_semaResult_perm deterministic).mem_iff, List.mem_flatMap]
  simp only [mem_pairsOf]
  constructor
  · rintro ⟨entry, hentry, hpath, hhash⟩
    rw [← hpath]
    exact (isSome_lookup_iff_mem_hashesOf hentry _).mpr hhash
  · intro hsome
    obtain ⟨entry, hentry, hpath⟩ := exists_entry_of_lookup hsome
    rw [← hpath] at hsome
    exact ⟨entry, hentry, hpath, (isSome_lookup_iff_mem_hashesOf hentry _).mp hsome⟩

/-- A path is reported as ill-behaved only if it has several hashes. -/
theorem wellFormed_semaResult (deterministic : Bool) :
    (state.semaResult order deterministic).WellFormed := by
  intro multi hmulti
  obtain ⟨entry, hentry, hmany, rfl⟩ := mem_illBehavedFiles.mp hmulti
  have hpos := List.length_pos_iff.mpr (hashesOf_ne_nil hentry)
  rw [hasOneHash, decide_eq_false_iff_not, ← (@hashesOf_perm order entry).length_eq]
    at hmany
  dsimp only
  omega

end PreprocessorState

end ScipClang
