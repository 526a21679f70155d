import ScipClang.Driver.Determinism
import ScipClang.Driver.OneDocument
import ScipClang.Worker.ForwardDeclMap

/-!
# Duplicate occurrences

The occurrences of a path that is indexed several times go through a set, so that what the
shards have in common is written once.  The occurrences of forward declarations are appended
afterwards, from a vector for each path.

* `IndexBuilder.IsFinal.written_for_path`: what is written for a path that is merged.
* `noDuplicateOccurrences_iff`: when no occurrence is written twice.
-/

namespace ScipClang

open HashTables

/-- What makes an occurrence a duplicate of another: its range, its symbol and its roles. -/
def Occurrence.key (occ : Occurrence) : ScipRange × Str × Int32 :=
  (occ.range, occ.symbol, occ.symbolRoles)

/-- No document with the given path has an occurrence twice. -/
def NoDuplicateOccurrences (output : List Index) (path : Str) : Prop :=
  ∀ doc ∈ (concatenate output).documents, doc.relativePath = path →
    (doc.occurrences.map Occurrence.key).Nodup

instance (output : List Index) (path : Str) : Decidable (NoDuplicateOccurrences output path) :=
  inferInstanceAs (Decidable (∀ doc ∈ (concatenate output).documents, doc.relativePath = path →
    (doc.occurrences.map Occurrence.key).Nodup))

/-- The occurrences in some documents, and those for some uses of forward declarations, with
`names` for the names of a suffix, are all different. -/
structure OccurrencesApart (docs : List Document) (uses : List (Str × ScipRange))
    (names : Str → List Str) : Prop where
  documents : ∀ doc ∈ docs, ∀ occ ∈ doc.occurrences, ∀ doc' ∈ docs, ∀ occ' ∈ doc'.occurrences,
    occ.key = occ'.key → occ = occ'
  uses_nodup : uses.Nodup
  disjoint : ∀ use ∈ uses, ∀ name ∈ names use.1, ∀ doc ∈ docs, ∀ occ ∈ doc.occurrences,
    occ.key ≠ (use.2, name, 0)

theorem occurrencesApart_congr {docs : List Document} {uses uses' : List (Str × ScipRange)}
    {names : Str → List Str} (hperm : uses.Perm uses') :
    OccurrencesApart docs uses names ↔ OccurrencesApart docs uses' names := by
  constructor
  · rintro ⟨hdocuments, huses, hdisjoint⟩
    exact ⟨hdocuments, hperm.nodup_iff.mp huses,
      fun use hmem => hdisjoint use (hperm.mem_iff.mpr hmem)⟩
  · rintro ⟨hdocuments, huses, hdisjoint⟩
    exact ⟨hdocuments, hperm.nodup_iff.mpr huses,
      fun use hmem => hdisjoint use (hperm.mem_iff.mp hmem)⟩

/-! ## The occurrences of forward declarations -/

/-- What is appended for a use, for each of the names of its suffix. -/
def useKeys (names : Str → List Str) (use : Str × ScipRange) : List (ScipRange × Str × Int32) :=
  (names use.1).map fun name => (use.2, name, 0)

/-- The occurrences of one forward declaration, name by name or use by use. -/
theorem keys_occurrencesAt_perm (forwardDecl : ForwardDecl) (path : Str) (names : Str → List Str) :
    (((names forwardDecl.suffix).flatMap (forwardDecl.occurrencesAt path)).map fun occ =>
        occ.addTo.key).Perm
      ((ForwardDecl.keysAt path [forwardDecl]).flatMap (useKeys names)) := by
  have hswap : ∀ refs : List ForwardDeclReference,
      ((names forwardDecl.suffix).flatMap fun name => refs.map fun ref =>
        ((ref.range, name, 0) : ScipRange × Str × Int32)).Perm
      ((refs.map fun ref => (forwardDecl.suffix, ref.range)).flatMap (useKeys names)) := by
    intro refs
    induction refs with
    | nil => simp
    | cons ref refs ih =>
        simp only [List.map_cons, List.flatMap_cons]
        exact (List.map_append_flatMap_perm _ _ _).symm.trans (ih.append_left _)
  rw [List.map_flatMap, ForwardDecl.keysAt, List.flatMap_singleton]
  simp only [ForwardDecl.occurrencesAt, List.map_map]
  exact hswap _

theorem keys_forwardDecls_perm (forwardDecls : List ForwardDecl) (path : Str)
    (names : Str → List Str) :
    ((forwardDecls.flatMap fun forwardDecl =>
        (names forwardDecl.suffix).flatMap (forwardDecl.occurrencesAt path)).map fun occ =>
          occ.addTo.key).Perm
      ((ForwardDecl.keysAt path forwardDecls).flatMap (useKeys names)) := by
  induction forwardDecls with
  | nil => exact List.Perm.nil
  | cons forwardDecl forwardDecls ih =>
      have hone := keys_occurrencesAt_perm forwardDecl path names
      rw [ForwardDecl.keysAt, List.flatMap_singleton] at hone
      rw [List.flatMap_cons, List.map_append, ForwardDecl.keysAt, List.flatMap_cons,
        List.flatMap_append]
      exact hone.append ih

/-- Names that tell their suffix. -/
structure NamesOfSuffix (names : Str → List Str) : Prop where
  nodup : ∀ suffix, (names suffix).Nodup
  ne_nil : ∀ suffix, names suffix ≠ []
  suffix_eq : ∀ suffix, ∀ name ∈ names suffix, getPackageAgnosticSuffix name = some suffix

/-- The uses can be told from what is appended for them. -/
theorem nodup_flatMap_useKeys {names : Str → List Str} (hnames : NamesOfSuffix names)
    (uses : List (Str × ScipRange)) : (uses.flatMap (useKeys names)).Nodup ↔ uses.Nodup := by
  rw [List.nodup_flatMap]
  constructor
  · rintro ⟨-, hpairwise⟩
    refine hpairwise.imp ?_
    rintro use use' hdisjoint rfl
    obtain ⟨name, hname⟩ := List.exists_mem_of_ne_nil _ (hnames.ne_nil use.1)
    have hmem : ((use.2, name, 0) : ScipRange × Str × Int32) ∈ useKeys names use :=
      List.mem_map_of_mem hname
    exact hdisjoint hmem hmem
  · intro hnodup
    refine ⟨fun use _ => ?_, hnodup.imp ?_⟩
    · refine (hnames.nodup use.1).map fun name name' heq => ?_
      exact (Prod.mk.inj (Prod.mk.inj heq).2).1
    · rintro ⟨suffix, range⟩ ⟨suffix', range'⟩ hne key hkey hkey'
      obtain ⟨name, hname, rfl⟩ := List.mem_map.mp hkey
      obtain ⟨name', hname', heq⟩ := List.mem_map.mp hkey'
      simp only [Prod.mk.injEq, and_true] at heq
      obtain ⟨hrange, rfl⟩ := heq
      -- the name has one suffix only
      have hsuffix := (hnames.suffix_eq _ _ hname).symm.trans (hnames.suffix_eq _ _ hname')
      exact hne (Prod.ext (Option.some.inj hsuffix) hrange.symm)

/-- When merged and appended occurrences are all different. -/
theorem nodup_keys_iff {docs : List Document} {merged : List Occurrence} (hnodup : merged.Nodup)
    (hmerged : ∀ occ, occ ∈ merged ↔ ∃ doc ∈ docs, occ ∈ doc.occurrences)
    {names : Str → List Str} (hnames : NamesOfSuffix names)
    {appended : List (ScipRange × Str × Int32)} {uses : List (Str × ScipRange)}
    (happended : appended.Perm (uses.flatMap (useKeys names))) :
    (merged.map Occurrence.key ++ appended).Nodup ↔ OccurrencesApart docs uses names := by
  rw [List.nodup_append, List.nodup_map_iff_inj_on hnodup, happended.nodup_iff,
    nodup_flatMap_useKeys hnames]
  constructor
  · rintro ⟨hinj, huses, hapart⟩
    constructor
    case documents =>
      intro doc hdoc occ hocc doc' hdoc' occ' hocc' hkey
      exact hinj occ ((hmerged occ).mpr ⟨doc, hdoc, hocc⟩) occ'
        ((hmerged occ').mpr ⟨doc', hdoc', hocc'⟩) hkey
    case uses_nodup => exact huses
    case disjoint =>
      intro use huse name hname doc hdoc occ hocc hkey
      refine hapart occ.key (List.mem_map_of_mem ((hmerged occ).mpr ⟨doc, hdoc, hocc⟩)) _ ?_ hkey
      exact happended.mem_iff.mpr (List.mem_flatMap.mpr ⟨use, huse, List.mem_map_of_mem hname⟩)
  · rintro ⟨hdocuments, huses, hdisjoint⟩
    refine ⟨?_, huses, ?_⟩
    · intro occ hocc occ' hocc' hkey
      obtain ⟨doc, hdoc, hmem⟩ := (hmerged occ).mp hocc
      obtain ⟨doc', hdoc', hmem'⟩ := (hmerged occ').mp hocc'
      exact hdocuments doc hdoc occ hmem doc' hdoc' occ' hmem' hkey
    · intro key hkey other hother heq
      obtain ⟨occ, hocc, rfl⟩ := List.mem_map.mp hkey
      obtain ⟨doc, hdoc, hmem⟩ := (hmerged occ).mp hocc
      obtain ⟨use, huse, hmemKeys⟩ := List.mem_flatMap.mp (happended.mem_iff.mp hother)
      obtain ⟨name, hname, hother⟩ := List.mem_map.mp hmemKeys
      exact hdisjoint use huse name hname doc hdoc occ hmem (heq.trans hother.symm)

/-! ## What is written for a path -/

namespace IndexBuilder

variable {calls : List BuilderCall} {order : IterationOrder Table}
  {forwardDecls : List ForwardDecl} {builder : IndexBuilder}

theorem namesOfSuffix_resolvedNames (calls : List BuilderCall) (order : IterationOrder Table) :
    NamesOfSuffix (resolvedNames (performAll calls)
      ((performAll calls).populateForwardDeclResolver order)) := by
  have hresolution := isResolution_resolvedNames calls order
  constructor
  case nodup =>
    intro suffix
    rcases hresolution suffix with ⟨name, -, -, heq⟩ | ⟨-, ⟨-, hnodup, -⟩ | ⟨-, heq⟩⟩
    · rw [heq]
      exact List.nodup_singleton name
    · exact hnodup
    · rw [heq]
      exact List.nodup_singleton _
  case ne_nil =>
    intro suffix
    rcases hresolution suffix with
      ⟨name, -, -, heq⟩ | ⟨-, ⟨⟨name, hname, hsuffix⟩, -, hmem⟩ | ⟨-, heq⟩⟩
    · simp [heq]
    · exact List.ne_nil_of_mem ((hmem name).mpr ⟨hname, hsuffix⟩)
    · simp [heq]
  case suffix_eq =>
    intro suffix name hname
    rcases hresolution suffix with ⟨other, -, hsuffix, heq⟩ | ⟨-, ⟨-, -, hmem⟩ | ⟨-, heq⟩⟩
    · rw [heq, List.mem_singleton] at hname
      rw [hname, hsuffix]
    · exact ((hmem name).mp hname).2
    · rw [heq, List.mem_singleton] at hname
      rw [hname, getPackageAgnosticSuffix_addFakePrefix]

/-- The occurrences of a finished document are those of its builder. -/
theorem occurrences_finish_perm {docBuilder : DocumentBuilder}
    (hsoFar : docBuilder.soFar.occurrences = []) (order : IterationOrder Table)
    (deterministic : Bool) :
    (docBuilder.finish order deterministic).occurrences.Perm docBuilder.occurrences := by
  rw [DocumentBuilder.finish, hsoFar]
  exact extract_perm ..

/-- Documents that are written as they are have paths that are not merged. -/
theorem IsFinal.filter_documents_eq_nil (h : IsFinal calls order forwardDecls builder)
    {multi : Str → Bool} (hflag : BuilderCall.FlaggedBy multi calls) {path : Str}
    (hmulti : multi path = true) :
    builder.documents.filter (fun doc => decide (doc.relativePath = path)) = [] := by
  rw [List.filter_eq_nil_iff]
  intro doc hdoc hpath
  have hmem : path ∈ builder.paths.1 := by
    rw [← of_decide_eq_true hpath]
    exact List.mem_map_of_mem hdoc
  rw [h.paths_eq] at hmem
  obtain ⟨input, hinput, rfl⟩ := List.mem_map.mp hmem
  rw [performAll_eq] at hinput
  obtain ⟨call, hcall, heq⟩ := List.mem_filterMap.mp hinput
  cases call with
  | addExternalSymbol extSym => cases heq
  | addDocument doc flag =>
      have hflagged := hflag doc flag hcall
      dsimp only at heq
      split at heq
      · obtain rfl := Option.some.inj heq
        simp_all
      · cases heq

theorem IsFinal.filter_written_eq (h : IsFinal calls order forwardDecls builder)
    {multi : Str → Bool} (hflag : BuilderCall.FlaggedBy multi calls) {path : Str}
    (hmulti : multi path = true) (finishOrder : IterationOrder Table) (deterministic : Bool) :
    (concatenate (builder.finish finishOrder deterministic)).documents.filter
        (fun doc => doc.relativePath = path) =
      ((builder.multiplyIndexed.lookup path).map fun docBuilder =>
        IndexWriter.addOccurrences builder.forwardDeclOccurenceMap
          (docBuilder.finish finishOrder deterministic) deterministic).toList := by
  have hagree := pathsAgree_of_paths_eq (pathsAgree_performAll calls) h.paths_eq
  rw [concatenate_finish, List.filter_map]
  simp only [Function.comp_def, IndexWriter.relativePath_addOccurrences]
  rw [List.filter_append, h.filter_documents_eq_nil hflag hmulti, List.nil_append,
    filter_finishedDocuments hagree]
  cases builder.multiplyIndexed.lookup path <;> rfl

/-- For a path that is merged nothing is written if no document was added for it, and otherwise
one document: the merged occurrences, and those of forward declarations. -/
theorem IsFinal.written_for_path (h : IsFinal calls order forwardDecls builder)
    {multi : Str → Bool} (hflag : BuilderCall.FlaggedBy multi calls) {path : Str}
    (hmulti : multi path = true) (finishOrder : IterationOrder Table) (deterministic : Bool) :
    let inputs := (BuilderCall.documents calls).filter fun doc => doc.relativePath = path
    let written := (concatenate (builder.finish finishOrder deterministic)).documents.filter
      fun doc => doc.relativePath = path
    (inputs = [] → written = []) ∧
    (inputs ≠ [] → ∃ doc merged, written = [doc] ∧ merged.Nodup ∧
      (∀ occ, occ ∈ merged ↔ ∃ input ∈ inputs, occ ∈ input.occurrences) ∧
      doc.occurrences.Perm
        (merged ++ (builder.occurrencesAt path).map ForwardDeclOccurrence.addTo)) := by
  intro inputs written
  have hwritten := h.filter_written_eq hflag hmulti finishOrder deterministic
  have houtline := congrFun h.builders.outline_eq path
  unfold outline at houtline
  have hinitial := lookup_multiplyIndexed_performAll calls path
  rw [filter_documentsWith_true hflag hmulti] at hinitial
  constructor
  · intro hnil
    rw [show (BuilderCall.documents calls).filter _ = [] from hnil] at hinitial
    rw [hinitial, Option.map_none, Option.map_eq_none_iff] at houtline
    rw [show written = _ from hwritten, houtline]
    rfl
  · intro hne
    cases hlookup : (performAll calls).multiplyIndexed.lookup path with
    | none =>
        rw [hlookup] at hinitial
        split at hinitial
        · rename_i hnil
          exact absurd hnil hne
        · cases hinitial
    | some initial =>
        obtain ⟨hmerged, hpath⟩ := mergedFrom_of_lookup hlookup
        rw [filter_documentsWith_true hflag hmulti] at hmerged
        rw [hlookup, Option.map_some] at houtline
        obtain ⟨docBuilder, hfinal, hsame⟩ := Option.map_eq_some_iff.mp houtline
        obtain ⟨hsoFar, hoccurrences⟩ := Prod.mk.inj hsame
        obtain ⟨first, -, hfirst⟩ := Option.map_eq_some_iff.mp hmerged.soFar_eq
        have hempty : docBuilder.soFar.occurrences = [] := by
          rw [hsoFar, ← hfirst]
        refine ⟨IndexWriter.addOccurrences builder.forwardDeclOccurenceMap
          (docBuilder.finish finishOrder deterministic) deterministic, initial.occurrences, ?_,
          hmerged.occurrences_nodup, hmerged.mem_occurrences, ?_⟩
        · rw [show written = _ from hwritten, hfinal]
          rfl
        · refine (IndexWriter.occurrences_addOccurrences_perm _ _ _).trans ?_
          rw [DocumentBuilder.relativePath_finish, hsoFar, hpath, ← hoccurrences]
          exact (occurrences_finish_perm hempty finishOrder deterministic).append_right _

end IndexBuilder

/-! ## When no occurrence is written twice -/

/-- The names that a suffix resolves to when shards are merged. -/
def namesOfSuffix (planner : FileIndexingPlanner) (indexShards : List Index)
    (orders : MergeOrders) : Str → List Str :=
  let builder := IndexBuilder.performAll (indexShards.flatMap (shardCalls planner))
  IndexBuilder.resolvedNames builder (builder.populateForwardDeclResolver orders.populate)

open IndexBuilder in
/-- **When no occurrence of a path that is merged is written twice.** -/
theorem noDuplicateOccurrences_iff (planner : FileIndexingPlanner) (indexShards : List Index)
    (runs : List TuRun) (replaceInvalid : Str → Str) (forwardDeclShards : List (List ForwardDecl))
    (hemit : runs.mapM (TuRun.emitForwardDeclarations replaceInvalid) = some forwardDeclShards)
    (orders : MergeOrders) (deterministic : Bool) (path : Str)
    (hmulti : isMultiplyIndexedApproximate planner path = true) :
    ∃ output, mergeShardsAndEmit planner indexShards forwardDeclShards orders deterministic =
        some output ∧
      (NoDuplicateOccurrences output path ↔
        let inputs := (indexShards.flatMap Index.documents).filter fun doc =>
          doc.relativePath = path
        inputs = [] ∨ OccurrencesApart inputs (runs.flatMap (TuRun.usesAt path))
          (namesOfSuffix planner indexShards orders)) := by
  obtain ⟨builder, _, hfinal, -, -, hmerge⟩ := mergeAndEmit_spec
    (indexShards.flatMap (shardCalls planner)) forwardDeclShards.flatten orders orders
  refine ⟨builder.finish orders.finish deterministic, ?_, ?_⟩
  · rw [mergeShardsAndEmit_eq_mergeAndEmit]
    exact (hmerge deterministic).1
  obtain ⟨hnone, hsome⟩ := hfinal.written_for_path (flaggedBy_shardCalls planner indexShards)
    hmulti orders.finish deterministic
  rw [documents_shardCalls] at hnone hsome
  dsimp only
  rw [← occurrencesApart_congr (TuRun.keysAt_emitForwardDeclarations hemit path)]
  have hwritten : NoDuplicateOccurrences (builder.finish orders.finish deterministic) path ↔
      ∀ doc ∈ (concatenate (builder.finish orders.finish deterministic)).documents.filter
        fun doc => doc.relativePath = path, (doc.occurrences.map Occurrence.key).Nodup := by
    simp [NoDuplicateOccurrences]
  rw [hwritten]
  by_cases hinputs : ((indexShards.flatMap Index.documents).filter fun doc =>
      doc.relativePath = path) = []
  · rw [hnone hinputs]
    simp [hinputs]
  · obtain ⟨doc, merged, hdoc, hnodup, hmerged, hperm⟩ := hsome hinputs
    rw [hdoc, or_iff_right hinputs]
    simp only [List.mem_singleton, forall_eq]
    have happended : ((builder.occurrencesAt path).map fun occ => occ.addTo.key).Perm
        ((ForwardDecl.keysAt path forwardDeclShards.flatten).flatMap
          (useKeys (namesOfSuffix planner indexShards orders))) :=
      ((hfinal.occurrencesAt_perm path).map _).trans (keys_forwardDecls_perm _ _ _)
    have hkeys := hperm.map Occurrence.key
    rw [List.map_append, List.map_map] at hkeys
    rw [hkeys.nodup_iff]
    exact nodup_keys_iff hnodup hmerged (namesOfSuffix_resolvedNames _ _) happended

/-! ## A header that is included twice -/

/-- The project root `/p`. -/
def projectRoot : RootPath := ⟨⟨"/p".toList⟩, .Project⟩

/-- The file `/p/foo.cc` includes `/p/a.h` twice, with different effects. -/
def headerTwiceRun : WorkerRun where
  tu :=
    { finishedProcessing := [(⟨1⟩, ⟨7⟩), (⟨2⟩, ⟨8⟩), (⟨3⟩, ⟨9⟩)].foldl
        (fun (table : AList fun _ : FileId => HashValue) entry => table.insert entry.1 entry.2) ∅
      getAbsPath := fun fileId =>
        if fileId = ⟨1⟩ then some ⟨"/p/foo.cc".toList⟩ else some ⟨"/p/a.h".toList⟩
      mainFileId := ⟨1⟩
      buildRootPath := ⟨⟨"/p/build".toList⟩, .Build⟩
      emitDocumentOccurrencesAndSymbols := fun _ => ([], []) }
  packageMap := { projectRootPath := projectRoot, isTesting := false }
  order := .inOrder
  deterministic := false

/-- Both times the first line of `/p/a.h` declares `struct S;`. -/
def headerTwiceTuRun : TuRun where
  fileIdsToBeIndexed := headerTwiceRun.toBeIndexed (filesToBeIndexed projectRoot [headerTwiceRun] 0)
  fileMetadataMap := headerTwiceRun.fileMetadataMap posixEnv projectRoot
  calls := [⟨2⟩, ⟨3⟩].map fun fileId => .forwardDeclaration "cxx . . $ S#".toList
    ⟨⟨1, 8, 1, 9, by decide, by decide⟩, fileId⟩ []
  order := .inOrder
  deterministic := false

theorem noDuplicateOccurrences_headerTwice :
    ∃ forwardDecls output, headerTwiceTuRun.emitForwardDeclarations id = some forwardDecls ∧
      mergeShardsAndEmit (finalPlanner projectRoot [headerTwiceRun])
        [indexShard posixEnv projectRoot [headerTwiceRun] (0, [])] [forwardDecls]
        ⟨.inOrder, fun _ => .inOrder, .inOrder⟩ false = some output ∧
      (NoDuplicateOccurrences output "a.h".toList ↔
        let inputs := ([indexShard posixEnv projectRoot [headerTwiceRun] (0, [])].flatMap
          Index.documents).filter fun doc => doc.relativePath = "a.h".toList
        inputs = [] ∨ OccurrencesApart inputs ([headerTwiceTuRun].flatMap
          (TuRun.usesAt "a.h".toList)) (namesOfSuffix (finalPlanner projectRoot [headerTwiceRun])
            [indexShard posixEnv projectRoot [headerTwiceRun] (0, [])]
            ⟨.inOrder, fun _ => .inOrder, .inOrder⟩)) := by
  have hsome : (headerTwiceTuRun.emitForwardDeclarations id).isSome = true := by decide +kernel
  obtain ⟨forwardDecls, hemit⟩ := Option.isSome_iff_exists.mp hsome
  have hshards : [headerTwiceTuRun].mapM (TuRun.emitForwardDeclarations id) =
      some [forwardDecls] := by
    rw [List.mapM_cons, hemit]
    rfl
  obtain ⟨output, hmerge, hiff⟩ := noDuplicateOccurrences_iff
    (finalPlanner projectRoot [headerTwiceRun])
    [indexShard posixEnv projectRoot [headerTwiceRun] (0, [])] [headerTwiceTuRun] id
    [forwardDecls] hshards ⟨.inOrder, fun _ => .inOrder, .inOrder⟩ false "a.h".toList
    (by decide +kernel)
  exact ⟨forwardDecls, output, hemit, hmerge, hiff⟩

/-- The header is indexed under two file ids, and the declaration is in the index twice. -/
theorem forwardDecl_written_twice :
    isMultiplyIndexedApproximate (finalPlanner projectRoot [headerTwiceRun]) "a.h".toList = true ∧
      (∀ doc ∈ (indexShard posixEnv projectRoot [headerTwiceRun] (0, [])).documents,
        (doc.occurrences.map Occurrence.key).Nodup) ∧
      ∃ forwardDecls output, headerTwiceTuRun.emitForwardDeclarations id = some forwardDecls ∧
        mergeShardsAndEmit (finalPlanner projectRoot [headerTwiceRun])
          [indexShard posixEnv projectRoot [headerTwiceRun] (0, [])] [forwardDecls]
          ⟨.inOrder, fun _ => .inOrder, .inOrder⟩ false = some output ∧
        ¬ NoDuplicateOccurrences output "a.h".toList := by
  refine ⟨by decide +kernel, by decide +kernel, ?_⟩
  have hrun : ((headerTwiceTuRun.emitForwardDeclarations id).bind fun forwardDecls =>
      mergeShardsAndEmit (finalPlanner projectRoot [headerTwiceRun])
        [indexShard posixEnv projectRoot [headerTwiceRun] (0, [])] [forwardDecls]
        ⟨.inOrder, fun _ => .inOrder, .inOrder⟩ false).map
      (fun output => decide (NoDuplicateOccurrences output "a.h".toList)) = some false := by
    decide +kernel
  obtain ⟨output, hbind, htwice⟩ := Option.map_eq_some_iff.mp hrun
  obtain ⟨forwardDecls, hemit, hmerge⟩ := Option.bind_eq_some_iff.mp hbind
  exact ⟨forwardDecls, output, hemit, hmerge, of_decide_eq_false htwice⟩

end ScipClang
