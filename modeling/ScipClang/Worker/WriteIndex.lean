import ScipClang.Worker.ExternalSymbols
import ScipClang.Worker.FileSymbols
import ScipClang.Worker.MacroIndexer
import ScipClang.Worker.Run

/-!
# From a translation unit to its shard

When the driver has answered, `IndexerAstConsumer::HandleTranslationUnit`
(`indexer/AstConsumer.cc`) saves a definition for every file that is to be indexed and a
reference for every `#include` in it, traverses the declarations, and writes the documents of all
files that are in the project (`IndexerAstVisitor::writeIndex`).  A document has the macros of
its file first and then what the traversal saved in it.

What Clang finds in the translation unit is given as the calls of the two indexers, in order.

* `IndexedUnit.documents_handleTranslationUnit`: what is in each document.
* `IndexedUnit.wellFormed_handleTranslationUnit`: everything that a document says about a symbol
  is backed by a definition in the same document.
-/

namespace ScipClang

open HashTables Memo

/-! ## Saving -/

/-- What is saved: a definition, a use, or an occurrence without further checks
(`TuIndexer::saveOccurrenceImpl`). -/
inductive TuCall where
  | definition (call : DefinitionCall)
  | use (call : SaveCall)
  | occurrence (symbol : Str) (location : TokenLocation) (allRoles : Int32)

/-- The start of a file: the range of the token that is there, or else the empty range. -/
structure FileStart where
  range : FileLocalSourceRange
  isToken : Bool

namespace DefinitionIndexer

/-- One call. -/
def perform (indexer : DefinitionIndexer) : TuCall → DefinitionIndexer
  | .definition call => indexer.saveDefinition call
  | .use call => { indexer with toTuIndexer := indexer.toTuIndexer.perform call }
  | .occurrence symbol location allRoles =>
      { indexer with toTuIndexer := indexer.saveOccurrence symbol location allRoles }

/-- The documentation of a file. -/
def fileDocumentation (stableFileId : StableFileId) : Str :=
  if stableFileId.isSynthetic then
    match fileName stableFileId.path.value with
    | some filename => "File: ".toList ++ filename
    | none => "File".toList
  else "File: ".toList ++ stableFileId.path.value

/-- The definition of a file at its first token, or at its start if there is no token. -/
def fileDefinition (start : FileStart) (fileId : FileId) (stableFileId : StableFileId)
    (symbol : Str) : TuCall :=
  if start.isToken then
    .definition
      { symbol := symbol
        location := ⟨start.range, fileId⟩
        optSymbolInfo := some { documentation := [fileDocumentation stableFileId] } }
  else .occurrence symbol ⟨start.range, fileId⟩ definitionRole

/-- `TuIndexer::saveSyntheticFileDefinition`. -/
def saveSyntheticFileDefinition (indexer : DefinitionIndexer) (startOfFile : FileId → FileStart)
    (fileId : FileId) (fileMetadata : FileMetadata) : Lookup FileFormatter DefinitionIndexer :=
  let stableFileId := fileMetadata.stableFileId
  if stableFileId.isSynthetic ∨ ¬ stableFileId.isInProject then return indexer
  else do
    let symbol ← getFileSymbol fileMetadata
    return indexer.perform (fileDefinition (startOfFile fileId) fileId stableFileId symbol)

/-- `TuIndexer::saveInclude`. -/
def saveInclude (indexer : DefinitionIndexer) (location : TokenLocation)
    (fileMetadata : FileMetadata) : Lookup FileFormatter DefinitionIndexer :=
  if fileMetadata.stableFileId.isSynthetic then return indexer
  else do
    let symbol ← getFileSymbol fileMetadata
    if location.fileId ∈ indexer.fileIdsToBeIndexed then
      return indexer.perform (.occurrence symbol location 0)
    else return indexer

/-- The hash tables that are iterated over when documents are emitted. -/
inductive DocumentTable where
  | symbolInfos (fileId : FileId)

/-- The entries of `symbolInfos` for a file, with their names. -/
def emittedSymbols (indexer : DefinitionIndexer) (order : IterationOrder DocumentTable)
    (deterministic : Bool) (fileId : FileId) : List SymbolInformation :=
  (extract order (.symbolInfos fileId) deterministic (fun p1 p2 => compareStrings p1.1 p2.1)
    ((indexer.symbolInfos.lookup fileId).getD ∅).entries).map fun entry =>
      { entry.2 with symbol := entry.1 }

/-- `TuIndexer::emitDocumentOccurrencesAndSymbols`. -/
def emitDocumentOccurrencesAndSymbols (indexer : DefinitionIndexer)
    (order : IterationOrder DocumentTable) (deterministic : Bool) (fileId : FileId)
    (document : Document) : Document :=
  { document with
    occurrences := document.occurrences ++ (indexer.documentMap.lookup fileId).getD []
    symbols := document.symbols ++ indexer.emittedSymbols order deterministic fileId }

end DefinitionIndexer

/-- `ClangIdLookupMap::lookupAnyFileId`. -/
def ClangIdLookupMap.lookupAnyFileId (map : ClangIdLookupMap) (order : IterationOrder WorkerTable)
    (absPath : AbsolutePath) : Option FileId :=
  match AList.lookup absPath map with
  | none => none
  | some hashToFileId =>
      ((order.iterate (.hashToFileId absPath) hashToFileId.entries).head?).map Sigma.snd

/-! ## A translation unit -/

/-- A translation unit with everything that its indexers are told. -/
structure IndexedUnit extends WorkerRun where
  getFileID : Nat → Option FileId
  getPresumedLoc : Nat → PresumedLoc
  macroCalls : List MacroCall
  startOfFile : FileId → FileStart
  calls : List TuCall
  macroOrder : IterationOrder MacroTable
  documentOrder : IterationOrder DefinitionIndexer.DocumentTable
  externalOrder : IterationOrder DefinitionTable
  forwardDeclOrder : IterationOrder TuIndexerTable

namespace IndexedUnit

variable (env : PathEnv) (projectRootPath : RootPath) (unit : IndexedUnit)
  (filesToBeIndexed : List PreprocessedFileInfo)

/-- The source, as far as macros are concerned. -/
def macroSource : MacroSource where
  getFileID := unit.getFileID
  getPresumedLoc := unit.getPresumedLoc
  fileMetadataMap := unit.fileMetadataMap env projectRootPath

/-- The `MacroIndexer` after preprocessing. -/
def macroIndexer : MacroIndexer :=
  MacroIndexer.performAll (unit.macroSource env projectRootPath) unit.macroCalls

/-- The callback of `IndexerAstConsumer::saveIncludeReferences` for one `#include`; a file without
metadata is undefined behaviour. -/
def saveIncludeReference (indexer : DefinitionIndexer) (inclusion : TokenLocation × AbsolutePath) :
    Lookup FileFormatter DefinitionIndexer :=
  match unit.clangIdLookupMap.lookupAnyFileId unit.order inclusion.2 with
  | none => return indexer
  | some refFileId =>
      match (unit.fileMetadataMap env projectRootPath).getFileMetadata refFileId with
      | none => failure
      | some fileMetadata => indexer.saveInclude inclusion.1 fileMetadata

/-- The definition of a file, in the loop of `IndexerAstConsumer::saveIncludeReferences`. -/
def saveFileDefinition (indexer : DefinitionIndexer) (fileId : FileId) :
    Lookup FileFormatter DefinitionIndexer :=
  match (unit.fileMetadataMap env projectRootPath).getFileMetadata fileId with
  | none => return indexer
  | some fileMetadata => indexer.saveSyntheticFileDefinition unit.startOfFile fileId fileMetadata

/-- The loop body of `IndexerAstConsumer::saveIncludeReferences`. -/
def saveFileReferences (indexer : DefinitionIndexer) (fileId : FileId) :
    Lookup FileFormatter DefinitionIndexer := do
  let indexer ← unit.saveFileDefinition env projectRootPath indexer fileId
  ((unit.macroIndexer env projectRootPath).includesInFile fileId).foldlM
    (unit.saveIncludeReference env projectRootPath) indexer

/-- `IndexerAstConsumer::saveIncludeReferences`. -/
def saveIncludeReferences : Lookup FileFormatter DefinitionIndexer :=
  (unit.order.iterate .toBeIndexed (unit.toBeIndexed filesToBeIndexed)).foldlM
    (unit.saveFileReferences env projectRootPath)
    (DefinitionIndexer.start (unit.toBeIndexed filesToBeIndexed)
      (unit.fileMetadataMap env projectRootPath))

/-- The indexer after the traversal. -/
def tuIndexer : Option DefinitionIndexer :=
  (call (unit.saveIncludeReferences env projectRootPath filesToBeIndexed) {}).1.map fun indexer =>
    unit.calls.foldl DefinitionIndexer.perform indexer

/-- The loop body of `IndexerAstVisitor::writeIndex`. -/
def writeDocument (tuIndexer : DefinitionIndexer) (documents : List Document)
    (projectFile : RootRelativePathRef × FileId) : Lookup MacroFormatter (List Document) := do
  let document : Document :=
    { language := "CPP".toList, relativePath := projectFile.1.value }
  let document ← (unit.macroIndexer env projectRootPath).emitDocumentOccurrencesAndSymbols
    (unit.macroSource env projectRootPath) unit.macroOrder unit.deterministic projectFile.2 document
  return documents ++ [tuIndexer.emitDocumentOccurrencesAndSymbols unit.documentOrder
    unit.deterministic projectFile.2 document]

/-- `IndexerAstVisitor::writeIndex`, given the indexer after the traversal. -/
def writeIndex (replaceInvalid : Str → Str) (tuIndexer : DefinitionIndexer) :
    Lookup MacroFormatter TuIndexingOutput := do
  let documents ← (unit.indexedProjectFiles env projectRootPath filesToBeIndexed).foldlM
    (unit.writeDocument env projectRootPath tuIndexer) []
  let externalSymbols := tuIndexer.emitExternalSymbols unit.externalOrder unit.deterministic
  let some forwardDecls := tuIndexer.forwardDeclarations.emit replaceInvalid unit.forwardDeclOrder
    unit.deterministic | failure
  let externalSymbols ← (unit.macroIndexer env projectRootPath).emitExternalSymbols
    (unit.macroSource env projectRootPath) unit.macroOrder unit.deterministic externalSymbols
  return { docsAndExternals := { documents, externalSymbols }, forwardDecls }

/-- `IndexerAstConsumer::HandleTranslationUnit`, once the driver has answered. -/
def handleTranslationUnit (replaceInvalid : Str → Str) : Option TuIndexingOutput := do
  let tuIndexer ← unit.tuIndexer env projectRootPath filesToBeIndexed
  (call (unit.writeIndex env projectRootPath filesToBeIndexed replaceInvalid tuIndexer) {}).1

end IndexedUnit

/-! ## What is saved in a file -/

namespace TuCall

/-- The occurrence that a call adds to the document of a file, given the path of the file in the
project, if it has one and is to be indexed. -/
def savesAt (fileId : FileId) (path : Option RootRelativePathRef) : TuCall → Option Occurrence
  | definition call =>
      if call.location.fileId = fileId ∧ path.isSome then
        some
          { range := call.location.range.addTo
            symbol := call.symbol
            symbolRoles := call.extraRoles ||| definitionRole }
      else none
  | use (.reference symbol location none extraRoles) =>
      if location.fileId = fileId ∧ path.isSome then
        some { range := location.range.addTo, symbol := symbol, symbolRoles := extraRoles }
      else none
  | use (.reference _ _ (some _) _) => none
  | use (.forwardDeclaration _ _ _) => none
  | occurrence symbol location allRoles =>
      if location.fileId = fileId then
        some { range := location.range.addTo, symbol := symbol, symbolRoles := allRoles }
      else none

/-- What a call says about the symbol that it defines in a file. -/
def definesAt (fileId : FileId) (path : Option RootRelativePathRef) :
    TuCall → Option (Str × SymbolInformation)
  | definition call =>
      if call.location.fileId = fileId ∧ path.isSome then
        call.optSymbolInfo.map fun symbolInfo =>
          (call.symbol, DefinitionIndexer.withPlaceholder symbolInfo)
      else none
  | use _ => none
  | occurrence _ _ _ => none

end TuCall

namespace DefinitionIndexer

variable {indexer : DefinitionIndexer}

/-- The occurrences that are saved in a file. -/
def occurrencesAt (indexer : DefinitionIndexer) (fileId : FileId) : List Occurrence :=
  (indexer.documentMap.lookup fileId).getD []

/-- What is known about the symbols that are defined in a file. -/
def symbolInfosAt (indexer : DefinitionIndexer) (fileId : FileId) :
    AList fun _ : Str => SymbolInformation :=
  (indexer.symbolInfos.lookup fileId).getD ∅

theorem occurrencesAt_saveOccurrence (symbol : Str) (location : TokenLocation) (allRoles : Int32)
    (fileId : FileId) :
    ((indexer.saveOccurrence symbol location allRoles).documentMap.lookup fileId).getD [] =
      indexer.occurrencesAt fileId ++
        if location.fileId = fileId then
          [{ range := location.range.addTo, symbol := symbol, symbolRoles := allRoles }] else [] := by
  unfold TuIndexer.saveOccurrence occurrencesAt
  rw [lookup_upsert]
  by_cases h : fileId = location.fileId
  · rw [if_pos h, if_pos h.symm, h]
    rfl
  · rw [if_neg h, if_neg (Ne.symm h), List.append_nil]

theorem isSome_projectFilePath {fileId : FileId} :
    (indexer.projectFilePath fileId).isSome ↔ fileId ∈ indexer.fileIdsToBeIndexed ∧
      ∃ stableFileId, indexer.fileMetadataMap.getStableFileId fileId = some stableFileId ∧
        stableFileId.isInProject = true := by
  unfold TuIndexer.projectFilePath
  by_cases hmem : fileId ∈ indexer.fileIdsToBeIndexed
  · rw [if_pos hmem]
    cases indexer.fileMetadataMap.getStableFileId fileId with
    | none => simp
    | some stableFileId => cases h : stableFileId.isInProject <;> simp [hmem, h]
  · simp [hmem]

/-- A definition in a file of the project. -/
theorem saveDefinition_of_isSome (call : DefinitionCall)
    (h : (indexer.projectFilePath call.location.fileId).isSome) :
    indexer.saveDefinition call =
      { indexer with
        toTuIndexer := indexer.saveOccurrence call.symbol call.location
          (call.extraRoles ||| definitionRole)
        symbolInfos := upsert indexer.symbolInfos call.location.fileId fun symbolInfos =>
          (call.optSymbolInfo.map withPlaceholder).elim (symbolInfos.getD ∅) fun symbolInfo =>
            upsert (symbolInfos.getD ∅) call.symbol (·.getD symbolInfo) } := by
  obtain ⟨hmem, stableFileId, hstable, hproject⟩ := isSome_projectFilePath.mp h
  unfold saveDefinition
  dsimp only
  rw [if_pos hmem, hstable]
  dsimp only
  cases call.optSymbolInfo <;> exact if_pos hproject

/-- A definition in any other file leaves the documents alone. -/
theorem saveDefinition_of_not_isSome (call : DefinitionCall)
    (h : ¬ (indexer.projectFilePath call.location.fileId).isSome) :
    (indexer.saveDefinition call).toTuIndexer = indexer.toTuIndexer ∧
      (indexer.saveDefinition call).symbolInfos = indexer.symbolInfos := by
  rw [isSome_projectFilePath, not_and] at h
  unfold saveDefinition
  dsimp only
  split
  · next hmem =>
    split
    · exact ⟨rfl, rfl⟩
    · next stableFileId hstable =>
      rw [if_neg fun hproject => h hmem ⟨stableFileId, hstable, hproject⟩]
      split <;> exact ⟨rfl, rfl⟩
  · exact ⟨rfl, rfl⟩

/-- What a call does to the files, and what it does to the documents. -/
structure Saves (indexer : DefinitionIndexer) (call : TuCall) (after : DefinitionIndexer) : Prop where
  fileIdsToBeIndexed : after.fileIdsToBeIndexed = indexer.fileIdsToBeIndexed
  fileMetadataMap : after.fileMetadataMap = indexer.fileMetadataMap
  occurrencesAt : ∀ fileId, after.occurrencesAt fileId = indexer.occurrencesAt fileId ++
    (call.savesAt fileId (indexer.projectFilePath fileId)).toList
  symbolInfosAt : ∀ fileId, after.symbolInfosAt fileId =
    (call.definesAt fileId (indexer.projectFilePath fileId)).elim (indexer.symbolInfosAt fileId)
      fun defined => upsert (indexer.symbolInfosAt fileId) defined.1 (·.getD defined.2)

theorem saves_definition (call : DefinitionCall) :
    indexer.Saves (.definition call) (indexer.perform (.definition call)) := by
  show indexer.Saves _ (indexer.saveDefinition call)
  by_cases hpath : (indexer.projectFilePath call.location.fileId).isSome
  · rw [saveDefinition_of_isSome call hpath]
    refine ⟨rfl, rfl, fun fileId => ?_, fun fileId => ?_⟩
    · refine (occurrencesAt_saveOccurrence _ _ _ fileId).trans (congrArg _ ?_)
      dsimp only [TuCall.savesAt]
      by_cases h : call.location.fileId = fileId
      · rw [if_pos h, if_pos ⟨h, h ▸ hpath⟩]
        rfl
      · rw [if_neg h, if_neg fun hboth => h hboth.1]
        rfl
    · dsimp only [symbolInfosAt, TuCall.definesAt]
      rw [lookup_upsert]
      by_cases h : call.location.fileId = fileId
      · rw [if_pos h.symm, if_pos ⟨h, h ▸ hpath⟩, h]
        cases call.optSymbolInfo <;> rfl
      · rw [if_neg (Ne.symm h), if_neg fun hboth => h hboth.1]
        rfl
  · obtain ⟨htu, hinfos⟩ := saveDefinition_of_not_isSome call hpath
    have hnone : ∀ fileId, ¬ (call.location.fileId = fileId ∧
        (indexer.projectFilePath fileId).isSome) := by
      rintro fileId ⟨rfl, hsome⟩
      exact hpath hsome
    refine ⟨by rw [htu], by rw [htu], fun fileId => ?_, fun fileId => ?_⟩
    · dsimp only [occurrencesAt, TuCall.savesAt]
      rw [htu, if_neg (hnone fileId)]
      exact (List.append_nil _).symm
    · dsimp only [symbolInfosAt, TuCall.definesAt]
      rw [hinfos, if_neg (hnone fileId)]
      rfl

/-- A call that does not touch the documents. -/
theorem Saves.of_unchanged {call : TuCall} {after : DefinitionIndexer}
    (hfiles : after.fileIdsToBeIndexed = indexer.fileIdsToBeIndexed)
    (hmetadata : after.fileMetadataMap = indexer.fileMetadataMap)
    (hdocuments : after.documentMap = indexer.documentMap)
    (hinfos : after.symbolInfos = indexer.symbolInfos)
    (hsaves : ∀ fileId, call.savesAt fileId (indexer.projectFilePath fileId) = none)
    (hdefines : ∀ fileId, call.definesAt fileId (indexer.projectFilePath fileId) = none) :
    indexer.Saves call after := by
  refine ⟨hfiles, hmetadata, fun fileId => ?_, fun fileId => ?_⟩
  · rw [hsaves, DefinitionIndexer.occurrencesAt, hdocuments]
    exact (List.append_nil _).symm
  · rw [hdefines, DefinitionIndexer.symbolInfosAt, hinfos]
    rfl

theorem saves_occurrence (symbol : Str) (location : TokenLocation) (allRoles : Int32) :
    indexer.Saves (.occurrence symbol location allRoles)
      (indexer.perform (.occurrence symbol location allRoles)) := by
  refine ⟨rfl, rfl, fun fileId => ?_, fun fileId => rfl⟩
  refine (occurrencesAt_saveOccurrence symbol location allRoles fileId).trans (congrArg _ ?_)
  dsimp only [TuCall.savesAt]
  split <;> rfl

theorem saves_use (call : SaveCall) : indexer.Saves (.use call) (indexer.perform (.use call)) := by
  cases call with
  | forwardDeclaration symbol location docComment =>
      dsimp only [perform, TuIndexer.perform, TuIndexer.saveForwardDeclaration]
      split <;> exact .of_unchanged rfl rfl rfl rfl (fun _ => rfl) fun _ => rfl
  | reference symbol location maybeFwdDecl extraRoles =>
      dsimp only [perform, TuIndexer.perform, TuIndexer.saveReference]
      cases hpath : indexer.projectFilePath location.fileId with
      | none =>
          refine .of_unchanged rfl rfl rfl rfl (fun fileId => ?_) fun _ => rfl
          cases maybeFwdDecl with
          | some docComment => rfl
          | none =>
              refine if_neg ?_
              rintro ⟨rfl, hsome⟩
              rw [hpath] at hsome
              cases hsome
      | some path =>
          cases maybeFwdDecl with
          | some docComment => exact .of_unchanged rfl rfl rfl rfl (fun _ => rfl) fun _ => rfl
          | none =>
              refine ⟨rfl, rfl, fun fileId => ?_, fun fileId => rfl⟩
              refine (occurrencesAt_saveOccurrence symbol location extraRoles fileId).trans
                (congrArg _ ?_)
              dsimp only [TuCall.savesAt]
              by_cases h : location.fileId = fileId
              · rw [if_pos h, if_pos ⟨h, by rw [← h, hpath]; rfl⟩]
                rfl
              · rw [if_neg h, if_neg fun hboth => h hboth.1]
                rfl

theorem saves_perform (call : TuCall) : indexer.Saves call (indexer.perform call) := by
  cases call with
  | definition call => exact saves_definition call
  | use call => exact saves_use call
  | occurrence symbol location allRoles => exact saves_occurrence symbol location allRoles

theorem Saves.projectFilePath {call : TuCall} {after : DefinitionIndexer}
    (h : indexer.Saves call after) : after.projectFilePath = indexer.projectFilePath := by
  funext fileId
  unfold TuIndexer.projectFilePath
  rw [h.fileIdsToBeIndexed, h.fileMetadataMap]

/-- **What is saved in a file in the course of a translation unit.** -/
theorem occurrencesAt_foldl_perform (calls : List TuCall) (fileId : FileId) :
    (calls.foldl perform indexer).occurrencesAt fileId = indexer.occurrencesAt fileId ++
      calls.filterMap (TuCall.savesAt fileId (indexer.projectFilePath fileId)) := by
  induction calls generalizing indexer with
  | nil => exact (List.append_nil _).symm
  | cons call calls ih =>
      have hsaves := @saves_perform indexer call
      rw [List.foldl_cons, ih, hsaves.projectFilePath, hsaves.occurrencesAt, List.append_assoc,
        List.filterMap_cons]
      cases call.savesAt fileId (indexer.projectFilePath fileId) <;> rfl

theorem symbolInfosAt_foldl_perform (calls : List TuCall) (fileId : FileId) :
    (calls.foldl perform indexer).symbolInfosAt fileId =
      (calls.filterMap (TuCall.definesAt fileId (indexer.projectFilePath fileId))).foldl
        (fun table defined => upsert table defined.1 (·.getD defined.2))
        (indexer.symbolInfosAt fileId) := by
  induction calls generalizing indexer with
  | nil => rfl
  | cons call calls ih =>
      have hsaves := @saves_perform indexer call
      rw [List.foldl_cons, ih, hsaves.projectFilePath, hsaves.symbolInfosAt, List.filterMap_cons]
      cases call.definesAt fileId (indexer.projectFilePath fileId) <;> rfl

end DefinitionIndexer

/-! ## The symbols of files, once more -/

namespace FileMetadataMap

/-- Files that are remembered under the same key have the same symbol. -/
def FileSymbolsAgree (files : FileMetadataMap) : Prop :=
  ∀ fileId fileId' fileMetadata fileMetadata',
    files.getFileMetadata fileId = some fileMetadata →
    files.getFileMetadata fileId' = some fileMetadata' →
    fileMetadata.stableFileId = fileMetadata'.stableFileId →
      fileMetadata.packageId = fileMetadata'.packageId

/-- The symbol for a key. -/
def fileSymbolOf (files : FileMetadataMap) (stableFileId : StableFileId) : Option Str :=
  (files.map.entries.find? fun entry => entry.2.stableFileId = stableFileId).map
    fun entry => entry.2.symbol.formatTo

variable {files : FileMetadataMap}

theorem FileSymbolsAgree.fileSymbolOf_eq (h : files.FileSymbolsAgree) {fileId : FileId}
    {fileMetadata : FileMetadata} (hmetadata : files.getFileMetadata fileId = some fileMetadata) :
    files.fileSymbolOf fileMetadata.stableFileId = some fileMetadata.symbol.formatTo := by
  have hsome : (files.map.entries.find? fun entry =>
      entry.2.stableFileId = fileMetadata.stableFileId).isSome := by
    rw [List.find?_isSome]
    exact ⟨⟨fileId, fileMetadata⟩, AList.mem_lookup_iff.mp hmetadata, decide_eq_true rfl⟩
  obtain ⟨⟨fileId', fileMetadata'⟩, hfound⟩ := Option.isSome_iff_exists.mp hsome
  have hkey : fileMetadata'.stableFileId = fileMetadata.stableFileId := by
    simpa using List.find?_some hfound
  have hpackage := h fileId' fileId fileMetadata' fileMetadata
    (AList.mem_lookup_iff.mpr (List.mem_of_find?_eq_some hfound)) hmetadata hkey
  have hsymbol : fileMetadata'.symbol = fileMetadata.symbol := by
    unfold FileMetadata.symbol
    rw [hpackage, hkey]
  rw [fileSymbolOf, hfound, Option.map_some, hsymbol]

theorem FileSymbolsAgree.computes (h : files.FileSymbolsAgree) {fileId : FileId}
    {fileMetadata : FileMetadata} (hmetadata : files.getFileMetadata fileId = some fileMetadata) :
    fileTable.Computes files.fileSymbolOf (some fileMetadata.symbol.formatTo)
      (getFileSymbol fileMetadata) := by
  have hkey := h.fileSymbolOf_eq hmetadata
  rw [← hkey]
  refine MemoTable.Computes.cached ?_
  rw [hkey]
  exact .pure _

/-- With one file, there is nothing to agree on. -/
theorem FileSymbolsAgree.of_entries_eq {fileId : FileId} {fileMetadata : FileMetadata}
    (h : files.map.entries = [⟨fileId, fileMetadata⟩]) : files.FileSymbolsAgree := by
  have hfile : ∀ other otherMetadata, files.getFileMetadata other = some otherMetadata →
      otherMetadata = fileMetadata := by
    intro other otherMetadata hmetadata
    have hmem := AList.mem_lookup_iff.mp hmetadata
    rw [h, List.mem_singleton] at hmem
    exact eq_of_heq (Sigma.mk.inj_iff.mp hmem).2
  intro id id' metadata metadata' hid hid' _
  rw [hfile _ _ hid, hfile _ _ hid']

theorem sound_fileTable_initial : fileTable.Sound files.fileSymbolOf {} := by
  intro stableFileId symbol expected hfind
  have hempty : (∅ : AList fun _ : StableFileId => Str).lookup stableFileId = some symbol := hfind
  rw [AList.lookup_empty] at hempty
  cases hempty

end FileMetadataMap

/-! ## References to files -/

namespace IndexedUnit

variable (env : PathEnv) (projectRootPath : RootPath) (unit : IndexedUnit)
  (filesToBeIndexed : List PreprocessedFileInfo)

/-- The definition of a file, if it gets one. -/
def fileDefinitionCall (fileId : FileId) : Option TuCall := do
  let fileMetadata ← (unit.fileMetadataMap env projectRootPath).getFileMetadata fileId
  let stableFileId := fileMetadata.stableFileId
  if stableFileId.isSynthetic ∨ ¬ stableFileId.isInProject then none
  else some (DefinitionIndexer.fileDefinition (unit.startOfFile fileId) fileId stableFileId
    fileMetadata.symbol.formatTo)

/-- The reference for an `#include`, if it gets one. -/
def includeCall (inclusion : TokenLocation × AbsolutePath) : Option TuCall := do
  let refFileId ← unit.clangIdLookupMap.lookupAnyFileId unit.order inclusion.2
  let fileMetadata ← (unit.fileMetadataMap env projectRootPath).getFileMetadata refFileId
  if fileMetadata.stableFileId.isSynthetic ∨
      inclusion.1.fileId ∉ unit.toBeIndexed filesToBeIndexed then none
  else some (.occurrence fileMetadata.symbol.formatTo inclusion.1 0)

/-- What is saved for a file that is to be indexed. -/
def fileCalls (fileId : FileId) : List TuCall :=
  (unit.fileDefinitionCall env projectRootPath fileId).toList ++
    ((unit.macroIndexer env projectRootPath).includesInFile fileId).filterMap
      (unit.includeCall env projectRootPath filesToBeIndexed)

/-- Everything that is saved before the traversal. -/
def referenceCalls : List TuCall :=
  (unit.order.iterate .toBeIndexed (unit.toBeIndexed filesToBeIndexed)).flatMap
    (unit.fileCalls env projectRootPath filesToBeIndexed)

/-- The indexer at the start. -/
def startIndexer : DefinitionIndexer :=
  DefinitionIndexer.start (unit.toBeIndexed filesToBeIndexed)
    (unit.fileMetadataMap env projectRootPath)

variable {env projectRootPath unit filesToBeIndexed}

/-- A file id that a path leads to has metadata. -/
theorem isSome_getFileMetadata_of_lookupAnyFileId {absPath : AbsolutePath} {fileId : FileId}
    (h : unit.clangIdLookupMap.lookupAnyFileId unit.order absPath = some fileId) :
    ((unit.fileMetadataMap env projectRootPath).getFileMetadata fileId).isSome := by
  have hlookup : ∃ path hashValue,
      unit.clangIdLookupMap.lookup path hashValue = some fileId := by
    unfold ClangIdLookupMap.lookupAnyFileId at h
    split at h
    · cases h
    · next hashToFileId hpath =>
      obtain ⟨⟨hashValue, id⟩, hhead, rfl⟩ := Option.map_eq_some_iff.mp h
      have hmem := ((unit.order.perm _ _).mem_iff).mp (List.mem_of_mem_head? hhead)
      exact ⟨absPath, hashValue, Option.bind_eq_some_iff.mpr
        ⟨hashToFileId, hpath, AList.mem_lookup_iff.mpr hmem⟩⟩
  unfold WorkerRun.fileMetadataMap
  dsimp only
  split
  · exact FileMetadataMap.isSome_getFileMetadata_insert.mpr
      (.inr (FileMetadataMap.isSome_getFileMetadata_populate.mpr (.inl hlookup)))
  · exact FileMetadataMap.isSome_getFileMetadata_populate.mpr (.inl hlookup)

/-- The files of an indexer are those of the translation unit. -/
def Indexes (unit : IndexedUnit) (env : PathEnv) (projectRootPath : RootPath)
    (filesToBeIndexed : List PreprocessedFileInfo) (indexer : DefinitionIndexer) : Prop :=
  indexer.fileIdsToBeIndexed = unit.toBeIndexed filesToBeIndexed ∧
    indexer.fileMetadataMap = unit.fileMetadataMap env projectRootPath

theorem Indexes.perform {indexer : DefinitionIndexer}
    (h : unit.Indexes env projectRootPath filesToBeIndexed indexer) (call : TuCall) :
    unit.Indexes env projectRootPath filesToBeIndexed (indexer.perform call) :=
  have hsaves := @DefinitionIndexer.saves_perform indexer call
  ⟨hsaves.fileIdsToBeIndexed.trans h.1, hsaves.fileMetadataMap.trans h.2⟩

theorem Indexes.foldl_perform {indexer : DefinitionIndexer}
    (h : unit.Indexes env projectRootPath filesToBeIndexed indexer) (calls : List TuCall) :
    unit.Indexes env projectRootPath filesToBeIndexed
      (calls.foldl DefinitionIndexer.perform indexer) := by
  induction calls generalizing indexer with
  | nil => exact h
  | cons call calls ih => exact ih (h.perform call)

variable (hagree : (unit.fileMetadataMap env projectRootPath).FileSymbolsAgree)
include hagree

theorem computes_saveIncludeReference (indexer : DefinitionIndexer)
    (hindexes : unit.Indexes env projectRootPath filesToBeIndexed indexer)
    (inclusion : TokenLocation × AbsolutePath) :
    fileTable.Computes (unit.fileMetadataMap env projectRootPath).fileSymbolOf
      (some ((unit.includeCall env projectRootPath filesToBeIndexed inclusion).toList.foldl
        DefinitionIndexer.perform indexer))
      (unit.saveIncludeReference env projectRootPath indexer inclusion) := by
  unfold saveIncludeReference includeCall
  cases hlookup : unit.clangIdLookupMap.lookupAnyFileId unit.order inclusion.2 with
  | none => exact .pure _
  | some refFileId =>
      obtain ⟨fileMetadata, hmetadata⟩ := Option.isSome_iff_exists.mp
        (@isSome_getFileMetadata_of_lookupAnyFileId env projectRootPath unit _ _ hlookup)
      simp only [hmetadata, Option.bind_eq_bind, Option.bind_some]
      unfold DefinitionIndexer.saveInclude
      cases hsynthetic : fileMetadata.stableFileId.isSynthetic with
      | true => simpa using MemoTable.Computes.pure _
      | false =>
          rw [← hindexes.1]
          by_cases hmem : inclusion.1.fileId ∈ indexer.fileIdsToBeIndexed
          · simp only [Bool.false_eq_true, if_false, false_or, hmem, not_true_eq_false, if_true]
            exact (hagree.computes hmetadata).bind_some (.pure _)
          · simp only [Bool.false_eq_true, if_false, false_or, hmem, not_false_eq_true, if_true]
            exact (hagree.computes hmetadata).bind_some (.pure _)

theorem computes_saveFileDefinition (indexer : DefinitionIndexer) (fileId : FileId) :
    fileTable.Computes (unit.fileMetadataMap env projectRootPath).fileSymbolOf
      (some ((unit.fileDefinitionCall env projectRootPath fileId).toList.foldl
        DefinitionIndexer.perform indexer))
      (unit.saveFileDefinition env projectRootPath indexer fileId) := by
  unfold saveFileDefinition
  unfold fileDefinitionCall
  cases hmetadata : (unit.fileMetadataMap env projectRootPath).getFileMetadata fileId with
  | none => exact .pure _
  | some fileMetadata =>
      simp only [Option.bind_eq_bind, Option.bind_some]
      unfold DefinitionIndexer.saveSyntheticFileDefinition
      dsimp only
      by_cases hskip : fileMetadata.stableFileId.isSynthetic = true ∨
          ¬ fileMetadata.stableFileId.isInProject = true
      · rw [if_pos hskip, if_pos hskip]
        exact .pure _
      · rw [if_neg hskip, if_neg hskip]
        exact (hagree.computes hmetadata).bind_some (.pure _)

theorem computes_saveFileReferences (indexer : DefinitionIndexer) (fileId : FileId)
    (hindexes : unit.Indexes env projectRootPath filesToBeIndexed indexer) :
    fileTable.Computes (unit.fileMetadataMap env projectRootPath).fileSymbolOf
      (some ((unit.fileCalls env projectRootPath filesToBeIndexed fileId).foldl
        DefinitionIndexer.perform indexer))
      (unit.saveFileReferences env projectRootPath indexer fileId) := by
  unfold saveFileReferences fileCalls
  rw [List.foldl_append]
  rw [List.filterMap_eq_flatMap_toList, List.foldl_flatMap]
  refine (computes_saveFileDefinition hagree indexer fileId).bind_some ?_
  exact .foldlM (unit.Indexes env projectRootPath filesToBeIndexed)
    (fun _ _ h => h.foldl_perform _)
    (fun indexer inclusion h => computes_saveIncludeReference hagree indexer h inclusion) _
    (hindexes.foldl_perform _)

/-- **What is saved before the traversal**: the definitions of all files that are to be indexed, and
the references for their inclusions. -/
theorem call_saveIncludeReferences :
    (call (unit.saveIncludeReferences env projectRootPath filesToBeIndexed) {}).1 =
      some ((unit.referenceCalls env projectRootPath filesToBeIndexed).foldl
        DefinitionIndexer.perform (unit.startIndexer env projectRootPath filesToBeIndexed)) := by
  have hcomputes : fileTable.Computes (unit.fileMetadataMap env projectRootPath).fileSymbolOf
      (some ((unit.referenceCalls env projectRootPath filesToBeIndexed).foldl
        DefinitionIndexer.perform (unit.startIndexer env projectRootPath filesToBeIndexed)))
      (unit.saveIncludeReferences env projectRootPath filesToBeIndexed) := by
    unfold referenceCalls saveIncludeReferences
    rw [List.foldl_flatMap]
    exact .foldlM (unit.Indexes env projectRootPath filesToBeIndexed)
      (fun _ _ h => h.foldl_perform _)
      (fun indexer fileId h => computes_saveFileReferences hagree indexer fileId h) _ ⟨rfl, rfl⟩
  exact (hcomputes _ FileMetadataMap.sound_fileTable_initial).2 _ rfl

theorem tuIndexer_eq :
    unit.tuIndexer env projectRootPath filesToBeIndexed =
      some ((unit.referenceCalls env projectRootPath filesToBeIndexed ++ unit.calls).foldl
        DefinitionIndexer.perform (unit.startIndexer env projectRootPath filesToBeIndexed)) := by
  rw [tuIndexer, call_saveIncludeReferences hagree, Option.map_some, List.foldl_append]

end IndexedUnit

/-! ## The documents -/

namespace DefinitionIndexer

variable {indexer : DefinitionIndexer}

theorem comparesKey_compareStrings {ν : Type} :
    ComparesKey (fun p1 p2 : Σ _ : Str, ν => compareStrings p1.1 p2.1) Sigma.fst :=
  fun _ _ => Std.LawfulEqCmp.compare_eq_iff_eq

instance {ν : Type} : Std.TransCmp fun p1 p2 : Σ _ : Str, ν => compareStrings p1.1 p2.1 :=
  transCmp_comap compareStrings Sigma.fst

theorem mem_emittedSymbols {order : IterationOrder DocumentTable} {deterministic : Bool}
    {fileId : FileId} {symbolInfo : SymbolInformation} :
    symbolInfo ∈ indexer.emittedSymbols order deterministic fileId ↔
      ∃ saved, (indexer.symbolInfosAt fileId).lookup symbolInfo.symbol = some saved ∧
        symbolInfo = { saved with symbol := symbolInfo.symbol } := by
  unfold emittedSymbols
  rw [List.mem_map]
  simp only [(extract_perm ..).mem_iff]
  constructor
  · rintro ⟨⟨symbol, saved⟩, hmem, rfl⟩
    exact ⟨saved, AList.mem_lookup_iff.mpr hmem, rfl⟩
  · rintro ⟨saved, hlookup, heq⟩
    exact ⟨⟨symbolInfo.symbol, saved⟩, AList.mem_lookup_iff.mp hlookup, heq.symm⟩

/-- The symbols are sorted strictly. -/
theorem pairwise_emittedSymbols (order : IterationOrder DocumentTable) (fileId : FileId) :
    (indexer.emittedSymbols order true fileId).Pairwise fun a b =>
      compareStrings a.symbol b.symbol = .lt := by
  unfold emittedSymbols
  rw [List.pairwise_map]
  exact pairwise_lt_extract comparesKey_compareStrings order _ (AList.keys_nodup _)

/-- What is known about a symbol is what its first definition says. -/
theorem lookup_symbolInfosAt_foldl_perform (calls : List TuCall) (fileId : FileId)
    (hempty : indexer.symbolInfosAt fileId = ∅) (symbol : Str) :
    ((calls.foldl perform indexer).symbolInfosAt fileId).lookup symbol =
      ((calls.filterMap (TuCall.definesAt fileId (indexer.projectFilePath fileId))).find?
        fun defined => defined.1 = symbol).map Prod.snd := by
  have hkept : ∀ (rest : List (Str × SymbolInformation)) (first : SymbolInformation),
      rest.foldl (fun old defined => some (old.getD defined.2)) (some first) = some first := by
    intro rest first
    induction rest with
    | nil => rfl
    | cons defined rest ih => exact ih
  rw [symbolInfosAt_foldl_perform, hempty,
    lookup_foldl_upsert Prod.fst fun defined old => old.getD defined.2, AList.lookup_empty,
    ← List.head?_filter]
  cases List.filter _ (calls.filterMap
    (TuCall.definesAt fileId (indexer.projectFilePath fileId))) with
  | nil => rfl
  | cons defined rest => exact hkept rest defined.2

end DefinitionIndexer

namespace IndexedUnit

variable (env : PathEnv) (projectRootPath : RootPath) (unit : IndexedUnit)
  (filesToBeIndexed : List PreprocessedFileInfo)

/-- The occurrences of macros that are emitted for a file. -/
def macrosAt (fileId : FileId) : List FileLocalMacroOccurrence :=
  extract unit.macroOrder (.occurrences fileId) unit.deterministic compareMacroOccurrences
    (((unit.macroIndexer env projectRootPath).table.lookup fileId).getD [])

/-- The document of a file. -/
def plainDocument (tuIndexer : DefinitionIndexer) (projectFile : RootRelativePathRef × FileId) :
    Document :=
  let macros := unit.macrosAt env projectRootPath projectFile.2
  let source := unit.macroSource env projectRootPath
  { language := "CPP".toList
    relativePath := projectFile.1.value
    occurrences := macros.map (FileLocalMacroOccurrence.plainOccurrence source) ++
      tuIndexer.occurrencesAt projectFile.2
    symbols := macros.filterMap (FileLocalMacroOccurrence.plainSymbol source) ++
      tuIndexer.emittedSymbols unit.documentOrder unit.deterministic projectFile.2 }

variable {env projectRootPath unit filesToBeIndexed}

theorem computes_writeDocument (tuIndexer : DefinitionIndexer) (documents : List Document)
    (projectFile : RootRelativePathRef × FileId) :
    macroTable.Computes (unit.macroSource env projectRootPath).symbolOf
      (some (documents ++ [unit.plainDocument env projectRootPath tuIndexer projectFile]))
      (unit.writeDocument env projectRootPath tuIndexer documents projectFile) :=
  (MacroIndexer.computes_emitDocumentOccurrencesAndSymbols _ _ _ _ _).bind_some (.pure _)

theorem computes_writeDocuments (tuIndexer : DefinitionIndexer)
    (projectFiles : List (RootRelativePathRef × FileId)) :
    macroTable.Computes (unit.macroSource env projectRootPath).symbolOf
      (some (projectFiles.map (unit.plainDocument env projectRootPath tuIndexer)))
      (projectFiles.foldlM (unit.writeDocument env projectRootPath tuIndexer) []) := by
  rw [← List.nil_append (projectFiles.map _), List.map_eq_flatMap, List.flatMap_def, ← List.foldl_append_eq_append]
  exact .foldlM (fun _ => True) (fun _ _ h => h)
    (fun documents projectFile _ => computes_writeDocument tuIndexer documents projectFile) _ trivial

/-- What is emitted about macros that are not in a file. -/
def externalMacros (env : PathEnv) (projectRootPath : RootPath) (unit : IndexedUnit) :
    List SymbolInformation :=
  (extract unit.macroOrder .nonFileBasedMacros unit.deterministic compareDefinitionLocs
    (unit.macroIndexer env projectRootPath).nonFileBasedMacros).map fun macroInfo =>
      { symbol := (unit.macroSource env projectRootPath).plainMacroSymbol macroInfo.definitionLoc }

theorem computes_emitExternalSymbols (externalSymbols : List SymbolInformation) :
    macroTable.Computes (unit.macroSource env projectRootPath).symbolOf
      (some (externalSymbols ++ unit.externalMacros env projectRootPath))
      ((unit.macroIndexer env projectRootPath).emitExternalSymbols
        (unit.macroSource env projectRootPath) unit.macroOrder unit.deterministic
        externalSymbols) := by
  rw [externalMacros, List.map_eq_flatMap, List.flatMap_def, ← List.foldl_append_eq_append]
  refine .foldlM (fun _ => True) (fun _ _ h => h) (fun externalSymbols macroInfo _ => ?_) _ trivial
  exact (@MacroSource.computes_getMacroSymbol (unit.macroSource env projectRootPath)
    macroInfo.definitionLoc).bind_some (.pure _)

/-- The shard, given the indexer after the traversal. -/
theorem call_writeIndex (replaceInvalid : Str → Str) (tuIndexer : DefinitionIndexer) :
    (call (unit.writeIndex env projectRootPath filesToBeIndexed replaceInvalid tuIndexer) {}).1 =
      (tuIndexer.forwardDeclarations.emit replaceInvalid unit.forwardDeclOrder
        unit.deterministic).map fun forwardDecls =>
          { docsAndExternals :=
              { documents := (unit.indexedProjectFiles env projectRootPath filesToBeIndexed).map
                  (unit.plainDocument env projectRootPath tuIndexer)
                externalSymbols :=
                  tuIndexer.emitExternalSymbols unit.externalOrder unit.deterministic ++
                    unit.externalMacros env projectRootPath }
            forwardDecls } := by
  obtain ⟨formatter, hdocuments, hsound⟩ := (computes_writeDocuments tuIndexer
    (unit.indexedProjectFiles env projectRootPath filesToBeIndexed)).exists_call
      (@MacroSource.sound_afterRequests (unit.macroSource env projectRootPath) [])
  refine (congrArg Prod.fst (call_bind_some hdocuments)).trans ?_
  cases tuIndexer.forwardDeclarations.emit replaceInvalid unit.forwardDeclOrder
      unit.deterministic with
  | none => rfl
  | some forwardDecls =>
      obtain ⟨_, hexternals, -⟩ := (computes_emitExternalSymbols
        (tuIndexer.emitExternalSymbols unit.externalOrder unit.deterministic)).exists_call hsound
      exact congrArg Prod.fst (call_bind_some hexternals)

end IndexedUnit

/-! ## What is in a document -/

namespace IndexedUnit

variable (env : PathEnv) (projectRootPath : RootPath) (unit : IndexedUnit)
  (filesToBeIndexed : List PreprocessedFileInfo)

/-- Everything that is saved, in order: the references to files, and what the traversal finds. -/
def allCalls : List TuCall :=
  unit.referenceCalls env projectRootPath filesToBeIndexed ++ unit.calls

/-- The document of a file has the occurrences of macros, of each range the first, and everything
else that was saved in the file; and it has one entry for each symbol that is defined there, with
what the first definition says. -/
structure IsDocumentOf (projectFile : RootRelativePathRef × FileId) (document : Document) :
    Prop where
  language : document.language = "CPP".toList
  relativePath : document.relativePath = projectFile.1.value
  contents : ∃ (macros : List FileLocalMacroOccurrence) (symbols : List SymbolInformation),
    (macros.Pairwise fun a b => compareFileLocalSourceRange a.range b.range = .lt) ∧
    (∀ macroOcc, macroOcc ∈ macros ↔
      (MacroIndexer.savedIn (unit.macroSource env projectRootPath) unit.macroCalls
        projectFile.2).find? (fun other => other.range = macroOcc.range) = some macroOcc) ∧
    (symbols.Pairwise fun a b => compareStrings a.symbol b.symbol = .lt) ∧
    (∀ symbolInfo, symbolInfo ∈ symbols ↔ ∃ first,
      ((unit.allCalls env projectRootPath filesToBeIndexed).filterMap
        (TuCall.definesAt projectFile.2 (some projectFile.1))).find?
          (fun defined => defined.1 = symbolInfo.symbol) = some first ∧
        symbolInfo = { first.2 with symbol := symbolInfo.symbol }) ∧
    document.occurrences =
      macros.map (FileLocalMacroOccurrence.plainOccurrence (unit.macroSource env projectRootPath)) ++
        (unit.allCalls env projectRootPath filesToBeIndexed).filterMap
          (TuCall.savesAt projectFile.2 (some projectFile.1)) ∧
    document.symbols =
      macros.filterMap (FileLocalMacroOccurrence.plainSymbol (unit.macroSource env projectRootPath)) ++
        symbols

variable {env projectRootPath unit filesToBeIndexed}

theorem projectFilePath_startIndexer {path : RootRelativePathRef} {fileId : FileId}
    (h : (path, fileId) ∈ unit.indexedProjectFiles env projectRootPath filesToBeIndexed) :
    (unit.startIndexer env projectRootPath filesToBeIndexed).projectFilePath fileId = some path := by
  obtain ⟨hmem, hpath⟩ := WorkerRun.mem_indexedProjectFiles.mp h
  unfold TuIndexer.projectFilePath
  exact (if_pos hmem).trans hpath

theorem isDocumentOf_plainDocument (hdeterministic : unit.deterministic = true)
    {projectFile : RootRelativePathRef × FileId}
    (h : projectFile ∈ unit.indexedProjectFiles env projectRootPath filesToBeIndexed) :
    unit.IsDocumentOf env projectRootPath filesToBeIndexed projectFile
      (unit.plainDocument env projectRootPath
        ((unit.allCalls env projectRootPath filesToBeIndexed).foldl DefinitionIndexer.perform
          (unit.startIndexer env projectRootPath filesToBeIndexed)) projectFile) := by
  have hpath := projectFilePath_startIndexer h
  have hset := @MacroIndexer.getD_lookup_table (unit.macroSource env projectRootPath)
    unit.macroCalls projectFile.2
  refine ⟨rfl, rfl, unit.macrosAt env projectRootPath projectFile.2,
    DefinitionIndexer.emittedSymbols _ unit.documentOrder unit.deterministic projectFile.2,
    ?_, ?_, ?_, ?_, ?_, rfl⟩
  · rw [macrosAt, macroIndexer, hset, hdeterministic]
    exact pairwise_lt_extract comparesKey_compareMacroOccurrences _ _
      (nodup_keys_foldl_insertBy comparesKey_compareMacroOccurrences _ List.nodup_nil)
  · intro macroOcc
    rw [macrosAt, macroIndexer, hset, (extract_perm ..).mem_iff,
      mem_foldl_insertBy_iff comparesKey_compareMacroOccurrences]
  · rw [hdeterministic]
    exact DefinitionIndexer.pairwise_emittedSymbols _ _
  · intro symbolInfo
    rw [DefinitionIndexer.mem_emittedSymbols,
      DefinitionIndexer.lookup_symbolInfosAt_foldl_perform _ _ rfl, hpath]
    simp only [Option.map_eq_some_iff, exists_exists_and_eq_and]
  · rw [plainDocument, DefinitionIndexer.occurrencesAt_foldl_perform, hpath]
    rfl

/-- **What is in each document**: the shard has one document for each file of the project that is
to be indexed, with everything that was saved in the file. -/
theorem documents_handleTranslationUnit
    (hagree : (unit.fileMetadataMap env projectRootPath).FileSymbolsAgree)
    (hdeterministic : unit.deterministic = true) {replaceInvalid : Str → Str}
    {output : TuIndexingOutput}
    (h : unit.handleTranslationUnit env projectRootPath filesToBeIndexed replaceInvalid =
      some output) :
    List.Forall₂ (unit.IsDocumentOf env projectRootPath filesToBeIndexed)
      (unit.indexedProjectFiles env projectRootPath filesToBeIndexed)
      output.docsAndExternals.documents := by
  unfold handleTranslationUnit at h
  rw [tuIndexer_eq hagree, Option.bind_eq_bind, Option.bind_some, call_writeIndex] at h
  obtain ⟨forwardDecls, -, rfl⟩ := Option.map_eq_some_iff.mp h
  rw [List.forall₂_map_right_iff]
  exact List.forall₂_same.mpr fun projectFile hmem => isDocumentOf_plainDocument hdeterministic hmem

/-! ### Definitions and symbols -/

theorem isDefinition_definitionRole (roles : Int32) :
    ((roles ||| definitionRole) &&& definitionRole != 0) = true := by
  rw [bne_iff_ne]
  intro h
  have hbits := congrArg Int32.toBitVec h
  have hlast := congrArg (·.getLsbD 0) hbits
  simp [definitionRole] at hlast

/-- What is saved is what some calls save. -/
def IsSaved (env : PathEnv) (projectRootPath : RootPath) (unit : IndexedUnit)
    (filesToBeIndexed : List PreprocessedFileInfo) (indexer : DefinitionIndexer) : Prop :=
  ∃ calls : List TuCall, indexer = calls.foldl DefinitionIndexer.perform
    (unit.startIndexer env projectRootPath filesToBeIndexed)

theorem IsSaved.foldl_perform {indexer : DefinitionIndexer}
    (h : unit.IsSaved env projectRootPath filesToBeIndexed indexer) (calls : List TuCall) :
    unit.IsSaved env projectRootPath filesToBeIndexed
      (calls.foldl DefinitionIndexer.perform indexer) := by
  obtain ⟨before, rfl⟩ := h
  exact ⟨before ++ calls, List.foldl_append.symm⟩

theorem IsSaved.perform {indexer : DefinitionIndexer}
    (h : unit.IsSaved env projectRootPath filesToBeIndexed indexer) (call : TuCall) :
    unit.IsSaved env projectRootPath filesToBeIndexed (indexer.perform call) :=
  h.foldl_perform [call]

theorem ensures_saveFileDefinition {indexer : DefinitionIndexer}
    (h : unit.IsSaved env projectRootPath filesToBeIndexed indexer) (fileId : FileId) :
    Ensures (unit.IsSaved env projectRootPath filesToBeIndexed)
      (unit.saveFileDefinition env projectRootPath indexer fileId) := by
  unfold saveFileDefinition
  split
  · exact .pure h
  · unfold DefinitionIndexer.saveSyntheticFileDefinition
    dsimp only
    split
    · exact .pure h
    · exact (Ensures.any _).bind fun symbol _ => .pure (h.perform _)

theorem ensures_saveIncludeReference {indexer : DefinitionIndexer}
    (h : unit.IsSaved env projectRootPath filesToBeIndexed indexer)
    (inclusion : TokenLocation × AbsolutePath) :
    Ensures (unit.IsSaved env projectRootPath filesToBeIndexed)
      (unit.saveIncludeReference env projectRootPath indexer inclusion) := by
  unfold saveIncludeReference
  split
  · exact .pure h
  · split
    · exact .failure
    · unfold DefinitionIndexer.saveInclude
      split
      · exact .pure h
      · refine (Ensures.any _).bind fun symbol _ => ?_
        split
        · exact .pure (h.perform _)
        · exact .pure h

theorem isSaved_tuIndexer {tuIndexer : DefinitionIndexer}
    (h : unit.tuIndexer env projectRootPath filesToBeIndexed = some tuIndexer) :
    unit.IsSaved env projectRootPath filesToBeIndexed tuIndexer := by
  have hreferences : Ensures (unit.IsSaved env projectRootPath filesToBeIndexed)
      (unit.saveIncludeReferences env projectRootPath filesToBeIndexed) := by
    refine .foldlM (fun indexer fileId hsaved => ?_) _ ⟨[], rfl⟩
    exact (ensures_saveFileDefinition hsaved fileId).bind fun _ hdefined =>
      .foldlM (fun _ inclusion hsaved => ensures_saveIncludeReference hsaved inclusion) _ hdefined
  obtain ⟨indexer, hcall, rfl⟩ := Option.map_eq_some_iff.mp h
  exact (hreferences {} indexer hcall).foldl_perform unit.calls

/-- What a document says about a symbol is backed by a definition in the document. -/
structure WellFormedDocument (document : Document) : Prop where
  documented : ∀ symbolInfo ∈ document.symbols, symbolInfo.documentation ≠ []
  defined : ∀ symbolInfo ∈ document.symbols, ∃ occ ∈ document.occurrences,
    occ.symbol = symbolInfo.symbol ∧ occ.isDefinition = true

/-- A call that says something about a symbol also saves a definition of the symbol. -/
theorem savesAt_of_definesAt {fileId : FileId} {path : Option RootRelativePathRef} {call : TuCall}
    {defined : Str × SymbolInformation} (h : call.definesAt fileId path = some defined) :
    defined.2.documentation ≠ [] ∧ ∃ occ, call.savesAt fileId path = some occ ∧
      occ.symbol = defined.1 ∧ occ.isDefinition = true := by
  cases call with
  | use call => cases h
  | occurrence symbol location allRoles => cases h
  | definition call =>
      dsimp only [TuCall.definesAt] at h
      split at h
      · next hhere =>
        obtain ⟨symbolInfo, -, rfl⟩ := Option.map_eq_some_iff.mp h
        exact ⟨DefinitionIndexer.documentation_withPlaceholder_ne_nil symbolInfo, _,
          if_pos hhere, rfl, isDefinition_definitionRole _⟩
      · cases h

theorem wellFormed_plainDocument (calls : List TuCall)
    (projectFile : RootRelativePathRef × FileId) :
    WellFormedDocument (unit.plainDocument env projectRootPath
      (calls.foldl DefinitionIndexer.perform
        (unit.startIndexer env projectRootPath filesToBeIndexed)) projectFile) := by
  -- an entry of the document comes with a definition of its symbol
  have hentry : ∀ symbolInfo ∈ (unit.plainDocument env projectRootPath
      (calls.foldl DefinitionIndexer.perform
        (unit.startIndexer env projectRootPath filesToBeIndexed)) projectFile).symbols,
      symbolInfo.documentation ≠ [] ∧ ∃ occ ∈ (unit.plainDocument env projectRootPath
        (calls.foldl DefinitionIndexer.perform
          (unit.startIndexer env projectRootPath filesToBeIndexed)) projectFile).occurrences,
        occ.symbol = symbolInfo.symbol ∧ occ.isDefinition = true := by
    intro symbolInfo hmem
    rcases List.mem_append.mp hmem with hmacro | hsymbol
    · obtain ⟨macroOcc, hmacroOcc, hplain⟩ := List.mem_filterMap.mp hmacro
      have hocc := List.mem_map_of_mem (f := FileLocalMacroOccurrence.plainOccurrence
        (unit.macroSource env projectRootPath)) hmacroOcc
      unfold FileLocalMacroOccurrence.plainSymbol at hplain
      unfold FileLocalMacroOccurrence.plainOccurrence FileLocalMacroOccurrence.occurrence at hocc
      cases hrole : macroOcc.role with
      | Reference =>
          rw [hrole] at hplain
          cases hplain
      | Definition =>
          rw [hrole] at hplain hocc
          obtain rfl := Option.some.inj hplain
          have hdefinition : (definitionRole &&& definitionRole != 0) = true := by decide
          exact ⟨List.cons_ne_nil _ _, _, List.mem_append_left _ hocc, rfl, hdefinition⟩
    · obtain ⟨saved, hlookup, heq⟩ := DefinitionIndexer.mem_emittedSymbols.mp hsymbol
      rw [DefinitionIndexer.lookup_symbolInfosAt_foldl_perform _ _ rfl] at hlookup
      obtain ⟨first, hfirst, rfl⟩ := Option.map_eq_some_iff.mp hlookup
      obtain ⟨call, hcall, hdefines⟩ := List.mem_filterMap.mp (List.mem_of_find?_eq_some hfirst)
      obtain ⟨hdocumentation, occ, hsaves, hname, hdefinition⟩ := savesAt_of_definesAt hdefines
      have hfirstName : first.1 = symbolInfo.symbol := by simpa using List.find?_some hfirst
      refine ⟨heq ▸ hdocumentation, occ, List.mem_append_right _ ?_, hname.trans hfirstName,
        hdefinition⟩
      rw [DefinitionIndexer.occurrencesAt_foldl_perform]
      exact List.mem_append_right _ (List.mem_filterMap.mpr ⟨call, hcall, hsaves⟩)
  exact ⟨fun symbolInfo hmem => (hentry symbolInfo hmem).1,
    fun symbolInfo hmem => (hentry symbolInfo hmem).2⟩

/-- The main file of a project, which is `#define M`. -/
def macroUnit : IndexedUnit where
  tu :=
    { finishedProcessing := AList.singleton ⟨1⟩ ⟨7⟩
      getAbsPath := fun fileId => if fileId = ⟨1⟩ then some ⟨['/', 'p', '/', 'm']⟩ else none
      mainFileId := ⟨1⟩
      buildRootPath := ⟨⟨['/', 'b']⟩, .Build⟩
      emitDocumentOccurrencesAndSymbols := fun _ => ([], []) }
  packageMap := { projectRootPath := ⟨⟨['/', 'p']⟩, .Project⟩, isTesting := false }
  order := .inOrder
  deterministic := true
  getFileID := fun loc => if loc = 9 then some ⟨1⟩ else none
  getPresumedLoc := fun _ => ⟨⟨1⟩, ['m'], 1, 9⟩
  macroCalls := [.definition ⟨⟨1, 9, 1, 10, by decide, by decide⟩, some ⟨1⟩⟩ ⟨0, 9, false⟩]
  startOfFile := fun _ => ⟨⟨1, 1, 1, 2, by decide, by decide⟩, true⟩
  calls := []
  macroOrder := .inOrder
  documentOrder := .inOrder
  externalOrder := .inOrder
  forwardDeclOrder := .inOrder

/-- The root of the project. -/
def macroProject : RootPath := ⟨⟨['/', 'p']⟩, .Project⟩

/-- The metadata of the main file. -/
def macroFile : FileMetadata := ⟨⟨⟨['m'], .Project⟩, true, false⟩, ⟨['/', 'p', '/', 'm']⟩, none⟩

theorem fileSymbolsAgree_macroUnit :
    (macroUnit.fileMetadataMap posixEnv macroProject).FileSymbolsAgree :=
  @FileMetadataMap.FileSymbolsAgree.of_entries_eq _ ⟨1⟩ macroFile (by decide)

theorem handleTranslationUnit_macroUnit :
    ∃ output, macroUnit.handleTranslationUnit posixEnv macroProject [] id = some output := by
  have hnone : ((macroUnit.allCalls posixEnv macroProject []).foldl DefinitionIndexer.perform
      (macroUnit.startIndexer posixEnv macroProject [])).forwardDeclarations.emit id .inOrder true =
        some [] := by
    show (extract IterationOrder.inOrder TuIndexerTable.forwardDeclarations true _ []).mapM _ = _
    rw [List.Perm.eq_nil (extract_perm _ _ _ _ _)]
    rfl
  rw [← Option.isSome_iff_exists, handleTranslationUnit, tuIndexer_eq fileSymbolsAgree_macroUnit,
    Option.bind_eq_bind, Option.bind_some, call_writeIndex, Option.isSome_map]
  exact congrArg Option.isSome hnone

theorem documents_macroUnit :
    ∃ output, macroUnit.handleTranslationUnit posixEnv macroProject [] id = some output ∧
      List.Forall₂ (macroUnit.IsDocumentOf posixEnv macroProject [])
        (macroUnit.indexedProjectFiles posixEnv macroProject [])
        output.docsAndExternals.documents := by
  obtain ⟨output, houtput⟩ := handleTranslationUnit_macroUnit
  exact ⟨output, houtput, documents_handleTranslationUnit fileSymbolsAgree_macroUnit rfl houtput⟩

end IndexedUnit

end ScipClang
