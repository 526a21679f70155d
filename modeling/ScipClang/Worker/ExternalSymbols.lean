import ScipClang.Scip.LocalSymbols
import ScipClang.Worker.ForwardDeclMap

/-!
# External symbols in a worker

`TuIndexer::saveDefinition` (`indexer/Indexer.cc`) puts the definition of a symbol into the
document of the file that it is in.  Out-of-project files have no documents; what is known about
a symbol defined there is kept in `externalSymbols` and emitted with the shard.

A symbol may be defined several times.  `saveExternalSymbol` is to replace missing documentation,
but by then `saveDefinition` has put the placeholder in its place, so that the first definition
has the last word.

* `DefinitionIndexer.lookup_externalSymbols_performAll`: the entry of a symbol is that of the
  first definition.
* `DefinitionIndexer.keepsExternalDocumentation_iff`: when documentation survives.
-/

namespace ScipClang

open HashTables

/-- `DocComment::addTo` for a message, which gets one more entry. -/
def DocComment.addToSymbolInformation (replaceInvalid : Str → Str) (comment : DocComment)
    (symbolInfo : SymbolInformation) : SymbolInformation :=
  { symbolInfo with
    documentation := symbolInfo.documentation ++ [comment.addTo replaceInvalid] }

/-- `TuIndexer`, with what is read and written when a definition is saved. -/
structure DefinitionIndexer extends TuIndexer where
  /-- The symbols of the documents. -/
  symbolInfos : AList (fun _ : FileId => AList fun _ : Str => SymbolInformation) := ∅
  externalSymbols : AList (fun _ : Str => SymbolInformation) := ∅

/-- A call of `saveDefinition`, with the location of the token at the start of the expansion. -/
structure DefinitionCall where
  symbol : Str
  location : TokenLocation
  optSymbolInfo : Option SymbolInformation
  extraRoles : Int32 := 0

/-- The hash tables that are iterated over when definitions are emitted. -/
inductive DefinitionTable where
  | externalSymbols

namespace DefinitionIndexer

/-- What becomes of the entry of a symbol in `TuIndexer::saveExternalSymbol`. -/
def externalEntry (symbolInfo : SymbolInformation) :
    Option SymbolInformation → SymbolInformation
  | none => symbolInfo
  | some existing =>
      if existing.documentation = [] ∧ symbolInfo.documentation ≠ [] then
        { existing with documentation := symbolInfo.documentation }
      else existing

/-- `TuIndexer::saveExternalSymbol`. -/
def saveExternalSymbol (indexer : DefinitionIndexer) (symbol : Str)
    (symbolInfo : SymbolInformation) : DefinitionIndexer :=
  { indexer with
    externalSymbols := upsert indexer.externalSymbols symbol (externalEntry symbolInfo) }

/-- `saveDefinition` puts the placeholder where there is no documentation. -/
def withPlaceholder (symbolInfo : SymbolInformation) : SymbolInformation :=
  if symbolInfo.documentation.length = 0 then
    { symbolInfo with documentation := [missingDocumentationPlaceholder] }
  else symbolInfo

/-- `TuIndexer::saveDefinition`. -/
def saveDefinition (indexer : DefinitionIndexer) (call : DefinitionCall) : DefinitionIndexer :=
  let fileId := call.location.fileId
  if fileId ∈ indexer.fileIdsToBeIndexed then
    match indexer.fileMetadataMap.getStableFileId fileId with
    | none => indexer
    | some stableFileId =>
        let optSymbolInfo := call.optSymbolInfo.map withPlaceholder
        if stableFileId.isInProject then
          { indexer with
            toTuIndexer := indexer.saveOccurrence call.symbol call.location
              (call.extraRoles ||| definitionRole)
            symbolInfos := upsert indexer.symbolInfos fileId fun symbolInfos =>
              match optSymbolInfo with
              | none => symbolInfos.getD ∅
              | some symbolInfo =>
                  upsert (symbolInfos.getD ∅) call.symbol (·.getD symbolInfo) }
        else
          match optSymbolInfo with
          | none => indexer
          | some symbolInfo => indexer.saveExternalSymbol call.symbol symbolInfo
  else indexer

/-- The definitions in the course of a translation unit. -/
def performAll (indexer : DefinitionIndexer) (calls : List DefinitionCall) : DefinitionIndexer :=
  calls.foldl saveDefinition indexer

/-- `TuIndexer::emitExternalSymbols`, into a shard without external symbols. -/
def emitExternalSymbols (indexer : DefinitionIndexer) (order : IterationOrder DefinitionTable)
    (deterministic : Bool) : List SymbolInformation :=
  (extract order .externalSymbols deterministic (fun p1 p2 => compareStrings p1.1 p2.1)
    indexer.externalSymbols.entries).map fun entry => { entry.2 with symbol := entry.1 }

/-! ## What is kept -/

/-- What a call hands to `saveExternalSymbol`: something is known about a symbol in an
out-of-project file that is to be indexed. -/
def savesExternal (indexer : DefinitionIndexer) (call : DefinitionCall) :
    Option (Str × SymbolInformation) := do
  let symbolInfo ← call.optSymbolInfo
  if call.location.fileId ∈ indexer.fileIdsToBeIndexed then
    let stableFileId ← indexer.fileMetadataMap.getStableFileId call.location.fileId
    if stableFileId.isInProject then none else some (call.symbol, symbolInfo)
  else none

/-- What is known about an external symbol, in the order of the calls. -/
def externalInputs (indexer : DefinitionIndexer) (calls : List DefinitionCall) (symbol : Str) :
    List SymbolInformation :=
  ((calls.filterMap indexer.savesExternal).filter fun saved => saved.1 = symbol).map Prod.snd

variable {indexer : DefinitionIndexer}

theorem saveDefinition_spec (call : DefinitionCall) :
    (indexer.saveDefinition call).savesExternal = indexer.savesExternal ∧
      (indexer.saveDefinition call).externalSymbols =
        (indexer.savesExternal call).elim indexer.externalSymbols fun saved =>
          upsert indexer.externalSymbols saved.1 (externalEntry (withPlaceholder saved.2)) := by
  unfold saveDefinition
  by_cases hmem : call.location.fileId ∈ indexer.fileIdsToBeIndexed
  · simp only [hmem, if_true]
    cases hstable : indexer.fileMetadataMap.getStableFileId call.location.fileId with
    | none =>
        refine ⟨rfl, ?_⟩
        cases hinfo : call.optSymbolInfo <;> simp [savesExternal, hmem, hstable, hinfo]
    | some stableFileId =>
        by_cases hproject : stableFileId.isInProject = true
        · simp only [hproject, if_true]
          refine ⟨rfl, ?_⟩
          cases hinfo : call.optSymbolInfo <;>
            simp [savesExternal, hmem, hstable, hinfo, hproject]
        · dsimp only
          rw [if_neg hproject]
          cases hinfo : call.optSymbolInfo with
          | none => simp [savesExternal, hinfo]
          | some symbolInfo =>
              have hsaved : indexer.savesExternal call = some (call.symbol, symbolInfo) := by
                simp [savesExternal, hmem, hstable, hinfo, hproject]
              rw [hsaved]
              exact ⟨rfl, rfl⟩
  · dsimp only
    rw [if_neg hmem]
    refine ⟨rfl, ?_⟩
    cases hinfo : call.optSymbolInfo <;> simp [savesExternal, hmem, hinfo]

theorem externalSymbols_performAll (calls : List DefinitionCall) :
    (indexer.performAll calls).externalSymbols =
      (calls.filterMap indexer.savesExternal).foldl
        (fun table saved => upsert table saved.1 (externalEntry (withPlaceholder saved.2)))
        indexer.externalSymbols := by
  induction calls generalizing indexer with
  | nil => rfl
  | cons call calls ih =>
      obtain ⟨hsaves, htable⟩ := @saveDefinition_spec indexer call
      rw [performAll, List.foldl_cons]
      refine ih.trans ?_
      rw [hsaves, htable, List.filterMap_cons]
      cases indexer.savesExternal call <;> rfl

theorem documentation_withPlaceholder_ne_nil (symbolInfo : SymbolInformation) :
    (withPlaceholder symbolInfo).documentation ≠ [] := by
  unfold withPlaceholder
  split
  · exact List.cons_ne_nil _ _
  · rename_i hlength
    exact fun hnil => hlength (List.length_eq_zero_iff.mpr hnil)

theorem hasDocumentation_withPlaceholder (symbolInfo : SymbolInformation) :
    hasDocumentation (withPlaceholder symbolInfo).documentation =
      hasDocumentation symbolInfo.documentation := by
  unfold withPlaceholder
  split
  · rename_i hlength
    rw [List.length_eq_zero_iff.mp hlength]
    exact bne_self_eq_false _
  · rfl

/-- An entry with documentation, be it the placeholder, is not touched again. -/
theorem foldl_externalEntry (inputs : List (Str × SymbolInformation)) {existing : SymbolInformation}
    (h : existing.documentation ≠ []) :
    inputs.foldl (fun old saved => some (externalEntry (withPlaceholder saved.2) old))
      (some existing) = some existing := by
  induction inputs with
  | nil => rfl
  | cons saved inputs ih =>
      rw [List.foldl_cons, externalEntry, if_neg fun hboth => h hboth.1]
      exact ih

/-- **The first definition of an external symbol has the last word.** -/
theorem lookup_externalSymbols_performAll (hempty : indexer.externalSymbols = ∅)
    (calls : List DefinitionCall) (symbol : Str) :
    (indexer.performAll calls).externalSymbols.lookup symbol =
      (indexer.externalInputs calls symbol).head?.map withPlaceholder := by
  rw [externalSymbols_performAll, hempty,
    lookup_foldl_upsert Prod.fst fun saved => externalEntry (withPlaceholder saved.2), externalInputs]
  cases (calls.filterMap indexer.savesExternal).filter fun saved => saved.1 = symbol with
  | nil => rfl
  | cons saved inputs =>
      exact foldl_externalEntry inputs (documentation_withPlaceholder_ne_nil saved.2)

theorem filter_emitExternalSymbols (order : IterationOrder DefinitionTable) (deterministic : Bool)
    (symbol : Str) :
    ((indexer.emitExternalSymbols order deterministic).filter fun symbolInfo =>
        symbolInfo.symbol = symbol) =
      ((indexer.externalSymbols.lookup symbol).map fun symbolInfo =>
        { symbolInfo with symbol := symbol }).toList := by
  have hperm := extract_perm order .externalSymbols deterministic
    (fun p1 p2 => compareStrings p1.1 p2.1) indexer.externalSymbols.entries
  rw [emitExternalSymbols, List.filter_map]
  simp only [Function.comp_def]
  rw [filter_entries_eq_lookup hperm symbol]
  cases indexer.externalSymbols.lookup symbol <;> rfl

/-! ## When documentation survives -/

/-- The indexer at the start of a translation unit. -/
def start (fileIdsToBeIndexed : List FileId) (fileMetadataMap : FileMetadataMap) :
    DefinitionIndexer where
  fileIdsToBeIndexed := fileIdsToBeIndexed
  fileMetadataMap := fileMetadataMap

/-- If documentation is known for an external symbol, it is emitted with documentation. -/
def KeepsExternalDocumentation (indexer : DefinitionIndexer) (calls : List DefinitionCall)
    (order : IterationOrder DefinitionTable) (deterministic : Bool) (symbol : Str) : Prop :=
  (∃ symbolInfo ∈ indexer.externalInputs calls symbol,
    hasDocumentation symbolInfo.documentation = true) →
  ∃ emitted, ((indexer.performAll calls).emitExternalSymbols order deterministic).filter
      (fun symbolInfo => symbolInfo.symbol = symbol) = [emitted] ∧
    hasDocumentation emitted.documentation = true

/-- **When documentation survives**: if the first definition of the symbol comes with
documentation, or none does. -/
theorem keepsExternalDocumentation_iff (fileIdsToBeIndexed : List FileId)
    (fileMetadataMap : FileMetadataMap) (calls : List DefinitionCall)
    (order : IterationOrder DefinitionTable) (deterministic : Bool) (symbol : Str) :
    let inputs := (start fileIdsToBeIndexed fileMetadataMap).externalInputs calls symbol
    (start fileIdsToBeIndexed fileMetadataMap).KeepsExternalDocumentation calls order deterministic
        symbol ↔
      (∀ first, inputs.head? = some first → hasDocumentation first.documentation = true) ∨
        ∀ symbolInfo ∈ inputs, hasDocumentation symbolInfo.documentation = false := by
  unfold KeepsExternalDocumentation
  rw [filter_emitExternalSymbols, lookup_externalSymbols_performAll rfl]
  dsimp only
  generalize (start fileIdsToBeIndexed fileMetadataMap).externalInputs calls symbol = inputs
  cases inputs with
  | nil => simp
  | cons first rest =>
      have hfirst := hasDocumentation_withPlaceholder first
      constructor
      · intro hkept
        by_cases hknown : ∃ symbolInfo ∈ first :: rest,
            hasDocumentation symbolInfo.documentation = true
        · obtain ⟨emitted, hemitted, hdocs⟩ := hkept hknown
          obtain rfl := List.head_eq_of_cons_eq hemitted
          refine Or.inl fun other hother => ?_
          obtain rfl := Option.some.inj hother
          rw [← hfirst]
          exact hdocs
        · exact Or.inr fun symbolInfo hmem =>
            Bool.eq_false_iff.mpr fun hdocs => hknown ⟨symbolInfo, hmem, hdocs⟩
      · rintro (hdocs | hnone) ⟨symbolInfo, hmem, hknown⟩
        · exact ⟨_, rfl, hfirst.trans (hdocs first rfl)⟩
        · rw [hnone symbolInfo hmem] at hknown
          cases hknown

/-! ### A template with a documented specialization -/

/-- `struct S` in an out-of-project header, as a template without a comment and as an explicit
specialization with a comment; both have the same symbol. -/
def specializationCalls : List DefinitionCall :=
  let definition := fun (range : FileLocalSourceRange) (comment : DocComment) =>
    ({ symbol := "cxx . . $ S#".toList
       location := { range := range, fileId := ⟨2⟩ }
       optSymbolInfo := some (comment.addToSymbolInformation id {}) } : DefinitionCall)
  [definition ⟨2, 8, 2, 9, by decide, by decide⟩ missingDocumentationPlaceholder,
    definition ⟨4, 8, 4, 9, by decide, by decide⟩ "A documented S.".toList]

/-- The header is indexed and belongs to a package other than the main one. -/
def headerMetadataMap : FileMetadataMap where
  map := AList.singleton ⟨2⟩
    { stableFileId := ⟨⟨"s.h".toList, .External⟩, false, false⟩
      originalPath := ⟨"/usr/include/s.h".toList⟩
      packageInfo := none }
  projectRootPath := ⟨⟨"/p".toList⟩, .Project⟩
  buildRootPath := ⟨⟨"/p/build".toList⟩, .Build⟩
  packageMap := { projectRootPath := ⟨⟨"/p".toList⟩, .Project⟩, isTesting := false }

/-- The placeholder of the first definition is emitted. -/
theorem external_documentation_lost :
    ¬ (start [⟨2⟩] headerMetadataMap).KeepsExternalDocumentation specializationCalls .inOrder true
      "cxx . . $ S#".toList := by
  intro hkept
  obtain ⟨emitted, hemitted, hdocs⟩ := hkept (by decide +kernel)
  have hplaceholder : ∀ symbolInfo ∈ (((start [⟨2⟩] headerMetadataMap).performAll
      specializationCalls).emitExternalSymbols .inOrder true).filter
        (fun symbolInfo => symbolInfo.symbol = "cxx . . $ S#".toList),
      hasDocumentation symbolInfo.documentation = false := by
    decide +kernel
  rw [hplaceholder emitted (hemitted ▸ List.mem_singleton_self emitted)] at hdocs
  cases hdocs

end DefinitionIndexer

end ScipClang
