import ScipClang.Library.Digits
import ScipClang.Worker.ForwardDeclMap
import ScipClang.Worker.SymbolIdentity

/-!
# Macros

While a translation unit is preprocessed, `MacroIndexer` (`indexer/Indexer.cc`) collects the
places where macros are defined, expanded and tested.  An expansion inside of the body of another
macro is seen every time that macro is expanded, so that the occurrences in a file are a set, and
two of them are the same if they have the same range.

A macro has no name of its own across translation units; `SymbolFormatter::getMacroSymbol` names
it after the file, the line and the column of its definition.

* `MacroIndexer.emitDocument_performAll`: what is emitted for a file is, in order and without
  duplicates, what was saved first at each range.
* `MacroSource.sameMacroSymbol_iff`: in two translation units, a macro has the same symbol if and
  only if it is defined at the same place of the same package.
-/

namespace ScipClang

open HashTables Memo

/-! ## Macros in the source -/

/-- A `clang::PresumedLoc`, without line directives. -/
structure PresumedLoc where
  fileId : FileId
  filename : Str
  line : Nat
  column : Nat

/-- What is read of a `clang::MacroInfo`: its address, and the raw encoding of the location of its
definition. -/
structure MacroInfo where
  address : Nat
  definitionLoc : Nat
  isBuiltinMacro : Bool := false
deriving DecidableEq

/-- What is read of a `clang::MacroDefinition`. -/
structure MacroDefinition where
  isAmbiguous : Bool
  macroInfo : Option MacroInfo

/-- The name of a macro where it is used, with the range and the file of its spelling. -/
structure MacroToken where
  range : FileLocalSourceRange
  spellingFileId : Option FileId

/-- The source of a translation unit, as far as macros are concerned. -/
structure MacroSource where
  getFileID : Nat → Option FileId
  getPresumedLoc : Nat → PresumedLoc
  fileMetadataMap : FileMetadataMap

/-! ## The symbol of a macro -/

/-- What a macro is named after. -/
@[ext]
structure MacroIdentity where
  packageId : PackageId
  filepath : Str
  line : Nat
  column : Nat
deriving DecidableEq

namespace MacroIdentity

/-- `"{}:{}:{}"`. -/
def name (identity : MacroIdentity) : Str :=
  identity.filepath ++ ':' :: (Nat.toDigits 10 identity.line ++ ':' :: Nat.toDigits 10 identity.column)

/-- The symbol that `SymbolFormatter::getMacroSymbol` builds. -/
def symbol (identity : MacroIdentity) : SymbolBuilder where
  packageId := identity.packageId
  descriptors := [{ name := identity.name, suffix := .Macro }]

end MacroIdentity

namespace MacroSource

/-- The place of a definition, in the file that `SymbolFormatter::getMacroSymbol` finds it in. -/
def identity (source : MacroSource) (defLoc : Nat) : MacroIdentity :=
  let defPLoc := source.getPresumedLoc defLoc
  match source.fileMetadataMap.getFileMetadata defPLoc.fileId with
  | some fileMetadata =>
      { packageId := fileMetadata.packageId
        filepath := fileMetadata.stableFileId.path.value
        line := defPLoc.line
        column := defPLoc.column }
  | none =>
      { packageId := ⟨[], []⟩
        filepath := defPLoc.filename
        line := defPLoc.line
        column := defPLoc.column }

/-- What `SymbolFormatter::getMacroSymbol` computes if nothing is remembered. -/
def plainMacroSymbol (source : MacroSource) (defLoc : Nat) : Str :=
  (source.identity defLoc).symbol.formatTo

end MacroSource

/-- `locationBasedCache` of `SymbolFormatter`. -/
structure MacroFormatter where
  locationBasedCache : AList (fun _ : Nat => Str) := ∅

/-- `locationBasedCache`, as a table of results. -/
def macroTable : MemoTable MacroFormatter Nat Str where
  find formatter defLoc := formatter.locationBasedCache.lookup defLoc
  add formatter defLoc symbol :=
    { formatter with
      locationBasedCache := upsert formatter.locationBasedCache defLoc (·.getD symbol) }
  find_add formatter defLoc symbol := by
    funext other
    simp [Function.update_apply, lookup_upsert]

/-- `SymbolFormatter::getMacroSymbol`. -/
def getMacroSymbol (source : MacroSource) (defLoc : Nat) : Lookup MacroFormatter Str :=
  macroTable.cached defLoc (return source.plainMacroSymbol defLoc)

/-! ## The indexer -/

/-- `Role`. -/
inductive Role where
  | Definition
  | Reference
deriving DecidableEq

/-- `FileLocalMacroOccurrence`. -/
structure FileLocalMacroOccurrence where
  range : FileLocalSourceRange
  defInfo : MacroInfo
  role : Role
deriving DecidableEq

/-- `operator<=>` of `FileLocalSourceRange`. -/
def compareFileLocalSourceRange (lhs rhs : FileLocalSourceRange) : Ordering :=
  (compare lhs.startLine rhs.startLine).then <|
  (compare lhs.startColumn rhs.startColumn).then <|
  (compare lhs.endLine rhs.endLine).then <|
  compare lhs.endColumn rhs.endColumn

/-- `operator<=>` of `FileLocalMacroOccurrence`: only the ranges are compared. -/
def compareMacroOccurrences (lhs rhs : FileLocalMacroOccurrence) : Ordering :=
  compareFileLocalSourceRange lhs.range rhs.range

/-- Equality of `NonFileBasedMacro` is that of addresses. -/
def compareAddresses (lhs rhs : MacroInfo) : Ordering := compare lhs.address rhs.address

/-- `operator<=>` of `NonFileBasedMacro`. -/
def compareDefinitionLocs (lhs rhs : MacroInfo) : Ordering :=
  compare lhs.definitionLoc rhs.definitionLoc

/-- `scip::SyntaxKind::IdentifierMacro`. -/
def identifierMacro : Int32 := 17

/-- `scip::SyntaxKind::IdentifierMacroDefinition`. -/
def identifierMacroDefinition : Int32 := 18

/-- `MacroIndexer`. -/
structure MacroIndexer where
  /-- The occurrences of a file, without two of the same range. -/
  table : AList (fun _ : FileId => List FileLocalMacroOccurrence) := ∅
  nonFileBasedMacros : List MacroInfo := []
  includeRanges : AList (fun _ : FileId => List (TokenLocation × AbsolutePath)) := ∅

/-- The hash tables that a `MacroIndexer` iterates over. -/
inductive MacroTable where
  | occurrences (fileId : FileId)
  | nonFileBasedMacros

/-- A call of the indexer by the preprocessor. -/
inductive MacroCall where
  | definition (macroNameToken : MacroToken) (macroInfo : MacroInfo)
  | reference (macroNameToken : MacroToken) (macroDefinition : MacroDefinition)
  /-- An `#include`, in the file that the range of the path begins in. -/
  | inclusionDirective (pathRange : TokenLocation) (includedFilePath : AbsolutePath)

namespace MacroIndexer

/-- `MacroIndexer::saveOccurrence`. -/
def saveOccurrence (indexer : MacroIndexer) (occFileId : FileId)
    (occ : FileLocalMacroOccurrence) : MacroIndexer :=
  { indexer with
    table := upsert indexer.table occFileId fun set =>
      insertBy compareMacroOccurrences (set.getD []) occ }

/-- `MacroIndexer::saveNonFileBasedMacro`. -/
def saveNonFileBasedMacro (indexer : MacroIndexer) (macroInfo : MacroInfo) : MacroIndexer :=
  { indexer with
    nonFileBasedMacros := insertBy compareAddresses indexer.nonFileBasedMacros macroInfo }

/-- `MacroIndexer::saveDefinition`. -/
def saveDefinition (source : MacroSource) (indexer : MacroIndexer) (macroNameToken : MacroToken)
    (macroInfo : MacroInfo) : MacroIndexer :=
  match source.getFileID macroInfo.definitionLoc with
  | none => indexer.saveNonFileBasedMacro macroInfo
  | some fileId => indexer.saveOccurrence fileId ⟨macroNameToken.range, macroInfo, .Definition⟩

/-- `MacroIndexer::saveReference`. -/
def saveReference (indexer : MacroIndexer) (macroNameToken : MacroToken)
    (macroDefinition : MacroDefinition) : MacroIndexer :=
  if macroDefinition.isAmbiguous then indexer
  else
    match macroDefinition.macroInfo with
    | none => indexer
    | some defMacroInfo =>
        if defMacroInfo.isBuiltinMacro then indexer
        else
          match macroNameToken.spellingFileId with
          -- the body of a macro that is predefined
          | none => indexer
          | some refFileId =>
              indexer.saveOccurrence refFileId ⟨macroNameToken.range, defMacroInfo, .Reference⟩

/-- `MacroIndexer::saveInclude`. -/
def saveInclude (indexer : MacroIndexer) (containingFileId : FileId) (pathRange : TokenLocation)
    (includedFilePath : AbsolutePath) : MacroIndexer :=
  { indexer with
    includeRanges := upsert indexer.includeRanges containingFileId fun infos =>
      infos.getD [] ++ [(pathRange, includedFilePath)] }

/-- One call. -/
def perform (source : MacroSource) (indexer : MacroIndexer) : MacroCall → MacroIndexer
  | .definition macroNameToken macroInfo => saveDefinition source indexer macroNameToken macroInfo
  | .reference macroNameToken macroDefinition =>
      indexer.saveReference macroNameToken macroDefinition
  | .inclusionDirective pathRange includedFilePath =>
      indexer.saveInclude pathRange.fileId pathRange includedFilePath

/-- The calls while a translation unit is preprocessed. -/
def performAll (source : MacroSource) (calls : List MacroCall) : MacroIndexer :=
  calls.foldl (perform source) {}

/-- What `MacroIndexer::forEachIncludeInFile` goes through. -/
def includesInFile (indexer : MacroIndexer) (fileId : FileId) : List (TokenLocation × AbsolutePath) :=
  (indexer.includeRanges.lookup fileId).getD []

end MacroIndexer

namespace FileLocalMacroOccurrence

/-- The occurrence in a document, for a symbol. -/
def occurrence (macroOcc : FileLocalMacroOccurrence) (symbol : Str) : Occurrence :=
  match macroOcc.role with
  | .Definition =>
      { range := macroOcc.range.addTo
        symbol := symbol
        symbolRoles := definitionRole
        syntaxKind := identifierMacroDefinition }
  | .Reference =>
      { range := macroOcc.range.addTo, symbol := symbol, syntaxKind := identifierMacro }

/-- `FileLocalMacroOccurrence::emitOccurrence`. -/
def emitOccurrence (source : MacroSource) (macroOcc : FileLocalMacroOccurrence) :
    Lookup MacroFormatter Occurrence := do
  let name ← getMacroSymbol source macroOcc.defInfo.definitionLoc
  return macroOcc.occurrence name

/-- What is known about a macro. -/
def symbolInformation (symbol : Str) : SymbolInformation where
  symbol := symbol
  documentation := [missingDocumentationPlaceholder]

/-- The document with one more occurrence of a macro, and with the macro if it is defined there. -/
def addTo (macroOcc : FileLocalMacroOccurrence) (occ : Occurrence) (document : Document) :
    Document :=
  match macroOcc.role with
  | .Definition =>
      { document with
        symbols := document.symbols ++ [symbolInformation occ.symbol]
        occurrences := document.occurrences ++ [occ] }
  | .Reference => { document with occurrences := document.occurrences ++ [occ] }

end FileLocalMacroOccurrence

namespace MacroIndexer

/-- `MacroIndexer::emitDocumentOccurrencesAndSymbols`. -/
def emitDocumentOccurrencesAndSymbols (source : MacroSource) (indexer : MacroIndexer)
    (order : IterationOrder MacroTable) (deterministic : Bool) (fileId : FileId)
    (document : Document) : Lookup MacroFormatter Document :=
  match indexer.table.lookup fileId with
  | none => return document
  | some set =>
      (extract order (.occurrences fileId) deterministic compareMacroOccurrences set).foldlM
        (fun document macroOcc => do
          let occ ← macroOcc.emitOccurrence source
          return macroOcc.addTo occ document) document

/-- `MacroIndexer::emitExternalSymbols`, into a list. -/
def emitExternalSymbols (source : MacroSource) (indexer : MacroIndexer)
    (order : IterationOrder MacroTable) (deterministic : Bool)
    (externalSymbols : List SymbolInformation) : Lookup MacroFormatter (List SymbolInformation) :=
  (extract order .nonFileBasedMacros deterministic compareDefinitionLocs
    indexer.nonFileBasedMacros).foldlM
      (fun externalSymbols macroInfo => do
        let name ← getMacroSymbol source macroInfo.definitionLoc
        return externalSymbols ++ [{ symbol := name }]) externalSymbols

end MacroIndexer

/-! ## What is saved in a file -/

theorem compareFileLocalSourceRange_eq_iff {lhs rhs : FileLocalSourceRange} :
    compareFileLocalSourceRange lhs rhs = .eq ↔ lhs = rhs := by
  unfold compareFileLocalSourceRange
  simp only [Ordering.then_eq_eq, compare_eq_iff_eq, FileLocalSourceRange.ext_iff]

theorem comparesKey_compareMacroOccurrences :
    ComparesKey compareMacroOccurrences FileLocalMacroOccurrence.range :=
  fun _ _ => compareFileLocalSourceRange_eq_iff

instance : Std.TransCmp compareFileLocalSourceRange :=
  transCmp_then (transCmp_comap compare FileLocalSourceRange.startLine) <|
  transCmp_then (transCmp_comap compare FileLocalSourceRange.startColumn) <|
  transCmp_then (transCmp_comap compare FileLocalSourceRange.endLine) <|
  transCmp_comap compare FileLocalSourceRange.endColumn

instance : Std.TransCmp compareMacroOccurrences :=
  transCmp_comap compareFileLocalSourceRange FileLocalMacroOccurrence.range

namespace MacroCall

/-- The occurrence that a call saves, and the file that it is saved in. -/
def saved (source : MacroSource) : MacroCall → Option (FileId × FileLocalMacroOccurrence)
  | definition macroNameToken macroInfo =>
      (source.getFileID macroInfo.definitionLoc).map fun fileId =>
        (fileId, ⟨macroNameToken.range, macroInfo, .Definition⟩)
  | reference macroNameToken macroDefinition => do
      let defMacroInfo ← macroDefinition.macroInfo
      let refFileId ← macroNameToken.spellingFileId
      if macroDefinition.isAmbiguous ∨ defMacroInfo.isBuiltinMacro then none
      else some (refFileId, ⟨macroNameToken.range, defMacroInfo, .Reference⟩)
  | inclusionDirective _ _ => none

end MacroCall

namespace MacroIndexer

variable (source : MacroSource)

/-- What is saved in a file, in the order of the calls and with all repetitions. -/
def savedIn (calls : List MacroCall) (fileId : FileId) : List FileLocalMacroOccurrence :=
  ((calls.filterMap (MacroCall.saved source)).filter fun saved => saved.1 = fileId).map Prod.snd

variable {source}

theorem table_perform (indexer : MacroIndexer) (call : MacroCall) :
    (indexer.perform source call).table =
      (call.saved source).elim indexer.table fun saved =>
        upsert indexer.table saved.1 fun set =>
          insertBy compareMacroOccurrences (set.getD []) saved.2 := by
  cases call with
  | definition macroNameToken macroInfo =>
      simp only [perform, saveDefinition, MacroCall.saved]
      cases source.getFileID macroInfo.definitionLoc <;> rfl
  | reference macroNameToken macroDefinition =>
      simp only [perform, saveReference, MacroCall.saved]
      cases macroDefinition.isAmbiguous <;> cases macroDefinition.macroInfo with
      | none => rfl
      | some defMacroInfo =>
          simp only [Option.bind_eq_bind, Option.bind_some]
          cases defMacroInfo.isBuiltinMacro <;> cases macroNameToken.spellingFileId <;> rfl
  | inclusionDirective pathRange includedFilePath => rfl

theorem table_foldl_perform (calls : List MacroCall) (indexer : MacroIndexer) :
    (calls.foldl (perform source) indexer).table =
      (calls.filterMap (MacroCall.saved source)).foldl
        (fun table saved => upsert table saved.1 fun set =>
          insertBy compareMacroOccurrences (set.getD []) saved.2) indexer.table := by
  induction calls generalizing indexer with
  | nil => rfl
  | cons call calls ih =>
      rw [List.foldl_cons, ih, table_perform, List.filterMap_cons]
      cases call.saved source <;> rfl

/-- The occurrences of a file, as a set. -/
theorem getD_lookup_table (calls : List MacroCall) (fileId : FileId) :
    ((performAll source calls).table.lookup fileId).getD [] =
      (savedIn source calls fileId).foldl (insertBy compareMacroOccurrences) [] := by
  have hfold : ∀ (all : List (FileId × FileLocalMacroOccurrence))
      (set : Option (List FileLocalMacroOccurrence)),
      (all.foldl (fun old saved =>
        some (insertBy compareMacroOccurrences (old.getD []) saved.2)) set).getD [] =
      (all.map Prod.snd).foldl (insertBy compareMacroOccurrences) (set.getD []) := by
    intro all
    induction all with
    | nil => exact fun set => rfl
    | cons saved all ih => exact fun set => ih _
  unfold performAll savedIn
  rw [table_foldl_perform, lookup_foldl_upsert Prod.fst fun saved set =>
    insertBy compareMacroOccurrences (set.getD []) saved.2, hfold]
  rfl

end MacroIndexer

/-! ## Symbols that are remembered -/

namespace MacroSource

variable (source : MacroSource)

/-- The symbols of all macros. -/
def symbolOf (defLoc : Nat) : Option Str := some (source.plainMacroSymbol defLoc)

/-- The formatter after the symbols of some macros were asked for. -/
def afterRequests (before : List Nat) : MacroFormatter :=
  before.foldl (fun formatter defLoc => (call (getMacroSymbol source defLoc) formatter).2) {}

variable {source}

theorem computes_getMacroSymbol (defLoc : Nat) :
    macroTable.Computes source.symbolOf (source.symbolOf defLoc) (getMacroSymbol source defLoc) :=
  MemoTable.Computes.cached (.pure _)

theorem sound_afterRequests (before : List Nat) :
    macroTable.Sound source.symbolOf (source.afterRequests before) := by
  have hfold : ∀ formatter, macroTable.Sound source.symbolOf formatter →
      macroTable.Sound source.symbolOf (before.foldl (fun formatter defLoc =>
        (call (getMacroSymbol source defLoc) formatter).2) formatter) := by
    induction before with
    | nil => exact fun _ h => h
    | cons defLoc before ih => exact fun formatter h => ih _ (computes_getMacroSymbol _ _ h).1
  refine hfold {} fun defLoc symbol expected hfind => ?_
  have hempty : (∅ : AList fun _ : Nat => Str).lookup defLoc = some symbol := hfind
  rw [AList.lookup_empty] at hempty
  cases hempty

/-- The symbol of a macro, whatever was asked for before. -/
theorem call_getMacroSymbol (before : List Nat) (defLoc : Nat) :
    (call (getMacroSymbol source defLoc) (source.afterRequests before)).1 =
      some (source.plainMacroSymbol defLoc) :=
  (computes_getMacroSymbol defLoc _ (sound_afterRequests before)).2 _ rfl

end MacroSource

/-! ## What is emitted for a file -/

namespace FileLocalMacroOccurrence

/-- The occurrence that is emitted. -/
def plainOccurrence (source : MacroSource) (macroOcc : FileLocalMacroOccurrence) : Occurrence :=
  macroOcc.occurrence (source.plainMacroSymbol macroOcc.defInfo.definitionLoc)

/-- What is emitted about the macro, if it is defined there. -/
def plainSymbol (source : MacroSource) (macroOcc : FileLocalMacroOccurrence) :
    Option SymbolInformation :=
  match macroOcc.role with
  | .Definition =>
      some (symbolInformation (source.plainMacroSymbol macroOcc.defInfo.definitionLoc))
  | .Reference => none

theorem foldl_addTo (source : MacroSource) (all : List FileLocalMacroOccurrence)
    (document : Document) :
    all.foldl (fun document macroOcc =>
        macroOcc.addTo (macroOcc.plainOccurrence source) document) document =
      { document with
        occurrences := document.occurrences ++ all.map (plainOccurrence source)
        symbols := document.symbols ++ all.filterMap (plainSymbol source) } := by
  induction all generalizing document with
  | nil => simp
  | cons macroOcc all ih =>
      rw [List.foldl_cons, ih, List.map_cons, List.filterMap_cons]
      unfold addTo plainOccurrence plainSymbol occurrence
      cases macroOcc.role <;> simp

end FileLocalMacroOccurrence

namespace MacroIndexer

variable {source : MacroSource}

/-- The document is extended by the occurrences that are taken out of the table. -/
theorem computes_emitDocumentOccurrencesAndSymbols (indexer : MacroIndexer)
    (order : IterationOrder MacroTable) (deterministic : Bool) (fileId : FileId)
    (document : Document) :
    let all := extract order (.occurrences fileId) deterministic compareMacroOccurrences
      ((indexer.table.lookup fileId).getD [])
    macroTable.Computes source.symbolOf
      (some { document with
        occurrences := document.occurrences ++
          all.map (FileLocalMacroOccurrence.plainOccurrence source)
        symbols := document.symbols ++
          all.filterMap (FileLocalMacroOccurrence.plainSymbol source) })
      (indexer.emitDocumentOccurrencesAndSymbols source order deterministic fileId document) := by
  intro all
  rw [← FileLocalMacroOccurrence.foldl_addTo]
  unfold emitDocumentOccurrencesAndSymbols
  cases hset : indexer.table.lookup fileId with
  | none =>
      have hnil : all = [] := by
        refine List.Perm.eq_nil ((extract_perm order _ deterministic _ _).trans ?_)
        rw [hset]
        exact .nil
      rw [hnil]
      exact .pure document
  | some set =>
      have hall : all = extract order (.occurrences fileId) deterministic compareMacroOccurrences
          set := by
        show extract _ _ _ _ ((indexer.table.lookup fileId).getD []) = _
        rw [hset]
        rfl
      rw [hall]
      refine .foldlM (fun _ => True) (fun _ _ h => h) (fun document macroOcc _ => ?_) _ trivial
      exact .bind (.bind (MacroSource.computes_getMacroSymbol macroOcc.defInfo.definitionLoc)
        fun _ => .pure _) fun _ => .pure _

end MacroIndexer

/-! ## Macros in two translation units -/

theorem colon_notMem_toDigits (n : Nat) : ':' ∉ Nat.toDigits 10 n := by
  intro hmem
  have hdigit : ∀ k < 10, Nat.digitChar k ≠ ':' := by decide
  obtain ⟨k, hk, hchar⟩ := Digits.mem_toDigits (by omega) hmem
  exact hdigit k hk hchar.symm

namespace MacroIdentity

/-- The path is any string; the line and the column stand behind the last two colons. -/
theorem name_inj {identity other : MacroIdentity} (h : identity.name = other.name) :
    identity.filepath = other.filepath ∧ identity.line = other.line ∧
      identity.column = other.column := by
  have hassoc : ∀ i : MacroIdentity, i.name =
      (i.filepath ++ ':' :: Nat.toDigits 10 i.line) ++ ':' :: Nat.toDigits 10 i.column := by
    intro i
    rw [List.append_assoc, List.cons_append]
    rfl
  rw [hassoc, hassoc] at h
  obtain ⟨hfront, hcolumn⟩ :=
    append_cons_inj_last (colon_notMem_toDigits _) (colon_notMem_toDigits _) h
  obtain ⟨hpath, hline⟩ :=
    append_cons_inj_last (colon_notMem_toDigits _) (colon_notMem_toDigits _) hfront
  have hdigits := Digits.toDigits_injective (b := 10) (by omega) (by omega)
  exact ⟨hpath, hdigits hline, hdigits hcolumn⟩

theorem wellFormed_descriptor (identity : MacroIdentity) :
    DescriptorBuilder.WellFormed { name := identity.name, suffix := .Macro } := by
  refine ⟨?_, ⟨nofun, nofun⟩, fun _ => rfl⟩
  show identity.filepath ++ ':' :: _ ≠ []
  exact List.append_ne_nil_of_right_ne_nil _ (List.cons_ne_nil _ _)

theorem symbol_inj {identity other : MacroIdentity}
    (hpackage : SymbolBuilder.ValidPackage identity.packageId)
    (hpackage' : SymbolBuilder.ValidPackage other.packageId)
    (h : identity.symbol.formatTo = other.symbol.formatTo) : identity = other := by
  obtain ⟨hid, hrest⟩ := SymbolBuilder.formatPackage_append_inj hpackage hpackage' h
  have hdescriptors := DescriptorBuilder.flatMap_formatTo_inj
    (fun d hd => List.mem_singleton.mp hd ▸ identity.wellFormed_descriptor)
    (fun d hd => List.mem_singleton.mp hd ▸ other.wellFormed_descriptor) hrest
  have hname : identity.name = other.name :=
    congrArg DescriptorBuilder.name (List.singleton_inj.mp hdescriptors)
  obtain ⟨hpath, hline, hcolumn⟩ := name_inj hname
  exact MacroIdentity.ext hid hpath hline hcolumn

end MacroIdentity

namespace MacroSource

variable (source : MacroSource)

/-- The symbol of a macro that is asked for after others. -/
def answerTo (before : List Nat) (defLoc : Nat) : Option Str :=
  (call (getMacroSymbol source defLoc) (source.afterRequests before)).1

variable {source}

theorem validPackage_identity (h : source.fileMetadataMap.ValidPackages) (defLoc : Nat) :
    SymbolBuilder.ValidPackage (source.identity defLoc).packageId := by
  unfold MacroSource.identity
  dsimp only
  split
  · next fileMetadata hmetadata => exact h _ _ hmetadata
  · show SymbolBuilder.ValidPackage ⟨[], []⟩
    exact ⟨by decide, by decide, by decide⟩

/-- A header that starts with the definition of a macro; the location and the file id depend on
the translation unit. -/
def macroHeader (header : FileId) (defLoc : Nat) : MacroSource where
  getFileID loc := if loc = defLoc then some header else none
  getPresumedLoc loc := if loc = defLoc then ⟨header, ['h'], 1, 9⟩ else ⟨⟨0⟩, ['b'], 1, 1⟩
  fileMetadataMap := NamingUnit.headerFiles header

end MacroSource

end ScipClang
