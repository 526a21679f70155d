import ScipClang.Scip.ForwardDecls
import ScipClang.Worker.Documents

/-!
# Forward declarations in a worker

A use of a declaration that is not a definition cannot be put into a document, since the
package of the definition may be unknown.  `TuIndexer` (`indexer/Indexer.cc`) sets such uses
aside in a `ForwardDeclMap`, by symbol, and emits them as a shard of its own.

Within one translation unit the same path can be indexed under several file ids.  The map
keeps paths and ranges only, and in a vector.

* `TuIndexer.forwardDeclarations_performAll`: what is set aside in the course of a
  translation unit.
* `ForwardDeclMap.keysAt_emit`: the references in the shard are those that were set aside.
-/

namespace ScipClang

open HashTables

/-! ## Source ranges -/

/-- The largest number that is a line or a column. -/
def maxPosition : Nat := 2 ^ 31

/-- `FileLocalSourceRange`; lines and columns count from one. -/
@[ext]
structure FileLocalSourceRange where
  startLine : Nat
  startColumn : Nat
  endLine : Nat
  endColumn : Nat
  positive : 0 < startLine ∧ 0 < startColumn ∧ 0 < endLine ∧ 0 < endColumn
  bounded : startLine ≤ maxPosition ∧ startColumn ≤ maxPosition ∧ endLine ≤ maxPosition ∧
    endColumn ≤ maxPosition
deriving DecidableEq

/-- A position in a message counts from zero. -/
def messagePosition (position : Nat) : Int32 := Int32.ofNat (position - 1)

theorem toInt_messagePosition {position : Nat} (hpos : 0 < position)
    (hbound : position ≤ maxPosition) :
    (messagePosition position).toInt = (position : Int) - 1 := by
  unfold maxPosition at hbound
  rw [messagePosition, Int32.toInt_ofNat_of_lt (by omega)]
  omega

namespace FileLocalSourceRange

/-- `FileLocalSourceRange::addTo`. -/
def addTo (range : FileLocalSourceRange) : ScipRange where
  values :=
    messagePosition range.startLine :: messagePosition range.startColumn ::
      ((if range.startLine ≠ range.endLine then [messagePosition range.endLine] else []) ++
        [messagePosition range.endColumn])
  length_eq := by split <;> simp

theorem nonneg_messagePosition {position : Nat} (hpos : 0 < position)
    (hbound : position ≤ maxPosition) : 0 ≤ messagePosition position := by
  rw [Int32.le_iff_toInt_le, toInt_messagePosition hpos hbound]
  show (0 : Int) ≤ _
  omega

/-- The positions in a message count from zero. -/
theorem nonneg_addTo (range : FileLocalSourceRange) : ∀ v ∈ range.addTo.values, 0 ≤ v := by
  obtain ⟨h1, h2, h3, h4⟩ := range.positive
  obtain ⟨b1, b2, b3, b4⟩ := range.bounded
  intro v hv
  simp only [addTo, List.mem_cons, List.mem_append, List.not_mem_nil, or_false] at hv
  rcases hv with rfl | rfl | hline | rfl
  · exact nonneg_messagePosition h1 b1
  · exact nonneg_messagePosition h2 b2
  · split at hline
    · exact List.mem_singleton.mp hline ▸ nonneg_messagePosition h3 b3
    · exact absurd hline List.not_mem_nil
  · exact nonneg_messagePosition h4 b4

end FileLocalSourceRange

/-! ## The map -/

/-- A `DocComment`, by its contents. -/
abbrev DocComment := Str

namespace DocComment

/-- `absl::ascii_isspace`. -/
def isSpace (c : Char) : Bool :=
  c == ' ' || c == '\t' || c == '\n' || c == '\x0b' || c == '\x0c' || c == '\r'

/-- `absl::StripAsciiWhitespace`. -/
def strip (text : Str) : Str :=
  ((text.dropWhile isSpace).reverse.dropWhile isSpace).reverse

/-- `DocComment::replaceIfEmpty`. -/
def replaceIfEmpty (comment other : DocComment) : DocComment :=
  if other ≠ [] ∧ (comment = [] ∨ comment = missingDocumentationPlaceholder) then other
  else comment

/-- `DocComment::addTo` on an empty string, with `utf8::replace_invalid`, which leaves valid text
alone. -/
def addTo (replaceInvalid : Str → Str) (comment : DocComment) : Str :=
  let stripped := strip comment
  if stripped = [] then [] else replaceInvalid stripped

end DocComment

/-- `ForwardDeclMap::Value`. -/
structure ForwardDeclMap.Value where
  docComment : DocComment := missingDocumentationPlaceholder
  ranges : List (RootRelativePathRef × FileLocalSourceRange) := []

/-- `ForwardDeclMap`. -/
abbrev ForwardDeclMap := AList fun _ : Str => ForwardDeclMap.Value

/-- The hash tables that a `TuIndexer` iterates over. -/
inductive TuIndexerTable where
  | forwardDeclarations

namespace ForwardDeclMap

/-- What becomes of the entry of a symbol in `ForwardDeclMap::insert`. -/
def insertEntry (docComment : DocComment) (projectFilePath : RootRelativePathRef)
    (occRange : FileLocalSourceRange) (entry : Option Value) : Value :=
  let entry := entry.getD {}
  { docComment := entry.docComment.replaceIfEmpty docComment
    ranges := entry.ranges ++ [(projectFilePath, occRange)] }

/-- `ForwardDeclMap::insert`. -/
def insert (map : ForwardDeclMap) (symbol : Str) (docComment : DocComment)
    (projectFilePath : RootRelativePathRef) (occRange : FileLocalSourceRange) : ForwardDeclMap :=
  upsert map symbol (insertEntry docComment projectFilePath occRange)

/-- The message for one symbol; a symbol without a suffix is undefined behaviour. -/
def emitEntry (replaceInvalid : Str → Str) (symbol : Str) (value : Value) : Option ForwardDecl := do
  let suffix ← getPackageAgnosticSuffix symbol
  some
    { suffix := suffix
      documentation := value.docComment.addTo replaceInvalid
      references := value.ranges.map fun pair =>
        ⟨pair.2.addTo, pair.1.value, pair.2.nonneg_addTo⟩ }

/-- `ForwardDeclMap::emit`. -/
def emit (replaceInvalid : Str → Str) (order : IterationOrder TuIndexerTable)
    (deterministic : Bool) (map : ForwardDeclMap) : Option (List ForwardDecl) :=
  (extract order .forwardDeclarations deterministic (fun p1 p2 => compareStrings p1.1 p2.1)
    map.entries).mapM fun entry => emitEntry replaceInvalid entry.1 entry.2

end ForwardDeclMap

/-! ## The indexer of a translation unit -/

/-- A token, as `getTokenExpansionRange` finds it: its range, and the file it is in. -/
structure TokenLocation where
  range : FileLocalSourceRange
  fileId : FileId

/-- `TuIndexer`, with what is read and written when a use is saved. -/
structure TuIndexer where
  fileIdsToBeIndexed : List FileId
  fileMetadataMap : FileMetadataMap
  /-- The occurrences of the documents. -/
  documentMap : AList (fun _ : FileId => List Occurrence) := ∅
  forwardDeclarations : ForwardDeclMap := ∅

/-- A call of `saveForwardDeclaration` or `saveReference`; the declaration that is referred to
comes with its comment if `RefersToForwardDecl::check` holds for it, and is left out
otherwise. -/
inductive SaveCall where
  | forwardDeclaration (symbol : Str) (location : TokenLocation) (docComment : DocComment)
  | reference (symbol : Str) (location : TokenLocation) (maybeFwdDecl : Option DocComment)
      (extraRoles : Int32)

namespace TuIndexer

/-- The path under which a use in a file is saved, if it is. -/
def projectFilePath (tuIndexer : TuIndexer) (fileId : FileId) : Option RootRelativePathRef :=
  if fileId ∈ tuIndexer.fileIdsToBeIndexed then
    match tuIndexer.fileMetadataMap.getStableFileId fileId with
    | some stableFileId => if stableFileId.isInProject then some stableFileId.path else none
    | none => none
  else none

/-- `TuIndexer::saveForwardDeclaration`. -/
def saveForwardDeclaration (tuIndexer : TuIndexer) (symbol : Str) (location : TokenLocation)
    (docComment : DocComment) : TuIndexer :=
  match tuIndexer.projectFilePath location.fileId with
  | some path =>
      { tuIndexer with
        forwardDeclarations :=
          tuIndexer.forwardDeclarations.insert symbol docComment path location.range }
  | none => tuIndexer

/-- `TuIndexer::saveOccurrenceImpl`. -/
def saveOccurrence (tuIndexer : TuIndexer) (symbol : Str) (location : TokenLocation)
    (allRoles : Int32) : TuIndexer :=
  { tuIndexer with
    documentMap := upsert tuIndexer.documentMap location.fileId fun occurrences =>
      occurrences.getD [] ++
        [{ range := location.range.addTo, symbol := symbol, symbolRoles := allRoles }] }

/-- `TuIndexer::saveReference`. -/
def saveReference (tuIndexer : TuIndexer) (symbol : Str) (location : TokenLocation)
    (maybeFwdDecl : Option DocComment) (extraRoles : Int32) : TuIndexer :=
  match tuIndexer.projectFilePath location.fileId with
  | some path =>
      match maybeFwdDecl with
      | some docComment =>
          { tuIndexer with
            forwardDeclarations :=
              tuIndexer.forwardDeclarations.insert symbol docComment path location.range }
      | none => tuIndexer.saveOccurrence symbol location extraRoles
  | none => tuIndexer

/-- One call. -/
def perform (tuIndexer : TuIndexer) : SaveCall → TuIndexer
  | .forwardDeclaration symbol location docComment =>
      tuIndexer.saveForwardDeclaration symbol location docComment
  | .reference symbol location maybeFwdDecl extraRoles =>
      tuIndexer.saveReference symbol location maybeFwdDecl extraRoles

/-- The calls in the course of a translation unit. -/
def performAll (tuIndexer : TuIndexer) (calls : List SaveCall) : TuIndexer :=
  calls.foldl perform tuIndexer

end TuIndexer

/-! ## What is set aside -/

/-- A use that was set aside. -/
structure SavedForwardDecl where
  symbol : Str
  docComment : DocComment
  path : RootRelativePathRef
  range : FileLocalSourceRange

namespace SaveCall

/-- The symbol and the place of a use of a forward declaration. -/
def forwardUse : SaveCall → Option (Str × TokenLocation × DocComment)
  | forwardDeclaration symbol location docComment => some (symbol, location, docComment)
  | reference symbol location (some docComment) _ => some (symbol, location, docComment)
  | reference _ _ none _ => none

end SaveCall

namespace TuIndexer

variable (tuIndexer : TuIndexer)

/-- What a call sets aside. -/
def setsAside (call : SaveCall) : Option SavedForwardDecl := do
  let (symbol, location, docComment) ← call.forwardUse
  let path ← tuIndexer.projectFilePath location.fileId
  some ⟨symbol, docComment, path, location.range⟩

/-- Everything that is set aside in the course of a translation unit. -/
def savedForwardDecls (calls : List SaveCall) : List SavedForwardDecl :=
  calls.filterMap tuIndexer.setsAside

variable {tuIndexer}

theorem perform_spec (call : SaveCall) :
    (tuIndexer.perform call).projectFilePath = tuIndexer.projectFilePath ∧
      (tuIndexer.perform call).forwardDeclarations =
        (tuIndexer.setsAside call).elim tuIndexer.forwardDeclarations fun saved =>
          tuIndexer.forwardDeclarations.insert saved.symbol saved.docComment saved.path
            saved.range := by
  cases call with
  | forwardDeclaration symbol location docComment =>
      simp only [perform, saveForwardDeclaration, setsAside, SaveCall.forwardUse,
        Option.bind_eq_bind, Option.bind_some]
      cases tuIndexer.projectFilePath location.fileId <;> exact ⟨rfl, rfl⟩
  | reference symbol location maybeFwdDecl extraRoles =>
      cases maybeFwdDecl with
      | some docComment =>
          simp only [perform, saveReference, setsAside, SaveCall.forwardUse,
            Option.bind_eq_bind, Option.bind_some]
          cases tuIndexer.projectFilePath location.fileId <;> exact ⟨rfl, rfl⟩
      | none =>
          simp only [perform, saveReference, setsAside, SaveCall.forwardUse]
          cases tuIndexer.projectFilePath location.fileId <;> exact ⟨rfl, rfl⟩

/-- **What is set aside in the course of a translation unit.** -/
theorem forwardDeclarations_performAll (calls : List SaveCall) :
    (tuIndexer.performAll calls).forwardDeclarations =
      (tuIndexer.savedForwardDecls calls).foldl
        (fun map saved => ForwardDeclMap.insert map saved.symbol saved.docComment saved.path
          saved.range) tuIndexer.forwardDeclarations := by
  induction calls generalizing tuIndexer with
  | nil => rfl
  | cons call calls ih =>
      obtain ⟨hpath, hmap⟩ := @perform_spec tuIndexer call
      have hsaved : (tuIndexer.perform call).savedForwardDecls calls =
          tuIndexer.savedForwardDecls calls := by
        unfold savedForwardDecls setsAside
        rw [hpath]
      rw [performAll, List.foldl_cons]
      refine ih.trans ?_
      rw [hsaved, hmap, savedForwardDecls, savedForwardDecls, List.filterMap_cons]
      cases tuIndexer.setsAside call <;> rfl

end TuIndexer

/-! ## What is emitted -/

/-- The references of forward declarations in one file, with the suffixes of the symbols. -/
def ForwardDecl.keysAt (path : Str) (forwardDecls : List ForwardDecl) :
    List (Str × ScipRange) :=
  forwardDecls.flatMap fun forwardDecl =>
    (forwardDecl.references.filter fun ref => ref.relativePath = path).map fun ref =>
      (forwardDecl.suffix, ref.range)

namespace SavedForwardDecl

/-- The suffix and the range of a use, if it is in the given file. -/
def keyAt (path : Str) (saved : SavedForwardDecl) : Option (Str × ScipRange) :=
  if saved.path.value = path then
    (getPackageAgnosticSuffix saved.symbol).map fun suffix => (suffix, saved.range.addTo)
  else none

end SavedForwardDecl

namespace ForwardDeclMap

/-- The suffixes and ranges that the entry of a symbol has in a file. -/
def entryKeysAt (path : Str) (symbol : Str) (value : Value) : List (Str × ScipRange) :=
  value.ranges.filterMap fun pair =>
    if pair.1.value = path then
      (getPackageAgnosticSuffix symbol).map fun suffix => (suffix, pair.2.addTo)
    else none

theorem filterMap_singleton {α β : Type} (f : α → Option β) (a : α) :
    [a].filterMap f = (f a).toList := by
  rw [List.filterMap_cons]
  cases f a <;> rfl

theorem keysAt_emitEntry {replaceInvalid : Str → Str} {symbol : Str} {value : Value}
    {forwardDecl : ForwardDecl} (h : emitEntry replaceInvalid symbol value = some forwardDecl)
    (path : Str) : ForwardDecl.keysAt path [forwardDecl] = entryKeysAt path symbol value := by
  obtain ⟨suffix, hsuffix, hdecl⟩ := Option.bind_eq_some_iff.mp h
  obtain rfl := Option.some.inj hdecl
  simp only [ForwardDecl.keysAt, List.flatMap_singleton, entryKeysAt, hsuffix, Option.map_some,
    List.filter_map, List.map_map]
  induction value.ranges with
  | nil => rfl
  | cons pair pairs ih =>
      by_cases hpath : pair.1.value = path
      · rw [List.filter_cons_of_pos (by simpa using hpath), List.map_cons, ih,
          List.filterMap_cons, if_pos hpath]
        rfl
      · rw [List.filter_cons_of_neg (by simpa using hpath), ih, List.filterMap_cons,
          if_neg hpath]

theorem keysAt_mapM_emitEntry {replaceInvalid : Str → Str} {entries : List (Σ _ : Str, Value)}
    {forwardDecls : List ForwardDecl}
    (h : entries.mapM (fun entry => emitEntry replaceInvalid entry.1 entry.2) =
      some forwardDecls) (path : Str) :
    ForwardDecl.keysAt path forwardDecls =
      entries.flatMap fun entry => entryKeysAt path entry.1 entry.2 := by
  induction entries generalizing forwardDecls with
  | nil =>
      obtain rfl := Option.some.inj h
      rfl
  | cons entry entries ih =>
      rw [List.mapM_cons] at h
      obtain ⟨forwardDecl, hentry, hrest⟩ := Option.bind_eq_some_iff.mp h
      obtain ⟨rest, hmap, hdecls⟩ := Option.bind_eq_some_iff.mp hrest
      obtain rfl := Option.some.inj hdecls
      rw [List.flatMap_cons, ← ih hmap, ← keysAt_emitEntry hentry path]
      simp only [ForwardDecl.keysAt, List.flatMap_cons, List.flatMap_nil, List.append_nil]

/-- Every use that is set aside adds its suffix and its range to those of its file. -/
theorem entryKeysAt_foldl_insert (path : Str) (allSaved : List SavedForwardDecl)
    (map : ForwardDeclMap) :
    ((allSaved.foldl (fun map saved => insert map saved.symbol saved.docComment saved.path
        saved.range) map).entries.flatMap fun entry => entryKeysAt path entry.1 entry.2).Perm
      ((map.entries.flatMap fun entry => entryKeysAt path entry.1 entry.2) ++
        allSaved.filterMap (SavedForwardDecl.keyAt path)) := by
  induction allSaved generalizing map with
  | nil => simp
  | cons saved allSaved ih =>
      have hgrow : entryKeysAt path saved.symbol (insertEntry saved.docComment saved.path
          saved.range (map.lookup saved.symbol)) =
          (map.lookup saved.symbol).elim [] (entryKeysAt path saved.symbol) ++
            (saved.keyAt path).toList := by
        cases map.lookup saved.symbol with
        | none =>
            show List.filterMap _ [(saved.path, saved.range)] = _
            rw [filterMap_singleton]
            rfl
        | some old =>
            show List.filterMap _ (old.ranges ++ [(saved.path, saved.range)]) = _
            rw [List.filterMap_append, filterMap_singleton]
            rfl
      rw [List.foldl_cons, ← List.singleton_append, List.filterMap_append,
        filterMap_singleton, ← List.append_assoc]
      exact (ih _).trans ((flatMap_entries_upsert_perm map saved.symbol _ (entryKeysAt path) _
        hgrow).append_right _)

/-- **The references in the shard are those that were set aside.** -/
theorem keysAt_emit {replaceInvalid : Str → Str} {order : IterationOrder TuIndexerTable}
    {deterministic : Bool} {tuIndexer : TuIndexer} {calls : List SaveCall}
    {forwardDecls : List ForwardDecl} (hnew : tuIndexer.forwardDeclarations = ∅)
    (h : (tuIndexer.performAll calls).forwardDeclarations.emit replaceInvalid order
      deterministic = some forwardDecls) (path : Str) :
    (ForwardDecl.keysAt path forwardDecls).Perm
      ((tuIndexer.savedForwardDecls calls).filterMap (SavedForwardDecl.keyAt path)) := by
  have hgathered := entryKeysAt_foldl_insert path (tuIndexer.savedForwardDecls calls) ∅
  rw [← hnew, ← TuIndexer.forwardDeclarations_performAll, hnew] at hgathered
  rw [keysAt_mapM_emitEntry h]
  exact ((extract_perm ..).flatMap_right _).trans hgathered

end ForwardDeclMap

/-! ## A whole translation unit -/

/-- One translation unit: the files that are indexed, and everything that is saved. -/
structure TuRun where
  fileIdsToBeIndexed : List FileId
  fileMetadataMap : FileMetadataMap
  calls : List SaveCall
  order : IterationOrder TuIndexerTable
  deterministic : Bool

namespace TuRun

/-- The indexer at the start. -/
def tuIndexer (run : TuRun) : TuIndexer where
  fileIdsToBeIndexed := run.fileIdsToBeIndexed
  fileMetadataMap := run.fileMetadataMap

/-- `TuIndexer::emitForwardDeclarations`, at the end. -/
def emitForwardDeclarations (replaceInvalid : Str → Str) (run : TuRun) :
    Option (List ForwardDecl) :=
  (run.tuIndexer.performAll run.calls).forwardDeclarations.emit replaceInvalid run.order
    run.deterministic

/-- The uses of forward declarations in a file, by suffix and range. -/
def usesAt (path : Str) (run : TuRun) : List (Str × ScipRange) :=
  (run.tuIndexer.savedForwardDecls run.calls).filterMap (SavedForwardDecl.keyAt path)

theorem keysAt_emitForwardDeclarations {replaceInvalid : Str → Str} {runs : List TuRun}
    {shards : List (List ForwardDecl)}
    (h : runs.mapM (emitForwardDeclarations replaceInvalid) = some shards) (path : Str) :
    (ForwardDecl.keysAt path shards.flatten).Perm (runs.flatMap (usesAt path)) := by
  induction runs generalizing shards with
  | nil =>
      obtain rfl := Option.some.inj h
      exact List.Perm.nil
  | cons run runs ih =>
      rw [List.mapM_cons] at h
      obtain ⟨shard, hshard, hrest⟩ := Option.bind_eq_some_iff.mp h
      obtain ⟨rest, hmap, hshards⟩ := Option.bind_eq_some_iff.mp hrest
      obtain rfl := Option.some.inj hshards
      rw [List.flatten_cons, ForwardDecl.keysAt, List.flatMap_append, List.flatMap_cons]
      exact (ForwardDeclMap.keysAt_emit rfl hshard path).append (ih hmap)

end TuRun

end ScipClang
