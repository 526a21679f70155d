import ScipClang.SymbolFormatter
import ScipClang.Worker.Documents

/-!
# Files without metadata

The symbol of a declaration starts with the package of the file that the declaration is in, and
the package is part of the metadata of the file.  Without metadata there is no symbol, and the
declaration and the references to it are dropped (`getLocationBasedSymbolPrefix`,
`indexer/SymbolFormatter.cc`).

`FileMetadataMap::populate` goes through the `ClangIdLookupMap`, which keeps a single file id for
a (path, hash) pair.  A header that is included twice with the same effect has two file ids, and
one of them gets no metadata.

* `isSome_getFileMetadata_iff`: the file ids that have metadata.
* `isSome_getContextSymbol_iff`: a declaration has a prefix if its file has metadata.
* `everyFileHasMetadata_iff`: when all files of a translation unit have metadata.
-/

namespace ScipClang

open HashTables

/-! ## The last element of its kind -/

/-- The last element of a list that satisfies a predicate. -/
def findLast? {α : Type} (p : α → Bool) (l : List α) : Option α := l.reverse.find? p

theorem findLast?_cons {α : Type} (p : α → Bool) (a : α) (l : List α) :
    findLast? p (a :: l) = (findLast? p l).or (if p a then some a else none) := by
  rw [findLast?, List.reverse_cons, List.find?_append, findLast?, List.find?_singleton]

theorem isSome_findLast? {α : Type} {p : α → Bool} {l : List α} :
    (findLast? p l).isSome ↔ ∃ a ∈ l, p a = true := by
  rw [findLast?, List.find?_isSome]
  simp only [List.mem_reverse]

theorem findLast?_eq_some_imp {α : Type} {p : α → Bool} {l : List α} {a : α}
    (h : findLast? p l = some a) : a ∈ l ∧ p a = true :=
  ⟨List.mem_reverse.mp (List.mem_of_find?_eq_some h), List.find?_some h⟩

/-- Every element that matters is exempt or the last of its kind if and only if an element that
is followed by another of its kind is exempt. -/
theorem forall_findLast?_eq_iff {α : Type} (same : α → α → Bool) (exempt : α → Prop) {l : List α}
    (hnodup : l.Nodup) :
    (∀ a ∈ l, same a a = true → exempt a ∨ findLast? (same a) l = some a) ↔
      l.Pairwise fun a b => same a a = true → same a b = true → exempt a := by
  induction l with
  | nil => simp
  | cons a l ih =>
      obtain ⟨hnotMem, hnodup⟩ := List.nodup_cons.mp hnodup
      rw [List.forall_mem_cons, List.pairwise_cons, ← ih hnodup]
      refine and_congr ?_ ?_
      · -- the head of the list is the last of its kind if no other follows
        constructor
        · intro h b hb haa hab
          refine (h haa).resolve_right fun hlast => ?_
          obtain ⟨c, hc⟩ := Option.isSome_iff_exists.mp (isSome_findLast?.mpr ⟨b, hb, hab⟩)
          rw [findLast?_cons, hc, Option.some_or, Option.some.injEq] at hlast
          subst hlast
          exact hnotMem (findLast?_eq_some_imp hc).1
        · intro h haa
          by_cases hfollow : ∃ b ∈ l, same a b = true
          · obtain ⟨b, hb, hab⟩ := hfollow
            exact Or.inl (h b hb haa hab)
          · right
            have hnone : findLast? (same a) l = none := by
              rwa [← Option.not_isSome_iff_eq_none, isSome_findLast?]
            rw [findLast?_cons, hnone, haa]
            rfl
      · -- the others are looked up behind it
        refine forall₂_congr fun b hb => imp_congr_right fun hbb => or_congr_right ?_
        obtain ⟨c, hc⟩ := Option.isSome_iff_exists.mp (isSome_findLast?.mpr ⟨b, hb, hbb⟩)
        rw [findLast?_cons, hc, Option.some_or]

/-! ## Which file ids have metadata -/

/-- `FileMetadata::packageId`. -/
def FileMetadata.packageId (fileMetadata : FileMetadata) : PackageId :=
  match fileMetadata.packageInfo with
  | some packageInfo => packageInfo.id
  | none => ⟨[], []⟩

namespace FileMetadataMap

/-- `FileMetadataMap::getFileMetadata`. -/
def getFileMetadata (fileMetadataMap : FileMetadataMap) (fileId : FileId) : Option FileMetadata :=
  fileMetadataMap.map.lookup fileId

variable {env : PathEnv} {fileMetadataMap : FileMetadataMap} {fileId : FileId}

theorem isSome_getFileMetadata_insert {other : FileId} {absPath : AbsolutePath} :
    ((fileMetadataMap.insert env other absPath).getFileMetadata fileId).isSome ↔
      fileId = other ∨ (fileMetadataMap.getFileMetadata fileId).isSome := by
  simp only [getFileMetadata, insert, lookup_upsert]
  split
  · rename_i heq
    exact iff_of_true rfl (Or.inl heq)
  · rename_i hne
    exact (or_iff_right hne).symm

theorem isSome_getFileMetadata_foldl_insert (files : List (FileId × AbsolutePath)) :
    ((files.foldl (fun fileMetadataMap file => fileMetadataMap.insert env file.1 file.2)
        fileMetadataMap).getFileMetadata fileId).isSome ↔
      fileId ∈ files.map Prod.fst ∨ (fileMetadataMap.getFileMetadata fileId).isSome := by
  induction files generalizing fileMetadataMap with
  | nil => simp
  | cons file files ih =>
      rw [List.foldl_cons, ih, isSome_getFileMetadata_insert, List.map_cons, List.mem_cons, or_assoc,
        or_left_comm]

/-- `populate` reaches the file ids that the lookup map leads to. -/
theorem isSome_getFileMetadata_populate {order : IterationOrder WorkerTable}
    {clangIdLookupMap : ClangIdLookupMap} :
    ((fileMetadataMap.populate env order clangIdLookupMap).getFileMetadata fileId).isSome ↔
      (∃ absPath hashValue, clangIdLookupMap.lookup absPath hashValue = some fileId) ∨
        (fileMetadataMap.getFileMetadata fileId).isSome := by
  rw [populate_eq, isSome_getFileMetadata_foldl_insert]
  refine or_congr_left ?_
  simp only [List.mem_map, List.mem_flatMap, (order.perm _ _).mem_iff]
  constructor
  · rintro ⟨file, ⟨⟨absPath, hashToFileId⟩, hpath, ⟨hashValue, id⟩, hhash, rfl⟩, rfl⟩
    exact ⟨absPath, hashValue, Option.bind_eq_some_iff.mpr
      ⟨hashToFileId, AList.mem_lookup_iff.mpr hpath, AList.mem_lookup_iff.mpr hhash⟩⟩
  · rintro ⟨absPath, hashValue, hlookup⟩
    obtain ⟨hashToFileId, hpath, hhash⟩ := Option.bind_eq_some_iff.mp hlookup
    exact ⟨(fileId, absPath), ⟨⟨absPath, hashToFileId⟩, AList.mem_lookup_iff.mp hpath,
      ⟨hashValue, fileId⟩, AList.mem_lookup_iff.mp hhash, rfl⟩, rfl⟩

end FileMetadataMap

namespace PreprocessorState

variable {state : PreprocessorState}

/-- Two finished files have the same path and the same hash. -/
def SamePathAndHash (state : PreprocessorState) (entry other : Σ _ : FileId, HashValue) : Prop :=
  (state.getAbsPath entry.1).isSome ∧ state.getAbsPath entry.1 = state.getAbsPath other.1 ∧
    entry.2 = other.2

theorem SamePathAndHash.symm {entry other : Σ _ : FileId, HashValue}
    (h : state.SamePathAndHash entry other) : state.SamePathAndHash other entry :=
  ⟨h.2.1 ▸ h.1, h.2.1.symm, h.2.2.symm⟩

instance (entry other : Σ _ : FileId, HashValue) :
    Decidable (state.SamePathAndHash entry other) :=
  inferInstanceAs (Decidable ((state.getAbsPath entry.1).isSome ∧
    state.getAbsPath entry.1 = state.getAbsPath other.1 ∧ entry.2 = other.2))

/-- The file id of a (path, hash) pair is the one that was inserted last. -/
theorem lookup_foldl_insertFinished (entries : List (Σ _ : FileId, HashValue))
    (map : ClangIdLookupMap) (absPath : AbsolutePath) (hashValue : HashValue) :
    (entries.foldl state.insertFinished map).lookup absPath hashValue =
      ((findLast? (fun entry => state.getAbsPath entry.1 = some absPath ∧ entry.2 = hashValue)
        entries).map Sigma.fst).or (map.lookup absPath hashValue) := by
  induction entries generalizing map with
  | nil => rfl
  | cons entry entries ih =>
      rw [List.foldl_cons, ih, findLast?_cons]
      cases findLast? (fun entry => state.getAbsPath entry.1 = some absPath ∧
          entry.2 = hashValue) entries with
      | some found => rfl
      | none =>
          rw [Option.map_none, Option.none_or, Option.none_or, insertFinished]
          cases hpath : state.getAbsPath entry.1 with
          | none => simp
          | some other =>
              dsimp only
              rw [ClangIdLookupMap.lookup_insert]
              by_cases hsame : absPath = other ∧ hashValue = entry.2
              · obtain ⟨rfl, rfl⟩ := hsame
                simp
              · have hother : ¬ (some other = some absPath ∧ entry.2 = hashValue) :=
                  fun h => hsame ⟨(Option.some.inj h.1).symm, h.2.symm⟩
                rw [if_neg hsame, if_neg (by rwa [decide_eq_true_eq])]
                rfl

/-- The map leads to a finished file if no other with the same path and hash is inserted after
it. -/
theorem exists_lookup_clangIdLookupMap_iff {order : IterationOrder WorkerTable}
    {entry : Σ _ : FileId, HashValue} (hentry : entry ∈ state.finishedProcessing.entries)
    (hpath : (state.getAbsPath entry.1).isSome) :
    (∃ absPath hashValue, (state.clangIdLookupMap order).lookup absPath hashValue =
        some entry.1) ↔
      findLast? (fun other => state.SamePathAndHash entry other)
        (order.iterate .finishedProcessing state.finishedProcessing.entries) = some entry := by
  obtain ⟨absPath, habs⟩ := Option.isSome_iff_exists.mp hpath
  -- the map is asked for the path and the hash of the file
  have hown : (∃ path hashValue, (state.clangIdLookupMap order).lookup path hashValue =
      some entry.1) ↔ (state.clangIdLookupMap order).lookup absPath entry.2 = some entry.1 := by
    constructor
    · rintro ⟨path, hashValue, hlookup⟩
      obtain ⟨hpath, hhash⟩ := mapSound_clangIdLookupMap.lookup path hashValue _ hlookup
      obtain rfl : path = absPath := Option.some.inj (hpath.symm.trans habs)
      obtain rfl : entry.2 = hashValue :=
        Option.some.inj ((AList.mem_lookup_iff.mpr hentry).symm.trans hhash)
      exact hlookup
    · intro hlookup
      exact ⟨absPath, entry.2, hlookup⟩
  have hkind : (fun other : Σ _ : FileId, HashValue =>
      decide (state.getAbsPath other.1 = some absPath ∧ other.2 = entry.2)) =
      fun other => decide (state.SamePathAndHash entry other) := by
    funext other
    rw [decide_eq_decide]
    unfold SamePathAndHash
    rw [habs, Option.isSome_some, eq_self, true_and, eq_comm, @eq_comm _ entry.2]
  rw [hown, clangIdLookupMap, lookup_foldl_insertFinished, hkind]
  rw [show (∅ : ClangIdLookupMap).lookup absPath entry.2 = none from rfl, Option.or_none,
    Option.map_eq_some_iff]
  constructor
  · rintro ⟨⟨otherId, otherHash⟩, hfound, hid⟩
    obtain ⟨-, -, hhash⟩ := of_decide_eq_true (findLast?_eq_some_imp hfound).2
    rw [hfound, Option.some.injEq]
    exact Sigma.ext hid (heq_of_eq hhash.symm)
  · intro hfound
    exact ⟨entry, hfound, rfl⟩

end PreprocessorState

namespace WorkerRun

variable {env : PathEnv} {projectRootPath : RootPath} {run : WorkerRun}

/-- **The files that have metadata**: the main file, and for every (path, hash) pair the file
that was inserted last. -/
theorem isSome_getFileMetadata_iff {entry : Σ _ : FileId, HashValue}
    (hentry : entry ∈ run.tu.finishedProcessing.entries)
    (hpath : (run.tu.getAbsPath entry.1).isSome) :
    ((run.fileMetadataMap env projectRootPath).getFileMetadata entry.1).isSome ↔
      entry.1 = run.tu.mainFileId ∨
        findLast? (fun other => run.tu.SamePathAndHash entry other)
          (run.order.iterate .finishedProcessing run.tu.finishedProcessing.entries) =
            some entry := by
  rw [← PreprocessorState.exists_lookup_clangIdLookupMap_iff hentry hpath, fileMetadataMap]
  have hnone : ∀ initial : FileMetadataMap, initial.map = ∅ →
      ((initial.getFileMetadata entry.1).isSome ↔ False) := by
    intro initial hempty
    rw [FileMetadataMap.getFileMetadata, hempty, AList.lookup_empty]
    exact iff_of_false Bool.false_ne_true id
  cases hmain : run.tu.getAbsPath run.tu.mainFileId with
  | some mainFileAbsPath =>
      dsimp only
      rw [FileMetadataMap.isSome_getFileMetadata_insert,
        FileMetadataMap.isSome_getFileMetadata_populate, hnone _ rfl, or_false]
      rfl
  | none =>
      dsimp only
      rw [FileMetadataMap.isSome_getFileMetadata_populate, hnone _ rfl, or_false]
      refine (or_iff_right ?_).symm
      intro heq
      rw [heq, hmain] at hpath
      cases hpath

end WorkerRun

/-! ## Symbol prefixes -/

/-- A namespace: its canonical declaration, and its name, which is empty if it has none. -/
structure NamespaceDecl where
  canonicalDecl : Nat
  name : Str
deriving DecidableEq

/-- `namespacePrefixCache` of `SymbolFormatter`: the declaration is missing for the translation
unit itself. -/
abbrev NamespacePrefixCache := AList fun _ : Option Nat × FileId => Str

namespace NamespacePrefixCache

/-- `SymbolFormatter::getSymbolCached` for a declaration, which may be missing, and a file. -/
def getSymbolCached (cache : NamespacePrefixCache) (key : Option Nat × FileId)
    (getSymbol : NamespacePrefixCache → Option Str × NamespacePrefixCache) :
    Option Str × NamespacePrefixCache :=
  match cache.lookup key with
  | some symbol => (some symbol, cache)
  | none =>
      match getSymbol cache with
      | (none, cache) => (none, cache)
      | (some symbol, cache) => (some symbol, cache.insert key symbol)

/-- The file id of a location; an invalid location has the invalid file id. -/
def getFileID (loc : Option FileId) : FileId := loc.getD ⟨0⟩

section Prefixes

variable (fileMetadataMap : FileMetadataMap) (mainFilePath : Str)

/-- `SymbolFormatter::getLocationBasedSymbolPrefix`; the location is given by its file, if it is
valid. -/
def getLocationBasedSymbolPrefix (cache : NamespacePrefixCache) (loc : Option FileId) :
    Option Str × NamespacePrefixCache :=
  match loc with
  | none => (none, cache)
  | some fileId =>
      cache.getSymbolCached (none, fileId) fun cache =>
        match fileMetadataMap.getFileMetadata fileId with
        | none => (none, cache)
        | some fileMetadata =>
            (some (SymbolBuilder.formatTo ⟨fileMetadata.packageId, []⟩), cache)

/-- `SymbolFormatter::getContextSymbol` for namespaces, the innermost first, inside of the
translation unit.  An anonymous namespace is named after the main file. -/
def getContextSymbol : List NamespaceDecl → NamespacePrefixCache → Option FileId →
    Option Str × NamespacePrefixCache
  | [], cache, loc => cache.getLocationBasedSymbolPrefix fileMetadataMap loc
  | namespaceDecl :: outer, cache, loc =>
      cache.getSymbolCached (some namespaceDecl.canonicalDecl, getFileID loc) fun cache =>
        match getContextSymbol outer cache loc with
        | (none, cache) => (none, cache)
        | (some contextSymbol, cache) =>
            (some (SymbolBuilder.formatContextual contextSymbol
              { name := if namespaceDecl.name = [] then
                  "$anonymous_namespace_".toList ++ mainFilePath else namespaceDecl.name
                suffix := .Namespace }), cache)

/-- The cache after several declarations, each given by its context and its location, were asked
for. -/
def afterDeclarations (declarations : List (List NamespaceDecl × Option FileId)) :
    NamespacePrefixCache :=
  declarations.foldl (fun cache declaration =>
    (getContextSymbol fileMetadataMap mainFilePath declaration.1 cache declaration.2).2) ∅

/-- Only files with metadata are in the cache. -/
def Sound (cache : NamespacePrefixCache) : Prop :=
  ∀ key symbol, cache.lookup key = some symbol → (fileMetadataMap.getFileMetadata key.2).isSome

end Prefixes

variable {fileMetadataMap : FileMetadataMap} {mainFilePath : Str} {cache : NamespacePrefixCache}

theorem sound_empty : Sound fileMetadataMap ∅ := by
  intro key symbol h
  rw [AList.lookup_empty] at h
  cases h

theorem sound_insert (h : cache.Sound fileMetadataMap) {key : Option Nat × FileId} {symbol : Str}
    (hkey : (fileMetadataMap.getFileMetadata key.2).isSome) :
    Sound fileMetadataMap (cache.insert key symbol) := by
  intro other known hlookup
  by_cases heq : other = key
  · rw [heq]
    exact hkey
  · rw [AList.lookup_insert_ne heq] at hlookup
    exact h other known hlookup

/-- A file that gets a symbol has metadata. -/
structure Justified (fileMetadataMap : FileMetadataMap) (fileId : FileId)
    (result : Option Str × NamespacePrefixCache) : Prop where
  sound : result.2.Sound fileMetadataMap
  metadata : result.1.isSome → (fileMetadataMap.getFileMetadata fileId).isSome

theorem justified_none (h : cache.Sound fileMetadataMap) (fileId : FileId) :
    Justified fileMetadataMap fileId (none, cache) := by
  refine ⟨h, fun hsome => ?_⟩
  cases hsome

theorem justified_getSymbolCached (h : cache.Sound fileMetadataMap) (decl : Option Nat)
    (fileId : FileId) {getSymbol : NamespacePrefixCache → Option Str × NamespacePrefixCache}
    (hget : Justified fileMetadataMap fileId (getSymbol cache)) :
    Justified fileMetadataMap fileId (cache.getSymbolCached (decl, fileId) getSymbol) := by
  unfold getSymbolCached
  cases hlookup : cache.lookup (decl, fileId) with
  | some symbol => exact ⟨h, fun _ => h (decl, fileId) symbol hlookup⟩
  | none =>
      rcases hcall : getSymbol cache with ⟨_ | symbol, after⟩
      · exact justified_none (hcall ▸ hget).sound fileId
      · rw [hcall] at hget
        have hmetadata := hget.metadata rfl
        exact ⟨sound_insert hget.sound hmetadata, fun _ => hmetadata⟩

theorem isSome_getSymbolCached {key : Option Nat × FileId}
    {getSymbol : NamespacePrefixCache → Option Str × NamespacePrefixCache}
    (hget : (getSymbol cache).1.isSome) : (cache.getSymbolCached key getSymbol).1.isSome := by
  unfold getSymbolCached
  split
  · rfl
  · rcases hcall : getSymbol cache with ⟨_ | symbol, after⟩
    · rw [hcall] at hget
      cases hget
    · rfl

theorem justified_getLocationBasedSymbolPrefix (h : cache.Sound fileMetadataMap)
    (loc : Option FileId) :
    Justified fileMetadataMap (getFileID loc)
      (cache.getLocationBasedSymbolPrefix fileMetadataMap loc) := by
  cases loc with
  | none => exact justified_none h _
  | some fileId =>
      apply justified_getSymbolCached h none fileId
      split
      · exact justified_none h fileId
      · rename_i hmetadata
        refine ⟨h, fun _ => ?_⟩
        rw [hmetadata]
        rfl

theorem justified_getContextSymbol (namespaces : List NamespaceDecl)
    (h : cache.Sound fileMetadataMap) (loc : Option FileId) :
    Justified fileMetadataMap (getFileID loc)
      (getContextSymbol fileMetadataMap mainFilePath namespaces cache loc) := by
  induction namespaces generalizing cache with
  | nil => exact justified_getLocationBasedSymbolPrefix h loc
  | cons namespaceDecl outer ih =>
      refine justified_getSymbolCached h (some namespaceDecl.canonicalDecl) (getFileID loc) ?_
      have houter := ih h
      rcases hcall : getContextSymbol fileMetadataMap mainFilePath outer cache loc with
        ⟨_ | contextSymbol, after⟩
      · exact justified_none (hcall ▸ houter).sound _
      · rw [hcall] at houter
        exact ⟨houter.sound, fun _ => houter.metadata rfl⟩

theorem isSome_getContextSymbol (namespaces : List NamespaceDecl) {fileId : FileId}
    (h : (fileMetadataMap.getFileMetadata fileId).isSome) :
    (getContextSymbol fileMetadataMap mainFilePath namespaces cache (some fileId)).1.isSome := by
  obtain ⟨fileMetadata, hmetadata⟩ := Option.isSome_iff_exists.mp h
  induction namespaces generalizing cache with
  | nil =>
      apply isSome_getSymbolCached
      rw [hmetadata]
      rfl
  | cons namespaceDecl outer ih =>
      apply isSome_getSymbolCached
      have houter := @ih cache
      rcases hcall : getContextSymbol fileMetadataMap mainFilePath outer cache (some fileId) with
        ⟨_ | contextSymbol, after⟩
      · rw [hcall] at houter
        cases houter
      · rfl

theorem sound_afterDeclarations (declarations : List (List NamespaceDecl × Option FileId)) :
    Sound fileMetadataMap (afterDeclarations fileMetadataMap mainFilePath declarations) := by
  have hloop : ∀ cache : NamespacePrefixCache, cache.Sound fileMetadataMap →
      (declarations.foldl (fun cache declaration => (getContextSymbol fileMetadataMap mainFilePath
        declaration.1 cache declaration.2).2) cache).Sound fileMetadataMap := by
    induction declarations with
    | nil => intro cache h; exact h
    | cons declaration declarations ih =>
        intro cache h
        exact ih _ (justified_getContextSymbol declaration.1 h declaration.2).sound
  exact hloop ∅ sound_empty

/-- **A declaration has a prefix if and only if its file has metadata**, whichever declarations
were asked for before. -/
theorem isSome_getContextSymbol_iff (namespaces : List NamespaceDecl) (fileId : FileId)
    (declarations : List (List NamespaceDecl × Option FileId)) :
    (getContextSymbol fileMetadataMap mainFilePath namespaces
        (afterDeclarations fileMetadataMap mainFilePath declarations) (some fileId)).1.isSome ↔
      (fileMetadataMap.getFileMetadata fileId).isSome :=
  ⟨(justified_getContextSymbol namespaces (sound_afterDeclarations declarations)
    (some fileId)).metadata, isSome_getContextSymbol namespaces⟩

end NamespacePrefixCache

/-! ## When all files have metadata -/

namespace WorkerRun

open NamespacePrefixCache

/-- Every finished file with an absolute path has metadata, and a declaration in it gets a
prefix. -/
def EveryFileHasMetadata (env : PathEnv) (projectRootPath : RootPath) (run : WorkerRun) : Prop :=
  ∀ fileId ∈ run.tu.finishedProcessing, (run.tu.getAbsPath fileId).isSome →
    ((run.fileMetadataMap env projectRootPath).getFileMetadata fileId).isSome ∧
    ∀ mainFilePath declarations namespaces,
      (getContextSymbol (run.fileMetadataMap env projectRootPath) mainFilePath namespaces
        (afterDeclarations (run.fileMetadataMap env projectRootPath) mainFilePath declarations)
        (some fileId)).1.isSome

/-- Of two finished files with the same path and hash, the one that is iterated first is the main
file. -/
def OnlyMainFileReplaced (run : WorkerRun) : Prop :=
  (run.order.iterate .finishedProcessing run.tu.finishedProcessing.entries).Pairwise
    fun entry other => run.tu.SamePathAndHash entry other → entry.1 = run.tu.mainFileId

theorem everyFileHasMetadata_iff_onlyMainFileReplaced (env : PathEnv) (projectRootPath : RootPath)
    (run : WorkerRun) :
    run.EveryFileHasMetadata env projectRootPath ↔ run.OnlyMainFileReplaced := by
  have hperm := run.order.perm .finishedProcessing run.tu.finishedProcessing.entries
  have hnodup := hperm.nodup_iff.mpr (List.NodupKeys.nodup run.tu.finishedProcessing.nodupKeys)
  have hlast := forall_findLast?_eq_iff
    (fun entry other => decide (run.tu.SamePathAndHash entry other))
    (fun entry => entry.1 = run.tu.mainFileId) hnodup
  have hself : ∀ entry, run.tu.SamePathAndHash entry entry ↔
      (run.tu.getAbsPath entry.1).isSome := fun entry =>
    ⟨fun h => h.1, fun h => ⟨h, rfl, rfl⟩⟩
  simp only [decide_eq_true_eq, hperm.mem_iff, hself] at hlast
  have hpairwise : run.OnlyMainFileReplaced ↔ _ :=
    List.Pairwise.iff fun entry other =>
      (⟨fun h _ hsame => h hsame, fun h hsame => h hsame.1 hsame⟩ :
        (run.tu.SamePathAndHash entry other → entry.1 = run.tu.mainFileId) ↔
          ((run.tu.getAbsPath entry.1).isSome → run.tu.SamePathAndHash entry other →
            entry.1 = run.tu.mainFileId))
  rw [hpairwise, ← hlast]
  constructor
  · intro h entry hentry hpath
    have hmem : entry.1 ∈ run.tu.finishedProcessing := List.mem_keys_of_mem hentry
    exact (isSome_getFileMetadata_iff hentry hpath).mp (h entry.1 hmem hpath).1
  · intro h fileId hmem hpath
    obtain ⟨hashValue, hlookup⟩ := Option.isSome_iff_exists.mp (AList.lookup_isSome.mpr hmem)
    have hentry := AList.mem_lookup_iff.mp hlookup
    have hmetadata : ((run.fileMetadataMap env projectRootPath).getFileMetadata fileId).isSome :=
      (isSome_getFileMetadata_iff hentry hpath).mpr (h _ hentry hpath)
    exact ⟨hmetadata, fun mainFilePath declarations namespaces =>
      (isSome_getContextSymbol_iff namespaces fileId declarations).mpr hmetadata⟩

end WorkerRun

/-- No two file ids stand for the same path and hash. -/
def PreprocessorState.OneFileIdPerPair (state : PreprocessorState) : Prop :=
  ∀ entry ∈ state.finishedProcessing.entries, ∀ other ∈ state.finishedProcessing.entries,
    state.SamePathAndHash entry other → entry = other

/-- **When every file has metadata**: in a single run, if only the main file is replaced in the
lookup map by a file with the same path and hash; in every run, whatever the order in which the
finished files are iterated, if there are no such files. -/
theorem everyFileHasMetadata_iff (env : PathEnv) (projectRootPath : RootPath)
    (tu : TranslationUnit) (packageMap : PackageMap) (deterministic : Bool) :
    (∀ order, WorkerRun.EveryFileHasMetadata env projectRootPath
        ⟨tu, packageMap, order, deterministic⟩ ↔
      WorkerRun.OnlyMainFileReplaced ⟨tu, packageMap, order, deterministic⟩) ∧
    ((∀ order, WorkerRun.EveryFileHasMetadata env projectRootPath
        ⟨tu, packageMap, order, deterministic⟩) ↔ tu.OneFileIdPerPair) := by
  have hrun : ∀ order, WorkerRun.EveryFileHasMetadata env projectRootPath
      ⟨tu, packageMap, order, deterministic⟩ ↔ _ := fun order =>
    WorkerRun.everyFileHasMetadata_iff_onlyMainFileReplaced env projectRootPath _
  refine ⟨hrun, ?_⟩
  simp only [hrun]
  constructor
  · -- whichever of the two comes first, it is the main file in one order
    intro h entry hentry other hother hsame
    have hboth := (h .inOrder).and (List.pairwise_reverse.mp (h .reversed))
    have hsymm : Std.Symm fun a b : Σ _ : FileId, HashValue =>
        (tu.SamePathAndHash a b → a.1 = tu.mainFileId) ∧
          (tu.SamePathAndHash b a → b.1 = tu.mainFileId) := ⟨fun a b hab => ⟨hab.2, hab.1⟩⟩
    by_contra hne
    obtain ⟨hfirst, hsecond⟩ := hboth.forall hentry hother hne
    have hid : entry.1 = other.1 := (hfirst hsame).trans (hsecond hsame.symm).symm
    exact hne (tu.finishedProcessing.nodupKeys.eq_of_fst_eq hentry hother hid)
  · intro h order
    have hperm := order.perm .finishedProcessing tu.finishedProcessing.entries
    have hnodup := hperm.nodup_iff.mpr (List.NodupKeys.nodup tu.finishedProcessing.nodupKeys)
    refine hnodup.imp_of_mem fun hentry hother hne hsame => ?_
    exact absurd (h _ (hperm.mem_iff.mp hentry) _ (hperm.mem_iff.mp hother) hsame) hne

/-! ## A header that is included twice -/

/-- The main file, and a header without an include guard that is included twice. -/
def repeatedHeaderRun : WorkerRun where
  tu :=
    { finishedProcessing := ((AList.singleton ⟨1⟩ ⟨7⟩).insert ⟨2⟩ ⟨8⟩).insert ⟨3⟩ ⟨8⟩
      getAbsPath := fun fileId =>
        if fileId = ⟨1⟩ then some ⟨"/p/foo.cc".toList⟩ else some ⟨"/p/foo.h".toList⟩
      mainFileId := ⟨1⟩
      buildRootPath := ⟨⟨"/p/build".toList⟩, .Build⟩
      emitDocumentOccurrencesAndSymbols := fun _ => ([], []) }
  packageMap := { projectRootPath := ⟨⟨"/p".toList⟩, .Project⟩, isTesting := false }
  order := .inOrder
  deterministic := false

/-- The lookup map keeps the other file id of the header. -/
theorem header_without_metadata :
    ¬ repeatedHeaderRun.EveryFileHasMetadata posixEnv ⟨⟨"/p".toList⟩, .Project⟩ := by
  intro h
  have hmetadata := (h ⟨3⟩ (by decide) rfl).1
  revert hmetadata
  decide

end ScipClang
