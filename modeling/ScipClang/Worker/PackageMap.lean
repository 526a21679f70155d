import ScipClang.Path
import ScipClang.Library.HashTables

/-!
# The package map

`PackageMap` (`indexer/PackageMap.cc`) says which package a file belongs to: the one
whose root directory is the nearest directory above the file.  A lookup stores what it
found for the directories it passed, so the map grows while it is used.

What LLVM and the file system answer is a parameter, `PathEnv`; the only thing that is
needed of it here is that `parent_path` removes the last component (`ParentPathSpec`).

`PackageMap.Valid` is kept by `populate` and by lookups: every entry holds a package whose
root is at or above the key.
-/

namespace ScipClang

open HashTables

/-- The functions of LLVM on paths, and the file system. -/
structure PathEnv where
  /-- `llvm::sys::path::parent_path`. -/
  parentPath : Str → Str
  /-- The components that `llvm::sys::path::begin` and `end` iterate over. -/
  components : Str → List Str
  /-- `llvm::sys::path::remove_dots`. -/
  removeDots : Str → Str
  /-- `llvm::sys::fs::real_path`; `none` is an error. -/
  realPath : Str → Option Str
  /-- `llvm::sys::fs::is_directory`. -/
  isDirectory : Str → Bool
  /-- `HashValue::forText`, formatted. -/
  hashForText : Str → Str

/-- `llvm::sys::path::parent_path` removes the last component; the root directory has no
parent. -/
structure ParentPathSpec (env : PathEnv) : Prop where
  root : env.parentPath [separator] = []
  child : ∀ {dir name : Str}, NormalPath dir → name ≠ [] → separator ∉ name →
    env.parentPath (joinPath dir name) = dir

/-- `AbsolutePathRef::isNormalized` on POSIX. -/
def isNormalized (env : PathEnv) (path : Str) : Bool :=
  (env.components path).all (fun component => component != ['.'] && component != ['.', '.']) &&
    !decide ([separator, separator] <:+: path)

/-- The paths from `prefixesBegin()` to `prefixesEnd()`: the path itself and the directories
above it.  The first argument bounds their number. -/
def prefixes (env : PathEnv) : Nat → Str → List Str
  | 0, _ => []
  | fuel + 1, path =>
      if isAbsolute path then path :: prefixes env fuel (env.parentPath path) else []

/-- `PackageId`. -/
@[ext]
structure PackageId where
  name : Str
  version : Str
deriving DecidableEq

/-- `PackageMetadata`. -/
structure PackageMetadata where
  id : PackageId
  rootPath : Str
  isMainPackage : Bool
deriving DecidableEq

/-- `PackageMapEntry`: an entry of the package map file. -/
structure PackageMapEntry where
  rootPath : Str
  package : Str
deriving DecidableEq

/-- `PackageMap`. -/
structure PackageMap where
  map : AList (fun _ : Str => PackageMetadata) := ∅
  projectRootPath : RootPath
  isTesting : Bool

/-- `checkValid`. -/
def checkValid (s : Str) : Bool :=
  s.all fun c => ('a' ≤ c && c ≤ 'z') || ('A' ≤ c && c ≤ 'Z') || ('0' ≤ c && c ≤ '9') ||
    c == '.' || c == '_' || c == '-'

namespace PackageMap

/-- The package name and version of an entry, if it has the form `name@version`. -/
def parsePackage (package : Str) : Option PackageId :=
  match package.splitOn '@' with
  | [name, version] =>
      if name ≠ [] ∧ version ≠ [] ∧ checkValid name ∧ checkValid version then
        some ⟨name, version⟩
      else none
  | _ => none

/-- The directory of an entry: its real path, without a separator at the end. -/
def entryRoot (env : PathEnv) (entry : PackageMapEntry) : Option Str :=
  match env.realPath entry.rootPath with
  | none => none
  | some buf =>
      if env.isDirectory buf then
        some (if buf.getLast? = some separator then buf.dropLast else buf)
      else none

/-- The loop body of `PackageMap::populate`; entries that cannot be used are skipped. -/
def populateEntry (env : PathEnv) (packageMap : PackageMap) (entry : PackageMapEntry) :
    Option PackageMap :=
  match entryRoot env entry, parsePackage entry.package with
  | some rootPath, some id =>
      -- `AbsolutePathRef::tryFrom(pathKey).value()` throws for the root directory, which
      -- has become the empty path
      if isAbsolute rootPath then
        let isMainPackage := rootPath = packageMap.projectRootPath.value.value
        some
          { packageMap with
            map := upsert packageMap.map rootPath (·.getD ⟨id, rootPath, isMainPackage⟩) }
      else none
  | _, _ => some packageMap

/-- `PackageMap::populate`; `none` is an exit with an error. -/
def populate (env : PathEnv) (packageMap : PackageMap) (entries : List PackageMapEntry) :
    Option PackageMap :=
  if entries = [] then none
  else
    match entries.foldlM (populateEntry env) packageMap with
    | none => none
    | some populated =>
        if populated.map.entries.any (·.2.isMainPackage) then some populated else none

/-- The constructor of `PackageMap`, with the entries of the package map file if there is
one. -/
def create (env : PathEnv) (projectRootPath : RootPath) (isTesting : Bool)
    (entries : Option (List PackageMapEntry)) : Option PackageMap :=
  let packageMap : PackageMap := { projectRootPath := projectRootPath, isTesting := isTesting }
  match entries with
  | none => some packageMap
  | some entries => packageMap.populate env entries

/-- `testPackageId`. -/
def testPackageId : PackageId := ⟨"test-pkg".toList, "test-version".toList⟩

/-- The loop of `PackageMap::lookup`: the first path with an entry decides, and the paths
before it get the same entry. -/
def search (map : AList fun _ : Str => PackageMetadata) :
    List Str → List Str → Option PackageMetadata × AList fun _ : Str => PackageMetadata
  | [], _ => (none, map)
  | path :: paths, prefixLookup =>
      match map.lookup path with
      | none => search map paths (prefixLookup ++ [path])
      | some packageInfo =>
          (some packageInfo,
            prefixLookup.foldl (fun map p => upsert map p (·.getD packageInfo)) map)

/-- `PackageMap::lookup`. -/
def lookup (env : PathEnv) (packageMap : PackageMap) (filepath : Str) :
    Option PackageMetadata × PackageMap :=
  if packageMap.map.entries = [] then
    if packageMap.isTesting then (some ⟨testPackageId, [separator], true⟩, packageMap)
    else (none, packageMap)
  else
    match packageMap.map.lookup filepath with
    | some packageInfo => (some packageInfo, packageMap)
    | none =>
        let filepath := if isNormalized env filepath then filepath else env.removeDots filepath
        let (found, map) := search packageMap.map (prefixes env (filepath.length + 1) filepath) []
        (found, { packageMap with map := map })

/-! ## Entries are at or below the root of their package -/

/-- An entry of the map is sound. -/
def EntryValid (projectRoot key : Str) (packageInfo : PackageMetadata) : Prop :=
  IsAtOrBelow packageInfo.rootPath key ∧
    (packageInfo.isMainPackage = true ↔ packageInfo.rootPath = projectRoot)

/-- All entries of a map are sound. -/
def MapValid (projectRoot : Str) (map : AList fun _ : Str => PackageMetadata) : Prop :=
  ∀ key packageInfo, map.lookup key = some packageInfo → EntryValid projectRoot key packageInfo

/-- All entries of the package map are sound. -/
def Valid (packageMap : PackageMap) : Prop :=
  MapValid packageMap.projectRootPath.value.value packageMap.map

theorem mapValid_upsert {projectRoot key : Str} {map : AList fun _ : Str => PackageMetadata}
    (h : MapValid projectRoot map) {packageInfo : PackageMetadata}
    (hnew : EntryValid projectRoot key packageInfo) :
    MapValid projectRoot (upsert map key (·.getD packageInfo)) := by
  intro other found hfound
  rw [lookup_upsert] at hfound
  split at hfound
  · rename_i heq
    subst heq
    obtain rfl := Option.some.inj hfound
    cases hold : map.lookup other with
    | none => exact hnew
    | some old => exact h other old hold
  · exact h other found hfound

theorem mapValid_foldl_upsert {projectRoot : Str} {map : AList fun _ : Str => PackageMetadata}
    (h : MapValid projectRoot map) {packageInfo : PackageMetadata} {keys : List Str}
    (hnew : ∀ key ∈ keys, EntryValid projectRoot key packageInfo) :
    MapValid projectRoot
      (keys.foldl (fun map key => upsert map key (·.getD packageInfo)) map) := by
  induction keys generalizing map with
  | nil => exact h
  | cons key keys ih =>
      exact ih (mapValid_upsert h (hnew key List.mem_cons_self))
        fun other hother => hnew other (List.mem_cons_of_mem _ hother)

theorem populateEntry_spec {env : PathEnv} {packageMap populated : PackageMap}
    {entry : PackageMapEntry} (h : packageMap.Valid)
    (hok : packageMap.populateEntry env entry = some populated) :
    populated.Valid ∧ populated.projectRootPath = packageMap.projectRootPath ∧
      populated.isTesting = packageMap.isTesting := by
  unfold populateEntry at hok
  split at hok
  · split at hok
    · obtain rfl := Option.some.inj hok
      exact ⟨mapValid_upsert h ⟨.inl rfl, by simp⟩, rfl, rfl⟩
    · cases hok
  · obtain rfl := Option.some.inj hok
    exact ⟨h, rfl, rfl⟩

theorem foldlM_populateEntry_spec {env : PathEnv} (entries : List PackageMapEntry)
    {packageMap populated : PackageMap} (h : packageMap.Valid)
    (hok : entries.foldlM (populateEntry env) packageMap = some populated) :
    populated.Valid ∧ populated.projectRootPath = packageMap.projectRootPath ∧
      populated.isTesting = packageMap.isTesting := by
  induction entries generalizing packageMap with
  | nil =>
      obtain rfl := Option.some.inj hok
      exact ⟨h, rfl, rfl⟩
  | cons entry entries ih =>
      rw [List.foldlM_cons] at hok
      obtain ⟨next, hnext, hrest⟩ := Option.bind_eq_some_iff.mp hok
      obtain ⟨hvalid, hroot, htesting⟩ := populateEntry_spec h hnext
      obtain ⟨hvalid', hroot', htesting'⟩ := ih hvalid hrest
      exact ⟨hvalid', hroot'.trans hroot, htesting'.trans htesting⟩

/-- A new package map is valid. -/
theorem create_spec {env : PathEnv} {projectRootPath : RootPath} {isTesting : Bool}
    {entries : Option (List PackageMapEntry)} {packageMap : PackageMap}
    (h : create env projectRootPath isTesting entries = some packageMap) :
    packageMap.Valid ∧ packageMap.projectRootPath = projectRootPath ∧
      packageMap.isTesting = isTesting := by
  have hempty : Valid { projectRootPath := projectRootPath, isTesting := isTesting } := by
    intro key packageInfo hlookup
    rw [AList.lookup_empty] at hlookup
    cases hlookup
  unfold create at h
  cases entries with
  | none =>
      obtain rfl := Option.some.inj h
      exact ⟨hempty, rfl, rfl⟩
  | some entries =>
      simp only [populate] at h
      split at h
      · cases h
      · split at h
        · cases h
        · rename_i populated hok
          split at h
          · obtain rfl := Option.some.inj h
            exact foldlM_populateEntry_spec entries hempty hok
          · cases h

/-- The directories above a path are listed from the bottom up. -/
theorem pairwise_prefixes {env : PathEnv} (hparent : ParentPathSpec env) {path : Str}
    (hpath : NormalPath path) (fuel : Nat) :
    (prefixes env fuel path).Pairwise (fun lower upper => IsAtOrBelow upper lower) ∧
      ∀ upper ∈ prefixes env fuel path, IsAtOrBelow upper path := by
  induction hpath generalizing fuel with
  | root =>
      cases fuel with
      | zero => exact ⟨List.Pairwise.nil, by simp [prefixes]⟩
      | succ fuel =>
          have hnil : prefixes env fuel [] = [] := by
            cases fuel <;> rfl
          rw [prefixes, if_pos (by decide), hparent.root, hnil]
          refine ⟨List.pairwise_singleton _ _, ?_⟩
          intro upper hupper
          rw [List.mem_singleton] at hupper
          exact .inl hupper.symm
  | @child dir name hdir hne hsep ih =>
      cases fuel with
      | zero => exact ⟨List.Pairwise.nil, by simp [prefixes]⟩
      | succ fuel =>
          obtain ⟨hpairwise, habove⟩ := ih fuel
          rw [prefixes, hparent.child hdir hne hsep]
          have hstep : ∀ upper ∈ prefixes env fuel dir, IsAtOrBelow upper (joinPath dir name) :=
            fun upper hupper => (habove upper hupper).trans (.inr (isBelow_child hne hsep))
          split
          · refine ⟨List.Pairwise.cons hstep hpairwise, ?_⟩
            intro upper hupper
            rcases List.mem_cons.mp hupper with rfl | hupper
            · exact .inl rfl
            · exact hstep upper hupper
          · exact ⟨List.Pairwise.nil, by simp⟩

/-- The loop finds an entry for a directory at or above the path, and keeps the map
sound. -/
theorem search_spec {projectRoot : Str} {map : AList fun _ : Str => PackageMetadata}
    (h : MapValid projectRoot map) (paths prefixLookup : List Str)
    (hpairwise : (prefixLookup ++ paths).Pairwise fun lower upper => IsAtOrBelow upper lower) :
    MapValid projectRoot (search map paths prefixLookup).2 ∧
      ∀ packageInfo, (search map paths prefixLookup).1 = some packageInfo →
        ∃ path ∈ paths, EntryValid projectRoot path packageInfo := by
  induction paths generalizing prefixLookup with
  | nil => exact ⟨h, by simp [search]⟩
  | cons path paths ih =>
      rw [search]
      cases hlookup : map.lookup path with
      | none =>
          obtain ⟨hmap, hfound⟩ := ih (prefixLookup ++ [path]) (by simpa using hpairwise)
          refine ⟨hmap, fun packageInfo hinfo => ?_⟩
          obtain ⟨upper, hupper, hvalid⟩ := hfound packageInfo hinfo
          exact ⟨upper, List.mem_cons_of_mem _ hupper, hvalid⟩
      | some packageInfo =>
          have hvalid := h path packageInfo hlookup
          have hcached : ∀ p ∈ prefixLookup, EntryValid projectRoot p packageInfo := by
            intro p hp
            have habove := (List.pairwise_append.mp hpairwise).2.2 p hp path List.mem_cons_self
            exact ⟨hvalid.1.trans habove, hvalid.2⟩
          refine ⟨mapValid_foldl_upsert h hcached, ?_⟩
          intro found hfound
          obtain rfl := Option.some.inj hfound
          exact ⟨path, List.mem_cons_self, hvalid⟩

/-- **A package that is found is that of a directory at or above the file**, and lookups
keep the package map valid. -/
theorem lookup_spec {env : PathEnv} (hparent : ParentPathSpec env) {packageMap : PackageMap}
    (h : packageMap.Valid) (htesting : packageMap.isTesting = false) {filepath : Str}
    (hpath : NormalPath filepath) (hnormalized : isNormalized env filepath = true) :
    (packageMap.lookup env filepath).2.Valid ∧
      (packageMap.lookup env filepath).2.projectRootPath = packageMap.projectRootPath ∧
      (packageMap.lookup env filepath).2.isTesting = packageMap.isTesting ∧
      ∀ packageInfo, (packageMap.lookup env filepath).1 = some packageInfo →
        EntryValid packageMap.projectRootPath.value.value filepath packageInfo := by
  unfold lookup
  rw [htesting, hnormalized]
  by_cases hempty : packageMap.map.entries = []
  · simp only [hempty, if_true]
    exact ⟨h, rfl, htesting, by simp⟩
  · simp only [hempty, if_false, if_true]
    cases hlookup : packageMap.map.lookup filepath with
    | some found =>
        refine ⟨h, rfl, htesting, ?_⟩
        intro packageInfo hinfo
        obtain rfl := Option.some.inj hinfo
        exact h filepath found hlookup
    | none =>
        obtain ⟨hpairwise, habove⟩ := pairwise_prefixes hparent hpath (filepath.length + 1)
        obtain ⟨hmap, hfound⟩ := search_spec h (prefixes env (filepath.length + 1) filepath) []
          (by simpa using hpairwise)
        refine ⟨hmap, rfl, rfl, ?_⟩
        intro packageInfo hinfo
        obtain ⟨upper, hupper, hvalid⟩ := hfound packageInfo hinfo
        exact ⟨hvalid.1.trans (habove upper hupper), hvalid.2⟩

end PackageMap

/-! ## A file system -/

/-- The parent of a path on POSIX, for paths without empty components. -/
def posixParentPath (path : Str) : Str :=
  let dir := (path.reverse.dropWhile (· != separator)).reverse
  if dir = [separator] then (if path = [separator] then [] else [separator]) else dir.dropLast

/-- A file system with the file `/p/foo.cc`. -/
def posixEnv : PathEnv where
  parentPath := posixParentPath
  components := List.splitOn separator
  removeDots := id
  realPath := fun path => if path = "/p/foo.cc".toList then some path else none
  isDirectory := fun path =>
    path = [separator] || path = "/p".toList || path = "/p/build".toList
  hashForText := id

theorem NormalPath.eq_root_or {path : Str} (h : NormalPath path) :
    path = [separator] ∨ path ≠ [] ∧ path.getLast? ≠ some separator := by
  cases h with
  | root => exact .inl rfl
  | @child dir name _ hne hsep =>
      refine .inr ⟨joinPath_ne_nil dir hne, ?_⟩
      rw [getLast?_joinPath dir hne]
      intro hlast
      exact hsep (List.mem_of_getLast? hlast)

theorem dropWhile_separator_append (dir : Str) {name : Str} (hsep : separator ∉ name) :
    ((dir ++ separator :: name).reverse.dropWhile (· != separator)).reverse =
      dir ++ [separator] := by
  have hdrop : ∀ c ∈ name.reverse, (c != separator) = true := by
    intro c hc
    rw [bne_iff_ne]
    rintro rfl
    exact hsep (List.mem_reverse.mp hc)
  rw [List.reverse_append, List.reverse_cons, List.append_assoc,
    List.dropWhile_append_of_pos hdrop]
  simp

/-- The parent of a path ends before the last separator. -/
theorem posixParentPath_append {dir name : Str} (hdir : dir ≠ []) (hsep : separator ∉ name) :
    posixParentPath (dir ++ separator :: name) = dir := by
  have hnotroot : dir ++ [separator] ≠ [separator] := by
    simpa using hdir
  unfold posixParentPath
  rw [dropWhile_separator_append dir hsep]
  simp [hdir]

theorem parentPathSpec_posixEnv : ParentPathSpec posixEnv where
  root := by decide
  child := by
    intro dir name hdir hne hsep
    show posixParentPath (joinPath dir name) = dir
    rcases hdir.eq_root_or with rfl | ⟨hdirne, hlast⟩
    · have hroot : separator :: name ≠ [separator] := by
        simpa using hne
      rw [show joinPath [separator] name = [] ++ separator :: name from rfl]
      unfold posixParentPath
      rw [dropWhile_separator_append [] hsep]
      simp [hroot]
    · rw [joinPath, if_neg hlast]
      exact posixParentPath_append hdirne hsep

end ScipClang
