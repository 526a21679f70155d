import ScipClang.PathComponents
import ScipClang.Worker.PackageMap

/-!
# Package lookups

A lookup walks up from the path and takes the first entry on its way, so that the longest match
decides (`docs/CrossRepo.md`).  What it finds is stored for the directories that it passed: the
map that was populated becomes a cache of itself, `Remembers`, and further lookups are not
affected (`lookups_longestMatch`).
-/

namespace ScipClang

open HashTables

/-- The walk up from a path visits the directories above it. -/
theorem prefixes_ofComponents {env : PathEnv} (hparent : ParentPathSpec env)
    (names : List Component) {fuel : Nat} (hfuel : names.length < fuel) :
    prefixes env fuel (ofComponents names) = (prefixesDown names).map ofComponents := by
  induction names using List.reverseRecOn generalizing fuel with
  | nil =>
      obtain ⟨fuel, rfl⟩ := Nat.exists_eq_succ_of_ne_zero (Nat.ne_of_gt hfuel)
      have hnil : prefixes env fuel [] = [] := by
        cases fuel <;> rfl
      rw [prefixes, isAbsolute_ofComponents, if_pos rfl, ofComponents_nil, hparent.root, hnil]
      rfl
  | append_singleton names name ih =>
      obtain ⟨fuel, rfl⟩ := Nat.exists_eq_succ_of_ne_zero (Nat.ne_of_gt
        (Nat.lt_of_le_of_lt (Nat.zero_le _) hfuel))
      have hdir : env.parentPath (ofComponents (names ++ [name])) = ofComponents names := by
        rw [ofComponents_concat]
        exact hparent.child (normalPath_ofComponents names) name.ne_nil name.notMem
      rw [List.length_append, List.length_singleton] at hfuel
      rw [prefixes, isAbsolute_ofComponents, if_pos rfl, hdir, ih (by omega),
        prefixesDown_concat, List.map_cons]

namespace PackageMap

/-- The entry for a directory. -/
def entryAt (map : AList fun _ : Str => PackageMetadata) (dir : List Component) :
    Option PackageMetadata :=
  map.lookup (ofComponents dir)

/-- The results of lookups, one after the other, and the package map after them. -/
def lookups (env : PathEnv) (packageMap : PackageMap) :
    List Str → List (Option PackageMetadata) × PackageMap
  | [] => ([], packageMap)
  | filepath :: filepaths =>
      let (found, packageMap) := packageMap.lookup env filepath
      let (others, packageMap) := packageMap.lookups env filepaths
      (found :: others, packageMap)

/-! ## One lookup -/

theorem search_eq (map : AList fun _ : Str => PackageMetadata) (paths prefixLookup : List Str) :
    search map paths prefixLookup =
      match paths.findSome? map.lookup with
      | none => (none, map)
      | some packageInfo =>
          (some packageInfo,
            (prefixLookup ++ paths.takeWhile fun path => (map.lookup path).isNone).foldl
              (fun map p => upsert map p (·.getD packageInfo)) map) := by
  induction paths generalizing prefixLookup with
  | nil => rfl
  | cons path paths ih =>
      rw [search, List.findSome?_cons]
      cases hlookup : map.lookup path with
      | none =>
          rw [ih, List.takeWhile_cons_of_pos (by rw [hlookup]; rfl), List.append_assoc,
            List.singleton_append]
      | some packageInfo =>
          rw [List.takeWhile_cons_of_neg (by simp [hlookup]), List.append_nil]

/-- The walk finds the entry of the longest match, and the map stays a cache. -/
theorem search_ofComponents {f : List Component → Option PackageMetadata}
    {map : AList fun _ : Str => PackageMetadata} (h : IsCache f (entryAt map))
    (names : List Component) :
    (search map ((prefixesDown names).map ofComponents) []).1 = longestPrefix f names ∧
      IsCache f (entryAt (search map ((prefixesDown names).map ofComponents) []).2) := by
  have hfind : ((prefixesDown names).map ofComponents).findSome? map.lookup =
      longestPrefix (entryAt map) names := by
    rw [List.findSome?_map]
    rfl
  rw [search_eq, hfind]
  cases hfound : longestPrefix (entryAt map) names with
  | none => exact ⟨by rw [← h.longestPrefix_eq, hfound], h⟩
  | some packageInfo =>
      refine ⟨by rw [← h.longestPrefix_eq, hfound], h.extend fun dir => ?_⟩
      rw [entryAt, lookup_foldl_upsert_getD, List.nil_append, List.takeWhile_map]
      cases hdir : map.lookup (ofComponents dir) with
      | some old => exact .inl hdir.symm
      | none =>
          rw [Option.none_or]
          split
          · rename_i hmem
            obtain ⟨passed, hpassed, heq⟩ := List.mem_map.mp hmem
            obtain rfl := ofComponents_injective heq
            have hsame : longestPrefix (entryAt map) passed = longestPrefix (entryAt map) names :=
              longestPrefix_of_mem_takeWhile hpassed
            exact .inr ⟨hdir, by rw [hsame, hfound]⟩
          · exact .inl hdir.symm

/-- Entries are kept, and only directories on the way can get a new one. -/
theorem lookup_search (map : AList fun _ : Str => PackageMetadata) (paths : List Str)
    (key : Str) :
    (∀ packageInfo, map.lookup key = some packageInfo →
      (search map paths []).2.lookup key = some packageInfo) ∧
    (((search map paths []).2.lookup key).isSome → (map.lookup key).isSome ∨ key ∈ paths) := by
  rw [search_eq]
  split
  · exact ⟨fun _ hkey => hkey, Or.inl⟩
  · rw [lookup_foldl_upsert_getD, List.nil_append]
    cases hkey : map.lookup key with
    | some old => exact ⟨fun _ hold => hold, fun _ => .inl rfl⟩
    | none =>
        refine ⟨fun _ hnone => (by cases hnone), fun hsome => .inr ?_⟩
        rw [Option.none_or] at hsome
        split at hsome
        · rename_i hmem
          exact (List.takeWhile_sublist _).mem hmem
        · cases hsome

/-- New entries are those of directories on the walk up from the path. -/
theorem isSome_lookup_lookup {env : PathEnv} {packageMap : PackageMap} {filepath key : Str}
    (h : ((packageMap.lookup env filepath).2.map.lookup key).isSome) :
    (packageMap.map.lookup key).isSome ∨
      key ∈ prefixes env
        ((if isNormalized env filepath then filepath else env.removeDots filepath).length + 1)
        (if isNormalized env filepath then filepath else env.removeDots filepath) := by
  unfold lookup at h
  split at h
  · split at h <;> exact .inl h
  · split at h
    · exact .inl h
    · exact (lookup_search _ _ key).2 h

/-- The package map after some lookups in the map `populated`: it remembers the packages that
were found, and nothing else. -/
structure Remembers (populated packageMap : PackageMap) : Prop where
  keeps : ∀ key packageInfo, populated.map.lookup key = some packageInfo →
    packageMap.map.lookup key = some packageInfo
  sound : ∀ dir packageInfo, entryAt packageMap.map dir = some packageInfo →
    longestPrefix (entryAt populated.map) dir = some packageInfo
  projectRootPath : packageMap.projectRootPath = populated.projectRootPath
  isTesting : packageMap.isTesting = populated.isTesting

theorem entries_eq_nil_iff {map : AList fun _ : Str => PackageMetadata} :
    map.entries = [] ↔ ∀ key, map.lookup key = none := by
  constructor
  · intro hnil key
    have hempty : map = ∅ := AList.ext hnil
    rw [hempty, AList.lookup_empty]
  · intro hnone
    rw [List.eq_nil_iff_forall_not_mem]
    rintro ⟨key, packageInfo⟩ hmem
    have hlookup := AList.mem_lookup_iff.mpr hmem
    rw [hnone key] at hlookup
    cases hlookup

namespace Remembers

variable {env : PathEnv} {populated packageMap : PackageMap}

theorem refl (populated : PackageMap) : Remembers populated populated where
  keeps _ _ h := h
  sound _ _ h := longestPrefix_of_eq_some h
  projectRootPath := rfl
  isTesting := rfl

theorem isCache (h : Remembers populated packageMap) :
    IsCache (entryAt populated.map) (entryAt packageMap.map) where
  keeps dir := h.keeps (ofComponents dir)
  sound := h.sound

theorem entries_ne_nil (h : Remembers populated packageMap)
    (hne : populated.map.entries ≠ []) : packageMap.map.entries ≠ [] := by
  intro hnil
  refine hne (entries_eq_nil_iff.mpr fun key => ?_)
  cases hkey : populated.map.lookup key with
  | none => rfl
  | some packageInfo =>
      have hkept := h.keeps key packageInfo hkey
      rw [entries_eq_nil_iff.mp hnil key] at hkept
      cases hkept

/-- A lookup that walks up from the directory `names`. -/
theorem lookup (h : Remembers populated packageMap) (hparent : ParentPathSpec env)
    (hne : populated.map.entries ≠ []) {filepath : Str} {names : List Component}
    (hwalk : (if isNormalized env filepath then filepath else env.removeDots filepath) =
      ofComponents names)
    (hdirect : (packageMap.map.lookup filepath).isSome → filepath = ofComponents names) :
    (packageMap.lookup env filepath).1 = longestPrefix (entryAt populated.map) names ∧
      Remembers populated (packageMap.lookup env filepath).2 := by
  unfold PackageMap.lookup
  rw [if_neg (h.entries_ne_nil hne)]
  cases hlookup : packageMap.map.lookup filepath with
  | some packageInfo =>
      rw [hdirect (by rw [hlookup]; rfl)] at hlookup
      exact ⟨(h.sound names packageInfo hlookup).symm, h⟩
  | none =>
      have hprefixes := prefixes_ofComponents hparent names
        (Nat.lt_succ_of_le (length_le_ofComponents names))
      obtain ⟨hfound, hcache⟩ := search_ofComponents h.isCache names
      simp only [hwalk, hprefixes]
      refine ⟨hfound, ?_, hcache.sound, h.projectRootPath, h.isTesting⟩
      intro key packageInfo hkey
      exact (lookup_search _ _ key).1 packageInfo (h.keeps key packageInfo hkey)

/-- A lookup that finds nothing on its way. -/
theorem lookup_none (h : Remembers populated packageMap) (hne : populated.map.entries ≠ [])
    {filepath : Str} (hdirect : packageMap.map.lookup filepath = none)
    (hwalk : ∀ path, path ∈ prefixes env
        ((if isNormalized env filepath then filepath else env.removeDots filepath).length + 1)
        (if isNormalized env filepath then filepath else env.removeDots filepath) →
      packageMap.map.lookup path = none) :
    packageMap.lookup env filepath = (none, packageMap) := by
  unfold PackageMap.lookup
  rw [if_neg (h.entries_ne_nil hne), hdirect]
  simp only [search_eq, List.findSome?_eq_none_iff.mpr hwalk]

end Remembers

/-! ## What `populate` puts into the map -/

theorem populateEntry_eq_some {env : PathEnv} {packageMap populated : PackageMap}
    {entry : PackageMapEntry} (h : packageMap.populateEntry env entry = some populated) :
    populated = packageMap ∨ ∃ rootPath packageInfo,
      entryRoot env entry = some rootPath ∧ isAbsolute rootPath = true ∧
      packageInfo.rootPath = rootPath ∧ populated =
        { packageMap with map := upsert packageMap.map rootPath (·.getD packageInfo) } := by
  unfold populateEntry at h
  split at h
  · rename_i rootPath id hroot _
    split at h
    · exact .inr ⟨rootPath, _, hroot, ‹_›, rfl, (Option.some.inj h).symm⟩
    · cases h
  · exact .inl (Option.some.inj h).symm

/-- Every entry of the map is that of a directory of the package map file. -/
def OfEntries (env : PathEnv) (entries : List PackageMapEntry) (packageMap : PackageMap) : Prop :=
  ∀ key packageInfo, packageMap.map.lookup key = some packageInfo →
    packageInfo.rootPath = key ∧ isAbsolute key = true ∧
      ∃ entry ∈ entries, entryRoot env entry = some key

theorem ofEntries_foldlM {env : PathEnv} {entries rest : List PackageMapEntry}
    {packageMap populated : PackageMap} (h : packageMap.OfEntries env entries)
    (hrest : rest ⊆ entries) (hok : rest.foldlM (populateEntry env) packageMap = some populated) :
    populated.OfEntries env entries := by
  induction rest generalizing packageMap with
  | nil =>
      obtain rfl := Option.some.inj hok
      exact h
  | cons entry rest ih =>
      obtain ⟨hentry, hrest⟩ := List.cons_subset.mp hrest
      rw [List.foldlM_cons] at hok
      obtain ⟨next, hnext, hok⟩ := Option.bind_eq_some_iff.mp hok
      refine ih ?_ hrest hok
      rcases populateEntry_eq_some hnext with
        rfl | ⟨rootPath, packageInfo, hroot, habsolute, hinfo, rfl⟩
      · exact h
      · intro key found hfound
        rw [lookup_upsert] at hfound
        split at hfound
        · rename_i heq
          subst heq
          obtain rfl := Option.some.inj hfound
          cases hold : packageMap.map.lookup key with
          | none => exact ⟨hinfo, habsolute, entry, hentry, hroot⟩
          | some old => exact h key old hold
        · exact h key found hfound

theorem ofEntries_populate {env : PathEnv} {projectRootPath : RootPath} {isTesting : Bool}
    {entries : List PackageMapEntry} {packageMap : PackageMap}
    (h : populate env { projectRootPath := projectRootPath, isTesting := isTesting } entries =
      some packageMap) :
    packageMap.OfEntries env entries ∧ packageMap.map.entries ≠ [] := by
  unfold populate at h
  split at h
  · cases h
  · split at h
    · cases h
    · rename_i populated hok
      split at h
      · rename_i hmain
        obtain rfl := Option.some.inj h
        refine ⟨ofEntries_foldlM ?_ (List.Subset.refl entries) hok, ?_⟩
        · intro key packageInfo hlookup
          rw [AList.lookup_empty] at hlookup
          cases hlookup
        · intro hnil
          rw [hnil] at hmain
          cases hmain
      · cases h

/-! ## Longest match -/

/-- What is found is the entry of the longest root among the path and the directories above
it; nothing is found if there is no entry for any of them. -/
def IsLongestMatch (packageMap : PackageMap) (filepath : Str) : Option PackageMetadata → Prop
  | none => ∀ dir, NormalPath dir → IsAtOrBelow dir filepath → packageMap.map.lookup dir = none
  | some packageInfo =>
      NormalPath packageInfo.rootPath ∧ IsAtOrBelow packageInfo.rootPath filepath ∧
        packageMap.map.lookup packageInfo.rootPath = some packageInfo ∧
        ∀ dir, NormalPath dir → IsAtOrBelow dir filepath → (packageMap.map.lookup dir).isSome →
          IsAtOrBelow dir packageInfo.rootPath

theorem isLongestMatch_longestPrefix {packageMap : PackageMap}
    (hrooted : ∀ key packageInfo, packageMap.map.lookup key = some packageInfo →
      packageInfo.rootPath = key) (names : List Component) :
    packageMap.IsLongestMatch (ofComponents names)
      (longestPrefix (entryAt packageMap.map) names) := by
  cases hfound : longestPrefix (entryAt packageMap.map) names with
  | none =>
      intro dir hdir habove
      obtain ⟨dir, rfl⟩ := normalPath_iff.mp hdir
      exact longestPrefix_eq_none.mp hfound dir (isAtOrBelow_ofComponents.mp habove)
  | some packageInfo =>
      obtain ⟨root, habove, hentry, hlongest⟩ := longestPrefix_eq_some.mp hfound
      have hroot := hrooted (ofComponents root) packageInfo hentry
      rw [IsLongestMatch, hroot]
      refine ⟨normalPath_ofComponents root, isAtOrBelow_ofComponents.mpr habove, hentry, ?_⟩
      intro dir hdir hdirabove hsome
      obtain ⟨dir, rfl⟩ := normalPath_iff.mp hdir
      exact isAtOrBelow_ofComponents.mpr
        (hlongest dir (isAtOrBelow_ofComponents.mp hdirabove) hsome)

/-- The paths that are looked up: absolute and normalized, without a separator at the end. -/
def WellFormed (env : PathEnv) (filepath : Str) : Prop :=
  isAbsolute filepath = true ∧ isNormalized env filepath = true ∧
    (filepath = [separator] ∨ filepath.getLast? ≠ some separator)

instance {env : PathEnv} {filepath : Str} : Decidable (WellFormed env filepath) :=
  inferInstanceAs (Decidable (_ ∧ _ ∧ (_ ∨ _)))

theorem WellFormed.normalPath {env : PathEnv} {filepath : Str} (h : WellFormed env filepath) :
    NormalPath filepath := by
  obtain ⟨habsolute, hnormalized, rfl | hlast⟩ := h
  · exact .root
  · rw [isAbsolute, Bool.and_eq_true, beq_iff_eq] at habsolute
    rw [isNormalized, Bool.and_eq_true, Bool.not_eq_true', decide_eq_false_iff_not]
      at hnormalized
    exact normalPath_of_getLast? habsolute.1 hlast hnormalized.2

theorem Remembers.lookup_wellFormed {env : PathEnv} {populated packageMap : PackageMap}
    (h : Remembers populated packageMap) (hparent : ParentPathSpec env)
    (hne : populated.map.entries ≠ []) {filepath : Str} (hpath : WellFormed env filepath) :
    (packageMap.lookup env filepath).1 =
        longestPrefix (entryAt populated.map) (components filepath) ∧
      Remembers populated (packageMap.lookup env filepath).2 := by
  have hjoin := hpath.normalPath.ofComponents_components
  refine h.lookup hparent hne ?_ fun _ => hjoin.symm
  rw [if_pos hpath.2.1, hjoin]

theorem Remembers.lookups_wellFormed {env : PathEnv} {populated packageMap : PackageMap}
    (h : Remembers populated packageMap) (hparent : ParentPathSpec env)
    (hne : populated.map.entries ≠ []) {filepaths : List Str}
    (hpaths : ∀ filepath ∈ filepaths, WellFormed env filepath) :
    (packageMap.lookups env filepaths).1 = filepaths.map fun filepath =>
      longestPrefix (entryAt populated.map) (components filepath) := by
  induction filepaths generalizing packageMap with
  | nil => rfl
  | cons filepath filepaths ih =>
      obtain ⟨hpath, hpaths⟩ := List.forall_mem_cons.mp hpaths
      obtain ⟨hfound, hremembers⟩ := h.lookup_wellFormed hparent hne hpath
      rw [lookups, List.map_cons, ← ih hremembers hpaths, ← hfound]

/-- **The longest match decides, whatever was looked up before.** -/
theorem lookups_longestMatch {env : PathEnv} (hparent : ParentPathSpec env)
    {projectRootPath : RootPath} {entries : List PackageMapEntry} {packageMap : PackageMap}
    (hpopulate : populate env { projectRootPath := projectRootPath, isTesting := false } entries =
      some packageMap)
    {filepaths : List Str} (hpaths : ∀ filepath ∈ filepaths, WellFormed env filepath) :
    (packageMap.lookups env filepaths).1 =
        filepaths.map (fun filepath => (packageMap.lookup env filepath).1) ∧
      List.Forall₂ packageMap.IsLongestMatch filepaths (packageMap.lookups env filepaths).1 := by
  obtain ⟨hentries, hne⟩ := ofEntries_populate hpopulate
  have hresults := (Remembers.refl packageMap).lookups_wellFormed hparent hne hpaths
  rw [hresults]
  constructor
  · refine List.map_congr_left fun filepath hmem => ?_
    exact ((Remembers.refl packageMap).lookup_wellFormed hparent hne (hpaths filepath hmem)).1.symm
  · rw [List.forall₂_map_right_iff]
    refine List.forall₂_same.mpr fun filepath hmem => ?_
    have hmatch := isLongestMatch_longestPrefix (fun key info hkey => (hentries key info hkey).1)
      (components filepath)
    rwa [(hpaths filepath hmem).normalPath.ofComponents_components] at hmatch

end PackageMap

/-! ## A project with a package inside -/

/-- A file system with the directories `/p` and `/p/ext`.  The functions on paths are given by
the components. -/
def packageEnv : PathEnv where
  parentPath := posixParentPath
  components := fun path =>
    [separator] :: (components path).map Segment.val ++
      if path.getLast? = some separator ∧ components path ≠ [] then [['.']] else []
  removeDots := fun path =>
    if hasRootName path then path
    else ofComponents ((components path).filter fun name => name ≠ dot)
  realPath := fun path =>
    if path = "/p".toList ∨ path = "/p/ext".toList then some path else none
  isDirectory := fun path => path = "/p".toList ∨ path = "/p/ext".toList
  hashForText := id

theorem parentPathSpec_packageEnv : ParentPathSpec packageEnv where
  root := parentPathSpec_posixEnv.root
  child := parentPathSpec_posixEnv.child

/-- The package map file of the project. -/
def packageEntries : List PackageMapEntry :=
  [⟨"/p".toList, "main@v1".toList⟩, ⟨"/p/ext".toList, "ext@v2".toList⟩]

/-- The main package of the project. -/
def mainPackage : PackageMetadata := ⟨⟨"main".toList, "v1".toList⟩, "/p".toList, true⟩

/-- The package inside. -/
def extPackage : PackageMetadata := ⟨⟨"ext".toList, "v2".toList⟩, "/p/ext".toList, false⟩

/-- The package map of the project. -/
def packages : PackageMap :=
  { map := upsert (upsert ∅ "/p".toList (·.getD mainPackage)) "/p/ext".toList (·.getD extPackage)
    projectRootPath := ⟨⟨"/p".toList⟩, .Project⟩
    isTesting := false }

theorem populate_packages : PackageMap.populate packageEnv
    { projectRootPath := ⟨⟨"/p".toList⟩, .Project⟩, isTesting := false } packageEntries =
      some packages := by
  rfl

/-- Files of both packages, the second found through what the first lookup stored. -/
def packageFiles : List Str :=
  ["/p/ext/a/x.h".toList, "/p/ext/a".toList, "/p/foo.cc".toList, "/q/x.h".toList]

theorem lookups_longestMatch_packages :
    (packages.lookups packageEnv packageFiles).1 =
        [some extPackage, some extPackage, some mainPackage, none] ∧
      List.Forall₂ packages.IsLongestMatch packageFiles
        (packages.lookups packageEnv packageFiles).1 :=
  ⟨by decide +kernel, (PackageMap.lookups_longestMatch parentPathSpec_packageEnv
    populate_packages (by decide +kernel)).2⟩

end ScipClang
