import ScipClang.Worker.PackageLookup

/-!
# Lookups of paths that are not normalized

A path that is not normalized is rewritten before the walk (`AbsolutePathRef::normalize`).  The
rewriting removes the components `.` and collapses separators, but it keeps the components `..`,
for which `isNormalized` looks as well, and it keeps a root name such as `//net`.

The walk then passes the directories before the first `..`; what comes later on its way is never
the root of a package.  So the lookup finds the package of the lexical normal form if and only if
no package root is entered or left by the components `..` (`lookup_lexicalNormalForm_iff`).
-/

namespace ScipClang

open HashTables

/-- The functions of LLVM on absolute paths, and what `real_path` returns. -/
structure PathSpec (env : PathEnv) : Prop extends ParentPathSpec env where
  /-- The components are the root directory and the names; a separator at the end counts as
  the component `.`. -/
  components_eq : ∀ path, isAbsolute path = true → hasRootName path = false →
    env.components path = [separator] :: (components path).map Segment.val ++
      if path.getLast? = some separator ∧ components path ≠ [] then [['.']] else []
  /-- By default `remove_dots` keeps the components `..`. -/
  removeDots_eq : ∀ path, isAbsolute path = true → hasRootName path = false →
    env.removeDots path = ofComponents ((components path).filter fun name => name ≠ dot)
  /-- A root name is kept. -/
  removeDots_rootName : ∀ path, isAbsolute path = true → hasRootName path = true →
    hasRootName (env.removeDots path) = true
  /-- A root name is kept. -/
  parentPath_rootName : ∀ path, isAbsolute path = true → hasRootName path = true →
    hasRootName (env.parentPath path) = true
  /-- Real paths have no components `.` and `..`, and no repeated separators. -/
  realPath : ∀ path realPath, env.realPath path = some realPath →
    NormalPath realPath ∧ dot ∉ components realPath ∧
      dotDot ∉ components realPath

/-- The directory where the walk up from a path begins, unless the path has a root name. -/
def walkedFrom (path : Str) : List Component := (components path).filter fun name => name ≠ dot

theorem dot_notMem_walkedFrom (path : Str) : dot ∉ walkedFrom path := by
  simp [walkedFrom]

theorem head?_of_isAbsolute {path : Str} (h : isAbsolute path = true) :
    path.head? = some separator := by
  rw [isAbsolute, Bool.and_eq_true, beq_iff_eq] at h
  exact h.1

theorem double_infix_of_hasRootName {path : Str} (h : hasRootName path = true) :
    [separator, separator] <:+: path := by
  unfold hasRootName at h
  split at h
  · rename_i first second third rest
    rw [Bool.and_eq_true, Bool.and_eq_true, beq_iff_eq, beq_iff_eq] at h
    rw [h.1.1, h.1.2]
    exact ⟨[], third :: rest, rfl⟩
  · cases h

theorem isNormalized_of_hasRootName (env : PathEnv) {path : Str} (h : hasRootName path = true) :
    isNormalized env path = false := by
  simp [isNormalized, double_infix_of_hasRootName h]

namespace PathSpec

variable {env : PathEnv} (hspec : PathSpec env)

include hspec

/-- What the predicate accepts is a normal path without the components `.` and `..`. -/
theorem of_isNormalized {path : Str} (habsolute : isAbsolute path = true)
    (hname : hasRootName path = false) (hnormalized : isNormalized env path = true) :
    NormalPath path ∧ dot ∉ components path ∧
      dotDot ∉ components path := by
  rw [isNormalized, Bool.and_eq_true, Bool.not_eq_true', decide_eq_false_iff_not,
    hspec.components_eq path habsolute hname, List.all_eq_true] at hnormalized
  obtain ⟨hcomponents, hdouble⟩ := hnormalized
  have hnames : ∀ name ∈ components path, name ≠ dot ∧ name ≠ dotDot := by
    intro name hmem
    have hname := hcomponents name.val (List.mem_append_left _
      (List.mem_cons_of_mem _ (List.mem_map_of_mem hmem)))
    rw [Bool.and_eq_true, bne_iff_ne, bne_iff_ne] at hname
    constructor
    · rintro rfl
      exact hname.1 rfl
    · rintro rfl
      exact hname.2 rfl
  refine ⟨?_, fun hmem => (hnames dot hmem).1 rfl, fun hmem => (hnames dotDot hmem).2 rfl⟩
  rcases normalPath_or_getLast? (head?_of_isAbsolute habsolute) hdouble with hnormal | htrailing
  · exact hnormal
  · rw [if_pos htrailing] at hcomponents
    exact absurd (hcomponents ['.'] (by simp)) (by decide)

/-- Normalized or not, the walk begins at the path without the components `.`. -/
theorem normalize_eq {path : Str} (habsolute : isAbsolute path = true)
    (hname : hasRootName path = false) :
    (if isNormalized env path then path else env.removeDots path) =
      ofComponents (walkedFrom path) := by
  split
  · rename_i hnormalized
    obtain ⟨hnormal, hdot, -⟩ := hspec.of_isNormalized habsolute hname hnormalized
    have hwalked : walkedFrom path = components path := by
      refine List.filter_eq_self.mpr fun name hmem => ?_
      rw [decide_eq_true_iff]
      rintro rfl
      exact hdot hmem
    rw [hwalked, hnormal.ofComponents_components]
  · exact hspec.removeDots_eq path habsolute hname

/-- The walk up from a path with a root name never leaves it. -/
theorem hasRootName_of_mem_prefixes (fuel : Nat) {path upper : Str}
    (hname : hasRootName path = true) (h : upper ∈ prefixes env fuel path) :
    hasRootName upper = true := by
  induction fuel generalizing path with
  | zero => cases h
  | succ fuel ih =>
      rw [prefixes] at h
      split at h
      · rename_i habsolute
        rcases List.mem_cons.mp h with rfl | h
        · exact hname
        · exact ih (hspec.parentPath_rootName path habsolute hname) h
      · cases h

end PathSpec

namespace PackageMap

/-- The package map after any lookups: the keys are normal paths without the component `.`. -/
structure LookedUp (populated packageMap : PackageMap) : Prop
    extends Remembers populated packageMap where
  keysNormal : ∀ key, (packageMap.map.lookup key).isSome → ∃ dir, key = ofComponents dir ∧ dot ∉ dir

/-- The package of the longest root at or above the directory where the walk begins. -/
def nearestPackage (populated : PackageMap) (path : Str) : Option PackageMetadata :=
  if hasRootName path then none else longestPrefix (entryAt populated.map) (walkedFrom path)

namespace LookedUp

variable {env : PathEnv} {populated packageMap : PackageMap}

theorem lookup_of_hasRootName (h : LookedUp populated packageMap) {path : Str}
    (hname : hasRootName path = true) : packageMap.map.lookup path = none := by
  rw [← Option.not_isSome_iff_eq_none]
  intro hsome
  obtain ⟨dir, rfl, -⟩ := h.keysNormal path hsome
  rw [hasRootName_ofComponents] at hname
  cases hname

/-- A lookup finds the nearest package, whatever was looked up before. -/
theorem lookup (h : LookedUp populated packageMap) (hspec : PathSpec env)
    (hne : populated.map.entries ≠ []) {path : Str} (habsolute : isAbsolute path = true) :
    (packageMap.lookup env path).1 = populated.nearestPackage path ∧
      LookedUp populated (packageMap.lookup env path).2 := by
  cases hname : hasRootName path with
  | true =>
      have hnone : packageMap.lookup env path = (none, packageMap) := by
        refine h.lookup_none hne (h.lookup_of_hasRootName hname) fun upper hupper => ?_
        rw [isNormalized_of_hasRootName env hname] at hupper
        exact h.lookup_of_hasRootName (hspec.hasRootName_of_mem_prefixes _
          (hspec.removeDots_rootName path habsolute hname) hupper)
      rw [hnone, nearestPackage, if_pos hname]
      exact ⟨rfl, h⟩
  | false =>
      have hwalk := hspec.normalize_eq habsolute hname
      have hdirect : (packageMap.map.lookup path).isSome →
          path = ofComponents (walkedFrom path) := by
        intro hsome
        obtain ⟨dir, rfl, hdot⟩ := h.keysNormal path hsome
        rw [walkedFrom, components_ofComponents, List.filter_eq_self.mpr]
        intro name hmem
        rw [decide_eq_true_iff]
        rintro rfl
        exact hdot hmem
      obtain ⟨hfound, hremembers⟩ :=
        h.toRemembers.lookup hspec.toParentPathSpec hne hwalk hdirect
      refine ⟨by rw [hfound, nearestPackage, hname]; rfl, hremembers, fun key hkey => ?_⟩
      rcases isSome_lookup_lookup hkey with hold | hnew
      · exact h.keysNormal key hold
      · rw [hwalk, prefixes_ofComponents hspec.toParentPathSpec _
          (Nat.lt_succ_of_le (length_le_ofComponents _))] at hnew
        obtain ⟨dir, hdir, rfl⟩ := List.mem_map.mp hnew
        exact ⟨dir, rfl, fun hdot => dot_notMem_walkedFrom path
          ((mem_prefixesDown.mp hdir).subset hdot)⟩

/-- The results of lookups are determined by the entries that were populated. -/
theorem lookups (h : LookedUp populated packageMap) (hspec : PathSpec env)
    (hne : populated.map.entries ≠ []) {paths : List Str}
    (hpaths : ∀ path ∈ paths, isAbsolute path = true) :
    (packageMap.lookups env paths).1 = paths.map populated.nearestPackage ∧
      LookedUp populated (packageMap.lookups env paths).2 := by
  induction paths generalizing packageMap with
  | nil => exact ⟨rfl, h⟩
  | cons path paths ih =>
      obtain ⟨hpath, hpaths⟩ := List.forall_mem_cons.mp hpaths
      obtain ⟨hfound, hlooked⟩ := h.lookup hspec hne hpath
      obtain ⟨hothers, hlast⟩ := ih hlooked hpaths
      rw [PackageMap.lookups]
      exact ⟨by rw [List.map_cons, ← hothers, ← hfound], hlast⟩

end LookedUp

/-- The directory of an entry is the real path of a directory, and not the file system root. -/
theorem normalPath_of_entryRoot {env : PathEnv} (hspec : PathSpec env) {entry : PackageMapEntry}
    {rootPath : Str} (h : entryRoot env entry = some rootPath)
    (habsolute : isAbsolute rootPath = true) :
    NormalPath rootPath ∧ dot ∉ components rootPath ∧ dotDot ∉ components rootPath := by
  unfold entryRoot at h
  split at h
  · cases h
  · rename_i buf hreal
    have hbuf := hspec.realPath _ buf hreal
    split at h
    · obtain rfl := Option.some.inj h
      split at habsolute
      · rename_i hlast
        by_cases hroot : buf = [separator]
        · rw [hroot] at habsolute
          cases habsolute
        · exact absurd hlast (hbuf.1.getLast?_ne hroot)
      · rename_i hlast
        rw [if_neg hlast]
        exact hbuf
    · cases h

/-- The roots of packages are the keys of their entries, and real paths. -/
structure EntriesNormal (populated : PackageMap) : Prop where
  rootPath : ∀ key packageInfo, populated.map.lookup key = some packageInfo →
    packageInfo.rootPath = key
  normalPath : ∀ key packageInfo, populated.map.lookup key = some packageInfo → NormalPath key
  noDots : ∀ key packageInfo, populated.map.lookup key = some packageInfo →
    dot ∉ components key ∧ dotDot ∉ components key

theorem entriesNormal_of_populate {env : PathEnv} (hspec : PathSpec env)
    {projectRootPath : RootPath} {isTesting : Bool} {entries : List PackageMapEntry}
    {populated : PackageMap}
    (h : populate env { projectRootPath := projectRootPath, isTesting := isTesting } entries =
      some populated) : populated.EntriesNormal := by
  have hentry : ∀ key packageInfo, populated.map.lookup key = some packageInfo →
      NormalPath key ∧ dot ∉ components key ∧ dotDot ∉ components key := by
    intro key packageInfo hkey
    obtain ⟨-, habsolute, entry, -, hentry⟩ := (ofEntries_populate h).1 key packageInfo hkey
    exact normalPath_of_entryRoot hspec hentry habsolute
  exact ⟨fun key info hkey => ((ofEntries_populate h).1 key info hkey).1,
    fun key info hkey => (hentry key info hkey).1, fun key info hkey => (hentry key info hkey).2⟩

/-- Before any lookup the map is as it was populated. -/
theorem EntriesNormal.lookedUp {populated : PackageMap} (h : populated.EntriesNormal) :
    LookedUp populated populated := by
  refine ⟨Remembers.refl populated, fun key hkey => ?_⟩
  obtain ⟨packageInfo, hsome⟩ := Option.isSome_iff_exists.mp hkey
  exact ⟨components key, (h.normalPath key packageInfo hsome).ofComponents_components.symm,
    (h.noDots key packageInfo hsome).1⟩

/-! ## Lookups and the lexical normal form -/

/-- The directories that a path enters before its first component `..`. -/
def beforeDotDot (path : Str) : Str :=
  ofComponents ((walkedFrom path).takeWhile fun name => name ≠ dotDot)

/-- No package root is entered or left by the components `..` of the path; and if it has a root
name, then no package root is at or above its normal form. -/
def RootsKept (populated : PackageMap) (path : Str) : Prop :=
  ∀ root packageInfo, populated.map.lookup root = some packageInfo →
    (hasRootName path = false ∧ IsAtOrBelow root (beforeDotDot path) ↔
      IsAtOrBelow root (lexicalNormalForm path))

theorem nearestPackage_lexicalNormalForm (populated : PackageMap) (path : Str) :
    populated.nearestPackage (lexicalNormalForm path) =
      longestPrefix (entryAt populated.map) ((components path).foldl resolveDots []) := by
  have hwalked : walkedFrom (lexicalNormalForm path) =
      (components path).foldl resolveDots [] := by
    rw [walkedFrom, lexicalNormalForm, components_ofComponents]
    refine List.filter_eq_self.mpr fun name hmem => ?_
    rw [decide_eq_true_iff]
    rcases mem_foldl_resolveDots hmem with hnil | ⟨-, hdot, -⟩
    · cases hnil
    · exact hdot
  have hname : hasRootName (lexicalNormalForm path) = false := hasRootName_ofComponents _
  rw [nearestPackage, hname, hwalked]
  rfl

namespace EntriesNormal

variable {populated : PackageMap} (h : populated.EntriesNormal)

include h

/-- The components `..` on the way are in no package root. -/
theorem nearestPackage_eq {path : Str} (hname : hasRootName path = false) :
    populated.nearestPackage path = longestPrefix (entryAt populated.map)
      ((walkedFrom path).takeWhile fun name => name ≠ dotDot) := by
  rw [longestPrefix_takeWhile, nearestPackage, hname]
  · rfl
  · intro dir hsome name hmem
    obtain ⟨packageInfo, hentry⟩ := Option.isSome_iff_exists.mp hsome
    have hdots := (h.noDots (ofComponents dir) packageInfo hentry).2
    rw [components_ofComponents] at hdots
    rw [decide_eq_true_iff]
    rintro rfl
    exact hdots hmem

theorem entryAt_injective (dir dir' : List Component) (packageInfo : PackageMetadata)
    (hdir : entryAt populated.map dir = some packageInfo)
    (hdir' : entryAt populated.map dir' = some packageInfo) : dir = dir' :=
  ofComponents_injective ((h.rootPath _ _ hdir).symm.trans (h.rootPath _ _ hdir'))

/-- A statement about all package roots, in terms of their components. -/
theorem forall_entry_iff (P : Str → Prop) :
    (∀ root packageInfo, populated.map.lookup root = some packageInfo → P root) ↔
      ∀ dir, (entryAt populated.map dir).isSome → P (ofComponents dir) := by
  constructor
  · intro hroots dir hsome
    obtain ⟨packageInfo, hentry⟩ := Option.isSome_iff_exists.mp hsome
    exact hroots (ofComponents dir) packageInfo hentry
  · intro hdirs root packageInfo hroot
    have hjoin := (h.normalPath root packageInfo hroot).ofComponents_components
    rw [← hjoin]
    refine hdirs (components root) ?_
    rw [entryAt, hjoin, hroot]
    rfl

theorem nearestPackage_lexicalNormalForm_iff (path : Str) :
    populated.nearestPackage path = populated.nearestPackage (lexicalNormalForm path) ↔
      populated.RootsKept path := by
  have hroots := h.forall_entry_iff fun root =>
    (hasRootName path = false ∧ IsAtOrBelow root (beforeDotDot path) ↔
      IsAtOrBelow root (lexicalNormalForm path))
  rw [RootsKept, hroots, nearestPackage_lexicalNormalForm]
  simp only [beforeDotDot, lexicalNormalForm, isAtOrBelow_ofComponents]
  cases hname : hasRootName path with
  | true =>
      rw [nearestPackage, if_pos hname, eq_comm, longestPrefix_eq_none]
      constructor
      · intro hnone dir hsome
        refine ⟨fun hfalse => (by cases hfalse.1), fun habove => ?_⟩
        rw [hnone dir habove] at hsome
        cases hsome
      · intro hkept dir habove
        rw [← Option.not_isSome_iff_eq_none]
        intro hsome
        cases ((hkept dir hsome).mpr habove).1
  | false =>
      rw [h.nearestPackage_eq hname, longestPrefix_eq_iff h.entryAt_injective]
      simp only [true_and]

end EntriesNormal

/-- **A lookup finds the package of the lexical normal form** if and only if no package root is
entered or left by the components `..`.  Later lookups are never affected. -/
theorem lookup_lexicalNormalForm_iff {env : PathEnv} (hspec : PathSpec env)
    {projectRootPath : RootPath} {isTesting : Bool} {entries : List PackageMapEntry}
    {populated : PackageMap}
    (hpopulate : populate env { projectRootPath := projectRootPath, isTesting := isTesting }
      entries = some populated)
    {earlier : List Str} (hearlier : ∀ path ∈ earlier, isAbsolute path = true) {path : Str}
    (hpath : isAbsolute path = true) :
    let packageMap := (populated.lookups env earlier).2
    ((packageMap.lookup env path).1 = (packageMap.lookup env (lexicalNormalForm path)).1 ∧
      ∀ later : List Str,
        (∀ path ∈ later, isAbsolute path = true ∧ isNormalized env path = true) →
          ((packageMap.lookup env path).2.lookups env later).1 =
            (packageMap.lookups env later).1) ↔
      populated.RootsKept path := by
  intro packageMap
  have hentries := entriesNormal_of_populate hspec hpopulate
  have hne := (ofEntries_populate hpopulate).2
  have hlooked : LookedUp populated packageMap :=
    (hentries.lookedUp.lookups hspec hne hearlier).2
  obtain ⟨hfound, hafter⟩ := hlooked.lookup hspec hne hpath
  have hnormal : (packageMap.lookup env (lexicalNormalForm path)).1 =
      populated.nearestPackage (lexicalNormalForm path) :=
    (hlooked.lookup hspec hne (isAbsolute_ofComponents _)).1
  rw [hfound, hnormal, ← hentries.nearestPackage_lexicalNormalForm_iff path, and_iff_left_iff_imp]
  intro _ later hlater
  have habsolute : ∀ path ∈ later, isAbsolute path = true := fun path hmem => (hlater path hmem).1
  rw [(hafter.lookups hspec hne habsolute).1, (hlooked.lookups hspec hne habsolute).1]

/-- Without the component `..` and a root name, no root is entered or left. -/
theorem rootsKept_of_notMem (populated : PackageMap) {path : Str}
    (hname : hasRootName path = false) (hdotDot : dotDot ∉ components path) :
    populated.RootsKept path := by
  have hresolve : ∀ (names dir : List Component), dotDot ∉ names →
      names.foldl resolveDots dir = dir ++ names.filter fun name => name ≠ dot := by
    intro names
    induction names with
    | nil => simp
    | cons name names ih =>
        intro dir hnames
        rw [List.mem_cons, not_or] at hnames
        rw [List.foldl_cons, ih _ hnames.2, resolveDots, if_neg (Ne.symm hnames.1)]
        by_cases hdot : name = dot
        · simp [hdot]
        · simp [hdot]
  have hbefore : (walkedFrom path).takeWhile (fun name => name ≠ dotDot) = walkedFrom path := by
    refine List.takeWhile_eq_self_iff.mpr fun name hmem => ?_
    rw [decide_eq_true_iff]
    rintro rfl
    exact hdotDot (List.mem_of_mem_filter hmem)
  intro root packageInfo _
  rw [beforeDotDot, hbefore, lexicalNormalForm, hresolve _ _ hdotDot, List.nil_append,
    ← walkedFrom]
  exact and_iff_right hname

end PackageMap

/-! ## Paths in the project with a package inside -/

theorem pathSpec_packageEnv : PathSpec packageEnv where
  toParentPathSpec := parentPathSpec_packageEnv
  components_eq _ _ _ := rfl
  removeDots_eq path _ hname := if_neg (by rw [hname]; decide)
  removeDots_rootName path _ hname := by
    show hasRootName (if hasRootName path then path else _) = true
    rw [if_pos hname, hname]
  parentPath_rootName path habsolute hname := by
    unfold hasRootName at hname
    split at hname
    · rename_i first second third rest
      rw [Bool.and_eq_true, Bool.and_eq_true, beq_iff_eq, beq_iff_eq, bne_iff_ne] at hname
      obtain ⟨⟨rfl, rfl⟩, hthird⟩ := hname
      have hsep : separator ∈ (third :: rest).reverse := by
        simpa [isAbsolute, hasRootName, hthird, or_comm] using habsolute
      -- the parent ends before the last separator, which comes after the root name
      obtain ⟨name, dir, hsplit, hname⟩ := List.eq_append_cons_of_mem hsep
      have hpath : third :: rest = dir.reverse ++ separator :: name.reverse := by
        rw [← List.reverse_reverse (third :: rest), hsplit]
        simp
      show hasRootName (posixParentPath (separator :: separator :: third :: rest)) = true
      rw [hpath, ← List.cons_append, ← List.cons_append, posixParentPath_append (by simp)
        (by simpa using hname)]
      cases hdir : dir.reverse with
      | nil =>
          rw [hdir, List.nil_append, List.cons.injEq] at hpath
          exact absurd hpath.1 hthird
      | cons first dir =>
          rw [hdir, List.cons_append, List.cons.injEq] at hpath
          rw [← hpath.1]
          simp [hasRootName, hthird]
    · cases hname
  realPath path realPath hreal := by
    have hcases : realPath = "/p".toList ∨ realPath = "/p/ext".toList := by
      revert hreal
      show (if path = "/p".toList ∨ path = "/p/ext".toList then some path else none) =
        some realPath → _
      split
      · rename_i hpath
        intro hreal
        rwa [← Option.some.inj hreal]
      · intro hreal
        cases hreal
    rcases hcases with rfl | rfl
    · exact ⟨normalPath_of_getLast? (by decide) (by decide) (by decide), by decide, by decide⟩
    · exact ⟨normalPath_of_getLast? (by decide) (by decide) (by decide), by decide, by decide⟩

theorem lookup_lexicalNormalForm_packages :
    let packageMap := (packages.lookups packageEnv packageFiles).2
    (packageMap.lookup packageEnv "/p/./ext//a.h".toList).1 =
      (packageMap.lookup packageEnv (lexicalNormalForm "/p/./ext//a.h".toList)).1 :=
  ((PackageMap.lookup_lexicalNormalForm_iff pathSpec_packageEnv populate_packages (by decide)
    (by decide)).mpr (packages.rootsKept_of_notMem (by decide) (by decide))).1

/-- The walk up from `/p/ext/../foo.cc` passes `/p/ext`. -/
theorem lookup_dotDot_packages :
    PackageMap.populate packageEnv
        { projectRootPath := ⟨⟨"/p".toList⟩, .Project⟩, isTesting := false } packageEntries =
          some packages ∧
      (packages.lookup packageEnv "/p/ext/../foo.cc".toList).1 = some extPackage ∧
      (packages.lookup packageEnv (lexicalNormalForm "/p/ext/../foo.cc".toList)).1 =
        some mainPackage ∧
      extPackage ≠ mainPackage := by
  refine ⟨rfl, ?_, ?_, ?_⟩ <;> decide +kernel

end ScipClang
