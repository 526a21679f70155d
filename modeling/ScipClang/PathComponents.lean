import ScipClang.Path
import ScipClang.Library.LongestPrefix
import ScipClang.Library.Segments

/-!
# The components of a path

A normal path is given by its components, the names between the separators
(`normalPath_iff`), and a path is at or below a directory if the components of the directory are
the first of its own (`isAtOrBelow_ofComponents`).

`lexicalNormalForm` resolves the components `.` and `..` without a file system.
-/

namespace ScipClang

/-- A component of a path: a name between separators. -/
abbrev Component := Segment separator

/-- The components of a path. -/
abbrev components (path : Str) : List Component := Segment.segments separator path

/-- The normal path with these components. -/
def ofComponents (names : List Component) : Str :=
  if names = [] then [separator] else Segment.join names

@[simp] theorem ofComponents_nil : ofComponents [] = [separator] := rfl

theorem ofComponents_of_ne_nil {names : List Component} (h : names ≠ []) :
    ofComponents names = Segment.join names := if_neg h

@[simp] theorem components_ofComponents (names : List Component) :
    components (ofComponents names) = names := by
  by_cases h : names = []
  · subst h
    rfl
  · rw [ofComponents_of_ne_nil h]
    exact Segment.segments_join names

theorem ofComponents_injective : Function.Injective ofComponents :=
  Function.LeftInverse.injective components_ofComponents

theorem getLast?_ofComponents {names : List Component} (h : names ≠ []) :
    (ofComponents names).getLast? ≠ some separator := by
  obtain ⟨names, last, rfl⟩ := (List.eq_nil_or_concat' names).resolve_left h
  rw [ofComponents_of_ne_nil h, Segment.join_append, Segment.join_cons, Segment.join_nil,
    List.append_nil, List.getLast?_append_of_ne_nil _ (List.cons_ne_nil _ _),
    List.getLast?_cons_of_ne_nil last.ne_nil]
  intro hlast
  exact last.notMem (List.mem_of_getLast? hlast)

theorem ofComponents_concat (names : List Component) (name : Component) :
    ofComponents (names ++ [name]) = joinPath (ofComponents names) name.val := by
  have hne : names ++ [name] ≠ [] := List.concat_ne_nil name names
  rw [ofComponents_of_ne_nil hne]
  by_cases h : names = []
  · subst h
    simp [joinPath]
  · rw [joinPath, if_neg (getLast?_ofComponents h), ofComponents_of_ne_nil h]
    simp

theorem length_le_ofComponents (names : List Component) :
    names.length ≤ (ofComponents names).length := by
  by_cases h : names = []
  · simp [h]
  · rw [ofComponents_of_ne_nil h]
    clear h
    induction names with
    | nil => exact Nat.le_refl 0
    | cons name names ih =>
        simp only [Segment.join_cons, List.length_cons, List.length_append]
        omega

/-- A path is normal if it is put together from its components. -/
theorem normalPath_ofComponents (names : List Component) : NormalPath (ofComponents names) := by
  induction names using List.reverseRecOn with
  | nil => exact .root
  | append_singleton names name ih =>
      rw [ofComponents_concat]
      exact .child ih name.ne_nil name.notMem

theorem NormalPath.ofComponents_components {path : Str} (h : NormalPath path) :
    ofComponents (components path) = path := by
  induction h with
  | root => rfl
  | @child dir name _ hne hsep ih =>
      have hconcat := ofComponents_concat (components dir) ⟨name, hne, hsep⟩
      rw [ih] at hconcat
      rw [← hconcat, components_ofComponents]

theorem normalPath_iff {path : Str} : NormalPath path ↔ ∃ names, path = ofComponents names := by
  constructor
  · intro h
    exact ⟨components path, h.ofComponents_components.symm⟩
  · rintro ⟨names, rfl⟩
    exact normalPath_ofComponents names

/-- What has no empty component and does not end in a separator is normal. -/
theorem normalPath_of_getLast? {path : Str} (habsolute : path.head? = some separator)
    (hlast : path.getLast? ≠ some separator) (hdouble : ¬ [separator, separator] <:+: path) :
    NormalPath path := by
  obtain ⟨rest, rfl⟩ := List.head?_eq_some_iff.mp habsolute
  have hjoin : Segment.join (components rest) = separator :: rest :=
    Segment.join_segments hlast hdouble
  have hne : components rest ≠ [] := by
    intro hnil
    rw [hnil] at hjoin
    cases hjoin
  rw [← hjoin, ← ofComponents_of_ne_nil hne]
  exact normalPath_ofComponents _

/-- What has no empty component is normal, unless there is a separator after the last
component. -/
theorem normalPath_or_getLast? {path : Str} (habsolute : path.head? = some separator)
    (hdouble : ¬ [separator, separator] <:+: path) :
    NormalPath path ∨ path.getLast? = some separator ∧ components path ≠ [] := by
  by_cases hlast : path.getLast? = some separator
  · by_cases hroot : path = [separator]
    · exact .inl (hroot ▸ .root)
    · obtain ⟨dir, rfl⟩ := List.getLast?_eq_some_iff.mp hlast
      have hdir : dir ≠ [] := by
        rintro rfl
        exact hroot rfl
      rw [List.head?_append_of_ne_nil _ hdir] at habsolute
      have hnormal : NormalPath dir := by
        refine normalPath_of_getLast? habsolute ?_
          fun hwithin => hdouble (hwithin.trans (List.prefix_append dir [separator]).isInfix)
        intro hdirlast
        obtain ⟨above, rfl⟩ := List.getLast?_eq_some_iff.mp hdirlast
        exact hdouble ⟨above, [], by simp⟩
      refine .inr ⟨hlast, ?_⟩
      have hsplit : components (dir ++ [separator]) = components dir :=
        (Segment.segments_append_cons dir []).trans (List.append_nil _)
      rw [hsplit]
      intro hnil
      have hjoin := hnormal.ofComponents_components
      rw [hnil] at hjoin
      exact hdouble ⟨[], [], by rw [← hjoin]; rfl⟩
  · exact .inl (normalPath_of_getLast? habsolute hlast hdouble)

theorem hasRootName_ofComponents (names : List Component) :
    hasRootName (ofComponents names) = false := by
  cases names with
  | nil => rfl
  | cons name names =>
      rw [ofComponents_of_ne_nil (List.cons_ne_nil _ _), Segment.join_cons]
      obtain ⟨val, hne, hsep⟩ := name
      cases val with
      | nil => cases hne rfl
      | cons c val =>
          have hc : (c == separator) = false := by
            rw [beq_eq_false_iff_ne]
            rintro rfl
            exact hsep List.mem_cons_self
          cases hrest : val ++ Segment.join names with
          | nil => simp [hasRootName, hrest]
          | cons third rest => simp [hasRootName, hrest, hc]

theorem head?_ofComponents (names : List Component) :
    (ofComponents names).head? = some separator := by
  cases names with
  | nil => rfl
  | cons name names => simp [ofComponents_of_ne_nil]

@[simp] theorem isAbsolute_ofComponents (names : List Component) :
    isAbsolute (ofComponents names) = true := by
  simp [isAbsolute, hasRootName_ofComponents, head?_ofComponents]

/-- The components of what is below a directory come after those of the directory. -/
theorem isAtOrBelow_ofComponents {dir path : List Component} :
    IsAtOrBelow (ofComponents dir) (ofComponents path) ↔ dir <+: path := by
  constructor
  · rintro (heq | ⟨rest, -, -, hjoin⟩)
    · rw [ofComponents_injective heq]
    · refine ⟨components rest, ?_⟩
      have hcomponents := congrArg components hjoin
      rw [components_ofComponents, joinPath] at hcomponents
      split at hcomponents
      · rename_i hlast
        -- only the file system root ends with a separator
        obtain rfl : dir = [] := by
          by_contra hne
          exact getLast?_ofComponents hne hlast
        simpa using hcomponents.symm
      · have hsplit : components (ofComponents dir ++ separator :: rest) =
            components (ofComponents dir) ++ components rest :=
          Segment.segments_append_cons _ _
        rw [hcomponents, hsplit, components_ofComponents]
  · rintro ⟨below, rfl⟩
    induction below using List.reverseRecOn with
    | nil => exact .inl (by rw [List.append_nil])
    | append_singleton below name ih =>
        refine ih.trans (.inr ?_)
        rw [← List.append_assoc, ofComponents_concat]
        exact isBelow_child name.ne_nil name.notMem

/-! ## Relative paths -/

theorem NormalPath.not_double_infix {path : Str} (h : NormalPath path) :
    ¬ [separator, separator] <:+: path := by
  obtain ⟨names, rfl⟩ := normalPath_iff.mp h
  by_cases hne : names = []
  · subst hne
    decide
  · rw [ofComponents_of_ne_nil hne]
    exact Segment.not_double_infix_join names

theorem NormalPath.getLast?_ne {path : Str} (h : NormalPath path) (hroot : path ≠ [separator]) :
    path.getLast? ≠ some separator := by
  obtain ⟨names, rfl⟩ := normalPath_iff.mp h
  refine getLast?_ofComponents ?_
  rintro rfl
  exact hroot rfl

/-- The root is the path, or a component of the path ends where the root ends. -/
def EndsAtBoundary (root path : Str) : Prop :=
  path = root ∨ root.getLast? = some separator ∨ ∃ rest, path = root ++ separator :: rest

theorem isSome_makeRelative {root path : Str} :
    (makeRelative root path).isSome ↔ root <+: path := by
  unfold makeRelative
  split
  · rename_i hpre
    simpa using hpre
  · rename_i hpre
    simpa using hpre

theorem makeRelative_self (root : Str) : makeRelative root root = some [] := by
  simp [makeRelative]

/-- What is at or below a root begins with it, and it ends at a boundary. -/
theorem isAtOrBelow_iff {root path : Str} (hroot : root ≠ []) (hpath : NormalPath path) :
    IsAtOrBelow root path ↔ root <+: path ∧ EndsAtBoundary root path := by
  constructor
  · rintro (rfl | ⟨rest, hne, hhead, rfl⟩)
    · exact ⟨List.prefix_rfl, .inl rfl⟩
    · unfold joinPath
      split
      · rename_i hlast
        exact ⟨List.prefix_append _ _, .inr (.inl hlast)⟩
      · exact ⟨List.prefix_append _ _, .inr (.inr ⟨rest, rfl⟩)⟩
  · rintro ⟨⟨rest, rfl⟩, hboundary⟩
    by_cases hrest : rest = []
    · exact .inl (by rw [hrest, List.append_nil])
    by_cases hlast : root.getLast? = some separator
    · refine .inr ⟨rest, hrest, ?_, by rw [joinPath, if_pos hlast]⟩
      intro hhead
      obtain ⟨rest, rfl⟩ := List.head?_eq_some_iff.mp hhead
      obtain ⟨root, rfl⟩ := List.getLast?_eq_some_iff.mp hlast
      exact hpath.not_double_infix ⟨root, rest, by simp⟩
    · rcases hboundary with heq | hsep | ⟨below, heq⟩
      · exact absurd (List.append_right_eq_self.mp heq) hrest
      · exact absurd hsep hlast
      · obtain rfl := List.append_cancel_left heq
        refine .inr ⟨below, ?_, ?_, by rw [joinPath, if_neg hlast]⟩
        · rintro rfl
          exact hpath.getLast?_ne (by simpa using hroot) (by simp)
        · intro hhead
          obtain ⟨below, rfl⟩ := List.head?_eq_some_iff.mp hhead
          exact hpath.not_double_infix ⟨root, below, by simp⟩

/-- Relative paths are those of what is at or below the root, and lead back to it. -/
structure RelativePathsSound (root : RootPath) (path : Str) : Prop where
  makeRelative_isSome :
    (makeRelative root.value.value path).isSome ↔ IsAtOrBelow root.value.value path
  tryMakeRelative_isSome :
    (root.tryMakeRelative path).isSome ↔ IsAtOrBelow root.value.value path
  joinPath_makeRelative : ∀ strView, makeRelative root.value.value path = some strView →
    strView ≠ [] → joinPath root.value.value strView = path
  joinPath_tryMakeRelative : ∀ relativePath, root.tryMakeRelative path = some relativePath →
    relativePath.value ≠ [] → joinPath root.value.value relativePath.value = path

/-- **The prefix test finds the root-relative paths**, provided that a root which the path
begins with ends at a component boundary. -/
theorem relativePathsSound_iff {root : RootPath} {path : Str}
    (hroot : isAbsolute root.value.value = true) (hpath : NormalPath path) :
    RelativePathsSound root path ↔
      (root.value.value <+: path → EndsAtBoundary root.value.value path) := by
  have hne : root.value.value ≠ [] := by
    intro hnil
    rw [hnil] at hroot
    cases hroot
  have hbelow := isAtOrBelow_iff hne hpath
  constructor
  · intro h hpre
    exact (hbelow.mp (h.makeRelative_isSome.mp (isSome_makeRelative.mpr hpre))).2
  · intro hboundary
    have hsome : (makeRelative root.value.value path).isSome ↔
        IsAtOrBelow root.value.value path := by
      rw [isSome_makeRelative, hbelow]
      exact ⟨fun hpre => ⟨hpre, hboundary hpre⟩, And.left⟩
    have hjoin : ∀ strView, makeRelative root.value.value path = some strView → strView ≠ [] →
        joinPath root.value.value strView = path := by
      intro strView hrel hstrView
      rcases hsome.mp (by rw [hrel]; rfl) with heq | hbelow
      · rw [heq, makeRelative_self, Option.some.injEq] at hrel
        exact absurd hrel.symm hstrView
      · obtain ⟨rest, hrest, hjoin⟩ := makeRelative_of_isBelow hbelow
        obtain rfl : strView = rest := Option.some.inj (hrel.symm.trans hrest)
        exact hjoin
    refine ⟨hsome, ?_, hjoin, ?_⟩
    · rw [RootPath.tryMakeRelative, Option.isSome_map, hsome]
    · intro relativePath hrel hvalue
      obtain ⟨strView, hstrView, rfl⟩ := Option.map_eq_some_iff.mp hrel
      exact hjoin strView hstrView hvalue

/-- The file `/p/foo.cc` in the project `/p`. -/
theorem relativePathsSound_project :
    RelativePathsSound ⟨⟨"/p".toList⟩, .Project⟩ "/p/foo.cc".toList :=
  (relativePathsSound_iff (by decide)
    (normalPath_of_getLast? (by decide) (by decide) (by decide))).mpr fun _ =>
      .inr (.inr ⟨"foo.cc".toList, by decide⟩)

/-- The directory `/project` is not inside of `/p`, but gets the relative path `roject`. -/
theorem relativePaths_of_sibling :
    NormalPath "/p".toList ∧ NormalPath "/project".toList ∧
      makeRelative "/p".toList "/project".toList = some "roject".toList ∧
      ¬ RelativePathsSound ⟨⟨"/p".toList⟩, .Project⟩ "/project".toList := by
  refine ⟨normalPath_of_getLast? (by decide) (by decide) (by decide),
    normalPath_of_getLast? (by decide) (by decide) (by decide), by decide, fun h => ?_⟩
  have hjoin := h.joinPath_makeRelative "roject".toList (by decide) (by decide)
  exact absurd hjoin (by decide)

/-! ## Lexical normalization -/

/-- The component `.`. -/
def dot : Component := ⟨['.'], by decide, by decide⟩

/-- The component `..`. -/
def dotDot : Component := ⟨['.', '.'], by decide, by decide⟩

/-- The components of a directory after going to `name`. -/
def resolveDots (dir : List Component) (name : Component) : List Component :=
  if name = dot then dir
  else if name = dotDot then dir.dropLast
  else dir ++ [name]

/-- The lexical normal form of an absolute path: `.` is removed, `..` leads to the parent
directory, and separators are collapsed. -/
def lexicalNormalForm (path : Str) : Str :=
  ofComponents ((components path).foldl resolveDots [])

theorem mem_foldl_resolveDots {names dir : List Component} {name : Component}
    (h : name ∈ names.foldl resolveDots dir) :
    name ∈ dir ∨ name ∈ names ∧ name ≠ dot ∧ name ≠ dotDot := by
  induction names generalizing dir with
  | nil => exact .inl h
  | cons next names ih =>
      rw [List.foldl_cons] at h
      rcases ih h with hdir | ⟨hnames, hne⟩
      · unfold resolveDots at hdir
        split at hdir
        · exact .inl hdir
        · split at hdir
          · exact .inl (List.mem_of_mem_dropLast hdir)
          · rcases List.mem_append.mp hdir with hdir | hnext
            · exact .inl hdir
            · obtain rfl := List.mem_singleton.mp hnext
              exact .inr ⟨List.mem_cons_self, ‹_›, ‹_›⟩
      · exact .inr ⟨List.mem_cons_of_mem _ hnames, hne⟩

end ScipClang
