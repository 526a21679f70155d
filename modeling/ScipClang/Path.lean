import Mathlib.Data.List.Basic
import Mathlib.Tactic

/-!
# Paths

The path vocabulary of `indexer/Path.h` and `indexer/Path.cc`: absolute paths,
root-relative paths tagged with the root they are relative to, and the two
conversions between them, `makeRelative` and `joinPath`.

A `std::string` is the list of its bytes; a byte is written as the `Char` of
that code, so that every string operation below is per code unit, as in the
source.  The preferred separator is the POSIX one.

## The two directions

`RootPath.tryMakeRelative` strips a textual prefix and any separators after it;
`RootPath.makeAbsolute` puts one separator back.  They are inverse to each other
only when the root is an ancestor *directory* of the path, which is what
`IsBelow` says: the prefix test alone does not look for a component boundary.
-/

namespace ScipClang

/-- The bytes of a `std::string` or `std::string_view`. -/
abbrev Str := List Char

/-- `std::filesystem::path::preferred_separator` on POSIX. -/
def separator : Char := '/'

/-- The path begins with a root name such as `//net`: with two separators, and not with
three. -/
def hasRootName : Str → Bool
  | first :: second :: third :: _ =>
      first == separator && second == separator && third != separator
  | _ => false

/-- `llvm::sys::path::is_absolute` on POSIX: the path has a root directory, which comes after
the root name if there is one. -/
def isAbsolute (path : Str) : Bool :=
  path.head? == some separator && (!hasRootName path || (path.drop 2).contains separator)

/-- An owned absolute path.  The default value is the empty string, which the
source allows for use as a hash-map key. -/
structure AbsolutePath where
  value : Str := []
deriving DecidableEq

/-- `joinPath`: one separator between the parts, unless the first part already
ends in one. -/
def joinPath (s1 s2 : Str) : Str :=
  if s1.getLast? = some separator then s1 ++ s2 else s1 ++ separator :: s2

/-- `AbsolutePathRef::makeRelative`: a purely textual prefix test, after which
all leading separators of the remainder are skipped. -/
def makeRelative (self longerPath : Str) : Option Str :=
  if self.isPrefixOf longerPath then
    some ((longerPath.drop self.length).dropWhile (· == separator))
  else
    none

/-- The file-local `fileName`: the part after the last separator, if there is a
separator and it is not the last byte. -/
def fileName (path : Str) : Option Str :=
  if separator ∈ path ∧ path.getLast? ≠ some separator then
    some (path.reverse.takeWhile (· != separator)).reverse
  else
    none

/-- Which root a relative path is relative to. -/
inductive RootKind where
  | Project
  | Build
  | External
deriving DecidableEq

/-- A path relative to a root of the given kind. -/
structure RootRelativePathRef where
  value : Str
  kind : RootKind
deriving DecidableEq

/-- A root directory. -/
structure RootPath where
  value : AbsolutePath
  kind : RootKind
deriving DecidableEq

namespace RootPath

/-- `RootPath::tryMakeRelative`. -/
def tryMakeRelative (root : RootPath) (maybePathInsideProject : Str) :
    Option RootRelativePathRef :=
  (makeRelative root.value.value maybePathInsideProject).map
    fun optStrView => ⟨optStrView, root.kind⟩

/-- `RootPath::makeAbsoluteAllowKindMismatch`. -/
def makeAbsoluteAllowKindMismatch (root : RootPath)
    (relativePathRef : RootRelativePathRef) : AbsolutePath :=
  ⟨joinPath root.value.value relativePathRef.value⟩

/-- `RootPath::makeAbsolute`: in release builds the kinds are not compared. -/
def makeAbsolute (root : RootPath) (relativePathRef : RootRelativePathRef) :
    AbsolutePath :=
  root.makeAbsoluteAllowKindMismatch relativePathRef

end RootPath

/-! ## Component boundaries -/

/-- The path lies strictly below the directory `root`. -/
def IsBelow (root path : Str) : Prop :=
  ∃ rest, rest ≠ [] ∧ rest.head? ≠ some separator ∧ path = joinPath root rest

/-- The path is the directory `root` or lies below it. -/
def IsAtOrBelow (root path : Str) : Prop := path = root ∨ IsBelow root path

/-- Absolute paths without empty components, and without a separator at the end. -/
inductive NormalPath : Str → Prop where
  | root : NormalPath [separator]
  | child {dir name : Str} : NormalPath dir → name ≠ [] → separator ∉ name →
      NormalPath (joinPath dir name)

theorem joinPath_ne_nil (s1 : Str) {s2 : Str} (h : s2 ≠ []) : joinPath s1 s2 ≠ [] := by
  unfold joinPath
  split
  · exact List.append_ne_nil_of_right_ne_nil s1 h
  · simp

theorem getLast?_joinPath (s1 : Str) {s2 : Str} (h : s2 ≠ []) :
    (joinPath s1 s2).getLast? = s2.getLast? := by
  unfold joinPath
  split
  · exact List.getLast?_append_of_ne_nil s1 h
  · rw [List.getLast?_append_of_ne_nil s1 (List.cons_ne_nil _ _), List.getLast?_cons_of_ne_nil h]

theorem head?_joinPath {s1 : Str} (h : s1 ≠ []) (s2 : Str) :
    (joinPath s1 s2).head? = s1.head? := by
  unfold joinPath
  split
  · exact List.head?_append_of_ne_nil s1 h
  · exact List.head?_append_of_ne_nil s1 h

theorem joinPath_assoc (s1 : Str) {s2 : Str} (h : s2 ≠ []) (s3 : Str) :
    joinPath (joinPath s1 s2) s3 = joinPath s1 (joinPath s2 s3) := by
  have hlast := getLast?_joinPath s1 h
  by_cases h2 : s2.getLast? = some separator
  · rw [joinPath, if_pos (hlast.trans h2), joinPath.eq_def s2 s3, if_pos h2]
    unfold joinPath
    split <;> simp
  · rw [joinPath, if_neg (hlast ▸ h2), joinPath.eq_def s2 s3, if_neg h2]
    unfold joinPath
    split <;> simp

theorem IsBelow.trans {root dir path : Str} (h : IsBelow root dir) (h' : IsBelow dir path) :
    IsBelow root path := by
  obtain ⟨rest, hne, hhead, rfl⟩ := h
  obtain ⟨rest', hne', -, rfl⟩ := h'
  refine ⟨joinPath rest rest', joinPath_ne_nil rest hne', ?_, joinPath_assoc root hne rest'⟩
  rw [head?_joinPath hne]
  exact hhead

theorem IsAtOrBelow.trans {root dir path : Str} (h : IsAtOrBelow root dir)
    (h' : IsAtOrBelow dir path) : IsAtOrBelow root path := by
  rcases h with rfl | h
  · exact h'
  · rcases h' with rfl | h'
    · exact .inr h
    · exact .inr (h.trans h')

theorem isBelow_child {dir name : Str} (hne : name ≠ []) (hsep : separator ∉ name) :
    IsBelow dir (joinPath dir name) := by
  refine ⟨name, hne, ?_, rfl⟩
  intro hhead
  exact hsep (List.mem_of_head? hhead)

/-- Below a root the two conversions are inverse to each other. -/
theorem makeRelative_of_isBelow {root path : Str} (h : IsBelow root path) :
    ∃ rest, makeRelative root path = some rest ∧ joinPath root rest = path := by
  obtain ⟨rest, hne, hhead, rfl⟩ := h
  refine ⟨rest, ?_, rfl⟩
  have hrest : rest.dropWhile (· == separator) = rest := by
    cases rest with
    | nil => rfl
    | cons c rest =>
        rw [List.dropWhile_cons_of_neg]
        simpa using hhead
  unfold joinPath makeRelative
  split
  · simp [hrest]
  · simp [hrest]

end ScipClang
