import Mathlib.Data.List.Basic
import Mathlib.Tactic

/-!
# Segments between separators

A list is split at a separator into segments; empty segments do not count.  Conversely,
segments are joined by putting the separator in front of each.  Splitting undoes joining
(`segments_join`), so that lists which are joined from segments can be compared segment by
segment.
-/

variable {α : Type*}

/-- A nonempty list without the separator. -/
@[ext]
structure Segment (s : α) where
  val : List α
  ne_nil : val ≠ []
  notMem : s ∉ val
deriving DecidableEq

namespace Segment

variable {s : α}

/-- Each segment with the separator in front. -/
def join (segments : List (Segment s)) : List α := segments.flatMap fun segment => s :: segment.val

@[simp] theorem join_nil : join ([] : List (Segment s)) = [] := rfl

@[simp] theorem join_cons (segment : Segment s) (segments : List (Segment s)) :
    join (segment :: segments) = s :: (segment.val ++ join segments) := by
  simp [join]

@[simp] theorem join_append (segments segments' : List (Segment s)) :
    join (segments ++ segments') = join segments ++ join segments' :=
  List.flatMap_append

theorem not_double_infix_append {xs ys : List α} (hxs : s ∉ xs) (hys : ¬ [s, s] <:+: ys) :
    ¬ [s, s] <:+: xs ++ ys := by
  induction xs with
  | nil => exact hys
  | cons x xs ih =>
      rw [List.mem_cons, not_or] at hxs
      rw [List.cons_append, List.infix_cons_iff, List.cons_prefix_cons]
      rintro (⟨heq, -⟩ | hwithin)
      · exact hxs.1 heq
      · exact ih hxs.2 hwithin

/-- There are no two separators in a row in what is joined. -/
theorem not_double_infix_join (segments : List (Segment s)) : ¬ [s, s] <:+: join segments := by
  induction segments with
  | nil => simp
  | cons segment segments ih =>
      rw [join_cons, List.infix_cons_iff, List.cons_prefix_cons]
      rintro (⟨-, hpre⟩ | hwithin)
      · obtain ⟨first, val, hval⟩ := List.exists_cons_of_ne_nil segment.ne_nil
        rw [hval, List.cons_append, List.cons_prefix_cons] at hpre
        refine segment.notMem ?_
        rw [hval, hpre.1]
        exact List.mem_cons_self
      · exact not_double_infix_append segment.notMem ih hwithin

variable [DecidableEq α]

/-- A list as a segment, if it is one. -/
def ofList? (s : α) (xs : List α) : Option (Segment s) :=
  if h : xs ≠ [] ∧ s ∉ xs then some ⟨xs, h.1, h.2⟩ else none

variable (s) in
/-- The segments of a list. -/
def segments (xs : List α) : List (Segment s) := (xs.splitOn s).filterMap (ofList? s)

@[simp] theorem ofList?_val (segment : Segment s) : ofList? s segment.val = some segment :=
  dif_pos ⟨segment.ne_nil, segment.notMem⟩

@[simp] theorem segments_nil : segments s [] = [] := rfl

theorem segments_of_notMem {xs : List α} (h : s ∉ xs) : segments s xs = (ofList? s xs).toList := by
  rw [segments, List.splitOn_eq_singleton h, List.filterMap_cons]
  cases ofList? s xs <;> rfl

/-- The segments before a separator, and those after it. -/
theorem segments_append_cons (xs ys : List α) :
    segments s (xs ++ s :: ys) = segments s xs ++ segments s ys := by
  rw [segments, List.splitOn_append_cons_self, List.filterMap_append]
  rfl

@[simp] theorem segments_cons_self (xs : List α) : segments s (s :: xs) = segments s xs :=
  segments_append_cons [] xs

@[simp] theorem segments_val (segment : Segment s) : segments s segment.val = [segment] := by
  rw [segments_of_notMem segment.notMem, ofList?_val]
  rfl

/-- Splitting undoes joining. -/
theorem segments_append_join (xs : List α) (joined : List (Segment s)) :
    segments s (xs ++ join joined) = segments s xs ++ joined := by
  induction joined generalizing xs with
  | nil => simp
  | cons segment joined ih =>
      rw [join_cons, segments_append_cons, ih, segments_val]
      rfl

theorem segments_join (joined : List (Segment s)) : segments s (join joined) = joined := by
  have h := segments_append_join ([] : List α) joined
  simpa using h

theorem join_segments_of_notMem {xs : List α} (hne : xs ≠ []) (h : s ∉ xs) :
    join (segments s xs) = s :: xs := by
  rw [segments_of_notMem h, show ofList? s xs = some ⟨xs, hne, h⟩ from dif_pos ⟨hne, h⟩]
  simp

/-- What starts with a separator, has no two of them in a row and does not end in one is joined
from its segments. -/
theorem join_segments {rest : List α} (hlast : (s :: rest).getLast? ≠ some s)
    (hdouble : ¬ [s, s] <:+: s :: rest) : join (segments s rest) = s :: rest := by
  induction hlength : rest.length using Nat.strong_induction_on generalizing rest with
  | _ length ih =>
      have hrest : rest ≠ [] := by
        rintro rfl
        exact hlast rfl
      by_cases hmem : s ∈ rest
      · obtain ⟨before, tail, rfl, hbefore⟩ := List.eq_append_cons_of_mem hmem
        have hne : before ≠ [] := by
          rintro rfl
          exact hdouble ⟨[], tail, rfl⟩
        -- the tail starts with a separator again
        have htail : join (segments s tail) = s :: tail := by
          refine ih tail.length (by simp [← hlength]; omega) ?_ ?_ rfl
          · rwa [← List.cons_append, List.getLast?_append_of_ne_nil _ (List.cons_ne_nil _ _)]
              at hlast
          · intro hwithin
            exact hdouble (hwithin.trans (List.suffix_append (s :: before) (s :: tail)).isInfix)
        rw [segments_append_cons, join_append, join_segments_of_notMem hne hbefore, htail]
        rfl
      · exact join_segments_of_notMem hrest hmem

end Segment
