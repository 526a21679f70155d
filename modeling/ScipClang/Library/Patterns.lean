import Mathlib.Data.List.Infix
import Mathlib.Tactic

/-!
# Patterns

Simple patterns without repetition, the lists that match them, and the search for a match
anywhere in a list (`search_iff`).
-/

/-- A pattern. -/
inductive Pattern (α : Type*) where
  /-- Exactly this text. -/
  | literal (text : List α)
  /-- The pattern or nothing. -/
  | optional (pattern : Pattern α)
  /-- One pattern after the other. -/
  | append (first second : Pattern α)
  /-- Any text. -/
  | anything

namespace Pattern

variable {α : Type*}

/-- The whole list matches the pattern. -/
def Matches : Pattern α → List α → Prop
  | literal text, xs => xs = text
  | optional pattern, xs => xs = [] ∨ pattern.Matches xs
  | append first second, xs => ∃ ys zs, xs = ys ++ zs ∧ first.Matches ys ∧ second.Matches zs
  | anything, _ => True

variable [DecidableEq α]

/-- What is left of a list after the matches at its beginning. -/
def rests : Pattern α → List α → List (List α)
  | literal text, xs => if text <+: xs then [xs.drop text.length] else []
  | optional pattern, xs => pattern.rests xs ++ [xs]
  | append first second, xs => (first.rests xs).flatMap second.rests
  | anything, xs => xs.tails

/-- Is there a match anywhere in the list? -/
def search (pattern : Pattern α) (xs : List α) : Bool :=
  xs.tails.any fun ys => !(pattern.rests ys).isEmpty

theorem mem_rests {pattern : Pattern α} {xs zs : List α} :
    zs ∈ pattern.rests xs ↔ ∃ ys, xs = ys ++ zs ∧ pattern.Matches ys := by
  induction pattern generalizing xs zs with
  | literal text =>
      simp only [rests, Matches]
      constructor
      · intro h
        split at h
        · rename_i hpre
          obtain ⟨rest, rfl⟩ := hpre
          obtain rfl := List.mem_singleton.mp h
          exact ⟨text, by rw [List.drop_left], rfl⟩
        · cases h
      · rintro ⟨ys, rfl, rfl⟩
        rw [if_pos (List.prefix_append ys zs), List.drop_left]
        exact List.mem_singleton_self zs
  | optional pattern ih =>
      rw [rests, List.mem_append, List.mem_singleton, ih]
      constructor
      · rintro (⟨ys, hsplit, hmatches⟩ | rfl)
        · exact ⟨ys, hsplit, .inr hmatches⟩
        · exact ⟨[], rfl, .inl rfl⟩
      · rintro ⟨ys, hsplit, rfl | hmatches⟩
        · exact .inr hsplit.symm
        · exact .inl ⟨ys, hsplit, hmatches⟩
  | append first second ihFirst ihSecond =>
      simp only [rests, List.mem_flatMap, ihFirst, ihSecond, Matches]
      constructor
      · rintro ⟨rest, ⟨ys, rfl, hfirst⟩, zs', rfl, hsecond⟩
        exact ⟨ys ++ zs', by rw [List.append_assoc], ys, zs', rfl, hfirst, hsecond⟩
      · rintro ⟨_, rfl, ys, zs', rfl, hfirst, hsecond⟩
        exact ⟨zs' ++ zs, ⟨ys, by rw [List.append_assoc], hfirst⟩, zs', rfl, hsecond⟩
  | anything =>
      rw [rests, List.mem_tails]
      constructor
      · rintro ⟨ys, rfl⟩
        exact ⟨ys, rfl, trivial⟩
      · rintro ⟨ys, rfl, -⟩
        exact List.suffix_append ys zs

/-- The search finds the matches that begin and end anywhere. -/
theorem search_iff {pattern : Pattern α} {xs : List α} :
    pattern.search xs = true ↔ ∃ ys, ys <:+: xs ∧ pattern.Matches ys := by
  rw [search, List.any_eq_true]
  constructor
  · rintro ⟨zs, hsuffix, hfound⟩
    rw [Bool.not_eq_true', List.isEmpty_eq_false_iff] at hfound
    obtain ⟨after, hafter⟩ := List.exists_mem_of_ne_nil _ hfound
    obtain ⟨ys, rfl, hmatches⟩ := mem_rests.mp hafter
    obtain ⟨before, rfl⟩ := (List.mem_tails _ _).mp hsuffix
    exact ⟨ys, ⟨before, after, by rw [List.append_assoc]⟩, hmatches⟩
  · rintro ⟨ys, ⟨before, after, rfl⟩, hmatches⟩
    have hafter : after ∈ pattern.rests (ys ++ after) := mem_rests.mpr ⟨ys, rfl, hmatches⟩
    refine ⟨ys ++ after, (List.mem_tails _ _).mpr ⟨before, by rw [List.append_assoc]⟩, ?_⟩
    rw [Bool.not_eq_true', List.isEmpty_eq_false_iff]
    exact List.ne_nil_of_mem hafter

end Pattern
