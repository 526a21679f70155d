import Mathlib.Data.List.Infix
import Mathlib.Data.List.TakeWhile
import Mathlib.Tactic

/-!
# The longest prefix with a value

A partial function on lists gives some lists a value.  A list then takes the value of its
longest prefix that has one: the most specific entry of a table of paths, for instance.

A table may remember what it found for other lists, too.  As long as it remembers nothing else
(`IsCache`), the longest prefix is not affected by that (`IsCache.longestPrefix_eq`).
-/

variable {α β : Type*}

/-- The prefixes of a list, the longest first. -/
def prefixesDown (xs : List α) : List (List α) := xs.inits.reverse

@[simp] theorem prefixesDown_nil : prefixesDown ([] : List α) = [[]] := rfl

@[simp] theorem prefixesDown_concat (xs : List α) (x : α) :
    prefixesDown (xs ++ [x]) = (xs ++ [x]) :: prefixesDown xs := by
  simp [prefixesDown, List.inits_append]

theorem mem_prefixesDown {xs ys : List α} : ys ∈ prefixesDown xs ↔ ys <+: xs := by
  rw [prefixesDown, List.mem_reverse, List.mem_inits]

/-- The value of the longest prefix that has one. -/
def longestPrefix (f : List α → Option β) (xs : List α) : Option β := (prefixesDown xs).findSome? f

@[simp] theorem longestPrefix_nil (f : List α → Option β) : longestPrefix f [] = f [] := by
  simp [longestPrefix]

theorem longestPrefix_concat (f : List α → Option β) (xs : List α) (x : α) :
    longestPrefix f (xs ++ [x]) = (f (xs ++ [x])).or (longestPrefix f xs) := by
  rw [longestPrefix, prefixesDown_concat, List.findSome?_cons]
  cases f (xs ++ [x]) <;> rfl

/-- A list with a value takes its own. -/
theorem longestPrefix_of_eq_some {f : List α → Option β} {xs : List α} {b : β}
    (h : f xs = some b) : longestPrefix f xs = some b := by
  cases xs using List.reverseRecOn with
  | nil => rw [longestPrefix_nil, h]
  | append_singleton xs x => rw [longestPrefix_concat, h, Option.some_or]

theorem longestPrefix_eq_none {f : List α → Option β} {xs : List α} :
    longestPrefix f xs = none ↔ ∀ ys, ys <+: xs → f ys = none := by
  simp only [longestPrefix, List.findSome?_eq_none_iff, mem_prefixesDown]

/-- The value is that of a prefix, and no longer prefix has a value. -/
theorem longestPrefix_eq_some {f : List α → Option β} {xs : List α} {b : β} :
    longestPrefix f xs = some b ↔ ∃ ys, ys <+: xs ∧ f ys = some b ∧
      ∀ zs, zs <+: xs → (f zs).isSome → zs <+: ys := by
  induction xs using List.reverseRecOn with
  | nil =>
      rw [longestPrefix_nil]
      constructor
      · intro h
        exact ⟨[], List.prefix_rfl, h, fun zs hzs _ => hzs⟩
      · rintro ⟨ys, hys, h, -⟩
        rwa [List.prefix_nil.mp hys] at h
  | append_singleton xs x ih =>
      rw [longestPrefix_concat]
      cases hlast : f (xs ++ [x]) with
      | some c =>
          rw [Option.some_or, Option.some.injEq]
          constructor
          · rintro rfl
            exact ⟨xs ++ [x], List.prefix_rfl, hlast, fun zs hzs _ => hzs⟩
          · rintro ⟨ys, hys, h, hlongest⟩
            have hfull := hlongest (xs ++ [x]) List.prefix_rfl (by rw [hlast]; rfl)
            rw [hys.eq_of_length (Nat.le_antisymm hys.length_le hfull.length_le), hlast,
              Option.some.injEq] at h
            exact h
      | none =>
          rw [Option.none_or, ih]
          -- the whole list has no value, so that it is none of the prefixes in question
          have hproper : ∀ {zs : List α}, (f zs).isSome → zs <+: xs ++ [x] → zs <+: xs := by
            intro zs hzs hpre
            rcases List.prefix_concat_iff.mp hpre with rfl | hpre
            · rw [hlast] at hzs
              cases hzs
            · exact hpre
          constructor
          · rintro ⟨ys, hys, h, hlongest⟩
            exact ⟨ys, hys.trans (List.prefix_append xs [x]), h,
              fun zs hzs hsome => hlongest zs (hproper hsome hzs) hsome⟩
          · rintro ⟨ys, hys, h, hlongest⟩
            exact ⟨ys, hproper (by rw [h]; rfl) hys, h,
              fun zs hzs hsome => hlongest zs (hzs.trans (List.prefix_append xs [x])) hsome⟩

/-- Down to the first prefix with a value, all prefixes take the same value. -/
theorem longestPrefix_of_mem_takeWhile {f : List α → Option β} {xs ys : List α}
    (h : ys ∈ (prefixesDown xs).takeWhile fun zs => (f zs).isNone) :
    longestPrefix f ys = longestPrefix f xs := by
  induction xs using List.reverseRecOn with
  | nil =>
      have hmem := (List.takeWhile_sublist _).mem h
      rw [mem_prefixesDown, List.prefix_nil] at hmem
      rw [hmem]
  | append_singleton xs x ih =>
      rw [prefixesDown_concat] at h
      cases hlast : f (xs ++ [x]) with
      | some b =>
          rw [List.takeWhile_cons_of_neg (by simp [hlast])] at h
          cases h
      | none =>
          rw [List.takeWhile_cons_of_pos (by simp [hlast])] at h
          rcases List.mem_cons.mp h with rfl | h
          · rfl
          · rw [ih h, longestPrefix_concat, hlast, Option.none_or]

/-- Lists with the same prefixes among those with a value take the same one. -/
theorem longestPrefix_congr {f : List α → Option β} {xs ys : List α}
    (h : ∀ zs, (f zs).isSome → (zs <+: xs ↔ zs <+: ys)) :
    longestPrefix f xs = longestPrefix f ys := by
  cases hfound : longestPrefix f ys with
  | none =>
      rw [longestPrefix_eq_none] at hfound ⊢
      intro zs hzs
      cases hvalue : f zs with
      | none => rfl
      | some b =>
          have hnone := hfound zs ((h zs (by rw [hvalue]; rfl)).mp hzs)
          rw [hvalue] at hnone
          cases hnone
  | some b =>
      obtain ⟨zs, hzs, hvalue, hlongest⟩ := longestPrefix_eq_some.mp hfound
      refine longestPrefix_eq_some.mpr ⟨zs, (h zs (by rw [hvalue]; rfl)).mpr hzs, hvalue, ?_⟩
      intro other hother hsome
      exact hlongest other ((h other hsome).mp hother) hsome

/-- If different lists have different values, then only such lists take the same value. -/
theorem longestPrefix_eq_iff {f : List α → Option β}
    (hinj : ∀ xs ys b, f xs = some b → f ys = some b → xs = ys) {xs ys : List α} :
    longestPrefix f xs = longestPrefix f ys ↔
      ∀ zs, (f zs).isSome → (zs <+: xs ↔ zs <+: ys) := by
  refine ⟨fun heq zs hsome => ?_, longestPrefix_congr⟩
  have hpre : ∀ {xs ys : List α}, longestPrefix f xs = longestPrefix f ys → zs <+: xs →
      zs <+: ys := by
    intro xs ys heq hzs
    cases hfound : longestPrefix f xs with
    | none =>
        rw [longestPrefix_eq_none.mp hfound zs hzs] at hsome
        cases hsome
    | some b =>
        obtain ⟨us, hus, hvalue, hlongest⟩ := longestPrefix_eq_some.mp hfound
        obtain ⟨vs, hvs, hvalue', -⟩ := longestPrefix_eq_some.mp (heq ▸ hfound)
        obtain rfl := hinj us vs b hvalue hvalue'
        exact (hlongest zs hzs hsome).trans hvs
  exact ⟨hpre heq, hpre heq.symm⟩

/-- The elements that are in no list with a value end the search. -/
theorem longestPrefix_takeWhile {f : List α → Option β} {p : α → Bool}
    (h : ∀ ys, (f ys).isSome → ∀ y ∈ ys, p y = true) (xs : List α) :
    longestPrefix f (xs.takeWhile p) = longestPrefix f xs := by
  have hpre : ∀ ys, (f ys).isSome → (ys <+: xs.takeWhile p ↔ ys <+: xs) := by
    intro ys hsome
    refine ⟨fun hys => hys.trans (List.takeWhile_prefix p), ?_⟩
    rintro ⟨rest, rfl⟩
    rw [List.takeWhile_append_of_pos (h ys hsome)]
    exact List.prefix_append ys _
  exact longestPrefix_congr hpre

/-- `g` has the values of `f`, and otherwise only values that `f` gives to the longest prefix. -/
structure IsCache (f g : List α → Option β) : Prop where
  keeps : ∀ xs b, f xs = some b → g xs = some b
  sound : ∀ xs b, g xs = some b → longestPrefix f xs = some b

namespace IsCache

theorem refl (f : List α → Option β) : IsCache f f where
  keeps _ _ h := h
  sound _ _ h := longestPrefix_of_eq_some h

/-- **A cache does not affect the longest prefix.** -/
theorem longestPrefix_eq {f g : List α → Option β} (h : IsCache f g) (xs : List α) :
    longestPrefix g xs = longestPrefix f xs := by
  induction xs using List.reverseRecOn with
  | nil =>
      cases hg : g [] with
      | some b => rw [longestPrefix_of_eq_some hg, h.sound [] b hg]
      | none =>
          rw [longestPrefix_nil, longestPrefix_nil, hg]
          cases hf : f [] with
          | none => rfl
          | some b => rw [h.keeps [] b hf] at hg; cases hg
  | append_singleton xs x ih =>
      cases hg : g (xs ++ [x]) with
      | some b => rw [longestPrefix_of_eq_some hg, h.sound _ b hg]
      | none =>
          have hf : f (xs ++ [x]) = none := by
            cases hf : f (xs ++ [x]) with
            | none => rfl
            | some b => rw [h.keeps _ b hf] at hg; cases hg
          rw [longestPrefix_concat, longestPrefix_concat, hg, hf, ih]

/-- What was found may be remembered. -/
theorem extend {f g g' : List α → Option β} (h : IsCache f g)
    (hextend : ∀ xs, g' xs = g xs ∨ g xs = none ∧ g' xs = longestPrefix g xs) : IsCache f g' where
  keeps xs b hf := by
    have hg := h.keeps xs b hf
    rcases hextend xs with hsame | ⟨hnone, -⟩
    · rw [hsame, hg]
    · rw [hg] at hnone
      cases hnone
  sound xs b hg' := by
    rcases hextend xs with hsame | ⟨-, hfound⟩
    · exact h.sound xs b (hsame ▸ hg')
    · rw [← h.longestPrefix_eq, ← hfound, hg']

end IsCache
