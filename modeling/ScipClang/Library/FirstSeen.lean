import Mathlib.Data.Finset.Card
import Mathlib.Data.List.Perm.Basic
import Mathlib.Tactic

/-!
# Handing out items to the first batch that contains them

Batches of items arrive one after the other; an item is *claimed* by the first
batch that contains it, and within a batch by its first occurrence.  `claim` is
the scan of one batch against the set of items seen before it, `claimBatches`
the scan of a sequence of batches.

The two facts that matter about such a scan are that it is exactly-once
(`nodup_flatten_claimBatches`, `mem_claimBatches_getElem`) and that the set of
all claimed items does not depend on the order of the batches
(`mem_flatten_claimBatches`).
-/

namespace FirstSeen

variable {α : Type*} [DecidableEq α]

/-- The items of a batch that are not in `seen`, each at its first occurrence. -/
def claim (seen : Finset α) : List α → List α
  | [] => []
  | x :: xs => if x ∈ seen then claim seen xs else x :: claim (insert x seen) xs

/-- The items claimed by each batch of a sequence. -/
def claimBatches (seen : Finset α) : List (List α) → List (List α)
  | [] => []
  | batch :: batches => claim seen batch :: claimBatches (seen ∪ batch.toFinset) batches

theorem claim_cons_of_mem {seen : Finset α} {x : α} (xs : List α) (hx : x ∈ seen) :
    claim seen (x :: xs) = claim seen xs := by
  simp [claim, hx]

theorem claim_cons_of_notMem {seen : Finset α} {x : α} (xs : List α) (hx : x ∉ seen) :
    claim seen (x :: xs) = x :: claim (insert x seen) xs := by
  simp [claim, hx]

@[simp] theorem mem_claim {seen : Finset α} {xs : List α} {x : α} :
    x ∈ claim seen xs ↔ x ∈ xs ∧ x ∉ seen := by
  induction xs generalizing seen with
  | nil => simp [claim]
  | cons y ys ih =>
      by_cases hy : y ∈ seen
      · rw [claim_cons_of_mem ys hy, ih]
        constructor
        · rintro ⟨hmem, hnot⟩
          exact ⟨List.mem_cons_of_mem y hmem, hnot⟩
        · rintro ⟨hmem, hnot⟩
          rcases List.mem_cons.mp hmem with rfl | hmem
          · exact absurd hy hnot
          · exact ⟨hmem, hnot⟩
      · rw [claim_cons_of_notMem ys hy, List.mem_cons, ih, List.mem_cons]
        constructor
        · rintro (rfl | ⟨hmem, hnot⟩)
          · exact ⟨Or.inl rfl, hy⟩
          · exact ⟨Or.inr hmem, fun h => hnot (Finset.mem_insert_of_mem h)⟩
        · rintro ⟨rfl | hmem, hnot⟩
          · exact Or.inl rfl
          · by_cases hxy : x = y
            · exact Or.inl hxy
            · exact Or.inr ⟨hmem, by simp [hxy, hnot]⟩

theorem nodup_claim (seen : Finset α) (xs : List α) : (claim seen xs).Nodup := by
  induction xs generalizing seen with
  | nil => simp [claim]
  | cons y ys ih =>
      by_cases hy : y ∈ seen
      · rw [claim_cons_of_mem ys hy]
        exact ih seen
      · rw [claim_cons_of_notMem ys hy, List.nodup_cons]
        exact ⟨by simp, ih (insert y seen)⟩

/-- A batch can be scanned in pieces. -/
theorem claim_append (seen : Finset α) (xs ys : List α) :
    claim seen (xs ++ ys) = claim seen xs ++ claim (seen ∪ xs.toFinset) ys := by
  induction xs generalizing seen with
  | nil => simp [claim]
  | cons x xs ih =>
      have hunion : seen ∪ (x :: xs).toFinset = insert x seen ∪ xs.toFinset := by
        ext z
        simp only [Finset.mem_union, List.mem_toFinset, List.mem_cons, Finset.mem_insert]
        tauto
      by_cases hx : x ∈ seen
      · rw [List.cons_append, claim_cons_of_mem _ hx, claim_cons_of_mem _ hx, ih, hunion,
          Finset.insert_eq_of_mem hx]
      · rw [List.cons_append, claim_cons_of_notMem _ hx, claim_cons_of_notMem _ hx, ih,
          hunion, List.cons_append]

/-- **Each item goes to the first batch that contains it.** -/
theorem mem_claimBatches_getElem {seen : Finset α} {batches : List (List α)} {i : ℕ}
    {x : α} :
    (∃ claimed, (claimBatches seen batches)[i]? = some claimed ∧ x ∈ claimed) ↔
      (∃ batch, batches[i]? = some batch ∧ x ∈ batch) ∧ x ∉ seen ∧
        ∀ k < i, ∀ batch, batches[k]? = some batch → x ∉ batch := by
  induction batches generalizing seen i with
  | nil => simp [claimBatches]
  | cons batch batches ih =>
      cases i with
      | zero => simp [claimBatches]
      | succ i =>
          simp only [claimBatches, List.getElem?_cons_succ, ih, Finset.mem_union,
            List.mem_toFinset, not_or]
          constructor
          · rintro ⟨hmem, ⟨hseen, hbatch⟩, hbefore⟩
            refine ⟨hmem, hseen, fun k hk b hb => ?_⟩
            cases k with
            | zero =>
                rw [List.getElem?_cons_zero, Option.some.injEq] at hb
                rwa [← hb]
            | succ k => exact hbefore k (by omega) b (by simpa using hb)
          · rintro ⟨hmem, hseen, hbefore⟩
            exact ⟨hmem, ⟨hseen, hbefore 0 (by omega) batch (by simp)⟩,
              fun k hk b hb => hbefore (k + 1) (by omega) b (by simpa using hb)⟩

/-- All claimed items together: what the batches contain beyond `seen`. -/
theorem mem_flatten_claimBatches {seen : Finset α} {batches : List (List α)} {x : α} :
    x ∈ (claimBatches seen batches).flatten ↔ x ∈ batches.flatten ∧ x ∉ seen := by
  induction batches generalizing seen with
  | nil => simp [claimBatches]
  | cons batch batches ih =>
      simp only [claimBatches, List.flatten_cons, List.mem_append, mem_claim, ih,
        Finset.mem_union, List.mem_toFinset]
      tauto

/-- **No item is claimed twice**, neither within a batch nor across batches. -/
theorem nodup_flatten_claimBatches (seen : Finset α) (batches : List (List α)) :
    (claimBatches seen batches).flatten.Nodup := by
  induction batches generalizing seen with
  | nil => simp [claimBatches]
  | cons batch batches ih =>
      rw [claimBatches, List.flatten_cons, List.nodup_append']
      refine ⟨nodup_claim seen batch, ih _, ?_⟩
      intro x hx hx'
      rw [mem_claim] at hx
      rw [mem_flatten_claimBatches] at hx'
      exact hx'.2 (by simp [hx.1])

end FirstSeen
