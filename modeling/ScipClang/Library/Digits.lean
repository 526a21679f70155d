import Mathlib.Tactic

/-!
# Numbers in positional notation

What core does not say about `Nat.toDigits`: which characters it writes, and that it is
injective also for bases with letters among their digits.
-/

namespace Digits

/-- The characters of a number are digits of its base. -/
theorem mem_toDigits {b n : Nat} (hb : 1 < b) {c : Char} (h : c ∈ Nat.toDigits b n) :
    ∃ k < b, c = Nat.digitChar k := by
  induction n using Nat.strong_induction_on with
  | h n ih =>
      rw [Nat.toDigits_eq_if hb] at h
      split at h
      · next hlt => exact ⟨n, hlt, List.mem_singleton.mp h⟩
      · next hle =>
        rw [List.mem_append, List.mem_singleton] at h
        rcases h with h | rfl
        · exact ih (n / b) (Nat.div_lt_self (by omega) hb) h
        · exact ⟨n % b, Nat.mod_lt _ (by omega), rfl⟩

/-- Different numbers are written differently. -/
theorem toDigits_injective {b : Nat} (hb : 1 < b) (hle : b ≤ 16) :
    Function.Injective (Nat.toDigits b) := by
  have hdigit : ∀ k < 16, ∀ l < 16, Nat.digitChar k = Nat.digitChar l → k = l := by decide
  intro m
  induction m using Nat.strong_induction_on with
  | h m ih =>
      intro n h
      have hpos : ∀ k, b ≤ k → Nat.toDigits b (k / b) ≠ [] := fun _ _ => Nat.toDigits_ne_nil
      rw [Nat.toDigits_eq_if hb, Nat.toDigits_eq_if hb (n := n)] at h
      by_cases hm : m < b
      · by_cases hn : n < b
        · rw [if_pos hm, if_pos hn, List.singleton_inj] at h
          exact hdigit m (by omega) n (by omega) h
        · rw [if_pos hm, if_neg hn, ← List.nil_append [m.digitChar]] at h
          exact absurd (List.append_inj_left' h rfl).symm (hpos n (Nat.le_of_not_lt hn))
      · by_cases hn : n < b
        · rw [if_neg hm, if_pos hn, ← List.nil_append [n.digitChar]] at h
          exact absurd (List.append_inj_left' h rfl) (hpos m (Nat.le_of_not_lt hm))
        · rw [if_neg hm, if_neg hn] at h
          obtain ⟨hfront, hlast⟩ := List.append_inj' h rfl
          have hdiv := ih (m / b) (Nat.div_lt_self (by omega) hb) hfront
          have hmod := hdigit (m % b) (by have := Nat.mod_lt m (by omega : b > 0); omega)
            (n % b) (by have := Nat.mod_lt n (by omega : b > 0); omega)
            (List.singleton_inj.mp hlast)
          rw [← Nat.div_add_mod m b, ← Nat.div_add_mod n b, hdiv, hmod]

end Digits
