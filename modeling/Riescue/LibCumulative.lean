import Mathlib.Algebra.BigOperators.Fin
import Mathlib.Algebra.Order.BigOperators.Group.Finset
import Mathlib.Data.Int.Order.Basic
import Mathlib.Tactic.Common

/-! Cumulative sums of an array of integers: the prefix that a selection walk adds up, and what an update
of one element does to the whole sum. -/

namespace Cumulative
variable {n : ℕ}

/-- The sum of the first `k` elements. -/
def prefixSum (values : Fin n → ℤ) (k : ℕ) : ℤ :=
  ∑ j ∈ Finset.range k, if h : j < n then values ⟨j, h⟩ else 0

@[simp] theorem prefixSum_zero (values : Fin n → ℤ) : prefixSum values 0 = 0 := rfl

theorem prefixSum_succ (values : Fin n → ℤ) (k : Fin n) :
    prefixSum values (k.val + 1) = prefixSum values k.val + values k := by
  rw [prefixSum, Finset.sum_range_succ, dif_pos k.isLt]
  rfl

theorem prefixSum_all (values : Fin n → ℤ) : prefixSum values n = ∑ k, values k := by
  rw [prefixSum, Finset.sum_range]
  exact Finset.sum_congr rfl fun k _ => dif_pos k.isLt

theorem sum_update (values : Fin n → ℤ) (k : Fin n) (value : ℤ) :
    ∑ j, Function.update values k value j = ∑ j, values j - values k + value := by
  rw [Finset.sum_update_of_mem (Finset.mem_univ k), Finset.sdiff_singleton_eq_erase,
    Finset.sum_erase_eq_sub (Finset.mem_univ k)]
  omega

theorem eq_zero_of_sum_eq_zero {values : Fin n → ℤ} (hnonneg : ∀ k, 0 ≤ values k)
    (hsum : ∑ k, values k = 0) (k : Fin n) : values k = 0 :=
  (Finset.sum_eq_zero_iff_of_nonneg fun j _ => hnonneg j).mp hsum k (Finset.mem_univ k)

end Cumulative
