import Mathlib.Algebra.Order.BigOperators.Group.List
import Mathlib.Algebra.Order.Field.Basic
import Mathlib.Algebra.Order.Module.Defs
import Mathlib.Data.List.MinMax

/-!
# The mean of a list

Over a linearly ordered field: the mean lies between any bounds of the entries (`le_mean`,
`mean_le`), does not depend on their order (`mean_perm`) and grows with them (`mean_mono`); bounds
that are entries exist (`exists_extremes`).
-/

namespace Mean

variable {K : Type} [Field K]

def mean (l : List K) : K := l.sum / l.length

theorem mean_perm {l l' : List K} (h : l.Perm l') : mean l = mean l' := by
  unfold mean
  rw [h.sum_eq, h.length_eq]

variable [LinearOrder K] [IsStrictOrderedRing K]

theorem length_pos_of_ne_nil {l : List K} (h : l ≠ []) : (0 : K) < l.length :=
  Nat.cast_pos.mpr (List.length_pos_iff.mpr h)

theorem le_mean {l : List K} (hne : l ≠ []) {a : K} (h : ∀ x ∈ l, a ≤ x) : a ≤ mean l := by
  have hsum := List.card_nsmul_le_sum l a h
  rw [nsmul_eq_mul, mul_comm] at hsum
  exact (le_div_iff₀ (length_pos_of_ne_nil hne)).mpr hsum

theorem mean_le {l : List K} (hne : l ≠ []) {b : K} (h : ∀ x ∈ l, x ≤ b) : mean l ≤ b := by
  have hsum := List.sum_le_card_nsmul l b h
  rw [nsmul_eq_mul, mul_comm] at hsum
  exact (div_le_iff₀ (length_pos_of_ne_nil hne)).mpr hsum

theorem mean_mono {l l' : List K} (h : List.Forall₂ (· ≤ ·) l l') : mean l ≤ mean l' := by
  unfold mean
  rw [h.length_eq]
  exact div_le_div_of_nonneg_right h.sum_le_sum (Nat.cast_nonneg _)

omit [Field K] [IsStrictOrderedRing K] in
/-- A smallest and a largest entry. -/
theorem exists_extremes {l : List K} (hne : l ≠ []) :
    ∃ lo ∈ l, ∃ hi ∈ l, ∀ x ∈ l, lo ≤ x ∧ x ≤ hi := by
  have hmin : l.argmin id ≠ none := fun e => hne (List.argmin_eq_none.mp e)
  have hmax : l.argmax id ≠ none := fun e => hne (List.argmax_eq_none.mp e)
  obtain ⟨lo, hlo⟩ := Option.ne_none_iff_exists'.mp hmin
  obtain ⟨hi, hhi⟩ := Option.ne_none_iff_exists'.mp hmax
  exact ⟨lo, List.argmin_mem hlo, hi, List.argmax_mem hhi, fun x hx =>
    ⟨List.le_of_mem_argmin hx hlo, List.le_of_mem_argmax hx hhi⟩⟩

end Mean
