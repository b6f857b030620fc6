import Mathlib.Data.List.MinMax
import Mathlib.Data.List.Sort
import Mathlib.Tactic.Common

/-!
# The first of the largest entries

A stable sort by a key, largest first, puts the first of the largest entries at the front: that is
`List.argmax` (`head?_insertionSort`). Reordering the list leaves it in place exactly when there is
one largest entry at most (`argmax_perm_iff`).
-/

namespace FirstMax

variable {α β : Type} [LinearOrder β] {f : α → β} {l l' : List α} {a : α}

/-- An entry no other one exceeds. -/
def IsLargest (f : α → β) (l : List α) (a : α) : Prop := a ∈ l ∧ ∀ b ∈ l, f b ≤ f a

/-- **The head of a stable sort**, largest first. -/
theorem head?_insertionSort (f : α → β) (l : List α) :
    (l.insertionSort fun a b => f b ≤ f a).head? = l.argmax f := by
  induction l with
  | nil => rfl
  | cons a l ih =>
      rw [List.insertionSort_cons, List.argmax_cons, ← ih]
      cases l.insertionSort fun a b => f b ≤ f a with
      | nil => rfl
      | cons b m =>
          -- `a` goes before `b` unless `b` is larger: on a tie the earlier entry stays first
          by_cases h : f b ≤ f a
          · rw [List.orderedInsert_cons, if_pos h]
            exact (if_neg (not_lt.mpr h)).symm
          · rw [List.orderedInsert_cons, if_neg h]
            exact (if_pos (not_le.mp h)).symm

theorem isLargest_of_argmax (h : l.argmax f = some a) : IsLargest f l a :=
  ⟨List.argmax_mem h, fun _ hb => List.le_of_mem_argmax hb h⟩

theorem IsLargest.perm (h : IsLargest f l a) (hp : l.Perm l') : IsLargest f l' a :=
  ⟨hp.subset h.1, fun b hb => h.2 b (hp.symm.subset hb)⟩

/-- A largest entry at the front is the first one. -/
theorem argmax_cons_of_isLargest (h : IsLargest f (a :: l) a) : (a :: l).argmax f = some a := by
  rw [List.argmax_cons]
  cases hm : l.argmax f with
  | none => rfl
  | some b =>
      have hb : f b ≤ f a := h.2 b (List.mem_cons_of_mem _ (List.argmax_mem hm))
      exact if_neg (not_lt.mpr hb)

/-- Any largest entry comes first in some order. -/
theorem IsLargest.exists_perm (h : IsLargest f l a) : ∃ l', l.Perm l' ∧ l'.argmax f = some a := by
  obtain ⟨s, t, rfl⟩ := List.append_of_mem h.1
  have hp : (s ++ a :: t).Perm (a :: (s ++ t)) := List.perm_middle
  exact ⟨a :: (s ++ t), hp, argmax_cons_of_isLargest (h.perm hp)⟩

/-- **Reordering keeps the first of the largest entries exactly when there is one at most.** -/
theorem argmax_perm_iff : (∀ l', l.Perm l' → l'.argmax f = l.argmax f) ↔
    ∀ a b, IsLargest f l a → IsLargest f l b → a = b := by
  refine ⟨fun h a b ha hb => ?_, fun h l' hp => ?_⟩
  · obtain ⟨la, hpa, ea⟩ := ha.exists_perm
    obtain ⟨lb, hpb, eb⟩ := hb.exists_perm
    rw [h la hpa] at ea
    rw [h lb hpb, ea] at eb
    exact Option.some.inj eb
  · cases hm' : l'.argmax f with
    | none =>
        rw [List.argmax_eq_none] at hm'
        subst hm'
        rw [hp.eq_nil]
        rfl
    | some b =>
        have hb : IsLargest f l b := (isLargest_of_argmax hm').perm hp.symm
        cases hm : l.argmax f with
        | none =>
            rw [List.argmax_eq_none] at hm
            subst hm
            exact absurd hb.1 List.not_mem_nil
        | some a => rw [h a b (isLargest_of_argmax hm) hb]

end FirstMax
