import Mathlib.Data.List.Induction
import Mathlib.Data.List.Nodup
import Mathlib.Tactic.Common

/-!
# The first entry of each key

`firsts key l` keeps the entries of `l` whose key no earlier entry has, in their order. It is the
specification of a loop that remembers the keys it has seen.

* **`firsts_append_singleton`**: what one more entry adds;
* `mem_firsts_iff`, `nodup_map_firsts`, `mem_map_firsts_iff`: which entries and keys there are;
* **`firsts_append`**: the second of two lists adds its entries with a new key.
-/

namespace FirstOccurrence

variable {α κ : Type} [DecidableEq κ]

/-- The entries at a position before which no entry has the same key. -/
def firsts (key : α → κ) (l : List α) : List α :=
  (l.zipIdx.filter fun p => decide (key p.1 ∉ (l.take p.2).map key)).map Prod.fst

variable {key : α → κ}

theorem firsts_append_singleton (l : List α) (a : α) :
    firsts key (l ++ [a]) = firsts key l ++ if key a ∈ l.map key then [] else [a] := by
  have hold : ∀ p ∈ l.zipIdx, decide (key p.1 ∉ ((l ++ [a]).take p.2).map key) =
      decide (key p.1 ∉ (l.take p.2).map key) := by
    intro p hp
    have hlt : p.2 < l.length := by
      have := List.snd_lt_of_mem_zipIdx hp
      omega
    rw [List.take_append_of_le_length (by omega)]
  unfold firsts
  rw [List.zipIdx_append, List.filter_append, List.map_append, List.filter_congr hold]
  congr 1
  rw [List.zipIdx_singleton, Nat.zero_add]
  have htake : (l ++ [a]).take l.length = l := List.take_left' rfl
  by_cases h : key a ∈ l.map key
  · rw [if_pos h, List.filter_cons_of_neg (by simpa [htake] using h)]
    rfl
  · rw [if_neg h, List.filter_cons_of_pos (by simpa [htake] using h)]
    rfl

@[simp] theorem firsts_nil : firsts key ([] : List α) = [] := rfl

/-- **Which entries are kept.** -/
theorem mem_firsts_iff {l : List α} {a : α} : a ∈ firsts key l ↔
    ∃ pre post, l = pre ++ a :: post ∧ key a ∉ pre.map key := by
  unfold firsts
  rw [List.mem_map]
  refine ⟨fun ⟨p, hp, e⟩ => ?_, fun ⟨pre, post, e, hpre⟩ => ?_⟩
  · obtain ⟨hin, hnew⟩ := List.mem_filter.mp hp
    obtain ⟨hi, hget⟩ := List.getElem?_eq_some_iff.mp (List.mk_mem_zipIdx_iff_getElem?.mp hin)
    refine ⟨l.take p.2, l.drop (p.2 + 1), ?_, e ▸ of_decide_eq_true hnew⟩
    rw [← e, ← hget, ← List.drop_eq_getElem_cons hi, List.take_append_drop]
  · refine ⟨(a, pre.length), List.mem_filter.mpr ⟨?_, ?_⟩, rfl⟩
    · rw [List.mk_mem_zipIdx_iff_getElem?, e]
      simp
    · rw [e, List.take_left' rfl]
      exact decide_eq_true hpre

theorem firsts_subset (l : List α) : firsts key l ⊆ l := by
  intro a ha
  obtain ⟨pre, post, rfl, -⟩ := mem_firsts_iff.mp ha
  simp

/-- **All keys are there.** -/
theorem mem_map_firsts_iff {l : List α} {k : κ} :
    k ∈ (firsts key l).map key ↔ k ∈ l.map key := by
  induction l using List.reverseRec with
  | nil => exact Iff.rfl
  | append_singleton l a ih =>
      rw [firsts_append_singleton, List.map_append, List.mem_append, ih, List.map_append,
        List.mem_append]
      refine or_congr_right' fun hk => ?_
      split
      · rename_i ha
        refine ⟨fun h => (by cases h), fun h => ?_⟩
        rw [List.map_singleton, List.mem_singleton] at h
        exact absurd (h ▸ ha) hk
      · exact Iff.rfl

/-- One more entry of a list of which only some are read. -/
theorem firsts_filter_append_singleton (p : α → Bool) (l : List α) (a : α) :
    firsts key ((l ++ [a]).filter p) = firsts key (l.filter p) ++
      if p a = true ∧ key a ∉ (firsts key (l.filter p)).map key then [a] else [] := by
  rw [List.filter_append]
  by_cases hp : p a = true
  · rw [List.filter_cons_of_pos hp, List.filter_nil, firsts_append_singleton]
    by_cases hk : key a ∈ (l.filter p).map key
    · rw [if_pos hk, if_neg fun h => h.2 (mem_map_firsts_iff.mpr hk)]
    · rw [if_neg hk, if_pos ⟨hp, mt mem_map_firsts_iff.mp hk⟩]
  · rw [List.filter_cons_of_neg hp, List.filter_nil, List.append_nil, if_neg fun h => hp h.1,
      List.append_nil]

/-- **No key is there twice.** -/
theorem nodup_map_firsts (l : List α) : ((firsts key l).map key).Nodup := by
  induction l using List.reverseRec with
  | nil => exact List.nodup_nil
  | append_singleton l a ih =>
      rw [firsts_append_singleton]
      split
      · rw [List.append_nil]
        exact ih
      · rename_i ha
        rw [List.map_append, List.map_singleton]
        refine List.nodup_append.mpr ⟨ih, List.nodup_singleton _, fun k hk k' hk' e => ha ?_⟩
        rw [List.mem_singleton.mp hk'] at e
        exact e ▸ mem_map_firsts_iff.mp hk

/-- **The second list adds its entries with a new key.** -/
theorem firsts_append (xs ys : List α) : firsts key (xs ++ ys) =
    firsts key xs ++ (firsts key ys).filter fun a => decide (key a ∉ xs.map key) := by
  induction ys using List.reverseRec with
  | nil => simp
  | append_singleton ys a ih =>
      rw [← List.append_assoc, firsts_append_singleton, ih, firsts_append_singleton,
        List.filter_append, List.append_assoc]
      congr 2
      by_cases hx : key a ∈ xs.map key
      · rw [if_pos (by rw [List.map_append]; exact List.mem_append_left _ hx)]
        split
        · rfl
        · rw [List.filter_cons_of_neg (by rw [decide_not, decide_eq_true hx]; simp)]
          rfl
      · by_cases hy : key a ∈ ys.map key
        · rw [if_pos (by rw [List.map_append]; exact List.mem_append_right _ hy), if_pos hy]
          rfl
        · have hxy : key a ∉ (xs ++ ys).map key := by
            rw [List.map_append, List.mem_append]
            exact not_or.mpr ⟨hx, hy⟩
          rw [if_neg hxy, if_neg hy, List.filter_cons, if_pos (decide_eq_true hx)]
          rfl

/-- A list after itself adds nothing. -/
theorem firsts_append_self (xs : List α) : firsts key (xs ++ xs) = firsts key xs := by
  have hnone : ((firsts key xs).filter fun a => decide (key a ∉ xs.map key)) = [] := by
    rw [List.filter_eq_nil_iff]
    intro a ha h
    exact of_decide_eq_true h (List.mem_map_of_mem (firsts_subset xs ha))
  rw [firsts_append, hnone, List.append_nil]

end FirstOccurrence
