import Mathlib.Algebra.Ring.Nat
import Mathlib.Data.List.Basic
import Mathlib.Tactic.Common

/-!
# Texts that can be read back

Rules about texts written piece by piece.

* `PrefixFree` codes: a word is told from what follows it. A sequence of code words closed by a mark
  that starts none of them determines the sequence (`PrefixFree.flatMap_inj`).
* `append_mark_inj`: the first mark of a text is in one place.
* `OneOff` lists of pieces differ in one place only. Joined by a separator they stay different
  (`OneOff.intercalate_ne`), whatever the pieces hold.
* Fewer pieces make a shorter text (`length_intercalate_lt`).
-/

namespace Codes

variable {α β : Type}

/-- From a word and what follows it the symbol is known. -/
def PrefixFree (code : α → List β) : Prop :=
  ∀ a b x y, code a ++ x = code b ++ y → a = b

/-- A decoder that looks at the beginning only. -/
theorem prefixFree_of_decode {code : α → List β} (decode : List β → Option α)
    (h : ∀ a x, decode (code a ++ x) = some a) : PrefixFree code := by
  intro a b x y e
  have ha := h a x
  rw [e, h b y] at ha
  exact (Option.some.inj ha).symm

/-- **A closed sequence of code words determines the sequence**, and where it ends. -/
theorem PrefixFree.flatMap_inj {code : α → List β} (hcode : PrefixFree code) {mark : β}
    (hmark : ∀ a x y, code a ++ x ≠ mark :: y) {as bs : List α} {x y : List β}
    (h : as.flatMap code ++ mark :: x = bs.flatMap code ++ mark :: y) : as = bs ∧ x = y := by
  induction as generalizing bs with
  | nil =>
      cases bs with
      | nil => exact ⟨rfl, (List.cons.inj h).2⟩
      | cons b bs =>
          rw [List.flatMap_cons, List.append_assoc] at h
          exact absurd h.symm (hmark b _ _)
  | cons a as ih =>
      cases bs with
      | nil =>
          rw [List.flatMap_cons, List.append_assoc] at h
          exact absurd h (hmark a _ _)
      | cons b bs =>
          rw [List.flatMap_cons, List.flatMap_cons, List.append_assoc, List.append_assoc] at h
          have hab := hcode a b _ _ h
          subst hab
          obtain ⟨rfl, hxy⟩ := ih (List.append_cancel_left h)
          exact ⟨rfl, hxy⟩

/-- Before the first mark. -/
theorem append_mark_inj {a b c d : List β} {mark : β} (h : a ++ mark :: b = c ++ mark :: d)
    (ha : mark ∉ a) (hc : mark ∉ c) : a = c ∧ b = d := by
  induction a generalizing c with
  | nil =>
      cases c with
      | nil => exact ⟨rfl, (List.cons.inj h).2⟩
      | cons x c =>
          rw [(List.cons.inj h).1] at hc
          exact absurd List.mem_cons_self hc
  | cons x a ih =>
      cases c with
      | nil =>
          rw [← (List.cons.inj h).1] at ha
          exact absurd List.mem_cons_self ha
      | cons y c =>
          obtain ⟨rfl, htail⟩ := List.cons.inj h
          obtain ⟨rfl, hbd⟩ := ih htail (fun hm => ha (List.mem_cons_of_mem _ hm))
            fun hm => hc (List.mem_cons_of_mem _ hm)
          exact ⟨rfl, hbd⟩

/-- Two lists of pieces that differ in exactly one place. -/
def OneOff (l l' : List α) : Prop :=
  ∃ pre x y post, l = pre ++ x :: post ∧ l' = pre ++ y :: post ∧ x ≠ y

theorem string_append_left_cancel {a b c : String} (h : a ++ b = a ++ c) : b = c := by
  rw [← String.toList_inj, String.toList_append, String.toList_append] at h
  exact String.toList_inj.mp (List.append_cancel_left h)

theorem string_append_right_cancel {a b c : String} (h : a ++ c = b ++ c) : a = b := by
  rw [← String.toList_inj, String.toList_append, String.toList_append] at h
  exact String.toList_inj.mp (List.append_cancel_right h)

/-- Brackets around different texts. -/
theorem bracket_ne {l r a b : String} (h : a ≠ b) : l ++ a ++ r ≠ l ++ b ++ r :=
  fun e => h (string_append_left_cancel (string_append_right_cancel e))

/-- **Pieces that differ in one place stay different when they are joined.** -/
theorem OneOff.intercalate_ne {l l' : List String} (h : OneOff l l') (sep : String) :
    sep.intercalate l ≠ sep.intercalate l' := by
  obtain ⟨pre, x, y, post, rfl, rfl, hne⟩ := h
  induction pre with
  | nil =>
      intro e
      cases post with
      | nil => exact hne (by simpa using e)
      | cons p ps =>
          rw [List.nil_append, List.nil_append, String.intercalate_cons_cons,
            String.intercalate_cons_cons, String.append_assoc, String.append_assoc] at e
          exact hne (string_append_right_cancel e)
  | cons p pre ih =>
      intro e
      rw [List.cons_append, List.cons_append, String.intercalate_cons_of_ne_nil (by simp),
        String.intercalate_cons_of_ne_nil (by simp)] at e
      exact ih (string_append_left_cancel e)

/-- The length of joined pieces. -/
theorem length_intercalate_add {l : List String} (h : l ≠ []) (sep : String) :
    (sep.intercalate l).length + sep.length = (l.map fun s => s.length + sep.length).sum := by
  induction l with
  | nil => exact absurd rfl h
  | cons s l ih =>
      cases l with
      | nil => simp
      | cons t l =>
          have := ih (List.cons_ne_nil _ _)
          rw [String.intercalate_cons_cons, String.length_append, String.length_append,
            List.map_cons, List.sum_cons, ← this]
          omega

/-- Each piece counts for at least one. -/
theorem sum_add_length_le {w : α → Nat} {l l' : List α} (hsub : l'.Sublist l)
    (hw : ∀ a ∈ l, 1 ≤ w a) : (l'.map w).sum + l.length ≤ (l.map w).sum + l'.length := by
  induction hsub with
  | slnil => exact Nat.le_refl _
  | cons a _ ih =>
      have ha := hw a List.mem_cons_self
      have := ih fun b hb => hw b (List.mem_cons_of_mem _ hb)
      rw [List.map_cons, List.sum_cons, List.length_cons]
      omega
  | cons_cons a _ ih =>
      have := ih fun b hb => hw b (List.mem_cons_of_mem _ hb)
      rw [List.map_cons, List.sum_cons, List.length_cons, List.map_cons, List.sum_cons,
        List.length_cons]
      omega

/-- **Fewer pieces make a shorter text.** -/
theorem length_intercalate_lt {l l' : List String} (hsub : l'.Sublist l)
    (hlen : l'.length < l.length) (hne : ∀ s ∈ l, s ≠ "") (sep : String) :
    (sep.intercalate l').length < (sep.intercalate l).length := by
  have hpos : ∀ s ∈ l, 1 ≤ s.length + sep.length := by
    intro s hs
    have : s.length ≠ 0 := fun e => hne s hs (String.length_eq_zero_iff.mp e)
    omega
  have hl : l ≠ [] := fun e => by simp [e] at hlen
  have hsum := sum_add_length_le hsub hpos
  have htext := length_intercalate_add hl sep
  by_cases hl' : l' = []
  · obtain ⟨s, rest, rfl⟩ := List.exists_cons_of_ne_nil hl
    have hs := hne s List.mem_cons_self
    have hs' : s.length ≠ 0 := fun e => hs (String.length_eq_zero_iff.mp e)
    rw [List.map_cons, List.sum_cons] at htext
    rw [hl', String.intercalate_nil, String.length_empty]
    omega
  · have htext' := length_intercalate_add hl' sep
    omega

end Codes
