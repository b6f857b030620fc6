import AutomationPlatform.Library.Mean
import AutomationPlatform.Orchestrator.Suggestions
import Mathlib.Algebra.Order.Ring.Rat
import Mathlib.Tactic.NormNum

/-!
# From rule scores to an approval

Over exact rationals: the confidence is the mean of the rule scores, and the state of the suggestion
built from it compares that mean with the threshold.

* `scoreConfidence_eq_mean`: the fold and the division are the mean, also of no scores;
* **`approvalGate`**: the laws of the confidence, and of the gate behind it.
-/

namespace AutomationPlatform

open Python Mean

theorem scoreConfidence_eq_mean (scores : List ℚ) : scoreConfidence scores = mean scores := by
  unfold scoreConfidence mean
  cases scores with
  | nil => norm_num
  | cons x xs => rw [List.sum_eq_foldl, List.isEmpty_cons, if_neg (by simp)]

/-- The state of the suggestion `make_suggestion` builds from the confidence of the scores. -/
def gateState (id createdAt ingestedRowId templateId : String) (payload : Record ℚ)
    (scores : List ℚ) : Value ℚ :=
  (makeSuggestion id createdAt ingestedRowId templateId payload (scoreConfidence scores)).get
    "state"

/-- Every score is at least what it was. -/
def Raised (scores scores' : List ℚ) : Prop := List.Forall₂ (· ≤ ·) scores scores'

/-- **The laws of the confidence.** -/
structure ConfidenceLaws (scores : List ℚ) : Prop where
  unit : 0 ≤ scoreConfidence scores ∧ scoreConfidence scores ≤ 1
  between : scores ≠ [] → ∃ lo ∈ scores, ∃ hi ∈ scores, (∀ x ∈ scores, lo ≤ x ∧ x ≤ hi) ∧
    lo ≤ scoreConfidence scores ∧ scoreConfidence scores ≤ hi
  order : ∀ scores', scores.Perm scores' → scoreConfidence scores' = scoreConfidence scores
  mono : ∀ scores', Raised scores scores' → scoreConfidence scores ≤ scoreConfidence scores'

/-- **The laws of the gate**, `state` being the state that scores lead to. -/
structure GateLaws (state : List ℚ → Value ℚ) (scores : List ℚ) : Prop where
  total : state scores = .str "approved" ∨ state scores = .str "pending_review"
  approved : state scores = .str "approved" → ∃ x ∈ scores, autoApproveThreshold ≤ x
  pending : state scores = .str "pending_review" →
    scores = [] ∨ ∃ x ∈ scores, x < autoApproveThreshold
  mono : ∀ scores', Raised scores scores' → state scores = .str "approved" →
    state scores' ≠ .str "pending_review"

theorem confidenceLaws {scores : List ℚ} (h : ∀ x ∈ scores, 0 ≤ x ∧ x ≤ 1) :
    ConfidenceLaws scores where
  unit := by
    rw [scoreConfidence_eq_mean]
    by_cases hne : scores = []
    · rw [hne]
      norm_num [mean]
    · exact ⟨le_mean hne fun x hx => (h x hx).1, mean_le hne fun x hx => (h x hx).2⟩
  between hne := by
    obtain ⟨lo, hlo, hi, hhi, hbound⟩ := exists_extremes hne
    rw [scoreConfidence_eq_mean]
    exact ⟨lo, hlo, hi, hhi, hbound, le_mean hne fun x hx => (hbound x hx).1,
      mean_le hne fun x hx => (hbound x hx).2⟩
  order scores' hperm := by
    rw [scoreConfidence_eq_mean, scoreConfidence_eq_mean, mean_perm hperm]
  mono scores' hraised := by
    rw [scoreConfidence_eq_mean, scoreConfidence_eq_mean]
    exact mean_mono hraised

section Gate

variable (id createdAt ingestedRowId templateId : String) (payload : Record ℚ)

theorem gateState_eq (scores : List ℚ) :
    gateState id createdAt ingestedRowId templateId payload scores =
      .str (if autoApproveThreshold ≤ mean scores then "approved" else "pending_review") := by
  have hstate := makeSuggestion_get?_state id createdAt ingestedRowId templateId payload
    (scoreConfidence scores)
  unfold gateState
  rw [Record.get_of_get? hstate, shouldAutoApprove, scoreConfidence_eq_mean]
  simp

theorem gateState_approved_iff {scores : List ℚ} :
    gateState id createdAt ingestedRowId templateId payload scores = .str "approved" ↔
      autoApproveThreshold ≤ mean scores := by
  rw [gateState_eq]
  by_cases h : autoApproveThreshold ≤ mean scores <;> simp [h]

theorem gateState_pending_iff {scores : List ℚ} :
    gateState id createdAt ingestedRowId templateId payload scores = .str "pending_review" ↔
      ¬ autoApproveThreshold ≤ mean scores := by
  rw [gateState_eq]
  by_cases h : autoApproveThreshold ≤ mean scores <;> simp [h]

theorem threshold_pos : (0 : ℚ) < autoApproveThreshold := by norm_num [autoApproveThreshold]

theorem gateLaws (scores : List ℚ) :
    GateLaws (gateState id createdAt ingestedRowId templateId payload) scores where
  total := by
    rw [gateState_approved_iff, gateState_pending_iff]
    exact em _
  approved h := by
    rw [gateState_approved_iff] at h
    by_contra hno
    push Not at hno
    -- every score is below the threshold, and so is the largest
    have hne : scores ≠ [] := by
      intro e
      rw [e] at h
      exact absurd (h.trans_eq (by norm_num [mean])) (not_le.mpr threshold_pos)
    obtain ⟨lo, -, hi, hhi, hbound⟩ := exists_extremes hne
    have hmean := mean_le hne fun x hx => (hbound x hx).2
    exact absurd (h.trans hmean) (not_le.mpr (hno hi hhi))
  pending h := by
    rw [gateState_pending_iff] at h
    by_cases hne : scores = []
    · exact Or.inl hne
    · by_contra hno
      push Not at hno
      exact h (le_mean hne hno.2)
  mono scores' hraised h := by
    rw [gateState_approved_iff] at h
    rw [Ne, gateState_pending_iff, not_not]
    exact h.trans (mean_mono hraised)

/-- **The approval gate is sound and monotone** in rule scores between 0 and 1. -/
theorem approvalGate {scores : List ℚ} (h : ∀ x ∈ scores, 0 ≤ x ∧ x ≤ 1) :
    ConfidenceLaws scores ∧
      GateLaws (gateState id createdAt ingestedRowId templateId payload) scores :=
  ⟨confidenceLaws h, gateLaws id createdAt ingestedRowId templateId payload scores⟩

end Gate

theorem approvalGate_threeScores : ConfidenceLaws [1 / 2, 9 / 10, 1] ∧
    GateLaws (gateState "s1" "now" "row-1" "tpl-1" Dict.empty) [1 / 2, 9 / 10, 1] :=
  approvalGate "s1" "now" "row-1" "tpl-1" Dict.empty (by norm_num)

end AutomationPlatform
