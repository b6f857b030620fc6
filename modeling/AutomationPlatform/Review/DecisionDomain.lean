import AutomationPlatform.Api.Review
import AutomationPlatform.Orchestrator.Review

/-!
# Three readings of one decision string

The request model matches the decision against a pattern, `applyReviewDecision` tests membership and
raises, and `auditTrailEntry` takes any string: its two-way expression reads whatever is not
`"approve"` as a rejection. `decisionsAgree_iff` says on which strings the three agree.
-/

namespace AutomationPlatform

open Python

variable {F : Type}

/-- The request model, the state change and the audit entry agree on the decision of `c`. -/
structure DecisionsAgree (s : Record F) (c : ReviewCall F) : Prop where
  api_iff_apply : (ReviewDecision.mk (F := F) c.decision none none).accepted = true ↔
    ∃ s', applyReviewDecision s c = .ok s'
  apply_iff_audit : (∃ s', applyReviewDecision s c = .ok s') ↔
    ∃ e, auditTrailEntry s c.decision c.reviewerId = .ok e
  states : ∀ s' e, applyReviewDecision s c = .ok s' →
    auditTrailEntry s c.decision c.reviewerId = .ok e →
    beforeState e = s.get "state" ∧ afterState e = s'.get "state"

theorem accepted_iff_valid (c : ReviewCall F) :
    (ReviewDecision.mk (F := F) c.decision none none).accepted = true ↔ c.Valid := by
  simp only [ReviewDecision.accepted, Option.all_none, Bool.and_true]
  exact decisionPattern_iff c.decision

theorem isOk_applyReviewDecision_iff (s : Record F) (c : ReviewCall F) :
    (∃ s', applyReviewDecision s c = .ok s') ↔ c.Valid := by
  refine ⟨?_, ?_⟩
  · rintro ⟨s', h⟩
    exact (applyReviewDecision_ok h).1
  · intro h
    obtain ⟨s', hs, _⟩ := applyReviewDecision_valid h s
    exact ⟨s', hs⟩

/-- **The three readings agree on a decision exactly when it is one of the known three.** -/
theorem decisionsAgree_iff (s : Record F) (id : Value F) (hid : s.get? "id" = some id)
    (c : ReviewCall F) :
    DecisionsAgree s c ↔ c.decision ∈ ["approve", "reject", "edit"] := by
  have haudit := auditTrailEntry_isOk hid c.decision c.reviewerId
  refine ⟨fun h => ?_, fun h => ?_⟩
  · exact (isOk_applyReviewDecision_iff s c).mp (h.apply_iff_audit.mpr haudit)
  · have hv : c.Valid := h
    refine ⟨?_, ?_, fun s' e ha he => ?_⟩
    · rw [accepted_iff_valid, isOk_applyReviewDecision_iff]
    · exact ⟨fun _ => haudit, fun _ => (isOk_applyReviewDecision_iff s c).mpr hv⟩
    · obtain ⟨_, hbefore, hafter, _⟩ := auditTrailEntry_ok he
      exact ⟨hbefore, hafter.trans (get_state_of_ok ha).symm⟩

/-- A pending suggestion and the decision `"approve"`. -/
theorem decisionsAgree_approve :
    DecisionsAgree (⟨[("id", .str "s1"), ("state", .str "pending_review")], by simp⟩ : Record Unit)
        ⟨"approve", "u1", none, none⟩ ↔
      "approve" ∈ ["approve", "reject", "edit"] :=
  decisionsAgree_iff _ (.str "s1") (by decide) ⟨"approve", "u1", none, none⟩

/-- `"Approve"` is refused twice and logged as a rejection. -/
theorem not_decisionsAgree_capital :
    ¬ DecisionsAgree
        (⟨[("id", .str "s1"), ("state", .str "pending_review")], by simp⟩ : Record Unit)
        ⟨"Approve", "u1", none, none⟩ := by
  intro h
  obtain ⟨s', hs⟩ := h.apply_iff_audit.mpr ⟨_, rfl⟩
  have hv := (applyReviewDecision_ok hs).1
  simp [ReviewCall.Valid] at hv

end AutomationPlatform
