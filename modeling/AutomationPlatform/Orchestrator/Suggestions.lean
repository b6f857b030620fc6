import AutomationPlatform.Python.Value

/-!
# `app/orchestrator/suggestions.py`: scoring and building a suggestion

The numeric type is a parameter with the arithmetic, the comparison and the literal `0.85` that the
code uses, so the same definitions read over binary floats and over exact rationals.
-/

namespace AutomationPlatform

open Python

variable {F : Type} [OfScientific F]

/-- `score_confidence(rule_scores)`. -/
def scoreConfidence [Zero F] [Add F] [Div F] [NatCast F] (ruleScores : List F) : F :=
  if ruleScores.isEmpty then 0.0
  else ruleScores.foldl (· + ·) 0 / (ruleScores.length : F)

variable [LE F] [DecidableLE F]

/-- `AUTO_APPROVE_THRESHOLD = 0.85`. -/
def autoApproveThreshold : F := 0.85

/-- `should_auto_approve(confidence)`. -/
def shouldAutoApprove (confidence : F) : Bool :=
  decide (autoApproveThreshold ≤ confidence)

/-- `make_suggestion(...)`. `id` is the text of the `uuid4()` the call draws and `createdAt` the
    text `_now_iso()` returns. -/
def makeSuggestion (id createdAt ingestedRowId templateId : String) (payload : Record F)
    (confidence : F) : Record F :=
  ⟨[ ("id", .str id),
     ("ingested_row_id", .str ingestedRowId),
     ("template_id", .str templateId),
     ("payload", payload.toValue),
     ("confidence", .float confidence),
     ("state", .str (if shouldAutoApprove confidence then "approved" else "pending_review")),
     ("created_at", .str createdAt) ], by simp⟩

section Fields

variable (id createdAt ingestedRowId templateId : String) (payload : Record F) (confidence : F)

theorem makeSuggestion_get?_state :
    (makeSuggestion id createdAt ingestedRowId templateId payload confidence).get? "state" =
      some (.str (if shouldAutoApprove confidence then "approved" else "pending_review")) := by
  simp [makeSuggestion, Dict.get?, List.lookup_cons]

/-- A new suggestion carries no review field. -/
theorem makeSuggestion_get?_review {k : String}
    (hk : k ∈ ["reviewer_id", "review_notes", "review_edits"]) :
    (makeSuggestion id createdAt ingestedRowId templateId payload confidence).get? k = none := by
  simp only [List.mem_cons, List.not_mem_nil, or_false] at hk
  rcases hk with rfl | rfl | rfl <;>
    simp [makeSuggestion, Dict.get?, List.lookup_cons]

end Fields

end AutomationPlatform
