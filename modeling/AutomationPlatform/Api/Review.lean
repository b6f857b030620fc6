import AutomationPlatform.Python.Value

/-!
# `app/api/review.py`: the request model of a decision

`decision: str = Field(..., pattern="^(approve|reject|edit)$")` and
`notes: Optional[str] = Field(default=None, max_length=2000)`. The pattern is anchored at both
ends, so it matches a string exactly when the whole string is one of the alternatives.
-/

namespace AutomationPlatform

open Python

/-- `"^(approve|reject|edit)$"`. -/
def decisionPattern (decision : String) : Bool :=
  ["approve", "reject", "edit"].any fun alternative => decision == alternative

/-- The JSON body of `POST /review/{suggestion_id}/decide`. -/
structure ReviewDecision (F : Type) where
  decision : String
  notes : Option String
  edits : Option (Record F)

/-- The field constraints of the model. -/
def ReviewDecision.accepted {F : Type} (r : ReviewDecision F) : Bool :=
  decisionPattern r.decision && r.notes.all fun notes => notes.length ≤ 2000

theorem decisionPattern_iff (decision : String) :
    decisionPattern decision = true ↔ decision ∈ ["approve", "reject", "edit"] := by
  simp [decisionPattern]

end AutomationPlatform
