import AutomationPlatform.Python.Uuid
import AutomationPlatform.Python.Value

/-!
# `app/orchestrator/audit.py`: building an audit entry
-/

namespace AutomationPlatform

open Python

variable {F : Type}

/-- `d or {}`: a missing and an empty dict both give an empty one. -/
def orEmpty : Option (Record F) → Value F
  | some d => .dict d.items
  | none => .dict []

/-- `build_audit_entry(...)`. `now` is the instant the call reads. -/
def buildAuditEntry (resourceType resourceId action actorId : String)
    (before after : Option (Record F)) (now : Timestamp) : Record F :=
  ⟨[ ("resource_type", .str resourceType),
     ("resource_id", .str resourceId),
     ("action", .str action),
     ("actor_id", .str actorId),
     ("before", orEmpty before),
     ("after", orEmpty after),
     ("occurred_at", .str now.iso) ], by simp⟩

/-- `is_audit_immutable(table_name)`. -/
def isAuditImmutable (tableName : String) : Bool := tableName == "audit_logs"

theorem orEmpty_eq_empty_iff {d : Option (Record F)} :
    orEmpty d = .dict [] ↔ ∀ x, d = some x → x.items = [] := by
  cases d <;> simp [orEmpty]

end AutomationPlatform
