import AutomationPlatform.Python.Repr

/-!
# `app/orchestrator/identity.py`: permission checks
-/

namespace AutomationPlatform

open Python

/-! ## The permission codes -/

def permTaskCreate : String := "task:create"
def permTaskCancel : String := "task:cancel"
def permReviewSuggestion : String := "review:suggestion"
def permAuditRead : String := "audit:read"
def permUserManage : String := "user:manage"
def permTemplateEdit : String := "template:edit"

def permissionCodes : List String := [permTaskCreate, permTaskCancel, permReviewSuggestion,
  permAuditRead, permUserManage, permTemplateEdit]

/-! ## The checks -/

/-- `PermissionDeniedError(message)`. -/
structure PermissionDeniedError where
  message : String
  deriving DecidableEq, Repr

/-- `has_permission(role_permissions, required)`. -/
def hasPermission (rolePermissions : List String) (required : String) : Bool :=
  decide (required ∈ rolePermissions)

variable [UnicodeData]

/-- `check_permission(role_permissions, required)`. -/
def checkPermission (rolePermissions : List String) (required : String) :
    Except PermissionDeniedError Unit :=
  if hasPermission rolePermissions required then .ok ()
  else .error ⟨"actor lacks permission " ++ Python.reprStr required⟩

variable {rolePermissions rolePermissions' : List String} {required required' : String}

theorem checkPermission_eq_ok_iff :
    checkPermission rolePermissions required = .ok () ↔ required ∈ rolePermissions := by
  unfold checkPermission hasPermission
  by_cases h : required ∈ rolePermissions <;> simp [h]

/-- The error names the permission that is missing. -/
theorem required_of_denied {e : PermissionDeniedError}
    (h : checkPermission rolePermissions required = .error e)
    (h' : checkPermission rolePermissions' required' = .error e) : required = required' := by
  unfold checkPermission at h h'
  split at h
  · cases h
  · split at h'
    · cases h'
    · cases h
      have hmessage := congrArg PermissionDeniedError.message (Except.error.inj h')
      have hrepr := Codes.string_append_left_cancel hmessage
      exact (reprStr_unique (congrArg (· ++ "") hrepr)).symm

end AutomationPlatform
