import AutomationPlatform.Library.FirstMax
import AutomationPlatform.Python.Value
import Mathlib.Data.Int.ConditionallyCompleteOrder
import Mathlib.Order.ConditionallyCompleteLattice.Basic

/-!
# `app/orchestrator/templates.py`: the active version of a template

`actives.sort(key=..., reverse=True)` is stable in the order of the list: rows with the same version
keep the order they came in. `latestActiveVersion_eq_argmax` says which row that leaves in front.
-/

namespace AutomationPlatform

open Python FirstMax

variable {F : Type}

/-- A version row: a dict whose `version` is an integer. -/
structure VersionRow (F : Type) where
  row : Record F
  version : Int
  version_eq : row.get? "version" = some (.int version)

theorem VersionRow.ext_row {v w : VersionRow F} (h : v.row = w.row) : v = w := by
  obtain ⟨d, n, hn⟩ := v
  obtain ⟨e, m, hm⟩ := w
  cases h
  rw [hn] at hm
  cases hm
  rfl

/-- The dict as a version row, if its `version` is an integer. -/
def VersionRow.ofDict? (d : Record F) : Option (VersionRow F) :=
  match h : d.get? "version" with
  | some (.int n) => some ⟨d, n, h⟩
  | _ => none

theorem VersionRow.ofDict?_eq_some_iff {d : Record F} {v : VersionRow F} :
    VersionRow.ofDict? d = some v ↔ v.row = d := by
  unfold VersionRow.ofDict?
  split
  · rename_i n h
    rw [Option.some.injEq]
    exact ⟨fun e => e ▸ rfl, fun e => VersionRow.ext_row e.symm⟩
  · rename_i h
    refine ⟨fun e => (by cases e), fun e => ?_⟩
    exact absurd (e ▸ v.version_eq) (h v.version)

/-- `v.get("status") == "active"`. -/
def VersionRow.isActive (v : VersionRow F) : Bool := v.row.text? "status" == some "active"

/-- `latest_active_version(template_id, all_versions)`; nothing reads `template_id`. -/
def latestActiveVersion (_templateId : String) (allVersions : List (VersionRow F)) :
    Option (VersionRow F) :=
  let actives := allVersions.filter VersionRow.isActive
  if actives.isEmpty then none
  else (actives.insertionSort fun v w => w.version ≤ v.version).head?

variable {templateId : String} {allVersions : List (VersionRow F)} {v : VersionRow F}

/-- The first of the active rows with the highest version. -/
theorem latestActiveVersion_eq_argmax (templateId : String) (allVersions : List (VersionRow F)) :
    latestActiveVersion templateId allVersions =
      (allVersions.filter VersionRow.isActive).argmax VersionRow.version := by
  unfold latestActiveVersion
  dsimp only
  split
  · rename_i h
    rw [List.isEmpty_iff.mp h]
    rfl
  · exact head?_insertionSort VersionRow.version _

theorem latestActiveVersion_eq_none_iff :
    latestActiveVersion templateId allVersions = none ↔ ∀ v ∈ allVersions, v.isActive = false := by
  rw [latestActiveVersion_eq_argmax, List.argmax_eq_none, List.filter_eq_nil_iff]
  exact forall₂_congr fun v _ => Bool.not_eq_true _ ▸ Iff.rfl

/-- **The row returned** is active and of the highest version. -/
theorem isLargest_latestActiveVersion (h : latestActiveVersion templateId allVersions = some v) :
    IsLargest VersionRow.version (allVersions.filter VersionRow.isActive) v := by
  rw [latestActiveVersion_eq_argmax] at h
  exact isLargest_of_argmax h

/-- An active row of the highest version. -/
theorem isLargest_iff : IsLargest VersionRow.version (allVersions.filter VersionRow.isActive) v ↔
    v ∈ allVersions ∧ v.isActive = true ∧
      ∀ w ∈ allVersions, w.isActive = true → w.version ≤ v.version := by
  unfold IsLargest
  simp only [List.mem_filter, and_imp, and_assoc]

end AutomationPlatform
