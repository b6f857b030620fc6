import AutomationPlatform.Orchestrator.Ingest
import AutomationPlatform.Python.Ascii

/-!
# Columns that `normalise_row` loses

Stripping and lower-casing a key is not injective, and in the comprehension the last of two columns
with one key wins.

* **`keepsColumns_iff`**: no column is lost, and no difference between two rows with the same
  headers, exactly when no two headers normalise alike.
-/

namespace AutomationPlatform

open Python

section

variable {F : Type} [UnicodeData] [PyFloat F]

/-- **No column is lost**: every one is there under its normalised key with its coerced value, and
    a row with the same headers and another coerced value somewhere has another normalised row. -/
structure KeepsColumns (raw : Record F) : Prop where
  length : (normaliseRow raw).items.length = raw.items.length
  value : ∀ p ∈ raw.items, (normaliseRow raw).get? (normaliseKey p.1) = some (coerce p.2)
  differs : ∀ raw' : Record F, (∀ k, k ∈ raw'.keys ↔ k ∈ raw.keys) →
    (∃ k v v', raw.get? k = some v ∧ raw'.get? k = some v' ∧ coerce v ≠ coerce v') →
    ¬ (normaliseRow raw).Same (normaliseRow raw')

/-- No two headers are equal once they are stripped and lower-cased. -/
def HeadersApart (raw : Record F) : Prop := (raw.keys.map normaliseKey).Nodup

theorem map_fst_normalised (raw : Record F) :
    (raw.items.map fun p => (normaliseKey p.1, coerce p.2)).map Prod.fst =
      raw.keys.map normaliseKey := by
  rw [List.map_map, Dict.keys, List.map_map]
  rfl

theorem value_of_headersApart {raw : Record F} (h : HeadersApart raw) {p : String × Value F}
    (hp : p ∈ raw.items) : (normaliseRow raw).get? (normaliseKey p.1) = some (coerce p.2) := by
  unfold HeadersApart at h
  rw [← map_fst_normalised] at h
  exact Dict.get?_ofList_of_mem h (List.mem_map.mpr ⟨p, hp, rfl⟩)

omit [PyFloat F] in
/-- The headers are apart in every row that has them. -/
theorem HeadersApart.congr {raw raw' : Record F} (h : HeadersApart raw)
    (hkeys : ∀ k, k ∈ raw'.keys ↔ k ∈ raw.keys) : HeadersApart raw' := by
  have hperm : raw'.keys.Perm raw.keys :=
    (List.perm_ext_iff_of_nodup raw'.nodup raw.nodup).mpr hkeys
  exact (hperm.map normaliseKey).nodup_iff.mpr h

/-- **Which rows keep their columns.** -/
theorem keepsColumns_iff (raw : Record F) : KeepsColumns raw ↔ HeadersApart raw := by
  refine ⟨fun h => ?_, fun h => ⟨?_, fun p hp => value_of_headersApart h hp, ?_⟩⟩
  · have hlength := h.length.trans
      (List.length_map fun p : String × Value F => (normaliseKey p.1, coerce p.2)).symm
    unfold normaliseRow at hlength
    rw [Dict.length_ofList_eq_iff, map_fst_normalised] at hlength
    exact hlength
  · unfold HeadersApart at h
    rw [← map_fst_normalised] at h
    unfold normaliseRow
    rw [Dict.length_ofList_eq_iff.mpr h, List.length_map]
  · rintro raw' hkeys ⟨k, v, v', hv, hv', hne⟩ hsame
    have hcell := value_of_headersApart h (Dict.get?_eq_some_iff.mp hv)
    have hcell' := value_of_headersApart (h.congr hkeys) (Dict.get?_eq_some_iff.mp hv')
    rw [hsame, hcell'] at hcell
    exact hne (Option.some.inj hcell).symm

end

section

open Python.Ascii

/-- Two spellings of one header. -/
def twoSpellings : Record Ascii.Float := Dict.ofList [("Name", .str "Ann"), (" name ", .str "Bob")]

theorem not_keepsColumns_twoSpellings : ¬ KeepsColumns twoSpellings := by
  intro h
  have hone : (normaliseRow twoSpellings).items.length ≠ twoSpellings.items.length := by
    decide +kernel
  exact hone h.length

end

end AutomationPlatform
