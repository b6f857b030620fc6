import AutomationPlatform.Ingest.Deduplication
import AutomationPlatform.Library.Codes
import AutomationPlatform.Python.Ascii

/-!
# Verifying a record from its own content

`ingest` puts the source and the hash into the same dict as the columns of the row. A column that
normalises to one of the two bookkeeping keys is overwritten, and the stored hash is the one of a
row that is no longer there.

* `get?_remainder`, `columns_remainder`: what is left of a record without its bookkeeping keys;
* `payloadText_ne`: a row that lost a column has another payload;
* **`reverifiable_iff`**: which batches give records that verify themselves.
-/

namespace AutomationPlatform

open Python FirstOccurrence

section

variable {F : Type} [UnicodeData] [PyFloat F]

/-- The keys `ingest` adds to a row. -/
def bookkeepingKeys : List String := ["source_id", "source_row_hash"]

/-- The record without its bookkeeping keys. -/
def remainder (o : Record F) : Record F := (o.erase "source_id").erase "source_row_hash"

/-- **Every record verifies itself**: without the bookkeeping keys it is the normalised form of an
    input row, and its hash is the one stored. -/
def Reverifiable (digest : String → String) (sourceId : String) (rows : List (Record F)) : Prop :=
  ∀ o ∈ ingest digest sourceId rows, (∃ raw ∈ rows, (remainder o).Same (normaliseRow raw)) ∧
    recordHash o = some (computeSourceRowHash digest sourceId (remainder o))

/-- No column of the row normalises to a bookkeeping key. -/
def FreeOfBookkeeping (raw : Record F) : Prop :=
  ∀ header ∈ raw.keys, normaliseKey header ∉ bookkeepingKeys

theorem get?_remainder (digest : String → String) (sourceId : String) (raw : Record F)
    (k : String) : (remainder (ingestRecord digest sourceId raw)).get? k =
      if k ∈ bookkeepingKeys then none else (normaliseRow raw).get? k := by
  unfold remainder ingestRecord bookkeepingKeys
  rw [Dict.get?_erase, Dict.get?_erase, Dict.get?_insert, Dict.get?_insert]
  by_cases hhash : k = "source_row_hash"
  · simp [hhash]
  · by_cases hsource : k = "source_id"
    · simp [hsource]
    · simp [hhash, hsource]

/-- Without a bookkeeping column nothing is overwritten. -/
theorem remainder_same {raw : Record F} (h : FreeOfBookkeeping raw) (digest : String → String)
    (sourceId : String) :
    (remainder (ingestRecord digest sourceId raw)).Same (normaliseRow raw) := by
  intro k
  rw [get?_remainder]
  by_cases hk : k ∈ bookkeepingKeys
  · have hnone : k ∉ (normaliseRow raw).keys := by
      intro hkey
      obtain ⟨header, hh, e⟩ := mem_keys_normaliseRow.mp hkey
      exact h header hh (e ▸ hk)
    rw [if_pos hk, Dict.get?_eq_none_iff.mpr hnone]
  · rw [if_neg hk]

/-- The columns that are left. -/
theorem columns_remainder (digest : String → String) (sourceId : String) (raw : Record F) :
    columns (remainder (ingestRecord digest sourceId raw)) =
      (columns (normaliseRow raw)).filter fun c => decide (c.1 ∉ bookkeepingKeys) := by
  have hkeys : ∀ k, k ∈ (remainder (ingestRecord digest sourceId raw)).keys ↔
      k ∈ (normaliseRow raw).keys ∧ decide (k ∉ bookkeepingKeys) = true := by
    intro k
    rw [Dict.mem_keys_iff, Dict.mem_keys_iff, get?_remainder]
    by_cases hk : k ∈ bookkeepingKeys <;> simp [hk]
  unfold columns
  rw [Dict.sortedKeys_eq_filter hkeys, List.filter_map]
  refine List.map_congr_left fun k hk => ?_
  have hfree : k ∉ bookkeepingKeys := of_decide_eq_true (List.mem_filter.mp hk).2
  unfold Record.get
  rw [get?_remainder, if_neg hfree]

/-- **A row that lost a column has another payload.** -/
theorem payloadText_ne {raw : Record F} (h : ¬ FreeOfBookkeeping raw) (digest : String → String)
    (sourceId : String) : payloadText sourceId
      (columns (remainder (ingestRecord digest sourceId raw))) ≠
        payloadText sourceId (columns (normaliseRow raw)) := by
  obtain ⟨header, hheader, hk⟩ : ∃ header ∈ raw.keys, normaliseKey header ∈ bookkeepingKeys := by
    unfold FreeOfBookkeeping at h
    push Not at h
    exact h
  have hin : (normaliseKey header, pyStr ((normaliseRow raw).get (normaliseKey header))) ∈
      columns (normaliseRow raw) :=
    List.mem_map.mpr ⟨_, Dict.mem_sortedKeys.mpr (mem_keys_normaliseRow.mpr ⟨header, hheader, rfl⟩),
      rfl⟩
  intro e
  have hcanonical := Codes.string_append_left_cancel e
  unfold canonical at hcanonical
  rw [columns_remainder] at hcanonical
  generalize columns (normaliseRow raw) = cols at hin hcanonical
  -- the lost column makes the text shorter
  have hshort : (cols.filter fun c => decide (c.1 ∉ bookkeepingKeys)).length < cols.length := by
    refine List.length_filter_lt_length_iff_exists.mpr ⟨_, hin, ?_⟩
    simp [hk]
  have hne : ∀ t ∈ cols.map fun c => c.1 ++ "=" ++ c.2, t ≠ "" := by
    intro t ht e
    obtain ⟨c, -, rfl⟩ := List.mem_map.mp ht
    have hlen := congrArg String.length e
    simp at hlen
  have hlt := Codes.length_intercalate_lt
    (List.filter_sublist.map fun c : String × String => c.1 ++ "=" ++ c.2)
    (by rw [List.length_map, List.length_map]; exact hshort) hne "|"
  rw [hcanonical] at hlt
  exact Nat.lt_irrefl _ hlt

/-- **Which batches give records that verify themselves**: those whose kept rows, the first of each
    hash, have no bookkeeping column. -/
theorem reverifiable_iff {digest : String → String} (hd : Function.Injective digest)
    (sourceId : String) (rows : List (Record F)) : Reverifiable digest sourceId rows ↔
      ∀ raw ∈ firsts (rowHash digest sourceId) rows, FreeOfBookkeeping raw := by
  unfold Reverifiable
  rw [ingest_eq_firsts]
  refine ⟨fun h raw hraw => ?_, fun h o ho => ?_⟩
  · by_contra hlost
    have hhash := (h _ (List.mem_map_of_mem hraw)).2
    rw [recordHash_ingestRecord] at hhash
    exact payloadText_ne hlost digest sourceId (hd (Option.some.inj hhash)).symm
  · obtain ⟨raw, hraw, rfl⟩ := List.mem_map.mp ho
    have hsame := remainder_same (h raw hraw) digest sourceId
    refine ⟨⟨raw, firsts_subset rows hraw, hsame⟩, ?_⟩
    rw [recordHash_ingestRecord, rowHash, computeSourceRowHash, computeSourceRowHash,
      columns_congr hsame]

end

/-! ## Two batches -/

section

open Python.Ascii

/-- The second row is a duplicate of the first. -/
def plainBatch : List (Record Ascii.Float) :=
  [Dict.ofList [("Name", .str "Ann")], Dict.ofList [(" name ", .str "Ann")]]

/-- SHA-256 of the payload of the rows of `plainBatch`. -/
def plainDigest : String → String :=
  pinnedDigest "crm::name=Ann" "88acb25717d7c49103fee94c3d652d689ca0d1946d02d5fa796a3857a38bd913"

theorem reverifiable_plainBatch : Reverifiable plainDigest "crm" plainBatch := by
  refine (reverifiable_iff (pinnedDigest_injective (by decide)) "crm" plainBatch).mpr ?_
  intro raw hraw
  have hfree : ∀ raw ∈ plainBatch, ∀ header ∈ raw.keys, normaliseKey header ∉ bookkeepingKeys := by
    decide +kernel
  exact hfree raw (firsts_subset _ hraw)

/-- A source that delivers a column of its own ids. -/
def sourceIdBatch : List (Record Ascii.Float) := [Dict.ofList [("Source_ID", .str "x")]]

theorem not_reverifiable_sourceIdBatch : ¬ ∀ digest : String → String,
    Function.Injective digest → ∀ s, ∀ rows : List (Record Ascii.Float),
      Reverifiable digest s rows := by
  intro h
  have hlost : ¬ ∀ o ∈ ingest id "crm" sourceIdBatch, ∃ raw ∈ sourceIdBatch,
      (remainder o).get? "source_id" = (normaliseRow raw).get? "source_id" := by decide +kernel
  refine hlost fun o ho => ?_
  obtain ⟨⟨raw, hraw, hsame⟩, -⟩ := h id Function.injective_id "crm" sourceIdBatch o ho
  exact ⟨raw, hraw, hsame "source_id"⟩

end

end AutomationPlatform
