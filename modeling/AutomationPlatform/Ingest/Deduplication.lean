import AutomationPlatform.Library.FirstOccurrence
import AutomationPlatform.Orchestrator.Ingest

/-!
# `ingest` keeps the first row of each hash

The loop of `ingest` remembers the hashes of the rows it has read. What it returns is the first row
of each hash, in the order of the batch, whatever the digest is.

* `ingest_eq_firsts`: the records are those of the first rows;
* **`ingest_firstOccurrence`**: no hash twice, no hash lost, and how batches combine.
-/

namespace AutomationPlatform

open Python FirstOccurrence

variable {F : Type} [UnicodeData] [PyFloat F]

/-- `o["source_row_hash"]`. -/
def recordHash (o : Record F) : Option String := o.text? "source_row_hash"

theorem recordHash_ingestRecord (digest : String → String) (sourceId : String) (raw : Record F) :
    recordHash (ingestRecord digest sourceId raw) = some (rowHash digest sourceId raw) :=
  congrArg Prod.snd (recordKey_ingestRecord digest sourceId raw)

/-- **The records are those of the first rows.** -/
theorem ingest_eq_firsts (digest : String → String) (sourceId : String) (rows : List (Record F)) :
    ingest digest sourceId rows =
      (firsts (rowHash digest sourceId) rows).map (ingestRecord digest sourceId) := by
  induction rows using List.reverseRec with
  | nil => rfl
  | append_singleton rows raw ih =>
      rw [ingest_append_singleton, firsts_append_singleton, List.map_append, ih]
      congr 1
      by_cases hseen : ∃ r ∈ rows, rowHash digest sourceId r = rowHash digest sourceId raw
      · rw [if_pos hseen, if_pos (List.mem_map.mpr hseen)]
        rfl
      · rw [if_neg hseen, if_neg fun h => hseen (List.mem_map.mp h)]
        rfl

theorem map_recordHash_ingest (digest : String → String) (sourceId : String)
    (rows : List (Record F)) : (ingest digest sourceId rows).map recordHash =
      ((firsts (rowHash digest sourceId) rows).map (rowHash digest sourceId)).map some := by
  rw [ingest_eq_firsts, List.map_map, List.map_map]
  exact List.map_congr_left fun raw _ => recordHash_ingestRecord digest sourceId raw

theorem mem_map_recordHash_ingest {digest : String → String} {sourceId : String}
    {rows : List (Record F)} {h : Option String} :
    h ∈ (ingest digest sourceId rows).map recordHash ↔
      h ∈ rows.map fun raw => some (rowHash digest sourceId raw) := by
  have hhash : (rows.map fun raw => some (rowHash digest sourceId raw)) =
      (rows.map (rowHash digest sourceId)).map some := by
    rw [List.map_map]
    rfl
  rw [map_recordHash_ingest, hhash, List.mem_map, List.mem_map]
  exact exists_congr fun k => and_congr_left fun _ => mem_map_firsts_iff

/-- **`ingest` deduplicates by first occurrence**: the hashes are distinct and are those of the
    batch, the records are built from the first row of each, in order; a second batch adds the
    records whose hash is new, the same batch again adds nothing. -/
theorem ingest_firstOccurrence (digest : String → String) (sourceId : String) :
    (∀ rows : List (Record F), ((ingest digest sourceId rows).map recordHash).Nodup ∧
      (∀ h, h ∈ (ingest digest sourceId rows).map recordHash ↔
        h ∈ rows.map fun raw => some (rowHash digest sourceId raw)) ∧
      ingest digest sourceId rows =
        (firsts (rowHash digest sourceId) rows).map (ingestRecord digest sourceId)) ∧
    (∀ xs ys : List (Record F), ingest digest sourceId (xs ++ ys) = ingest digest sourceId xs ++
      (ingest digest sourceId ys).filter fun o =>
        decide (recordHash o ∉ (ingest digest sourceId xs).map recordHash)) ∧
    ∀ xs : List (Record F), ingest digest sourceId (xs ++ xs) = ingest digest sourceId xs := by
  refine ⟨fun rows => ⟨?_, fun h => mem_map_recordHash_ingest,
    ingest_eq_firsts digest sourceId rows⟩, fun xs ys => ?_, fun xs => ?_⟩
  · rw [map_recordHash_ingest]
    exact (nodup_map_firsts rows).map (Option.some_injective String)
  · have hnew : ∀ raw : Record F, decide (recordHash (ingestRecord digest sourceId raw) ∉
        (ingest digest sourceId xs).map recordHash) =
          decide (rowHash digest sourceId raw ∉ xs.map (rowHash digest sourceId)) := by
      intro raw
      rw [decide_eq_decide, mem_map_recordHash_ingest, recordHash_ingestRecord]
      simp
    rw [ingest_eq_firsts digest sourceId (xs ++ ys), firsts_append, List.map_append,
      ← ingest_eq_firsts, ingest_eq_firsts digest sourceId ys, List.filter_map]
    congr 2
    exact List.filter_congr fun raw _ => (hnew raw).symm
  · rw [ingest_eq_firsts, firsts_append_self, ← ingest_eq_firsts]

end AutomationPlatform
