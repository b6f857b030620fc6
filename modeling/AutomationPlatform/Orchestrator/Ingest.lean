import AutomationPlatform.Library.Runs
import AutomationPlatform.Python.Repr
import Mathlib.Data.String.Basic

/-!
# `app/orchestrator/ingest.py`: normalising, hashing and deduplicating rows

`digest` stands for `hashlib.sha256(payload.encode("utf-8")).hexdigest()`. A row is a dict; the hash
is taken of the text `source::k1=v1|k2=v2|...` with the keys sorted and each value printed by `str`.

* **`coerce_pyStr_coerce`**: a coerced value is read back from its text;
* `mem_seen_iff`, **`ingest_append_singleton`**, `mem_ingestKeys_iff`: what the loop of `ingest`
  remembers and returns.
-/

namespace AutomationPlatform

open Python Runs

variable {F : Type} [U : UnicodeData] [PyFloat F]

/-- `_coerce(value)`. -/
def coerce : Value F → Value F
  | .str value =>
    let stripped := strip value
    if lower stripped ∈ ["true", "false"] then .bool (lower stripped == "true")
    else
      match parseInt stripped with
      | some n => .int n
      | none =>
        match parseFloat stripped with
        | some l => .float (PyFloat.ofLit l)
        | none => .str stripped
  | value => value

/-- `k.strip().lower()`. -/
def normaliseKey (k : String) : String := lower (strip k)

/-- `normalise_row(raw)`. -/
def normaliseRow (raw : Record F) : Record F :=
  Dict.ofList (raw.items.map fun p => (normaliseKey p.1, coerce p.2))

/-- The columns of a row as the payload lists them: sorted keys with the printed values. -/
def columns (row : Record F) : List (String × String) :=
  row.sortedKeys.map fun k => (k, pyStr (row.get k))

/-- `"|".join(f"{k}={v}" ...)`. -/
def canonical (cols : List (String × String)) : String :=
  "|".intercalate (cols.map fun c => c.1 ++ "=" ++ c.2)

/-- `f"{source_id}::{canonical}"`. -/
def payloadText (sourceId : String) (cols : List (String × String)) : String :=
  sourceId ++ "::" ++ canonical cols

/-- `compute_source_row_hash(source_id, row)`. -/
def computeSourceRowHash (digest : String → String) (sourceId : String) (row : Record F) : String :=
  digest (payloadText sourceId (columns row))

/-- The variables of the loop of `ingest`. -/
structure IngestState (F : Type) where
  seenHashes : List String
  newRows : List (Record F)

/-- One iteration. -/
def ingestStep (digest : String → String) (sourceId : String) (st : IngestState F)
    (raw : Record F) : IngestState F :=
  let norm := normaliseRow raw
  let h := computeSourceRowHash digest sourceId norm
  if h ∈ st.seenHashes then st
  else ⟨h :: st.seenHashes, st.newRows ++
    [(norm.insert "source_id" (.str sourceId)).insert "source_row_hash" (.str h)]⟩

/-- `ingest(source_id, rows)`. -/
def ingest (digest : String → String) (sourceId : String) (rows : List (Record F)) :
    List (Record F) :=
  (run (ingestStep digest sourceId) ⟨[], []⟩ rows).newRows

/-- The hash `ingest` computes for a raw row. -/
def rowHash (digest : String → String) (sourceId : String) (raw : Record F) : String :=
  computeSourceRowHash digest sourceId (normaliseRow raw)

/-- The record `ingest` returns for a raw row. -/
def ingestRecord (digest : String → String) (sourceId : String) (raw : Record F) : Record F :=
  ((normaliseRow raw).insert "source_id" (.str sourceId)).insert "source_row_hash"
    (.str (rowHash digest sourceId raw))

/-- The pair a returned record is stored under. -/
def recordKey (rec : Record F) : Option String × Option String :=
  (rec.text? "source_id", rec.text? "source_row_hash")

/-- A row of strings, as `ingest` is given it. -/
def strRow (r : Dict String String) : Record F := r.mapVals .str

variable (F) in
/-- `normalise_row(r)` of a row of strings. -/
def normalised (r : Dict String String) : Record F := normaliseRow (strRow r)

/-! ## 1. Coercion -/

/-- What `_coerce` makes of a string. -/
theorem coerce_str_cases (s : String) :
    (∃ b : Bool, coerce (.str s) = (.bool b : Value F)) ∨
      (∃ n, parseInt (strip s) = some n ∧ coerce (.str s) = (.int n : Value F)) ∨
      (∃ x, coerce (.str s) = (.float x : Value F)) ∨
      (lower (strip s) ∉ ["true", "false"] ∧ parseInt (strip s) = none ∧
        parseFloat (strip s) = none ∧ coerce (.str s) = (.str (strip s) : Value F)) := by
  unfold coerce
  dsimp only
  split
  · exact Or.inl ⟨_, rfl⟩
  · rename_i hbool
    split
    · rename_i n hn
      exact Or.inr (Or.inl ⟨n, hn, rfl⟩)
    · rename_i hn
      split
      · exact Or.inr (Or.inr (Or.inl ⟨_, rfl⟩))
      · rename_i hf
        exact Or.inr (Or.inr (Or.inr ⟨hbool, hn, hf, rfl⟩))

/-- A text of ASCII characters that are their own lower case, none of them white space. -/
theorem lower_strip_of_ascii {s : String}
    (h : ∀ c ∈ s.toList, c.toNat < 128 ∧ isSpace c = false) :
    lower (strip s) = String.ofList (s.toList.map Char.toLower) := by
  rw [strip_eq_self_iff.mpr (trimmed_of_all fun c hc => (h c hc).2), lower,
    lowerChars_ascii fun c hc => (h c hc).1]

/-- A text over an alphabet of visible lower-case ASCII is coerced as it stands. -/
theorem strip_lower_of_alphabet {s : String} {alphabet : List Char}
    (halpha : ∀ c ∈ alphabet, c.toNat < 128 ∧ isSpace c = false ∧ c.toLower = c)
    (h : ∀ c ∈ s.toList, c ∈ alphabet) : strip s = s ∧ lower (strip s) = s := by
  have hstrip : strip s = s :=
    strip_eq_self_iff.mpr (trimmed_of_all fun c hc => (halpha c (h c hc)).2.1)
  refine ⟨hstrip, ?_⟩
  rw [lower_strip_of_ascii fun c hc => ⟨(halpha c (h c hc)).1, (halpha c (h c hc)).2.1⟩,
    List.map_congr_left fun c hc => (halpha c (h c hc)).2.2, List.map_id', String.ofList_toList]

omit U in
/-- Neither `"true"` nor `"false"` is written over the alphabet of numbers. -/
theorem not_boolean_of_alphabet {s : String} {alphabet : List Char}
    (ht : 't' ∉ alphabet) (hl : 'l' ∉ alphabet) (h : ∀ c ∈ s.toList, c ∈ alphabet) :
    s ∉ ["true", "false"] := by
  intro hs
  rcases List.mem_cons.mp hs with rfl | hs
  · exact ht (h 't' (by decide))
  · have hfalse := List.mem_singleton.mp hs
    subst hfalse
    exact hl (h 'l' (by decide))

theorem coerce_text_bool (b : Bool) :
    coerce (.str (pyStr (.bool b : Value F))) = (.bool b : Value F) := by
  have hlow : lower (strip (pyStr (.bool b : Value F))) = if b then "true" else "false" := by
    cases b
    · exact lower_strip_of_ascii (s := "False") (forall_mem_of_all (by decide))
    · exact lower_strip_of_ascii (s := "True") (forall_mem_of_all (by decide))
  unfold coerce
  dsimp only
  rw [hlow]
  cases b <;> rfl

theorem coerce_text_int {s : String} {n : Int} (h : parseInt s = some n) :
    coerce (.str (pyStr (.int n : Value F))) = (.int n : Value F) := by
  have hmem : ∀ c ∈ (toString n).toList, c ∈ "-0123456789".toList := by
    intro c hc
    rcases mem_toString hc with rfl | hd
    · decide
    · have hrange := digit_range hd
      have hall : ∀ k < 58, 48 ≤ k → Char.ofNat k ∈ "-0123456789".toList := by decide
      have := hall c.toNat (by omega) hrange.1
      rwa [Char.ofNat_toNat] at this
  obtain ⟨hstrip, hlow⟩ := strip_lower_of_alphabet (forall_mem_of_all (by decide)) hmem
  have htext : pyStr (.int n : Value F) = toString n := rfl
  unfold coerce
  dsimp only
  rw [htext, hlow, if_neg (not_boolean_of_alphabet (by decide) (by decide) hmem), hstrip,
    parseInt_toString h]

theorem coerce_text_float (x : F) :
    coerce (.str (pyStr (.float x : Value F))) = (.float x : Value F) := by
  have hmem := PyFloat.str_alphabet x
  obtain ⟨hstrip, hlow⟩ := strip_lower_of_alphabet (forall_mem_of_all (by decide)) hmem
  obtain ⟨l, hl, hx⟩ := PyFloat.parse_str x
  have htext : pyStr (.float x : Value F) = PyFloat.str x := rfl
  unfold coerce
  dsimp only
  rw [htext, hlow, if_neg (not_boolean_of_alphabet (by decide) (by decide) hmem), hstrip,
    PyFloat.str_not_int, hl]
  dsimp only
  rw [hx]

/-- **A coerced value is read back from its text.** -/
theorem coerce_pyStr_coerce (s : String) :
    coerce (.str (pyStr (coerce (.str s) : Value F))) = (coerce (.str s) : Value F) := by
  rcases coerce_str_cases (F := F) s with ⟨b, h⟩ | ⟨n, hn, h⟩ | ⟨x, h⟩ | ⟨hbool, hn, hf, h⟩
  · rw [h]
    exact coerce_text_bool b
  · rw [h]
    exact coerce_text_int hn
  · rw [h]
    exact coerce_text_float x
  · rw [h]
    show coerce (.str (strip s)) = _
    unfold coerce
    dsimp only
    rw [strip_strip, if_neg hbool, hn, hf]

/-! ## 2. Rows and their columns -/

theorem mem_keys_normaliseRow {raw : Record F} {k : String} :
    k ∈ (normaliseRow raw).keys ↔ ∃ header ∈ raw.keys, normaliseKey header = k := by
  unfold normaliseRow
  rw [Dict.mem_keys_ofList, List.map_map, List.mem_map]
  refine ⟨fun ⟨p, hp, e⟩ => ?_, fun ⟨header, hh, e⟩ => ?_⟩
  · exact ⟨p.1, List.mem_map_of_mem hp, e⟩
  · obtain ⟨p, hp, rfl⟩ := List.mem_map.mp hh
    exact ⟨p, hp, e⟩

/-- A value of a normalised row is a coerced string, and its key is normalised. -/
theorem normalised_get? {r : Dict String String} {k : String} {v : Value F}
    (h : (normalised F r).get? k = some v) : normaliseKey k = k ∧ ∃ x, v = coerce (.str x) := by
  have hmem := Dict.mem_of_get?_ofList h
  obtain ⟨⟨k0, v0⟩, h0, e⟩ := List.mem_map.mp hmem
  obtain ⟨⟨k1, x⟩, -, e1⟩ := List.mem_map.mp h0
  rw [← (Prod.mk.inj e).1, ← (Prod.mk.inj e).2, ← (Prod.mk.inj e1).2]
  exact ⟨normalised_fixed k0, x, rfl⟩

theorem columns_congr {d e : Record F} (h : d.Same e) : columns d = columns e := by
  unfold columns
  rw [Dict.sortedKeys_congr h.mem_keys]
  refine List.map_congr_left fun k _ => ?_
  unfold Record.get
  rw [h k]

/-! ## 3. The loop of `ingest` -/

/-- What an iteration does. -/
theorem ingestStep_eq (digest : String → String) (sourceId : String) (st : IngestState F)
    (raw : Record F) : ingestStep digest sourceId st raw =
      if rowHash digest sourceId raw ∈ st.seenHashes then st
      else ⟨rowHash digest sourceId raw :: st.seenHashes,
        st.newRows ++ [ingestRecord digest sourceId raw]⟩ := rfl

/-- The hashes remembered are those of the rows read. -/
theorem mem_seen_iff {digest : String → String} {sourceId h : String} {rows : List (Record F)} :
    h ∈ (run (ingestStep digest sourceId) ⟨[], []⟩ rows).seenHashes ↔
      ∃ raw ∈ rows, rowHash digest sourceId raw = h := by
  induction rows using List.reverseRec with
  | nil => simp
  | append_singleton rows raw ih =>
      have hlast : (∃ r ∈ rows ++ [raw], rowHash digest sourceId r = h) ↔
          (∃ r ∈ rows, rowHash digest sourceId r = h) ∨ rowHash digest sourceId raw = h := by
        simp [or_and_right, exists_or]
      rw [run_append_singleton, ingestStep_eq, hlast, ← ih]
      split
      · rename_i hseen
        refine ⟨?_, ?_⟩
        · exact Or.inl
        · intro hor
          rcases hor with hin | rfl
          · exact hin
          · exact hseen
      · rw [List.mem_cons, or_comm, eq_comm]

/-- **A row is returned unless an earlier row of the batch has its hash.** -/
theorem ingest_append_singleton (digest : String → String) (sourceId : String)
    (rows : List (Record F)) (raw : Record F) :
    ingest digest sourceId (rows ++ [raw]) = ingest digest sourceId rows ++
      if ∃ r ∈ rows, rowHash digest sourceId r = rowHash digest sourceId raw then []
      else [ingestRecord digest sourceId raw] := by
  unfold ingest
  rw [run_append_singleton, ingestStep_eq]
  by_cases hseen : ∃ r ∈ rows, rowHash digest sourceId r = rowHash digest sourceId raw
  · rw [if_pos (mem_seen_iff.mpr hseen), if_pos hseen, List.append_nil]
  · rw [if_neg fun h => hseen (mem_seen_iff.mp h), if_neg hseen]

theorem recordKey_ingestRecord (digest : String → String) (sourceId : String) (raw : Record F) :
    recordKey (ingestRecord digest sourceId raw) =
      (some sourceId, some (rowHash digest sourceId raw)) := by
  have hsource : (ingestRecord digest sourceId raw).get? "source_id" = some (.str sourceId) := by
    rw [ingestRecord, Dict.get?_insert, if_neg (by decide), Dict.get?_insert, if_pos rfl]
  have hhash : (ingestRecord digest sourceId raw).get? "source_row_hash" =
      some (.str (rowHash digest sourceId raw)) := by
    rw [ingestRecord, Dict.get?_insert, if_pos rfl]
  exact Prod.ext (Record.text?_eq_some_iff.mpr hsource) (Record.text?_eq_some_iff.mpr hhash)

/-- **The records of a batch carry the hashes of its rows**, all of them and no other. -/
theorem mem_ingestKeys_iff {digest : String → String} {sourceId : String} {rows : List (Record F)}
    {p : Option String × Option String} :
    p ∈ (ingest digest sourceId rows).map recordKey ↔
      p ∈ rows.map fun raw => (some sourceId, some (rowHash digest sourceId raw)) := by
  induction rows using List.reverseRec with
  | nil => exact Iff.rfl
  | append_singleton rows raw ih =>
      rw [ingest_append_singleton, List.map_append, List.mem_append, List.map_append,
        List.mem_append, ih]
      refine or_congr_right' fun hnew => ?_
      split
      · rename_i hseen
        obtain ⟨r, hr, he⟩ := hseen
        refine ⟨fun h => ?_, fun h => ?_⟩
        · cases h
        · rw [List.map_singleton, List.mem_singleton, ← he] at h
          exact absurd (List.mem_map.mpr ⟨r, hr, h.symm⟩) hnew
      · rw [List.map_singleton, List.map_singleton, recordKey_ingestRecord]

end AutomationPlatform
