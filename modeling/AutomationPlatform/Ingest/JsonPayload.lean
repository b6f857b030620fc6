import AutomationPlatform.Database.FieldByField
import AutomationPlatform.Orchestrator.Ingest
import AutomationPlatform.Python.Ascii

/-!
# Payloads the database refuses

The payload column is `JSONB`. `_coerce` tries `float` on every text `int` rejects, also on words
like `nan`, on exponents beyond the range of a double and on digit strings too long for `int`. A
text that is no number stays one, also where it has a U+0000, which JSON has an escape for and
`JSONB` refuses.

* `isJsonb_coerce`: which cells are coerced to a value JSONB takes;
* **`payloadStorable_iff`**: which rows of strings have a payload that can be stored.
-/

namespace AutomationPlatform

open Python

section

variable {F : Type} [UnicodeData] [FiniteFloat F]

/-- The cell is a boolean word, an integer, a float in the range of a double, or no number and a
    text without U+0000. -/
def storableCell (cell : String) : Bool :=
  decide (lower (strip cell) ∈ ["true", "false"]) || (parseInt (strip cell)).isSome ||
    match parseFloat (strip cell) with
    | some l => l.isFinite
    | none => !hasNul (strip cell)

theorem isJsonb_coerce (cell : String) :
    (coerce (.str cell) : Value F).isJsonb = storableCell cell := by
  unfold coerce storableCell
  dsimp only
  by_cases hbool : lower (strip cell) ∈ ["true", "false"]
  · rw [if_pos hbool, decide_eq_true hbool]
    rfl
  · rw [if_neg hbool, decide_eq_false hbool]
    cases hint : parseInt (strip cell) with
    | some n =>
        -- an integer that was read has few enough digits to be written
        exact decide_eq_true (length_toDigits_of_parseInt hint)
    | none =>
        cases parseFloat (strip cell) with
        | some l => exact FiniteFloat.isFinite_ofLit l
        | none => rfl

/-- A cell is coerced to a scalar, so what JSONB takes of it is one JSON has. -/
theorem isJsonScalar_coerce {cell : String}
    (h : (coerce (.str cell) : Value F).isJsonb = true) :
    (coerce (.str cell) : Value F).isJsonScalar = true := by
  rcases coerce_str_cases (F := F) cell with ⟨b, e⟩ | ⟨n, -, e⟩ | ⟨x, e⟩ | ⟨-, -, -, e⟩
  · rw [e]
    rfl
  · rw [e]
    rfl
  · rw [e] at h ⊢
    exact h
  · rw [e]
    rfl

/-- **The payload can be stored**: every value is a boolean, an integer, a finite float or a
    string, the payload is valid JSON, and the column takes it. -/
structure PayloadStorable (n : Record F) : Prop where
  scalar : ∀ k v, n.get? k = some v → v.isJsonScalar = true
  json : n.toValue.isJson = true
  inserted : (payloadColumn.type.sqlType.store n.toValue).isSome = true

/-- JSONB takes a payload member by member. -/
theorem inserted_iff {n : Record F} :
    (payloadColumn.type.sqlType.store n.toValue).isSome = true ↔
      ∀ k v, n.get? k = some v → hasNul k = false ∧ v.isJsonb = true := by
  have hstore : payloadColumn.type.sqlType.store n.toValue =
      if n.toValue.isJsonb then some (.json n.toValue) else none := rfl
  have hmembers : n.toValue.isJsonb = true ↔ ∀ m ∈ n.items, !hasNul m.1 ∧ m.2.isJsonb = true :=
    Value.everyMember_iff
  have hsome : (if n.toValue.isJsonb then some (SqlValue.json n.toValue) else none).isSome = true ↔
      n.toValue.isJsonb = true := by
    cases n.toValue.isJsonb <;> simp
  rw [hstore, hsome, hmembers]
  refine ⟨fun h k v hv => ?_, fun h m hm => ?_⟩
  · obtain ⟨hkey, hvalue⟩ := h (k, v) (Dict.get?_eq_some_iff.mp hv)
    exact ⟨(Bool.not_eq_true' _).mp hkey, hvalue⟩
  · obtain ⟨hkey, hvalue⟩ := h m.1 m.2 (Dict.get?_eq_some_iff.mpr hm)
    exact ⟨(Bool.not_eq_true' _).mpr hkey, hvalue⟩

/-- The cell a key of the normalised row stands for: the one no later column has the key of. -/
theorem normalised_get?_iff {r : Dict String String} {k : String} {v : Value F} :
    (normalised F r).get? k = some v ↔ ∃ pre header cell post,
      r.items = pre ++ (header, cell) :: post ∧ normaliseKey header = k ∧
        coerce (.str cell) = v ∧ ∀ q ∈ post, normaliseKey q.1 ≠ k := by
  have hlist : ((strRow r : Record F).items.map fun p => (normaliseKey p.1, coerce p.2)) =
      r.items.map fun p => (normaliseKey p.1, (coerce (.str p.2) : Value F)) := by
    show (r.items.map fun p => (p.1, Value.str p.2)).map _ = _
    rw [List.map_map]
    rfl
  unfold normalised normaliseRow
  rw [hlist, Dict.get?_ofList_eq_some_iff]
  refine ⟨fun ⟨pre, post, e, hpost⟩ => ?_, fun ⟨pre, header, cell, post, e, hk, hv, hpost⟩ => ?_⟩
  · obtain ⟨pre', rest, hr, rfl, hrest⟩ := List.map_eq_append_iff.mp e
    obtain ⟨p, post', rfl, hp, rfl⟩ := List.map_eq_cons_iff.mp hrest
    obtain ⟨hk, hv⟩ := Prod.mk.inj hp
    refine ⟨pre', p.1, p.2, post', hr, hk, hv, fun q hq hqk => hpost ?_⟩
    rw [List.map_map]
    exact List.mem_map.mpr ⟨q, hq, hqk⟩
  · refine ⟨pre.map fun p => (normaliseKey p.1, coerce (.str p.2)),
      post.map fun p => (normaliseKey p.1, coerce (.str p.2)), ?_, fun h => ?_⟩
    · rw [e, List.map_append, List.map_cons, hk, hv]
    · rw [List.map_map] at h
      obtain ⟨q, hq, hqk⟩ := List.mem_map.mp h
      exact hpost q hq hqk

/-- **Which rows of strings can be stored**: those whose columns, but for the ones a later column
    overwrites, have a header without U+0000 and no cell that is read as a NaN or as an infinity or
    stays a text with U+0000. -/
theorem payloadStorable_iff (r : Dict String String) : PayloadStorable (normalised F r) ↔
    ∀ pre header cell post, r.items = pre ++ (header, cell) :: post →
      (∀ q ∈ post, normaliseKey q.1 ≠ normaliseKey header) →
        hasNul (normaliseKey header) = false ∧ storableCell cell = true := by
  refine ⟨fun h pre header cell post hr hpost => ?_, fun h => ?_⟩
  · rw [← isJsonb_coerce (F := F)]
    exact inserted_iff.mp h.inserted _ _
      (normalised_get?_iff.mpr ⟨pre, header, cell, post, hr, rfl, rfl, hpost⟩)
  · have hkept : ∀ k v, (normalised F r).get? k = some v →
        hasNul k = false ∧ v.isJsonb = true ∧ v.isJsonScalar = true := by
      intro k v hv
      obtain ⟨pre, header, cell, post, hr, rfl, rfl, hpost⟩ := normalised_get?_iff.mp hv
      obtain ⟨hkey, hcell⟩ := h pre header cell post hr hpost
      rw [← isJsonb_coerce (F := F)] at hcell
      exact ⟨hkey, hcell, isJsonScalar_coerce hcell⟩
    have hstored : (payloadColumn.type.sqlType.store (normalised F r).toValue).isSome = true :=
      inserted_iff.mpr fun k v hv => ⟨(hkept k v hv).1, (hkept k v hv).2.1⟩
    refine ⟨fun k v hv => (hkept k v hv).2.2, Value.isJson_of_isJsonb ?_, hstored⟩
    by_contra hno
    rw [show payloadColumn.type.sqlType.store (normalised F r).toValue = none from if_neg hno]
      at hstored
    cases hstored

end

section

open Python.Ascii

def nanRow : Dict String String := Dict.ofList [("score", " NaN ")]

theorem not_payloadStorable_nanRow : ¬ PayloadStorable (normalised CoarseFloat nanRow) := by
  intro h
  have hnan : (normalised CoarseFloat nanRow).toValue.isJson = false := by decide +kernel
  rw [h.json] at hnan
  cases hnan

example : storableCell "1e999" = false := by decide +kernel

end

end AutomationPlatform
