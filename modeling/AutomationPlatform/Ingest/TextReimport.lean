import AutomationPlatform.Orchestrator.Ingest

/-!
# Exporting a normalised row as text and importing it again

The export prints every value with `str`, the import coerces the texts again. Each branch of
`_coerce` reads its own output back: the parsers tried before it reject the text, it accepts it.

* `normaliseRow_mapVals`: what normalising leaves alone;
* **`normalised_reimported`**: a normalised row survives, and no two values print alike.
-/

namespace AutomationPlatform

open Python

variable {F : Type} [UnicodeData] [PyFloat F]

/-- The row as a text export holds it. -/
def exported (n : Record F) : Record F := n.mapVals fun v => .str (pyStr v)

/-- A coerced value is left alone. -/
theorem coerce_coerce (s : String) :
    coerce (coerce (.str s) : Value F) = (coerce (.str s) : Value F) := by
  rcases coerce_str_cases (F := F) s with ⟨b, h⟩ | ⟨n, -, h⟩ | ⟨x, h⟩ | ⟨-, -, -, h⟩
  · rw [h]
    rfl
  · rw [h]
    rfl
  · rw [h]
    rfl
  · have hback := coerce_pyStr_coerce (F := F) s
    rw [h] at hback ⊢
    exact hback

/-- **Normalising leaves a row alone** whose keys are normalised and whose values are coerced to
    what they stand for. -/
theorem normaliseRow_mapVals {n : Record F} {f : Value F → Value F}
    (hkeys : ∀ p ∈ n.items, normaliseKey p.1 = p.1) (hvals : ∀ p ∈ n.items, coerce (f p.2) = p.2) :
    normaliseRow (n.mapVals f) = n := by
  have hitems : ((n.mapVals f).items.map fun p => (normaliseKey p.1, coerce p.2)) = n.items := by
    show ((n.items.map fun p => (p.1, f p.2)).map fun p => (normaliseKey p.1, coerce p.2)) = n.items
    rw [List.map_map]
    refine (List.map_congr_left fun p hp => ?_).trans (List.map_id n.items)
    exact Prod.ext (hkeys p hp) (hvals p hp)
  refine Dict.ext ?_
  unfold normaliseRow
  rw [hitems, Dict.items_ofList n.nodup]

theorem normalised_items {r : Dict String String} {p : String × Value F}
    (hp : p ∈ (normalised F r).items) : normaliseKey p.1 = p.1 ∧ ∃ x, p.2 = coerce (.str x) :=
  normalised_get? (Dict.get?_eq_some_iff.mpr hp)

/-- **A normalised row survives a text export and import**: it is normalised already, its texts
    normalise to it, so every hash is the same, and values that print alike are the same value. -/
theorem normalised_reimported (r : Dict String String) :
    normaliseRow (normalised F r) = normalised F r ∧
      normaliseRow (exported (normalised F r)) = normalised F r ∧
      (∀ digest s, computeSourceRowHash digest s (normaliseRow (exported (normalised F r))) =
        computeSourceRowHash digest s (normalised F r)) ∧
      ∀ x y, pyStr (coerce (.str x) : Value F) = pyStr (coerce (.str y) : Value F) →
        (coerce (.str x) : Value F) = coerce (.str y) := by
  have hkeys : ∀ p ∈ (normalised F r).items, normaliseKey p.1 = p.1 :=
    fun p hp => (normalised_items hp).1
  have hvals : ∀ p ∈ (normalised F r).items, coerce (id p.2) = p.2 := by
    intro p hp
    obtain ⟨-, x, hx⟩ := normalised_items hp
    rw [id, hx, coerce_coerce]
  have htexts : ∀ p ∈ (normalised F r).items, coerce (.str (pyStr p.2)) = p.2 := by
    intro p hp
    obtain ⟨-, x, hx⟩ := normalised_items hp
    rw [hx, coerce_pyStr_coerce]
  have hexport : normaliseRow (exported (normalised F r)) = normalised F r :=
    normaliseRow_mapVals hkeys htexts
  refine ⟨?_, hexport, fun digest s => by rw [hexport], fun x y e => ?_⟩
  · have hid : (normalised F r).mapVals id = normalised F r :=
      Dict.ext (List.map_id (normalised F r).items)
    have h := normaliseRow_mapVals hkeys hvals
    rwa [hid] at h
  · rw [← coerce_pyStr_coerce x, e, coerce_pyStr_coerce y]

end AutomationPlatform
