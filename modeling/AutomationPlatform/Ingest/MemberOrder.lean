import AutomationPlatform.Orchestrator.Ingest
import AutomationPlatform.Python.Ascii
import AutomationPlatform.Python.Reorder

/-!
# Equal rows that are not recognised as duplicates

A row of JSON is reordered by swaps of neighbouring members, at the top or inside a value. The hash
sorts the top-level keys only: of two columns whose keys normalise alike the last one wins, and a
nested dict is printed in the order it came in.

* `moved_get?`: a column moved to the end wins its key, and no other key notices;
* `text_eq_of_hash`: rows with one hash that agree outside a key have the same text there;
* **`orderBlind_iff`**: which rows are recognised in every order of their members.
-/

namespace AutomationPlatform

open Python Codes

section

variable {F : Type}

/-- A row as `json.loads` returns it. -/
structure JsonRow (F : Type) where
  row : Record F
  nested : ∀ p ∈ row.items, p.2.WellFormed

/-- The same members with the same values, in another order, at any depth. -/
def JsonRow.Reordered (a b : JsonRow F) : Prop :=
  Python.Reordered a.row.toValue b.row.toValue

/-! ## 1. Reordering a row -/

/-- What a row is reordered to is a row. -/
theorem exists_row_of_reordered {a : JsonRow F} {w : Value F}
    (h : Python.Reordered a.row.toValue w) :
    ∃ b : JsonRow F, b.row.toValue = w ∧ a.Reordered b := by
  have hwf : a.row.toValue.WellFormed := wellFormed_dict_iff.mpr ⟨a.row.nodup, a.nested⟩
  have hdict : w.WellFormed ∧ ∃ ns, w = .dict ns := by
    induction h with
    | refl => exact ⟨hwf, a.row.items, rfl⟩
    | tail _ hs ih =>
        obtain ⟨hv, ms, rfl⟩ := ih
        obtain ⟨ns, e, -⟩ := hs.dict_cases
        exact ⟨hs.wellFormed hv, ns, e⟩
  obtain ⟨hw, ns, rfl⟩ := hdict
  obtain ⟨hnodup, hnested⟩ := wellFormed_dict_iff.mp hw
  exact ⟨⟨⟨ns, hnodup⟩, hnested⟩, rfl, h⟩

/-- A column moved to the end, as it is or with one swap inside its value. -/
theorem exists_moved {a : JsonRow F} {m : String × Value F} (hm : m ∈ a.row.items) {v : Value F}
    (hv : v = m.2 ∨ Swap m.2 v) : ∃ pre post, ∃ b : JsonRow F, a.row.items = pre ++ m :: post ∧
      b.row.items = pre ++ post ++ [(m.1, v)] ∧ a.Reordered b := by
  obtain ⟨pre, post, hsplit⟩ := List.append_of_mem hm
  have hmoved : Python.Reordered a.row.toValue (.dict (pre ++ post ++ [(m.1, v)])) := by
    have hperm : a.row.items.Perm (pre ++ post ++ [m]) := by
      rw [hsplit, List.append_assoc]
      exact (List.perm_append_singleton m post).symm.append_left pre
    have h := reordered_of_perm hperm
    rcases hv with rfl | hs
    · exact h
    · exact h.tail (Swap.inDict (pre ++ post) [] m.1 hs)
  obtain ⟨b, hb, hreordered⟩ := exists_row_of_reordered hmoved
  exact ⟨pre, post, b, hsplit, Value.dict.inj hb, hreordered⟩

/-- Rows without nested order have the same columns in every order. -/
theorem perm_of_reordered {a b : JsonRow F} (hrigid : ∀ p ∈ a.row.items, isRigid p.2 = true)
    (h : a.Reordered b) : b.row.items.Perm a.row.items := by
  have hperm : ∀ w, Python.Reordered a.row.toValue w →
      ∃ ns, w = .dict ns ∧ ns.Perm a.row.items := by
    intro w hw
    induction hw with
    | refl => exact ⟨a.row.items, rfl, List.Perm.refl _⟩
    | tail _ hs ih =>
        obtain ⟨ms, rfl, hms⟩ := ih
        obtain ⟨ns, rfl, hns⟩ := hs.dict_cases
        rcases hns with hns | ⟨m, hm, hr⟩
        · exact ⟨ns, rfl, hns.trans hms⟩
        · rw [hrigid m (hms.mem_iff.mp hm)] at hr
          cases hr
  obtain ⟨ns, e, hns⟩ := hperm _ h
  rw [show b.row.items = ns from Value.dict.inj e]
  exact hns

/-! ## 2. The last column of a key -/

theorem canonical_text_inj {pre post : List (String × String)} {k t t' : String}
    (h : canonical (pre ++ (k, t) :: post) = canonical (pre ++ (k, t') :: post)) : t = t' := by
  by_contra hne
  unfold canonical at h
  rw [List.map_append, List.map_append, List.map_cons, List.map_cons] at h
  exact OneOff.intercalate_ne
    ⟨_, _, _, _, rfl, rfl, fun e => hne (string_append_left_cancel e)⟩ "|" h

variable [UnicodeData] [PyFloat F]

/-- **A column moved to the end** wins its key, and no other key notices. -/
theorem moved_get? {d e : Record F} {pre post : List (String × Value F)} {m : String × Value F}
    (hd : d.items = pre ++ m :: post) {v : Value F} (he : e.items = pre ++ post ++ [(m.1, v)])
    (k : String) : (normaliseRow e).get? k =
      if k = normaliseKey m.1 then some (coerce v) else (normaliseRow d).get? k := by
  unfold normaliseRow
  rw [hd, he, Dict.get?_ofList, Dict.get?_ofList]
  simp only [List.map_append, List.map_cons, List.map_nil, List.reverse_append, List.reverse_cons,
    List.reverse_nil, List.nil_append, List.append_assoc, List.singleton_append,
    List.lookup_append, List.lookup_cons]
  by_cases hk : k = normaliseKey m.1
  · rw [if_pos hk, hk, beq_self_eq_true]
    rfl
  · rw [if_neg hk, beq_eq_false_iff_ne.mpr hk]

/-- **Rows with one hash that agree outside a key** have the same text there. -/
theorem text_eq_of_hash {digest : String → String} (hd : Function.Injective digest) {s k : String}
    {d e : Record F} (hk : k ∈ d.keys) (hsame : ∀ l, l ≠ k → d.get? l = e.get? l)
    (hke : k ∈ e.keys)
    (h : computeSourceRowHash digest s d = computeSourceRowHash digest s e) :
    pyStr (d.get k) = pyStr (e.get k) := by
  have hcanonical : canonical (columns d) = canonical (columns e) :=
    string_append_left_cancel (hd h)
  have hkeys : ∀ l, l ∈ d.keys ↔ l ∈ e.keys := by
    intro l
    by_cases hl : l = k
    · rw [hl]
      exact ⟨fun _ => hke, fun _ => hk⟩
    · rw [Dict.mem_keys_iff, Dict.mem_keys_iff, hsame l hl]
  unfold columns at hcanonical
  rw [← Dict.sortedKeys_congr hkeys] at hcanonical
  obtain ⟨pre, post, hsplit⟩ := List.append_of_mem (Dict.mem_sortedKeys.mpr hk)
  have hlt := Dict.pairwise_lt_sortedKeys d
  rw [hsplit, List.pairwise_append, List.pairwise_cons] at hlt
  have hget : ∀ l, l ≠ k → d.get l = e.get l := by
    intro l hl
    unfold Record.get
    rw [hsame l hl]
  have hpre : pre.map (fun l => (l, pyStr (d.get l))) = pre.map fun l => (l, pyStr (e.get l)) :=
    List.map_congr_left fun l hl => by
      rw [hget l (ne_of_lt (hlt.2.2 l hl k List.mem_cons_self))]
  have hpost : post.map (fun l => (l, pyStr (d.get l))) = post.map fun l => (l, pyStr (e.get l)) :=
    List.map_congr_left fun l hl => by rw [hget l (ne_of_gt (hlt.2.1.1 l hl))]
  rw [hsplit] at hcanonical
  simp only [List.map_append, List.map_cons, hpre, hpost] at hcanonical
  exact canonical_text_inj hcanonical

/-! ## 3. Rows recognised in every order -/

/-- **Every reordering is recognised**: it has the hash of the row, and ingested after the row it
    adds no record. -/
structure OrderBlind (digest : String → String) (s : String) (a : JsonRow F) : Prop where
  hash : ∀ b, a.Reordered b → rowHash digest s b.row = rowHash digest s a.row
  ingested : ∀ b, a.Reordered b → (ingest digest s [a.row, b.row]).length = 1

/-- No order is in the row: columns whose keys normalise alike have one text, and no nested dict
    has two members. -/
structure OrderFree (a : JsonRow F) : Prop where
  columns : ∀ m ∈ a.row.items, ∀ n ∈ a.row.items, normaliseKey m.1 = normaliseKey n.1 →
    pyStr (coerce m.2) = pyStr (coerce n.2)
  nested : ∀ m ∈ a.row.items, isRigid m.2 = true

theorem length_ingest_pair (digest : String → String) (s : String) (d e : Record F) :
    (ingest digest s [d, e]).length = 1 ↔ rowHash digest s d = rowHash digest s e := by
  have hone : ingest digest s [d] = [ingestRecord digest s d] := by
    rw [← List.nil_append [d], ingest_append_singleton, if_neg (by simp)]
    rfl
  rw [show [d, e] = [d] ++ [e] from rfl, ingest_append_singleton, hone]
  by_cases h : rowHash digest s d = rowHash digest s e
  · rw [if_pos ⟨d, List.mem_singleton_self d, h⟩]
    exact ⟨fun _ => h, fun _ => rfl⟩
  · rw [if_neg fun ⟨r, hr, e'⟩ => h (List.mem_singleton.mp hr ▸ e')]
    exact ⟨fun hlen => absurd hlen (by simp), fun he => absurd he h⟩

/-- In a row without order the columns are the same in every order. -/
theorem columns_of_perm {a : JsonRow F} (h : OrderFree a) {d : Record F}
    (hperm : d.items.Perm a.row.items) :
    columns (normaliseRow d) = columns (normaliseRow a.row) := by
  have hkeys : ∀ k, k ∈ (normaliseRow d).keys ↔ k ∈ (normaliseRow a.row).keys := by
    intro k
    unfold normaliseRow
    rw [Dict.mem_keys_ofList, Dict.mem_keys_ofList]
    exact ((hperm.map _).map _).mem_iff
  unfold columns
  rw [Dict.sortedKeys_congr hkeys]
  refine List.map_congr_left fun k hk => ?_
  have hka := Dict.mem_sortedKeys.mp hk
  obtain ⟨v, hv⟩ := Dict.mem_keys_iff.mp hka
  obtain ⟨w, hw⟩ := Dict.mem_keys_iff.mp ((hkeys k).mpr hka)
  obtain ⟨m, hm, em⟩ := List.mem_map.mp (Dict.mem_of_get?_ofList hv)
  obtain ⟨n, hn, en⟩ := List.mem_map.mp (Dict.mem_of_get?_ofList hw)
  have htext := h.columns n (hperm.mem_iff.mp hn) m hm
    ((Prod.mk.inj en).1.trans (Prod.mk.inj em).1.symm)
  rw [Record.get_of_get? hv, Record.get_of_get? hw, ← (Prod.mk.inj em).2, ← (Prod.mk.inj en).2,
    htext]

/-- **Columns of one key have one text** in a row that is recognised in every order: the two
    reorderings that let one and the other win have the same hash. -/
theorem text_eq_of_orderBlind {digest : String → String} (hd : Function.Injective digest)
    {s : String} {a : JsonRow F} (h : OrderBlind digest s a) {m n : String × Value F}
    (hm : m ∈ a.row.items) (hn : n ∈ a.row.items) (hkey : normaliseKey m.1 = normaliseKey n.1)
    {v w : Value F} (hv : v = m.2 ∨ Swap m.2 v) (hw : w = n.2 ∨ Swap n.2 w) :
    pyStr (coerce v) = pyStr (coerce w) := by
  obtain ⟨pre, post, b, ha, hb, hab⟩ := exists_moved hm hv
  obtain ⟨pre', post', c, ha', hc, hac⟩ := exists_moved hn hw
  have hgetb := moved_get? ha hb
  have hgetc := moved_get? ha' hc
  have hb' : (normaliseRow b.row).get? (normaliseKey m.1) = some (coerce v) := by
    rw [hgetb, if_pos rfl]
  have hc' : (normaliseRow c.row).get? (normaliseKey m.1) = some (coerce w) := by
    rw [hgetc, if_pos hkey]
  have hsame : ∀ l, l ≠ normaliseKey m.1 →
      (normaliseRow b.row).get? l = (normaliseRow c.row).get? l := by
    intro l hl
    rw [hgetb, hgetc, if_neg hl, if_neg fun e => hl (e.trans hkey.symm)]
  have htext := text_eq_of_hash hd (Dict.mem_keys_iff.mpr ⟨_, hb'⟩) hsame
    (Dict.mem_keys_iff.mpr ⟨_, hc'⟩) ((h.hash b hab).trans (h.hash c hac).symm)
  rwa [Record.get_of_get? hb', Record.get_of_get? hc'] at htext

/-- A value with a dict in it is coerced to itself and printed by `repr`. -/
theorem pyStr_coerce_of_swap {v w : Value F} (h : Swap v w) :
    pyStr (coerce v) = pyRepr v ∧ pyStr (coerce w) = pyRepr w := by
  cases h <;> exact ⟨rfl, rfl⟩

/-- **Which rows are recognised in every order of their members.** -/
theorem orderBlind_iff {digest : String → String} (hd : Function.Injective digest) (s : String)
    (a : JsonRow F) : OrderBlind digest s a ↔ OrderFree a := by
  refine ⟨fun h => ?_, fun h => ?_⟩
  · refine ⟨fun m hm n hn hkey =>
      text_eq_of_orderBlind hd h hm hn hkey (Or.inl rfl) (Or.inl rfl), fun m hm => ?_⟩
    by_contra hrigid
    obtain ⟨w, hs, hne⟩ := exists_swap m.2 (a.nested m hm) (eq_false_of_ne_true hrigid)
    have htext := text_eq_of_orderBlind hd h hm hm rfl (Or.inr hs) (Or.inl rfl)
    obtain ⟨hv, hw⟩ := pyStr_coerce_of_swap hs
    rw [hv, hw] at htext
    exact hne htext
  · have hhash : ∀ b, a.Reordered b → rowHash digest s b.row = rowHash digest s a.row := by
      intro b hb
      unfold rowHash computeSourceRowHash
      rw [columns_of_perm h (perm_of_reordered h.nested hb)]
    exact ⟨hhash, fun b hb => (length_ingest_pair digest s a.row b.row).mpr (hhash b hb).symm⟩

end

/-! ## 4. A row with a nested dict -/

section

open Python.Ascii

/-- `{"a": {"x": 1, "y": 2}}`, and the same with the members of the nested object swapped. -/
def nestedRow : JsonRow Ascii.Float where
  row := ⟨[("a", .dict [("x", .int 1), ("y", .int 2)])], by decide⟩
  nested p hp := by
    rw [List.mem_singleton.mp hp]
    exact wellFormed_dict_iff.mpr ⟨by decide, by simp [Value.WellFormed]⟩

def swappedRow : JsonRow Ascii.Float where
  row := ⟨[("a", .dict [("y", .int 2), ("x", .int 1)])], by decide⟩
  nested p hp := by
    rw [List.mem_singleton.mp hp]
    exact wellFormed_dict_iff.mpr ⟨by decide, by simp [Value.WellFormed]⟩

theorem not_orderBlind_nestedRow : ¬ ∀ digest : String → String, Function.Injective digest →
    ∀ s, ∀ a : JsonRow Ascii.Float, OrderBlind digest s a := by
  intro h
  have hreordered : nestedRow.Reordered swappedRow :=
    Relation.ReflTransGen.single (.inDict [] [] "a" (.here [] ("x", .int 1) ("y", .int 2) []))
  have hdiffer : rowHash id "crm" swappedRow.row ≠ rowHash id "crm" nestedRow.row := by
    decide +kernel
  exact hdiffer ((h id Function.injective_id "crm" nestedRow).hash swappedRow hreordered)

/-- A row with two columns and a nested list. -/
def tagsRow : JsonRow Ascii.Float where
  row := ⟨[("tags", .list [.dict [("k", .int 1)], .str "x"]), (" Name", .str "Ann")], by decide⟩
  nested p hp := by
    rcases List.mem_cons.mp hp with rfl | hp
    · exact wellFormed_list_iff.mpr (by simp [Value.WellFormed, Value.WellFormedMembers])
    · rw [List.mem_singleton.mp hp]
      simp [Value.WellFormed]

/-- SHA-256 of the payload of `tagsRow`. -/
def tagsDigest : String → String :=
  pinnedDigest ("crm::name=Ann|tags=[" ++ "\x7b" ++ "'k': 1" ++ "\x7d" ++ ", 'x']")
    "e282a8f92439d84eadd93a4f4e63906c6bc80264c9ee1622c514998d39d00f2c"

theorem orderBlind_tagsRow : OrderBlind tagsDigest "crm" tagsRow := by
  refine (orderBlind_iff (pinnedDigest_injective (by decide)) "crm" tagsRow).mpr ⟨?_, ?_⟩
  · decide +kernel
  · decide +kernel

end

end AutomationPlatform
