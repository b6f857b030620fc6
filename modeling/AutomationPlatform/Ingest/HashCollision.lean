import AutomationPlatform.Library.FlatEncoding
import AutomationPlatform.Orchestrator.Ingest
import AutomationPlatform.Python.Ascii

/-!
# Rows taken for duplicates that are none

The payload of a row of strings is a flat encoding: keys as `normalise_row` leaves them, cells as
`str` prints a coerced value. A cell may hold `|`, `=` and `::`, so two columns are read as one
(`rowFormat`).

* `legal_columns`, `exists_columns_eq`: the columns of a row of strings are legal, and all legal
  columns are those of a row of strings;
* `columns_inj`: the columns determine the normalised row;
* **`hashSeparates_iff`**: which rows are told from every other row by their hash.
-/

namespace AutomationPlatform

open Python FlatEncoding

section

variable {F : Type} [U : UnicodeData] [PyFloat F]

/-! ## 1. Keys and cells -/

omit U in
theorem trimmed_toString (n : Int) : Trimmed (toString n).toList := by
  refine trimmed_of_all fun c hc => ?_
  rcases mem_toString hc with rfl | hd
  · decide
  · have hrange := digit_range hd
    have hall : ∀ k < 58, 48 ≤ k → isSpace (Char.ofNat k) = false := by decide
    have := hall c.toNat (by omega) hrange.1
    rwa [Char.ofNat_toNat] at this

/-- The text of a coerced string has no white space at its ends. -/
theorem trimmed_pyStr_coerce (s : String) :
    Trimmed (pyStr (coerce (.str s) : Value F)).toList := by
  rcases coerce_str_cases (F := F) s with ⟨b, h⟩ | ⟨n, -, h⟩ | ⟨x, h⟩ | ⟨-, -, -, h⟩
  · rw [h]
    cases b
    · have hall : ∀ c ∈ "False".toList, isSpace c = false := forall_mem_of_all (by decide)
      exact trimmed_of_all hall
    · have hall : ∀ c ∈ "True".toList, isSpace c = false := forall_mem_of_all (by decide)
      exact trimmed_of_all hall
  · rw [h]
    exact trimmed_toString n
  · rw [h]
    refine trimmed_of_all fun c hc => ?_
    have hall : ∀ c ∈ "0123456789+-.einfa".toList, isSpace c = false :=
      forall_mem_of_all (by decide)
    exact hall c (PyFloat.str_alphabet x c hc)
  · rw [h]
    exact trimmed_strip s

theorem trimmed_normaliseKey (k : String) : Trimmed (normaliseKey k).toList := by
  unfold normaliseKey lower
  rw [String.toList_ofList]
  exact (trimmed_strip k).lowerChars

/-- Text with a bar in it is no boolean and no number: it stays as it is. -/
theorem coerce_of_bar {t : String} (htrim : Trimmed t.toList) (hbar : '|' ∈ t.toList) :
    coerce (.str t) = (.str t : Value F) := by
  have hlow : lower t ∉ ["true", "false"] := by
    have hin : '|' ∈ (lower t).toList := by
      unfold lower
      rw [String.toList_ofList]
      exact mem_lowerChars_of_ascii (by decide) (by decide) hbar
    intro h
    have hno : ∀ w ∈ ["true", "false"], '|' ∉ w.toList := by decide
    exact hno _ h hin
  unfold coerce
  dsimp only
  rw [strip_eq_self_iff.mpr htrim, if_neg hlow, parseInt_of_bar hbar, parseFloat_of_bar hbar]

variable (F) in
/-- The payload of `compute_source_row_hash` on rows of strings. -/
def rowFormat : Format where
  mark := "::"
  sep := "|"
  sign := "="
  Key k := normaliseKey k = k
  Cell v := pyStr (coerce (.str v) : Value F) = v
  Before k l := k < l
  sign_ne := by decide
  merge a k b ha hk hb := by
    have htrim : Trimmed (a ++ ("|" ++ (k ++ ("=" ++ b)))).toList := by
      have hta : Trimmed a.toList := ha ▸ trimmed_pyStr_coerce a
      have htk : Trimmed k.toList := hk ▸ trimmed_normaliseKey k
      have htb : Trimmed b.toList := hb ▸ trimmed_pyStr_coerce b
      rw [String.toList_append, String.toList_append, String.toList_append, String.toList_append]
      exact hta.join (htk.join htb (by decide)) (by decide)
    rw [coerce_of_bar htrim (by simp)]
    rfl

theorem rowFormat_key {k : String} : (rowFormat F).Key k ↔ normaliseKey k = k := Iff.rfl

theorem rowFormat_cell {v : String} :
    (rowFormat F).Cell v ↔ pyStr (coerce (.str v) : Value F) = v := Iff.rfl

theorem payloadText_eq (s : String) (cols : List (String × String)) :
    payloadText s cols = (rowFormat F).payload s cols := by
  unfold payloadText canonical Format.payload Format.canonical
  rw [String.append_assoc]
  congr 3
  exact List.map_congr_left fun c _ => String.append_assoc ..

/-! ## 2. The columns of a normalised row -/

theorem legal_columns (r : Dict String String) :
    (rowFormat F).Legal (columns (normalised F r)) := by
  refine ⟨?_, ?_⟩
  · have hlt := Dict.pairwise_lt_sortedKeys (normalised F r)
    unfold columns
    rw [List.pairwise_map]
    exact hlt
  · intro c hc
    obtain ⟨k, hk, e⟩ := List.mem_map.mp hc
    obtain ⟨v, hv⟩ := Dict.mem_keys_iff.mp (Dict.mem_sortedKeys.mp hk)
    obtain ⟨hkey, x, hx⟩ := normalised_get? hv
    have hcell : (rowFormat F).Cell (pyStr v) := by
      rw [rowFormat_cell, hx, coerce_pyStr_coerce]
    rw [← Record.get_of_get? hv] at hcell
    rw [← e]
    exact ⟨rowFormat_key.mpr hkey, hcell⟩

/-- **The columns determine the normalised row**: a coerced value is read back from its text. -/
theorem columns_inj {r r' : Dict String String}
    (h : columns (normalised F r) = columns (normalised F r')) :
    (normalised F r).Same (normalised F r') := by
  have hmem : ∀ (d : Record F) k, k ∈ d.keys ↔ ∃ t, (k, t) ∈ columns d := by
    intro d k
    unfold columns
    simp
  have hkeys : ∀ k, k ∈ (normalised F r).keys ↔ k ∈ (normalised F r').keys := by
    intro k
    rw [hmem, hmem, h]
  intro k
  cases hv : (normalised F r).get? k with
  | none =>
      rw [Dict.get?_eq_none_iff, hkeys] at hv
      exact (Dict.get?_eq_none_iff.mpr hv).symm
  | some v =>
      obtain ⟨v', hv'⟩ := Dict.mem_keys_iff.mp ((hkeys k).mp (Dict.mem_keys_iff.mpr ⟨v, hv⟩))
      have htext : (k, pyStr v) ∈ columns (normalised F r') := by
        rw [← h, ← Record.get_of_get? hv]
        exact List.mem_map.mpr ⟨k, Dict.mem_sortedKeys.mpr (Dict.mem_keys_iff.mpr ⟨v, hv⟩), rfl⟩
      obtain ⟨k', -, e⟩ := List.mem_map.mp htext
      obtain ⟨rfl, etext⟩ := Prod.mk.inj e
      rw [Record.get_of_get? hv'] at etext
      obtain ⟨-, x, hx⟩ := normalised_get? hv
      obtain ⟨-, x', hx'⟩ := normalised_get? hv'
      rw [hx, hx'] at etext
      rw [hv', hx, hx', ← coerce_pyStr_coerce x, ← coerce_pyStr_coerce x', etext]

/-- **All legal columns are those of a row of strings**: the row that holds them. -/
theorem exists_columns_eq {cols : List (String × String)} (h : (rowFormat F).Legal cols) :
    ∃ r : Dict String String, columns (normalised F r) = cols := by
  have hlt : (cols.map Prod.fst).Pairwise (· < ·) := List.pairwise_map.mpr h.ordered
  have hnodup : (cols.map Prod.fst).Nodup := hlt.imp fun hkl => ne_of_lt hkl
  refine ⟨⟨cols, hnodup⟩, ?_⟩
  have hitems : (normalised F ⟨cols, hnodup⟩).items =
      cols.map fun c => (c.1, (coerce (.str c.2) : Value F)) := by
    have hlist : (strRow ⟨cols, hnodup⟩ : Record F).items.map
        (fun p => (normaliseKey p.1, coerce p.2)) =
          cols.map fun c => (c.1, (coerce (.str c.2) : Value F)) := by
      show (cols.map fun c => (c.1, Value.str c.2)).map _ = _
      rw [List.map_map]
      refine List.map_congr_left fun c hc => ?_
      show (normaliseKey c.1, _) = _
      rw [rowFormat_key.mp (h.parts c hc).1]
    unfold normalised normaliseRow
    rw [hlist]
    refine Dict.items_ofList ?_
    rw [List.map_map]
    exact hnodup
  have hkeys : (normalised F ⟨cols, hnodup⟩).keys = cols.map Prod.fst := by
    unfold Dict.keys
    rw [hitems, List.map_map]
    rfl
  unfold columns
  rw [Dict.sortedKeys_of_pairwise (by rw [hkeys]; exact hlt.imp le_of_lt), hkeys, List.map_map]
  refine (List.map_congr_left fun c hc => ?_).trans (List.map_id cols)
  have hget : (normalised F ⟨cols, hnodup⟩).get? c.1 = some (coerce (.str c.2)) := by
    rw [Dict.get?_eq_some_iff, hitems]
    exact List.mem_map.mpr ⟨c, hc, rfl⟩
  show (c.1, pyStr ((normalised F ⟨cols, hnodup⟩).get c.1)) = c
  rw [Record.get_of_get? hget, rowFormat_cell.mp (h.parts c hc).2]

/-! ## 3. Rows told apart -/

variable (F) in
/-- **No other row is taken for this one**: a row of strings with its hash has the same source and
    the same normalised content, and `ingest` drops it only after such a row. -/
structure HashSeparates (digest : String → String) (s : String) (r : Dict String String) :
    Prop where
  hash : ∀ s' r',
    rowHash digest s' (strRow r' : Record F) = rowHash digest s (strRow r : Record F) →
    s' = s ∧ (normalised F r').Same (normalised F r)
  dropped : ∀ earlier : List (Dict String String),
    ingest digest s ((earlier ++ [r]).map (strRow (F := F))) =
      ingest digest s (earlier.map strRow) →
    ∃ e ∈ earlier, (normalised F e).Same (normalised F r)

theorem rowHash_eq_iff {digest : String → String} (hd : Function.Injective digest)
    {s s' : String} {r r' : Dict String String} :
    rowHash digest s' (strRow r' : Record F) = rowHash digest s (strRow r : Record F) ↔
      (rowFormat F).payload s' (columns (normalised F r')) =
        (rowFormat F).payload s (columns (normalised F r)) := by
  rw [← payloadText_eq, ← payloadText_eq]
  exact hd.eq_iff

/-- **Which rows are told from every other row by their hash**: rows of at most one column whose
    payload is written in one way. -/
theorem hashSeparates_iff {digest : String → String} (hd : Function.Injective digest) (s : String)
    (r : Dict String String) :
    HashSeparates F digest s r ↔ (rowFormat F).Unambiguous s (columns (normalised F r)) := by
  rw [← Format.determined_iff (legal_columns r)]
  refine ⟨fun h s' cols' hlegal e => ?_, fun h => ?_⟩
  · obtain ⟨r', rfl⟩ := exists_columns_eq hlegal
    obtain ⟨hs, hsame⟩ := h.hash s' r' ((rowHash_eq_iff hd).mpr e)
    exact ⟨hs, columns_congr hsame⟩
  · have hhash : ∀ s' r',
        rowHash digest s' (strRow r' : Record F) = rowHash digest s (strRow r : Record F) →
          s' = s ∧ (normalised F r').Same (normalised F r) := by
      intro s' r' e
      obtain ⟨hs, hcols⟩ := h s' _ (legal_columns r') ((rowHash_eq_iff hd).mp e)
      exact ⟨hs, columns_inj hcols⟩
    refine ⟨hhash, fun earlier hdrop => ?_⟩
    rw [List.map_append, List.map_singleton, ingest_append_singleton] at hdrop
    split at hdrop
    · rename_i hseen
      obtain ⟨raw, hraw, e⟩ := hseen
      obtain ⟨r', hr', rfl⟩ := List.mem_map.mp hraw
      exact ⟨r', hr', (hhash s r' e).2⟩
    · exact absurd (congrArg List.length hdrop) (by simp)

/-- One column, and none of the three marks in a place of its own: such a row is safe. -/
theorem unambiguous_of_plain {s k v : String} (hs : ':' ∉ s.toList)
    (hk : ∀ c ∈ [':', '='], c ∉ k.toList) (hv : ∀ c ∈ [':', '=', '|'], c ∉ v.toList) :
    (rowFormat F).Unambiguous s [(k, v)] := by
  have hcolumn : ∀ k' v', ((rowFormat F).column (k', v')).toList =
      k'.toList ++ '=' :: v'.toList := by
    intro k' v'
    show (k' ++ ("=" ++ v')).toList = _
    rw [String.toList_append, String.toList_append]
    rfl
  refine ⟨?_, ?_⟩
  · -- two colons in all: none of them in the name
    intro s' text e hne _
    have hlist : s'.toList ++ ':' :: (':' :: text.toList) =
        s.toList ++ ':' :: (':' :: (k.toList ++ '=' :: v.toList)) := by
      have hmark : (rowFormat F).mark.toList = [':', ':'] := by
        show "::".toList = _
        decide
      rw [Format.payload, Format.canonical_singleton, ← String.toList_inj, String.toList_append,
        String.toList_append, String.toList_append, String.toList_append, hcolumn, hmark] at e
      exact e
    have hcount := congrArg (List.count ':') hlist
    have hnot : ∀ x ∈ [s, k, v], x.toList.count ':' = 0 := by
      intro x hx
      rw [List.count_eq_zero]
      rcases List.mem_cons.mp hx with rfl | hx
      · exact hs
      · rcases List.mem_cons.mp hx with rfl | hx
        · exact hk _ (by decide)
        · rw [List.mem_singleton.mp hx]
          exact hv _ (by decide)
    have h1 := hnot s (by simp)
    have h2 := hnot k (by simp)
    have h3 := hnot v (by simp)
    simp only [List.count_append, List.count_cons_self, h1, h2,
      List.count_cons_of_ne (by decide : '=' ≠ ':'), h3] at hcount
    have hs' : ':' ∉ s'.toList := List.count_eq_zero.mp (by omega)
    exact hne (String.toList_inj.mp (Codes.append_mark_inj hlist hs' hs).1)
  · refine ⟨fun k' v' e _ _ => ?_, fun a k' b e _ _ _ _ => ?_⟩
    · -- one equals sign in all: none of them in the key
      rw [← String.toList_inj, hcolumn, hcolumn] at e
      have hcount := congrArg (List.count '=') e
      have h1 : k.toList.count '=' = 0 := List.count_eq_zero.mpr (hk _ (by decide))
      have h2 : v.toList.count '=' = 0 := List.count_eq_zero.mpr (hv _ (by decide))
      simp only [List.count_append, List.count_cons_self, h1, h2] at hcount
      have hk' : '=' ∉ k'.toList := List.count_eq_zero.mp (by omega)
      exact String.toList_inj.mp (Codes.append_mark_inj e hk' (hk _ (by decide))).1
    · refine hv '|' (by decide) ?_
      rw [← e, String.toList_append, String.toList_append]
      exact List.mem_append_right _ (List.mem_append_left _ (by decide : '|' ∈ "|".toList))

end

/-! ## 4. A row, and two rows with one hash -/

section

open Python.Ascii

def annRow : Dict String String := Dict.ofList [("Name", "Ann")]

/-- SHA-256 of the payload of `annRow`. -/
def annDigest : String → String :=
  pinnedDigest "crm::name=Ann" "88acb25717d7c49103fee94c3d652d689ca0d1946d02d5fa796a3857a38bd913"

theorem hashSeparates_annRow : HashSeparates Ascii.Float annDigest "crm" annRow := by
  refine (hashSeparates_iff (pinnedDigest_injective (by decide)) "crm" annRow).mpr ?_
  have hcols : columns (normalised Ascii.Float annRow) = [("name", "Ann")] := by decide +kernel
  rw [hcols]
  exact unambiguous_of_plain (by decide) (forall_mem_of_all (by decide))
    (forall_mem_of_all (by decide))

/-- One column whose cell reads like two. -/
def barRow : Dict String String := Dict.ofList [("a", "1|b=2")]

def twoColumnRow : Dict String String := Dict.ofList [("a", "1"), ("b", "2")]

theorem not_hashSeparates_twoColumnRow : ¬ ∀ digest : String → String, Function.Injective digest →
    ∀ s r, HashSeparates Ascii.Float digest s r := by
  intro h
  have hsame := ((h id Function.injective_id "crm" twoColumnRow).hash "crm" barRow
    (by decide +kernel)).2 "b"
  have hdiffer : (normalised Ascii.Float barRow).get? "b" ≠
      (normalised Ascii.Float twoColumnRow).get? "b" := by decide +kernel
  exact hdiffer hsame

end

end AutomationPlatform
