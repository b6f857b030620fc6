import Mathlib.Data.List.Induction
import Mathlib.Data.List.Perm.Subperm
import Mathlib.Data.List.Sort
import Mathlib.Tactic.Common

/-!
# Insertion-ordered dictionaries

A `Dict` is what a Python `dict` is to a program that only builds, reads and copies it: a list of
key/value items in insertion order with no key twice. The invariant is a field, so an operation
proves once that it keeps the keys distinct and no later statement asks for it.

* `insert` overwrites in place and appends a new key at the end; `ofList` is a comprehension (one
  `insert` per item, so the last item with a key wins); `erase` drops a key; `get?` reads one;
* `Same` is the equality of dictionaries the language compares with `==`: order does not count;
* `sortedKeys` depends on the SET of keys only (`sortedKeys_congr`).
-/

/-- Items in insertion order, no key twice. -/
structure Dict (κ ν : Type) where
  items : List (κ × ν)
  nodup : (items.map Prod.fst).Nodup

namespace Dict

variable {κ ν μ : Type}

@[ext] theorem ext {d e : Dict κ ν} (h : d.items = e.items) : d = e := by
  cases d
  cases e
  cases h
  rfl

def keys (d : Dict κ ν) : List κ := d.items.map Prod.fst

def empty : Dict κ ν := ⟨[], List.nodup_nil⟩

/-- The dictionary with one function applied to every value. -/
def mapVals (f : ν → μ) (d : Dict κ ν) : Dict κ μ :=
  ⟨d.items.map fun p => (p.1, f p.2), by
    have e : (d.items.map fun p => (p.1, f p.2)).map Prod.fst = d.items.map Prod.fst := by
      simp [Function.comp_def]
    rw [e]
    exact d.nodup⟩

@[simp] theorem keys_empty : (empty : Dict κ ν).keys = [] := rfl

theorem nodup_append_new {l : List (κ × ν)} (h : (l.map Prod.fst).Nodup) {k : κ}
    (hk : k ∉ l.map Prod.fst) (v : ν) : ((l ++ [(k, v)]).map Prod.fst).Nodup := by
  rw [List.map_append, List.nodup_append]
  refine ⟨h, List.nodup_singleton _, fun a ha b hb e => ?_⟩
  have hb' : b = k := by simpa using hb
  exact hk (hb' ▸ e ▸ ha)

variable [DecidableEq κ]

/-- `d.get(k)`, with `none` for a missing key. -/
def get? (d : Dict κ ν) (k : κ) : Option ν := d.items.lookup k

theorem nodup_overwrite {l : List (κ × ν)} (h : (l.map Prod.fst).Nodup) (k : κ) (v : ν) :
    ((l.map fun p => if p.1 = k then (k, v) else p).map Prod.fst).Nodup := by
  have e : (l.map fun p => if p.1 = k then (k, v) else p).map Prod.fst = l.map Prod.fst := by
    rw [List.map_map]
    refine List.map_congr_left fun p _ => ?_
    by_cases hp : p.1 = k <;> simp [hp]
  rw [e]
  exact h

/-- `d[k] = v`: a key that is there keeps its place, a new one goes to the end. -/
def insert (d : Dict κ ν) (k : κ) (v : ν) : Dict κ ν :=
  if h : k ∈ d.items.map Prod.fst then
    ⟨d.items.map fun p => if p.1 = k then (k, v) else p, nodup_overwrite d.nodup k v⟩
  else
    ⟨d.items ++ [(k, v)], nodup_append_new d.nodup h v⟩

/-- `{k: v for k, v in l}`: one assignment per item, in order. -/
def ofList (l : List (κ × ν)) : Dict κ ν := l.foldl (fun d p => d.insert p.1 p.2) empty

/-- The dictionary without a key. -/
def erase (d : Dict κ ν) (k : κ) : Dict κ ν :=
  ⟨d.items.filter fun p => decide (p.1 ≠ k),
    d.nodup.sublist (List.Sublist.map Prod.fst List.filter_sublist)⟩

/-- `==` on dictionaries: the same keys with the same values. -/
def Same (d e : Dict κ ν) : Prop := ∀ k, d.get? k = e.get? k

/-! ## 1. Reading -/

theorem lookup_eq_some_iff_mem {l : List (κ × ν)} (h : (l.map Prod.fst).Nodup) {k : κ} {v : ν} :
    l.lookup k = some v ↔ (k, v) ∈ l := by
  induction l with
  | nil => simp
  | cons p l ih =>
    obtain ⟨a, b⟩ := p
    rw [List.map_cons, List.nodup_cons] at h
    by_cases hk : k = a
    · subst hk
      have hne : ∀ w, (k, w) ∉ l := fun w hw => h.1 (List.mem_map.mpr ⟨(k, w), hw, rfl⟩)
      simp [hne, eq_comm]
    · have hb : (k == a) = false := by simpa using hk
      simp [List.lookup_cons, hb, ih h.2, hk]

theorem get?_eq_some_iff {d : Dict κ ν} {k : κ} {v : ν} :
    d.get? k = some v ↔ (k, v) ∈ d.items := lookup_eq_some_iff_mem d.nodup

theorem mem_keys_iff {d : Dict κ ν} {k : κ} : k ∈ d.keys ↔ ∃ v, d.get? k = some v := by
  simp only [keys, List.mem_map, get?_eq_some_iff]
  refine ⟨?_, ?_⟩
  · rintro ⟨⟨a, v⟩, h, rfl⟩
    exact ⟨v, h⟩
  · rintro ⟨v, h⟩
    exact ⟨(k, v), h, rfl⟩

theorem get?_eq_none_iff {d : Dict κ ν} {k : κ} : d.get? k = none ↔ k ∉ d.keys := by
  rw [mem_keys_iff, Option.eq_none_iff_forall_ne_some, not_exists]

@[simp] theorem get?_empty (k : κ) : (empty : Dict κ ν).get? k = none := rfl

theorem Same.mem_keys {d e : Dict κ ν} (h : d.Same e) (k : κ) : k ∈ d.keys ↔ k ∈ e.keys := by
  rw [mem_keys_iff, mem_keys_iff, h k]

/-! ## 2. Writing -/

theorem lookup_overwrite_ne (l : List (κ × ν)) {k k' : κ} (hk : k' ≠ k) (v : ν) :
    (l.map fun p => if p.1 = k then (k, v) else p).lookup k' = l.lookup k' := by
  induction l with
  | nil => rfl
  | cons p l ih =>
    by_cases hp : p.1 = k
    · have h1 : (k' == k) = false := by simpa using hk
      have h2 : (k' == p.1) = false := by simpa [hp] using hk
      rw [List.map_cons, if_pos hp, List.lookup_cons, h1, List.lookup_cons, h2]
      exact ih
    · rw [List.map_cons, if_neg hp, List.lookup_cons, List.lookup_cons, ih]

/-- **Reading after an assignment.** -/
@[simp] theorem get?_insert (d : Dict κ ν) (k k' : κ) (v : ν) :
    (d.insert k v).get? k' = if k' = k then some v else d.get? k' := by
  by_cases hk : k' = k
  · subst hk
    rw [if_pos rfl, get?_eq_some_iff]
    unfold insert
    split
    · rename_i h
      obtain ⟨p, hp, rfl⟩ := List.mem_map.mp h
      exact List.mem_map.mpr ⟨p, hp, if_pos rfl⟩
    · exact List.mem_append_right _ (List.mem_singleton_self _)
  · rw [if_neg hk]
    unfold insert
    split
    · exact lookup_overwrite_ne d.items hk v
    · have hb : (k' == k) = false := by simpa using hk
      simp [get?, List.lookup_append, List.lookup_cons, hb]

@[simp] theorem mem_keys_insert {d : Dict κ ν} {k k' : κ} {v : ν} :
    k' ∈ (d.insert k v).keys ↔ k' = k ∨ k' ∈ d.keys := by
  rw [mem_keys_iff, mem_keys_iff, get?_insert]
  by_cases hk : k' = k <;> simp [hk]

/-- **Reading after a key was dropped.** -/
@[simp] theorem get?_erase (d : Dict κ ν) (k k' : κ) :
    (d.erase k).get? k' = if k' = k then none else d.get? k' := by
  refine Option.ext fun v => ?_
  by_cases hk : k' = k
  · rw [if_pos hk, get?_eq_some_iff, erase, List.mem_filter]
    simp [hk]
  · rw [if_neg hk, get?_eq_some_iff, get?_eq_some_iff, erase, List.mem_filter]
    simp [hk]

/-- Dropping a key that was new undoes its assignment. -/
theorem erase_insert_self {d : Dict κ ν} {k : κ} (hk : d.get? k = none) (v : ν) :
    (d.insert k v).erase k = d := by
  have hnew : k ∉ d.items.map Prod.fst := get?_eq_none_iff.mp hk
  have hitems : (d.insert k v).items = d.items ++ [(k, v)] := by
    unfold insert
    rw [dif_neg hnew]
  have hold : d.items.filter (fun p => decide (p.1 ≠ k)) = d.items :=
    List.filter_eq_self.mpr fun p hp => decide_eq_true fun e => hnew (e ▸ List.mem_map_of_mem hp)
  refine ext ?_
  show (d.insert k v).items.filter (fun p => decide (p.1 ≠ k)) = d.items
  rw [hitems, List.filter_append, hold]
  simp

@[simp] theorem ofList_nil : ofList ([] : List (κ × ν)) = empty := rfl

theorem ofList_append_singleton (l : List (κ × ν)) (k : κ) (v : ν) :
    ofList (l ++ [(k, v)]) = (ofList l).insert k v := by
  simp [ofList, List.foldl_append]

/-- In a comprehension the last item of a key wins. -/
theorem get?_ofList (l : List (κ × ν)) (k : κ) : (ofList l).get? k = l.reverse.lookup k := by
  induction l using List.reverseRec with
  | nil => rfl
  | append_singleton l p ih =>
    rw [ofList_append_singleton, get?_insert, ih, List.reverse_append, List.reverse_singleton,
      List.singleton_append, List.lookup_cons]
    by_cases hk : k = p.1
    · rw [if_pos hk, hk, beq_self_eq_true]
    · rw [if_neg hk, beq_eq_false_iff_ne.mpr hk]

theorem mem_of_get?_ofList {l : List (κ × ν)} {k : κ} {v : ν}
    (h : (ofList l).get? k = some v) : (k, v) ∈ l := by
  induction l using List.reverseRec with
  | nil => simp at h
  | append_singleton l p ih =>
    obtain ⟨a, b⟩ := p
    rw [ofList_append_singleton, get?_insert] at h
    by_cases hk : k = a
    · simp_all
    · rw [if_neg hk] at h
      exact List.mem_append_left _ (ih h)

theorem mem_keys_ofList {l : List (κ × ν)} {k : κ} :
    k ∈ (ofList l).keys ↔ k ∈ l.map Prod.fst := by
  induction l using List.reverseRec with
  | nil => simp
  | append_singleton l p ih =>
    obtain ⟨a, b⟩ := p
    rw [ofList_append_singleton, mem_keys_insert, ih]
    simp [or_comm]

/-- A comprehension over different keys keeps its items. -/
theorem items_ofList {l : List (κ × ν)} (h : (l.map Prod.fst).Nodup) : (ofList l).items = l := by
  induction l using List.reverseRec with
  | nil => rfl
  | append_singleton l p ih =>
    rw [List.map_append, List.nodup_append] at h
    have hitems := ih h.1
    have hnew : p.1 ∉ (ofList l).items.map Prod.fst := by
      rw [hitems]
      exact fun hp => h.2.2 _ hp _ (List.mem_singleton_self _) rfl
    rw [ofList_append_singleton, insert, dif_neg hnew]
    show (ofList l).items ++ [p] = l ++ [p]
    rw [hitems]

/-- In a comprehension over different keys every item is read back. -/
theorem get?_ofList_of_mem {l : List (κ × ν)} (h : (l.map Prod.fst).Nodup) {k : κ} {v : ν}
    (hkv : (k, v) ∈ l) : (ofList l).get? k = some v := by
  rw [get?_eq_some_iff, items_ofList h]
  exact hkv

/-- **A comprehension keeps the number of items exactly when no key comes twice.** -/
theorem length_ofList_eq_iff {l : List (κ × ν)} :
    (ofList l).items.length = l.length ↔ (l.map Prod.fst).Nodup := by
  refine ⟨fun h => ?_, fun h => by rw [items_ofList h]⟩
  have hsub : (ofList l).keys ⊆ l.map Prod.fst := fun k hk => mem_keys_ofList.mp hk
  have hperm : (ofList l).keys.Perm (l.map Prod.fst) :=
    ((ofList l).nodup.subperm hsub).perm_of_length_le (by simp [h])
  exact hperm.nodup_iff.mp (ofList l).nodup

/-- **The last item of a key wins**: it is the one no later item has the key of. -/
theorem get?_ofList_eq_some_iff {l : List (κ × ν)} {k : κ} {v : ν} :
    (ofList l).get? k = some v ↔
      ∃ pre post, l = pre ++ (k, v) :: post ∧ k ∉ post.map Prod.fst := by
  have hne : ∀ l' : List (κ × ν), (∀ p ∈ l', (k != p.1) = true) ↔ k ∉ l'.map Prod.fst := by
    intro l'
    rw [List.mem_map, not_exists]
    exact forall_congr' fun p => by rw [bne_iff_ne, not_and, ne_comm]
  rw [get?_ofList, List.lookup_eq_some_iff]
  refine ⟨fun ⟨l₁, l₂, e, h⟩ => ⟨l₂.reverse, l₁.reverse, ?_, ?_⟩,
    fun ⟨pre, post, e, h⟩ => ⟨post.reverse, pre.reverse, ?_, ?_⟩⟩
  · rw [← List.reverse_reverse l, e]
    simp
  · rw [List.map_reverse, List.mem_reverse]
    exact (hne l₁).mp h
  · rw [e]
    simp
  · rw [hne, List.map_reverse, List.mem_reverse]
    exact h

/-! ## 3. The keys in order -/

section Sorted

variable [LinearOrder κ]

omit [DecidableEq κ]

/-- `sorted(d.keys())`. -/
def sortedKeys (d : Dict κ ν) : List κ := d.keys.insertionSort (· ≤ ·)

@[simp] theorem mem_sortedKeys {d : Dict κ ν} {k : κ} : k ∈ d.sortedKeys ↔ k ∈ d.keys :=
  List.mem_insertionSort _

theorem pairwise_lt_sortedKeys (d : Dict κ ν) : d.sortedKeys.Pairwise (· < ·) := by
  have hle : d.sortedKeys.Pairwise (· ≤ ·) := List.pairwise_insertionSort _ _
  have hnd : d.sortedKeys.Nodup := (List.perm_insertionSort _ _).nodup_iff.mpr d.nodup
  exact hle.imp₂ (fun _ _ h1 h2 => lt_of_le_of_ne h1 h2) hnd

/-- Keys in order are left in order. -/
theorem sortedKeys_of_pairwise {d : Dict κ ν} (h : d.keys.Pairwise (· ≤ ·)) :
    d.sortedKeys = d.keys := h.insertionSort_eq

/-- **The sorted keys depend on the set of keys only.** -/
theorem sortedKeys_congr {d : Dict κ ν} {e : Dict κ μ} (h : ∀ k, k ∈ d.keys ↔ k ∈ e.keys) :
    d.sortedKeys = e.sortedKeys := by
  refine List.Pairwise.eq_of_mem_iff (pairwise_lt_sortedKeys d) (pairwise_lt_sortedKeys e)
    fun k => ?_
  rw [mem_sortedKeys, mem_sortedKeys, h k]

/-- The sorted keys that are left when some keys are gone. -/
theorem sortedKeys_eq_filter {d : Dict κ ν} {e : Dict κ μ} {p : κ → Bool}
    (h : ∀ k, k ∈ e.keys ↔ k ∈ d.keys ∧ p k = true) : e.sortedKeys = d.sortedKeys.filter p := by
  refine List.Pairwise.eq_of_mem_iff (pairwise_lt_sortedKeys e)
    ((pairwise_lt_sortedKeys d).filter p) fun k => ?_
  rw [List.mem_filter, mem_sortedKeys, mem_sortedKeys, h k]

end Sorted

end Dict
