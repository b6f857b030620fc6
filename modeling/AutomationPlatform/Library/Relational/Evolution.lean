import AutomationPlatform.Library.Relational.Ddl
import Mathlib.Data.List.Induction

/-!
# What holds of a store across scripts and statements

* `Store.Sound` -- one table per name, references go to tables created earlier, rows are kept for
  existing tables only and meet the constraints the catalog states;
* **`Sound.ddl`**, `Sound.script`, `Sound.statement` -- everything keeps it, whatever the script;
* `script_drops` -- dropping tables in reverse order of creation is never refused;
* `script_congr` -- a script asks about the rows only where it creates a unique index.
-/

namespace Relational

variable {T C Ty V I : Type} [DecidableEq T]

/-! ## 1. Constraints after the schema changed -/

section Carried

variable [DecidableEq V] {S S' : Schema T C Ty} {db db' : Db T C V}

/-- The table was there with the same rows, and nothing new is asked of them but keys they have. -/
structure Carries (S S' : Schema T C Ty) (db db' : Db T C V) (t : T) : Prop where
  mem : t ∈ S.tables
  rows : db' t = db t
  columns : (S'.table t).columns = (S.table t).columns
  keys : ∀ cols ∈ (S'.table t).keys, cols ∈ (S.table t).keys ∨ KeyOk cols (db t)
  refs : ∀ fk ∈ (S'.table t).foreignKeys,
    fk ∈ (S.table t).foreignKeys ∧ db' fk.target = db fk.target

omit [DecidableEq T] in
/-- **A state meets the constraints of a new schema** whose tables are empty or carried over. -/
theorem Consistent.carried [ColumnType Ty V] (h : Consistent S db)
    (hc : ∀ t ∈ S'.tables, db' t = [] ∨ Carries S S' db db' t) : Consistent S' db' where
  rows t ht r hr := by
    rcases hc t ht with he | hk
    · rw [he] at hr
      exact absurd hr List.not_mem_nil
    · rw [hk.rows] at hr
      have := h.rows t hk.mem r hr
      unfold Table.admitsRow at this ⊢
      rw [hk.columns]
      exact this
  keys t ht cols hcols := by
    rcases hc t ht with he | hk
    · rw [he]
      exact List.Pairwise.nil
    · rw [hk.rows]
      exact (hk.keys cols hcols).elim (h.keys t hk.mem cols) id
  refs t ht fk hfk r hr := by
    rcases hc t ht with he | hk
    · rw [he] at hr
      exact absurd hr List.not_mem_nil
    · rw [hk.rows] at hr
      obtain ⟨hfk', htgt⟩ := hk.refs fk hfk
      have := h.refs t hk.mem fk hfk' r hr
      unfold refersWithin at this ⊢
      rw [htgt]
      exact this

end Carried

/-! ## 2. Looking tables up -/

namespace Catalog

variable {c : Catalog T C Ty I} {t : T} {d : Table T C Ty}

theorem mem_names_iff : t ∈ c.names ↔ ∃ d, c.tables.lookup t = some d := by
  rw [← Option.isSome_iff_exists, List.lookup_isSome_iff]
  simp [names]

theorem notMem_names_iff : t ∉ c.names ↔ c.tables.lookup t = none := by
  rw [mem_names_iff, ← Option.isSome_iff_exists, Option.not_isSome_iff_eq_none]

theorem schema_table (h : c.tables.lookup t = some d) : c.schema.table t = c.keyed t d := by
  show (c.tables.lookup t).elim _ _ = _
  rw [h]
  rfl

theorem mem_of_lookup (h : c.tables.lookup t = some d) : (t, d) ∈ c.tables := by
  obtain ⟨l, l', hl, -⟩ := List.lookup_eq_some_iff.mp h
  exact hl ▸ List.mem_append_right _ List.mem_cons_self

theorem lookup_guard (c : Catalog T C Ty I) (t t' : T) (b : Bool) :
    (c.guard t b).tables.lookup t' =
      (c.tables.lookup t').map fun d => if t' = t then { d with frozen := b } else d := by
  unfold guard
  generalize c.tables = ts
  induction ts with
  | nil => rfl
  | cons e ts ih =>
      obtain ⟨t0, d⟩ := e
      rw [List.map_cons]
      by_cases h0 : t' = t0
      · subst h0
        by_cases ht : t' = t
        · simp [ht]
        · simp [ht]
      · have hne : (t' == t0) = false := beq_eq_false_iff_ne.mpr h0
        by_cases ht : t0 = t
        · simpa [ht, List.lookup_cons, hne, ht ▸ hne] using ih
        · simpa [ht, List.lookup_cons, hne] using ih

theorem names_guard (c : Catalog T C Ty I) (t : T) (b : Bool) : (c.guard t b).names = c.names := by
  unfold guard names
  rw [List.map_map]
  refine List.map_congr_left fun e _ => ?_
  show (if e.1 = t then (e.1, { e.2 with frozen := b }) else e).1 = e.1
  split <;> rfl

theorem names_without (c : Catalog T C Ty I) (ts : List T) :
    (c.without ts).names = c.names.filter fun t => decide (t ∉ ts) := by
  unfold without names
  rw [List.filter_map]
  rfl

theorem lookup_without (c : Catalog T C Ty I) (ts : List T) (h : t ∉ ts) :
    (c.without ts).tables.lookup t = c.tables.lookup t := by
  unfold without
  generalize c.tables = es
  induction es with
  | nil => rfl
  | cons e es ih =>
      obtain ⟨t0, d⟩ := e
      by_cases h0 : t0 ∈ ts
      · have hne : (t == t0) = false := beq_eq_false_iff_ne.mpr fun e => h (e ▸ h0)
        rw [List.filter_cons_of_neg (by simpa using h0), List.lookup_cons, hne]
        exact ih
      · rw [List.filter_cons_of_pos (by simpa using h0), List.lookup_cons, List.lookup_cons, ih]

theorem without_without (c : Catalog T C Ty I) (ts ts' : List T) :
    (c.without ts).without ts' = c.without (ts ++ ts') := by
  unfold without
  rw [List.filter_filter, List.filter_filter]
  simp only [List.mem_append, not_or, Bool.decide_and, Bool.and_comm]

end Catalog

/-! ## 3. Sound stores -/

section Sound

variable [DecidableEq V] [ColumnType Ty V]

/-- **The invariant of a store.** -/
structure Store.Sound (s : Store T C Ty V I) : Prop where
  nodup : s.catalog.names.Nodup
  closed : ∀ e ∈ s.catalog.tables, ∀ fk ∈ e.2.foreignKeys, fk.target ∈ s.catalog.names
  ordered : s.catalog.tables.Pairwise fun e e' => ∀ fk ∈ e.2.foreignKeys, fk.target ≠ e'.1
  irreflexive : ∀ e ∈ s.catalog.tables, ∀ fk ∈ e.2.foreignKeys, fk.target ≠ e.1
  indexed : ∀ i ∈ s.catalog.indexes, i.table ∈ s.catalog.names
  outside : ∀ t, t ∉ s.catalog.names → s.rows t = []
  consistent : Consistent s.catalog.schema s.rows

theorem Store.sound_empty : (⟨Catalog.empty, fun _ => []⟩ : Store T C Ty V I).Sound where
  nodup := List.nodup_nil
  closed _ h := absurd h List.not_mem_nil
  ordered := List.Pairwise.nil
  irreflexive _ h := absurd h List.not_mem_nil
  indexed _ h := absurd h List.not_mem_nil
  outside _ _ := rfl
  consistent := consistent_empty _

omit [ColumnType Ty V] in
/-- A table whose definition keeps its columns and references is carried over. -/
theorem Catalog.carries {c c' : Catalog T C Ty I} {db db' : Db T C V} {t : T}
    {d d' : Table T C Ty} (h : c.tables.lookup t = some d) (h' : c'.tables.lookup t = some d')
    (hcols : d'.columns = d.columns) (hfks : d'.foreignKeys = d.foreignKeys)
    (hkeys : ∀ cols ∈ (c'.keyed t d').keys, cols ∈ (c.keyed t d).keys ∨ KeyOk cols (db t))
    (hrows : db' t = db t) (hrefs : ∀ fk ∈ d.foreignKeys, db' fk.target = db fk.target) :
    Carries c.schema c'.schema db db' t where
  mem := mem_names_iff.mpr ⟨d, h⟩
  rows := hrows
  columns := by
    rw [schema_table h, schema_table h']
    exact hcols
  keys := by
    rw [schema_table h, schema_table h']
    exact hkeys
  refs := by
    rw [schema_table h, schema_table h']
    exact fun fk hfk => ⟨hfks ▸ hfk, hrefs fk (hfks ▸ hfk)⟩

namespace Store.Sound

variable {s : Store T C Ty V I} (hs : s.Sound)

omit [ColumnType Ty V] [DecidableEq V] in
theorem target_of_provides [DecidableEq C] {c : Catalog T C Ty I} {fk : ForeignKey T C}
    (h : c.provides fk = true) : fk.target ∈ c.names := by
  obtain ⟨d, hd, -⟩ := (Option.any_eq_true _ _).mp h
  exact Catalog.mem_names_iff.mpr ⟨d, hd⟩

include hs in
/-- A new table refers to existing ones and has no rows yet. -/
theorem createTable {t : T} {d : Table T C Ty} (ht : t ∉ s.catalog.names)
    (hfk : ∀ fk ∈ d.foreignKeys, fk.target ∈ s.catalog.names) :
    Store.Sound ⟨{ s.catalog with tables := s.catalog.tables ++ [(t, d)] }, s.rows⟩ where
  nodup := by
    show ((s.catalog.tables ++ [(t, d)]).map Prod.fst).Nodup
    rw [List.map_append]
    refine List.nodup_append.mpr ⟨hs.nodup, List.pairwise_singleton _ _, fun a ha b hb e => ?_⟩
    rw [e, List.mem_singleton.mp hb] at ha
    exact ht ha
  closed e he fk hfk' := by
    refine List.mem_map.mpr ?_
    rcases List.mem_append.mp he with he | he
    · obtain ⟨e', he', h⟩ := List.mem_map.mp (hs.closed e he fk hfk')
      exact ⟨e', List.mem_append_left _ he', h⟩
    · rw [List.mem_singleton.mp he] at hfk'
      obtain ⟨e', he', h⟩ := List.mem_map.mp (hfk fk hfk')
      exact ⟨e', List.mem_append_left _ he', h⟩
  ordered := by
    refine List.pairwise_append.mpr ⟨hs.ordered, List.pairwise_singleton _ _, ?_⟩
    rintro e he e' he' fk hfk' h
    have htgt := hs.closed e he fk hfk'
    rw [h, List.mem_singleton.mp he'] at htgt
    exact ht htgt
  irreflexive e he fk hfk' h := by
    rcases List.mem_append.mp he with he | he
    · exact hs.irreflexive e he fk hfk' h
    · rw [List.mem_singleton.mp he] at h hfk'
      have htgt := hfk fk hfk'
      rw [h] at htgt
      exact ht htgt
  indexed i hi := by
    obtain ⟨e', he', h⟩ := List.mem_map.mp (hs.indexed i hi)
    exact List.mem_map.mpr ⟨e', List.mem_append_left _ he', h⟩
  outside t' ht' := by
    refine hs.outside t' fun h => ht' ?_
    obtain ⟨e', he', h⟩ := List.mem_map.mp h
    exact List.mem_map.mpr ⟨e', List.mem_append_left _ he', h⟩
  consistent := by
    refine hs.consistent.carried fun t' _ => ?_
    by_cases ht' : t' ∈ s.catalog.names
    · obtain ⟨d', hd'⟩ := Catalog.mem_names_iff.mp ht'
      have hsame : (s.catalog.tables ++ [(t, d)]).lookup t' = some d' := by
        rw [List.lookup_append, hd']
        rfl
      exact Or.inr (Catalog.carries hd' hsame rfl rfl (fun _ h => Or.inl h) rfl fun _ _ => rfl)
    · exact Or.inl (hs.outside t' ht')

include hs in
/-- A unique index is created when the rows have its key already. -/
theorem createIndex {i : Index T C I} (ht : i.table ∈ s.catalog.names)
    (hu : i.unique = true → KeyOk i.columns (s.rows i.table)) :
    Store.Sound ⟨{ s.catalog with indexes := s.catalog.indexes ++ [i] }, s.rows⟩ where
  nodup := hs.nodup
  closed := hs.closed
  ordered := hs.ordered
  irreflexive := hs.irreflexive
  indexed j hj := by
    rcases List.mem_append.mp hj with hj | hj
    · exact hs.indexed j hj
    · rw [List.mem_singleton.mp hj]
      exact ht
  outside := hs.outside
  consistent := by
    refine hs.consistent.carried fun t ht => Or.inr ?_
    obtain ⟨d, hd⟩ := Catalog.mem_names_iff.mp ht
    refine Catalog.carries hd hd rfl rfl (fun cols hcols => ?_) rfl fun _ _ => rfl
    rcases List.mem_append.mp hcols with h | h
    · exact Or.inl (List.mem_append_left _ h)
    · obtain ⟨j, hj, rfl⟩ := List.mem_map.mp h
      obtain ⟨hmem, huniq⟩ := List.mem_filter.mp hj
      rcases List.mem_append.mp hmem with hold | hnew
      · exact Or.inl (List.mem_append_right _
          (List.mem_map.mpr ⟨j, List.mem_filter.mpr ⟨hold, huniq⟩, rfl⟩))
      · obtain rfl := List.mem_singleton.mp hnew
        rw [Bool.and_eq_true, decide_eq_true_eq] at huniq
        obtain ⟨hun, rfl⟩ := huniq
        exact Or.inr (hu hun)

include hs in
/-- A trigger asks nothing of the rows. -/
theorem guard (t : T) (b : Bool) : Store.Sound ⟨s.catalog.guard t b, s.rows⟩ := by
  have hmem : ∀ e ∈ (s.catalog.guard t b).tables, ∃ e0 ∈ s.catalog.tables,
      e0.1 = e.1 ∧ e0.2.foreignKeys = e.2.foreignKeys := by
    intro e he
    obtain ⟨e0, he0, rfl⟩ := List.mem_map.mp he
    refine ⟨e0, he0, ?_⟩
    split <;> exact ⟨rfl, rfl⟩
  refine ⟨?_, ?_, ?_, ?_, ?_, ?_, ?_⟩
  · exact (s.catalog.names_guard t b).symm ▸ hs.nodup
  · intro e he fk hfk
    obtain ⟨e0, he0, -, h⟩ := hmem e he
    exact (s.catalog.names_guard t b).symm ▸ hs.closed e0 he0 fk (h ▸ hfk)
  · refine List.pairwise_map.mpr (hs.ordered.imp ?_)
    intro e e' h fk hfk
    have hfst : ∀ e : T × Table T C Ty,
        (if e.1 = t then (e.1, { e.2 with frozen := b }) else e).1 = e.1 := by
      intro e
      split <;> rfl
    rw [hfst]
    refine h fk ?_
    split at hfk <;> exact hfk
  · intro e he fk hfk
    obtain ⟨e0, he0, hn, h⟩ := hmem e he
    exact hn ▸ hs.irreflexive e0 he0 fk (h ▸ hfk)
  · exact fun i hi => (s.catalog.names_guard t b).symm ▸ hs.indexed i hi
  · exact fun t' ht' => hs.outside t' (s.catalog.names_guard t b ▸ ht')
  · refine hs.consistent.carried fun t' ht' => Or.inr ?_
    have ht' : t' ∈ s.catalog.names := s.catalog.names_guard t b ▸ ht'
    obtain ⟨d, hd⟩ := Catalog.mem_names_iff.mp ht'
    have hd' := s.catalog.lookup_guard t t' b
    rw [hd, Option.map_some] at hd'
    refine Catalog.carries hd hd' ?_ ?_ (fun cols hcols => Or.inl ?_) rfl fun _ _ => rfl
    · split <;> rfl
    · split <;> rfl
    · unfold Catalog.keyed at hcols ⊢
      split at hcols <;> exact hcols

include hs in
/-- A table nothing refers to can go. -/
theorem without {t : T} (hfree : s.catalog.neededBy t = false) :
    Store.Sound ⟨s.catalog.without [t], Function.update s.rows t []⟩ := by
  have hne : ∀ t', t' ∈ (s.catalog.without [t]).names ↔ t' ∈ s.catalog.names ∧ t' ≠ t := by
    intro t'
    rw [Catalog.names_without, List.mem_filter]
    simp
  have hmem : ∀ e, e ∈ (s.catalog.without [t]).tables ↔ e ∈ s.catalog.tables ∧ e.1 ≠ t := by
    intro e
    unfold Catalog.without
    rw [List.mem_filter]
    simp
  have hother : ∀ e ∈ s.catalog.tables, e.1 ≠ t → ∀ fk ∈ e.2.foreignKeys, fk.target ≠ t := by
    intro e he het fk hfk htgt
    have hany : (e.2.foreignKeys.any fun fk => decide (fk.target = t)) = true :=
      List.any_eq_true.mpr ⟨fk, hfk, decide_eq_true htgt⟩
    refine List.any_eq_false.mp hfree e he ?_
    rw [hany, Bool.and_true]
    exact decide_eq_true het
  refine ⟨?_, ?_, ?_, ?_, ?_, ?_, ?_⟩
  · rw [Catalog.names_without]
    exact hs.nodup.filter _
  · intro e he fk hfk
    obtain ⟨he, het⟩ := (hmem e).mp he
    exact (hne _).mpr ⟨hs.closed e he fk hfk, hother e he het fk hfk⟩
  · exact hs.ordered.filter _
  · exact fun e he => hs.irreflexive e ((hmem e).mp he).1
  · intro i hi
    obtain ⟨hi, hit⟩ := List.mem_filter.mp hi
    exact (hne _).mpr ⟨hs.indexed i hi, by simpa using hit⟩
  · intro t' ht'
    show Function.update s.rows t [] t' = []
    by_cases h : t' = t
    · rw [h, Function.update_self]
    · rw [Function.update_of_ne h]
      exact hs.outside t' fun hmem => ht' ((hne t').mpr ⟨hmem, h⟩)
  · refine hs.consistent.carried fun t' ht' => Or.inr ?_
    obtain ⟨ht', htt⟩ := (hne t').mp ht'
    obtain ⟨d, hd⟩ := Catalog.mem_names_iff.mp ht'
    have hd' : (s.catalog.without [t]).tables.lookup t' = some d := by
      rw [Catalog.lookup_without _ _ (by simpa using htt), hd]
    refine Catalog.carries hd hd' rfl rfl (fun cols hcols => Or.inl ?_)
      (Function.update_of_ne htt _ _) fun fk hfk => Function.update_of_ne
        (hother _ (Catalog.mem_of_lookup hd) htt fk hfk) _ _
    rcases List.mem_append.mp hcols with h | h
    · exact List.mem_append_left _ h
    · obtain ⟨j, hj, rfl⟩ := List.mem_map.mp h
      obtain ⟨hj, huniq⟩ := List.mem_filter.mp hj
      exact List.mem_append_right _ (List.mem_map.mpr
        ⟨j, List.mem_filter.mpr ⟨(List.mem_filter.mp hj).1, huniq⟩, rfl⟩)

end Store.Sound

/-! ## 4. Statements, scripts, runs -/

section Steps

variable [DecidableEq C] [DecidableEq I] {s s' : Store T C Ty V I}

/-- **Every accepted DDL statement keeps the invariant.** -/
theorem Store.Sound.ddl (hs : s.Sound) {st : Ddl T C Ty I} (h : s.ddl st = some s') :
    s'.Sound := by
  obtain ⟨c, hc, rfl⟩ := Option.map_eq_some_iff.mp h
  cases st with
  | createTable ifNotExists t d =>
      rw [Ddl.alter] at hc
      split at hc
      · split at hc
        · cases hc
          exact hs
        · cases hc
      · rename_i ht
        split at hc
        · rename_i hfk
          cases hc
          exact hs.createTable (Catalog.notMem_names_iff.mpr ht) fun fk h =>
            target_of_provides (List.all_eq_true.mp hfk fk h)
        · cases hc
  | createIndex ifNotExists i =>
      rw [Ddl.alter] at hc
      split at hc
      · cases hc
      · rename_i d hd
        split at hc
        · split at hc
          · split at hc
            · cases hc
              exact hs
            · cases hc
          · split at hc
            · cases hc
            · rename_i hu
              cases hc
              refine hs.createIndex (Catalog.mem_names_iff.mpr ⟨d, hd⟩) fun huniq => ?_
              by_contra hk
              refine hu ?_
              rw [huniq, Bool.true_and, Bool.not_eq_true']
              exact decide_eq_false hk
        · cases hc
  | createTrigger t =>
      rw [Ddl.alter] at hc
      split at hc
      · cases hc
      · split at hc
        · cases hc
        · cases hc
          exact hs.guard t true
  | dropTrigger t =>
      cases hc
      exact hs.guard t false
  | dropTable t =>
      rw [Ddl.alter] at hc
      split at hc
      · rename_i hfree
        cases hc
        exact hs.without hfree.2
      · cases hc

theorem Store.Sound.script (hs : s.Sound) {sts : List (Ddl T C Ty I)}
    (h : s.script sts = some s') : s'.Sound := by
  induction sts generalizing s with
  | nil =>
      cases h
      exact hs
  | cons st sts ih =>
      obtain ⟨s1, h1, h2⟩ := Option.bind_eq_some_iff.mp h
      exact ih (hs.ddl h1) h2

theorem Store.Sound.transaction (hs : s.Sound) (sts : List (Ddl T C Ty I)) :
    (s.transaction sts).Sound := by
  unfold Store.transaction
  cases h : s.script sts with
  | none => exact hs
  | some s' => exact hs.script h

omit [DecidableEq I] in
/-- No statement stores a row outside the schema. -/
theorem step_outside {S : Schema T C Ty} {db : Db T C V} (h : ∀ t, t ∉ S.tables → db t = [])
    (st : Stmt T C V) {t : T} (ht : t ∉ S.tables) : step S db st t = [] := by
  have hne : ∀ t', t' ∈ S.tables → t ≠ t' := fun t' ht' e => ht (e ▸ ht')
  unfold step
  cases hst : exec S db st with
  | none => exact h t ht
  | some db' =>
      show db' t = []
      cases st with
      | insert t' r =>
          rw [exec] at hst
          split at hst
          · rename_i ht'
            rw [(commit_eq_some hst).1, Function.update_of_ne (hne t' ht')]
            exact h t ht
          · cases hst
      | update t' cond set =>
          rw [exec] at hst
          split at hst
          · rename_i ht'
            rw [(commit_eq_some hst).1, Function.update_of_ne (hne t' ht'.1)]
            exact h t ht
          · cases hst
      | delete t' cond =>
          rw [exec] at hst
          split at hst
          · rw [(commit_eq_some hst).1]
            unfold afterDelete
            rw [h t ht]
            rfl
          · cases hst

omit [DecidableEq I] in
theorem Store.Sound.statement (hs : s.Sound) (st : Stmt T C V) : (s.statement st).Sound where
  nodup := hs.nodup
  closed := hs.closed
  ordered := hs.ordered
  irreflexive := hs.irreflexive
  indexed := hs.indexed
  outside _ ht := step_outside hs.outside st ht
  consistent := step_consistent s.rows st hs.consistent

/-! ## 5. Dropping what was created last -/

omit [DecidableEq C] [DecidableEq I] in
/-- No table before the newest one refers to it. -/
theorem Store.Sound.neededBy_last (hs : s.Sound) {older : List T} {t : T}
    (h : s.catalog.names = older ++ [t]) : s.catalog.neededBy t = false := by
  have hne : s.catalog.tables ≠ [] := by
    intro hnil
    rw [Catalog.names, hnil] at h
    exact List.cons_ne_nil _ _ (List.append_eq_nil_iff.mp h.symm).2
  obtain ⟨l, e', hl⟩ : ∃ l e', s.catalog.tables = l ++ [e'] :=
    ⟨_, _, (List.dropLast_append_getLast hne).symm⟩
  have hlast : e'.1 = t := by
    rw [Catalog.names, hl, List.map_append] at h
    exact (List.cons.inj (List.append_inj' h rfl).2).1
  refine List.any_eq_false.mpr fun e he hneed => ?_
  rw [Bool.and_eq_true, decide_eq_true_eq] at hneed
  obtain ⟨fk, hfk, htgt⟩ := List.any_eq_true.mp hneed.2
  rw [hl] at he
  rcases List.mem_append.mp he with he | he
  · have hp := hs.ordered
    rw [hl] at hp
    exact (List.pairwise_append.mp hp).2.2 e he e' List.mem_cons_self fk hfk
      ((of_decide_eq_true htgt).trans hlast.symm)
  · rw [List.mem_singleton.mp he] at hneed
    exact hneed.1 hlast

/-- The newest table can be dropped. -/
theorem Store.Sound.ddl_dropLast (hs : s.Sound) {older : List T} {t : T}
    (h : s.catalog.names = older ++ [t]) : s.ddl (.dropTable t) =
      some ⟨s.catalog.without [t], Function.update s.rows t []⟩ := by
  have hmem : t ∈ s.catalog.names := h ▸ List.mem_append_right _ List.mem_cons_self
  unfold Store.ddl
  rw [Ddl.alter, if_pos ⟨hmem, hs.neededBy_last h⟩]
  rfl

omit [DecidableEq C] [DecidableEq I] in
theorem Store.Sound.names_dropLast (hs : s.Sound) {older : List T} {t : T}
    (h : s.catalog.names = older ++ [t]) : (s.catalog.without [t]).names = older := by
  have hn := hs.nodup
  rw [h] at hn
  have hother : ∀ t' ∈ older, decide (t' ∉ [t]) = true := fun t' ht' =>
    decide_eq_true fun hm =>
      (List.nodup_append.mp hn).2.2 t' ht' t List.mem_cons_self (List.mem_singleton.mp hm)
  rw [Catalog.names_without, h, List.filter_append, List.filter_eq_self.mpr hother]
  simp

/-- **Tables are dropped in reverse order of creation without an error.** -/
theorem Store.Sound.script_drops (hs : s.Sound) {base news : List T}
    (h : s.catalog.names = base ++ news) :
    s.script (news.reverse.map .dropTable) =
      some ⟨s.catalog.without news, fun t => if t ∈ news then [] else s.rows t⟩ := by
  induction news using List.reverseRecOn generalizing s with
  | nil =>
      have hid : s.catalog.without [] = s.catalog := by
        unfold Catalog.without
        simp
      simp [Store.script, hid]
  | append_singleton news t ih =>
      rw [← List.append_assoc] at h
      have hdrop := hs.ddl_dropLast h
      rw [List.reverse_append, List.map_append]
      show Option.bind (s.ddl (.dropTable t)) _ = _
      rw [hdrop, Option.bind_some]
      refine (ih (hs.ddl hdrop) (hs.names_dropLast h)).trans ?_
      congr 2
      · rw [Catalog.without_without]
        unfold Catalog.without
        simp only [List.mem_append, List.mem_singleton, or_comm]
      · funext t'
        show (if t' ∈ news then [] else Function.update s.rows t [] t') = _
        by_cases hn : t' ∈ news
        · simp [hn]
        · by_cases h' : t' = t
          · simp [h']
          · simp [hn, h']

end Steps

end Sound

/-! ## 6. What a script asks of the rows -/

section Congr

variable [DecidableEq C] [DecidableEq I] {u v : T → List C → Bool}

/-- The unique index a statement may create. -/
def Ddl.uniqueIndex : Ddl T C Ty I → Option (T × List C)
  | .createIndex _ i => if i.unique then some (i.table, i.columns) else none
  | _ => none

theorem Ddl.alter_congr {st : Ddl T C Ty I} (h : ∀ p ∈ st.uniqueIndex, u p.1 p.2 = v p.1 p.2)
    (c : Catalog T C Ty I) : st.alter u c = st.alter v c := by
  cases st with
  | createIndex b i =>
      cases hu : i.unique with
      | true =>
          have := h (i.table, i.columns) (by simp [Ddl.uniqueIndex, hu])
          simp only [Ddl.alter, this]
      | false => simp only [Ddl.alter, hu, Bool.false_and]
  | _ => rfl

/-- **A script that meets the same answers does the same.** -/
theorem script_congr {sts : List (Ddl T C Ty I)}
    (h : ∀ st ∈ sts, ∀ p ∈ st.uniqueIndex, u p.1 p.2 = v p.1 p.2) (c : Catalog T C Ty I) :
    sts.foldlM (Ddl.alter u) c = sts.foldlM (Ddl.alter v) c := by
  induction sts generalizing c with
  | nil => rfl
  | cons st sts ih =>
      rw [List.foldlM_cons, List.foldlM_cons, Ddl.alter_congr (h st List.mem_cons_self)]
      have hrest := ih fun st' hst' => h st' (List.mem_cons_of_mem _ hst')
      exact congrArg _ (funext hrest)

variable [DecidableEq V]

/-- **A script that drops nothing keeps every row**, and what it does to the catalog depends on the
    rows it finds. -/
theorem Store.script_eq {sts : List (Ddl T C Ty I)} (hkeep : ∀ st ∈ sts, ∀ t, st ≠ .dropTable t)
    (s : Store T C Ty V I) :
    s.script sts = (sts.foldlM (Ddl.alter (differ s.rows)) s.catalog).map fun c => ⟨c, s.rows⟩ := by
  induction sts generalizing s with
  | nil => rfl
  | cons st sts ih =>
      have hrows : st.keep s.rows = s.rows := by
        cases st with
        | dropTable t => exact absurd rfl (hkeep _ List.mem_cons_self t)
        | _ => rfl
      show Option.bind (s.ddl st) _ = _
      unfold Store.ddl
      rw [List.foldlM_cons, hrows]
      cases hst : st.alter (differ s.rows) s.catalog with
      | none => rfl
      | some c => exact ih (fun st' hst' => hkeep st' (List.mem_cons_of_mem _ hst')) ⟨c, s.rows⟩

end Congr

/-! ## 7. Schemas that say the same -/

/-- The two schemas have the same tables and constraints, in some order. -/
structure Schema.Same (S S' : Schema T C Ty) : Prop where
  tables : S.tables.Perm S'.tables
  columns : ∀ t, (S.table t).columns = (S'.table t).columns
  foreignKeys : ∀ t, (S.table t).foreignKeys = (S'.table t).foreignKeys
  frozen : ∀ t, (S.table t).frozen = (S'.table t).frozen
  keys : ∀ t cols, cols ∈ (S.table t).keys ↔ cols ∈ (S'.table t).keys

namespace Schema.Same

variable [DecidableEq V] {S S' : Schema T C Ty} (h : S.Same S')
variable {db : Db T C V} {t0 : T} {cond : Row C V → Bool}

omit [DecidableEq T] in
include h in
theorem consistent_iff [ColumnType Ty V] (db : Db T C V) : Consistent S db ↔ Consistent S' db := by
  have hrow : ∀ t, ∀ r : Row C V, (S.table t).admitsRow r = (S'.table t).admitsRow r := by
    intro t r
    unfold Table.admitsRow
    rw [h.columns]
  refine ⟨fun hc => ⟨?_, ?_, ?_⟩, fun hc => ⟨?_, ?_, ?_⟩⟩
  · exact fun t ht r hr => hrow t r ▸ hc.rows t (h.tables.mem_iff.mpr ht) r hr
  · exact fun t ht cols hk => hc.keys t (h.tables.mem_iff.mpr ht) cols ((h.keys t cols).mpr hk)
  · exact fun t ht fk hfk => hc.refs t (h.tables.mem_iff.mpr ht) fk (h.foreignKeys t ▸ hfk)
  · exact fun t ht r hr => (hrow t r).symm ▸ hc.rows t (h.tables.mem_iff.mp ht) r hr
  · exact fun t ht cols hk => hc.keys t (h.tables.mem_iff.mp ht) cols ((h.keys t cols).mp hk)
  · exact fun t ht fk hfk => hc.refs t (h.tables.mem_iff.mp ht) fk ((h.foreignKeys t).symm ▸ hfk)

include h in
theorem removed_eq : removed S db t0 cond = removed S' db t0 cond := by
  have hd : ∀ n, doomed S db t0 cond n = doomed S' db t0 cond n := by
    intro n
    induction n with
    | zero => rfl
    | succ n ih =>
        funext t r
        rw [doomed, doomed, ih, h.foreignKeys]
  unfold removed
  rw [h.tables.length_eq]
  exact hd _

include h in
theorem orphaned_eq : orphaned S db t0 cond = orphaned S' db t0 cond := by
  unfold orphaned
  rw [h.removed_eq]

include h in
theorem touched_eq : touched S db t0 cond = touched S' db t0 cond := by
  funext t r
  unfold touched isSevered
  rw [h.removed_eq, h.orphaned_eq, h.foreignKeys]

include h in
theorem afterDelete_eq [DecidableEq C] : afterDelete S db t0 cond = afterDelete S' db t0 cond := by
  funext t
  unfold afterDelete severed
  rw [h.removed_eq, h.orphaned_eq, h.foreignKeys]

include h in
/-- **Every statement has the same outcome.** -/
theorem exec_eq [DecidableEq C] [ColumnType Ty V] (db : Db T C V) (st : Stmt T C V) :
    exec S db st = exec S' db st := by
  have hcommit : ∀ db : Db T C V, commit S db = commit S' db := by
    intro db
    unfold commit
    rw [if_congr (h.consistent_iff db) rfl rfl]
  cases st with
  | insert t r =>
      rw [exec, exec, hcommit, if_congr h.tables.mem_iff rfl rfl]
  | update t cond set =>
      rw [exec, exec, hcommit, h.frozen, if_congr (and_congr h.tables.mem_iff Iff.rfl) rfl rfl]
  | delete t cond =>
      have hblocked : blocked S db t cond = blocked S' db t cond := by
        unfold blocked
        rw [h.orphaned_eq]
        simp only [h.foreignKeys]
        exact h.tables.any_eq
      have hfires : fires S db t cond = fires S' db t cond := by
        unfold fires
        rw [h.touched_eq]
        simp only [h.frozen]
        exact h.tables.any_eq
      rw [exec, exec, hcommit, hblocked, hfires, h.afterDelete_eq,
        if_congr (and_congr h.tables.mem_iff Iff.rfl) rfl rfl]

end Schema.Same

end Relational
