import AutomationPlatform.Scripts.SeedDev

/-!
# A run of the seed script

What a run is heading for is the state `db` a flush leads to: the rows it sees and the rows it has
staged (`SeedRun`). A check that finds nothing among the rows it sees stages a row; no staged row
has the key of that one, so it is absent from `db` as well (`SeedRun.absent`). Only an id that is
not new can make the tables refuse a row; the run is then `Doomed` and stops at the next flush.

* `keysHold_of_consistent`, `KeysHold.insertAll`: where the keys hold, and that rows the tables
  accept keep them;
* `SeedRun.added`, `SeedRun.flushed`: staging an accepted row, flushing;
* **`findOrFlush_spec`**: finding a row or flushing a new one, in the two loops that do so.
-/

namespace AutomationPlatform

open Python Relational Raising

variable {F : Type}

/-! ## 1. The keys of the four tables -/

def seedTables : List TableName := [.permissions, .roles, .rolePermissions, .users]

theorem seedTables_subset : seedTables ⊆ ormSchema.tables := by decide

section

variable [DecidableEq F]

/-- Uniqueness and primary keys. The first key of a table is its primary key. -/
structure KeysHold (db : PgDb F) : Prop where
  primary : ∀ t ∈ seedTables, ∀ r ∈ db t, ∀ c ∈ (ormSchema.table t).keys.headD [],
    ∃ u, r c = some (.uuid u)
  unique : ∀ t ∈ seedTables, ∀ cols ∈ (ormSchema.table t).keys, KeyOk cols (db t)

/-- Primary key columns are `NOT NULL` columns of type `UUID`. -/
theorem primary_columns : ∀ t ∈ seedTables, ∀ n ∈ (ormSchema.table t).keys.headD [],
    ∃ c ∈ (ormSchema.table t).columns, c.name = n ∧ c.nullable = false ∧ c.type = .uuid := by
  decide

omit [DecidableEq F] in
theorem primary_of_admitsRow {t : TableName} (ht : t ∈ seedTables) {r : PgRow F}
    (h : (ormSchema.table t).admitsRow r = true) :
    ∀ n ∈ (ormSchema.table t).keys.headD [], ∃ u, r n = some (.uuid u) := by
  intro n hn
  obtain ⟨c, hc, rfl, hnull, htype⟩ := primary_columns t ht n hn
  obtain ⟨v, hv, hadm⟩ := Table.exists_of_admitsRow h hc hnull
  rw [htype] at hadm
  obtain ⟨u, rfl⟩ := ColType.eq_uuid_of_admits hadm
  exact ⟨u, hv⟩

/-- **Tables that meet all constraints meet these.** -/
theorem keysHold_of_consistent {db : PgDb F} (hdb : Consistent ormSchema db) : KeysHold db where
  primary t ht r hr := primary_of_admitsRow ht (hdb.rows t (seedTables_subset ht) r hr)
  unique t ht := hdb.keys t (seedTables_subset ht)

theorem KeysHold.insertAll {db db' : PgDb F} {rows : List (TableName × PgRow F)}
    (h : KeysHold db) (hins : insertAll ormSchema db rows = some db') : KeysHold db' := by
  refine insertAll_invariant (fun db1 db2 t r h hrow => ⟨fun t' ht' s hs => ?_,
    fun t' ht' cols hcols => ?_⟩) h hins
  · obtain ⟨⟨-, hacc⟩, rfl⟩ := insertRow_eq_some_iff.mp hrow
    by_cases ht : t' = t
    · subst ht
      rw [Function.update_self, List.mem_append, List.mem_singleton] at hs
      rcases hs with hs | rfl
      · exact h.primary t' ht' s hs
      · exact primary_of_admitsRow ht' (accepts_iff.mp hacc).1
    · rw [Function.update_of_ne ht] at hs
      exact h.primary t' ht' s hs
  · by_cases ht : t' = t
    · subst ht
      exact keyOk_of_insertRow hcols (h.unique t' ht' cols hcols) hrow
    · obtain ⟨-, rfl⟩ := insertRow_eq_some_iff.mp hrow
      rw [Function.update_of_ne ht]
      exact h.unique t' ht' cols hcols

/-- A column that is unique identifies the row. -/
theorem KeysHold.eq_of_column {db : PgDb F} (h : KeysHold db) {t : TableName} (ht : t ∈ seedTables)
    {n : ColumnName} (hn : [n] ∈ (ormSchema.table t).keys) {r s : PgRow F} (hr : r ∈ db t)
    (hs : s ∈ db t) {v : SqlValue F} (hrv : r n = some v) (hsv : s n = some v) : r = s := by
  refine (h.unique t ht [n] hn).eq_of_agreeOn hr hs (agreeOn_iff.mpr fun c hc => ?_)
  rw [List.mem_singleton.mp hc, hrv, hsv]
  exact ⟨rfl, rfl⟩

end

/-! ## 2. What is seeded -/

/-- The role-permission pairs of `SEED_ROLES`, by name and code. -/
def pairsOf (items : List (String × List String)) : List (String × String) :=
  items.flatMap fun item => item.2.map fun code => (item.1, code)

/-- The row is the pair of the role and the permission. -/
def IsPair (db : PgDb F) (pair : String × String) (r : PgRow F) : Prop :=
  ∃ role ∈ db .roles, ∃ perm ∈ db .permissions, role .name = some (.text pair.1) ∧
    perm .code = some (.text pair.2) ∧ r .roleId = role .id ∧ r .permissionId = perm .id

/-- How many rows a run adds at most. -/
def seedCount : Nat :=
  seedPermissions.length + seedRoles.items.length + (pairsOf seedRoles.items).length +
    seedUsers.length

/-- Every seed has a row. -/
structure Present (db : PgDb F) : Prop where
  permissions : ∀ item ∈ seedPermissions, ∃ r ∈ db .permissions, r .code = some (.text item.1)
  roles : ∀ item ∈ seedRoles.items, ∃ r ∈ db .roles, r .name = some (.text item.1)
  pairs : ∀ pair ∈ pairsOf seedRoles.items, ∃ r ∈ db .rolePermissions, IsPair db pair r
  users : ∀ u ∈ seedUsers, ∃ r ∈ db .users, r .email = some (.text u.email)

theorem IsPair.mono {db db' : PgDb F} (h : ∀ t, db t <+: db' t) {pair : String × String}
    {r : PgRow F} (hr : IsPair db pair r) : IsPair db' pair r := by
  obtain ⟨role, hrole, perm, hperm, hpair⟩ := hr
  exact ⟨role, (h .roles).subset hrole, perm, (h .permissions).subset hperm, hpair⟩

theorem seedPairs_nodup : (pairsOf seedRoles.items).Nodup := by decide

theorem seedUsers_nodup : (seedUsers.map SeedUser.email).Nodup := by decide

/-- Every code a role lists is a seed permission. -/
theorem seedRoles_codes : ∀ item ∈ seedRoles.items, ∀ code ∈ item.2,
    code ∈ seedPermissions.map Prod.fst := by
  decide

/-- The texts of the seeds fit their columns. -/
theorem seed_lengths :
    (∀ item ∈ seedPermissions, item.1.length ≤ 100 ∧ item.2.length ≤ 500) ∧
      (∀ item ∈ seedRoles.items, item.1.length ≤ 100 ∧ ("Seed role: " ++ item.1).length ≤ 500) ∧
      ∀ u ∈ seedUsers, u.email.length ≤ 255 ∧ u.fullName.length ≤ 200 ∧
        ∀ p ∈ u.passwordHash, p.length ≤ 255 := by
  decide +kernel

/-! ## 3. The state a run is heading for -/

section Run

variable [DecidableEq F]

/-- In a run, `uuid4()` repeats no id and draws none that the tables hold. -/
structure FreshIds (env : SessionEnv) (db : PgDb F) : Prop where
  distinct : ∀ n m, n < seedCount → m < seedCount → env.ids n = env.ids m → n = m
  unused : ∀ n, n < seedCount → ∀ t ∈ [TableName.permissions, .roles, .users], ∀ r ∈ db t,
    r .id ≠ some (.uuid (env.ids n))

/-- No row of the run is refused: it adds none, or the ids it draws are new. -/
def Sure (env : SessionEnv) (db : PgDb F) : Prop := Present db ∨ FreshIds env db

/-- The run began on `db0`, and flushing the session leads to `db`: what is staged refers to flushed
    rows only, so the flush may take it in the order it was added. Where every seed was there to
    begin with, nothing was added. -/
structure SeedRun (env : SessionEnv) (db0 db : PgDb F) (s : Session F) : Prop where
  committed : s.committed = db0
  reached : ∃ rows, insertAll ormSchema db0 rows = some s.visible
  flushes : insertAll ormSchema s.visible s.pending = some db
  settled : Settled ormSchema s.visible s.pending
  fresh : FreshIds env db0 → ∀ n, s.drawn ≤ n → n < seedCount →
    ∀ t ∈ [TableName.permissions, .roles, .users], ∀ r ∈ db t, r .id ≠ some (.uuid (env.ids n))
  idle : Present db0 → db = db0

/-- What is staged will be refused. -/
structure Doomed (env : SessionEnv) (db0 : PgDb F) (s : Session F) : Prop where
  committed : s.committed = db0
  reached : ∃ rows, insertAll ormSchema db0 rows = some s.visible
  refused : insertAll ormSchema s.visible s.pending = none
  settled : Settled ormSchema s.visible s.pending
  unsure : ¬ Sure env db0

/-- How a run stops. -/
abbrev Halted (env : SessionEnv) (db0 : PgDb F) : SessionError → Client F → Prop :=
  Stopped env db0 (Sure env db0)

variable {env : SessionEnv} {db0 db : PgDb F} {s : Session F} {t : TableName}

theorem SeedRun.visible_prefix (h : SeedRun env db0 db s) (t : TableName) :
    db0 t <+: s.visible t := by
  obtain ⟨rows, hrows⟩ := h.reached
  exact isPrefix_insertAll hrows t

theorem SeedRun.pending_prefix (h : SeedRun env db0 db s) (t : TableName) : s.visible t <+: db t :=
  isPrefix_insertAll h.flushes t

theorem SeedRun.all_reached (h : SeedRun env db0 db s) :
    ∃ rows, insertAll ormSchema db0 rows = some db := by
  obtain ⟨rows, hrows⟩ := h.reached
  exact ⟨rows ++ s.pending, by rw [insertAll_append, hrows, Option.bind_some, h.flushes]⟩

theorem SeedRun.keys (h : SeedRun env db0 db s) (hkeys : KeysHold db0) : KeysHold db := by
  obtain ⟨rows, hrows⟩ := h.all_reached
  exact hkeys.insertAll hrows

theorem SeedRun.opened : SeedRun env db0 db0 (Session.opened db0) where
  committed := rfl
  reached := ⟨[], rfl⟩
  flushes := rfl
  settled := nofun
  fresh hids n _ := hids.unused n
  idle _ := rfl

/-- Whatever the order of the flush. -/
theorem SeedRun.flush_eq (h : SeedRun env db0 db s) :
    insertAll ormSchema s.visible (flushOrder s.pending) = some db :=
  (insertAll_flushOrder h.settled).trans h.flushes

theorem Doomed.flush_eq (h : Doomed env db0 s) :
    insertAll ormSchema s.visible (flushOrder s.pending) = none :=
  (insertAll_flushOrder h.settled).trans h.refused

/-- A flush leads there. -/
theorem SeedRun.flushed (h : SeedRun env db0 db s) :
    SeedRun env db0 db { s with visible := db, pending := [] } where
  committed := h.committed
  reached := h.all_reached
  flushes := rfl
  settled := nofun
  fresh := h.fresh
  idle := h.idle

theorem Settled.staged {rows : List (TableName × PgRow F)} {db : PgDb F}
    (h : Settled ormSchema db rows) {q : TableName × PgRow F}
    (hq : ∀ fk ∈ (ormSchema.table q.1).foreignKeys, refersWithin db fk q.2 = true) :
    Settled ormSchema db (rows ++ [q]) := by
  intro p hp
  rcases List.mem_append.mp hp with hp | hp
  · exact h p hp
  · rw [List.mem_singleton.mp hp]
    exact hq

/-- Staging more changes nothing about that. -/
theorem Doomed.staged (h : Doomed env db0 s) (q : TableName × PgRow F) (n : Nat)
    (hq : ∀ fk ∈ (ormSchema.table q.1).foreignKeys, refersWithin s.visible fk q.2 = true) :
    Doomed env db0 { s with pending := s.pending ++ [q], drawn := n } where
  committed := h.committed
  reached := h.reached
  refused := by
    rw [insertAll_append, h.refused]
    rfl
  settled := Settled.staged h.settled hq
  unsure := h.unsure

/-- What a query for a key finds: one row at most. -/
theorem length_le_one (hreached : ∃ rows, insertAll ormSchema db0 rows = some s.visible)
    (hkeys : KeysHold db0) (ht : t ∈ seedTables) (cols : List ColumnName)
    (hcols : cols ∈ (ormSchema.table t).keys) {cond : PgRow F → Bool}
    (hcond : ∀ r s, cond r = true → cond s = true → agreeOn cols r s = true) :
    ((s.visible t).filter cond).length ≤ 1 := by
  obtain ⟨rows, hrows⟩ := hreached
  exact ((hkeys.insertAll hrows).unique t ht cols hcols).length_filter_le_one hcond

/-- What a query finds is there. -/
theorem SeedRun.found (h : SeedRun env db0 db s) {cond : PgRow F → Bool} {r : PgRow F}
    (hr : (s.visible t).filter cond = [r]) : r ∈ db t ∧ cond r = true := by
  have hmem : r ∈ (s.visible t).filter cond := hr ▸ List.mem_singleton_self r
  obtain ⟨hvis, hcond⟩ := List.mem_filter.mp hmem
  exact ⟨(h.pending_prefix t).subset hvis, hcond⟩

/-- What a query does not find, and nothing pending is, is not there. -/
theorem SeedRun.absent (h : SeedRun env db0 db s) {cond : PgRow F → Bool}
    (hr : (s.visible t).filter cond = [])
    (hpending : ∀ r, (t, r) ∈ s.pending → cond r = false) : ∀ r ∈ db t, cond r = false := by
  intro r hmem
  rcases (mem_insertAll h.flushes r).mp hmem with hvis | hpend
  · exact Bool.eq_false_iff.mpr (List.filter_eq_nil_iff.mp hr r hvis)
  · exact hpending r hpend

/-- A query for a seed finds it if every seed was there to begin with. -/
theorem SeedRun.not_present (h : SeedRun env db0 db s) {cond : PgRow F → Bool}
    (hr : (s.visible t).filter cond = []) (hseed : Present db0 → ∃ r ∈ db0 t, cond r = true) :
    ¬ Present db0 := by
  intro hpresent
  obtain ⟨r, hmem, hcond⟩ := hseed hpresent
  exact List.filter_eq_nil_iff.mp hr r ((h.visible_prefix t).subset hmem) hcond

/-- **Staging a row the table accepts.** -/
theorem SeedRun.added (h : SeedRun env db0 db s) (hnew : ¬ Present db0) {m : Model} {r : PgRow F}
    (ht : m.mapped.tablename ∈ ormSchema.tables)
    (hacc : accepts ormSchema db m.mapped.tablename r = true)
    (hrefs : ∀ fk ∈ (ormSchema.table m.mapped.tablename).foreignKeys,
      refersWithin s.visible fk r = true)
    (hid : FreshIds env db0 → m.mapped.tablename ∈ [TableName.permissions, .roles, .users] →
      ∀ n, s.drawn < n → n < seedCount → r .id ≠ some (.uuid (env.ids n))) :
    SeedRun env db0 (Function.update db m.mapped.tablename (db m.mapped.tablename ++ [r]))
      { s with pending := s.pending ++ [(m.mapped.tablename, r)], drawn := s.drawn + 1 } where
  committed := h.committed
  reached := h.reached
  flushes := by
    rw [insertAll_append, h.flushes, Option.bind_some, insertAll_singleton]
    exact insertRow_eq_some_iff.mpr ⟨⟨ht, hacc⟩, rfl⟩
  settled := Settled.staged h.settled hrefs
  fresh hids n hn hlast t ht r' hr' := by
    have hn' : s.drawn + 1 ≤ n := hn
    by_cases htm : t = m.mapped.tablename
    · subst htm
      rw [Function.update_self, List.mem_append, List.mem_singleton] at hr'
      rcases hr' with hr' | rfl
      · exact h.fresh hids n (by omega) hlast _ ht r' hr'
      · exact hid hids ht n (by omega) hlast
    · rw [Function.update_of_ne htm] at hr'
      exact h.fresh hids n (by omega) hlast t ht r' hr'
  idle hpresent := absurd hpresent hnew

end Run

/-! ## 4. Rows the tables accept -/

section Accept

variable [DecidableEq F] {db : PgDb F}

theorem ormSchema_table (m : Model) : ormSchema.table m.mapped.tablename = m.mapped.toTable := by
  cases m <;> rfl

theorem ormSchema_mem (m : Model) : m.mapped.tablename ∈ ormSchema.tables := by
  cases m <;> decide

/-- A new object is accepted when its attributes fit, no row has one of its keys and what it refers
    to is there. -/
theorem accepts_construct {m : Model} {attrs : Named ColumnName (SqlValue F)} {drawn : Drawn}
    (htakes : m.takes attrs = true)
    (hfree : ∀ cols ∈ m.mapped.keys, ∀ s ∈ db m.mapped.tablename,
      agreeOn cols s (m.construct drawn attrs) = false)
    (hrefs : ∀ fk ∈ m.mapped.foreignKeys, refersWithin db fk (m.construct drawn attrs) = true) :
    accepts ormSchema db m.mapped.tablename (m.construct drawn attrs) = true := by
  rw [accepts_iff, ormSchema_table]
  exact ⟨admitsRow_construct htakes drawn, hfree, hrefs⟩

theorem agreeOn_singleton_eq_false {n : ColumnName} {r s : PgRow F} (h : r n ≠ s n) :
    agreeOn [n] r s = false := by
  rw [Bool.eq_false_iff, Ne, agreeOn_iff]
  exact fun hall => h (hall n (List.mem_singleton_self n)).2

/-- The keys of a class with an `id` and one unique column. -/
theorem free_of_unique {m : Model} {n : ColumnName} (hkeys : m.mapped.keys = [[.id], [n]])
    {r : PgRow F} (hid : ∀ s ∈ db m.mapped.tablename, s .id ≠ r .id)
    (hn : ∀ s ∈ db m.mapped.tablename, s n ≠ r n) :
    ∀ cols ∈ m.mapped.keys, ∀ s ∈ db m.mapped.tablename, agreeOn cols s r = false := by
  intro cols hcols s hs
  rw [hkeys] at hcols
  rcases List.mem_cons.mp hcols with rfl | hcols
  · exact agreeOn_singleton_eq_false (hid s hs)
  · rw [List.mem_singleton.mp hcols]
    exact agreeOn_singleton_eq_false (hn s hs)

/-- Two rows with the same text in a unique column agree on it. -/
theorem agreeOn_of_text {n : ColumnName} {text : String} (r s : PgRow F)
    (hr : (r n == some (.text text)) = true) (hs : (s n == some (.text text)) = true) :
    agreeOn [n] r s = true := by
  refine agreeOn_iff.mpr fun c hc => ?_
  rw [List.mem_singleton.mp hc, beq_iff_eq.mp hr, beq_iff_eq.mp hs]
  exact ⟨rfl, rfl⟩

end Accept

/-! ## 5. One class with one unique column -/

section Unique

variable [DecidableEq F] {env : SessionEnv} {db0 db : PgDb F} {s : Session F}

/-- An object of a class with an `id` and one unique column that is given a text. -/
structure UniqueText (m : Model) (col : ColumnName) (text : String)
    (attrs : Named ColumnName (SqlValue F)) : Prop where
  seeded : m.mapped.tablename ∈ [TableName.permissions, .roles, .users]
  keys : m.mapped.keys = [[.id], [col]]
  foreignKeys : m.mapped.foreignKeys = []
  takes : m.takes attrs = true
  id : ∀ drawn : Drawn, m.construct drawn attrs .id = some (.uuid drawn.uuid)
  text : ∀ drawn : Drawn, m.construct drawn attrs col = some (.text text)

/-- The session once the object is added. -/
def Session.withNew (env : SessionEnv) (s : Session F) (m : Model)
    (attrs : Named ColumnName (SqlValue F)) : Session F :=
  { s with
    pending := s.pending ++ [(m.mapped.tablename, m.construct (env.draw s.drawn) attrs)]
    drawn := s.drawn + 1 }

/-- **Staging an object whose text no row has.** The tables refuse it only for its id. -/
theorem SeedRun.add_unique (h : SeedRun env db0 db s) (hnew : ¬ Present db0)
    (hdrawn : s.drawn < seedCount) {m : Model} {col : ColumnName} {text : String}
    {attrs : Named ColumnName (SqlValue F)} (hu : UniqueText m col text attrs)
    (habsent : ∀ r ∈ db m.mapped.tablename, (r col == some (.text text)) = false) :
    SeedRun env db0 (Function.update db m.mapped.tablename
      (db m.mapped.tablename ++ [m.construct (env.draw s.drawn) attrs]))
      (s.withNew env m attrs) ∨ Doomed env db0 (s.withNew env m attrs) := by
  have hrefs : ∀ fk ∈ (ormSchema.table m.mapped.tablename).foreignKeys,
      refersWithin s.visible fk (m.construct (env.draw s.drawn) attrs) = true := by
    rw [ormSchema_table]
    show ∀ fk ∈ m.mapped.foreignKeys, _
    rw [hu.foreignKeys]
    exact fun _ hfk => absurd hfk List.not_mem_nil
  by_cases hacc : accepts ormSchema db m.mapped.tablename
    (m.construct (env.draw s.drawn) attrs) = true
  · refine Or.inl (h.added hnew (ormSchema_mem m) hacc hrefs fun hids _ n hn hlast => ?_)
    rw [hu.id]
    intro e
    have hsame : env.ids s.drawn = env.ids n := by simpa [SessionEnv.draw] using e
    exact absurd (hids.distinct _ _ hdrawn hlast hsame) (by omega)
  · refine Or.inr ⟨h.committed, h.reached, ?_, Settled.staged h.settled hrefs,
      fun hsure => hacc ?_⟩
    · show insertAll ormSchema s.visible (s.pending ++ _) = none
      rw [insertAll_append, h.flushes, Option.bind_some, insertAll_singleton, insertRow,
        if_neg fun hboth => hacc hboth.2]
    · have hids : FreshIds env db0 := hsure.resolve_left hnew
      refine accepts_construct hu.takes (free_of_unique hu.keys (fun r hr => ?_) fun r hr => ?_) ?_
      · rw [hu.id]
        exact h.fresh hids s.drawn (Nat.le_refl _) hdrawn _ hu.seeded r hr
      · rw [hu.text]
        exact fun e => absurd (habsent r hr) (by rw [e]; simp)
      · rw [hu.foreignKeys]
        exact fun _ hfk => absurd hfk List.not_mem_nil

variable {m : Model} {col : ColumnName} {text : String}
  {attrs : Named ColumnName (SqlValue F)}

omit [DecidableEq F] in
theorem UniqueText.mem_seedTables (hu : UniqueText m col text attrs) :
    m.mapped.tablename ∈ seedTables :=
  (by decide : ∀ t ∈ [TableName.permissions, .roles, .users], t ∈ seedTables) _ hu.seeded

omit [DecidableEq F] in
theorem UniqueText.mem_keys (hu : UniqueText m col text attrs) :
    [col] ∈ (ormSchema.table m.mapped.tablename).keys := by
  rw [ormSchema_table]
  show [col] ∈ m.mapped.keys
  rw [hu.keys]
  exact List.mem_cons_of_mem _ (List.mem_singleton_self _)

/-- Flushing what was staged, unless it is refused. -/
theorem flushRun_spec {k : Nat} :
    Spec (fun c => (SeedRun env db0 db c.session ∨ Doomed env db0 c.session) ∧
        c.session.drawn ≤ k)
      (flush env)
      (fun _ c => SeedRun env db0 db c.session ∧ c.session.drawn ≤ k ∧ c.session.pending = [])
      (Halted env db0) := by
  refine flush_spec (P := fun s => (SeedRun env db0 db s ∨ Doomed env db0 s) ∧ s.drawn ≤ k)
    (Q := fun s => SeedRun env db0 db s ∧ s.drawn ≤ k ∧ s.pending = [])
    (fun s hs => hs.1.elim SeedRun.committed Doomed.committed) (fun s hs db' hdb => ?_)
    fun s hs hnone => ?_
  · rcases hs.1 with hrun | hdoomed
    · obtain rfl := Option.some.inj (hrun.flush_eq.symm.trans hdb)
      exact ⟨hrun.flushed, hs.2, rfl⟩
    · cases hdoomed.flush_eq.symm.trans hdb
  · rcases hs.1 with hrun | hdoomed
    · cases hnone.symm.trans hrun.flush_eq
    · exact hdoomed.unsure

/-- **Finding or flushing a row**, when nothing of its table is staged. What is staged may be
    flushed along with it. -/
theorem findOrFlush_spec (db : PgDb F) (hkeys : KeysHold db0)
    (hu : UniqueText m col text ((col, some (.text text)) :: attrs))
    (hseed : Present db0 → ∃ r ∈ db0 m.mapped.tablename, r col = some (.text text))
    {J : TableName × PgRow F → Prop} (hJ : ∀ r, ¬ J (m.mapped.tablename, r)) {k : Nat}
    (hk : k < seedCount) :
    Spec (fun c => SeedRun env db0 db c.session ∧ c.session.drawn ≤ k ∧
        ∀ q ∈ c.session.pending, J q)
      (findOrFlush (ormCalls env) m col text attrs)
      (fun r c => ∃ db', SeedRun env db0 db' c.session ∧ (∀ t, db t <+: db' t) ∧
        r ∈ db' m.mapped.tablename ∧ r col = some (.text text) ∧ c.session.drawn ≤ k + 1 ∧
        ∀ q ∈ c.session.pending, J q)
      (Halted env db0) := by
  unfold findOrFlush
  refine (selectOne_spec
    (P := fun s => SeedRun env db0 db s ∧ s.drawn ≤ k ∧ ∀ q ∈ s.pending, J q)
    (fun s hs => hs.1.committed)
    fun s hs => length_le_one hs.1.reached hkeys hu.mem_seedTables [col] hu.mem_keys
      agreeOn_of_text).bind fun existing => ?_
  cases existing with
  | some r =>
      refine Spec.pure fun c hc => ?_
      obtain ⟨hr, htext⟩ := hc.1.1.found hc.2
      exact ⟨db, hc.1.1, fun t => List.prefix_refl _, hr, beq_iff_eq.mp htext,
        Nat.le_succ_of_le hc.1.2.1, hc.1.2.2⟩
  | none =>
      refine (add_spec
        (P := fun s => (SeedRun env db0 db s ∧ s.drawn ≤ k ∧ ∀ q ∈ s.pending, J q) ∧
          (s.visible m.mapped.tablename).filter (fun r => r col == some (.text text)) = [])
        (Q := fun r s => r col = some (.text text) ∧ (SeedRun env db0 (Function.update db
          m.mapped.tablename (db m.mapped.tablename ++ [r])) s ∨ Doomed env db0 s) ∧
            s.drawn ≤ k + 1)
        fun s hs => ?_).bind fun r => Spec.fact fun htext => ?_
      · obtain ⟨⟨hrun, hdrawn, hpending⟩, hnone⟩ := hs
        have hnew : ¬ Present db0 := hrun.not_present hnone fun hpresent => by
          obtain ⟨r, hr, htext⟩ := hseed hpresent
          exact ⟨r, hr, beq_iff_eq.mpr htext⟩
        have habsent := hrun.absent hnone fun r hr => absurd (hpending _ hr) (hJ r)
        exact ⟨hu.text _, hrun.add_unique hnew (by omega) hu habsent, Nat.succ_le_succ hdrawn⟩
      · refine flushRun_spec.bind fun _ => Spec.pure fun c hc => ⟨_, hc.1, isPrefix_update _ _,
          mem_update _ _, htext, hc.2.1, fun q hq => ?_⟩
        rw [hc.2.2] at hq
        cases hq

end Unique

end AutomationPlatform
