import AutomationPlatform.Database.Ddl
import AutomationPlatform.Library.Relational.Delete
import AutomationPlatform.Library.Relational.Evolution
import AutomationPlatform.Store.UserDeletion
import Mathlib.Data.List.Infix

/-!
# The life of a store

Four tools define or change the tables: the SQL file, `alembic upgrade head`, `alembic downgrade
base` and `init_db`. In between, statements run. Nothing keeps the tools from being used on one
database, in any order and any number of times.

* `StoreKind` -- the five catalogs that can come of it, and `StoreKind.next`, what each action makes
  of each;
* **`act_kind`** -- every run of actions from an empty database stays among the five and moves as
  `next` says; the rows meet the constraints of the catalog throughout;
* **`after_definition`** -- a store one of the scripts made behaves as the schema written down for
  it (`SchemaDef.after`);
* **`sqlFile_accepted_iff`** -- when the SQL file is accepted, and what it leaves;
* **`downgrade_leaves`** -- what is left of a store that was empty, upgraded and downgraded again,
  whatever was done in between: no table and no row, but what `downgrade()` does not undo;
* **`auditLogs_kept`** -- once the audit trigger is there, no action removes it or an audit row.
-/

namespace AutomationPlatform

open Relational Runs ColumnName

/-! ## 1. The actions -/

section Actions

variable {F : Type} [DecidableEq F]

/-- The tables with their rows, whether `alembic_version` names `001_initial`, and what else there
    is. -/
structure PgStore (F : Type) where
  store : Relational.Store TableName ColumnName ColType (SqlValue F) IndexName
  stamped : Bool
  others : Finset ServerObject

inductive StoreAction (F : Type) where
  | applySqlFile
  | alembicUpgrade
  | alembicDowngrade
  | initDb
  | statement (st : PgStmt F)

def PgStore.new : PgStore F := ⟨⟨.empty, fun _ => []⟩, false, ∅⟩

/-- A script in one transaction, with what it creates besides tables. -/
def PgStore.transaction (s : PgStore F) (sts : List PgDdl) (objects : Finset ServerObject) :
    PgStore F :=
  match s.store.script sts with
  | some s' => { s with store := s', others := s.others ∪ objects }
  | none => s

/-- `alembic upgrade head`: nothing to do when the store is stamped. The table of the stamp is
    created in the transaction of the script. -/
def PgStore.alembicUpgrade (s : PgStore F) : PgStore F :=
  if s.stamped then s
  else match s.store.script upgradeScript with
    | some s' => ⟨s', true, s.others ∪ insert .alembicVersion upgradeObjects⟩
    | none => s

/-- `alembic downgrade base`. Without a stamp there is no revision to leave, and only the table of
    the stamp is created. The `REVOKE` needs its role. -/
def PgStore.alembicDowngrade (s : PgStore F) : PgStore F :=
  if s.stamped then
    if .auditWriter ∈ s.others then
      match s.store.script downgradeScript with
      | some s' => { s with store := s', stamped := false }
      | none => s
    else s
  else { s with others := insert .alembicVersion s.others }

/-- One action; each runs in a transaction of its own. -/
def PgStore.act (s : PgStore F) : StoreAction F → PgStore F
  | .applySqlFile => s.transaction sqlScript sqlObjects
  | .alembicUpgrade => s.alembicUpgrade
  | .alembicDowngrade => s.alembicDowngrade
  | .initDb => s.transaction (createAllScript s.store.catalog) createAllObjects
  | .statement st => { s with store := s.store.statement st }

/-- The store after the actions `as` on an empty database. -/
def PgStore.after (as : List (StoreAction F)) : PgStore F := run PgStore.act PgStore.new as

/-- No two ingested rows have the same source and hash. -/
def PgStore.sourceUnique (s : PgStore F) : Bool :=
  Store.differ s.store.rows .ingestedRows [sourceId, sourceRowHash]

end Actions

/-! ## 2. The five catalogs -/

inductive StoreKind where
  | empty
  | sql
  | alembic
  | orm
  /-- The SQL file was applied to a store `init_db` made. -/
  | ormThenSql
  deriving DecidableEq, Repr

/-- The catalog a script makes of `c` where no rows are in its way. -/
def built (c : PgCatalog) (sts : List PgDdl) : PgCatalog :=
  (sts.foldlM (Ddl.alter fun _ _ => true) c).getD c

def StoreKind.catalog : StoreKind → PgCatalog
  | .empty => .empty
  | .sql => built .empty sqlScript
  | .alembic => built .empty upgradeScript
  | .orm => built .empty (createAllScript .empty)
  | .ormThenSql => built (built .empty (createAllScript .empty)) sqlScript

/-- What the SQL file makes of a store, `none` when it is refused. -/
def StoreKind.afterSql (sourceUnique : Bool) : StoreKind → Option StoreKind
  | .empty | .sql => some .sql
  | .alembic => none
  | .orm => if sourceUnique then some .ormThenSql else none
  | .ormThenSql => some .ormThenSql

/-- **What an action makes of a store**, by its kind. -/
def StoreKind.next {F : Type} (sourceUnique : Bool) (k : StoreKind) : StoreAction F → StoreKind
  | .applySqlFile => (k.afterSql sourceUnique).getD k
  | .alembicUpgrade => if k = .empty then .alembic else k
  | .alembicDowngrade => if k = .alembic then .empty else k
  | .initDb => if k = .empty then .orm else k
  | .statement _ => k

/-- The catalog of a store a definition made alone. -/
def SchemaDef.kind : SchemaDef → StoreKind
  | .sqlMigration => .sql
  | .alembicMigration => .alembic
  | .createAll => .orm

/-- **The scripts create the tables written down for them.** -/
theorem SchemaDef.kind_same (d : SchemaDef) : d.kind.catalog.schema.Same d.schema := by
  have htable : ∀ t ∈ sqlSchema.tables,
      (d.kind.catalog.schema.table t).columns = (d.schema.table t).columns ∧
      (d.kind.catalog.schema.table t).foreignKeys = (d.schema.table t).foreignKeys ∧
      (d.kind.catalog.schema.table t).frozen = (d.schema.table t).frozen ∧
      (∀ cols ∈ (d.kind.catalog.schema.table t).keys, cols ∈ (d.schema.table t).keys) ∧
      ∀ cols ∈ (d.schema.table t).keys, cols ∈ (d.kind.catalog.schema.table t).keys := by
    cases d <;> decide +kernel
  refine ⟨?_, fun t => ?_, fun t => ?_, fun t => ?_, fun t cols => ?_⟩
  · cases d <;> decide +kernel
  · exact (htable t (sqlSchema_complete t)).1
  · exact (htable t (sqlSchema_complete t)).2.1
  · exact (htable t (sqlSchema_complete t)).2.2.1
  · obtain ⟨-, -, -, hsub, hsup⟩ := htable t (sqlSchema_complete t)
    exact ⟨hsub cols, hsup cols⟩

/-! ## 3. The scripts on each catalog -/

section Scripts

/-- The key on the source and the hash is all the SQL file asks of the rows. -/
theorem uniqueIndex_sqlScript : ∀ st ∈ sqlScript, ∀ p ∈ st.uniqueIndex,
    p = (TableName.ingestedRows, [sourceId, sourceRowHash]) := by
  decide

theorem sqlScript_drops_nothing : ∀ st ∈ sqlScript, ∀ t, st ≠ .dropTable t := by
  intro st hst t
  simp only [sqlScript, tableIfMissing, indexIfMissing, List.mem_cons, List.not_mem_nil,
    or_false] at hst
  rintro rfl
  simp at hst

variable {u : TableName → List ColumnName → Bool}

theorem sqlScript_alter (k : StoreKind)
    (h : k = .empty → u .ingestedRows [sourceId, sourceRowHash] = true) :
    sqlScript.foldlM (Ddl.alter u) k.catalog =
      (k.afterSql (u .ingestedRows [sourceId, sourceRowHash])).map StoreKind.catalog := by
  rw [script_congr (v := fun _ _ => u .ingestedRows [sourceId, sourceRowHash])]
  · generalize u .ingestedRows [sourceId, sourceRowHash] = b at h
    cases k with
    | empty =>
        rw [h rfl]
        rfl
    | sql => cases b <;> rfl
    | alembic => cases b <;> rfl
    | orm => cases b <;> rfl
    | ormThenSql => cases b <;> rfl
  · intro st hst p hp
    rw [uniqueIndex_sqlScript st hst p hp]

/-- What an accepted SQL file makes. -/
theorem StoreKind.cases_afterSql {k k' : StoreKind} {b : Bool} (h : k.afterSql b = some k') :
    k' = .sql ∨ k' = .ormThenSql := by
  cases k <;> cases b <;> cases h <;> decide

/-- `users` is there in every catalog but the empty one. -/
theorem upgradeScript_alter {k : StoreKind} (h : k ≠ .empty) :
    upgradeScript.foldlM (Ddl.alter u) k.catalog = none := by
  cases k with
  | empty => exact absurd rfl h
  | sql => rfl
  | alembic => rfl
  | orm => rfl
  | ormThenSql => rfl

theorem upgradeScript_drops_nothing : ∀ st ∈ upgradeScript, ∀ t, st ≠ .dropTable t := by
  intro st hst t
  simp only [upgradeScript, opIndex, List.mem_cons, List.not_mem_nil, or_false] at hst
  rintro rfl
  simp at hst

theorem createScript_drops_nothing (ms : List Model) :
    ∀ st ∈ ms.flatMap Model.createScript, ∀ t, st ≠ .dropTable t := by
  intro st hst t
  obtain ⟨m, -, hm⟩ := List.mem_flatMap.mp hst
  rcases List.mem_cons.mp hm with rfl | hm
  · exact fun h => by cases h
  · obtain ⟨i, -, rfl⟩ := List.mem_map.mp hm
    exact fun h => by cases h

/-- A class has no table only where there are none. -/
theorem createAllScript_eq {k : StoreKind} (h : k ≠ .empty) : createAllScript k.catalog = [] := by
  cases k with
  | empty => exact absurd rfl h
  | sql => rfl
  | alembic => rfl
  | orm => rfl
  | ormThenSql => rfl

end Scripts

/-! ## 4. One action -/

section Step

variable {F : Type} [DecidableEq F]

/-- The store is of the kind: its catalog, the stamp and the invariant of its rows; the role of an
    upgraded store is there. -/
structure PgStore.Is (s : PgStore F) (k : StoreKind) : Prop where
  catalog : s.store.catalog = k.catalog
  stamped : s.stamped = decide (k = .alembic)
  writer : k = .alembic → .auditWriter ∈ s.others
  sound : s.store.Sound

theorem PgStore.is_new : (PgStore.new : PgStore F).Is .empty :=
  ⟨rfl, rfl, fun h => absurd h (by decide), Store.sound_empty⟩

variable {s : PgStore F} {k : StoreKind} (hs : s.Is k)

include hs in
theorem PgStore.Is.rows_empty (hk : k = .empty) : s.store.rows = fun _ => [] := by
  subst hk
  funext t
  refine hs.sound.outside t ?_
  rw [hs.catalog]
  exact List.not_mem_nil

theorem PgStore.Is.eq_of_empty {s : PgStore F} (hs : s.Is .empty) :
    s = ⟨⟨.empty, fun _ => []⟩, false, s.others⟩ := by
  have hrows := hs.rows_empty rfl
  obtain ⟨⟨c, rows⟩, stamped, others⟩ := s
  cases hs.catalog
  cases hs.stamped
  cases hrows
  rfl

/-- A unique index on a table without rows. -/
theorem differ_empty {db : PgDb F} (h : db = fun _ => []) (t : TableName)
    (cols : List ColumnName) : Store.differ db t cols = true := by
  subst h
  exact decide_eq_true List.Pairwise.nil

include hs in
/-- **The SQL file on a store of a kind**: no row changes. -/
theorem PgStore.Is.script_sql : s.store.script sqlScript =
    (k.afterSql s.sourceUnique).map fun k' => ⟨k'.catalog, s.store.rows⟩ := by
  rw [Store.script_eq sqlScript_drops_nothing, hs.catalog, sqlScript_alter k fun hk =>
    differ_empty (hs.rows_empty hk) _ _, Option.map_map]
  rfl

include hs in
theorem PgStore.Is.script_upgrade : s.store.script upgradeScript =
    if k = .empty then some ⟨StoreKind.alembic.catalog, s.store.rows⟩ else none := by
  rw [Store.script_eq upgradeScript_drops_nothing, hs.catalog]
  split
  · rename_i hk
    subst hk
    rw [script_congr (v := fun _ _ => true) fun st _ p _ =>
      differ_empty (hs.rows_empty rfl) _ _]
    rfl
  · rename_i hk
    rw [upgradeScript_alter hk]
    rfl

include hs in
theorem PgStore.Is.script_createAll : s.store.script (createAllScript s.store.catalog) =
    some (if k = .empty then ⟨StoreKind.orm.catalog, s.store.rows⟩ else s.store) := by
  rw [hs.catalog]
  split
  · rename_i hk
    subst hk
    rw [createAllScript, Store.script_eq (createScript_drops_nothing _), hs.catalog,
      script_congr (v := fun _ _ => true) fun st _ p _ =>
        differ_empty (hs.rows_empty rfl) _ _]
    rfl
  · rename_i hk
    rw [createAllScript_eq hk]
    rfl

include hs in
/-- The tables go in the reverse order of their creation; nothing is left. -/
theorem PgStore.Is.script_downgrade (hk : k = .alembic) :
    s.store.script downgradeScript = some ⟨.empty, fun _ => []⟩ := by
  subst hk
  have hnames : s.store.catalog.names = [] ++ alembicSchema.tables := by
    rw [hs.catalog]
    rfl
  refine (hs.sound.script_drops hnames).trans ?_
  have hrows : ∀ t, (if t ∈ alembicSchema.tables then [] else s.store.rows t) = [] := by
    intro t
    split
    · rfl
    · rename_i ht
      exact hs.sound.outside t (hnames ▸ ht)
  rw [hs.catalog]
  simp only [hrows]
  rfl

include hs in
theorem PgStore.Is.act_applySqlFile : s.act .applySqlFile =
    (k.afterSql s.sourceUnique).elim s fun k' =>
      { s with store := ⟨k'.catalog, s.store.rows⟩, others := s.others ∪ sqlObjects } := by
  show s.transaction sqlScript sqlObjects = _
  unfold PgStore.transaction
  rw [hs.script_sql]
  cases k.afterSql s.sourceUnique with
  | none => rfl
  | some k' => rfl

include hs in
theorem PgStore.Is.act_alembicUpgrade : s.act .alembicUpgrade =
    if k = .empty then ⟨⟨StoreKind.alembic.catalog, s.store.rows⟩, true,
      s.others ∪ insert .alembicVersion upgradeObjects⟩ else s := by
  have hsc := hs.script_upgrade
  show s.alembicUpgrade = _
  unfold PgStore.alembicUpgrade
  by_cases hk : k = .empty
  · rw [if_pos hk] at hsc ⊢
    rw [hs.stamped, if_neg (by rw [hk]; decide), hsc]
  · rw [if_neg hk] at hsc ⊢
    rw [hsc]
    exact ite_self s

include hs in
theorem PgStore.Is.act_alembicDowngrade : s.act .alembicDowngrade =
    if k = .alembic then { s with store := ⟨.empty, fun _ => []⟩, stamped := false }
    else { s with others := insert .alembicVersion s.others } := by
  show s.alembicDowngrade = _
  unfold PgStore.alembicDowngrade
  by_cases hk : k = .alembic
  · rw [if_pos hk, if_pos (hs.stamped.trans (decide_eq_true hk)), if_pos (hs.writer hk),
      hs.script_downgrade hk]
  · rw [if_neg hk, if_neg (by rw [hs.stamped]; simpa using hk)]

include hs in
theorem PgStore.Is.act_initDb : s.act .initDb =
    { s with
      store := if k = .empty then ⟨StoreKind.orm.catalog, s.store.rows⟩ else s.store
      others := s.others ∪ createAllObjects } := by
  show s.transaction (createAllScript s.store.catalog) createAllObjects = _
  unfold PgStore.transaction
  rw [hs.script_createAll]

theorem PgStore.sound_transaction (h : s.store.Sound) (sts : List PgDdl)
    (objects : Finset ServerObject) : (s.transaction sts objects).store.Sound := by
  unfold PgStore.transaction
  split
  · rename_i hsc
    exact h.script hsc
  · exact h

/-- Every script and every statement keeps the invariant of the rows. -/
theorem PgStore.sound_act (h : s.store.Sound) (a : StoreAction F) : (s.act a).store.Sound := by
  cases a with
  | applySqlFile => exact PgStore.sound_transaction h _ _
  | alembicUpgrade =>
      show s.alembicUpgrade.store.Sound
      unfold PgStore.alembicUpgrade
      split
      · exact h
      · split
        · rename_i hsc
          exact h.script hsc
        · exact h
  | alembicDowngrade =>
      show s.alembicDowngrade.store.Sound
      unfold PgStore.alembicDowngrade
      split
      · split
        · split
          · rename_i hsc
            exact h.script hsc
          · exact h
        · exact h
      · exact h
  | initDb => exact PgStore.sound_transaction h _ _
  | statement st => exact h.statement st

include hs in
/-- **One action** takes a store of a kind to the next kind. -/
theorem PgStore.Is.act (a : StoreAction F) : (s.act a).Is (k.next s.sourceUnique a) := by
  have hsound := PgStore.sound_act hs.sound a
  cases a with
  | applySqlFile =>
      rw [hs.act_applySqlFile] at hsound ⊢
      show PgStore.Is _ ((k.afterSql s.sourceUnique).getD k)
      cases hafter : k.afterSql s.sourceUnique with
      | none => exact hs
      | some k' =>
          rw [hafter] at hsound
          have hk : k ≠ .alembic := fun hk => by
            rw [hk] at hafter
            cases hafter
          have hk' : k' ≠ .alembic := fun hk' => by
            rcases StoreKind.cases_afterSql hafter with h | h <;> cases hk'.symm.trans h
          have hstamped : s.stamped = decide (k' = .alembic) := by
            rw [hs.stamped, decide_eq_false hk, decide_eq_false hk']
          exact ⟨rfl, hstamped, fun h => absurd h hk', hsound⟩
  | alembicUpgrade =>
      rw [hs.act_alembicUpgrade] at hsound ⊢
      show PgStore.Is _ (if k = .empty then .alembic else k)
      by_cases hk : k = .empty
      · rw [if_pos hk] at hsound ⊢
        rw [if_pos hk]
        exact ⟨rfl, rfl, fun _ => Finset.mem_union_right _ (by decide), hsound⟩
      · rw [if_neg hk, if_neg hk]
        exact hs
  | alembicDowngrade =>
      rw [hs.act_alembicDowngrade] at hsound ⊢
      show PgStore.Is _ (if k = .alembic then .empty else k)
      by_cases hk : k = .alembic
      · rw [if_pos hk] at hsound ⊢
        rw [if_pos hk]
        exact ⟨rfl, rfl, fun h => absurd h (by decide), hsound⟩
      · rw [if_neg hk, if_neg hk]
        exact ⟨hs.catalog, hs.stamped, fun h => absurd h hk, hs.sound⟩
  | initDb =>
      rw [hs.act_initDb] at hsound ⊢
      show PgStore.Is _ (if k = .empty then .orm else k)
      by_cases hk : k = .empty
      · simp only [if_pos hk] at hsound ⊢
        exact ⟨rfl, hs.stamped.trans (by rw [hk]; rfl), fun h => absurd h (by decide), hsound⟩
      · simp only [if_neg hk]
        exact ⟨hs.catalog, hs.stamped, fun h => Finset.mem_union_left _ (hs.writer h), hs.sound⟩
  | statement st => exact ⟨hs.catalog, hs.stamped, hs.writer, hsound⟩

end Step

/-! ## 5. Runs -/

section Runs

variable {F : Type} [DecidableEq F]

theorem PgStore.exists_is (as : List (StoreAction F)) : ∃ k, (PgStore.after as).Is k :=
  run_invariant (I := fun s => ∃ k, PgStore.Is s k) (fun _ a ⟨_, hs⟩ => ⟨_, hs.act a⟩)
    ⟨_, PgStore.is_new⟩ as

/-- **A store is always of one of the five kinds, and every action moves it as `next` says**; its
    rows meet the constraints of its catalog. -/
theorem act_kind (as : List (StoreAction F)) :
    ∃ k, (PgStore.after as).Is k ∧
      ∀ a, (PgStore.after (as ++ [a])).Is (k.next (PgStore.after as).sourceUnique a) := by
  obtain ⟨k, hs⟩ := PgStore.exists_is as
  refine ⟨k, hs, fun a => ?_⟩
  have happ : PgStore.after (as ++ [a]) = (PgStore.after as).act a := run_append_singleton _ _ _
  rw [happ]
  exact hs.act a

/-- What runs a definition on an empty database. -/
def SchemaDef.action : SchemaDef → StoreAction F
  | .sqlMigration => .applySqlFile
  | .alembicMigration => .alembicUpgrade
  | .createAll => .initDb

/-- **A script and the schema written down for it agree on every statement**: the store the script
    makes holds, after any statements, the rows the schema allows. -/
theorem after_definition (d : SchemaDef) (sts : List (PgStmt F)) :
    (PgStore.after (d.action :: sts.map .statement)).Is d.kind ∧
      (PgStore.after (d.action :: sts.map .statement)).store.rows = d.after sts := by
  have hmade : (PgStore.new.act d.action : PgStore F).Is d.kind := by
    have hs := PgStore.is_new.act (d.action : StoreAction F)
    cases d <;> exact hs
  have hrows : (PgStore.new.act d.action : PgStore F).store.rows = fun _ => [] := by
    cases d with
    | sqlMigration => rw [SchemaDef.action, PgStore.is_new.act_applySqlFile]; rfl
    | alembicMigration => rw [SchemaDef.action, PgStore.is_new.act_alembicUpgrade]; rfl
    | createAll => rw [SchemaDef.action, PgStore.is_new.act_initDb]; rfl
  unfold PgStore.after SchemaDef.after
  rw [run_cons, ← hrows]
  generalize (PgStore.new.act d.action : PgStore F) = s at hmade
  induction sts generalizing s with
  | nil => exact ⟨hmade, rfl⟩
  | cons st sts ih =>
      have hstep : (s.act (.statement st)).store.rows =
          Relational.step d.schema s.store.rows st := by
        show Relational.step s.store.catalog.schema s.store.rows st = _
        unfold Relational.step
        rw [hmade.catalog, d.kind_same.exec_eq]
      rw [List.map_cons, run_cons, run_cons, ← hstep]
      exact ih _ (hmade.act (.statement st))

/-- What the SQL file promises: the unique key on the source and the hash, and the audit trigger. -/
def KeepsPromises (c : PgCatalog) : Prop :=
  [sourceId, sourceRowHash] ∈ (c.schema.table .ingestedRows).keys ∧
    (c.schema.table .auditLogs).frozen = true

instance (c : PgCatalog) : Decidable (KeepsPromises c) := by
  unfold KeepsPromises
  infer_instance

theorem keepsPromises_iff (k : StoreKind) :
    KeepsPromises k.catalog ↔ k = .sql ∨ k = .ormThenSql := by
  cases k <;> decide +kernel

/-- Where the promises are kept the key is met. -/
theorem PgStore.Is.keyOk {s : PgStore F} {k : StoreKind} (hs : s.Is k)
    (h : KeepsPromises s.store.catalog) :
    KeyOk [sourceId, sourceRowHash] (s.store.rows .ingestedRows) := by
  have hmem : .ingestedRows ∈ s.store.catalog.names := by
    rw [hs.catalog] at h ⊢
    rcases (keepsPromises_iff k).mp h with rfl | rfl
    · decide +kernel
    · decide +kernel
  exact hs.sound.consistent.keys .ingestedRows hmem _ h.1

/-- **The SQL file is accepted** unless Alembic made the store or two ingested rows have the same
    source and hash. It keeps every row and its promises, and applied again changes nothing. -/
theorem sqlFile_accepted_iff (as : List (StoreAction F)) :
    (((PgStore.after as).store.script sqlScript).isSome = true ↔
      (PgStore.after as).stamped = false ∧
        KeyOk [sourceId, sourceRowHash] ((PgStore.after as).store.rows .ingestedRows)) ∧
    ∀ s', (PgStore.after as).store.script sqlScript = some s' →
      s'.rows = (PgStore.after as).store.rows ∧ KeepsPromises s'.catalog ∧
        s'.script sqlScript = some s' := by
  obtain ⟨k, hs⟩ := PgStore.exists_is as
  generalize PgStore.after as = s at hs
  have hunique : s.sourceUnique = true ↔
      KeyOk [sourceId, sourceRowHash] (s.store.rows .ingestedRows) := decide_eq_true_iff
  rw [hs.script_sql]
  refine ⟨?_, ?_⟩
  · rw [Option.isSome_map, hs.stamped, ← hunique]
    cases k with
    | empty =>
        have hkey : s.sourceUnique = true := differ_empty (hs.rows_empty rfl) _ _
        simpa [StoreKind.afterSql] using hkey
    | sql =>
        have hkey := hunique.mpr (hs.keyOk (hs.catalog ▸ (keepsPromises_iff _).mpr (Or.inl rfl)))
        simpa [StoreKind.afterSql] using hkey
    | alembic => simp [StoreKind.afterSql]
    | orm => cases s.sourceUnique <;> simp [StoreKind.afterSql]
    | ormThenSql =>
        have hkey := hunique.mpr (hs.keyOk (hs.catalog ▸ (keepsPromises_iff _).mpr (Or.inr rfl)))
        simpa [StoreKind.afterSql] using hkey
  · intro s' h
    obtain ⟨k', hk', rfl⟩ := Option.map_eq_some_iff.mp h
    have hkept := StoreKind.cases_afterSql hk'
    refine ⟨rfl, (keepsPromises_iff k').mpr hkept, ?_⟩
    -- the file was accepted, so the store is of kind `k'` now
    have his : (⟨⟨k'.catalog, s.store.rows⟩, false, ∅⟩ : PgStore F).Is k' := by
      refine ⟨rfl, ?_, fun hk => ?_, hs.sound.script (hs.script_sql.trans h)⟩
      · rcases hkept with rfl | rfl <;> rfl
      · rcases hkept with rfl | rfl <;> cases hk
    refine his.script_sql.trans ?_
    rcases hkept with rfl | rfl <;> rfl

def StoreAction.isInitDb : StoreAction F → Bool
  | .initDb => true
  | _ => false

/-- What was done to an upgraded store besides changes of its rows. -/
theorem PgStore.Is.run_upgraded {s : PgStore F} (hs : s.Is .alembic) {bs : List (StoreAction F)}
    (hbs : ∀ b ∈ bs, b ≠ .alembicDowngrade) :
    (run PgStore.act s bs).Is .alembic ∧ (run PgStore.act s bs).others =
      s.others ∪ if bs.any StoreAction.isInitDb then createAllObjects else ∅ := by
  induction bs generalizing s with
  | nil => exact ⟨hs, (Finset.union_empty _).symm⟩
  | cons b bs ih =>
      have hb : b ≠ .alembicDowngrade := hbs _ List.mem_cons_self
      have hnext : StoreKind.next s.sourceUnique .alembic b = .alembic := by
        cases b with
        | alembicDowngrade => exact absurd rfl hb
        | _ => rfl
      have hothers : (s.act b).others =
          s.others ∪ if b.isInitDb then createAllObjects else ∅ := by
        cases b with
        | applySqlFile => rw [hs.act_applySqlFile]; exact (Finset.union_empty _).symm
        | alembicUpgrade => rw [hs.act_alembicUpgrade]; exact (Finset.union_empty _).symm
        | alembicDowngrade => exact absurd rfl hb
        | initDb => rw [hs.act_initDb]; rfl
        | statement st => exact (Finset.union_empty _).symm
      obtain ⟨his, hrun⟩ := ih (hnext ▸ hs.act b) fun b' hb' => hbs b' (List.mem_cons_of_mem _ hb')
      refine ⟨his, hrun.trans ?_⟩
      rw [hothers, Finset.union_assoc, List.any_cons]
      cases b.isInitDb <;> cases bs.any StoreAction.isInitDb <;> simp

theorem StoreKind.eq_empty_of_catalog {k : StoreKind} (h : k.catalog = .empty) : k = .empty := by
  have hnames : k.catalog.names = [] := by
    rw [h]
    rfl
  cases k with
  | empty => rfl
  | sql => cases hnames
  | alembic => cases hnames
  | orm => cases hnames
  | ormThenSql => cases hnames

/-- **What an upgrade and a downgrade leave of a store without tables**, whatever other tools and
    statements did in between: no table, no row and no stamp; but the extensions, the role and the
    table of the stamp stay, and the enum types of an `init_db` in between. So the store is as it
    was only where it had these before. -/
theorem downgrade_leaves (as bs : List (StoreAction F))
    (hempty : (PgStore.after as).store.catalog = .empty) (hbs : ∀ b ∈ bs, b ≠ .alembicDowngrade) :
    PgStore.after (as ++ .alembicUpgrade :: bs ++ [.alembicDowngrade]) =
        ⟨⟨.empty, fun _ => []⟩, false,
          (PgStore.after as).others ∪ insert .alembicVersion upgradeObjects ∪
            if bs.any StoreAction.isInitDb then createAllObjects else ∅⟩ ∧
      (PgStore.after (as ++ .alembicUpgrade :: bs ++ [.alembicDowngrade]) = PgStore.after as ↔
        insert .alembicVersion upgradeObjects ⊆ (PgStore.after as).others ∧
          (bs.any StoreAction.isInitDb = true → createAllObjects ⊆ (PgStore.after as).others)) := by
  obtain ⟨k, hs⟩ := PgStore.exists_is as
  have hk : k = .empty := StoreKind.eq_empty_of_catalog (hs.catalog.symm.trans hempty)
  subst hk
  have hsplit : PgStore.after (as ++ .alembicUpgrade :: bs ++ [.alembicDowngrade]) =
      (run PgStore.act ((PgStore.after as).act .alembicUpgrade) bs).act .alembicDowngrade := by
    unfold PgStore.after
    rw [run_append_singleton, run_append, run_cons]
  generalize PgStore.after as = s at hs hsplit
  have hup : (s.act .alembicUpgrade).Is .alembic := hs.act .alembicUpgrade
  obtain ⟨hrun, hothers⟩ := hup.run_upgraded hbs
  rw [hsplit, hrun.act_alembicDowngrade, if_pos rfl, hothers, hs.act_alembicUpgrade, if_pos rfl]
  refine ⟨rfl, ?_⟩
  generalize hinit : bs.any StoreAction.isInitDb = b
  rw [hs.eq_of_empty, PgStore.mk.injEq]
  simp only [true_and, Finset.union_assoc, Finset.union_eq_left, Finset.union_subset_iff]
  refine and_congr_right fun _ => ?_
  cases b with
  | false => simp
  | true => simp

/-- The other tools and a statement run in between; nothing was there before. -/
theorem downgrade_leaves_otherTools :
    PgStore.after ([] ++ .alembicUpgrade :: [.initDb, .applySqlFile,
      .statement (.delete .users fun _ => true)] ++ [.alembicDowngrade]) =
        (⟨⟨.empty, fun _ => []⟩, false, {.alembicVersion, .uuidOssp, .pgcrypto, .auditWriter,
          .userRoleEnum, .templateVersionStatus, .suggestionState}⟩ : PgStore ℚ) :=
  (downgrade_leaves [] [.initDb, .applySqlFile, .statement (.delete .users fun _ => true)] rfl
    (by simp)).1.trans (congrArg _ (by decide))

/-- One action on a store that keeps the promises. -/
theorem PgStore.Is.kept {s : PgStore F} {k : StoreKind} (hs : s.Is k)
    (h : KeepsPromises s.store.catalog) (a : StoreAction F) :
    KeepsPromises (s.act a).store.catalog ∧
      s.store.rows .auditLogs <+: (s.act a).store.rows .auditLogs := by
  have hkind : k = .sql ∨ k = .ormThenSql := (keepsPromises_iff k).mp (hs.catalog ▸ h)
  have hnext : k.next s.sourceUnique a = k := by
    rcases hkind with rfl | rfl <;> cases a <;> rfl
  refine ⟨?_, ?_⟩
  · rw [(hs.act a).catalog, hnext, ← hs.catalog]
    exact h
  · cases a with
    | applySqlFile =>
        rw [hs.act_applySqlFile]
        cases k.afterSql s.sourceUnique <;> exact List.prefix_rfl
    | alembicUpgrade =>
        rw [hs.act_alembicUpgrade]
        split <;> exact List.prefix_rfl
    | alembicDowngrade =>
        rw [hs.act_alembicDowngrade, if_neg (by rcases hkind with rfl | rfl <;> decide)]
    | initDb =>
        rw [hs.act_initDb]
        dsimp only
        split <;> exact List.prefix_rfl
    | statement st =>
        show _ <+: Relational.step s.store.catalog.schema s.store.rows st .auditLogs
        unfold Relational.step
        cases hst : exec s.store.catalog.schema s.store.rows st with
        | none => exact List.prefix_rfl
        | some db' =>
            refine isPrefix_of_spares hst (spares_of_frozen hst ?_ h.2)
            show .auditLogs ∈ s.store.catalog.names
            rw [hs.catalog]
            rcases hkind with rfl | rfl
            · decide +kernel
            · decide +kernel

/-- **Once the SQL file was applied, its promises are kept for good**: no tool and no statement
    takes the key or the trigger away, or changes or removes an audit row. -/
theorem auditLogs_kept (as bs : List (StoreAction F))
    (h : KeepsPromises (PgStore.after as).store.catalog) :
    KeepsPromises (PgStore.after (as ++ bs)).store.catalog ∧
      (PgStore.after as).store.rows .auditLogs <+:
        (PgStore.after (as ++ bs)).store.rows .auditLogs := by
  induction bs using List.reverseRecOn with
  | nil => simpa using h
  | append_singleton bs b ih =>
      obtain ⟨k, hs⟩ := PgStore.exists_is (as ++ bs)
      obtain ⟨hkept, hpre⟩ := hs.kept ih.1 b
      have happ : PgStore.after (as ++ (bs ++ [b])) = (PgStore.after (as ++ bs)).act b := by
        rw [← List.append_assoc]
        exact run_append_singleton _ _ _
      rw [happ]
      exact ⟨hkept, ih.2.trans hpre⟩

/-- An audit row is stored; every tool runs, and the row and its actor are to be deleted. -/
theorem auditLogs_kept_reviewEntry :
    let as : List (StoreAction ℚ) := [.applySqlFile, .statement (.insert .users sampleReviewer),
      .statement (.insert .auditLogs sampleReviewEntry)]
    let bs : List (StoreAction ℚ) := [.alembicUpgrade, .alembicDowngrade, .initDb, .applySqlFile,
      .statement (.delete .auditLogs fun _ => true), .statement (.delete .users fun _ => true)]
    KeepsPromises (PgStore.after (as ++ bs)).store.catalog ∧
      (PgStore.after as).store.rows .auditLogs <+:
        (PgStore.after (as ++ bs)).store.rows .auditLogs :=
  auditLogs_kept _ _ (by decide +kernel)

end Runs

end AutomationPlatform
