import AutomationPlatform.Library.Relational.Rows
import AutomationPlatform.Orchestrator.Audit
import AutomationPlatform.Store.AuditAppendOnly
import AutomationPlatform.Store.Deletion

/-!
# Which tables are immutable

`is_audit_immutable` names one table. **`immutable_iff`**: of all tables of the three definitions it
is the `audit_logs` of the SQL file whose rows no run of statements changes or takes away, and no
other: a row of every other table can be stored and deleted again (`exists_filled`,
`after_delete_all`).
-/

namespace AutomationPlatform

open Relational Runs

/-- The name of the table in the database. -/
def TableName.tablename : TableName → String
  | .users => "users"
  | .permissions => "permissions"
  | .roles => "roles"
  | .rolePermissions => "role_permissions"
  | .userRoles => "user_roles"
  | .ssoSessions => "sso_sessions"
  | .templates => "templates"
  | .templateVersions => "template_versions"
  | .ingestedRows => "ingested_rows"
  | .suggestions => "suggestions"
  | .auditLogs => "audit_logs"

theorem isAuditImmutable_iff (t : TableName) :
    isAuditImmutable t.tablename = true ↔ t = .auditLogs := by
  cases t <;> decide

variable {F : Type} [DecidableEq F]

/-- No statement of any run changes a stored row of the table or takes it away. -/
def Immutable (F : Type) [DecidableEq F] (d : SchemaDef) (t : TableName) : Prop :=
  ∀ (sts : List (PgStmt F)) (st : PgStmt F), d.after sts t <+: d.after (sts ++ [st]) t

/-! ## A row of any table, stored and deleted -/

/-- A value of the type. -/
def ColType.someValue [Inhabited F] : ColType → SqlValue F
  | .uuid => .uuid (.repeated 1)
  | .varchar _ | .text => .text ""
  | .varcharIn _ labels | .enum labels => .text (labels.headD "")
  | .boolean => .bool true
  | .integer => .int 0
  | .double => .double default
  | .timestamptz => .timestamp .epoch
  | .jsonb => .json (.dict [])

/-- A row with a value in every column. -/
def exampleRow [Inhabited F] (t : PgTable) : PgRow F := fun c =>
  (t.columns.find? fun col => decide (col.name = c)).map fun col => col.type.someValue

/-- The tables up to `t`; what a table refers to comes before it. -/
def tablesUpTo (d : SchemaDef) (t : TableName) : List TableName :=
  d.schema.tables.takeWhile (fun t' => decide (t' ≠ t)) ++ [t]

/-- One row for each of the tables. -/
def exampleRows [Inhabited F] (d : SchemaDef) (ts : List TableName) :
    List (TableName × PgRow F) :=
  ts.map fun t => (t, exampleRow (d.schema.table t))

theorem insertAll_exampleRows [Inhabited F] (d : SchemaDef) :
    (insertAll d.schema (fun _ => []) (exampleRows d d.schema.tables :
      List (TableName × PgRow F))).isSome = true := by
  cases d
  · rfl
  · rfl
  · rfl

theorem tables_eq (d : SchemaDef) {t : TableName} (ht : t ∈ d.schema.tables) :
    d.schema.tables =
      tablesUpTo d t ++ (d.schema.tables.dropWhile fun t' => decide (t' ≠ t)).tail := by
  revert ht
  cases d <;> cases t <;> decide

/-- There is a reachable state with a row in each table up to `t` and none elsewhere. -/
theorem exists_filled [Inhabited F] (d : SchemaDef) {t : TableName} (ht : t ∈ d.schema.tables) :
    ∃ sts : List (PgStmt F), ∀ t', d.after sts t' ≠ [] ↔ t' ∈ tablesUpTo d t := by
  have hall := insertAll_exampleRows (F := F) d
  rw [tables_eq d ht, exampleRows, List.map_append, insertAll_append] at hall
  obtain ⟨db, hdb⟩ := Option.isSome_iff_exists.mp (Option.isSome_of_isSome_bind hall)
  refine ⟨(exampleRows d (tablesUpTo d t)).map fun p => .insert p.1 p.2, fun t' => ?_⟩
  rw [SchemaDef.after, exampleRows, run_of_insertAll (consistent_empty _) hdb]
  constructor
  · intro hne
    obtain ⟨r, hr⟩ := List.exists_mem_of_ne_nil _ hne
    rcases (mem_insertAll hdb r).mp hr with hold | hnew
    · cases hold
    · obtain ⟨t'', ht'', e⟩ := List.mem_map.mp hnew
      exact (Prod.mk.inj e).1 ▸ ht''
  · intro h
    exact List.ne_nil_of_mem ((mem_insertAll hdb _).mpr (Or.inr (List.mem_map.mpr ⟨t', h, rfl⟩)))

omit [DecidableEq F] in
/-- What would keep a row of `t` is not there yet. -/
theorem not_deleteRefused {d : SchemaDef} {t : TableName} (h : d = .sqlMigration → t ≠ .auditLogs)
    {db : PgDb F} (hdb : ∀ t', db t' ≠ [] ↔ t' ∈ tablesUpTo d t) (cond : PgRow F → Bool) :
    ¬ DeleteRefused d db t cond := by
  have hno : ∀ {t' : TableName} {r : PgRow F}, r ∈ db t' → t' ∈ tablesUpTo d t :=
    fun hr => (hdb _).mp (List.ne_nil_of_mem hr)
  rintro (⟨-, rfl, r, hr, -⟩ | ⟨hd, ht, -⟩ | ⟨-, rfl, r, hr, -⟩)
  · exact absurd (hno hr) (by cases d <;> decide)
  · exact h hd ht
  · exact absurd (hno hr) (by cases d <;> decide)

/-- Deleting all rows of a table leaves none. -/
theorem after_delete_all (d : SchemaDef) {t : TableName} (ht : t ∈ d.schema.tables)
    (sts : List (PgStmt F)) (h : ¬ DeleteRefused d (d.after sts) t fun _ => true) :
    d.after (sts ++ [.delete t fun _ => true]) t = [] := by
  have happ : d.after (sts ++ [.delete t fun _ => true]) =
      Relational.step d.schema (d.after sts) (.delete t fun _ => true) :=
    run_append_singleton _ _ _
  rw [happ, Relational.step, exec_delete_eq d.wellFormed d.foreignKeys_of_notMem
    (d.consistent_after sts) ht, if_neg (mt (obstructed_iff d).mp h), Option.getD_some]
  unfold declared
  rw [List.map_eq_nil_iff, List.filter_eq_nil_iff]
  intro r _ hr
  have hstays : ¬ Falls d.schema (d.after sts) t (fun _ => true) t r := by simpa using hr
  exact hstays (.named rfl)

/-! ## The tables that are immutable -/

/-- A table that a definition lacks stays empty. -/
theorem after_of_notMem (d : SchemaDef) {t : TableName} (ht : t ∉ d.schema.tables)
    (sts : List (PgStmt F)) : d.after sts t = [] := by
  refine run_invariant (I := fun db : PgDb F => db t = []) (fun db st hdb => ?_) rfl sts
  unfold Relational.step
  cases hexec : exec d.schema db st with
  | none => exact hdb
  | some db' => exact exec_outside hexec ht hdb

/-- **The immutable tables** are the one that `is_audit_immutable` names, as the SQL file makes it,
    and those that are not there. -/
theorem immutable_iff [Inhabited F] (d : SchemaDef) (t : TableName) :
    Immutable F d t ↔ t ∉ d.schema.tables ∨
      (d = .sqlMigration ∧ isAuditImmutable t.tablename = true) := by
  rw [isAuditImmutable_iff]
  constructor
  · intro himm
    by_contra hnot
    rw [not_or, not_not, not_and] at hnot
    obtain ⟨ht, hother⟩ := hnot
    obtain ⟨sts, hsts⟩ := exists_filled (F := F) d ht
    have hpre := himm sts (.delete t fun _ => true)
    rw [after_delete_all d ht sts (not_deleteRefused hother hsts _), List.prefix_nil] at hpre
    exact (hsts t).mpr (by simp [tablesUpTo]) hpre
  · rintro (ht | ⟨rfl, rfl⟩) sts st
    · rw [after_of_notMem d ht]
      exact List.nil_prefix
    · have happ : SchemaDef.sqlMigration.after (sts ++ [st]) =
          Relational.step sqlSchema (SchemaDef.sqlMigration.after sts) st :=
        run_append_singleton _ _ _
      have hgrow := auditLogs_isPrefix .sql (SchemaDef.sqlMigration.after sts) st nofun
      rw [Migration.step_eq] at hgrow
      rw [happ]
      exact hgrow

end AutomationPlatform
