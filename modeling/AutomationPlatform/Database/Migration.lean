import AutomationPlatform.Database.AlembicMigration
import AutomationPlatform.Database.SqlMigration
import AutomationPlatform.Library.Relational.Rows
import AutomationPlatform.Library.Runs

/-!
# The store each migration builds

The application connects as the role that ran the migration (`settings.database_url`), so it owns
the tables. Every state a run reaches meets the constraints of the schema (`consistent_after`).
-/

namespace AutomationPlatform

open Relational Runs

variable {F : Type} [DecidableEq F]

inductive Migration where
  | sql
  | alembic
  deriving DecidableEq, Repr

def Migration.schema : Migration → PgSchema
  | .sql => sqlSchema
  | .alembic => alembicSchema

def Migration.privileges : Migration → Privileges
  | .sql => createdPrivileges
  | .alembic => alembicPrivileges

/-- One statement of the application, on the store a migration built. -/
def Migration.step (m : Migration) (db : PgDb F) (st : PgStmt F) : PgDb F :=
  stepAs m.privileges .owner m.schema db st

/-- The state after the statements `sts` on the new store. -/
def Migration.after (m : Migration) (sts : List (PgStmt F)) : PgDb F :=
  run m.step (fun _ => []) sts

theorem Migration.step_eq (m : Migration) (db : PgDb F) (st : PgStmt F) :
    m.step db st = Relational.step m.schema db st := by
  refine stepAs_of_all (fun t x => ?_) _ _ _
  cases m with
  | sql => rfl
  | alembic => exact alembicPrivileges_owner t x

/-- Rows that a new store accepts one after the other are there after their INSERTs. -/
theorem Migration.after_inserts (m : Migration) {rows : List (TableName × PgRow F)} {db : PgDb F}
    (h : insertAll m.schema (fun _ => []) rows = some db) :
    m.after (rows.map fun p => .insert p.1 p.2) = db := by
  unfold Migration.after
  rw [show m.step = Relational.step m.schema from funext fun db => funext (m.step_eq db)]
  exact run_of_insertAll (consistent_empty _) h

/-- **Every reachable state meets the constraints.** -/
theorem Migration.consistent_after (m : Migration) (sts : List (PgStmt F)) :
    Consistent m.schema (m.after sts) := by
  refine run_invariant (I := Consistent m.schema) (fun db st h => ?_) (consistent_empty _) sts
  rw [m.step_eq]
  exact step_consistent db st h

end AutomationPlatform
