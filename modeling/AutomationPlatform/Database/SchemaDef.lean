import AutomationPlatform.Database.AlembicMigration
import AutomationPlatform.Database.Models
import AutomationPlatform.Database.SqlMigration
import AutomationPlatform.Library.Runs

/-!
# The three definitions of the tables

The SQL migration, the Alembic migration and `Base.metadata.create_all` each define the tables. A
store any of them made is reached by statements from empty tables; every state on the way meets its
constraints (`SchemaDef.consistent_after`).
-/

namespace AutomationPlatform

open Relational Runs

/-- What creates the tables. -/
inductive SchemaDef where
  | sqlMigration
  | alembicMigration
  | createAll
  deriving DecidableEq, Repr

def SchemaDef.schema : SchemaDef → PgSchema
  | .sqlMigration => sqlSchema
  | .alembicMigration => alembicSchema
  | .createAll => ormSchema

variable {F : Type} [DecidableEq F]

/-- The state after the statements `sts` on the new tables. -/
def SchemaDef.after (d : SchemaDef) (sts : List (PgStmt F)) : PgDb F :=
  run (Relational.step d.schema) (fun _ => []) sts

/-- **Every reachable state meets the constraints.** -/
theorem SchemaDef.consistent_after (d : SchemaDef) (sts : List (PgStmt F)) :
    Consistent d.schema (d.after sts) :=
  run_invariant (fun db st => step_consistent db st) (consistent_empty _) sts

end AutomationPlatform
