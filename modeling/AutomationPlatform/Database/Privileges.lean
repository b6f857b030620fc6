import AutomationPlatform.Database.Columns

/-!
# Who may execute a statement

The roles the migrations speak of and the table privileges they hold. A role may do what it was
granted or what `PUBLIC` was granted; the owner of a table starts with every privilege on it.
Referential actions and triggers run with the owner's privileges, so only the statement itself is
checked.
-/

namespace AutomationPlatform

open Relational

inductive PgRole where
  | owner
  | auditWriter
  | publicRole
  deriving DecidableEq, Repr

inductive Privilege where
  | insert
  | update
  | delete
  deriving DecidableEq, Repr

inductive GrantStmt where
  | grant (privileges : List Privilege) (t : TableName) (role : PgRole)
  | revoke (privileges : List Privilege) (t : TableName) (role : PgRole)
  deriving DecidableEq, Repr

abbrev Privileges := PgRole → TableName → Privilege → Bool

/-- After `CREATE TABLE`. -/
def createdPrivileges : Privileges := fun role _ _ => role == .owner

/-- `GRANT` and `REVOKE` change the privileges of the role they name and of no other. -/
def GrantStmt.apply (p : Privileges) : GrantStmt → Privileges
  | .grant xs t role => fun role' t' x =>
    (role' == role && t' == t && xs.contains x) || p role' t' x
  | .revoke xs t role => fun role' t' x =>
    !(role' == role && t' == t && xs.contains x) && p role' t' x

/-- The role may execute the statement. -/
def permitted {F : Type} (p : Privileges) (role : PgRole) (st : PgStmt F) : Bool :=
  match st with
  | .insert t _ => p role t .insert || p .publicRole t .insert
  | .update t _ _ => p role t .update || p .publicRole t .update
  | .delete t _ => p role t .delete || p .publicRole t .delete

variable {F : Type} [DecidableEq F]

/-- One statement of a role: refused without the privilege, else executed. -/
def stepAs (p : Privileges) (role : PgRole) (S : PgSchema) (db : PgDb F) (st : PgStmt F) :
    PgDb F :=
  if permitted p role st then step S db st else db

theorem stepAs_of_all {p : Privileges} {role : PgRole} (h : ∀ t x, p role t x = true)
    (S : PgSchema) (db : PgDb F) (st : PgStmt F) : stepAs p role S db st = step S db st := by
  unfold stepAs
  rw [if_pos]
  cases st <;> simp [permitted, h]

end AutomationPlatform
