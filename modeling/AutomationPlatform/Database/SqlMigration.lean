import AutomationPlatform.Database.Columns

/-!
# `db/migrations/001_initial.sql`

The eleven tables as the SQL file creates them. `audit_logs` alone has a row trigger:
`audit_logs_no_update` runs `audit_logs_no_mutate()`, which raises, before every `UPDATE` or
`DELETE` of a row.
-/

namespace AutomationPlatform

open Relational ColumnName

namespace SqlMigration

def users : PgTable where
  columns := [
    defaulted id .uuid,
    required email (.varchar 255),
    optional fullName (.varchar 200),
    defaulted isActive .boolean,
    optional ssoProvider (.varchar 50),
    optional ssoSubject (.varchar 255),
    optional passwordHash (.varchar 255),
    defaulted primaryRole (.varcharIn 20 ["admin", "reviewer", "operator", "viewer"]),
    defaulted createdAt .timestamptz,
    optional lastLoginAt .timestamptz ]
  keys := [[id], [email]]
  foreignKeys := []
  frozen := false

def permissions : PgTable where
  columns := [
    defaulted id .uuid,
    required code (.varchar 100),
    optional description (.varchar 500) ]
  keys := [[id], [code]]
  foreignKeys := []
  frozen := false

def roles : PgTable where
  columns := [
    defaulted id .uuid,
    required name (.varchar 100),
    optional description (.varchar 500) ]
  keys := [[id], [name]]
  foreignKeys := []
  frozen := false

def rolePermissions : PgTable where
  columns := [required roleId .uuid, required permissionId .uuid]
  keys := [[roleId, permissionId]]
  foreignKeys := [refId roleId .roles .cascade, refId permissionId .permissions .cascade]
  frozen := false

def userRoles : PgTable where
  columns := [required userId .uuid, required roleId .uuid]
  keys := [[userId, roleId]]
  foreignKeys := [refId userId .users .cascade, refId roleId .roles .cascade]
  frozen := false

def ssoSessions : PgTable where
  columns := [
    defaulted id .uuid,
    required userId .uuid,
    required sessionTokenHash (.varchar 128),
    defaulted issuedAt .timestamptz,
    required expiresAt .timestamptz,
    optional revokedAt .timestamptz,
    optional userAgent (.varchar 500),
    optional ipAddress (.varchar 64) ]
  keys := [[id], [sessionTokenHash]]
  foreignKeys := [refId userId .users .cascade]
  frozen := false

def templates : PgTable where
  columns := [
    defaulted id .uuid,
    required name (.varchar 200),
    optional description (.varchar 1000),
    defaulted createdAt .timestamptz ]
  keys := [[id], [name]]
  foreignKeys := []
  frozen := false

def templateVersions : PgTable where
  columns := [
    defaulted id .uuid,
    required templateId .uuid,
    required version .integer,
    defaulted status (.varcharIn 20 ["active", "draft", "archived"]),
    defaulted payload .jsonb,
    defaulted createdAt .timestamptz ]
  keys := [[id]]
  foreignKeys := [refId templateId .templates .cascade]
  frozen := false

/-- With the unique index `uq_ingested_rows_source_hash`. -/
def ingestedRows : PgTable where
  columns := [
    defaulted id .uuid,
    required sourceId (.varchar 100),
    required sourceRowHash (.varchar 64),
    defaulted payload .jsonb,
    defaulted ingestedAt .timestamptz,
    optional ingestedByUserId .uuid ]
  keys := [[id], [sourceId, sourceRowHash]]
  foreignKeys := [refId ingestedByUserId .users .setNull]
  frozen := false

def suggestions : PgTable where
  columns := [
    defaulted id .uuid,
    required ingestedRowId .uuid,
    required templateId .uuid,
    required confidence .double,
    defaulted state (.varcharIn 20 ["pending_review", "approved", "rejected"]),
    defaulted payload .jsonb,
    optional reviewerId .uuid,
    optional reviewNotes (.varchar 2000),
    defaulted createdAt .timestamptz,
    optional reviewedAt .timestamptz ]
  keys := [[id]]
  foreignKeys := [
    refId ingestedRowId .ingestedRows .cascade,
    refId templateId .templates .restrict,
    refId reviewerId .users .setNull ]
  frozen := false

def auditLogs : PgTable where
  columns := [
    defaulted id .uuid,
    required resourceType (.varchar 100),
    required resourceId (.varchar 100),
    required action (.varchar 100),
    optional actorId .uuid,
    defaulted beforeState .jsonb,
    defaulted afterState .jsonb,
    defaulted occurredAt .timestamptz ]
  keys := [[id]]
  foreignKeys := [refId actorId .users .setNull]
  frozen := true

end SqlMigration

def sqlSchema : PgSchema where
  tables := [.users, .permissions, .roles, .rolePermissions, .userRoles, .ssoSessions,
    .templates, .templateVersions, .ingestedRows, .suggestions, .auditLogs]
  table
    | .users => SqlMigration.users
    | .permissions => SqlMigration.permissions
    | .roles => SqlMigration.roles
    | .rolePermissions => SqlMigration.rolePermissions
    | .userRoles => SqlMigration.userRoles
    | .ssoSessions => SqlMigration.ssoSessions
    | .templates => SqlMigration.templates
    | .templateVersions => SqlMigration.templateVersions
    | .ingestedRows => SqlMigration.ingestedRows
    | .suggestions => SqlMigration.suggestions
    | .auditLogs => SqlMigration.auditLogs

theorem sqlSchema_complete (t : TableName) : t ∈ sqlSchema.tables := by
  cases t <;> decide

theorem sqlSchema_wellFormed : sqlSchema.WellFormed cascadeRank where
  rank_le := by decide
  target := by decide
  acts := by decide
  cascade := by decide
  nullable := by decide
  key := by decide

end AutomationPlatform
