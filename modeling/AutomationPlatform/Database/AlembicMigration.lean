import AutomationPlatform.Database.Privileges

/-!
# `alembic/versions/001_initial.py`

The ten tables `upgrade()` creates (there is no `user_roles`) and the privileges it leaves. Nothing
here raises on an update: `audit_logs` is to be protected by

    REVOKE UPDATE, DELETE ON audit_logs FROM PUBLIC
    GRANT INSERT ON audit_logs TO audit_writer

which say what `PUBLIC` and `audit_writer` may do. The role that runs the migration owns the tables.
-/

namespace AutomationPlatform

open Relational ColumnName

namespace AlembicMigration

def users : PgTable where
  columns := [
    defaulted id .uuid,
    required email (.varchar 255),
    optional username (.varchar 100),
    optional ssoProvider (.varchar 50),
    optional ssoSubject (.varchar 255),
    optional displayName (.varchar 255),
    optional hashedPassword (.varchar 255),
    defaulted role (.varchar 50),
    defaulted isActive .boolean,
    defaulted isSuperuser .boolean,
    optional lastLoginAt .timestamptz,
    defaulted createdAt .timestamptz,
    defaulted updatedAt .timestamptz ]
  keys := [[id], [email], [username], [ssoProvider, ssoSubject]]
  foreignKeys := []
  frozen := false

def roles : PgTable where
  columns := [
    defaulted id .uuid,
    required name (.varchar 50),
    optional description (.varchar 255),
    optional permissions .jsonb,
    defaulted isSystem .boolean,
    defaulted createdAt .timestamptz,
    defaulted updatedAt .timestamptz ]
  keys := [[id], [name]]
  foreignKeys := []
  frozen := false

def permissions : PgTable where
  columns := [
    defaulted id .uuid,
    required code (.varchar 100),
    required name (.varchar 100),
    optional description (.varchar 255),
    required resource (.varchar 50),
    required action (.varchar 50),
    optional metadata .jsonb ]
  keys := [[id], [code]]
  foreignKeys := []
  frozen := false

def rolePermissions : PgTable where
  columns := [required roleId .uuid, required permissionId .uuid]
  keys := [[roleId, permissionId]]
  foreignKeys := [refId roleId .roles .cascade, refId permissionId .permissions .cascade]
  frozen := false

def templates : PgTable where
  columns := [
    defaulted id .uuid,
    required key (.varchar 100),
    required name (.varchar 255),
    optional description .text,
    optional createdBy .uuid,
    defaulted createdAt .timestamptz,
    defaulted updatedAt .timestamptz ]
  keys := [[id], [key]]
  foreignKeys := [refId createdBy .users .setNull]
  frozen := false

def templateVersions : PgTable where
  columns := [
    defaulted id .uuid,
    required templateId .uuid,
    required version .integer,
    defaulted status (.varchar 20),
    optional rules .jsonb,
    optional prompt .text,
    optional activatedAt .timestamptz,
    optional activatedBy .uuid,
    defaulted createdAt .timestamptz,
    defaulted updatedAt .timestamptz ]
  keys := [[id], [templateId, version]]
  foreignKeys := [refId templateId .templates .cascade, refId activatedBy .users .setNull]
  frozen := false

/-- With the constraint `uq_ingested_source_hash`. -/
def ingestedRows : PgTable where
  columns := [
    defaulted id .uuid,
    required sourceId (.varchar 255),
    required sourceRowHash (.varchar 64),
    required rawPayload .jsonb,
    optional cleanedPayload .jsonb,
    optional templateId .uuid,
    optional templateVersionId .uuid,
    defaulted status (.varchar 20),
    optional errorMessage .text,
    defaulted ingestedAt .timestamptz,
    optional processedAt .timestamptz,
    defaulted createdAt .timestamptz,
    defaulted updatedAt .timestamptz ]
  keys := [[id], [sourceId, sourceRowHash]]
  foreignKeys := [
    refId templateId .templates .setNull,
    refId templateVersionId .templateVersions .setNull ]
  frozen := false

def suggestions : PgTable where
  columns := [
    defaulted id .uuid,
    required ingestedRowId .uuid,
    optional templateVersionId .uuid,
    required outputPayload .jsonb,
    defaulted confidence .double,
    defaulted source (.varchar 20),
    defaulted status (.varchar 20),
    optional reviewerId .uuid,
    optional reviewedAt .timestamptz,
    optional reviewNote .text,
    optional appliedAt .timestamptz,
    defaulted createdAt .timestamptz,
    defaulted updatedAt .timestamptz ]
  keys := [[id]]
  foreignKeys := [
    refId ingestedRowId .ingestedRows .cascade,
    refId templateVersionId .templateVersions .setNull,
    refId reviewerId .users .setNull ]
  frozen := false

def auditLogs : PgTable where
  columns := [
    defaulted id .uuid,
    defaulted timestamp .timestamptz,
    optional userId .uuid,
    optional userEmail (.varchar 255),
    required action (.varchar 100),
    required resourceType (.varchar 50),
    optional resourceId (.varchar 255),
    defaulted status (.varchar 20),
    optional ipAddress (.varchar 45),
    optional userAgent .text,
    optional requestMethod (.varchar 10),
    optional requestPath (.varchar 500),
    optional beforeState .jsonb,
    optional afterState .jsonb,
    optional requestId .uuid,
    optional metadata .jsonb ]
  keys := [[id]]
  foreignKeys := [refId userId .users .setNull]
  frozen := false

def ssoSessions : PgTable where
  columns := [
    defaulted id .uuid,
    required userId .uuid,
    required idpProvider (.varchar 50),
    required idpSubject (.varchar 255),
    optional idToken .text,
    optional refreshToken .text,
    required expiresAt .timestamptz,
    defaulted lastUsedAt .timestamptz,
    defaulted createdAt .timestamptz ]
  keys := [[id]]
  foreignKeys := [refId userId .users .cascade]
  frozen := false

end AlembicMigration

def alembicSchema : PgSchema where
  tables := [.users, .roles, .permissions, .rolePermissions, .templates, .templateVersions,
    .ingestedRows, .suggestions, .auditLogs, .ssoSessions]
  table
    | .users => AlembicMigration.users
    | .roles => AlembicMigration.roles
    | .permissions => AlembicMigration.permissions
    | .rolePermissions => AlembicMigration.rolePermissions
    | .templates => AlembicMigration.templates
    | .templateVersions => AlembicMigration.templateVersions
    | .ingestedRows => AlembicMigration.ingestedRows
    | .suggestions => AlembicMigration.suggestions
    | .auditLogs => AlembicMigration.auditLogs
    | .ssoSessions => AlembicMigration.ssoSessions
    | .userRoles => ⟨[], [], [], false⟩

theorem alembicSchema_wellFormed : alembicSchema.WellFormed cascadeRank where
  rank_le := by decide
  target := by decide
  acts := by decide
  cascade := by decide
  nullable := by decide
  key := by decide

/-! ## Grants -/

def alembicGrants : List GrantStmt := [
  .revoke [.update, .delete] .auditLogs .publicRole,
  .grant [.insert] .auditLogs .auditWriter ]

def alembicPrivileges : Privileges := alembicGrants.foldl GrantStmt.apply createdPrivileges

/-- The owner keeps every privilege: no grant or revoke of the migration names it. -/
theorem alembicPrivileges_owner (t : TableName) (x : Privilege) :
    alembicPrivileges .owner t x = true := by
  cases t <;> cases x <;> decide

end AutomationPlatform
