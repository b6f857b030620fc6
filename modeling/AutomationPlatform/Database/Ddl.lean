import AutomationPlatform.Database.SchemaDef
import AutomationPlatform.Library.Relational.Ddl
import Mathlib.Data.Finset.Lattice.Lemmas

/-!
# The scripts that define the store

`db/migrations/001_initial.sql`, `upgrade()` and `downgrade()` of the Alembic migration, and
`Base.metadata.create_all`, statement by statement, with every index under its name. The SQL file
says `IF NOT EXISTS` throughout; Alembic's `create_table` and `create_index` do not; `create_all`
looks whether a table is there and creates its indexes with it.

What they create besides tables and indexes (`ServerObject`) is kept beside the catalog. Grants are
not part of the store.
-/

namespace AutomationPlatform

open Relational ColumnName

inductive IndexName where
  -- the SQL file
  | ix_users_sso_subject | ix_sso_sessions_user | ix_template_versions_template
  | ix_template_versions_status | ix_ingested_rows_source | ix_ingested_rows_hash
  | uq_ingested_rows_source_hash | ix_suggestions_state | ix_suggestions_row
  | ix_audit_resource | ix_audit_actor_time | ix_audit_occurred
  -- Alembic
  | ix_users_email | ix_users_sso_provider_subject | ix_roles_name | ix_permissions_code
  | ix_permissions_resource | ix_templates_key | ix_template_versions_template_status
  | ix_ingested_status | ix_ingested_template_status | ix_suggestions_status_confidence
  | ix_audit_timestamp | ix_audit_user_timestamp | ix_audit_request_id | ix_sso_sessions_idp
  -- the ORM classes
  | ix_sso_sessions_user_id | ix_sso_sessions_session_token_hash | ix_templates_name
  | ix_template_versions_template_id | ix_ingested_rows_source_id
  | ix_ingested_rows_source_row_hash | ix_suggestions_ingested_row_id
  | ix_suggestions_template_id | ix_audit_logs_resource_type | ix_audit_logs_resource_id
  | ix_audit_logs_actor_id | ix_audit_logs_occurred_at
  deriving DecidableEq, Repr

open IndexName

abbrev PgIndex := Index TableName ColumnName IndexName

abbrev PgCatalog := Catalog TableName ColumnName ColType IndexName

abbrev PgDdl := Ddl TableName ColumnName ColType IndexName

/-- What is neither a table of the application nor an index. -/
inductive ServerObject where
  -- extensions
  | uuidOssp | pgcrypto
  -- a role of the server
  | auditWriter
  -- the table in which Alembic notes the revision
  | alembicVersion
  -- the function the audit trigger executes
  | auditLogsNoMutate
  -- enum types
  | userRoleEnum | templateVersionStatus | suggestionState
  deriving DecidableEq, Repr

/-! ## `db/migrations/001_initial.sql` -/

/-- `CREATE TABLE IF NOT EXISTS`. -/
def tableIfMissing (t : TableName) (d : PgTable) : PgDdl := .createTable true t d

/-- `CREATE INDEX IF NOT EXISTS`. -/
def indexIfMissing (n : IndexName) (t : TableName) (cols : List ColumnName) : PgDdl :=
  .createIndex true ⟨n, t, cols, false⟩

def sqlScript : List PgDdl := [
  tableIfMissing .users SqlMigration.users,
  indexIfMissing ix_users_sso_subject .users [ssoSubject],
  tableIfMissing .permissions SqlMigration.permissions,
  tableIfMissing .roles SqlMigration.roles,
  tableIfMissing .rolePermissions SqlMigration.rolePermissions,
  tableIfMissing .userRoles SqlMigration.userRoles,
  tableIfMissing .ssoSessions SqlMigration.ssoSessions,
  indexIfMissing ix_sso_sessions_user .ssoSessions [userId],
  tableIfMissing .templates SqlMigration.templates,
  tableIfMissing .templateVersions SqlMigration.templateVersions,
  indexIfMissing ix_template_versions_template .templateVersions [templateId],
  indexIfMissing ix_template_versions_status .templateVersions [status],
  -- the key on the source and the hash is an index of its own
  tableIfMissing .ingestedRows { SqlMigration.ingestedRows with keys := [[id]] },
  indexIfMissing ix_ingested_rows_source .ingestedRows [sourceId],
  indexIfMissing ix_ingested_rows_hash .ingestedRows [sourceRowHash],
  .createIndex true
    ⟨uq_ingested_rows_source_hash, .ingestedRows, [sourceId, sourceRowHash], true⟩,
  tableIfMissing .suggestions SqlMigration.suggestions,
  indexIfMissing ix_suggestions_state .suggestions [state],
  indexIfMissing ix_suggestions_row .suggestions [ingestedRowId],
  tableIfMissing .auditLogs SqlMigration.auditLogs,
  indexIfMissing ix_audit_resource .auditLogs [resourceType, resourceId],
  indexIfMissing ix_audit_actor_time .auditLogs [actorId, occurredAt],
  indexIfMissing ix_audit_occurred .auditLogs [occurredAt],
  .dropTrigger .auditLogs,
  .createTrigger .auditLogs ]

/-- `CREATE OR REPLACE FUNCTION`, before the trigger. -/
def sqlObjects : Finset ServerObject := {.auditLogsNoMutate}

/-! ## `alembic/versions/001_initial.py` -/

/-- `op.create_index`. -/
def opIndex (n : IndexName) (t : TableName) (cols : List ColumnName) (unique : Bool) : PgDdl :=
  .createIndex false ⟨n, t, cols, unique⟩

/-- The tables of `upgrade()`. The keys of a table are those `unique=True` and `UniqueConstraint`
    declare. -/
def upgradeScript : List PgDdl := [
  .createTable false .users { AlembicMigration.users with keys := [[id], [email], [username]] },
  opIndex ix_users_email .users [email] true,
  opIndex ix_users_sso_provider_subject .users [ssoProvider, ssoSubject] true,
  .createTable false .roles AlembicMigration.roles,
  opIndex ix_roles_name .roles [name] true,
  .createTable false .permissions AlembicMigration.permissions,
  opIndex ix_permissions_code .permissions [code] true,
  opIndex ix_permissions_resource .permissions [resource] false,
  .createTable false .rolePermissions AlembicMigration.rolePermissions,
  .createTable false .templates AlembicMigration.templates,
  opIndex ix_templates_key .templates [key] true,
  .createTable false .templateVersions AlembicMigration.templateVersions,
  opIndex ix_template_versions_template_status .templateVersions [templateId, status] false,
  .createTable false .ingestedRows AlembicMigration.ingestedRows,
  opIndex ix_ingested_status .ingestedRows [status] false,
  opIndex ix_ingested_template_status .ingestedRows [templateId, status] false,
  .createTable false .suggestions AlembicMigration.suggestions,
  opIndex ix_suggestions_status_confidence .suggestions [status, confidence] false,
  .createTable false .auditLogs AlembicMigration.auditLogs,
  opIndex ix_audit_timestamp .auditLogs [timestamp] false,
  opIndex ix_audit_user_timestamp .auditLogs [userId, timestamp] false,
  opIndex ix_audit_resource .auditLogs [resourceType, resourceId] false,
  opIndex ix_audit_request_id .auditLogs [requestId] false,
  .createTable false .ssoSessions AlembicMigration.ssoSessions,
  opIndex ix_sso_sessions_user .ssoSessions [userId] false,
  opIndex ix_sso_sessions_idp .ssoSessions [idpProvider, idpSubject] false ]

/-- What else `upgrade()` creates where it is missing: `CREATE EXTENSION IF NOT EXISTS` twice,
    before the tables, and after them the `DO` block that creates a role. -/
def upgradeObjects : Finset ServerObject := {.uuidOssp, .pgcrypto, .auditWriter}

/-- `downgrade()`, after its `REVOKE`. -/
def downgradeScript : List PgDdl :=
  [.ssoSessions, .auditLogs, .suggestions, .ingestedRows, .templateVersions, .templates,
    .rolePermissions, .permissions, .roles, .users].map .dropTable

/-! ## `Base.metadata.create_all` -/

/-- The indexes of a class: `index=True` of its columns, then its `__table_args__`. A column with
    `unique=True` as well gets a unique index and no constraint. -/
def Model.indexes : Model → List PgIndex
  | .user => [
      ⟨ix_users_email, .users, [email], true⟩,
      ⟨ix_users_sso_subject, .users, [ssoSubject], false⟩ ]
  | .role => [⟨ix_roles_name, .roles, [name], true⟩]
  | .permission => [⟨ix_permissions_code, .permissions, [code], true⟩]
  | .rolePermissions => []
  | .template => [⟨ix_templates_name, .templates, [name], true⟩]
  | .templateVersion => [
      ⟨ix_template_versions_template_id, .templateVersions, [templateId], false⟩,
      ⟨ix_template_versions_status, .templateVersions, [status], false⟩ ]
  | .ingestedRow => [
      ⟨ix_ingested_rows_source_id, .ingestedRows, [sourceId], false⟩,
      ⟨ix_ingested_rows_source_row_hash, .ingestedRows, [sourceRowHash], false⟩ ]
  | .suggestion => [
      ⟨ix_suggestions_ingested_row_id, .suggestions, [ingestedRowId], false⟩,
      ⟨ix_suggestions_template_id, .suggestions, [templateId], false⟩,
      ⟨ix_suggestions_state, .suggestions, [state], false⟩ ]
  | .auditLog => [
      ⟨ix_audit_logs_resource_type, .auditLogs, [resourceType], false⟩,
      ⟨ix_audit_logs_resource_id, .auditLogs, [resourceId], false⟩,
      ⟨ix_audit_logs_actor_id, .auditLogs, [actorId], false⟩,
      ⟨ix_audit_logs_occurred_at, .auditLogs, [occurredAt], false⟩,
      ⟨ix_audit_resource, .auditLogs, [resourceType, resourceId], false⟩,
      ⟨ix_audit_actor_time, .auditLogs, [actorId, occurredAt], false⟩ ]
  | .ssoSession => [
      ⟨ix_sso_sessions_user_id, .ssoSessions, [userId], false⟩,
      ⟨ix_sso_sessions_session_token_hash, .ssoSessions, [sessionTokenHash], true⟩ ]

/-- The table of a class, its primary key as the one declared key, and its indexes. -/
def Model.createScript (m : Model) : List PgDdl :=
  .createTable false m.mapped.tablename { m.mapped.toTable with keys := m.mapped.keys.take 1 } ::
    m.indexes.map (.createIndex false)

/-- `metadata.sorted_tables`: a table comes after those it refers to. -/
def Model.sorted : List Model := [.permission, .role, .template, .user, .auditLog, .ingestedRow,
  .rolePermissions, .ssoSession, .templateVersion, .suggestion]

/-- `create_all(checkfirst=True)`: the scripts of the tables that are not there. `init_db` imports
    the base class alone; its metadata hold the tables of the classes its caller imported, here all.
    -/
def createAllScript (c : PgCatalog) : List PgDdl :=
  (Model.sorted.filter fun m => decide (m.mapped.tablename ∉ c.names)).flatMap Model.createScript

/-- The enum types, created where they are missing, also when no table is. -/
def createAllObjects : Finset ServerObject :=
  {.userRoleEnum, .templateVersionStatus, .suggestionState}

end AutomationPlatform
