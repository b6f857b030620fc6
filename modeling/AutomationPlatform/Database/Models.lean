import AutomationPlatform.Database.Columns
import AutomationPlatform.Library.Relational.Insert

/-!
# `app/models`: the ORM classes

Per class the mapped columns with their declared type, nullability and Python-side default, the
`unique=True` and primary keys, and the foreign keys. A mapped type says how an attribute is bound
into a statement and read from a row: `Enum(UserRoleEnum)` stores the name of the member, every
other type its value. `ormSchema` is what `Base.metadata.create_all` creates.
-/

namespace AutomationPlatform

open Python Relational ColumnName

/-- `UserRoleEnum(str, enum.Enum)`. -/
inductive UserRoleEnum where
  | admin
  | reviewer
  | operator
  | viewer
  deriving DecidableEq, Repr

/-- The name of the member. -/
def UserRoleEnum.name : UserRoleEnum → String
  | .admin => "ADMIN"
  | .reviewer => "REVIEWER"
  | .operator => "OPERATOR"
  | .viewer => "VIEWER"

/-- The value of the member. -/
def UserRoleEnum.value : UserRoleEnum → String
  | .admin => "admin"
  | .reviewer => "reviewer"
  | .operator => "operator"
  | .viewer => "viewer"

def UserRoleEnum.all : List UserRoleEnum := [.admin, .reviewer, .operator, .viewer]

/-- A mapped type: a plain SQL type, or `Enum` over `UserRoleEnum`. -/
inductive MappedType where
  | plain (t : ColType)
  | userRole
  deriving DecidableEq, Repr

/-- The SQL type `create_all` gives the column. -/
def MappedType.sqlType : MappedType → ColType
  | .plain t => t
  | .userRole => .enum (UserRoleEnum.all.map UserRoleEnum.name)

/-- The `default=` of a mapped column. -/
inductive PyDefault where
  | uuid4
  | utcNow
  | emptyDict
  | bool (b : Bool)
  | label (s : String)
  | role (r : UserRoleEnum)
  deriving DecidableEq, Repr

structure MappedColumn where
  name : ColumnName
  type : MappedType
  nullable : Bool
  default : Option PyDefault
  deriving DecidableEq, Repr

structure MappedTable where
  tablename : TableName
  columns : List MappedColumn
  keys : List (List ColumnName)
  foreignKeys : List (ForeignKey TableName ColumnName)
  deriving DecidableEq, Repr

inductive Model where
  | user
  | role
  | permission
  | rolePermissions
  | template
  | templateVersion
  | ingestedRow
  | suggestion
  | auditLog
  | ssoSession
  deriving DecidableEq, Repr

namespace Model

def primaryKey : MappedColumn := ⟨id, .plain .uuid, false, some .uuid4⟩

/-- `nullable=False`, no default. -/
def field (n : ColumnName) (t : ColType) : MappedColumn := ⟨n, .plain t, false, none⟩

def fieldDefault (n : ColumnName) (t : ColType) (d : PyDefault) : MappedColumn :=
  ⟨n, .plain t, false, some d⟩

/-- `nullable=True`. -/
def fieldOptional (n : ColumnName) (t : ColType) : MappedColumn := ⟨n, .plain t, true, none⟩

def mapped : Model → MappedTable
  | .user => {
      tablename := .users
      columns := [
        primaryKey,
        field email (.varchar 255),
        fieldOptional fullName (.varchar 200),
        fieldDefault isActive .boolean (.bool true),
        fieldOptional ssoProvider (.varchar 50),
        fieldOptional ssoSubject (.varchar 255),
        fieldOptional passwordHash (.varchar 255),
        ⟨primaryRole, .userRole, false, some (.role .viewer)⟩,
        fieldDefault createdAt .timestamptz .utcNow,
        fieldOptional lastLoginAt .timestamptz ]
      keys := [[id], [email]]
      foreignKeys := [] }
  | .role => {
      tablename := .roles
      columns := [
        primaryKey,
        field name (.varchar 100),
        fieldOptional description (.varchar 500) ]
      keys := [[id], [name]]
      foreignKeys := [] }
  | .permission => {
      tablename := .permissions
      columns := [
        primaryKey,
        field code (.varchar 100),
        fieldOptional description (.varchar 500) ]
      keys := [[id], [code]]
      foreignKeys := [] }
  | .rolePermissions => {
      tablename := .rolePermissions
      columns := [field roleId .uuid, field permissionId .uuid]
      keys := [[roleId, permissionId]]
      foreignKeys := [refId roleId .roles .cascade, refId permissionId .permissions .cascade] }
  | .template => {
      tablename := .templates
      columns := [
        primaryKey,
        field name (.varchar 200),
        fieldOptional description (.varchar 1000),
        fieldDefault createdAt .timestamptz .utcNow ]
      keys := [[id], [name]]
      foreignKeys := [] }
  | .templateVersion => {
      tablename := .templateVersions
      columns := [
        primaryKey,
        field templateId .uuid,
        field version .integer,
        fieldDefault status (.enum ["active", "draft", "archived"]) (.label "draft"),
        fieldDefault payload .jsonb .emptyDict,
        fieldDefault createdAt .timestamptz .utcNow ]
      keys := [[id]]
      foreignKeys := [refId templateId .templates .cascade] }
  | .ingestedRow => {
      -- `__table_args__` holds a comment on idempotency and no constraint
      tablename := .ingestedRows
      columns := [
        primaryKey,
        field sourceId (.varchar 100),
        field sourceRowHash (.varchar 64),
        fieldDefault payload .jsonb .emptyDict,
        fieldDefault ingestedAt .timestamptz .utcNow,
        fieldOptional ingestedByUserId .uuid ]
      keys := [[id]]
      foreignKeys := [refId ingestedByUserId .users .setNull] }
  | .suggestion => {
      tablename := .suggestions
      columns := [
        primaryKey,
        field ingestedRowId .uuid,
        field templateId .uuid,
        field confidence .double,
        fieldDefault state (.enum ["pending_review", "approved", "rejected"])
          (.label "pending_review"),
        fieldDefault payload .jsonb .emptyDict,
        fieldOptional reviewerId .uuid,
        fieldOptional reviewNotes (.varchar 2000),
        fieldDefault createdAt .timestamptz .utcNow,
        fieldOptional reviewedAt .timestamptz ]
      keys := [[id]]
      foreignKeys := [
        refId ingestedRowId .ingestedRows .cascade,
        refId templateId .templates .restrict,
        refId reviewerId .users .setNull ] }
  | .auditLog => {
      tablename := .auditLogs
      columns := [
        primaryKey,
        field resourceType (.varchar 100),
        field resourceId (.varchar 100),
        field action (.varchar 100),
        fieldOptional actorId .uuid,
        fieldDefault beforeState .jsonb .emptyDict,
        fieldDefault afterState .jsonb .emptyDict,
        fieldDefault occurredAt .timestamptz .utcNow ]
      keys := [[id]]
      foreignKeys := [refId actorId .users .setNull] }
  | .ssoSession => {
      tablename := .ssoSessions
      columns := [
        primaryKey,
        field userId .uuid,
        field sessionTokenHash (.varchar 128),
        fieldDefault issuedAt .timestamptz .utcNow,
        field expiresAt .timestamptz,
        fieldOptional revokedAt .timestamptz,
        fieldOptional userAgent (.varchar 500),
        fieldOptional ipAddress (.varchar 64) ]
      keys := [[id], [sessionTokenHash]]
      foreignKeys := [refId userId .users .cascade] }

def all : List Model := [.user, .role, .permission, .rolePermissions, .template, .templateVersion,
  .ingestedRow, .suggestion, .auditLog, .ssoSession]

end Model

/-- The table `create_all` makes of a class. Python-side defaults are not server defaults. -/
def MappedTable.toTable (m : MappedTable) : PgTable where
  columns := m.columns.map fun c => ⟨c.name, c.type.sqlType, c.nullable, false⟩
  keys := m.keys
  foreignKeys := m.foreignKeys
  frozen := false

/-- What `init_db` creates: `Base.metadata.create_all`. No class maps `user_roles`. -/
def ormSchema : PgSchema where
  tables := Model.all.map fun m => m.mapped.tablename
  table t :=
    match Model.all.find? fun m => m.mapped.tablename == t with
    | some m => m.mapped.toTable
    | none => ⟨[], [], [], false⟩

/-- The columns a class maps. -/
def Model.columnNames (m : Model) : List ColumnName := m.mapped.columns.map MappedColumn.name

end AutomationPlatform
