import AutomationPlatform.Library.Relational.Delete
import AutomationPlatform.Python.Uuid
import AutomationPlatform.Python.Value
import Mathlib.Algebra.Ring.Int.Defs

/-!
# Tables, columns and column types

The names the two migrations and the ORM models use, the SQL types they give columns and the values
these types admit. A `CHECK (c IN (...))` constraint is part of the column's type; so is the label
set of a native enum. Indexes that are not unique are left out: no statement's outcome depends on
them.
-/

namespace AutomationPlatform

open Python Relational

inductive TableName where
  | users
  | permissions
  | roles
  | rolePermissions
  | userRoles
  | ssoSessions
  | templates
  | templateVersions
  | ingestedRows
  | suggestions
  | auditLogs
  deriving DecidableEq, Repr

inductive ColumnName where
  -- users
  | id | email | fullName | isActive | ssoProvider | ssoSubject | passwordHash | primaryRole
  | createdAt | lastLoginAt | username | displayName | hashedPassword | role | isSuperuser
  | updatedAt
  -- permissions, roles and their junctions
  | code | description | name | resource | action | metadata | permissions | isSystem
  | roleId | permissionId | userId
  -- sso_sessions
  | sessionTokenHash | issuedAt | expiresAt | revokedAt | userAgent | ipAddress
  | idpProvider | idpSubject | idToken | refreshToken | lastUsedAt
  -- templates and template_versions
  | key | createdBy | templateId | version | status | payload | rules | prompt | activatedAt
  | activatedBy
  -- ingested_rows
  | sourceId | sourceRowHash | ingestedAt | ingestedByUserId | rawPayload | cleanedPayload
  | templateVersionId | errorMessage | processedAt
  -- suggestions
  | ingestedRowId | confidence | state | reviewerId | reviewNotes | reviewedAt | outputPayload
  | source | reviewNote | appliedAt
  -- audit_logs
  | resourceType | resourceId | actorId | beforeState | afterState | occurredAt | timestamp
  | userEmail | requestMethod | requestPath | requestId
  deriving DecidableEq, Repr

/-- The column's name in the source, which is also the name of the attribute that maps it. -/
def ColumnName.attrName : ColumnName → String
  | .id => "id"
  | .email => "email"
  | .fullName => "full_name"
  | .isActive => "is_active"
  | .ssoProvider => "sso_provider"
  | .ssoSubject => "sso_subject"
  | .passwordHash => "password_hash"
  | .primaryRole => "primary_role"
  | .createdAt => "created_at"
  | .lastLoginAt => "last_login_at"
  | .username => "username"
  | .displayName => "display_name"
  | .hashedPassword => "hashed_password"
  | .role => "role"
  | .isSuperuser => "is_superuser"
  | .updatedAt => "updated_at"
  | .code => "code"
  | .description => "description"
  | .name => "name"
  | .resource => "resource"
  | .action => "action"
  | .metadata => "metadata"
  | .permissions => "permissions"
  | .isSystem => "is_system"
  | .roleId => "role_id"
  | .permissionId => "permission_id"
  | .userId => "user_id"
  | .sessionTokenHash => "session_token_hash"
  | .issuedAt => "issued_at"
  | .expiresAt => "expires_at"
  | .revokedAt => "revoked_at"
  | .userAgent => "user_agent"
  | .ipAddress => "ip_address"
  | .idpProvider => "idp_provider"
  | .idpSubject => "idp_subject"
  | .idToken => "id_token"
  | .refreshToken => "refresh_token"
  | .lastUsedAt => "last_used_at"
  | .key => "key"
  | .createdBy => "created_by"
  | .templateId => "template_id"
  | .version => "version"
  | .status => "status"
  | .payload => "payload"
  | .rules => "rules"
  | .prompt => "prompt"
  | .activatedAt => "activated_at"
  | .activatedBy => "activated_by"
  | .sourceId => "source_id"
  | .sourceRowHash => "source_row_hash"
  | .ingestedAt => "ingested_at"
  | .ingestedByUserId => "ingested_by_user_id"
  | .rawPayload => "raw_payload"
  | .cleanedPayload => "cleaned_payload"
  | .templateVersionId => "template_version_id"
  | .errorMessage => "error_message"
  | .processedAt => "processed_at"
  | .ingestedRowId => "ingested_row_id"
  | .confidence => "confidence"
  | .state => "state"
  | .reviewerId => "reviewer_id"
  | .reviewNotes => "review_notes"
  | .reviewedAt => "reviewed_at"
  | .outputPayload => "output_payload"
  | .source => "source"
  | .reviewNote => "review_note"
  | .appliedAt => "applied_at"
  | .resourceType => "resource_type"
  | .resourceId => "resource_id"
  | .actorId => "actor_id"
  | .beforeState => "before_state"
  | .afterState => "after_state"
  | .occurredAt => "occurred_at"
  | .timestamp => "timestamp"
  | .userEmail => "user_email"
  | .requestMethod => "request_method"
  | .requestPath => "request_path"
  | .requestId => "request_id"

/-- SQL column types, with the label list of a `CHECK (c IN (...))` or of a native enum. -/
inductive ColType where
  | uuid
  | varchar (n : Nat)
  | varcharIn (n : Nat) (labels : List String)
  | text
  | boolean
  | integer
  | double
  | timestamptz
  | jsonb
  | enum (labels : List String)
  deriving DecidableEq, Repr

/-- SQL values, over the type `F` of double precision numbers. -/
inductive SqlValue (F : Type) where
  | uuid (u : UUID)
  | text (s : String)
  | bool (b : Bool)
  | int (n : Int)
  | double (x : F)
  | timestamp (t : Timestamp)
  | json (v : Value F)
  deriving DecidableEq, Repr

/-- The value is one of the type. Texts with U+0000 and JSON numbers that are not finite are not
    told apart here: PostgreSQL has no such values, and `ColType.store` says where one is refused on
    its way from Python. -/
def ColType.admits {F : Type} : ColType → SqlValue F → Bool
  | .uuid, .uuid _ => true
  | .varchar n, .text s => s.length ≤ n
  | .varcharIn n labels, .text s => s.length ≤ n && labels.contains s
  | .text, .text _ => true
  | .boolean, .bool _ => true
  | .integer, .int n => -2 ^ 31 ≤ n && n < 2 ^ 31
  | .double, .double _ => true
  | .timestamptz, .timestamp _ => true
  | .jsonb, .json _ => true
  | .enum labels, .text s => labels.contains s
  | _, _ => false

instance {F : Type} : ColumnType ColType (SqlValue F) := ⟨ColType.admits⟩

/-- The types whose values are texts. -/
def ColType.isText : ColType → Bool
  | .varchar _ | .varcharIn _ _ | .text | .enum _ => true
  | _ => false

namespace ColType

variable {F : Type} {t : ColType} {v : SqlValue F}

theorem eq_uuid_of_admits (h : ColType.uuid.admits v = true) : ∃ u, v = .uuid u := by
  cases v with
  | uuid u => exact ⟨u, rfl⟩
  | _ => cases h

theorem eq_int_of_admits (h : ColType.integer.admits v = true) : ∃ n, v = .int n := by
  cases v with
  | int n => exact ⟨n, rfl⟩
  | _ => cases h

theorem eq_text_of_admits (ht : t.isText = true) (h : t.admits v = true) : ∃ s, v = .text s := by
  cases v with
  | text s => exact ⟨s, rfl⟩
  | _ => cases t <;> first | (cases h; done) | cases ht

end ColType

/-! ## Writing tables down -/

/-- `NOT NULL`, no default. -/
def required (n : ColumnName) (t : ColType) : Column ColumnName ColType := ⟨n, t, false, false⟩

/-- `NOT NULL DEFAULT ...`; a primary key column with a default too. -/
def defaulted (n : ColumnName) (t : ColType) : Column ColumnName ColType := ⟨n, t, false, true⟩

def optional (n : ColumnName) (t : ColType) : Column ColumnName ColType := ⟨n, t, true, false⟩

/-- `REFERENCES target(id) ON DELETE act`. -/
def refId (n : ColumnName) (target : TableName) (act : OnDelete) :
    ForeignKey TableName ColumnName := ⟨n, target, .id, act⟩

abbrev PgTable := Table TableName ColumnName ColType

abbrev PgSchema := Schema TableName ColumnName ColType

abbrev PgRow (F : Type) := Row ColumnName (SqlValue F)

abbrev PgDb (F : Type) := Db TableName ColumnName (SqlValue F)

abbrev PgStmt (F : Type) := Stmt TableName ColumnName (SqlValue F)

/-- The longest chain of `ON DELETE CASCADE` keys that starts at the table, in either migration. -/
def cascadeRank : TableName → Nat
  | .rolePermissions | .userRoles | .ssoSessions | .templateVersions | .suggestions => 1
  | _ => 0

/-- The row with the listed values, `NULL` elsewhere. -/
def rowOf {F : Type} (vs : List (ColumnName × SqlValue F)) : PgRow F := fun c => vs.lookup c

end AutomationPlatform
