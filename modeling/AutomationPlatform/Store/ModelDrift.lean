import AutomationPlatform.Database.Migration
import AutomationPlatform.Database.Models
import Mathlib.Data.Rat.Defs

/-!
# Do the ORM models and the migrations describe the same store?

An entity is a value for every mapped attribute of one class. The INSERT the ORM emits for it names
every mapped column, and the row is read back through the class.

* `stored_of_matches`: a table that has the mapped columns, admits what they hold and adds no other
  constraint stores every entity;
* **`storedByBoth_iff`**: both migrations do so for the `role_permissions` junction and for roles
  whose name and description fit Alembic's shorter columns, and for no other entity. Alembic misses
  a column or demands one the ORM does not know in eight of the ten tables; the SQL file rejects
  every user, since its `CHECK` lists the values of `UserRoleEnum` and the ORM stores the names.
-/

namespace AutomationPlatform

open Python Relational

variable {F : Type}

/-! ## 1. Entities -/

/-- An attribute of an ORM object. -/
inductive Attr (F : Type) where
  | none
  | val (v : SqlValue F)
  | role (r : UserRoleEnum)
  deriving DecidableEq, Repr

structure Entity (F : Type) where
  model : Model
  attr : ColumnName → Attr F

/-- The attribute satisfies the declaration of its column. -/
def MappedColumn.holds (c : MappedColumn) : Attr F → Bool
  | .none => c.nullable
  | .val v =>
    match c.type with
    | .plain t => t.admits v
    | .userRole => false
  | .role _ => c.type == .userRole

def Entity.Satisfies (e : Entity F) : Prop :=
  ∀ c ∈ e.model.mapped.columns, c.holds (e.attr c.name) = true

/-- What an attribute is bound to in a statement: `Enum` over a class stores the member's name. -/
def Attr.bound : Attr F → Option (SqlValue F)
  | .none => Option.none
  | .val v => some v
  | .role r => some (.text r.name)

/-- What a stored value is read as, `none` where reading raises. -/
def MappedType.read : MappedType → Option (SqlValue F) → Option (Attr F)
  | _, Option.none => some .none
  | .plain _, some v => some (.val v)
  | .userRole, some (.text s) => (UserRoleEnum.all.find? fun r => r.name == s).map .role
  | .userRole, some _ => Option.none

/-- The columns the ORM's INSERT names, with their values. -/
def Entity.named (e : Entity F) : Named ColumnName (SqlValue F) :=
  e.model.columnNames.map fun n => (n, (e.attr n).bound)

/-- The row reads back as the entity. -/
def Entity.ReadsBack (e : Entity F) (r : PgRow F) : Prop :=
  ∀ c ∈ e.model.mapped.columns, c.type.read (r c.name) = some (e.attr c.name)

section

variable [DecidableEq F]

/-- **The schema stores the entity**: its INSERT is accepted and the new row reads back equal. -/
def Stored (S : PgSchema) (db : PgDb F) (drawn : ColumnName → SqlValue F) (e : Entity F) : Prop :=
  ∃ r, insertNamed S db e.model.mapped.tablename drawn e.named =
      some (Function.update db e.model.mapped.tablename (db e.model.mapped.tablename ++ [r])) ∧
    e.ReadsBack r

/-- The state holds the rows the entity refers to and none with its keys, and the defaults draw
    values their columns admit. -/
structure Ready (S : PgSchema) (db : PgDb F) (drawn : ColumnName → SqlValue F) (e : Entity F) :
    Prop where
  consistent : Consistent S db
  refs : ∀ fk ∈ e.model.mapped.foreignKeys,
    refersWithin db fk (fun c => (e.attr c).bound) = true
  fresh : ∀ cols ∈ e.model.mapped.keys, ∀ s ∈ db e.model.mapped.tablename,
    agreeOn cols s (fun c => (e.attr c).bound) = false
  defaults : ∀ c ∈ (S.table e.model.mapped.tablename).columns, c.hasDefault = true →
    c.admits (some (drawn c.name)) = true

end

/-! ## 2. The row an INSERT stores -/

theorem Attr.read_bound {c : MappedColumn} {a : Attr F} (h : c.holds a = true) :
    c.type.read a.bound = some a := by
  cases a with
  | none => cases hc : c.type <;> rfl
  | val v =>
      unfold MappedColumn.holds at h
      cases hc : c.type with
      | plain t => rfl
      | userRole => simp [hc] at h
  | role r =>
      have hc : c.type = .userRole := beq_iff_eq.mp h
      rw [hc]
      cases r <;> rfl

theorem lookup_named (e : Entity F) (n : ColumnName) :
    e.named.lookup n = if n ∈ e.model.columnNames then some (e.attr n).bound else none := by
  unfold Entity.named
  induction e.model.columnNames with
  | nil => rfl
  | cons m ms ih =>
      rw [List.map_cons, List.lookup_cons, ih]
      by_cases h : n = m
      · subst h
        simp
      · rw [beq_false_of_ne h]
        simp [h]

theorem complete_of_mem {e : Entity F} {n : ColumnName} (h : n ∈ e.model.columnNames)
    (t : PgTable) (drawn : ColumnName → SqlValue F) :
    t.complete drawn e.named n = (e.attr n).bound := by
  unfold Table.complete
  rw [lookup_named, if_pos h]

theorem complete_of_not_mem {e : Entity F} {n : ColumnName} (h : n ∉ e.model.columnNames)
    (t : PgTable) (drawn : ColumnName → SqlValue F) :
    t.complete drawn e.named n =
      if t.columns.any fun c => decide (c.name = n) && c.hasDefault then some (drawn n)
      else none := by
  unfold Table.complete
  rw [lookup_named, if_neg h]

theorem hasColumns_named (e : Entity F) (t : PgTable) :
    t.hasColumns e.named =
      e.model.columnNames.all fun n => t.columns.any fun c => decide (c.name = n) := by
  unfold Table.hasColumns Entity.named
  rw [List.all_map]
  rfl

/-- The table has the columns the class maps; the columns it adds have a default or may be `NULL`;
    its keys and references are the declared ones. -/
structure Matches (t : PgTable) (m : MappedTable) : Prop where
  distinct : (t.columns.map Column.name).Nodup
  columns : (m.columns.map MappedColumn.name).all fun n =>
    t.columns.any fun c => decide (c.name = n)
  added : ∀ c ∈ t.columns, c.name ∉ m.columns.map MappedColumn.name →
    c.hasDefault = true ∨ c.nullable = true
  keys : t.keys = m.keys
  foreignKeys : t.foreignKeys = m.foreignKeys
  keyColumns : ∀ cols ∈ m.keys, ∀ c ∈ cols, c ∈ m.columns.map MappedColumn.name
  refColumns : ∀ fk ∈ m.foreignKeys, fk.column ∈ m.columns.map MappedColumn.name

section

variable [DecidableEq F] {S : PgSchema} {db : PgDb F} {drawn : ColumnName → SqlValue F}
variable {e : Entity F}

/-- **A table that matches the class stores every entity it admits.** -/
theorem stored_of_matches (hready : Ready S db drawn e) (hsat : e.Satisfies)
    (ht : e.model.mapped.tablename ∈ S.tables)
    (hm : Matches (S.table e.model.mapped.tablename) e.model.mapped)
    (hadm : ∀ c ∈ (S.table e.model.mapped.tablename).columns, c.name ∈ e.model.columnNames →
      c.admits (e.attr c.name).bound = true) : Stored S db drawn e := by
  refine ⟨_, insertNamed_accepted hready.consistent ht ?_ ?_ ?_ ?_, fun c hc => ?_⟩
  · rw [hasColumns_named]
    exact hm.columns
  · refine List.all_eq_true.mpr fun c hc => ?_
    by_cases hn : c.name ∈ e.model.columnNames
    · rw [complete_of_mem hn]
      exact hadm c hc hn
    · rw [complete_of_not_mem hn]
      split
      · rename_i hdef
        obtain ⟨c', hc', h⟩ := List.any_eq_true.mp hdef
        rw [Bool.and_eq_true, decide_eq_true_eq] at h
        have hsame : c' = c := List.inj_on_of_nodup_map hm.distinct hc' hc h.1
        subst hsame
        exact hready.defaults c' hc h.2
      · rename_i hdef
        rcases hm.added c hc hn with hd | hnull
        · exact absurd (List.any_eq_true.mpr ⟨c, hc, by simp [hd]⟩) hdef
        · exact hnull
  · intro cols hcols s hs
    rw [hm.keys] at hcols
    rw [agreeOn_congr fun c hc => complete_of_mem (hm.keyColumns cols hcols c hc) _ _]
    exact hready.fresh cols hcols s hs
  · intro fk hfk
    rw [hm.foreignKeys] at hfk
    exact (refersWithin_congr (complete_of_mem (hm.refColumns fk hfk) _ _)).trans
      (hready.refs fk hfk)
  · rw [complete_of_mem (List.mem_map_of_mem hc)]
    exact Attr.read_bound (hsat c hc)

omit [DecidableEq F] in
/-- An attribute that satisfies its declaration is admitted by a column no narrower than it. -/
theorem admits_bound (mc : MappedColumn) {t : ColType} (ht : mc.type = .plain t) {a : Attr F}
    (h : mc.holds a = true) {c : Column ColumnName ColType}
    (hnull : mc.nullable = true → c.nullable = true)
    (hval : ∀ v, a = .val v → t.admits v = true → c.type.admits v = true) :
    c.admits a.bound = true := by
  cases a with
  | none => exact hnull h
  | val v =>
      unfold MappedColumn.holds at h
      rw [ht] at h
      exact hval v rfl h
  | role r =>
      have hu : mc.type = .userRole := beq_iff_eq.mp h
      rw [ht] at hu
      cases hu

theorem not_stored_of_missing
    (h : (e.model.columnNames.all fun n => (S.table e.model.mapped.tablename).columns.any fun c =>
      decide (c.name = n)) = false) : ¬ Stored S db drawn e := by
  rintro ⟨r, hins, -⟩
  rw [insertNamed_of_missing (by rw [hasColumns_named]; exact h)] at hins
  cases hins

theorem not_stored_of_inadmissible {c : Column ColumnName ColType}
    (hc : c ∈ (S.table e.model.mapped.tablename).columns) (hn : c.name ∈ e.model.columnNames)
    (h : c.admits (e.attr c.name).bound = false) : ¬ Stored S db drawn e := by
  rintro ⟨r, hins, -⟩
  rw [insertNamed_of_inadmissible hc (by rw [complete_of_mem hn]; exact h)] at hins
  cases hins

/-- A `NOT NULL` column without a default that the class does not map. -/
theorem not_stored_of_required {c : Column ColumnName ColType}
    (hc : c ∈ (S.table e.model.mapped.tablename).columns) (hn : c.name ∉ e.model.columnNames)
    (hnull : c.nullable = false)
    (hdef : ((S.table e.model.mapped.tablename).columns.any fun c' =>
      decide (c'.name = c.name) && c'.hasDefault) = false) : ¬ Stored S db drawn e := by
  rintro ⟨r, hins, -⟩
  have hnone : c.admits ((S.table e.model.mapped.tablename).complete drawn e.named c.name) =
      false := by
    rw [complete_of_not_mem hn, hdef]
    exact hnull
  rw [insertNamed_of_inadmissible hc hnone] at hins
  cases hins

end

/-! ## 3. The two migrations -/

/-- The texts of a role that fit the columns Alembic creates. -/
structure Entity.FitsAlembicRole (e : Entity F) : Prop where
  name : ∀ s, e.attr .name = .val (.text s) → s.length ≤ 50
  description : ∀ s, e.attr .description = .val (.text s) → s.length ≤ 255

section

variable [DecidableEq F] {db : PgDb F} {drawn : ColumnName → SqlValue F}
variable {attr : ColumnName → Attr F}

/-- The SQL file admits no user: its `CHECK` lists the values of `UserRoleEnum`. -/
theorem not_stored_sql_user (hsat : (⟨.user, attr⟩ : Entity F).Satisfies) :
    ¬ Stored sqlSchema db drawn ⟨.user, attr⟩ := by
  have hrole : MappedColumn.holds ⟨.primaryRole, .userRole, false, some (.role .viewer)⟩
      (attr .primaryRole) = true :=
    hsat _ (by decide : _ ∈ Model.user.mapped.columns)
  refine not_stored_of_inadmissible
    (c := defaulted .primaryRole (.varcharIn 20 ["admin", "reviewer", "operator", "viewer"]))
    (by decide : _ ∈ (sqlSchema.table .users).columns) (by decide : _ ∈ Model.user.columnNames) ?_
  show (defaulted .primaryRole _).admits (attr .primaryRole).bound = false
  cases ha : attr .primaryRole with
  | none => rw [ha] at hrole; cases hrole
  | val v => rw [ha] at hrole; cases hrole
  | role r =>
      -- the names of the members against their values
      have hnames : (UserRoleEnum.all.map UserRoleEnum.value).contains r.name = false := by
        cases r <;> decide
      show (decide (r.name.length ≤ 20) && _) = false
      exact (congrArg _ hnames).trans (Bool.and_false _)

/-- A schema whose `roles` has the mapped columns stores the roles whose texts fit them. -/
theorem stored_role {S : PgSchema} {n d : Nat}
    (ht : TableName.roles ∈ S.tables)
    (hm : Matches (S.table .roles) Model.role.mapped)
    (hcols : ∀ c ∈ (S.table .roles).columns, c.name ∈ Model.role.columnNames →
      c ∈ [defaulted .id .uuid, required .name (.varchar n), optional .description (.varchar d)])
    (hsat : (⟨.role, attr⟩ : Entity F).Satisfies) (hready : Ready S db drawn ⟨.role, attr⟩)
    (hname : ∀ s, attr .name = .val (.text s) → s.length ≤ n)
    (hdesc : ∀ s, attr .description = .val (.text s) → s.length ≤ d) :
    Stored S db drawn ⟨.role, attr⟩ := by
  refine stored_of_matches hready hsat ht hm fun c hc hn => ?_
  have hmem := hcols c hc hn
  simp only [List.mem_cons, List.not_mem_nil, or_false] at hmem
  rcases hmem with rfl | rfl | rfl
  · exact admits_bound Model.primaryKey rfl
      (hsat _ (by decide : _ ∈ Model.role.mapped.columns)) nofun fun _ _ h => h
  · refine admits_bound (Model.field .name (.varchar 100)) rfl
      (hsat _ (by decide : _ ∈ Model.role.mapped.columns)) nofun fun v hv h => ?_
    cases v with
    | text s => exact decide_eq_true (hname s hv)
    | _ => cases h
  · refine admits_bound (Model.fieldOptional .description (.varchar 500)) rfl
      (hsat _ (by decide : _ ∈ Model.role.mapped.columns)) (fun _ => rfl) fun v hv h => ?_
    cases v with
    | text s => exact decide_eq_true (hdesc s hv)
    | _ => cases h

theorem matches_sql_roles : Matches (sqlSchema.table .roles) Model.role.mapped where
  distinct := by decide
  columns := by decide
  added := by decide
  keys := rfl
  foreignKeys := rfl
  keyColumns := by decide
  refColumns := by decide

theorem matches_alembic_roles : Matches (alembicSchema.table .roles) Model.role.mapped where
  distinct := by decide
  columns := by decide
  added := by decide
  keys := rfl
  foreignKeys := rfl
  keyColumns := by decide
  refColumns := by decide

/-- Both migrations create the junction as the class declares it. -/
theorem matches_rolePermissions (m : Migration) :
    Matches (m.schema.table .rolePermissions) Model.rolePermissions.mapped := by
  cases m <;> exact ⟨by decide, by decide, by decide, rfl, rfl, by decide, by decide⟩

theorem stored_rolePermissions (m : Migration)
    (hsat : (⟨.rolePermissions, attr⟩ : Entity F).Satisfies)
    (hready : Ready m.schema db drawn ⟨.rolePermissions, attr⟩) :
    Stored m.schema db drawn ⟨.rolePermissions, attr⟩ := by
  have ht : TableName.rolePermissions ∈ m.schema.tables := by cases m <;> decide
  have hcolumns : (m.schema.table .rolePermissions).columns =
      [required .roleId .uuid, required .permissionId .uuid] := by cases m <;> rfl
  refine stored_of_matches hready hsat ht (matches_rolePermissions m) fun c hc _ => ?_
  have hmem : c ∈ [required .roleId .uuid, required .permissionId .uuid] := hcolumns ▸ hc
  simp only [List.mem_cons, List.not_mem_nil, or_false] at hmem
  rcases hmem with rfl | rfl
  · exact admits_bound (Model.field .roleId .uuid) rfl
      (hsat _ (by decide : _ ∈ Model.rolePermissions.mapped.columns)) nofun fun _ _ h => h
  · exact admits_bound (Model.field .permissionId .uuid) rfl
      (hsat _ (by decide : _ ∈ Model.rolePermissions.mapped.columns)) nofun fun _ _ h => h

/-- What a role stored by Alembic's `roles` satisfies. -/
theorem fits_of_stored_alembic (h : Stored alembicSchema db drawn ⟨.role, attr⟩) :
    (⟨.role, attr⟩ : Entity F).FitsAlembicRole := by
  refine ⟨fun s hs => ?_, fun s hs => ?_⟩
  · by_contra hlen
    refine not_stored_of_inadmissible (c := required .name (.varchar 50))
      (by decide : _ ∈ (alembicSchema.table .roles).columns)
      (by decide : _ ∈ Model.role.columnNames) ?_ h
    show (required .name (.varchar 50)).admits (attr .name).bound = false
    have hs' : attr .name = .val (.text s) := hs
    rw [hs']
    exact decide_eq_false hlen
  · by_contra hlen
    refine not_stored_of_inadmissible (c := optional .description (.varchar 255))
      (by decide : _ ∈ (alembicSchema.table .roles).columns)
      (by decide : _ ∈ Model.role.columnNames) ?_ h
    show (optional .description (.varchar 255)).admits (attr .description).bound = false
    have hs' : attr .description = .val (.text s) := hs
    rw [hs']
    exact decide_eq_false hlen

/-- Alembic stores no entity of the other classes: it misses a mapped column or demands a value for
    one the class does not map. -/
theorem not_stored_alembic {m : Model} (hm : m ≠ .role ∧ m ≠ .rolePermissions) :
    ¬ Stored alembicSchema db drawn ⟨m, attr⟩ := by
  cases m with
  | role => exact absurd rfl hm.1
  | rolePermissions => exact absurd rfl hm.2
  | permission =>
      exact not_stored_of_required (c := required .name (.varchar 100))
        (by decide : _ ∈ (alembicSchema.table .permissions).columns)
        (by decide : _ ∉ Model.permission.columnNames) rfl
        (by decide : ((alembicSchema.table .permissions).columns.any fun c' =>
          decide (c'.name = .name) && c'.hasDefault) = false)
  | template =>
      exact not_stored_of_required (c := required .key (.varchar 100))
        (by decide : _ ∈ (alembicSchema.table .templates).columns)
        (by decide : _ ∉ Model.template.columnNames) rfl
        (by decide : ((alembicSchema.table .templates).columns.any fun c' =>
          decide (c'.name = .key) && c'.hasDefault) = false)
  | user | templateVersion | ingestedRow | suggestion | auditLog | ssoSession =>
      exact not_stored_of_missing rfl

/-- **Which entities both migrations store**: junction rows, and roles whose name and description
    fit Alembic's columns. -/
theorem storedByBoth_iff {dbSql dbAlembic : PgDb F} (e : Entity F) (hsat : e.Satisfies)
    (hsql : Ready sqlSchema dbSql drawn e) (halembic : Ready alembicSchema dbAlembic drawn e) :
    Stored sqlSchema dbSql drawn e ∧ Stored alembicSchema dbAlembic drawn e ↔
      e.model = .rolePermissions ∨ e.model = .role ∧ e.FitsAlembicRole := by
  obtain ⟨m, attr⟩ := e
  refine ⟨fun ⟨hs, ha⟩ => ?_, fun h => ?_⟩
  · by_cases hr : m = .role
    · subst hr
      exact Or.inr ⟨rfl, fits_of_stored_alembic ha⟩
    · by_cases hj : m = .rolePermissions
      · exact Or.inl hj
      · exact absurd ha (not_stored_alembic ⟨hr, hj⟩)
  · rcases h with h | ⟨h, hfits⟩
    · have hm : m = .rolePermissions := h
      subst hm
      exact ⟨stored_rolePermissions .sql hsat hsql, stored_rolePermissions .alembic hsat halembic⟩
    · have hm : m = .role := h
      subst hm
      have hwide : ∀ n l, n ≤ l → ∀ s : String, s.length ≤ n → s.length ≤ l :=
        fun n l h s hs => Nat.le_trans hs h
      exact ⟨stored_role (n := 100) (d := 500) (by decide) matches_sql_roles (by decide) hsat hsql
          (fun s hs => hwide 50 100 (by omega) s (hfits.name s hs))
          (fun s hs => hwide 255 500 (by omega) s (hfits.description s hs)),
        stored_role (n := 50) (d := 255) (by decide) matches_alembic_roles (by decide) hsat
          halembic hfits.name hfits.description⟩

end

section Samples

/-- `Role(name="reviewer")`. -/
def sampleRole : Entity ℚ where
  model := .role
  attr
    | .id => .val (.uuid (.repeated 1))
    | .name => .val (.text "reviewer")
    | _ => .none

def sampleDefaults : ColumnName → SqlValue ℚ
  | .isSystem => .bool false
  | .createdAt | .updatedAt => .timestamp .epoch
  | _ => .uuid (.repeated 0)

theorem storedByBoth_sampleRole :
    Stored sqlSchema (fun _ => []) sampleDefaults sampleRole ∧
      Stored alembicSchema (fun _ => []) sampleDefaults sampleRole := by
  have hsat : sampleRole.Satisfies := by
    unfold Entity.Satisfies
    decide
  have hsql : Ready sqlSchema (fun _ => []) sampleDefaults sampleRole :=
    ⟨consistent_empty _, by decide, fun _ _ _ h => absurd h List.not_mem_nil, by decide⟩
  have halembic : Ready alembicSchema (fun _ => []) sampleDefaults sampleRole :=
    ⟨consistent_empty _, by decide, fun _ _ _ h => absurd h List.not_mem_nil, by decide⟩
  have hfits : sampleRole.FitsAlembicRole :=
    ⟨fun s hs => by cases hs; decide, fun s hs => by cases hs⟩
  exact (storedByBoth_iff sampleRole hsat hsql halembic).mpr (Or.inr ⟨rfl, hfits⟩)

/-- `User(email="a@example.com", primary_role=UserRoleEnum.VIEWER)`. -/
def sampleOrmUser : Entity ℚ where
  model := .user
  attr
    | .id => .val (.uuid (.repeated 1))
    | .email => .val (.text "a@example.com")
    | .isActive => .val (.bool true)
    | .primaryRole => .role .viewer
    | .createdAt => .val (.timestamp .epoch)
    | _ => .none

/-- A user the class allows, on new stores: neither migration takes it. -/
theorem not_stored_sampleOrmUser :
    sampleOrmUser.Satisfies ∧ ¬ Stored sqlSchema (fun _ => []) sampleDefaults sampleOrmUser ∧
      ¬ Stored alembicSchema (fun _ => []) sampleDefaults sampleOrmUser := by
  have hsat : sampleOrmUser.Satisfies := by
    unfold Entity.Satisfies
    decide
  exact ⟨hsat, not_stored_sql_user hsat, not_stored_alembic (by decide)⟩

end Samples

end AutomationPlatform
