import AutomationPlatform.Database.SchemaDef
import AutomationPlatform.Orchestrator.Templates
import Mathlib.Data.Rat.Defs

/-!
# The active version of a stored template

`latest_active_version` on the version rows of a template, in any order, as each of the three
definitions of `template_versions` stores them.

* `mem_versionRows_iff`: in a reachable state every version row of the template is read;
* **`wellDefined_iff`**: the result is well defined exactly when one active row of the template at
  most has the highest version among the active ones;
* `topActive_unique_alembic`: the unique constraint of the Alembic migration guarantees that.
-/

namespace AutomationPlatform

open Python Relational FirstMax

variable {F : Type}

def SchemaDef.templateVersions (d : SchemaDef) : PgTable := d.schema.table .templateVersions

/-! ## 1. A stored row as a dict -/

theorem versionColumns_nodup (d : SchemaDef) :
    (d.templateVersions.columns.map fun c => c.name.attrName).Nodup := by
  cases d <;> decide +kernel

/-- A stored value inside a dict. `Value` has neither UUIDs nor instants: their texts stand for them
    here, as `latest_active_version` looks at no such value. -/
def SqlValue.asValue : Option (SqlValue F) → Value F
  | none => .none
  | some (.uuid u) => .str u.text
  | some (.text s) => .str s
  | some (.bool b) => .bool b
  | some (.int n) => .int n
  | some (.double x) => .float x
  | some (.timestamp t) => .str t.iso
  | some (.json v) => v

/-- The dict of a stored row: each column under its name. -/
def SchemaDef.versionDict (d : SchemaDef) (r : PgRow F) : Record F :=
  ⟨d.templateVersions.columns.map fun c => (c.name.attrName, SqlValue.asValue (r c.name)), by
    rw [List.map_map]
    exact versionColumns_nodup d⟩

/-- Columns all three definitions declare, with their types. -/
theorem version_columns (d : SchemaDef) : ∀ n ∈ [ColumnName.id, .version, .status],
    ∃ c ∈ d.templateVersions.columns, c.name = n ∧ c.nullable = false ∧
      (n = .id → c.type = .uuid) ∧ (n = .version → c.type = .integer) ∧
      (n = .status → c.type.isText = true) := by
  cases d <;> decide

theorem version_keys (d : SchemaDef) : [.id] ∈ d.templateVersions.keys := by
  cases d <;> decide

theorem version_mem_tables (d : SchemaDef) : TableName.templateVersions ∈ d.schema.tables := by
  cases d <;> decide

theorem get?_versionDict (d : SchemaDef) (r : PgRow F) {n : ColumnName}
    (hn : n ∈ [ColumnName.id, .version, .status]) :
    (d.versionDict r).get? n.attrName = some (SqlValue.asValue (r n)) := by
  obtain ⟨c, hc, rfl, -⟩ := version_columns d n hn
  exact Dict.get?_eq_some_iff.mpr (List.mem_map_of_mem (f := fun c : Column ColumnName ColType =>
    (c.name.attrName, SqlValue.asValue (r c.name))) hc)

/-- What an admitted row holds in these columns. -/
structure TypedVersion (r : PgRow F) : Prop where
  id : ∃ u, r .id = some (.uuid u)
  version : ∃ n, r .version = some (.int n)
  status : ∃ s, r .status = some (.text s)

/-- An admitted row has a value of the column's type there. -/
theorem version_value {d : SchemaDef} {r : PgRow F} (h : d.templateVersions.admitsRow r = true)
    {n : ColumnName} (hn : n ∈ [ColumnName.id, .version, .status]) :
    ∃ v, r n = some v ∧ ∃ ty : ColType, ColumnType.admits ty v = true ∧ (n = .id → ty = .uuid) ∧
      (n = .version → ty = .integer) ∧ (n = .status → ty.isText = true) := by
  obtain ⟨c, hc, rfl, hnull, htype⟩ := version_columns d n hn
  obtain ⟨v, hv, hadm⟩ := Table.exists_of_admitsRow h hc hnull
  exact ⟨v, hv, c.type, hadm, htype⟩

theorem typedVersion_of_admitsRow {d : SchemaDef} {r : PgRow F}
    (h : d.templateVersions.admitsRow r = true) : TypedVersion r where
  id := by
    obtain ⟨v, hv, ty, hadm, hid, -⟩ := version_value h (n := .id) (by decide)
    rw [hid rfl] at hadm
    obtain ⟨u, rfl⟩ := ColType.eq_uuid_of_admits hadm
    exact ⟨u, hv⟩
  version := by
    obtain ⟨v, hv, ty, hadm, -, hversion, -⟩ := version_value h (n := .version) (by decide)
    rw [hversion rfl] at hadm
    obtain ⟨n, rfl⟩ := ColType.eq_int_of_admits hadm
    exact ⟨n, hv⟩
  status := by
    obtain ⟨v, hv, ty, hadm, -, -, hstatus⟩ := version_value h (n := .status) (by decide)
    obtain ⟨s, rfl⟩ := ColType.eq_text_of_admits (hstatus rfl) hadm
    exact ⟨s, hv⟩

/-! ## 2. The version rows of a template -/

section

variable [DecidableEq F]

/-- The stored version rows of the template. -/
def templateRows (db : PgDb F) (t : UUID) : List (PgRow F) :=
  (db .templateVersions).filter fun r => r .templateId == some (.uuid t)

/-- The list `latest_active_version` is given, in the order of the table. -/
def SchemaDef.versionRows (d : SchemaDef) (db : PgDb F) (t : UUID) : List (VersionRow F) :=
  (templateRows db t).filterMap fun r => VersionRow.ofDict? (d.versionDict r)

variable {d : SchemaDef} {db : PgDb F} {t : UUID} {r s : PgRow F} {v w : VersionRow F}

theorem mem_versionRows_iff :
    v ∈ d.versionRows db t ↔ ∃ r ∈ templateRows db t, v.row = d.versionDict r := by
  unfold SchemaDef.versionRows
  simp only [List.mem_filterMap, VersionRow.ofDict?_eq_some_iff]

theorem typedVersion_of_mem (hdb : Consistent d.schema db) (hr : r ∈ templateRows db t) :
    TypedVersion r :=
  typedVersion_of_admitsRow
    (hdb.rows .templateVersions (version_mem_tables d) r (List.mem_filter.mp hr).1)

omit [DecidableEq F] in
theorem version_of_row (hrow : v.row = d.versionDict r) (hr : TypedVersion r) :
    r .version = some (.int v.version) := by
  obtain ⟨n, hn⟩ := hr.version
  have hget : v.row.get? "version" = some (SqlValue.asValue (r .version)) := by
    rw [hrow]
    exact get?_versionDict d r (n := .version) (by decide)
  rw [v.version_eq, hn] at hget
  cases hget
  exact hn

omit [DecidableEq F] in
theorem isActive_of_row (hrow : v.row = d.versionDict r) (hr : TypedVersion r) :
    v.isActive = true ↔ r .status = some (.text "active") := by
  obtain ⟨s, hs⟩ := hr.status
  have hget : v.row.get? "status" = some (SqlValue.asValue (r .status)) := by
    rw [hrow]
    exact get?_versionDict d r (n := .status) (by decide)
  rw [VersionRow.isActive, beq_iff_eq, Record.text?_eq_some_iff, hget, hs]
  simp [SqlValue.asValue]

/-- No stored version row of the template is dropped. -/
theorem exists_versionRow (hdb : Consistent d.schema db) (hr : r ∈ templateRows db t) :
    ∃ v ∈ d.versionRows db t, v.row = d.versionDict r := by
  obtain ⟨n, hn⟩ := (typedVersion_of_mem hdb hr).version
  have hget : (d.versionDict r).get? "version" = some (.int n) := by
    have h := get?_versionDict d r (n := .version) (by decide)
    rwa [hn] at h
  exact ⟨⟨d.versionDict r, n, hget⟩, mem_versionRows_iff.mpr ⟨r, hr, rfl⟩, rfl⟩

/-- The primary key tells the rows apart. -/
theorem versionDict_inj (hdb : Consistent d.schema db) (hr : r ∈ templateRows db t)
    (hs : s ∈ templateRows db t) (h : d.versionDict r = d.versionDict s) : r = s := by
  obtain ⟨u, hu⟩ := (typedVersion_of_mem hdb hr).id
  obtain ⟨u', hu'⟩ := (typedVersion_of_mem hdb hs).id
  have hget := get?_versionDict d r (n := .id) (by decide)
  rw [h, get?_versionDict d s (by decide), hu, hu'] at hget
  -- the text of an id determines it
  have htext : u'.text = u.text := by simpa [SqlValue.asValue] using hget
  have hid : some u' = some u := by rw [← UUID.parse_text u', htext, UUID.parse_text]
  cases hid
  refine (hdb.keys .templateVersions (version_mem_tables d) [.id] (version_keys d)).eq_of_agreeOn
    (List.mem_filter.mp hr).1 (List.mem_filter.mp hs).1 (agreeOn_iff.mpr fun c hc => ?_)
  rw [List.mem_singleton.mp hc, hu, hu']
  exact ⟨rfl, rfl⟩

/-! ## 3. One highest active version -/

/-- **The active version is well defined** on the list: absent exactly when no row is active, else
    an active row of the highest version, the same one in every order. -/
structure WellDefined (templateId : String) (rows : List (VersionRow F)) : Prop where
  none_iff : latestActiveVersion templateId rows = none ↔ ∀ v ∈ rows, v.isActive = false
  highest : ∀ v, latestActiveVersion templateId rows = some v → v ∈ rows ∧ v.isActive = true ∧
    ∀ w ∈ rows, w.isActive = true → w.version ≤ v.version
  order : ∀ rows', rows.Perm rows' →
    latestActiveVersion templateId rows' = latestActiveVersion templateId rows

omit [DecidableEq F] in
/-- Every order of the active rows is the order some list of all rows has them in. -/
theorem exists_perm_filter {rows l : List (VersionRow F)}
    (h : (rows.filter VersionRow.isActive).Perm l) :
    ∃ rows', rows.Perm rows' ∧ rows'.filter VersionRow.isActive = l := by
  refine ⟨l ++ rows.filter fun v => !v.isActive, ?_, ?_⟩
  · exact (List.filter_append_perm VersionRow.isActive rows).symm.trans (h.append_right _)
  · have hactive : ∀ v ∈ l, v.isActive = true := fun v hv =>
      (List.mem_filter.mp (h.symm.subset hv)).2
    rw [List.filter_append, List.filter_eq_self.mpr hactive, List.filter_filter]
    simp

omit [DecidableEq F] in
/-- Only the order can go wrong, and does exactly when two active rows share the highest version. -/
theorem wellDefined_iff_unique {templateId : String} {rows : List (VersionRow F)} :
    WellDefined templateId rows ↔ ∀ v w,
      IsLargest VersionRow.version (rows.filter VersionRow.isActive) v →
      IsLargest VersionRow.version (rows.filter VersionRow.isActive) w → v = w := by
  rw [← argmax_perm_iff]
  refine ⟨fun h l hl => ?_, fun h => ⟨latestActiveVersion_eq_none_iff, fun v hv => ?_,
    fun rows' hp => ?_⟩⟩
  · obtain ⟨rows', hp, rfl⟩ := exists_perm_filter hl
    rw [← latestActiveVersion_eq_argmax templateId, ← latestActiveVersion_eq_argmax templateId]
    exact h.order rows' hp
  · exact isLargest_iff.mp (isLargest_latestActiveVersion hv)
  · rw [latestActiveVersion_eq_argmax, latestActiveVersion_eq_argmax]
    exact h _ (hp.filter _)

/-- An active version row of the template. -/
def ActiveVersion (db : PgDb F) (t : UUID) (r : PgRow F) : Prop :=
  r ∈ templateRows db t ∧ r .status = some (.text "active")

/-- An active version row of the template that no active one of it exceeds. -/
def TopActive (db : PgDb F) (t : UUID) (r : PgRow F) : Prop :=
  ActiveVersion db t r ∧ ∀ s, ActiveVersion db t s → ∀ n m, r .version = some (.int n) →
    s .version = some (.int m) → m ≤ n

/-- The largest active rows of the list are the dicts of those rows. -/
theorem isLargest_versionRows_iff (hdb : Consistent d.schema db) :
    IsLargest VersionRow.version ((d.versionRows db t).filter VersionRow.isActive) v ↔
      ∃ r, TopActive db t r ∧ v.row = d.versionDict r := by
  rw [isLargest_iff, mem_versionRows_iff]
  constructor
  · rintro ⟨⟨r, hr, hrow⟩, hactive, hmax⟩
    have htyped := typedVersion_of_mem hdb hr
    refine ⟨r, ⟨⟨hr, (isActive_of_row hrow htyped).mp hactive⟩, ?_⟩, hrow⟩
    rintro s ⟨hs, hsactive⟩ n m hn hm
    obtain ⟨w, hw, hwrow⟩ := exists_versionRow hdb hs
    have hstyped := typedVersion_of_mem hdb hs
    have hle := hmax w hw ((isActive_of_row hwrow hstyped).mpr hsactive)
    rw [version_of_row hrow htyped] at hn
    rw [version_of_row hwrow hstyped] at hm
    cases hn
    cases hm
    exact hle
  · rintro ⟨r, ⟨⟨hr, hactive⟩, hmax⟩, hrow⟩
    have htyped := typedVersion_of_mem hdb hr
    refine ⟨⟨r, hr, hrow⟩, (isActive_of_row hrow htyped).mpr hactive, fun w hw hwactive => ?_⟩
    obtain ⟨s, hs, hwrow⟩ := mem_versionRows_iff.mp hw
    have hstyped := typedVersion_of_mem hdb hs
    exact hmax s ⟨hs, (isActive_of_row hwrow hstyped).mp hwactive⟩ _ _
      (version_of_row hrow htyped) (version_of_row hwrow hstyped)

/-- **When the active version is well defined**: in every state the statements lead to, for every
    order of the rows, exactly when one active row at most has the highest version. -/
theorem activeVersion_iff (d : SchemaDef) (sts : List (PgStmt F)) (t : UUID) :
    (∀ rows, rows.Perm (d.versionRows (d.after sts) t) → WellDefined t.text rows) ↔
      ∀ r s, TopActive (d.after sts) t r → TopActive (d.after sts) t s → r = s := by
  have hdb := d.consistent_after sts
  refine ⟨fun h r s hr hs => ?_, fun h rows hp => wellDefined_iff_unique.mpr fun v w hv hw => ?_⟩
  · obtain ⟨v, -, hv⟩ := exists_versionRow hdb hr.1.1
    obtain ⟨w, -, hw⟩ := exists_versionRow hdb hs.1.1
    have hvw := wellDefined_iff_unique.mp (h _ (List.Perm.refl _)) v w
      ((isLargest_versionRows_iff hdb).mpr ⟨r, hr, hv⟩)
      ((isLargest_versionRows_iff hdb).mpr ⟨s, hs, hw⟩)
    exact versionDict_inj hdb hr.1.1 hs.1.1 (by rw [← hv, ← hw, hvw])
  · obtain ⟨r, hr, hrow⟩ := (isLargest_versionRows_iff hdb).mp (hv.perm (hp.filter _))
    obtain ⟨s, hs, hsrow⟩ := (isLargest_versionRows_iff hdb).mp (hw.perm (hp.filter _))
    exact VersionRow.ext_row (by rw [hrow, hsrow, h r s hr hs])

/-- **The unique constraint of the Alembic migration** leaves one such row. -/
theorem topActive_unique_alembic (sts : List (PgStmt F)) (t : UUID) {r s : PgRow F}
    (hr : TopActive (SchemaDef.alembicMigration.after sts) t r)
    (hs : TopActive (SchemaDef.alembicMigration.after sts) t s) : r = s := by
  have hdb := SchemaDef.alembicMigration.consistent_after sts
  obtain ⟨n, hn⟩ := (typedVersion_of_mem hdb hr.1.1).version
  obtain ⟨m, hm⟩ := (typedVersion_of_mem hdb hs.1.1).version
  have hnm : n = m := le_antisymm (hs.2 r hr.1 m n hm hn) (hr.2 s hs.1 n m hn hm)
  obtain ⟨hrmem, hrt⟩ := List.mem_filter.mp hr.1.1
  obtain ⟨hsmem, hst⟩ := List.mem_filter.mp hs.1.1
  refine (hdb.keys .templateVersions (by decide) [.templateId, .version] (by decide)).eq_of_agreeOn
    hrmem hsmem (agreeOn_iff.mpr fun c hc => ?_)
  rcases List.mem_cons.mp hc with rfl | hc
  · rw [beq_iff_eq.mp hrt, beq_iff_eq.mp hst]
    exact ⟨rfl, rfl⟩
  · rw [List.mem_singleton.mp hc, hn, hm, hnm]
    exact ⟨rfl, rfl⟩

end

section Samples

def sampleTemplate : PgRow F := rowOf [
  (.id, .uuid (.repeated 1)), (.name, .text "invoices"), (.createdAt, .timestamp .epoch)]

/-- An active version 1 of the template, under a given id. -/
def sampleVersion (id : UUID) : PgRow F := rowOf [
  (.id, .uuid id), (.templateId, .uuid (.repeated 1)), (.version, .int 1),
  (.status, .text "active"), (.payload, .json (.dict [])), (.createdAt, .timestamp .epoch)]

/-- Two active rows with the same version. -/
def sampleTie : List (PgStmt F) := [
  .insert .templates sampleTemplate,
  .insert .templateVersions (sampleVersion (.repeated 2)),
  .insert .templateVersions (sampleVersion (.repeated 3))]

/-- The SQL migration and the ORM class both admit the tie, and the row returned is then the one
    that comes first in the list. -/
theorem sampleTie_order : ∀ d ∈ [SchemaDef.sqlMigration, .createAll],
    let rows := d.versionRows (d.after (sampleTie (F := ℚ))) (.repeated 1)
    (latestActiveVersion (UUID.repeated 1).text rows.reverse).map (fun v => v.row.text? "id") ≠
      (latestActiveVersion (UUID.repeated 1).text rows).map fun v => v.row.text? "id" := by
  decide +kernel

theorem not_activeVersion_tie :
    (¬ ∀ rows, rows.Perm (SchemaDef.sqlMigration.versionRows
        (SchemaDef.sqlMigration.after (sampleTie (F := ℚ))) (.repeated 1)) →
      WellDefined (UUID.repeated 1).text rows) ∧
    ¬ ∀ rows, rows.Perm (SchemaDef.createAll.versionRows
        (SchemaDef.createAll.after (sampleTie (F := ℚ))) (.repeated 1)) →
      WellDefined (UUID.repeated 1).text rows := by
  have htie : ∀ d ∈ [SchemaDef.sqlMigration, .createAll],
      ¬ ∀ rows, rows.Perm (d.versionRows (d.after (sampleTie (F := ℚ))) (.repeated 1)) →
        WellDefined (UUID.repeated 1).text rows := by
    intro d hd h
    have hsame := (h _ (List.Perm.refl _)).order _ (List.reverse_perm _).symm
    exact sampleTie_order d hd (congrArg _ hsame)
  exact ⟨htie .sqlMigration (by decide), htie .createAll (by decide)⟩

end Samples

end AutomationPlatform
