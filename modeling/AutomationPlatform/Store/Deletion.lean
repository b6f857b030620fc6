import AutomationPlatform.Database.SchemaDef
import AutomationPlatform.Library.Relational.Cascade

/-!
# Deleting rows, under each definition of the tables

The three definitions declare different foreign keys. **`delete_outcome`** says what a DELETE does
to any table of a store any of them made, after any statements: it is refused or leads to the state
the foreign keys declare. Alembic refuses none. The other two keep a template that a suggestion
refers to; the SQL file keeps every audit row and every user that an audit row names.
-/

namespace AutomationPlatform

open Relational

theorem ormSchema_wellFormed : ormSchema.WellFormed cascadeRank where
  rank_le := by decide
  target := by decide
  acts := by decide
  cascade := by decide
  nullable := by decide
  key := by decide

namespace SchemaDef

theorem wellFormed (d : SchemaDef) : d.schema.WellFormed cascadeRank := by
  cases d with
  | sqlMigration => exact sqlSchema_wellFormed
  | alembicMigration => exact alembicSchema_wellFormed
  | createAll => exact ormSchema_wellFormed

/-- `user_roles` is the one table a definition may lack. -/
theorem foreignKeys_of_notMem (d : SchemaDef) (t : TableName) (h : t ∉ d.schema.tables) :
    (d.schema.table t).foreignKeys = [] := by
  revert h
  cases d <;> cases t <;> decide

end SchemaDef

/-! ## The refusals -/

/-- A stored row of `t` refers in column `c` to a row of `target` that the condition names. -/
def RefersToNamed {F : Type} (db : PgDb F) (t : TableName) (c : ColumnName) (target : TableName)
    (cond : PgRow F → Bool) : Prop :=
  ∃ r ∈ db t, ∃ s ∈ db target, cond s = true ∧ (r c).isSome = true ∧ r c = s .id

/-- **What each definition refuses.** -/
def DeleteRefused {F : Type} (d : SchemaDef) (db : PgDb F) (t0 : TableName)
    (cond : PgRow F → Bool) : Prop :=
  (d ≠ .alembicMigration ∧ t0 = .templates ∧
    RefersToNamed db .suggestions .templateId .templates cond) ∨
  (d = .sqlMigration ∧ t0 = .auditLogs ∧ ∃ r ∈ db .auditLogs, cond r = true) ∨
  (d = .sqlMigration ∧ t0 = .users ∧ RefersToNamed db .auditLogs .actorId .users cond)

section Refusals

variable {F : Type} [DecidableEq F] {db : PgDb F} {t0 : TableName} {cond : PgRow F → Bool}

/-- A key whose target has no cascading key of its own strands the rows that refer to a named
    row. -/
theorem strands_iff {S : PgSchema} {fk : ForeignKey TableName ColumnName}
    (h : ∀ fk' ∈ (S.table fk.target).foreignKeys, fk'.onDelete ≠ .cascade) {r : PgRow F} :
    Strands S db t0 cond fk r ↔ fk.target = t0 ∧
      ∃ s ∈ db fk.target, cond s = true ∧ references fk r s = true := by
  constructor
  · rintro ⟨s, hs, href, hfall⟩
    obtain ⟨ht, hc⟩ := (falls_iff_named h).mp hfall
    exact ⟨ht, s, hs, hc, href⟩
  · rintro ⟨ht, s, hs, hc, href⟩
    exact ⟨s, hs, href, (falls_iff_named h).mpr ⟨ht, hc⟩⟩

/-- The only `RESTRICT` key is the one from `suggestions` to `templates`; Alembic has none. -/
theorem restrict_iff (d : SchemaDef) {t : TableName} (ht : t ∈ d.schema.tables)
    (fk : ForeignKey TableName ColumnName) :
    (fk ∈ (d.schema.table t).foreignKeys ∧ fk.onDelete = .restrict) ↔
      d ≠ .alembicMigration ∧ t = .suggestions ∧ fk = refId .templateId .templates .restrict := by
  have hall : ∀ fk ∈ (d.schema.table t).foreignKeys, fk.onDelete = .restrict →
      d ≠ .alembicMigration ∧ t = .suggestions ∧ fk = refId .templateId .templates .restrict := by
    revert ht
    cases d <;> cases t <;> decide
  refine ⟨fun h => hall fk h.1 h.2, ?_⟩
  rintro ⟨hd, rfl, rfl⟩
  revert hd
  cases d <;> decide

/-- The templates a store keeps. -/
theorem loses_restrict_iff (d : SchemaDef) :
    (∃ t ∈ d.schema.tables, ∃ r ∈ db t, Loses d.schema db t0 cond .restrict t r) ↔
      d ≠ .alembicMigration ∧ t0 = .templates ∧
        RefersToNamed db .suggestions .templateId .templates cond := by
  have hno : ∀ fk ∈ (d.schema.table .templates).foreignKeys, fk.onDelete ≠ .cascade := by
    cases d <;> decide
  have hstr : ∀ r : PgRow F,
      Strands d.schema db t0 cond (refId .templateId .templates .restrict) r ↔ .templates = t0 ∧
        ∃ s ∈ db .templates, cond s = true ∧ (r .templateId).isSome = true ∧
          r .templateId = s .id := by
    intro r
    rw [strands_iff hno]
    simp only [references_iff, refId]
  constructor
  · rintro ⟨t, ht, r, hr, fk, hfk, hact, hlost⟩
    obtain ⟨hd, rfl, rfl⟩ := (restrict_iff d ht fk).mp ⟨hfk, hact⟩
    obtain ⟨ht0, s, hs, hc, href⟩ := (hstr r).mp hlost
    exact ⟨hd, ht0.symm, r, hr, s, hs, hc, href⟩
  · rintro ⟨hd, rfl, r, hr, s, hs, hc, href⟩
    have ht : .suggestions ∈ d.schema.tables := by
      cases d <;> decide
    obtain ⟨hfk, hact⟩ := (restrict_iff d ht (refId .templateId .templates .restrict)).mpr
      ⟨hd, rfl, rfl⟩
    exact ⟨_, ht, r, hr, _, hfk, hact, (hstr r).mpr ⟨rfl, s, hs, hc, href⟩⟩

/-- Only the SQL file has a row trigger. -/
theorem frozen_iff (d : SchemaDef) {t : TableName} (ht : t ∈ d.schema.tables) :
    (d.schema.table t).frozen = true ↔ d = .sqlMigration ∧ t = .auditLogs := by
  revert ht
  cases d <;> cases t <;> decide

/-- An audit row loses its reference when its actor is deleted. -/
theorem loses_auditLogs_iff {r : PgRow F} :
    Loses sqlSchema db t0 cond .setNull .auditLogs r ↔ t0 = .users ∧
      ∃ s ∈ db .users, cond s = true ∧ (r .actorId).isSome = true ∧ r .actorId = s .id := by
  have hno : ∀ fk ∈ (sqlSchema.table .users).foreignKeys, fk.onDelete ≠ .cascade := by decide
  have hfks : (sqlSchema.table .auditLogs).foreignKeys = [refId .actorId .users .setNull] := rfl
  unfold Loses
  rw [hfks]
  simp only [List.mem_singleton, exists_eq_left]
  rw [strands_iff hno]
  simp only [references_iff, refId, true_and, eq_comm (a := TableName.users)]

/-- The audit rows and their actors the SQL file keeps. -/
theorem frozen_touched_iff (d : SchemaDef) :
    (∃ t ∈ d.schema.tables, (d.schema.table t).frozen = true ∧
      ∃ r ∈ db t, Falls d.schema db t0 cond t r ∨ Loses d.schema db t0 cond .setNull t r) ↔
      (d = .sqlMigration ∧ t0 = .auditLogs ∧ ∃ r ∈ db .auditLogs, cond r = true) ∨
        (d = .sqlMigration ∧ t0 = .users ∧ RefersToNamed db .auditLogs .actorId .users cond) := by
  have hno : ∀ fk ∈ (sqlSchema.table .auditLogs).foreignKeys, fk.onDelete ≠ .cascade := by decide
  constructor
  · rintro ⟨t, ht, hf, r, hr, htouch⟩
    obtain ⟨rfl, rfl⟩ := (frozen_iff d ht).mp hf
    rcases htouch with hfall | hlost
    · obtain ⟨h0, hc⟩ := (falls_iff_named hno).mp hfall
      exact Or.inl ⟨rfl, h0.symm, r, hr, hc⟩
    · obtain ⟨h0, s, hs, hc, href⟩ := loses_auditLogs_iff.mp hlost
      exact Or.inr ⟨rfl, h0, r, hr, s, hs, hc, href⟩
  · rintro (⟨rfl, rfl, r, hr, hc⟩ | ⟨rfl, rfl, r, hr, s, hs, hc, href⟩)
    · exact ⟨_, sqlSchema_complete _, rfl, r, hr, Or.inl (.named hc)⟩
    · exact ⟨_, sqlSchema_complete _, rfl, r, hr,
        Or.inr (loses_auditLogs_iff.mpr ⟨rfl, s, hs, hc, href⟩)⟩

theorem obstructed_iff (d : SchemaDef) :
    Obstructed d.schema db t0 cond ↔ DeleteRefused d db t0 cond :=
  or_congr (loses_restrict_iff d) (frozen_touched_iff d)

end Refusals

open Classical in
/-- **What a DELETE does to a store**: it is refused where the table is lacking or its definition
    keeps a row it reaches, and otherwise leads to the state the foreign keys declare. -/
theorem delete_outcome {F : Type} [DecidableEq F] (d : SchemaDef) (sts : List (PgStmt F))
    (t0 : TableName) (cond : PgRow F → Bool) :
    exec d.schema (d.after sts) (.delete t0 cond) =
      if t0 ∉ d.schema.tables ∨ DeleteRefused d (d.after sts) t0 cond then none
      else some (declared d.schema (d.after sts) t0 cond) := by
  by_cases ht0 : t0 ∈ d.schema.tables
  · rw [exec_delete_eq d.wellFormed d.foreignKeys_of_notMem (d.consistent_after sts) ht0]
    simp only [obstructed_iff, ht0, not_true_eq_false, false_or]
  · rw [if_pos (Or.inl ht0), exec, if_neg fun h => ht0 h.1]

end AutomationPlatform
