import AutomationPlatform.Database.Migration
import Mathlib.Data.Rat.Defs

/-!
# Is the audit log append-only?

The application connects as the role that ran the migration, so it owns the tables. Under the SQL
file the trigger on `audit_logs` refuses whatever would touch an audit row, also through a
referential action. Under Alembic the `REVOKE ... FROM PUBLIC` does not reach the owner, and audit
rows stay only as long as the statements themselves leave them alone.

* `auditLogs_isPrefix`: what one statement that meets the condition leaves of the log;
* **`auditLogs_appendOnly`**: in a run whose statements meet it, the log only grows.
-/

namespace AutomationPlatform

open Relational Runs

variable {F : Type} [DecidableEq F]

/-- **Append-only**: an audit row that exists at some point of the run exists, every column
    unchanged, at every later point. -/
def AuditAppendOnly (m : Migration) (sts : List (PgStmt F)) : Prop :=
  ∀ early late, early ++ late <+: sts →
    ∀ r ∈ m.after early .auditLogs, r ∈ m.after (early ++ late) .auditLogs

/-- The foreign key of `audit_logs` under Alembic. -/
def alembicActor : ForeignKey TableName ColumnName := refId .userId .users .setNull

/-- The statement itself leaves the audit rows alone: it neither changes nor deletes one, nor does
    it delete a user that one refers to. -/
def LeavesAudit (db : PgDb F) : PgStmt F → Prop
  | .insert _ _ => True
  | .update t cond set => t = .auditLogs → ∀ r ∈ db .auditLogs, cond r = true → set r = r
  | .delete t cond =>
    (t = .auditLogs → ∀ r ∈ db .auditLogs, cond r = false) ∧
      (t = .users → ∀ u ∈ db .users, cond u = true →
        ∀ r ∈ db .auditLogs, references alembicActor r u = false)

/-- What a statement has to meet: nothing under the SQL file, nothing when it is rejected. -/
def Migration.Spares (m : Migration) (db : PgDb F) (st : PgStmt F) : Prop :=
  m = .alembic → (exec m.schema db st).isSome = true → LeavesAudit db st

/-! ## 1. One statement -/

/-- A table without `ON DELETE CASCADE` keys loses only the rows a DELETE names. -/
theorem removed_direct {db : PgDb F} {t0 t : TableName} {cond : PgRow F → Bool} {r : PgRow F}
    (ht : t ∈ alembicSchema.tables)
    (hno : ∀ fk ∈ (alembicSchema.table t).foreignKeys, fk.onDelete ≠ .cascade)
    (h : removed alembicSchema db t0 cond t r = true) : t = t0 ∧ cond r = true := by
  rcases (removed_iff alembicSchema_wellFormed ht).mp h with hd | ⟨fk, hfk, hact, -⟩
  · exact hd
  · exact absurd hact (hno fk hfk)

/-- Under Alembic, a statement that leaves the audit rows alone spares them: a referential action
    reaches them only from a deleted user. -/
theorem spares_of_leavesAudit {db : PgDb F} {st : PgStmt F} (h : LeavesAudit db st) :
    Relational.Spares alembicSchema db .auditLogs st := by
  cases st with
  | insert t r => exact trivial
  | update t cond set => exact h
  | delete t cond =>
      intro r hr
      unfold touched
      rw [Bool.or_eq_false_iff]
      refine ⟨?_, ?_⟩
      · by_contra hrem
        rw [Bool.not_eq_false] at hrem
        obtain ⟨rfl, hc⟩ := removed_direct (by decide) (by decide) hrem
        rw [h.1 rfl r hr] at hc
        cases hc
      · refine List.any_eq_false.mpr fun fk hfk => ?_
        have hfk' : fk = alembicActor := List.mem_singleton.mp hfk
        subst hfk'
        intro horph
        rw [Bool.and_eq_true] at horph
        obtain ⟨u, hu, href, hrem⟩ := orphaned_iff.mp horph.2
        obtain ⟨rfl, hc⟩ := removed_direct (by decide) (by decide) hrem
        rw [h.2 rfl u hu hc r hr] at href
        cases href

theorem auditLogs_isPrefix (m : Migration) (db : PgDb F) (st : PgStmt F) (h : m.Spares db st) :
    db .auditLogs <+: m.step db st .auditLogs := by
  rw [m.step_eq]
  unfold Relational.step
  cases hst : exec m.schema db st with
  | none => exact List.prefix_rfl
  | some db' =>
      refine isPrefix_of_spares hst ?_
      cases m with
      | sql => exact spares_of_frozen hst (sqlSchema_complete _) rfl
      | alembic => exact spares_of_leavesAudit (h rfl (by rw [hst]; rfl))

/-! ## 2. Runs -/

/-- **The audit log only grows**, in every run of the SQL file's store, and in every run of
    Alembic's whose statements leave the audit rows alone themselves. -/
theorem auditLogs_appendOnly (m : Migration) (sts : List (PgStmt F))
    (h : Meets m.step m.Spares (fun _ => []) sts) : AuditAppendOnly m sts := by
  rintro early late ⟨rest, rfl⟩ r hr
  rw [List.append_assoc, meets_append, meets_append] at h
  have hgrow := run_rel (R := fun a b : PgDb F => a .auditLogs <+: b .auditLogs)
    (fun _ => List.prefix_rfl) (fun _ _ _ => List.IsPrefix.trans)
    (fun db st hst => auditLogs_isPrefix m db st hst) h.2.1
  unfold Migration.after
  rw [run_append]
  exact hgrow.subset hr

section Samples

/-- A user and an audit row that names nobody, as Alembic's tables have them. -/
def sampleUser : PgRow F := rowOf [
  (.id, .uuid (.repeated 1)), (.email, .text "a@example.com"), (.role, .text "viewer"),
  (.isActive, .bool true), (.isSuperuser, .bool false), (.createdAt, .timestamp .epoch),
  (.updatedAt, .timestamp .epoch)]

def sampleAuditRow : PgRow F := rowOf [
  (.id, .uuid (.repeated 2)), (.timestamp, .timestamp .epoch), (.action, .text "review.approve"),
  (.resourceType, .text "suggestion"), (.status, .text "success")]

/-- Deleting a user no audit row refers to leaves the log alone. -/
theorem auditLogs_appendOnly_userDeleted :
    AuditAppendOnly .alembic [.insert .users (sampleUser (F := ℚ)),
      .insert .auditLogs sampleAuditRow, .delete .users fun _ => true] :=
  auditLogs_appendOnly .alembic _
    ⟨fun _ _ => trivial, fun _ _ => trivial, fun _ _ => ⟨nofun, fun _ => by decide +kernel⟩,
      trivial⟩

/-- Under Alembic the owner deletes an audit row. -/
theorem not_auditAppendOnly_alembic :
    ¬ AuditAppendOnly .alembic
      [.insert .auditLogs (sampleAuditRow (F := ℚ)), .delete .auditLogs fun _ => true] := by
  intro h
  have hstored : (Migration.alembic.after
      [.insert .auditLogs (sampleAuditRow (F := ℚ))] .auditLogs).length = 1 := by decide +kernel
  have hgone : (Migration.alembic.after [.insert .auditLogs (sampleAuditRow (F := ℚ)),
      .delete .auditLogs fun _ => true] .auditLogs).length = 0 := by decide +kernel
  obtain ⟨r, hr⟩ := List.exists_mem_of_length_pos (by rw [hstored]; exact Nat.one_pos)
  have hlater := h [.insert .auditLogs sampleAuditRow] [.delete .auditLogs fun _ => true]
    List.prefix_rfl r hr
  rw [List.cons_append, List.nil_append, List.length_eq_zero_iff.mp hgone] at hlater
  cases hlater

end Samples

end AutomationPlatform
