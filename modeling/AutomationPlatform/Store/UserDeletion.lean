import AutomationPlatform.Database.Migration
import Mathlib.Data.Rat.Defs

/-!
# Deleting a user

Five foreign keys of the SQL file refer to `users`: `user_roles` and `sso_sessions` go with the
user, `ingested_rows`, `suggestions` and `audit_logs` are to have their reference nulled. Nulling it
is an `UPDATE` of the row, and the trigger on `audit_logs` raises on it.

* `orphaned_sql`, `removed_sql`: which rows the DELETE reaches;
* **`deleteUser_iff`**: in every reachable state the DELETE does what the keys declare exactly when
  no audit row names the user as its actor.
-/

namespace AutomationPlatform

open Relational

variable {F : Type} [DecidableEq F]

/-- `DELETE FROM users WHERE id = ...`. -/
def deleteUser (u : PgRow F) : PgStmt F := .delete .users fun r => r .id == u .id

/-- The row with its reference in `c` nulled, if that is the one to `u`. -/
def clearRef (c : ColumnName) (u r : PgRow F) : PgRow F :=
  if r c = u .id then Function.update r c none else r

/-- **What the foreign keys declare** for the deletion of `u`. -/
def userDeleted (db : PgDb F) (u : PgRow F) : PgDb F
  | .users => (db .users).filter fun r => r .id != u .id
  | .userRoles => (db .userRoles).filter fun r => r .userId != u .id
  | .ssoSessions => (db .ssoSessions).filter fun r => r .userId != u .id
  | .ingestedRows => (db .ingestedRows).map (clearRef .ingestedByUserId u)
  | .suggestions => (db .suggestions).map (clearRef .reviewerId u)
  | .auditLogs => (db .auditLogs).map (clearRef .actorId u)
  | t => db t

/-! ## 1. What the DELETE reaches -/

section Reach

variable {db : PgDb F} {u : PgRow F} (hu : u ∈ db .users) (hid : (u .id).isSome = true)

include hu hid in
/-- No target of a reference has a cascading key of its own, so references to removed rows are
    references to the user. -/
theorem orphaned_sql {t : TableName} {fk : ForeignKey TableName ColumnName}
    (hfk : fk ∈ (sqlSchema.table t).foreignKeys) (r : PgRow F) :
    orphaned sqlSchema db .users (fun r => r .id == u .id) fk r = true ↔
      fk.target = .users ∧ r fk.column = u .id := by
  have hflat : ∀ t, ∀ fk ∈ (sqlSchema.table t).foreignKeys, fk.key = .id ∧
      ∀ fk' ∈ (sqlSchema.table fk.target).foreignKeys, fk'.onDelete ≠ .cascade := by
    intro t
    cases t <;> decide
  obtain ⟨hkey, hno⟩ := hflat t fk hfk
  rw [orphaned_iff]
  refine ⟨?_, ?_⟩
  · rintro ⟨s, -, href, hrem⟩
    rcases (removed_iff sqlSchema_wellFormed (sqlSchema_complete _)).mp hrem with
      ⟨ht, hs⟩ | ⟨fk', hfk', hact, -⟩
    · rw [references_iff, hkey] at href
      exact ⟨ht, href.2.trans (beq_iff_eq.mp hs)⟩
    · exact absurd hact (hno fk' hfk')
  · rintro ⟨ht, hr⟩
    refine ⟨u, ht ▸ hu, ?_, ?_⟩
    · rw [references_iff, hkey, hr]
      exact ⟨hid, rfl⟩
    · exact (removed_iff sqlSchema_wellFormed (sqlSchema_complete _)).mpr
        (Or.inl ⟨ht, beq_self_eq_true _⟩)

include hu hid in
theorem removed_sql (t : TableName) (r : PgRow F) :
    removed sqlSchema db .users (fun r => r .id == u .id) t r = true ↔
      (t = .users ∧ r .id = u .id) ∨ ∃ fk ∈ (sqlSchema.table t).foreignKeys,
        fk.onDelete = .cascade ∧ fk.target = .users ∧ r fk.column = u .id := by
  rw [removed_iff sqlSchema_wellFormed (sqlSchema_complete _), beq_iff_eq]
  refine or_congr Iff.rfl (exists_congr fun fk => and_congr_right fun hfk => ?_)
  rw [← orphaned_sql hu hid hfk r, orphaned_iff]

include hu hid in
theorem severed_sql (t : TableName) (r : PgRow F) (c : ColumnName) :
    severed sqlSchema db .users (fun r => r .id == u .id) t r c =
      if ∃ fk ∈ (sqlSchema.table t).foreignKeys,
          fk.column = c ∧ fk.onDelete = .setNull ∧ fk.target = .users ∧ r c = u .id
      then none else r c := by
  rcases severed_cases sqlSchema db .users (fun r => r .id == u .id) t r c with
    ⟨h, fk, hfk, rfl, hact, horph⟩ | ⟨h, hfree⟩
  · rw [h, if_pos ⟨fk, hfk, rfl, hact, (orphaned_sql hu hid hfk r).mp horph⟩]
  · rw [h, if_neg]
    rintro ⟨fk, hfk, rfl, hact, href⟩
    have := hfree fk hfk rfl hact
    rw [(orphaned_sql hu hid hfk r).mpr href] at this
    cases this

/-! ## 2. The state the DELETE leads to -/

/-- The keys of `t` that refer to `users` and do `act` on deletion are in column `c`. -/
def RefsIn (t : TableName) (act : OnDelete) (c : ColumnName) : Prop :=
  (∃ fk ∈ (sqlSchema.table t).foreignKeys,
    fk.column = c ∧ fk.onDelete = act ∧ fk.target = .users) ∧
  ∀ fk ∈ (sqlSchema.table t).foreignKeys, fk.onDelete = act → fk.target = .users → fk.column = c

/-- No key of `t` refers to `users` and does `act` on deletion. -/
def NoRefs (t : TableName) (act : OnDelete) : Prop :=
  ∀ fk ∈ (sqlSchema.table t).foreignKeys, fk.onDelete = act → fk.target ≠ .users

instance (t : TableName) (act : OnDelete) (c : ColumnName) : Decidable (RefsIn t act c) := by
  unfold RefsIn
  infer_instance

instance (t : TableName) (act : OnDelete) : Decidable (NoRefs t act) := by
  unfold NoRefs
  infer_instance

include hu hid in
theorem severed_of_noRefs {t : TableName} (h : NoRefs t .setNull) :
    severed sqlSchema db .users (fun r => r .id == u .id) t = fun r => r := by
  funext r c
  rw [severed_sql hu hid, if_neg]
  rintro ⟨fk, hfk, -, hact, ht, -⟩
  exact h fk hfk hact ht

include hu hid in
theorem severed_of_refsIn {t : TableName} {c : ColumnName} (h : RefsIn t .setNull c)
    (r : PgRow F) :
    severed sqlSchema db .users (fun r => r .id == u .id) t r = clearRef c u r := by
  funext c'
  obtain ⟨⟨fk, hfk, hcol, hact, ht⟩, honly⟩ := h
  rw [severed_sql hu hid]
  unfold clearRef
  by_cases hr : r c = u .id
  · rw [if_pos hr]
    by_cases hc : c' = c
    · subst hc
      rw [if_pos ⟨fk, hfk, hcol, hact, ht, hr⟩, Function.update_self]
    · rw [Function.update_of_ne hc, if_neg]
      rintro ⟨fk', hfk', hcol', hact', ht', -⟩
      exact hc (hcol' ▸ honly fk' hfk' hact' ht')
  · rw [if_neg hr, if_neg]
    rintro ⟨fk', hfk', hcol', hact', ht', hr'⟩
    exact hr (honly fk' hfk' hact' ht' ▸ hcol' ▸ hr')

include hu hid in
theorem removed_of_noRefs {t : TableName} (ht : t ≠ .users) (h : NoRefs t .cascade)
    (r : PgRow F) : removed sqlSchema db .users (fun r => r .id == u .id) t r = false := by
  by_contra hrem
  rw [Bool.not_eq_false, removed_sql hu hid] at hrem
  rcases hrem with ⟨ht', -⟩ | ⟨fk, hfk, hact, htgt, -⟩
  · exact ht ht'
  · exact h fk hfk hact htgt

include hu hid in
theorem removed_of_refsIn {t : TableName} {c : ColumnName} (ht : t ≠ .users)
    (h : RefsIn t .cascade c) (r : PgRow F) :
    removed sqlSchema db .users (fun r => r .id == u .id) t r = (r c == u .id) := by
  obtain ⟨⟨fk, hfk, hcol, hact, htgt⟩, honly⟩ := h
  rw [Bool.eq_iff_iff, removed_sql hu hid, beq_iff_eq]
  refine ⟨?_, ?_⟩
  · rintro (⟨ht', -⟩ | ⟨fk', hfk', hact', htgt', hr⟩)
    · exact absurd ht' ht
    · exact honly fk' hfk' hact' htgt' ▸ hr
  · intro hr
    exact Or.inr ⟨fk, hfk, hact, htgt, hcol ▸ hr⟩

include hu hid in
/-- **The state the DELETE leads to is the declared one**, table by table. -/
theorem afterDelete_sql :
    afterDelete sqlSchema db .users (fun r => r .id == u .id) = userDeleted db u := by
  -- the tables by what their keys to `users` do: none, cascade, set null
  have hother : ∀ t, t ≠ .users → NoRefs t .cascade → NoRefs t .setNull →
      afterDelete sqlSchema db .users (fun r => r .id == u .id) t = db t := by
    intro t ht hc hn
    unfold afterDelete
    simp [removed_of_noRefs hu hid ht hc, severed_of_noRefs hu hid hn]
  have hcascade : ∀ t c, t ≠ .users → RefsIn t .cascade c → NoRefs t .setNull →
      afterDelete sqlSchema db .users (fun r => r .id == u .id) t =
        (db t).filter fun r => r c != u .id := by
    intro t c ht hc hn
    unfold afterDelete
    simp [removed_of_refsIn hu hid ht hc, severed_of_noRefs hu hid hn, bne]
  have hnull : ∀ t c, t ≠ .users → NoRefs t .cascade → RefsIn t .setNull c →
      afterDelete sqlSchema db .users (fun r => r .id == u .id) t =
        (db t).map (clearRef c u) := by
    intro t c ht hc hn
    unfold afterDelete
    rw [List.filter_eq_self.mpr fun r _ => by rw [removed_of_noRefs hu hid ht hc]; rfl]
    exact List.map_congr_left fun r _ => severed_of_refsIn hu hid hn r
  funext t
  cases t with
  | users =>
      have hself : ∀ r, removed sqlSchema db .users (fun r => r .id == u .id) .users r =
          (r .id == u .id) := fun r => by
        rw [Bool.eq_iff_iff, removed_sql hu hid, beq_iff_eq]
        simp [sqlSchema, SqlMigration.users]
      unfold afterDelete
      simp [hself, severed_of_noRefs hu hid (t := .users) (by decide), userDeleted, bne]
  | userRoles => exact hcascade _ _ (by decide) (by decide) (by decide)
  | ssoSessions => exact hcascade _ _ (by decide) (by decide) (by decide)
  | ingestedRows => exact hnull _ _ (by decide) (by decide) (by decide)
  | suggestions => exact hnull _ _ (by decide) (by decide) (by decide)
  | auditLogs => exact hnull _ _ (by decide) (by decide) (by decide)
  | permissions | roles | rolePermissions | templates | templateVersions =>
      exact hother _ (by decide) (by decide) (by decide)

/-! ## 3. What stands in its way -/

include hu hid in
/-- Nothing blocks it: the only `RESTRICT` key refers to `templates`. -/
theorem blocked_sql : blocked sqlSchema db .users (fun r => r .id == u .id) = false := by
  refine List.any_eq_false.mpr fun t ht hany => ?_
  obtain ⟨r, -, hany⟩ := List.any_eq_true.mp hany
  obtain ⟨fk, hfk, h⟩ := List.any_eq_true.mp hany
  rw [Bool.and_eq_true, beq_iff_eq] at h
  have hrestrict : ∀ t, NoRefs t .restrict := by
    intro t
    cases t <;> decide
  exact hrestrict t fk hfk h.1 ((orphaned_sql hu hid hfk r).mp h.2).1

include hu hid in
/-- The trigger fires when an audit row names the user. -/
theorem fires_sql : fires sqlSchema db .users (fun r => r .id == u .id) = true ↔
    ∃ r ∈ db .auditLogs, r .actorId = u .id := by
  have htouched : ∀ r, touched sqlSchema db .users (fun r => r .id == u .id) .auditLogs r = true ↔
      r .actorId = u .id := by
    intro r
    have hfks : (sqlSchema.table .auditLogs).foreignKeys = [refId .actorId .users .setNull] := rfl
    have hfk : refId .actorId .users .setNull ∈ (sqlSchema.table .auditLogs).foreignKeys :=
      List.mem_singleton_self _
    unfold touched isSevered
    rw [removed_of_noRefs hu hid (by decide) (by decide), Bool.false_or, hfks, List.any_cons,
      List.any_nil, Bool.or_false, Bool.and_eq_true, orphaned_sql hu hid hfk]
    exact ⟨fun h => h.2.2, fun h => ⟨rfl, rfl, h⟩⟩
  have hfrozen : ∀ t, (sqlSchema.table t).frozen = true ↔ t = .auditLogs := by
    intro t
    cases t <;> decide
  unfold fires
  rw [List.any_eq_true]
  refine ⟨?_, ?_⟩
  · rintro ⟨t, -, h⟩
    rw [Bool.and_eq_true, hfrozen] at h
    obtain ⟨rfl, h⟩ := h
    obtain ⟨r, hr, h⟩ := List.any_eq_true.mp h
    exact ⟨r, hr, (htouched r).mp h⟩
  · rintro ⟨r, hr, h⟩
    refine ⟨.auditLogs, sqlSchema_complete _, ?_⟩
    rw [Bool.and_eq_true]
    exact ⟨rfl, List.any_eq_true.mpr ⟨r, hr, (htouched r).mpr h⟩⟩

end Reach

/-- A stored user has an id. -/
theorem isSome_userId {db : PgDb F} (h : Consistent sqlSchema db) {u : PgRow F}
    (hu : u ∈ db .users) : (u .id).isSome = true := by
  have hadm := List.all_eq_true.mp (h.rows .users (sqlSchema_complete _) u hu)
    (defaulted .id .uuid) List.mem_cons_self
  cases hid : u .id with
  | none =>
      have : (defaulted .id .uuid).admits (u .id) = true := hadm
      rw [hid] at this
      cases this
  | some v => rfl

/-- **Deleting a user does what the foreign keys declare exactly when no audit row names the
    user**, in every state a run of statements reaches. -/
theorem deleteUser_iff (sts : List (PgStmt F)) (u : PgRow F)
    (hu : u ∈ Migration.sql.after sts .users) :
    exec sqlSchema (Migration.sql.after sts) (deleteUser u) =
        some (userDeleted (Migration.sql.after sts) u) ↔
      ∀ r ∈ Migration.sql.after sts .auditLogs, r .actorId ≠ u .id := by
  have hdb : Consistent sqlSchema (Migration.sql.after sts) := Migration.sql.consistent_after sts
  have hid := isSome_userId hdb hu
  generalize Migration.sql.after sts = db at hu hdb ⊢
  refine ⟨fun h r hr hactor => ?_, fun h => ?_⟩
  · have hfire : fires sqlSchema db .users (fun r => r .id == u .id) = true :=
      (fires_sql hu hid).mpr ⟨r, hr, hactor⟩
    rw [deleteUser, exec, if_neg (by rw [hfire]; simp)] at h
    cases h
  · have hfire : fires sqlSchema db .users (fun r => r .id == u .id) = false := by
      by_contra hf
      rw [Bool.not_eq_false, fires_sql hu hid] at hf
      obtain ⟨r, hr, hactor⟩ := hf
      exact h r hr hactor
    rw [← afterDelete_sql hu hid]
    exact exec_delete sqlSchema_wellFormed hdb (sqlSchema_complete _) (blocked_sql hu hid) hfire

section Samples

def sampleReviewer : PgRow F := rowOf [
  (.id, .uuid (.repeated 1)), (.email, .text "a@example.com"), (.isActive, .bool true),
  (.primaryRole, .text "reviewer"), (.createdAt, .timestamp .epoch)]

/-- An audit row that names the reviewer. -/
def sampleReviewEntry : PgRow F := rowOf [
  (.id, .uuid (.repeated 2)), (.resourceType, .text "suggestion"), (.resourceId, .text "s1"),
  (.action, .text "review.approve"), (.actorId, .uuid (.repeated 1)), (.beforeState, .json .none),
  (.afterState, .json .none), (.occurredAt, .timestamp .epoch)]

/-- A user that was inserted is there. -/
theorem mem_users_of_inserts (rows : List (TableName × PgRow F)) {u : PgRow F}
    (hmem : (.users, u) ∈ rows)
    (h : (insertAll sqlSchema (fun _ => [] : PgDb F) rows).isSome = true) :
    u ∈ Migration.sql.after (rows.map fun p => .insert p.1 p.2) .users := by
  obtain ⟨db, hdb⟩ := Option.isSome_iff_exists.mp h
  rw [Migration.sql.after_inserts hdb]
  exact (mem_insertAll hdb u).mpr (Or.inr hmem)

/-- What the reviewer has in the store, and an audit row of somebody else. -/
def sampleBelongings : List (TableName × PgRow ℚ) := [
  (.users, sampleReviewer),
  (.users, rowOf [
    (.id, .uuid (.repeated 9)), (.email, .text "b@example.com"), (.isActive, .bool true),
    (.primaryRole, .text "admin"), (.createdAt, .timestamp .epoch)]),
  (.roles, rowOf [(.id, .uuid (.repeated 3)), (.name, .text "reviewer")]),
  (.userRoles, rowOf [(.userId, .uuid (.repeated 1)), (.roleId, .uuid (.repeated 3))]),
  (.ssoSessions, rowOf [
    (.id, .uuid (.repeated 4)), (.userId, .uuid (.repeated 1)), (.sessionTokenHash, .text "h"),
    (.issuedAt, .timestamp .epoch), (.expiresAt, .timestamp .epoch)]),
  (.templates, rowOf [
    (.id, .uuid (.repeated 5)), (.name, .text "orders"), (.createdAt, .timestamp .epoch)]),
  (.ingestedRows, rowOf [
    (.id, .uuid (.repeated 6)), (.sourceId, .text "crm"), (.sourceRowHash, .text "h"),
    (.payload, .json .none), (.ingestedAt, .timestamp .epoch),
    (.ingestedByUserId, .uuid (.repeated 1))]),
  (.suggestions, rowOf [
    (.id, .uuid (.repeated 7)), (.ingestedRowId, .uuid (.repeated 6)),
    (.templateId, .uuid (.repeated 5)), (.confidence, .double 1), (.state, .text "approved"),
    (.payload, .json .none), (.reviewerId, .uuid (.repeated 1)), (.createdAt, .timestamp .epoch)]),
  (.auditLogs, rowOf [
    (.id, .uuid (.repeated 8)), (.resourceType, .text "user"), (.resourceId, .text "u1"),
    (.action, .text "user.create"), (.actorId, .uuid (.repeated 9)), (.beforeState, .json .none),
    (.afterState, .json .none), (.occurredAt, .timestamp .epoch)])]

/-- The reviewer is deleted: the roles and sessions go along, the ingested row and the suggestion
    stay without their user, and the audit row of the other user is as it was. -/
theorem deleteUser_unaudited :
    let db : PgDb ℚ := Migration.sql.after (sampleBelongings.map fun p => .insert p.1 p.2)
    let db' := userDeleted db sampleReviewer
    exec sqlSchema db (deleteUser sampleReviewer) = some db' ∧
      (db .userRoles).length = 1 ∧ (db' .userRoles).length = 0 ∧
      (db .ssoSessions).length = 1 ∧ (db' .ssoSessions).length = 0 ∧
      (db' .ingestedRows).map (fun r => r .ingestedByUserId) = [none] ∧
      (db' .suggestions).map (fun r => r .reviewerId) = [none] ∧
      (db' .auditLogs).map (fun r => r .actorId) = [some (.uuid (.repeated 9))] := by
  intro db db'
  have hactors : (db .auditLogs).map (fun r => r .actorId) = [some (.uuid (.repeated 9))] := by
    decide +kernel
  refine ⟨(deleteUser_iff _ _ (mem_users_of_inserts sampleBelongings List.mem_cons_self ?_)).mpr
    fun r hr hactor => ?_, ?_⟩
  · decide +kernel
  · have hmem : r .actorId ∈ (db .auditLogs).map (fun r => r .actorId) := List.mem_map_of_mem hr
    rw [hactors, hactor] at hmem
    exact absurd hmem (by decide)
  · decide +kernel

/-- After one review the same DELETE is rejected: the trigger refuses the `SET NULL`. -/
theorem deleteUser_audited_rejected :
    sampleReviewer ∈ Migration.sql.after [.insert .users (sampleReviewer (F := ℚ)),
        .insert .auditLogs sampleReviewEntry] .users ∧
      exec sqlSchema (Migration.sql.after [.insert .users (sampleReviewer (F := ℚ)),
        .insert .auditLogs sampleReviewEntry]) (deleteUser sampleReviewer) = none := by
  refine ⟨mem_users_of_inserts [(.users, sampleReviewer), (.auditLogs, sampleReviewEntry)]
    List.mem_cons_self (by decide +kernel), ?_⟩
  rw [← Option.isNone_iff_eq_none]
  decide +kernel

end Samples

end AutomationPlatform
