import AutomationPlatform.Library.FirstOccurrence
import AutomationPlatform.Library.Relational.Rows
import AutomationPlatform.Library.Relational.Unreferenced
import AutomationPlatform.Store.AuditAppendOnly

/-!
# Several roles on Alembic's store

The last statements of `upgrade()` make a role `audit_writer` that may insert audit rows, and leave
everybody else without a privilege. Statements of the owner, of the writer and of others interleave.

* **`auditWriter_run`** -- what the writer and the others make of a store between two statements of
  the owner: the log gets the rows that fit, of several with one id the first;
* **`owner_unaffected`** -- in any interleaving the other tables are as if the owner had been alone,
  unless it changes the id of a user. A statement here reads the row it acts on and no other, so it
  has no subquery on the log.
-/

namespace AutomationPlatform

open Relational Runs FirstOccurrence

variable {F : Type}

/-- A statement and the role that sends it. -/
abbrev RoleStmt (F : Type) := PgRole × PgStmt F

/-- The audit row the writer inserts. -/
def auditInsert : RoleStmt F → Option (PgRow F)
  | (.auditWriter, .insert .auditLogs r) => some r
  | _ => none

def isOwner (a : RoleStmt F) : Bool := a.1 == .owner

variable [DecidableEq F]

def Migration.stepRole (m : Migration) (db : PgDb F) (a : RoleStmt F) : PgDb F :=
  stepAs m.privileges a.1 m.schema db a.2

/-! ## 1. One statement -/

omit [DecidableEq F] in
/-- **What the grants let through**: all of the owner, the inserts of the writer, nothing else. -/
theorem permitted_alembic (a : RoleStmt F) :
    permitted alembicPrivileges a.1 a.2 = (isOwner a || (auditInsert a).isSome) := by
  obtain ⟨role, st⟩ := a
  cases role with
  | owner => cases st <;> simp [permitted, alembicPrivileges_owner, isOwner]
  | auditWriter =>
      cases st with
      | insert t r => cases t <;> rfl
      | update t cond set => cases t <;> rfl
      | delete t cond => cases t <;> rfl
  | publicRole =>
      cases st with
      | insert t r => cases t <;> rfl
      | update t cond set => cases t <;> rfl
      | delete t cond => cases t <;> rfl

theorem stepRole_owner (db : PgDb F) {a : RoleStmt F} (h : isOwner a = true) :
    Migration.alembic.stepRole db a = Relational.step alembicSchema db a.2 := by
  rw [Migration.stepRole, stepAs, if_pos]
  · rfl
  · show permitted alembicPrivileges a.1 a.2 = true
    rw [permitted_alembic, h, Bool.true_or]

/-- A statement of another role is an INSERT of the writer, or nothing. -/
theorem stepRole_other (db : PgDb F) {a : RoleStmt F} (h : isOwner a = false) :
    Migration.alembic.stepRole db a = match auditInsert a with
      | some r => Relational.step alembicSchema db (.insert .auditLogs r)
      | none => db := by
  have hperm : permitted Migration.alembic.privileges a.1 a.2 = (auditInsert a).isSome := by
    show permitted alembicPrivileges a.1 a.2 = _
    rw [permitted_alembic, h, Bool.false_or]
  unfold Migration.stepRole stepAs
  rw [hperm]
  unfold auditInsert
  split <;> rfl

theorem stepRole_consistent (db : PgDb F) (a : RoleStmt F) (h : Consistent alembicSchema db) :
    Consistent alembicSchema (Migration.alembic.stepRole db a) := by
  unfold Migration.stepRole stepAs
  split
  · exact step_consistent db a.2 h
  · exact h

/-! ## 2. Between two statements of the owner -/

/-- An audit row is accepted after others exactly when it is accepted before them and its id is
    none of theirs. -/
theorem accepts_auditLogs_iff {db : PgDb F} {rows : List (PgRow F)}
    (hrows : ∀ s ∈ rows, accepts alembicSchema db .auditLogs s = true) (r : PgRow F) :
    accepts alembicSchema (Function.update db .auditLogs (db .auditLogs ++ rows)) .auditLogs r =
      true ↔ accepts alembicSchema db .auditLogs r = true ∧ r .id ∉ rows.map (· .id) := by
  have hkeys : (alembicSchema.table .auditLogs).keys = [[.id]] := rfl
  have hfks : (alembicSchema.table .auditLogs).foreignKeys = [alembicActor] := rfl
  have husers : Function.update db .auditLogs (db .auditLogs ++ rows) .users = db .users :=
    Function.update_of_ne (by decide) _ _
  have hrefs : refersWithin (Function.update db .auditLogs (db .auditLogs ++ rows)) alembicActor r =
      refersWithin db alembicActor r := by
    unfold refersWithin
    rw [show alembicActor.target = .users from rfl, husers]
  have hid : ∀ s ∈ rows, agreeOn [.id] s r = false ↔ r .id ≠ s .id := by
    intro s hs
    obtain ⟨v, hv, -⟩ := Table.exists_of_admitsRow (accepts_iff.mp (hrows s hs)).1
      (by decide : defaulted .id .uuid ∈ (alembicSchema.table .auditLogs).columns) rfl
    have hsome : (s .id).isSome = true := by
      show (s (defaulted .id .uuid).name).isSome = true
      rw [hv]
      rfl
    rw [← Bool.not_eq_true, agreeOn_iff, not_iff_not]
    simp only [List.mem_singleton, forall_eq, hsome, true_and]
    exact eq_comm
  rw [accepts_iff, accepts_iff, hkeys, hfks, Function.update_self]
  simp only [List.mem_singleton, forall_eq, hrefs, List.mem_append, List.mem_map, not_exists,
    not_and]
  constructor
  · rintro ⟨hadm, hfree, href⟩
    exact ⟨⟨hadm, fun s hs => hfree s (Or.inl hs), href⟩,
      fun s hs e => (hid s hs).mp (hfree s (Or.inr hs)) e.symm⟩
  · rintro ⟨⟨hadm, hfree, href⟩, hnew⟩
    exact ⟨hadm, fun s hs => hs.elim (hfree s) fun hs => (hid s hs).mpr fun e => hnew s hs e.symm,
      href⟩

/-- One INSERT of the writer, after those that were accepted before. -/
theorem step_auditInsert {db : PgDb F} {rows : List (PgRow F)}
    (hdb : Consistent alembicSchema (Function.update db .auditLogs (db .auditLogs ++ rows)))
    (hrows : ∀ s ∈ rows, accepts alembicSchema db .auditLogs s = true) (r : PgRow F) :
    Relational.step alembicSchema (Function.update db .auditLogs (db .auditLogs ++ rows))
        (.insert .auditLogs r) =
      Function.update db .auditLogs (db .auditLogs ++ (rows ++
        if accepts alembicSchema db .auditLogs r = true ∧ r .id ∉ rows.map (· .id) then [r]
        else [])) := by
  rw [Relational.step, exec_insert_eq hdb (by decide), insertRow]
  by_cases h : accepts alembicSchema db .auditLogs r = true ∧ r .id ∉ rows.map (· .id)
  · rw [if_pos ⟨by decide, (accepts_auditLogs_iff hrows r).mpr h⟩, if_pos h, Option.getD_some,
      Function.update_self, Function.update_idem, List.append_assoc]
  · rw [if_neg fun h' => h ((accepts_auditLogs_iff hrows r).mp h'.2), if_neg h, Option.getD_none,
      List.append_nil]

/-- **What the other roles make of a store**: the log gets every row of the writer that the store
    accepts, of several with one id the first, and nothing else happens. -/
theorem auditWriter_run (sts : List (PgStmt F)) (as : List (RoleStmt F))
    (h : ∀ a ∈ as, isOwner a = false) :
    let db : PgDb F := Migration.alembic.after sts
    run Migration.alembic.stepRole db as =
      Function.update db .auditLogs (db .auditLogs ++ firsts (· .id)
        ((as.filterMap auditInsert).filter (accepts alembicSchema db .auditLogs))) := by
  intro db
  have hdb : Consistent alembicSchema db := Migration.alembic.consistent_after sts
  induction as using List.reverseRecOn with
  | nil => simp
  | append_singleton as a ih =>
      have hrun := ih fun a' ha' => h a' (List.mem_append_left _ ha')
      have hcons : Consistent alembicSchema (run Migration.alembic.stepRole db as) :=
        run_invariant stepRole_consistent hdb as
      rw [run_append_singleton, stepRole_other _ (h a (by simp)), List.filterMap_append]
      cases hins : auditInsert a with
      | none =>
          rw [hrun]
          simp [hins]
      | some r =>
          have hone : [a].filterMap auditInsert = [r] := by
            rw [List.filterMap_cons_some hins]
            rfl
          have hsub : ∀ s ∈ firsts (· .id) ((as.filterMap auditInsert).filter
              (accepts alembicSchema db .auditLogs)),
              accepts alembicSchema db .auditLogs s = true :=
            fun s hs => (List.mem_filter.mp (firsts_subset _ hs)).2
          rw [hrun] at hcons ⊢
          rw [hone, firsts_filter_append_singleton]
          refine (step_auditInsert hcons hsub r).trans ?_
          congr

/-! ## 3. The owner among the others -/

theorem auditLogs_unneeded : alembicSchema.Unneeded .auditLogs where
  unreferenced t := by cases t <;> decide
  yields := by decide
  unguarded := rfl

/-- The statements of the owner. -/
def ownStatements (as : List (RoleStmt F)) : List (PgStmt F) := (as.filter isOwner).map Prod.snd

/-- An owner that leaves the ids of users alone. -/
def OwnerKeepsIds (db : PgDb F) (a : RoleStmt F) : Prop :=
  isOwner a = true → KeepsKeys alembicSchema .auditLogs db a.2

theorem run_owner (db : PgDb F) (as : List (RoleStmt F)) :
    run Migration.alembic.stepRole db (as.filter isOwner) =
      run Migration.alembic.step db (ownStatements as) := by
  unfold ownStatements
  induction as generalizing db with
  | nil => rfl
  | cons a as ih =>
      cases h : isOwner a with
      | false => rw [List.filter_cons_of_neg (by rw [h]; simp)]; exact ih db
      | true =>
          rw [List.filter_cons_of_pos h, List.map_cons, run_cons, run_cons, stepRole_owner db h,
            Migration.step_eq]
          exact ih _

/-- **In every table but the log the owner is as if alone**, whatever the other roles do in between.
    `WHERE` and `SET` are functions of the row alone (`Stmt`): an owner whose subquery reads the log
    sees what the others wrote there. -/
theorem owner_unaffected (as : List (RoleStmt F))
    (h : Meets Migration.alembic.stepRole OwnerKeepsIds (fun _ => []) as) {t : TableName}
    (ht : t ≠ .auditLogs) :
    run Migration.alembic.stepRole (fun _ => []) as t =
      Migration.alembic.after (ownStatements as) t := by
  have hoff := run_filter (R := fun db db' : PgDb F => Consistent alembicSchema db ∧
      Consistent alembicSchema db' ∧ SameOff .auditLogs db db') (p := isOwner)
    (fun db db' a hR ha => ?_) (fun db db' a hR ha hkeys => ?_)
    ⟨consistent_empty alembicSchema, consistent_empty alembicSchema, fun _ _ => rfl⟩ h
  · rw [run_owner] at hoff
    exact hoff.2.2 t ht
  · obtain ⟨hdb, hdb', hsame⟩ := hR
    refine ⟨stepRole_consistent db a hdb, hdb', fun t' ht' => ?_⟩
    rw [stepRole_other db ha]
    cases auditInsert a with
    | none => exact hsame t' ht'
    | some r => exact (step_sameOff_self (Or.inl ⟨r, rfl⟩) db t' ht').trans (hsame t' ht')
  · obtain ⟨hdb, hdb', hsame⟩ := hR
    refine ⟨stepRole_consistent db a hdb, stepRole_consistent db' a hdb', ?_⟩
    rw [stepRole_owner db ha, stepRole_owner db' ha]
    exact step_sameOff auditLogs_unneeded alembicSchema_wellFormed hdb hdb' hsame (hkeys ha)

section Samples

/-- An audit row that names the sample user. -/
def sampleUserRow : PgRow F := Function.update sampleAuditRow .userId (some (.uuid (.repeated 1)))

/-- The writer and a stranger among the statements of the owner. -/
def sampleRoles : List (RoleStmt ℚ) := [
  (.owner, .insert .users sampleUser), (.auditWriter, .insert .auditLogs sampleUserRow),
  (.publicRole, .delete .users fun _ => true), (.auditWriter, .delete .auditLogs fun _ => true),
  (.owner, .delete .users fun _ => true)]

theorem owner_unaffected_sampleRoles :
    run Migration.alembic.stepRole (fun _ => []) sampleRoles .users =
      Migration.alembic.after (ownStatements sampleRoles) .users :=
  owner_unaffected sampleRoles ⟨fun _ => trivial, fun _ => trivial, fun _ => trivial,
    fun _ => trivial, fun _ => trivial, trivial⟩ (by decide)

theorem auditWriter_run_sampleRows :
    let db : PgDb ℚ := Migration.alembic.after [.insert .users sampleUser]
    let as : List (RoleStmt ℚ) := [(.auditWriter, .insert .auditLogs sampleUserRow),
      (.publicRole, .delete .auditLogs fun _ => true),
      (.auditWriter, .insert .auditLogs sampleAuditRow)]
    run Migration.alembic.stepRole db as =
      Function.update db .auditLogs (db .auditLogs ++ firsts (· .id)
        ((as.filterMap auditInsert).filter (accepts alembicSchema db .auditLogs))) :=
  auditWriter_run _ _ (by decide)

end Samples

end AutomationPlatform
