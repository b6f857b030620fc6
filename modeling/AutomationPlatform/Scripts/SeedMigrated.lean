import AutomationPlatform.Database.Migration
import AutomationPlatform.Scripts.SeedDev
import AutomationPlatform.Store.ModelDrift

/-!
# Seeding a store a migration made

The quick start runs `alembic upgrade head` and then `scripts/seed_dev.py`. `init_db()` finds every
table there and creates none, so the script runs on the tables of the migration: a query names the
mapped columns of its class and reads the row it finds, a flush inserts the mapped columns and
leaves the others to their defaults.

* `seedOn` -- the script of `SeedDev.lean`, its calls made on tables of any schema;
* **`seedOn_never_returns`** -- on the tables of either migration, whatever they hold and whichever
  calls fail, it raises and leaves them as they were.
-/

namespace AutomationPlatform

open Python Relational Raising

/-! ## 1. The session on other tables -/

/-- What can be raised. -/
inductive StoreError where
  | session (e : SessionError)
  /-- `ProgrammingError`: a mapped column is missing. -/
  | undefinedColumn
  /-- `LookupError` of `Enum`: the stored text names no member. -/
  | noMember
  deriving DecidableEq, Repr

abbrev StoreM (F : Type) := EStateM StoreError (Client F)

variable {F α : Type}

/-- A call that does not look at the tables. -/
def onStore (m : SessionM F α) : StoreM F α := fun c =>
  match m c with
  | .ok a c => .ok a c
  | .error e c => .error (.session e) c

/-- Every column the class maps is there. -/
def Model.mappedIn (m : Model) (t : PgTable) : Bool :=
  m.columnNames.all fun n => t.columns.any fun c => decide (c.name = n)

/-- Every attribute of the row can be read. -/
def Model.readable (m : Model) (r : PgRow F) : Bool :=
  m.mapped.columns.all fun c => (c.type.read (r c.name)).isSome

/-- `(await session.execute(select(m).where(...))).scalar_one_or_none()`. -/
def selectOneOn (S : PgSchema) (env : SessionEnv) (m : Model) (cond : PgRow F → Bool) :
    StoreM F (Option (PgRow F)) := do
  onStore (called env)
  if m.mappedIn (S.table m.mapped.tablename) then
    match ((← get).session.visible m.mapped.tablename).filter cond with
    | [] => return none
    | [r] => if m.readable r then return some r else throw .noMember
    | _ => throw (.session .multipleResults)
  else throw .undefinedColumn

/-- The class of a table. -/
def Model.ofTable (t : TableName) : Option Model :=
  Model.all.find? fun m => decide (m.mapped.tablename = t)

/-- The columns an INSERT of the object names, with their values. -/
def objectNamed (t : TableName) (r : PgRow F) : Named ColumnName (SqlValue F) :=
  (Model.ofTable t).elim [] fun m => m.columnNames.map fun n => (n, r n)

section

variable [DecidableEq F]

/-- The state after the objects; `server` is what the defaults of the tables draw. -/
def insertObjects (S : PgSchema) (server : ColumnName → SqlValue F) :
    PgDb F → List (TableName × PgRow F) → Except StoreError (PgDb F)
  | db, [] => .ok db
  | db, (t, r) :: objects =>
    if (S.table t).hasColumns (objectNamed t r) then
      match insertRow S db t ((S.table t).complete server (objectNamed t r)) with
      | some db' => insertObjects S server db' objects
      | none => .error (.session .integrity)
    else .error .undefinedColumn

def flushOn (S : PgSchema) (env : SessionEnv) (server : ColumnName → SqlValue F) :
    StoreM F Unit := do
  onStore (called env)
  let c ← get
  match insertObjects S server c.session.visible (flushOrder c.session.pending) with
  | .ok db => set { c with session := { c.session with visible := db, pending := [] } }
  | .error e => throw e

def commitOn (S : PgSchema) (env : SessionEnv) (server : ColumnName → SqlValue F) :
    StoreM F Unit := do
  flushOn S env server
  onStore (called env)
  modify fun c => { c with session := { c.session with committed := c.session.visible } }

/-! ## 2. The script -/

section Script

variable (S : PgSchema) (env : SessionEnv) (server : ColumnName → SqlValue F)

def storeCalls : SeedCalls StoreError F where
  initDb := onStore (initDb env)
  selectOne m cond := selectOneOn S env m cond
  add m attrs := onStore (add env m attrs)
  flush := flushOn S env server
  commit := commitOn S env server
  keyError := .session .keyError

/-- `seed()` on the tables of `S`. -/
def seedOn (appEnv : String) : StoreM F String := seedScript (storeCalls S env server) appEnv

/-- What a run prints or raises, and the tables it leaves. -/
def runSeedOn (appEnv : String) (db : PgDb F) : Except StoreError String × PgDb F :=
  match seedOn S env server appEnv ⟨Session.opened db, 0⟩ with
  | .ok line c => (.ok line, c.session.committed)
  | .error e c => (.error e, c.session.committed)

end Script

/-! ## 3. What a run keeps -/

section Keeps

variable {S : PgSchema} {env : SessionEnv} {server : ColumnName → SqlValue F} {db : PgDb F}

/-- Nothing is committed, and the users there are such as the table admits. -/
structure Within (S : PgSchema) (db : PgDb F) (s : Session F) : Prop where
  committed : s.committed = db
  users : ∀ r ∈ s.visible .users, (S.table .users).admitsRow r = true

/-- How a run stops. -/
def Unchanged (db : PgDb F) (_ : StoreError) (c : Client F) : Prop := c.session.committed = db

omit [DecidableEq F] in
theorem onStore_spec {m : SessionM F α} {P : Client F → Prop} {Q : α → Client F → Prop}
    (h : Spec P m Q fun _ c => c.session.committed = db) :
    Spec P (onStore m) Q (Unchanged db) := by
  intro c hc
  have hm := h c hc
  unfold onStore
  cases hr : m c with
  | ok a c' =>
      rw [hr] at hm
      exact hm
  | error e c' =>
      rw [hr] at hm
      exact hm

omit [DecidableEq F] in
theorem calledOn_spec {P : Session F → Prop} (hP : ∀ s, P s → s.committed = db) :
    Spec (fun c => P c.session) (onStore (called env)) (fun _ c => P c.session) (Unchanged db) :=
  onStore_spec ((called_spec hP : Spec _ _ _ (Stopped env db False)).weaken fun _ _ h => h.1)

omit [DecidableEq F] in
/-- A row a query answers is stored and can be read, and its columns are there. -/
theorem selectOneOn_spec {P : Session F → Prop} (hP : ∀ s, P s → s.committed = db) (m : Model)
    (cond : PgRow F → Bool) :
    Spec (fun c => P c.session) (selectOneOn S env m cond)
      (fun o c => P c.session ∧ m.mappedIn (S.table m.mapped.tablename) = true ∧
        ∀ r ∈ o, r ∈ c.session.visible m.mapped.tablename ∧ m.readable r = true)
      (Unchanged db) := by
  unfold selectOneOn
  refine (calledOn_spec hP).bind fun _ => ?_
  split
  · rename_i hmapped
    refine Spec.get_bind fun c hc => ?_
    cases hrows : (c.session.visible m.mapped.tablename).filter cond with
    | nil => exact Spec.pure fun c' e => e ▸ ⟨hc, hmapped, nofun⟩
    | cons r rest =>
        cases rest with
        | nil =>
            show Spec _ (if m.readable r then pure (some r) else throw StoreError.noMember) _ _
            split
            · rename_i hread
              have hmem : r ∈ c.session.visible m.mapped.tablename :=
                (List.mem_filter.mp (hrows ▸ List.mem_singleton_self r)).1
              refine Spec.pure fun c' e => e ▸ ⟨hc, hmapped, fun r' hr' => ?_⟩
              cases hr'
              exact ⟨hmem, hread⟩
            · exact Spec.throw fun c' e => e ▸ hP _ hc
        | cons s rest => exact Spec.throw fun c' e => e ▸ hP _ hc
  · exact Spec.throw fun c hc => hP _ hc

/-- Users are inserted as the table admits them. -/
theorem users_of_insertObjects {db1 db2 : PgDb F} {objects : List (TableName × PgRow F)}
    (h : insertObjects S server db1 objects = .ok db2)
    (husers : ∀ r ∈ db1 .users, (S.table .users).admitsRow r = true) :
    (∀ r ∈ db2 .users, (S.table .users).admitsRow r = true) ∧
      ∀ r, (.users, r) ∈ objects →
        (S.table .users).admitsRow ((S.table .users).complete server (objectNamed .users r)) =
          true := by
  induction objects generalizing db1 with
  | nil =>
      cases h
      exact ⟨husers, fun r hr => absurd hr List.not_mem_nil⟩
  | cons o objects ih =>
      obtain ⟨t, r⟩ := o
      rw [insertObjects] at h
      split at h
      · split at h
        · rename_i db' hins
          obtain ⟨⟨-, hacc⟩, rfl⟩ := insertRow_eq_some_iff.mp hins
          have hadm := (accepts_iff.mp hacc).1
          obtain ⟨hall, hobjects⟩ := ih h fun r' hr' => by
            by_cases ht : TableName.users = t
            · subst ht
              rw [Function.update_self, List.mem_append, List.mem_singleton] at hr'
              rcases hr' with hr' | rfl
              · exact husers r' hr'
              · exact hadm
            · rw [Function.update_of_ne ht] at hr'
              exact husers r' hr'
          refine ⟨hall, fun r' hr' => ?_⟩
          rcases List.mem_cons.mp hr' with e | hr'
          · cases e
            exact hadm
          · exact hobjects r' hr'
        · cases h
      · cases h

theorem flushOn_spec : Spec (fun c => Within S db c.session) (flushOn S env server)
    (fun _ c => Within S db c.session) (Unchanged db) := by
  unfold flushOn
  refine (calledOn_spec fun _ h => h.committed).bind fun _ => ?_
  refine Spec.get_bind fun c hc => ?_
  cases hdb : insertObjects S server c.session.visible (flushOrder c.session.pending) with
  | ok db' => exact Spec.set fun _ _ => ⟨hc.committed, (users_of_insertObjects hdb hc.users).1⟩
  | error e => exact Spec.throw fun c' e => e ▸ hc.committed

omit [DecidableEq F] in
theorem addOn_spec (m : Model) (attrs : Named ColumnName (SqlValue F)) :
    Spec (fun c => Within S db c.session) (onStore (add env m attrs))
      (fun _ c => Within S db c.session) (Unchanged db) :=
  onStore_spec fun _ hc => ⟨hc.committed, hc.users⟩

theorem findOrFlushOn_spec (m : Model) (col : ColumnName) (text : String)
    (attrs : Named ColumnName (SqlValue F)) :
    Spec (fun c => Within S db c.session) (findOrFlush (storeCalls S env server) m col text attrs)
      (fun _ c => Within S db c.session) (Unchanged db) := by
  unfold findOrFlush
  refine (selectOneOn_spec (fun _ h => h.committed) m _).bind fun o => ?_
  cases o with
  | none =>
      refine ((addOn_spec m _).imp (fun c hc => hc.1) fun _ _ h => h).bind fun r => ?_
      exact flushOn_spec.bind fun _ => Spec.pure fun c hc => hc
  | some r => exact Spec.pure fun c hc => hc.1

theorem permissionsLoopOn_spec : Spec (fun c => Within S db c.session)
    (seedPermissions.foldlM (seedPermission (storeCalls S env server)) Dict.empty)
    (fun _ c => Within S db c.session) (Unchanged db) := by
  refine Spec.foldlM (I := fun _ _ (c : Client F) => Within S db c.session)
    (fun _ item _ permByCode _ => ?_) _
  unfold seedPermission
  exact (findOrFlushOn_spec .permission .code item.1 _).bind fun _ => Spec.pure fun c hc => hc

theorem seedPairOn_spec (permByCode : Dict String (PgRow F)) (role : PgRow F) (code : String) :
    Spec (fun c => Within S db c.session) (seedPair (storeCalls S env server) permByCode role code)
      (fun _ c => Within S db c.session) (Unchanged db) := by
  unfold seedPair
  cases permByCode.get? code with
  | none => exact Spec.throw fun c hc => hc.committed
  | some perm =>
      refine (selectOneOn_spec (fun _ h => h.committed) .rolePermissions _).bind fun o => ?_
      cases o with
      | none =>
          refine ((addOn_spec .rolePermissions _).imp (fun c hc => hc.1) fun _ _ h => h).bind
            fun _ => Spec.pure fun c hc => hc
      | some r => exact Spec.pure fun c hc => hc.1

theorem rolesLoopOn_spec (permByCode : Dict String (PgRow F)) :
    Spec (fun c => Within S db c.session)
      (seedRoles.items.forM (seedRole (storeCalls S env server) permByCode))
      (fun _ c => Within S db c.session) (Unchanged db) := by
  refine Spec.forM (I := fun _ (c : Client F) => Within S db c.session) fun _ item _ _ => ?_
  unfold seedRole
  refine (findOrFlushOn_spec .role .name item.1 _).bind fun role => ?_
  exact Spec.forM (I := fun _ (c : Client F) => Within S db c.session) fun _ code _ _ =>
    seedPairOn_spec permByCode role code

end Keeps

/-! ## 4. Why it stops -/

section Stops

variable {m : Migration} {env : SessionEnv} {server : ColumnName → SqlValue F} {db : PgDb F}

omit [DecidableEq F] in
/-- The SQL file stores the value of a member for a role; the class reads and writes names. -/
theorem role_of_admitsRow {r : PgRow F}
    (h : (Migration.sql.schema.table .users).admitsRow r = true) :
    ∃ v : UserRoleEnum, r .primaryRole = some (.text v.value) := by
  have hadmits := List.all_eq_true.mp h
    (defaulted .primaryRole (.varcharIn 20 ["admin", "reviewer", "operator", "viewer"]))
    (by decide)
  change Column.admits (defaulted .primaryRole _) (r .primaryRole) = true at hadmits
  cases hrole : r .primaryRole with
  | none =>
      rw [hrole] at hadmits
      cases hadmits
  | some v =>
      rw [hrole] at hadmits
      cases v with
      | text s =>
          have hlabel := (Bool.and_eq_true_iff.mp hadmits).2
          simp only [List.contains_cons, List.contains_nil, Bool.or_false, Bool.or_eq_true,
            beq_iff_eq] at hlabel
          rcases hlabel with rfl | rfl | rfl | rfl
          · exact ⟨.admin, rfl⟩
          · exact ⟨.reviewer, rfl⟩
          · exact ⟨.operator, rfl⟩
          · exact ⟨.viewer, rfl⟩
      | _ => cases hadmits

omit [DecidableEq F] in
/-- Alembic's users lack columns the class maps, and those of the SQL file have a role it cannot
    read. -/
theorem user_unreadable {r : PgRow F}
    (hmapped : Model.user.mappedIn (m.schema.table .users) = true)
    (hadm : (m.schema.table .users).admitsRow r = true) : Model.user.readable r = false := by
  cases m with
  | alembic => exact absurd hmapped (by decide)
  | sql =>
      obtain ⟨v, hrole⟩ := role_of_admitsRow hadm
      refine Bool.eq_false_iff.mpr fun h => ?_
      have hread := List.all_eq_true.mp h ⟨.primaryRole, .userRole, false, some (.role .viewer)⟩
        (by decide)
      change (MappedType.userRole.read (r .primaryRole)).isSome = true at hread
      rw [hrole] at hread
      cases v <;> cases hread

/-- The object of a seed user is staged, and its role is the name of a member. -/
def StagesUsers (m : Migration) (db : PgDb F) (users : List SeedUser) (s : Session F) : Prop :=
  Within m.schema db s ∧ ∀ u ∈ users, Model.user.mappedIn (m.schema.table .users) = true ∧
    ∃ r, (.users, r) ∈ s.pending ∧ r .primaryRole = some (.text u.primaryRole.name)

theorem usersLoopOn_spec :
    Spec (fun c => Within m.schema db c.session)
      (seedUsers.forM (seedUser (storeCalls m.schema env server)))
      (fun _ c => StagesUsers m db seedUsers c.session) (Unchanged db) := by
  refine Spec.imp (Spec.forM (I := fun done (c : Client F) => StagesUsers m db done c.session)
    fun done u rest _ => ?_) (fun c hc => ⟨hc, nofun⟩) fun _ _ h => h
  unfold seedUser
  refine (selectOneOn_spec (fun _ h => h.1.committed) .user _).bind fun o => ?_
  cases o with
  | some r =>
      -- a row the query answers could be read
      refine Spec.of_eq fun c hc => ?_
      obtain ⟨hstages, hmapped, hrow⟩ := hc
      obtain ⟨hmem, hread⟩ := hrow r rfl
      rw [user_unreadable hmapped (hstages.1.users r hmem)] at hread
      cases hread
  | none =>
      refine Spec.bind (Q := fun _ c => StagesUsers m db (done ++ [u]) c.session)
        (onStore_spec (m := add env .user _) fun c hc => ?_) fun _ => Spec.pure fun c hc => hc
      obtain ⟨hstages, hmapped, -⟩ := hc
      refine ⟨⟨hstages.1.committed, hstages.1.users⟩, fun u' hu' => ⟨hmapped, ?_⟩⟩
      rcases List.mem_append.mp hu' with hu' | hu'
      · obtain ⟨-, r, hr, hrole⟩ := hstages.2 u' hu'
        exact ⟨r, List.mem_append_left _ hr, hrole⟩
      · cases List.mem_singleton.mp hu'
        exact ⟨_, List.mem_append_right _ (List.mem_singleton_self _), rfl⟩

omit [DecidableEq F] in
/-- No table of a migration takes the name of a member for a role. -/
theorem user_inadmissible {r : PgRow F} {u : SeedUser}
    (hmapped : Model.user.mappedIn (m.schema.table .users) = true)
    (hrole : r .primaryRole = some (.text u.primaryRole.name)) :
    (m.schema.table .users).admitsRow
      ((m.schema.table .users).complete server (objectNamed .users r)) = false := by
  cases m with
  | alembic => exact absurd hmapped (by decide)
  | sql =>
      refine Bool.eq_false_iff.mpr fun hadm => ?_
      obtain ⟨v, hvalue⟩ := role_of_admitsRow hadm
      have hname : r .primaryRole = some (.text v.value) := hvalue
      rw [hrole, Option.some.injEq, SqlValue.text.injEq] at hname
      revert hname
      cases u.primaryRole <;> cases v <;> decide

theorem commitOn_spec : Spec (fun c => StagesUsers m db seedUsers c.session)
    (commitOn m.schema env server) (fun _ _ => False) (Unchanged db) := by
  unfold commitOn
  refine Spec.bind (Q := fun _ _ => False) ?_ fun _ c hc => hc.elim
  unfold flushOn
  refine (calledOn_spec fun _ h => h.1.committed).bind fun _ => ?_
  refine Spec.get_bind fun c hc => ?_
  cases hdb : insertObjects m.schema server c.session.visible (flushOrder c.session.pending) with
  | error e => exact Spec.throw fun c' e => e ▸ hc.1.committed
  | ok db' =>
      obtain ⟨hmapped, r, hr, hrole⟩ := hc.2 _ (List.mem_singleton_self _)
      have hadm := (users_of_insertObjects hdb hc.1.users).2 r (mem_flushOrder.mpr hr)
      rw [user_inadmissible hmapped hrole] at hadm
      cases hadm

theorem seedOn_spec {appEnv : String} (hdev : isDevelopment appEnv = true) :
    Spec (fun c => Within m.schema db c.session) (seedOn m.schema env server appEnv)
      (fun _ _ => False) (Unchanged db) := by
  unfold seedOn seedScript
  rw [if_pos hdev]
  refine (calledOn_spec fun _ h => h.committed).bind fun _ => ?_
  refine permissionsLoopOn_spec.bind fun permByCode => ?_
  refine (rolesLoopOn_spec permByCode).bind fun _ => ?_
  refine usersLoopOn_spec.bind fun _ => ?_
  exact commitOn_spec.bind fun _ c hc => hc.elim

/-- **Seeding a store a migration made never succeeds**: whatever statements ran on it and whichever
    calls fail, the script leaves the tables as they were, and in development it raises. -/
theorem seedOn_never_returns (m : Migration) (env : SessionEnv) (server : ColumnName → SqlValue F)
    (appEnv : String) (sts : List (PgStmt F)) :
    ∃ answer, runSeedOn m.schema env server appEnv (m.after sts) = (answer, m.after sts) ∧
      (isDevelopment appEnv = true → ∃ e, answer = .error e) := by
  by_cases hdev : isDevelopment appEnv = true
  · have hrun := @seedOn_spec F _ m env server (m.after sts) appEnv hdev
      ⟨Session.opened (m.after sts), 0⟩
      ⟨rfl, (m.consistent_after sts).rows .users (by cases m <;> decide)⟩
    unfold runSeedOn
    revert hrun
    cases seedOn m.schema env server appEnv ⟨Session.opened (m.after sts), 0⟩ with
    | ok line c => exact False.elim
    | error e c => exact fun hc => ⟨_, congrArg _ hc, fun _ => ⟨e, rfl⟩⟩
  · refine ⟨.ok "Refusing to seed — not in development mode.", ?_, fun h => absurd h hdev⟩
    unfold runSeedOn seedOn seedScript
    rw [if_neg hdev]
    rfl

end Stops

end

end AutomationPlatform
