import AutomationPlatform.Database.Session

/-!
# `scripts/seed_dev.py`: seeding a development database

The dict `role_by_name` of the script is left out: nothing reads it.
-/

namespace AutomationPlatform

open Python Relational Raising

/-! ## The seed data -/

def seedPermissions : List (String × String) := [
  ("task:create", "Create new tasks"),
  ("task:cancel", "Cancel pending or running tasks"),
  ("review:suggestion", "Approve / reject suggestions"),
  ("audit:read", "Read the audit log"),
  ("user:manage", "Manage users and roles"),
  ("template:edit", "Create / edit templates") ]

/-- The items of `SEED_ROLES`. -/
def seedRoles : Dict String (List String) :=
  ⟨[ ("admin", seedPermissions.map Prod.fst),
     ("reviewer", ["review:suggestion", "audit:read"]),
     ("operator", ["task:create", "task:cancel", "audit:read"]),
     ("viewer", ["audit:read"]) ], by decide⟩

/-- The keyword arguments of a seed user. -/
structure SeedUser where
  email : String
  fullName : String
  primaryRole : UserRoleEnum
  passwordHash : Option String

def seedUsers : List SeedUser := [
  { email := "dev@local"
    fullName := "Dev User"
    primaryRole := .admin
    passwordHash := none } ]

/-- `settings.is_development`. -/
def isDevelopment (appEnv : String) : Bool := appEnv == "development"

/-! ## The script -/

/-- The calls the script makes on its session, and what a missing key raises. -/
structure SeedCalls (ε F : Type) where
  initDb : EStateM ε (Client F) Unit
  selectOne : Model → (PgRow F → Bool) → EStateM ε (Client F) (Option (PgRow F))
  add : Model → Named ColumnName (SqlValue F) → EStateM ε (Client F) (PgRow F)
  flush : EStateM ε (Client F) Unit
  commit : EStateM ε (Client F) Unit
  keyError : ε

section

variable {ε F : Type} [DecidableEq F] (calls : SeedCalls ε F)

/-- The row of the class with the text in a unique column; a new one is flushed. Both the loop over
    the permissions and the loop over the roles begin so. -/
def findOrFlush (m : Model) (col : ColumnName) (text : String)
    (attrs : Named ColumnName (SqlValue F)) :
    EStateM ε (Client F) (PgRow F) := do
  match ← calls.selectOne m fun r => r col == some (.text text) with
  | none =>
    let r ← calls.add m ((col, some (.text text)) :: attrs)
    calls.flush
    return r
  | some existing => return existing

/-- One round of the first loop; `perm_by_code` with the permission of the code. -/
def seedPermission (permByCode : Dict String (PgRow F)) (item : String × String) :
    EStateM ε (Client F) (Dict String (PgRow F)) := do
  let p ← findOrFlush calls .permission .code item.1 [(.description, some (.text item.2))]
  return permByCode.insert item.1 p

/-- One round of the inner loop: the pair is staged and not flushed. -/
def seedPair (permByCode : Dict String (PgRow F)) (role : PgRow F) (code : String) :
    EStateM ε (Client F) PUnit := do
  match permByCode.get? code with
  | none => throw calls.keyError
  | some perm =>
    match ← calls.selectOne .rolePermissions fun r =>
        r .roleId == role .id && r .permissionId == perm .id with
    | none =>
      let _ ← calls.add .rolePermissions [(.roleId, role .id), (.permissionId, perm .id)]
    | some _ => return ⟨⟩

/-- One round of the second loop. -/
def seedRole (permByCode : Dict String (PgRow F)) (item : String × List String) :
    EStateM ε (Client F) PUnit := do
  let role ← findOrFlush calls .role .name item.1
    [(.description, some (.text ("Seed role: " ++ item.1)))]
  item.2.forM (seedPair calls permByCode role)

/-- One round of the third loop. -/
def seedUser (u : SeedUser) : EStateM ε (Client F) PUnit := do
  match ← calls.selectOne .user fun r => r .email == some (.text u.email) with
  | none =>
    let _ ← calls.add .user [
      (.email, some (.text u.email)), (.fullName, some (.text u.fullName)),
      (.primaryRole, some (.text u.primaryRole.name)), (.passwordHash, u.passwordHash.map .text)]
  | some _ => return ⟨⟩

/-- `seed()`, with the line it prints, whatever its calls do. -/
def seedScript (appEnv : String) : EStateM ε (Client F) String := do
  if isDevelopment appEnv then
    calls.initDb
    let permByCode ← seedPermissions.foldlM (seedPermission calls) Dict.empty
    seedRoles.items.forM (seedRole calls permByCode)
    seedUsers.forM (seedUser calls)
    calls.commit
    return s!"Seed complete: {seedPermissions.length} permissions, " ++
      s!"{seedRoles.items.length} roles, {seedUsers.length} users."
  else return "Refusing to seed — not in development mode."

end

/-! ## On the tables of `init_db` -/

section

variable {F : Type} [DecidableEq F] (env : SessionEnv)

/-- `init_db()`: `create_all` adds the tables that are missing and leaves the others alone. -/
def initDb : SessionM F Unit := called env

def ormCalls : SeedCalls SessionError F where
  initDb := initDb env
  selectOne m cond := selectOne env m.mapped.tablename cond
  add m attrs := add env m attrs
  flush := flush env
  commit := commitSession env
  keyError := .keyError

/-- `seed()`. -/
def seed (appEnv : String) : SessionM F String := seedScript (ormCalls env) appEnv

/-- What a run prints or raises, and the tables it leaves: closing the session keeps what was
    committed. -/
def runSeed (appEnv : String) (db : PgDb F) : Except SessionError String × PgDb F :=
  match seed env appEnv ⟨Session.opened db, 0⟩ with
  | .ok line c => (.ok line, c.session.committed)
  | .error e c => (.error e, c.session.committed)

end

end AutomationPlatform
