import AutomationPlatform.Python.Text
import AutomationPlatform.Scripts.SeedRights
import AutomationPlatform.Store.Requests

/-!
# `app/dependencies.py`: who sends a request

`get_current_user` validates no token, so it refuses every request; unless `dev_bypass_auth` is set,
which makes the caller the user of one e-mail address, whatever the header. `Settings` declares no
such field, so no environment sets it (`devBypassAuth_eq_false`); what a settings class with the
field would do is modelled as well. `seed()` inserts the user.

* `currentUser_shipped`: the answer as things are;
* `currentUser_after`: the answers on tables that statements made;
* **`currentUser_seeded`**: the answers after a run of `seed()` and any requests.
-/

namespace AutomationPlatform

open Python Relational Raising Runs

/-! ## 1. The settings -/

/-- The fields of `Settings`, and its two properties. What the base class adds has other names than
    the one asked for here. -/
def settingsAttributes : List String := ["app_name", "app_version", "app_env", "app_host",
  "app_port", "debug", "secret_key", "database_url", "database_pool_size", "database_max_overflow",
  "redis_url", "celery_broker_url", "celery_result_backend", "jwt_algorithm",
  "jwt_access_token_expire_minutes", "jwt_refresh_token_expire_days", "log_level", "log_format",
  "sentry_dsn", "sentry_traces_sample_rate", "is_production", "is_development"]

/-- What `Settings()` makes of an environment: whether each attribute is truthy. `extra = "ignore"`
    drops the variables of other names. -/
structure Settings where
  truth : String → Option Bool
  declared : ∀ name, (truth name).isSome = true → name ∈ settingsAttributes

/-- `getattr(settings, name, default)`, as a condition. -/
def Settings.getattr (settings : Settings) (name : String) (default : Bool) : Bool :=
  (settings.truth name).getD default

theorem Settings.getattr_undeclared (settings : Settings) {name : String}
    (h : name ∉ settingsAttributes) (default : Bool) : settings.getattr name default = default := by
  unfold Settings.getattr
  cases hv : settings.truth name with
  | none => rfl
  | some v => exact absurd (settings.declared name (by rw [hv]; rfl)) h

/-- `getattr(settings, "dev_bypass_auth", False)`. -/
def devBypassAuth (settings : Settings) : Bool := settings.getattr "dev_bypass_auth" false

/-- **The bypass is never on.** -/
theorem devBypassAuth_eq_false (settings : Settings) : devBypassAuth settings = false :=
  settings.getattr_undeclared (by decide) false

/-! ## 2. The answers -/

/-- `HTTPException(status_code, detail, headers)`. -/
structure HttpException where
  statusCode : Nat
  detail : String
  headers : List (String × String)
  deriving DecidableEq, Repr

inductive AuthError where
  | http (e : HttpException)
  | session (e : SessionError)
  deriving DecidableEq, Repr

def devUserNotSeeded : HttpException where
  statusCode := 401
  detail := "Dev user not seeded — run scripts/seed_dev.py"
  headers := []

def malformedHeader : HttpException where
  statusCode := 401
  detail := "Missing or malformed Authorization header"
  headers := [("WWW-Authenticate", "Bearer")]

def validationNotImplemented : HttpException where
  statusCode := 401
  detail := "Token validation not implemented in this build"
  headers := []

section

variable [UnicodeData]

/-- `not authorization or not authorization.lower().startswith("bearer ")`. -/
def lacksBearer : Option String → Bool
  | none => true
  | some authorization =>
    authorization.isEmpty || !"bearer ".toList.isPrefixOf (lower authorization).toList

/-- What a request without the bypass is told. -/
def refusal (authorization : Option String) : HttpException :=
  if lacksBearer authorization then malformedHeader else validationNotImplemented

variable {F : Type} [DecidableEq F]

/-- `User.email == "dev@local"`. -/
def isDevUser (r : PgRow F) : Bool := r .email == some (.text "dev@local")

/-- `get_current_user(authorization, db)`, given what `getattr` finds in the settings. -/
def getCurrentUser (env : SessionEnv) (bypass : Bool) (authorization : Option String) :
    EStateM AuthError (Client F) (PgRow F) := do
  if bypass then
    match ← EStateM.adaptExcept .session (selectOne env .users isDevUser) with
    | none => throw (.http devUserNotSeeded)
    | some user => return user
  else throw (.http (refusal authorization))

/-- The answer to a request on the database, and the database it leaves. The session is the one of
    `get_db_session`, and nothing commits it. -/
def currentUser (env : SessionEnv) (bypass : Bool) (authorization : Option String)
    (db : PgDb F) : Except AuthError (PgRow F) × PgDb F :=
  match getCurrentUser env bypass authorization ⟨Session.opened db, 0⟩ with
  | .ok user c => (.ok user, c.session.committed)
  | .error e c => (.error e, c.session.committed)

/-- What is answered where `user` is the user of that address, if there is one. -/
def answerFor (env : SessionEnv) (bypass : Bool) (authorization : Option String)
    (user : Option (PgRow F)) : Except AuthError (PgRow F) :=
  if bypass then
    if env.fails 0 then .error (.session .failed)
    else user.elim (.error (.http devUserNotSeeded)) .ok
  else .error (.http (refusal authorization))

omit [UnicodeData] in
/-- The query of the bypass. -/
theorem selectDevUser_spec (env : SessionEnv) {db : PgDb F} {user : Option (PgRow F)}
    (h : (db .users).filter isDevUser = user.toList) :
    Spec (fun c => c = ⟨Session.opened db, 0⟩) (selectOne env .users isDevUser)
      (fun o c => o = user ∧ env.fails 0 = false ∧ c.session = Session.opened db)
      (fun e c => e = .failed ∧ env.fails 0 = true ∧ c.session = Session.opened db) := by
  have hcalled : Spec (fun c : Client F => c = ⟨Session.opened db, 0⟩) (called env)
      (fun _ c => env.fails 0 = false ∧ c.session = Session.opened db)
      (fun e c => e = .failed ∧ env.fails 0 = true ∧ c.session = Session.opened db) := by
    unfold called
    refine Spec.get_bind fun c hc => ?_
    refine Spec.bind (Q := fun _ c' => c'.session = Session.opened db)
      (Spec.set fun _ _ => by rw [hc]) fun _ => ?_
    rw [hc]
    split
    · rename_i hfails
      exact Spec.throw fun c' hc' => ⟨rfl, hfails, hc'⟩
    · rename_i hfails
      exact Spec.pure fun c' hc' => ⟨eq_false_of_ne_true hfails, hc'⟩
  unfold selectOne
  refine hcalled.bind fun _ => Spec.get_bind fun c hc => ?_
  have hrows : (c.session.visible .users).filter isDevUser = user.toList := by
    rw [hc.2]
    exact h
  rw [hrows]
  cases user with
  | none => exact Spec.pure fun c' e => ⟨rfl, e ▸ hc⟩
  | some user => exact Spec.pure fun c' e => ⟨rfl, e ▸ hc⟩

/-- The bypass turns the answer of the query into an answer to the request. -/
theorem getCurrentUser_bypass (env : SessionEnv) (authorization : Option String) (c : Client F) :
    getCurrentUser env true authorization c =
      match selectOne env .users isDevUser c with
      | .ok none c' => .error (.http devUserNotSeeded) c'
      | .ok (some user) c' => .ok user c'
      | .error e c' => .error (.session e) c' := by
  show EStateM.bind (EStateM.adaptExcept AuthError.session _) _ c = _
  unfold EStateM.bind EStateM.adaptExcept
  cases selectOne env .users isDevUser c with
  | ok user c' => cases user <;> rfl
  | error e c' => rfl

/-- **The answer on tables with at most one such user.** -/
theorem currentUser_eq (env : SessionEnv) (bypass : Bool) (authorization : Option String)
    {db : PgDb F} {user : Option (PgRow F)} (h : (db .users).filter isDevUser = user.toList) :
    currentUser env bypass authorization db = (answerFor env bypass authorization user, db) := by
  unfold currentUser answerFor
  cases bypass with
  | false => rfl
  | true =>
      have hsel := selectDevUser_spec env h ⟨Session.opened db, 0⟩ rfl
      rw [getCurrentUser_bypass]
      cases hr : selectOne env .users isDevUser ⟨Session.opened db, 0⟩ with
      | ok o c =>
          rw [hr] at hsel
          obtain ⟨rfl, hfails, hc⟩ := hsel
          rw [hfails]
          cases o <;> simp [hc, Session.opened]
      | error e c =>
          rw [hr] at hsel
          obtain ⟨rfl, hfails, hc⟩ := hsel
          rw [hfails]
          simp [hc, Session.opened]

/-- **As shipped, every request is refused**, whatever the settings, the header and the database. -/
theorem currentUser_shipped (env : SessionEnv) (settings : Settings)
    (authorization : Option String) (db : PgDb F) :
    currentUser env (devBypassAuth settings) authorization db =
      (.error (.http (refusal authorization)), db) := by
  rw [devBypassAuth_eq_false]
  rfl

/-! ## 3. Over runs of statements and requests -/

omit [UnicodeData] in
/-- The address is unique. -/
theorem exists_devUser {db : PgDb F} (hdb : Consistent ormSchema db) :
    ∃ user : Option (PgRow F), (db .users).filter isDevUser = user.toList := by
  have hcond : ∀ r s : PgRow F, isDevUser r = true → isDevUser s = true →
      agreeOn [.email] r s = true := agreeOn_of_text
  have hle := (hdb.keys .users (by decide) [.email] (by decide)).length_filter_le_one hcond
  generalize (db .users).filter isDevUser = rows at hle
  match rows, hle with
  | [], _ => exact ⟨none, rfl⟩
  | [r], _ => exact ⟨some r, rfl⟩

omit [UnicodeData] in
theorem filter_devUser {db : PgDb F} (hdb : Consistent ormSchema db) {user : PgRow F}
    (hmem : user ∈ db .users) (hdev : isDevUser user = true) :
    (db .users).filter isDevUser = [user] := by
  obtain ⟨o, ho⟩ := exists_devUser hdb
  have hin : user ∈ o.toList := ho ▸ List.mem_filter.mpr ⟨hmem, hdev⟩
  rw [ho, Option.mem_toList.mp hin]
  rfl

omit [UnicodeData] in
/-- What `seed()` leaves has the user. -/
theorem devUser_of_present {db : PgDb F} (h : Present db) :
    ∃ user ∈ db .users, isDevUser user = true := by
  obtain ⟨user, hmem, hemail⟩ := h.users _ List.mem_cons_self
  exact ⟨user, hmem, beq_iff_eq.mpr hemail⟩

/-- **On tables that statements made** no query finds two users, and no request is answered for
    another one. -/
theorem currentUser_after (sts : List (PgStmt F)) :
    let db := SchemaDef.createAll.after sts
    ∃ user : Option (PgRow F), (db .users).filter isDevUser = user.toList ∧
      ∀ env bypass authorization, currentUser env bypass authorization db =
        (answerFor env bypass authorization user, db) := by
  intro db
  obtain ⟨user, huser⟩ := exists_devUser (SchemaDef.createAll.consistent_after sts)
  exact ⟨user, huser, fun env bypass authorization => currentUser_eq env _ _ huser⟩

/-- **Once a run of `seed()` has returned**, its user is there. Whatever requests are served
    afterwards, those of the settings as shipped are refused; under the bypass none finds two users,
    they all have the user whom the table then holds, if any, and he is the one of the run as long
    as no statement changes or deletes him. -/
theorem currentUser_seeded (env : SessionEnv) (sts : List (PgStmt F)) {appEnv line : String}
    (hdev : isDevelopment appEnv = true)
    (hok : (runSeed env appEnv (SchemaDef.createAll.after sts)).1 = .ok line) :
    ∃ user ∈ (runSeed env appEnv (SchemaDef.createAll.after sts)).2 .users,
      isDevUser user = true ∧
      ∀ rs : List (Request F), (∀ r ∈ rs, r.body.Plain) →
        let db := run Request.serve (runSeed env appEnv (SchemaDef.createAll.after sts)).2 rs
        (∀ (env' : SessionEnv) (settings : Settings) (authorization : Option String),
          currentUser env' (devBypassAuth settings) authorization db =
            (.error (.http (refusal authorization)), db)) ∧
        ∃ found : Option (PgRow F), (db .users).filter isDevUser = found.toList ∧
          (∀ (env' : SessionEnv) (bypass : Bool) (authorization : Option String),
            currentUser env' bypass authorization db =
              (answerFor env' bypass authorization found, db)) ∧
          ((∀ r ∈ rs, r.body.Executes (·.SparesRow .users user)) → found = some user) := by
  have hdb : Consistent ormSchema (SchemaDef.createAll.after sts) :=
    SchemaDef.createAll.consistent_after sts
  rcases runSeed_cases env (keysHold_of_consistent hdb) hdev with
    ⟨line', db', hrun, hfin⟩ | ⟨e, hrun, -⟩
  · obtain ⟨rows, hrows⟩ := hfin.accepted
    obtain ⟨user, hmem, huser⟩ := devUser_of_present hfin.present
    rw [hrun]
    refine ⟨user, hmem, huser, fun rs hplain => ⟨fun env' settings authorization =>
      currentUser_shipped env' settings authorization _, ?_⟩⟩
    have hcons := requests_consistent rs hplain (consistent_insertAll hdb hrows)
    obtain ⟨found, hfound⟩ := exists_devUser hcons
    refine ⟨found, hfound, fun env' bypass authorization => currentUser_eq env' bypass _ hfound,
      fun hspares => ?_⟩
    have hthere := requests_spare rfl rs (fun r hr => ⟨hplain r hr, hspares r hr⟩) hmem
    rw [filter_devUser hcons hthere huser] at hfound
    cases found with
    | none => cases hfound
    | some found => exact congrArg some (List.singleton_inj.mp hfound).symm
  · rw [hrun] at hok
    cases hok

end

section Samples

open scoped Python.Ascii

/-- What a run of the script leaves of empty tables. -/
def seededTables : PgDb ℚ :=
  (runSeed sampleEnv "development" (SchemaDef.createAll.after [])).2

/-- From empty tables a run returns, and its user answers the next requests. -/
theorem currentUser_seeded_empty :
    ∃ user ∈ seededTables .users, isDevUser user = true ∧
      ∀ rs : List (Request ℚ), (∀ r ∈ rs, r.body.Plain) →
        let db := run Request.serve seededTables rs
        (∀ (env : SessionEnv) (settings : Settings) (authorization : Option String),
          currentUser env (devBypassAuth settings) authorization db =
            (.error (.http (refusal authorization)), db)) ∧
        ∃ found : Option (PgRow ℚ), (db .users).filter isDevUser = found.toList ∧
          (∀ (env : SessionEnv) (bypass : Bool) (authorization : Option String),
            currentUser env bypass authorization db =
              (answerFor env bypass authorization found, db)) ∧
          ((∀ r ∈ rs, r.body.Executes (·.SparesRow .users user)) → found = some user) := by
  have hkeys : KeysHold (SchemaDef.createAll.after [] : PgDb ℚ) :=
    keysHold_of_consistent (SchemaDef.createAll.consistent_after [])
  obtain ⟨line, hok⟩ := runSeed_returns hkeys (Or.inr freshIds_empty)
    (rfl : isDevelopment "development" = true) fun _ => rfl
  unfold seededTables
  exact currentUser_seeded sampleEnv [] rfl hok

end Samples

end AutomationPlatform
