import AutomationPlatform.Database.SessionScope
import AutomationPlatform.Orchestrator.Identity
import AutomationPlatform.Python.Ascii
import AutomationPlatform.Scripts.SeedConverges

/-!
# What seeding permits

A permission is granted if one of the roles of a user carries it, and a role carries the permissions
that `role_permissions` pairs it with. **`seed_permits`**: on any tables that statements made, a run
of `seed()` that returns makes `check_permission` pass for the pairs of `SEED_ROLES` and for what
passed before, and for nothing else.

A row of `role_permissions` names ids. That the run adds no pair but its own is followed through the
script (`PairsOnly`); that an old row means afterwards what it meant before rests on the foreign
keys and the unique ids.
-/

namespace AutomationPlatform

open Python Relational Raising

variable {F : Type}

/-! ## 1. The permissions of some roles -/

def SqlValue.text? : SqlValue F → Option String
  | .text s => some s
  | _ => none

/-- The role of this name carries the permission of this code. -/
def Carries (db : PgDb F) (name code : String) : Prop :=
  ∃ r ∈ db .rolePermissions, IsPair db (name, code) r

section

variable [DecidableEq F]

/-- The codes that the roles of these names carry. -/
def codesOf (db : PgDb F) (names : List String) : List String :=
  ((db .roles).filter fun role => ((role .name).bind SqlValue.text?).any names.contains).flatMap
    fun role => ((db .rolePermissions).filter fun r => r .roleId == role .id).flatMap
      fun r => ((db .permissions).filter fun perm => r .permissionId == perm .id).filterMap
        fun perm => (perm .code).bind SqlValue.text?

omit [DecidableEq F] in
theorem bind_text?_eq_some_iff {o : Option (SqlValue F)} {s : String} :
    o.bind SqlValue.text? = some s ↔ o = some (.text s) := by
  cases o with
  | none => simp
  | some v => cases v <;> simp [SqlValue.text?]

theorem mem_codesOf_iff {db : PgDb F} {names : List String} {code : String} :
    code ∈ codesOf db names ↔ ∃ name ∈ names, Carries db name code := by
  unfold codesOf Carries IsPair
  simp only [List.mem_flatMap, List.mem_filter, List.mem_filterMap, bind_text?_eq_some_iff,
    beq_iff_eq, Option.any_eq_true, List.contains_iff_mem]
  constructor
  · rintro ⟨role, ⟨hrole, name, hname, hmem⟩, r, ⟨hr, hid⟩, perm, ⟨hperm, hpid⟩, hcode⟩
    exact ⟨name, hmem, r, hr, role, hrole, perm, hperm, hname, hcode, hid, hpid⟩
  · rintro ⟨name, hmem, r, hr, role, hrole, perm, hperm, hname, hcode, hid, hpid⟩
    exact ⟨role, ⟨hrole, name, hname, hmem⟩, r, ⟨hr, hid⟩, perm, ⟨hperm, hpid⟩, hcode⟩

end

/-! ## 2. The pairs a run adds -/

/-- The row is one of the pairs of `SEED_ROLES`. -/
def IsSeedPair (db : PgDb F) (r : PgRow F) : Prop :=
  ∃ pair ∈ pairsOf seedRoles.items, IsPair db pair r

/-- **The script and `identity.py` name the same codes**: every check can pass for some seeded role,
    and no role carries a code that nothing checks. -/
theorem mem_permissionCodes_iff (code : String) :
    code ∈ permissionCodes ↔ ∃ name, (name, code) ∈ pairsOf seedRoles.items := by
  have hto : ∀ code ∈ permissionCodes, ("admin", code) ∈ pairsOf seedRoles.items := by decide
  have hfrom : ∀ pair ∈ pairsOf seedRoles.items, pair.2 ∈ permissionCodes := by decide
  exact ⟨fun h => ⟨"admin", hto code h⟩, fun ⟨name, h⟩ => hfrom (name, code) h⟩

/-- The pairs of the session are those that were there and those of `SEED_ROLES`. -/
structure PairsOnly (db0 : PgDb F) (s : Session F) : Prop where
  visible : ∀ r ∈ s.visible .rolePermissions,
    r ∈ db0 .rolePermissions ∨ IsSeedPair s.visible r
  pending : ∀ r, (.rolePermissions, r) ∈ s.pending → IsSeedPair s.visible r

/-- `perm_by_code` holds visible permissions. -/
def Knows (permByCode : Dict String (PgRow F)) (s : Session F) : Prop :=
  ∀ code r, permByCode.get? code = some r →
    r ∈ s.visible .permissions ∧ r .code = some (.text code)

theorem IsSeedPair.mono {db db' : PgDb F} (h : ∀ t, db t <+: db' t) {r : PgRow F}
    (hr : IsSeedPair db r) : IsSeedPair db' r := by
  obtain ⟨pair, hpair, hpr⟩ := hr
  exact ⟨pair, hpair, hpr.mono h⟩

/-- What is known between two calls. -/
structure Follows (db0 : PgDb F) (permByCode : Dict String (PgRow F)) (s : Session F) : Prop where
  pairs : PairsOnly db0 s
  knows : Knows permByCode s

section Script

variable [DecidableEq F] {env : SessionEnv} {db0 : PgDb F} {permByCode : Dict String (PgRow F)}

/-- An error ends the run; nothing is said of it here. -/
def Anyhow (_ : SessionError) (_ : Client F) : Prop := True

theorem Follows.flushed {s : Session F} (h : Follows db0 permByCode s) {db : PgDb F}
    (hdb : insertAll ormSchema s.visible (flushOrder s.pending) = some db) :
    Follows db0 permByCode { s with visible := db, pending := [] } := by
  have hgrow := isPrefix_insertAll hdb
  refine ⟨⟨fun r hr => ?_, fun r hr => absurd hr List.not_mem_nil⟩, fun code r hget => ?_⟩
  · rcases (mem_insertAll hdb r).mp hr with hold | hnew
    · exact (h.pairs.visible r hold).imp_right fun hpair => hpair.mono hgrow
    · exact Or.inr ((h.pairs.pending r (mem_flushOrder.mp hnew)).mono hgrow)
  · obtain ⟨hr, hcode⟩ := h.knows code r hget
    exact ⟨(hgrow .permissions).subset hr, hcode⟩

omit [DecidableEq F] in
theorem called_anyhow {P : Session F → Prop} :
    Spec (fun c => P c.session) (called env) (fun _ c => P c.session) Anyhow :=
  called_keeps fun _ _ _ _ => trivial

omit [DecidableEq F] in
theorem selectOne_anyhow {P : Session F → Prop} {t : TableName} {cond : PgRow F → Bool} :
    Spec (fun c => P c.session) (selectOne env t cond)
      (fun o c => P c.session ∧ ∀ r ∈ o, r ∈ c.session.visible t ∧ cond r = true) Anyhow := by
  unfold selectOne
  refine called_anyhow.bind fun _ => Spec.get_bind fun c hc => ?_
  cases hrows : (c.session.visible t).filter cond with
  | nil => exact Spec.pure fun c' e => e ▸ ⟨hc, nofun⟩
  | cons r rest =>
      cases rest with
      | cons s rest => exact Spec.throw fun _ _ => trivial
      | nil =>
          refine Spec.pure fun c' e => e ▸ ⟨hc, fun r' hr' => ?_⟩
          cases hr'
          exact List.mem_filter.mp (hrows ▸ List.mem_singleton_self r)

theorem flush_follows {q : TableName × PgRow F} :
    Spec (fun c => Follows db0 permByCode c.session ∧ q ∈ c.session.pending) (flush env)
      (fun _ c => Follows db0 permByCode c.session ∧ q.2 ∈ c.session.visible q.1) Anyhow := by
  unfold flush
  refine (called_anyhow (P := fun s => Follows db0 permByCode s ∧ q ∈ s.pending)).bind fun _ => ?_
  refine Spec.get_bind fun c hc => ?_
  cases hdb : insertAll ormSchema c.session.visible (flushOrder c.session.pending) with
  | none => exact Spec.throw fun _ _ => trivial
  | some db => exact Spec.set fun _ _ =>
      ⟨hc.1.flushed hdb, (mem_insertAll hdb q.2).mpr (Or.inr (mem_flushOrder.mpr hc.2))⟩

omit [DecidableEq F] in
/-- Adding an object of another class. -/
theorem add_follows {m : Model} (hm : m.mapped.tablename ≠ .rolePermissions)
    (attrs : Named ColumnName (SqlValue F)) :
    Spec (fun c => Follows db0 permByCode c.session) (add env m attrs)
      (fun r c => Follows db0 permByCode c.session ∧
        (m.mapped.tablename, r) ∈ c.session.pending ∧ ∃ drawn, r = m.construct drawn attrs)
      Anyhow := by
  intro c hc
  refine ⟨⟨⟨hc.pairs.visible, fun r hr => ?_⟩, hc.knows⟩,
    List.mem_append_right _ (List.mem_singleton_self _), ⟨_, rfl⟩⟩
  rcases List.mem_append.mp hr with hr | hr
  · exact hc.pairs.pending r hr
  · exact absurd (congrArg Prod.fst (List.mem_singleton.mp hr)).symm hm

theorem findOrFlush_follows {m : Model} (hm : m.mapped.tablename ≠ .rolePermissions)
    (col : ColumnName) (text : String) (attrs : Named ColumnName (SqlValue F))
    (htext : ∀ drawn, m.construct drawn ((col, some (.text text)) :: attrs) col =
      some (.text text)) :
    Spec (fun c => Follows db0 permByCode c.session) (findOrFlush (ormCalls env) m col text attrs)
      (fun r c => Follows db0 permByCode c.session ∧ r ∈ c.session.visible m.mapped.tablename ∧
        r col = some (.text text)) Anyhow := by
  unfold findOrFlush
  refine (selectOne_anyhow (P := Follows db0 permByCode)).bind fun o => ?_
  cases o with
  | some r => exact Spec.pure fun c hc =>
      ⟨hc.1, (hc.2 r rfl).1, beq_iff_eq.mp (hc.2 r rfl).2⟩
  | none =>
      refine ((add_follows hm _).imp (fun c hc => hc.1) fun _ _ h => h).bind fun r => ?_
      refine Spec.bind (Q := fun _ c => (Follows db0 permByCode c.session ∧
        r ∈ c.session.visible m.mapped.tablename) ∧ r col = some (.text text)) ?_
        fun _ => Spec.pure fun c hc => ⟨hc.1.1, hc.1.2, hc.2⟩
      refine Spec.of_eq fun c ⟨hfollows, hpending, drawn, hr⟩ => ?_
      exact (flush_follows (q := (m.mapped.tablename, r))).imp
        (fun c' e => e ▸ ⟨hfollows, hpending⟩) fun _ c' h => ⟨h, hr ▸ htext drawn⟩

theorem permissionsLoop_follows :
    Spec (fun c => Follows db0 Dict.empty c.session)
      (seedPermissions.foldlM (seedPermission (ormCalls env)) Dict.empty)
      (fun permByCode c => Follows db0 permByCode c.session) Anyhow := by
  refine Spec.foldlM (I := fun _ permByCode (c : Client F) => Follows db0 permByCode c.session)
    (fun _ item _ permByCode _ => ?_) _
  unfold seedPermission
  refine (findOrFlush_follows (m := .permission) (by decide) .code item.1 _ fun _ => rfl).bind
    fun p => Spec.pure fun c hc => ⟨hc.1.pairs, fun code r hget => ?_⟩
  rw [Dict.get?_insert] at hget
  split at hget
  · rename_i hcode
    cases hget
    exact ⟨hc.2.1, hcode ▸ hc.2.2⟩
  · exact hc.1.knows code r hget

/-- A pair is staged for a visible role. -/
theorem seedPair_follows {role : PgRow F} {name code : String}
    (hpair : (name, code) ∈ pairsOf seedRoles.items) (hname : role .name = some (.text name)) :
    Spec (fun c => Follows db0 permByCode c.session ∧ role ∈ c.session.visible .roles)
      (seedPair (ormCalls env) permByCode role code)
      (fun _ c => Follows db0 permByCode c.session ∧ role ∈ c.session.visible .roles) Anyhow := by
  unfold seedPair
  cases hget : permByCode.get? code with
  | none => exact Spec.throw fun _ _ => trivial
  | some perm =>
      refine (selectOne_anyhow
        (P := fun s => Follows db0 permByCode s ∧ role ∈ s.visible .roles)).bind fun o => ?_
      cases o with
      | some r => exact Spec.pure fun c hc => hc.1
      | none =>
          refine Spec.bind (Q := fun _ c => Follows db0 permByCode c.session ∧
            role ∈ c.session.visible .roles) (fun c hc => ?_) fun _ => Spec.pure fun c hc => hc
          obtain ⟨⟨hfollows, hrole⟩, -⟩ := hc
          obtain ⟨hperm, hcode⟩ := hfollows.knows code perm hget
          refine ⟨⟨⟨hfollows.pairs.visible, fun r hr => ?_⟩, hfollows.knows⟩, hrole⟩
          rcases List.mem_append.mp hr with hr | hr
          · exact hfollows.pairs.pending r hr
          · have hr' : r = _ := congrArg Prod.snd (List.mem_singleton.mp hr)
            rw [hr']
            exact ⟨_, hpair, isPair_construct hrole hname hperm hcode _⟩

theorem rolesLoop_follows :
    Spec (fun c => Follows db0 permByCode c.session)
      (seedRoles.items.forM (seedRole (ormCalls env) permByCode))
      (fun _ c => Follows db0 permByCode c.session) Anyhow := by
  refine Spec.forM (I := fun _ (c : Client F) => Follows db0 permByCode c.session)
    fun done item rest e => ?_
  have hitem : item ∈ seedRoles.items := e ▸ List.mem_append_right _ List.mem_cons_self
  unfold seedRole
  refine (findOrFlush_follows (m := .role) (by decide) .name item.1 _ fun _ => rfl).bind
    fun role => ?_
  refine Spec.of_eq fun c hc => ?_
  refine (Spec.forM (I := fun _ (c : Client F) => Follows db0 permByCode c.session ∧
    role ∈ c.session.visible .roles) fun done' code rest' e' => seedPair_follows ?_ hc.2.2).imp
      (fun c' e => e ▸ ⟨hc.1, hc.2.1⟩) fun _ c' h => h.1
  have hcode : code ∈ item.2 := e' ▸ List.mem_append_right _ List.mem_cons_self
  exact List.mem_flatMap.mpr ⟨item, hitem, List.mem_map_of_mem hcode⟩

theorem usersLoop_follows :
    Spec (fun c => Follows db0 permByCode c.session) (seedUsers.forM (seedUser (ormCalls env)))
      (fun _ c => Follows db0 permByCode c.session) Anyhow := by
  refine Spec.forM (I := fun _ (c : Client F) => Follows db0 permByCode c.session)
    fun _ u _ _ => ?_
  unfold seedUser
  refine (selectOne_anyhow (P := Follows db0 permByCode)).bind fun o => ?_
  cases o with
  | some r => exact Spec.pure fun c hc => hc.1
  | none =>
      exact ((add_follows (by decide) _).imp (fun c hc => hc.1) fun _ _ h => h).bind
        fun _ => Spec.pure fun c hc => hc.1

theorem seed_follows (env : SessionEnv) (appEnv : String) (hdev : isDevelopment appEnv = true) :
    Spec (fun c => c.session = Session.opened db0) (seed env appEnv)
      (fun _ c => ∀ r ∈ c.session.committed .rolePermissions,
        r ∈ db0 .rolePermissions ∨ IsSeedPair c.session.committed r) Anyhow := by
  unfold seed seedScript
  rw [if_pos hdev]
  refine (called_anyhow (P := fun s => s = Session.opened db0)).bind fun _ => ?_
  refine Spec.bind (Q := fun permByCode c => Follows db0 permByCode c.session)
    (permissionsLoop_follows.imp (fun c hc => ?_) fun _ _ h => h) fun permByCode => ?_
  · rw [hc]
    exact ⟨⟨fun r hr => Or.inl hr, nofun⟩, fun code r hget => by cases hget⟩
  refine rolesLoop_follows.bind fun _ => usersLoop_follows.bind fun _ => ?_
  refine Spec.bind (Q := fun _ c => ∀ r ∈ c.session.committed .rolePermissions,
    r ∈ db0 .rolePermissions ∨ IsSeedPair c.session.committed r) ?_
    fun _ => Spec.pure fun c hc => hc
  show Spec _ (commitSession env) _ _
  unfold commitSession flush
  refine Spec.bind (Q := fun _ c => Follows db0 permByCode c.session) ?_ fun _ =>
    (called_anyhow (P := Follows db0 permByCode)).bind fun _ =>
      Spec.modify fun c hc => hc.pairs.visible
  refine (called_anyhow (P := Follows db0 permByCode)).bind fun _ => ?_
  refine Spec.get_bind fun c hc => ?_
  cases hdb : insertAll ormSchema c.session.visible (flushOrder c.session.pending) with
  | none => exact Spec.throw fun _ _ => trivial
  | some db => exact Spec.set fun _ _ => hc.flushed hdb

/-! ## 3. What the run permits -/

/-- An old pair means after the run what it meant before. -/
theorem carries_of_old {db db' : PgDb F} (hdb : Consistent ormSchema db) (hkeys : KeysHold db')
    (hkept : ∀ t, db t <+: db' t) {r : PgRow F} (hr : r ∈ db .rolePermissions)
    {pair : String × String} (h : IsPair db' pair r) : Carries db pair.1 pair.2 := by
  obtain ⟨role, hrole, perm, hperm, hname, hcode, hid, hpid⟩ := h
  obtain ⟨u, hu⟩ := hkeys.id_of_mem (by decide) rfl hrole
  obtain ⟨v, hv⟩ := hkeys.id_of_mem (by decide) rfl hperm
  have hroleRef := hdb.refs .rolePermissions (by decide) (refId .roleId .roles .cascade)
    (by decide) r hr
  have hpermRef := hdb.refs .rolePermissions (by decide) (refId .permissionId .permissions .cascade)
    (by decide) r hr
  rw [refersWithin_iff] at hroleRef hpermRef
  obtain ⟨role', hrole', href⟩ := hroleRef.resolve_left (by
    show r .roleId ≠ none
    rw [hid, hu]
    simp)
  obtain ⟨perm', hperm', href'⟩ := hpermRef.resolve_left (by
    show r .permissionId ≠ none
    rw [hpid, hv]
    simp)
  have hid' : role' .id = some (.uuid u) := ((references_iff.mp href).2.symm.trans hid).trans hu
  have hpid' : perm' .id = some (.uuid v) := ((references_iff.mp href').2.symm.trans hpid).trans hv
  have hsame : role = role' := hkeys.eq_of_column (by decide) (by decide) hrole
    ((hkept .roles).subset hrole') hu hid'
  have hsame' : perm = perm' := hkeys.eq_of_column (by decide) (by decide) hperm
    ((hkept .permissions).subset hperm') hv hpid'
  subst hsame
  subst hsame'
  exact ⟨r, hr, role, hrole', perm, hperm', hname, hcode, hid, hpid⟩

end Script

section Rights

variable [DecidableEq F]

/-- A run that returns kept what was there, has every seed, and added no other pair. -/
theorem carries_runSeed {db db' : PgDb F} (hdb : Consistent ormSchema db) (hkeys : KeysHold db')
    (hkept : ∀ t, db t <+: db' t) (hpresent : Present db')
    (honly : ∀ r ∈ db' .rolePermissions, r ∈ db .rolePermissions ∨ IsSeedPair db' r)
    (name code : String) :
    Carries db' name code ↔ Carries db name code ∨ (name, code) ∈ pairsOf seedRoles.items := by
  constructor
  · rintro ⟨r, hr, hpair⟩
    rcases honly r hr with hold | ⟨pair, hmem, hpair'⟩
    · exact Or.inl (carries_of_old hdb hkeys hkept hold hpair)
    · rw [hpair.unique hkeys hpair']
      exact Or.inr hmem
  · rintro (⟨r, hr, hpair⟩ | hmem)
    · exact ⟨r, (hkept _).subset hr, hpair.mono hkept⟩
    · exact hpresent.pairs _ hmem

variable [UnicodeData]

/-- **What a run permits**: `check_permission` passes for a user with the roles `names` where it
    passed before and where `SEED_ROLES` gives one of them the permission. -/
theorem seed_permits (env : SessionEnv) (sts : List (PgStmt F)) {appEnv line : String}
    (hdev : isDevelopment appEnv = true)
    (hok : (runSeed env appEnv (SchemaDef.createAll.after sts)).1 = .ok line)
    (names : List String) (required : String) :
    let db := SchemaDef.createAll.after sts
    checkPermission (codesOf (runSeed env appEnv db).2 names) required = .ok () ↔
      checkPermission (codesOf db names) required = .ok () ∨
        ∃ name ∈ names, (name, required) ∈ pairsOf seedRoles.items := by
  intro db
  have hdb : Consistent ormSchema db := SchemaDef.createAll.consistent_after sts
  have hkeys : KeysHold db := keysHold_of_consistent hdb
  have hfollows := seed_follows env appEnv hdev ⟨Session.opened db, 0⟩ rfl
  rcases runSeed_cases env hkeys hdev with ⟨line', db', hrun, hfin⟩ | ⟨e, hrun, -⟩
  · have honly : ∀ r ∈ db' .rolePermissions, r ∈ db .rolePermissions ∨ IsSeedPair db' r := by
      unfold runSeed at hrun
      cases hseed : seed env appEnv ⟨Session.opened db, 0⟩ with
      | ok a c =>
          rw [hseed] at hrun hfollows
          cases hrun
          exact hfollows
      | error e c =>
          rw [hseed] at hrun
          cases hrun
    have hconv := converged_of_finished hkeys hfin hdev
    rw [hrun, checkPermission_eq_ok_iff, checkPermission_eq_ok_iff, mem_codesOf_iff,
      mem_codesOf_iff]
    simp only [carries_runSeed hdb hconv.keys hconv.kept hfin.present honly]
    simp only [and_or_left, exists_or]
  · rw [show (runSeed env appEnv (SchemaDef.createAll.after sts)).1 = _ from
      congrArg Prod.fst hrun] at hok
    cases hok

end Rights

section Samples

open scoped Python.Ascii

theorem freshIds_empty : FreshIds sampleEnv (SchemaDef.createAll.after [] : PgDb ℚ) where
  distinct := freshIds_samplePartial.distinct
  unused _ _ _ _ _ hr := absurd hr List.not_mem_nil

/-- From empty tables a run returns, and a reviewer may do what `SEED_ROLES` says. -/
theorem seed_permits_reviewer :
    let db : PgDb ℚ := SchemaDef.createAll.after []
    ∃ line, (runSeed sampleEnv "development" db).1 = .ok line ∧
      (checkPermission (codesOf (runSeed sampleEnv "development" db).2 ["reviewer"])
          permUserManage = .ok () ↔
        checkPermission (codesOf db ["reviewer"]) permUserManage = .ok () ∨
          ∃ name ∈ ["reviewer"], (name, permUserManage) ∈ pairsOf seedRoles.items) := by
  intro db
  have hkeys : KeysHold db := keysHold_of_consistent (SchemaDef.createAll.consistent_after [])
  obtain ⟨line, hok⟩ := runSeed_returns hkeys (Or.inr freshIds_empty)
    (rfl : isDevelopment "development" = true) fun _ => rfl
  exact ⟨line, hok, seed_permits sampleEnv [] rfl hok ["reviewer"] permUserManage⟩

end Samples

end AutomationPlatform
