import AutomationPlatform.Database.SchemaDef
import AutomationPlatform.Scripts.SeedLoops
import Mathlib.Data.Rat.Defs

/-!
# Seeding converges

A run of `seed()` on any contents of the tables that meet their keys.

* `seed_spec`: the whole script, from tables that lack seeds and from tables that have them all;
* **`seed_converges`**: a run that returns leaves every seed there once and all that was there
  before, and a second run adds nothing; a run that is stopped leaves the tables as they were;
* `runSeed_reachable`: on tables that statements made, a run is more statements.
-/

namespace AutomationPlatform

open Python Relational Raising Runs

variable {F : Type}

/-! ## 1. The script -/

section Script

variable [DecidableEq F] {env : SessionEnv} {db0 : PgDb F}

/-- The seeds of these rounds of the three loops. -/
def Through.rounds (permissions : List (String × String)) (roles : List (String × List String))
    (users : List SeedUser) : Through where
  rows := permissions.length + roles.length + (pairsOf roles).length + users.length
  codes := permissions.map Prod.fst
  names := roles.map Prod.fst
  pairs := pairsOf roles
  emails := users.map SeedUser.email

section Rounds

variable (permissions : List (String × String)) (roles : List (String × List String))
  (users : List SeedUser)

theorem rounds_permission (item : String × String) :
    Through.rounds (permissions ++ [item]) roles users =
      { Through.rounds permissions roles users with
        rows := (Through.rounds permissions roles users).rows + 1
        codes := (Through.rounds permissions roles users).codes ++ [item.1] } := by
  simp [Through.rounds]
  omega

theorem rounds_role (item : String × List String) :
    Through.rounds permissions (roles ++ [item]) users =
      { Through.rounds permissions roles users with
        rows := (Through.rounds permissions roles users).rows + 1 + item.2.length
        names := (Through.rounds permissions roles users).names ++ [item.1]
        pairs := (Through.rounds permissions roles users).pairs ++ pairsOfRole item } := by
  simp [Through.rounds, pairsOf]
  omega

theorem rounds_user (u : SeedUser) :
    Through.rounds permissions roles (users ++ [u]) =
      { Through.rounds permissions roles users with
        rows := (Through.rounds permissions roles users).rows + 1
        emails := (Through.rounds permissions roles users).emails ++ [u.email] } := by
  simp [Through.rounds]
  omega

end Rounds

/-- Between two rounds, of the rows a run is heading for. -/
abbrev Between (env : SessionEnv) (db0 : PgDb F) (permByCode : Dict String (PgRow F))
    (done : Through) (c : Client F) : Prop :=
  ∃ db, Progress env db0 permByCode done db c.session

theorem permissionsLoop_spec (hkeys : KeysHold db0) :
    Spec (Between env db0 Dict.empty (.rounds [] [] []))
      (seedPermissions.foldlM (seedPermission (ormCalls env)) Dict.empty)
      (fun permByCode => Between env db0 permByCode (.rounds seedPermissions [] []))
      (Halted env db0) := by
  refine Spec.foldlM (I := fun items permByCode =>
    Between env db0 permByCode (.rounds items [] [])) (fun items item rest permByCode e => ?_) _
  have hitem : item ∈ seedPermissions := e ▸ List.mem_append_right _ List.mem_cons_self
  have hroom : (Through.rounds items [] []).rows < seedCount := by
    simp [Through.rounds, seedCount, pairsOf, e]
    omega
  refine (seedPermission_spec hkeys hitem hroom).imp (fun c h => h) fun permByCode' c h => ?_
  rw [rounds_permission]
  exact h

theorem rolesLoop_spec (hkeys : KeysHold db0)
    (permByCode : Dict String (PgRow F)) :
    Spec (Between env db0 permByCode (.rounds seedPermissions [] []))
      (seedRoles.items.forM (seedRole (ormCalls env) permByCode))
      (fun _ => Between env db0 permByCode (.rounds seedPermissions seedRoles.items []))
      (Halted env db0) := by
  refine Spec.forM (I := fun items => Between env db0 permByCode
    (.rounds seedPermissions items [])) fun items item rest e => ?_
  have hitem : item ∈ seedRoles.items := e ▸ List.mem_append_right _ List.mem_cons_self
  have hnodup : (pairsOf items ++ pairsOfRole item).Nodup := by
    have h := seedPairs_nodup
    rw [e, List.append_cons, pairsOf, List.flatMap_append] at h
    simpa [pairsOf] using (List.nodup_append.mp h).1
  have hroom : (Through.rounds seedPermissions items []).rows < seedCount := by
    simp [Through.rounds, seedCount, pairsOf, e]
    omega
  refine (seedRole_spec hkeys hitem (seedRoles_codes item hitem) hnodup hroom).imp
    (fun c h => h) fun _ c h => ?_
  rw [rounds_role]
  exact h

theorem usersLoop_spec (hkeys : KeysHold db0) (permByCode : Dict String (PgRow F)) :
    Spec (Between env db0 permByCode (.rounds seedPermissions seedRoles.items []))
      (seedUsers.forM (seedUser (ormCalls env)))
      (fun _ c => Between env db0 permByCode (.rounds seedPermissions seedRoles.items seedUsers) c ∨
        Doomed env db0 c.session)
      (Halted env db0) := by
  refine (Spec.forM (I := fun users c => Between env db0 permByCode
    (.rounds seedPermissions seedRoles.items users) c ∨ Doomed env db0 c.session)
    fun users u rest e => ?_).imp (fun c h => Or.inl h) fun _ c h => h
  have hu : u ∈ seedUsers := e ▸ List.mem_append_right _ List.mem_cons_self
  have hnew : u.email ∉ users.map SeedUser.email := fun hmem => by
    have h := seedUsers_nodup
    rw [e, List.map_append, List.map_cons] at h
    exact (List.nodup_append.mp h).2.2 _ hmem _ List.mem_cons_self rfl
  have hroom : (Through.rounds seedPermissions seedRoles.items users).rows < seedCount := by
    simp [Through.rounds, seedCount, e]
  refine (seedUser_spec hkeys hu hnew hroom).imp (fun c h => h) fun _ c h => ?_
  rw [rounds_user]
  exact h

omit [DecidableEq F] in
theorem present_of_reached {db : PgDb F} {permByCode : Dict String (PgRow F)}
    (h : Reached permByCode (.rounds seedPermissions seedRoles.items seedUsers) db) :
    Present db where
  permissions item hitem := by
    obtain ⟨r, hr, -, hcode⟩ := h.permissions item.1 (List.mem_map_of_mem hitem)
    exact ⟨r, hr, hcode⟩
  roles item hitem := h.roles item.1 (List.mem_map_of_mem hitem)
  pairs := h.pairs
  users u hu := h.users u.email (List.mem_map_of_mem hu)

/-- What a run commits: rows the tables accepted one by one, after the rows that were there. -/
structure Finished (db0 db : PgDb F) : Prop where
  accepted : ∃ rows, insertAll ormSchema db0 rows = some db
  present : Present db
  idle : Present db0 → db = db0

/-- **The whole script.** -/
theorem seed_spec (env : SessionEnv) (hkeys : KeysHold db0) {appEnv : String}
    (hdev : isDevelopment appEnv = true) :
    Spec (fun c => c.session = Session.opened db0) (seed env appEnv)
      (fun _ c => Finished db0 c.session.committed) (Halted env db0) := by
  have hstart : Progress env db0 Dict.empty (.rounds [] [] []) db0 (Session.opened db0) :=
    ⟨⟨nofun, nofun, nofun, nofun⟩, SeedRun.opened, Nat.le_refl _, nofun⟩
  unfold seed seedScript
  rw [if_pos hdev]
  refine (called_spec (P := fun s => s = Session.opened db0) fun s hs => hs ▸ rfl).bind fun _ => ?_
  refine ((permissionsLoop_spec hkeys).imp
    (fun c (hc : c.session = Session.opened db0) => ⟨db0, by rw [hc]; exact hstart⟩)
    fun _ _ h => h).bind fun permByCode => ?_
  refine (rolesLoop_spec hkeys permByCode).bind fun _ => ?_
  refine (usersLoop_spec hkeys permByCode).bind fun _ => ?_
  refine (commitSession_spec (P := fun s => (∃ db, Progress env db0 permByCode
    (.rounds seedPermissions seedRoles.items seedUsers) db s) ∨ Doomed env db0 s)
    (Q := fun s => Finished db0 s.committed) (fun s hs => ?_)
    (fun s hs db hdb => ?_) fun s hs hnone => ?_).bind fun _ => Spec.pure fun c hc => hc
  · rcases hs with ⟨db, hs⟩ | hdoomed
    · exact hs.run.committed
    · exact hdoomed.committed
  · rcases hs with ⟨db', hs⟩ | hdoomed
    · obtain rfl := Option.some.inj (hs.run.flush_eq.symm.trans hdb)
      exact ⟨hs.run.all_reached, present_of_reached hs.toReached, hs.run.idle⟩
    · cases hdoomed.flush_eq.symm.trans hdb
  · rcases hs with ⟨db', hs⟩ | hdoomed
    · cases hnone.symm.trans hs.run.flush_eq
    · exact hdoomed.unsure

/-! ## 2. Convergence -/

/-- Every seed has exactly one row. -/
structure SeededOnce (db : PgDb F) : Prop where
  permissions : ∀ item ∈ seedPermissions,
    (db .permissions).countP (fun r => r .code == some (.text item.1)) = 1
  roles : ∀ item ∈ seedRoles.items,
    (db .roles).countP (fun r => r .name == some (.text item.1)) = 1
  pairs : ∀ pair ∈ pairsOf seedRoles.items, ∃ role ∈ db .roles, ∃ perm ∈ db .permissions,
    role .name = some (.text pair.1) ∧ perm .code = some (.text pair.2) ∧
      (db .rolePermissions).countP
        (fun r => r .roleId == role .id && r .permissionId == perm .id) = 1
  users : ∀ u ∈ seedUsers,
    (db .users).countP (fun r => r .email == some (.text u.email)) = 1

theorem seededOnce_of_present {db : PgDb F} (hkeys : KeysHold db) (h : Present db) :
    SeededOnce db where
  permissions item hitem := by
    obtain ⟨r, hr, hcode⟩ := h.permissions item hitem
    exact (hkeys.unique .permissions (by decide) [.code] (by decide)).countP_eq_one
      agreeOn_of_text hr (beq_iff_eq.mpr hcode)
  roles item hitem := by
    obtain ⟨r, hr, hname⟩ := h.roles item hitem
    exact (hkeys.unique .roles (by decide) [.name] (by decide)).countP_eq_one
      agreeOn_of_text hr (beq_iff_eq.mpr hname)
  pairs pair hpair := by
    obtain ⟨r, hr, role, hrole, perm, hperm, hname, hcode, hid, hpid⟩ := h.pairs pair hpair
    obtain ⟨u, hu⟩ := hkeys.id_of_mem (by decide) rfl hrole
    obtain ⟨v, hv⟩ := hkeys.id_of_mem (by decide) rfl hperm
    refine ⟨role, hrole, perm, hperm, hname, hcode, ?_⟩
    exact (hkeys.unique .rolePermissions (by decide) [.roleId, .permissionId]
      (by decide)).countP_eq_one (agreeOn_of_ids hu hv) hr (by rw [hid, hpid]; simp)
  users u hu := by
    obtain ⟨r, hr, hemail⟩ := h.users u hu
    exact (hkeys.unique .users (by decide) [.email] (by decide)).countP_eq_one
      agreeOn_of_text hr (beq_iff_eq.mpr hemail)

/-- **What a run that returns leaves**: all that was there, every seed once, and nothing for another
    run to add, which returns as well unless a call fails. -/
structure Converged (appEnv : String) (db db' : PgDb F) : Prop where
  kept : ∀ t, db t <+: db' t
  keys : KeysHold db'
  constraints : Consistent ormSchema db → Consistent ormSchema db'
  once : SeededOnce db'
  again : ∀ env, (runSeed env appEnv db').2 = db' ∧
    ((∀ n, env.fails n = false) → ∃ line, (runSeed env appEnv db').1 = .ok line)

/-- The ways a run ends. -/
theorem runSeed_cases (env : SessionEnv) (hkeys : KeysHold db0) {appEnv : String}
    (hdev : isDevelopment appEnv = true) :
    (∃ line db, runSeed env appEnv db0 = (.ok line, db) ∧ Finished db0 db) ∨
      ∃ e, runSeed env appEnv db0 = (.error e, db0) ∧
        (Sure env db0 → e = .failed ∧ ∃ n, env.fails n = true) := by
  have h := seed_spec env hkeys hdev ⟨Session.opened db0, 0⟩ rfl
  unfold runSeed
  cases hr : seed env appEnv ⟨Session.opened db0, 0⟩ with
  | ok line c =>
      rw [hr] at h
      exact Or.inl ⟨line, _, rfl, h⟩
  | error e c =>
      rw [hr] at h
      obtain ⟨hdb, hsure⟩ := h
      exact Or.inr ⟨e, congrArg (Prod.mk _) hdb, hsure⟩

/-- A run that the tables refuse nothing returns unless a call fails. -/
theorem runSeed_returns {env : SessionEnv} (hkeys : KeysHold db0) (hsure : Sure env db0)
    {appEnv : String} (hdev : isDevelopment appEnv = true) (hcalm : ∀ n, env.fails n = false) :
    ∃ line, (runSeed env appEnv db0).1 = .ok line := by
  rcases runSeed_cases env hkeys hdev with ⟨line, db, hrun, -⟩ | ⟨e, -, hstop⟩
  · exact ⟨line, by rw [hrun]⟩
  · obtain ⟨-, n, hfails⟩ := hstop hsure
    rw [hcalm n] at hfails
    cases hfails

/-- Where every seed is there, a run adds nothing. -/
theorem runSeed_of_present (env : SessionEnv) (hkeys : KeysHold db0) (hpresent : Present db0)
    {appEnv : String} (hdev : isDevelopment appEnv = true) : (runSeed env appEnv db0).2 = db0 := by
  rcases runSeed_cases env hkeys hdev with ⟨line, db, hrun, hfin⟩ | ⟨e, hrun, -⟩
  · rw [hrun]
    exact hfin.idle hpresent
  · rw [hrun]

theorem converged_of_finished {db : PgDb F} (hkeys : KeysHold db0) (hfin : Finished db0 db)
    {appEnv : String} (hdev : isDevelopment appEnv = true) : Converged appEnv db0 db := by
  obtain ⟨rows, hrows⟩ := hfin.accepted
  have hkeys' := hkeys.insertAll hrows
  exact ⟨isPrefix_insertAll hrows, hkeys', fun hdb => consistent_insertAll hdb hrows,
    seededOnce_of_present hkeys' hfin.present,
    fun env => ⟨runSeed_of_present env hkeys' hfin.present hdev,
      runSeed_returns hkeys' (Or.inl hfin.present) hdev⟩⟩

/-- **Seeding converges.** With ids that are new, a run in development mode violates no constraint:
    it returns unless a call fails. Whatever the ids, a run that returns leaves every seed there
    once, and a second run adds nothing; one that is stopped leaves the tables as they were. -/
theorem seed_converges (env : SessionEnv) {db : PgDb F} (hkeys : KeysHold db) {appEnv : String}
    (hdev : isDevelopment appEnv = true) :
    (FreshIds env db → (∀ n, env.fails n = false) →
        ∃ line, (runSeed env appEnv db).1 = .ok line) ∧
      (∀ line, (runSeed env appEnv db).1 = .ok line →
        Converged appEnv db (runSeed env appEnv db).2) ∧
      ∀ e, (runSeed env appEnv db).1 = .error e →
        (runSeed env appEnv db).2 = db ∧ (FreshIds env db → e = .failed) := by
  refine ⟨fun hids => runSeed_returns hkeys (Or.inr hids) hdev, fun line hok => ?_,
    fun e herror => ?_⟩
  · rcases runSeed_cases env hkeys hdev with ⟨line', db', hrun, hfin⟩ | ⟨e, hrun, -⟩
    · rw [hrun]
      exact converged_of_finished hkeys hfin hdev
    · rw [hrun] at hok
      cases hok
  · rcases runSeed_cases env hkeys hdev with ⟨line', db', hrun, -⟩ | ⟨e', hrun, hstop⟩
    · rw [hrun] at herror
      cases herror
    · rw [hrun] at herror ⊢
      cases herror
      exact ⟨rfl, fun hids => (hstop (Or.inr hids)).1⟩

/-- **A run on tables that statements made** is more statements: it leaves them in a state that
    meets every constraint of the classes. -/
theorem runSeed_reachable (env : SessionEnv) (sts : List (PgStmt F)) {appEnv : String}
    (hdev : isDevelopment appEnv = true) :
    ∃ sts', (runSeed env appEnv (SchemaDef.createAll.after sts)).2 =
      SchemaDef.createAll.after (sts ++ sts') := by
  have hdb : Consistent ormSchema (SchemaDef.createAll.after sts) :=
    SchemaDef.createAll.consistent_after sts
  rcases runSeed_cases env (keysHold_of_consistent hdb) hdev with
    ⟨line, db', hrun, hfin⟩ | ⟨e, hrun, -⟩
  · obtain ⟨rows, hrows⟩ := hfin.accepted
    refine ⟨rows.map fun p => .insert p.1 p.2, ?_⟩
    rw [hrun, SchemaDef.after, run_append]
    exact (run_of_insertAll hdb hrows).symm
  · refine ⟨[], ?_⟩
    rw [hrun, List.append_nil]

end Script

section Samples

/-- Tables with one of the seed permissions. -/
def samplePartial : PgDb F := fun t =>
  if t = .permissions then [rowOf [(.id, .uuid (.repeated 15)), (.code, .text "audit:read")]]
  else []

/-- Ids that differ, and no call fails. -/
def sampleEnv : SessionEnv where
  fails _ := false
  ids n := ⟨⟨n / 16 % 16, Nat.mod_lt _ (by decide)⟩ :: ⟨n % 16, Nat.mod_lt _ (by decide)⟩ ::
    List.replicate 30 ⟨0, by decide⟩, by simp⟩
  now _ := .epoch

theorem keysHold_samplePartial : KeysHold (samplePartial : PgDb ℚ) where
  primary t _ r hr c hc := by
    unfold samplePartial at hr
    split at hr
    · rename_i ht
      subst ht
      have hc' : c = .id := List.mem_singleton.mp hc
      rw [List.mem_singleton.mp hr, hc']
      exact ⟨_, rfl⟩
    · cases hr
  unique := by decide +kernel

theorem freshIds_samplePartial : FreshIds sampleEnv (samplePartial : PgDb ℚ) where
  distinct n m hn hm := by
    have h : ∀ n < seedCount, ∀ m < seedCount, sampleEnv.ids n = sampleEnv.ids m → n = m := by
      decide +kernel
    exact h n hn m hm
  unused := by decide +kernel

/-- From there a run returns, and what it leaves is seeded. -/
theorem seed_converges_samplePartial :
    (∃ line, (runSeed sampleEnv "development" (samplePartial : PgDb ℚ)).1 = .ok line) ∧
      (∀ line, (runSeed sampleEnv "development" (samplePartial : PgDb ℚ)).1 = .ok line →
        Converged "development" samplePartial
          (runSeed sampleEnv "development" (samplePartial : PgDb ℚ)).2) ∧
      ∀ e, (runSeed sampleEnv "development" (samplePartial : PgDb ℚ)).1 = .error e →
        (runSeed sampleEnv "development" (samplePartial : PgDb ℚ)).2 = samplePartial ∧
          e = .failed := by
  obtain ⟨hreturns, hconverged, hstopped⟩ :=
    seed_converges sampleEnv keysHold_samplePartial (rfl : isDevelopment "development" = true)
  exact ⟨hreturns freshIds_samplePartial fun _ => rfl, hconverged,
    fun e he => ⟨(hstopped e he).1, (hstopped e he).2 freshIds_samplePartial⟩⟩

end Samples

end AutomationPlatform
