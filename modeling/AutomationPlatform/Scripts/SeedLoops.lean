import AutomationPlatform.Scripts.SeedRun

/-!
# The loops of the seed script

Between two rounds the seeds done so far are in the state the run is heading for, and what is staged
is a pair or a user a loop is through with (`Progress`). Pairs and users are staged without a flush:
the next check does not see them, and does not look for them either, since no seed comes twice.

* `seedPermission_spec`, `seedPair_spec`, `seedRole_spec`, `seedUser_spec`: one round of each loop.
-/

namespace AutomationPlatform

open Python Relational Raising

variable {F : Type}

section Loops

/-- The seeds the loops are through with, and how many rows they may have added. -/
structure Through where
  rows : Nat
  codes : List String
  names : List String
  pairs : List (String × String)
  emails : List String

/-- What may be staged: a pair or a user that a loop is through with. -/
def Staged (db : PgDb F) (done : Through) (q : TableName × PgRow F) : Prop :=
  (q.1 = .rolePermissions ∧ ∃ pair ∈ done.pairs, IsPair db pair q.2) ∨
    (q.1 = .users ∧ ∃ email ∈ done.emails, q.2 .email = some (.text email))

variable [DecidableEq F]

/-- Those seeds are in the state, and `perm_by_code` has the permissions. -/
structure Reached (permByCode : Dict String (PgRow F)) (done : Through) (db : PgDb F) : Prop where
  permissions : ∀ code ∈ done.codes, ∃ r ∈ db .permissions,
    permByCode.get? code = some r ∧ r .code = some (.text code)
  roles : ∀ name ∈ done.names, ∃ r ∈ db .roles, r .name = some (.text name)
  pairs : ∀ pair ∈ done.pairs, ∃ r ∈ db .rolePermissions, IsPair db pair r
  users : ∀ email ∈ done.emails, ∃ r ∈ db .users, r .email = some (.text email)

/-- **What holds between two rounds** of the state the run is heading for. -/
structure Progress (env : SessionEnv) (db0 : PgDb F) (permByCode : Dict String (PgRow F))
    (done : Through) (db : PgDb F) (s : Session F) : Prop extends Reached permByCode done db where
  run : SeedRun env db0 db s
  drawn : s.drawn ≤ done.rows
  pending : ∀ q ∈ s.pending, Staged db done q

variable {env : SessionEnv} {db0 db db' : PgDb F} {permByCode : Dict String (PgRow F)}
variable {done : Through} {s s' : Session F}

omit [DecidableEq F] in
theorem Staged.mono (hdb : ∀ t, db t <+: db' t) {q : TableName × PgRow F} (h : Staged db done q) :
    Staged db' done q :=
  h.imp_left fun ⟨ht, pair, hpair, hq⟩ => ⟨ht, pair, hpair, hq.mono hdb⟩

omit [DecidableEq F] in
theorem Reached.mono (h : Reached permByCode done db) (hdb : ∀ t, db t <+: db' t) :
    Reached permByCode done db' where
  permissions code hcode := by
    obtain ⟨r, hr, hrest⟩ := h.permissions code hcode
    exact ⟨r, (hdb _).subset hr, hrest⟩
  roles name hname := by
    obtain ⟨r, hr, hrest⟩ := h.roles name hname
    exact ⟨r, (hdb _).subset hr, hrest⟩
  pairs pair hpair := by
    obtain ⟨r, hr, hrest⟩ := h.pairs pair hpair
    exact ⟨r, (hdb _).subset hr, hrest.mono hdb⟩
  users email hemail := by
    obtain ⟨r, hr, hrest⟩ := h.users email hemail
    exact ⟨r, (hdb _).subset hr, hrest⟩

/-- A row found or flushed keeps the progress made. -/
theorem findOrFlush_progress (hkeys : KeysHold db0) {m : Model} {col : ColumnName}
    {text : String} {attrs : Named ColumnName (SqlValue F)}
    (hu : UniqueText m col text ((col, some (.text text)) :: attrs))
    (hseed : Present db0 → ∃ r ∈ db0 m.mapped.tablename, r col = some (.text text))
    (hflushed : m.mapped.tablename ≠ .users) (hroom : done.rows < seedCount) :
    Spec (fun c => ∃ db, Progress env db0 permByCode done db c.session)
      (findOrFlush (ormCalls env) m col text attrs)
      (fun r c => ∃ db, Progress env db0 permByCode { done with rows := done.rows + 1 } db
        c.session ∧ r ∈ db m.mapped.tablename ∧ r col = some (.text text))
      (Halted env db0) := by
  refine Spec.exists fun db => Spec.of_eq fun c hc => ?_
  have hJ : ∀ r : PgRow F, ¬ Staged db done (m.mapped.tablename, r) := by
    rintro r (⟨ht, -⟩ | ⟨ht, -⟩)
    · have hmem := hu.seeded
      rw [show m.mapped.tablename = .rolePermissions from ht] at hmem
      exact absurd hmem (by decide)
    · exact hflushed ht
  refine (findOrFlush_spec db hkeys hu hseed hJ hroom).imp
    (fun c' e => by rw [e]; exact ⟨hc.run, hc.drawn, hc.pending⟩) fun r c' h => ?_
  obtain ⟨db', hrun, hdb, hr, htext, hdrawn, hpending⟩ := h
  have hreached := hc.mono hdb
  exact ⟨db', ⟨⟨hreached.permissions, hreached.roles, hreached.pairs, hreached.users⟩, hrun, hdrawn,
    fun q hq => (hpending q hq).mono hdb⟩, hr, htext⟩

/-! ## 1. Permissions -/

omit [DecidableEq F] in
theorem uniqueText_permission {item : String × String} (hitem : item ∈ seedPermissions) :
    UniqueText (F := F) .permission .code item.1
      [(.code, some (.text item.1)), (.description, some (.text item.2))] where
  seeded := by decide
  keys := rfl
  foreignKeys := rfl
  takes := by
    obtain ⟨hcode, hdesc⟩ := seed_lengths.1 item hitem
    show (true && (decide (item.1.length ≤ 100) && (decide (item.2.length ≤ 500) && true))) = true
    rw [decide_eq_true hcode, decide_eq_true hdesc]
    rfl
  id _ := rfl
  text _ := rfl

/-- **One round of the first loop.** -/
theorem seedPermission_spec (hkeys : KeysHold db0) {item : String × String}
    (hitem : item ∈ seedPermissions) (hroom : done.rows < seedCount) :
    Spec (fun c => ∃ db, Progress env db0 permByCode done db c.session)
      (seedPermission (ormCalls env) permByCode item)
      (fun permByCode' c => ∃ db, Progress env db0 permByCode'
        { done with rows := done.rows + 1, codes := done.codes ++ [item.1] } db c.session)
      (Halted env db0) := by
  unfold seedPermission
  refine (findOrFlush_progress hkeys (uniqueText_permission hitem)
    (fun hpresent => hpresent.permissions item hitem) (by decide) hroom).bind fun p => ?_
  refine Spec.pure fun c hc => ?_
  obtain ⟨db, hprogress, hp, hcode⟩ := hc
  refine ⟨db, { hprogress with permissions := fun code hcode' => ?_ }⟩
  rw [Dict.get?_insert]
  by_cases e : code = item.1
  · subst e
    exact ⟨p, hp, if_pos rfl, hcode⟩
  · rcases List.mem_append.mp hcode' with hold | hnew
    · rw [if_neg e]
      exact hprogress.permissions code hold
    · exact absurd (List.mem_singleton.mp hnew) e

/-! ## 2. Pairs -/

theorem KeysHold.id_of_mem (hkeys : KeysHold db) {t : TableName} (ht : t ∈ seedTables)
    (hpk : (ormSchema.table t).keys.headD [] = [.id]) {r : PgRow F} (hr : r ∈ db t) :
    ∃ u, r .id = some (.uuid u) :=
  hkeys.primary t ht r hr .id (hpk ▸ List.mem_singleton_self _)

/-- The ids a pair of a named role and a permission of a code holds. -/
theorem IsPair.ids (hkeys : KeysHold db) {pair : String × String} {r role perm : PgRow F}
    (h : IsPair db pair r) (hrole : role ∈ db .roles) (hname : role .name = some (.text pair.1))
    (hperm : perm ∈ db .permissions) (hcode : perm .code = some (.text pair.2)) :
    r .roleId = role .id ∧ r .permissionId = perm .id := by
  obtain ⟨role', hrole', perm', hperm', hname', hcode', hid, hpid⟩ := h
  rw [hid, hpid, hkeys.eq_of_column (by decide) (by decide) hrole' hrole hname' hname,
    hkeys.eq_of_column (by decide) (by decide) hperm' hperm hcode' hcode]
  exact ⟨rfl, rfl⟩

/-- A row is the pair of one role and one permission. -/
theorem IsPair.unique (hkeys : KeysHold db) {pair pair' : String × String} {r : PgRow F}
    (h : IsPair db pair r) (h' : IsPair db pair' r) : pair = pair' := by
  obtain ⟨role, hrole, perm, hperm, hname, hcode, hid, hpid⟩ := h
  obtain ⟨role', hrole', perm', hperm', hname', hcode', hid', hpid'⟩ := h'
  obtain ⟨u, hu⟩ := hkeys.id_of_mem (by decide) rfl hrole
  obtain ⟨v, hv⟩ := hkeys.id_of_mem (by decide) rfl hperm
  have hsame : role = role' := hkeys.eq_of_column (t := .roles) (by decide) (by decide) hrole hrole'
    hu (by rw [← hid', hid, hu])
  have hsame' : perm = perm' := hkeys.eq_of_column (t := .permissions) (by decide) (by decide)
    hperm hperm' hv (by rw [← hpid', hpid, hv])
  subst hsame
  subst hsame'
  exact Prod.ext (SqlValue.text.inj (Option.some.inj (hname.symm.trans hname')))
    (SqlValue.text.inj (Option.some.inj (hcode.symm.trans hcode')))

/-- Two rows with the ids of the pair agree on its key. -/
theorem agreeOn_of_ids {role perm : PgRow F} {u v : UUID} (hu : role .id = some (.uuid u))
    (hv : perm .id = some (.uuid v)) (r s : PgRow F)
    (hr : (r .roleId == role .id && r .permissionId == perm .id) = true)
    (hs : (s .roleId == role .id && s .permissionId == perm .id) = true) :
    agreeOn [.roleId, .permissionId] r s = true := by
  rw [Bool.and_eq_true, beq_iff_eq, beq_iff_eq] at hr hs
  refine agreeOn_iff.mpr fun n hn => ?_
  rcases List.mem_cons.mp hn with rfl | hn
  · rw [hr.1, hs.1, hu]
    exact ⟨rfl, rfl⟩
  · rw [List.mem_singleton.mp hn, hr.2, hs.2, hv]
    exact ⟨rfl, rfl⟩

/-- The attributes of a pair. -/
abbrev pairAttrs (role perm : PgRow F) : Named ColumnName (SqlValue F) :=
  [(.roleId, role .id), (.permissionId, perm .id)]

omit [DecidableEq F] in
/-- The new pair has the ids of the two rows. -/
theorem construct_pair (role perm : PgRow F) (drawn : Drawn) :
    Model.rolePermissions.construct drawn (pairAttrs role perm) .roleId = role .id ∧
      Model.rolePermissions.construct drawn (pairAttrs role perm) .permissionId = perm .id := by
  constructor
  · show (Model.field .roleId .uuid).fill drawn (some (role .id)) = role .id
    cases role .id <;> rfl
  · show (Model.field .permissionId .uuid).fill drawn (some (perm .id)) = perm .id
    cases perm .id <;> rfl

/-- It refers to the two rows where they are stored. -/
theorem refersWithin_pair {role perm : PgRow F} (hrole : role ∈ db .roles)
    (hperm : perm ∈ db .permissions) (drawn : Drawn) :
    ∀ fk ∈ Model.rolePermissions.mapped.foreignKeys,
      refersWithin db fk (Model.rolePermissions.construct drawn (pairAttrs role perm)) = true := by
  have hrefers : ∀ {r target : PgRow F} {n : ColumnName} {t : TableName}, target ∈ db t →
      r n = target .id → refersWithin db (refId n t .cascade) r = true := by
    intro r target n t htarget hid
    refine refersWithin_iff.mpr ?_
    cases hn : r n with
    | none => exact Or.inl hn
    | some v => exact Or.inr ⟨target, htarget, references_iff.mpr ⟨by
        show (r n).isSome = true
        rw [hn]
        rfl, hid⟩⟩
  intro fk hfk
  rcases List.mem_cons.mp hfk with rfl | hfk
  · exact hrefers hrole (construct_pair role perm drawn).1
  · rw [List.mem_singleton.mp hfk]
    exact hrefers hperm (construct_pair role perm drawn).2

omit [DecidableEq F] in
theorem isPair_construct {role perm : PgRow F} {name code : String} (hrole : role ∈ db .roles)
    (hname : role .name = some (.text name)) (hperm : perm ∈ db .permissions)
    (hcode : perm .code = some (.text code)) (drawn : Drawn) :
    IsPair db (name, code) (Model.rolePermissions.construct drawn (pairAttrs role perm)) :=
  ⟨role, hrole, perm, hperm, hname, hcode, construct_pair role perm drawn⟩

/-- A pair that no row is, of a stored role and a stored permission, is accepted. -/
theorem accepts_pair (hkeys : KeysHold db) {role perm : PgRow F} (hrole : role ∈ db .roles)
    (hperm : perm ∈ db .permissions) (habsent : ∀ r ∈ db .rolePermissions,
      (r .roleId == role .id && r .permissionId == perm .id) = false) (drawn : Drawn) :
    accepts ormSchema db .rolePermissions
      (Model.rolePermissions.construct drawn (pairAttrs role perm)) = true := by
  obtain ⟨u, hu⟩ := hkeys.id_of_mem (by decide) rfl hrole
  obtain ⟨v, hv⟩ := hkeys.id_of_mem (by decide) rfl hperm
  refine accepts_construct (m := .rolePermissions) ?_ (fun cols hcols r hr => ?_)
    (refersWithin_pair hrole hperm drawn)
  · unfold pairAttrs
    rw [hu, hv]
    rfl
  · rw [List.mem_singleton.mp hcols, Bool.eq_false_iff, Ne, agreeOn_iff]
    intro hall
    obtain ⟨hrid, hpid⟩ := construct_pair role perm drawn
    have hid : r .roleId = role .id := (hall .roleId (by decide)).2.trans hrid
    have hpid : r .permissionId = perm .id := (hall .permissionId (by decide)).2.trans hpid
    have h := habsent r hr
    rw [hid, hpid, beq_self_eq_true, beq_self_eq_true] at h
    cases h

omit [DecidableEq F] in
/-- A pair that is there is one more the loop is through with. -/
theorem Reached.withPair (h : Reached permByCode done db) {pair : String × String}
    {r : PgRow F} (hr : r ∈ db .rolePermissions) (hpair : IsPair db pair r) :
    Reached permByCode { done with rows := done.rows + 1, pairs := done.pairs ++ [pair] } db :=
  { h with
    pairs := fun pair' hpair' => (List.mem_append.mp hpair').elim (h.pairs pair') fun e =>
      ⟨r, hr, List.mem_singleton.mp e ▸ hpair⟩ }

omit [DecidableEq F] in
theorem Staged.withPair {q : TableName × PgRow F} (h : Staged db done q)
    (pair : String × String) :
    Staged db { done with rows := done.rows + 1, pairs := done.pairs ++ [pair] } q :=
  h.imp_left fun ⟨ht, pair', hpair', hq⟩ => ⟨ht, pair', List.mem_append_left _ hpair', hq⟩

/-- A role or a permission is never staged between two rounds. -/
theorem Progress.mem_visible (h : Progress env db0 permByCode done db s) {t : TableName}
    (ht : t ≠ .rolePermissions) (ht' : t ≠ .users) {r : PgRow F} (hr : r ∈ db t) :
    r ∈ s.visible t := by
  rcases (mem_insertAll h.run.flushes r).mp hr with hvis | hpend
  · exact hvis
  · exact (h.pending _ hpend).elim (fun e => absurd e.1 ht) fun e => absurd e.1 ht'

/-- Staging a pair that is not there. -/
theorem Progress.stagePair (h : Progress env db0 permByCode done db s) (hkeys : KeysHold db)
    (hnot : ¬ Present db0) {role perm : PgRow F} {name code : String} (hrole : role ∈ db .roles)
    (hname : role .name = some (.text name)) (hperm : perm ∈ db .permissions)
    (hcode : perm .code = some (.text code)) (habsent : ∀ r ∈ db .rolePermissions,
      (r .roleId == role .id && r .permissionId == perm .id) = false) :
    ∃ db', (∀ t, db t <+: db' t) ∧ Progress env db0 permByCode
      { done with rows := done.rows + 1, pairs := done.pairs ++ [(name, code)] } db'
      (s.withNew env .rolePermissions (pairAttrs role perm)) := by
  have hrun := h.run.added hnot (m := .rolePermissions) (by decide)
    (accepts_pair hkeys hrole hperm habsent (env.draw s.drawn))
    (refersWithin_pair (h.mem_visible (by decide) (by decide) hrole)
      (h.mem_visible (by decide) (by decide) hperm) (env.draw s.drawn))
    fun _ ht => absurd ht (by decide)
  have hgrown := isPrefix_update (t := .rolePermissions) db
    (Model.rolePermissions.construct (env.draw s.drawn) (pairAttrs role perm))
  have hrow := (isPair_construct hrole hname hperm hcode (env.draw s.drawn)).mono hgrown
  refine ⟨_, hgrown, ⟨(h.mono hgrown).withPair (mem_update db _) hrow, hrun,
    Nat.succ_le_succ h.drawn, fun q hq => ?_⟩⟩
  rcases List.mem_append.mp hq with hold | hnew
  · exact ((h.pending q hold).mono hgrown).withPair _
  · rw [List.mem_singleton.mp hnew]
    exact Or.inl ⟨rfl, (name, code), List.mem_append_right _ (List.mem_singleton_self _), hrow⟩

/-- A query for the pair finds nothing: then not every seed was there, and no row is the pair, not
    even a staged one. -/
theorem Progress.pair_absent {db : PgDb F} {s : Session F} {done : Through}
    (hs : Progress env db0 permByCode done db s) (hkeys : KeysHold db) {role perm : PgRow F}
    {name code : String} (hpair : (name, code) ∈ pairsOf seedRoles.items)
    (hnew : (name, code) ∉ done.pairs) (hrole : role ∈ db .roles)
    (hname : role .name = some (.text name)) (hperm : perm ∈ db .permissions)
    (hcode : perm .code = some (.text code))
    (hnone : (s.visible .rolePermissions).filter
      (fun r => r .roleId == role .id && r .permissionId == perm .id) = []) :
    ¬ Present db0 ∧ ∀ r ∈ db .rolePermissions,
      (r .roleId == role .id && r .permissionId == perm .id) = false := by
  refine ⟨hs.run.not_present hnone fun hpresent => ?_, hs.run.absent hnone fun r hr => ?_⟩
  · obtain ⟨r, hr, hp⟩ := hpresent.pairs _ hpair
    have hids := (hp.mono fun t => (hs.run.visible_prefix t).trans
      (hs.run.pending_prefix t)).ids hkeys hrole hname hperm hcode
    exact ⟨r, hr, by rw [hids.1, hids.2]; simp⟩
  · -- what is staged is a pair the loop is through with, and that is not this one
    by_contra hfound
    rw [Bool.not_eq_false, Bool.and_eq_true, beq_iff_eq, beq_iff_eq] at hfound
    rcases hs.pending _ hr with ⟨-, pair, hmem, hp⟩ | ⟨ht, -⟩
    · have hthis : IsPair db (name, code) r := ⟨role, hrole, perm, hperm, hname, hcode, hfound⟩
      exact hnew (hp.unique hkeys hthis ▸ hmem)
    · cases ht

/-- **One round of the inner loop.** -/
theorem seedPair_spec (hkeys : KeysHold db0) (done : Through) {role : PgRow F} {name code : String}
    (hcode : code ∈ done.codes) (hpair : (name, code) ∈ pairsOf seedRoles.items)
    (hnew : (name, code) ∉ done.pairs) :
    Spec (fun c => ∃ db, Progress env db0 permByCode done db c.session ∧ role ∈ db .roles ∧
        role .name = some (.text name))
      (seedPair (ormCalls env) permByCode role code)
      (fun _ c => ∃ db, Progress env db0 permByCode
          { done with rows := done.rows + 1, pairs := done.pairs ++ [(name, code)] } db c.session ∧
        role ∈ db .roles ∧ role .name = some (.text name))
      (Halted env db0) := by
  refine Spec.exists fun db => Spec.of_eq fun c ⟨hc, hrole, hname⟩ => ?_
  obtain ⟨perm, hperm, hget, hpcode⟩ := hc.permissions code hcode
  refine Spec.imp (P := fun c => Progress env db0 permByCode done db c.session) ?_
    (fun c' e => e ▸ hc) fun _ _ h => h
  have hdbkeys := hc.run.keys hkeys
  obtain ⟨u, hu⟩ := hdbkeys.id_of_mem (by decide) rfl hrole
  obtain ⟨v, hv⟩ := hdbkeys.id_of_mem (by decide) rfl hperm
  unfold seedPair
  rw [hget]
  refine (selectOne_spec (P := Progress env db0 permByCode done db) (fun s hs => hs.run.committed)
    fun s hs => length_le_one hs.run.reached hkeys (by decide) [.roleId, .permissionId]
      (by decide) (agreeOn_of_ids hu hv)).bind fun existing => ?_
  cases existing with
  | some r =>
      refine Spec.pure fun c hc => ⟨db, ?_, hrole, hname⟩
      obtain ⟨hr, hids⟩ := hc.1.run.found hc.2
      rw [Bool.and_eq_true, beq_iff_eq, beq_iff_eq] at hids
      exact ⟨hc.1.withPair hr ⟨role, hrole, perm, hperm, hname, hpcode, hids⟩, hc.1.run,
        Nat.le_succ_of_le hc.1.drawn, fun q hq => (hc.1.pending q hq).withPair _⟩
  | none =>
      refine (add_spec (P := fun s => Progress env db0 permByCode done db s ∧
        (s.visible .rolePermissions).filter
          (fun r => r .roleId == role .id && r .permissionId == perm .id) = [])
        (Q := fun _ s => ∃ db, Progress env db0 permByCode
            { done with rows := done.rows + 1, pairs := done.pairs ++ [(name, code)] } db s ∧
          role ∈ db .roles ∧ role .name = some (.text name))
        fun s hs => ?_).bind fun _ => Spec.pure fun c hc => hc
      obtain ⟨hs, hnone⟩ := hs
      obtain ⟨hnot, habsent⟩ :=
        hs.pair_absent hdbkeys hpair hnew hrole hname hperm hpcode hnone
      obtain ⟨db', hgrown, hprogress⟩ :=
        hs.stagePair hdbkeys hnot hrole hname hperm hpcode habsent
      exact ⟨db', hprogress, (hgrown _).subset hrole, hname⟩

/-! ## 3. Roles -/

omit [DecidableEq F] in
theorem uniqueText_role {item : String × List String} (hitem : item ∈ seedRoles.items) :
    UniqueText (F := F) .role .name item.1
      [(.name, some (.text item.1)), (.description, some (.text ("Seed role: " ++ item.1)))] where
  seeded := by decide
  keys := rfl
  foreignKeys := rfl
  takes := by
    obtain ⟨hname, hdesc⟩ := seed_lengths.2.1 item hitem
    show (true && (decide (item.1.length ≤ 100) &&
      (decide (("Seed role: " ++ item.1).length ≤ 500) && true))) = true
    rw [decide_eq_true hname, decide_eq_true hdesc]
    rfl
  id _ := rfl
  text _ := rfl

/-- The pairs of one role. -/
abbrev pairsOfRole (item : String × List String) : List (String × String) :=
  item.2.map fun code => (item.1, code)

/-- **The inner loop**: the pairs of one role. -/
theorem seedPairs_spec (hkeys : KeysHold db0) {role : PgRow F} {item : String × List String}
    (hitem : item ∈ seedRoles.items) (hcodes : ∀ code ∈ item.2, code ∈ done.codes)
    (hnodup : (done.pairs ++ pairsOfRole item).Nodup) :
    Spec (fun c => ∃ db, Progress env db0 permByCode { done with rows := done.rows + 1 } db
        c.session ∧ role ∈ db .roles ∧ role .name = some (.text item.1))
      (item.2.forM (seedPair (ormCalls env) permByCode role))
      (fun _ c => ∃ db, Progress env db0 permByCode
          { done with
            rows := done.rows + 1 + item.2.length
            pairs := done.pairs ++ pairsOfRole item } db c.session ∧
        role ∈ db .roles ∧ role .name = some (.text item.1))
      (Halted env db0) := by
  -- the pairs of the codes so far
  refine (Spec.forM (I := fun codes c => ∃ db, Progress env db0 permByCode
    { done with
      rows := done.rows + 1 + codes.length
      pairs := done.pairs ++ pairsOfRole (item.1, codes) } db c.session ∧
      role ∈ db .roles ∧ role .name = some (.text item.1)) fun codes code rest e => ?_).imp ?_
      fun _ c h => h
  · have hsplit : done.pairs ++ pairsOfRole item =
        (done.pairs ++ pairsOfRole (item.1, codes)) ++
          (item.1, code) :: pairsOfRole (item.1, rest) := by
      simp [pairsOfRole, e]
    rw [hsplit] at hnodup
    have hnew : (item.1, code) ∉ done.pairs ++ pairsOfRole (item.1, codes) := fun hmem =>
      (List.nodup_append.mp hnodup).2.2 _ hmem _ List.mem_cons_self rfl
    have hcode : code ∈ item.2 := e ▸ List.mem_append_right _ List.mem_cons_self
    have hpair : (item.1, code) ∈ pairsOf seedRoles.items :=
      List.mem_flatMap.mpr ⟨item, hitem, List.mem_map_of_mem hcode⟩
    refine (seedPair_spec hkeys { done with
      rows := done.rows + 1 + codes.length
      pairs := done.pairs ++ pairsOfRole (item.1, codes) } (hcodes code hcode) hpair hnew).imp
      (fun c h => h) fun _ c h => ?_
    have happend : pairsOfRole (item.1, codes ++ [code]) =
        pairsOfRole (item.1, codes) ++ [(item.1, code)] := by
      simp [pairsOfRole]
    rw [happend, ← List.append_assoc, List.length_append]
    exact h
  · rintro c ⟨db, hprogress, hrole, hname⟩
    refine ⟨db, ?_, hrole, hname⟩
    show Progress env db0 permByCode
      { done with rows := done.rows + 1, pairs := done.pairs ++ [] } db c.session
    rw [List.append_nil]
    exact hprogress

/-- **One round of the second loop.** -/
theorem seedRole_spec (hkeys : KeysHold db0) {item : String × List String}
    (hitem : item ∈ seedRoles.items) (hcodes : ∀ code ∈ item.2, code ∈ done.codes)
    (hnodup : (done.pairs ++ pairsOfRole item).Nodup) (hroom : done.rows < seedCount) :
    Spec (fun c => ∃ db, Progress env db0 permByCode done db c.session)
      (seedRole (ormCalls env) permByCode item)
      (fun _ c => ∃ db, Progress env db0 permByCode
        { done with
          rows := done.rows + 1 + item.2.length
          names := done.names ++ [item.1]
          pairs := done.pairs ++ pairsOfRole item } db c.session)
      (Halted env db0) := by
  unfold seedRole
  refine (findOrFlush_progress hkeys (uniqueText_role hitem)
    (fun hpresent => hpresent.roles item hitem) (by decide) hroom).bind fun role => ?_
  refine (seedPairs_spec hkeys hitem hcodes hnodup).imp (fun c h => h) fun _ c h => ?_
  obtain ⟨db, hprogress, hrole, hname⟩ := h
  refine ⟨db, { hprogress with roles := fun name hmem => ?_ }⟩
  rcases List.mem_append.mp hmem with hold | hnew
  · exact hprogress.roles name hold
  · exact ⟨role, hrole, List.mem_singleton.mp hnew ▸ hname⟩

/-! ## 4. Users -/

/-- The attributes of a user. -/
abbrev userAttrs (u : SeedUser) : Named ColumnName (SqlValue F) := [
  (.email, some (.text u.email)), (.fullName, some (.text u.fullName)),
  (.primaryRole, some (.text u.primaryRole.name)), (.passwordHash, u.passwordHash.map .text)]

omit [DecidableEq F] in
theorem uniqueText_user {u : SeedUser} (hu : u ∈ seedUsers) :
    UniqueText (F := F) .user .email u.email (userAttrs u) where
  seeded := by decide
  keys := rfl
  foreignKeys := rfl
  takes := by
    obtain ⟨hemail, hfull, hhash⟩ := seed_lengths.2.2 u hu
    have hrole : (UserRoleEnum.all.map UserRoleEnum.name).contains u.primaryRole.name = true := by
      cases u.primaryRole <;> decide
    have hpassword : (Model.fieldOptional .passwordHash (.varchar 255)).takes
        (some (u.passwordHash.map (SqlValue.text (F := F)))) = true := by
      cases hp : u.passwordHash with
      | none => rfl
      | some p => exact decide_eq_true (hhash p hp)
    show (true && (decide (u.email.length ≤ 255) && (decide (u.fullName.length ≤ 200) &&
      (true && (true && (true && (
        (Model.fieldOptional .passwordHash (.varchar 255)).takes
          (some (u.passwordHash.map (SqlValue.text (F := F)))) &&
          ((UserRoleEnum.all.map UserRoleEnum.name).contains u.primaryRole.name &&
            (true && (true && true)))))))))) = true
    rw [decide_eq_true hemail, decide_eq_true hfull, hpassword, hrole]
    rfl
  id _ := rfl
  text _ := rfl

omit [DecidableEq F] in
theorem Reached.withUser (h : Reached permByCode done db) {email : String} {r : PgRow F}
    (hr : r ∈ db .users) (hemail : r .email = some (.text email)) :
    Reached permByCode { done with rows := done.rows + 1, emails := done.emails ++ [email] } db :=
  { h with
    users := fun email' hmem => (List.mem_append.mp hmem).elim (h.users email') fun e =>
      ⟨r, hr, List.mem_singleton.mp e ▸ hemail⟩ }

omit [DecidableEq F] in
theorem Staged.withUser {q : TableName × PgRow F} (h : Staged db done q) (email : String) :
    Staged db { done with rows := done.rows + 1, emails := done.emails ++ [email] } q :=
  h.imp_right fun ⟨ht, email', hmem, hq⟩ => ⟨ht, email', List.mem_append_left _ hmem, hq⟩

/-- Staging a user that is not there. -/
theorem Progress.stageUser (h : Progress env db0 permByCode done db s) (hnot : ¬ Present db0)
    {u : SeedUser} (hu : u ∈ seedUsers) (hroom : done.rows < seedCount)
    (habsent : ∀ r ∈ db .users, (r .email == some (.text u.email)) = false) :
    (∃ db', Progress env db0 permByCode
        { done with rows := done.rows + 1, emails := done.emails ++ [u.email] } db'
        (s.withNew env .user (userAttrs u))) ∨
      Doomed env db0 (s.withNew env .user (userAttrs u)) := by
  refine (h.run.add_unique hnot (Nat.lt_of_le_of_lt h.drawn hroom) (uniqueText_user hu)
    habsent).imp_left fun hrun => ?_
  have hgrown := isPrefix_update (t := .users) db
    (Model.user.construct (env.draw s.drawn) (userAttrs u))
  refine ⟨_, ⟨(h.mono hgrown).withUser (mem_update db _) rfl, hrun, Nat.succ_le_succ h.drawn,
    fun q hq => ?_⟩⟩
  rcases List.mem_append.mp hq with hold | hnew
  · exact ((h.pending q hold).mono hgrown).withUser _
  · rw [List.mem_singleton.mp hnew]
    exact Or.inr ⟨rfl, u.email, List.mem_append_right _ (List.mem_singleton_self _), rfl⟩

/-- A user that will be refused was staged already. -/
theorem seedUser_doomed (hkeys : KeysHold db0) (u : SeedUser) :
    Spec (fun c => Doomed env db0 c.session) (seedUser (ormCalls env) u)
      (fun _ c => Doomed env db0 c.session) (Halted env db0) := by
  unfold seedUser
  refine (selectOne_spec (P := Doomed env db0) (fun s hs => hs.committed)
    fun s hs => length_le_one hs.reached hkeys (by decide) [.email] (by decide)
      agreeOn_of_text).bind fun existing => ?_
  cases existing with
  | some r => exact Spec.pure fun c hc => hc.1
  | none =>
      exact (add_spec (P := fun s => Doomed env db0 s ∧
        (s.visible .users).filter (fun r => r .email == some (.text u.email)) = [])
        (Q := fun _ s => Doomed env db0 s) fun s hs => hs.1.staged _ _ fun _ hfk => absurd hfk
          List.not_mem_nil).bind fun _ => Spec.pure fun c hc => hc

/-- **One round of the third loop.** Nothing is flushed, so what the tables will refuse is only
    staged. -/
theorem seedUser_spec (hkeys : KeysHold db0) {u : SeedUser} (hu : u ∈ seedUsers)
    (hnew : u.email ∉ done.emails) (hroom : done.rows < seedCount) :
    Spec (fun c => (∃ db, Progress env db0 permByCode done db c.session) ∨ Doomed env db0 c.session)
      (seedUser (ormCalls env) u)
      (fun _ c => (∃ db, Progress env db0 permByCode
        { done with rows := done.rows + 1, emails := done.emails ++ [u.email] } db c.session) ∨
          Doomed env db0 c.session)
      (Halted env db0) := by
  refine Spec.or (Spec.exists fun db => ?_)
    ((seedUser_doomed hkeys u).imp (fun _ h => h) fun _ _ h => Or.inr h)
  unfold seedUser
  refine (selectOne_spec (P := Progress env db0 permByCode done db) (fun s hs => hs.run.committed)
    fun s hs => length_le_one hs.run.reached hkeys (by decide) [.email] (by decide)
      agreeOn_of_text).bind fun existing => ?_
  cases existing with
  | some r =>
      refine Spec.pure fun c hc => Or.inl ⟨db, ?_⟩
      obtain ⟨hr, hemail⟩ := hc.1.run.found hc.2
      exact ⟨hc.1.withUser hr (beq_iff_eq.mp hemail), hc.1.run, Nat.le_succ_of_le hc.1.drawn,
        fun q hq => (hc.1.pending q hq).withUser _⟩
  | none =>
      refine (add_spec (P := fun s => Progress env db0 permByCode done db s ∧
        (s.visible .users).filter (fun r => r .email == some (.text u.email)) = [])
        (Q := fun _ s => (∃ db, Progress env db0 permByCode
            { done with rows := done.rows + 1, emails := done.emails ++ [u.email] } db s) ∨
          Doomed env db0 s)
        fun s hs => ?_).bind fun _ => Spec.pure fun c hc => hc
      obtain ⟨hs, hnone⟩ := hs
      have hnot : ¬ Present db0 := hs.run.not_present hnone fun hpresent => by
        obtain ⟨r, hr, hemail⟩ := hpresent.users u hu
        exact ⟨r, hr, beq_iff_eq.mpr hemail⟩
      have habsent := hs.run.absent hnone fun r hr => by
        -- what is staged is a user the loop is through with, and that is not this one
        rcases hs.pending _ hr with ⟨ht, -⟩ | ⟨-, email, hmem, hemail⟩
        · cases ht
        · have hr : r .email = some (.text email) := hemail
          rw [hr, beq_eq_false_iff_ne, Ne, Option.some.injEq, SqlValue.text.injEq]
          exact fun e => hnew (e ▸ hmem)
      exact hs.stageUser hnot hu hroom habsent

end Loops

end AutomationPlatform
