import AutomationPlatform.Database.Session
import AutomationPlatform.Library.Relational.Change
import Mathlib.Data.Rat.Defs
import Mathlib.Logic.Relation

/-!
# `get_db`, `get_db_context` and `get_db_session`

The three ways a session is handed out. `get_db` and `get_db_context` commit when the block returns
and roll back when it raises; `get_db_session` does neither.

A block is a program over its session (`Body`): it queries for a row, adds objects, executes
statements, flushes, commits and rolls back, and what it does next may depend on every answer it
got. It reads the row of an object it added from the flush on, as the defaults are drawn there. A
flush inserts class by class (`flushOrder`). What a block cannot do is catch an error, set a
`relationship`, and change or `delete` an object it holds other than by a statement; the statement
reads the rows it acts on and no others. A query answers the row as stored, whatever objects the
session holds already.

Two meanings of a block are compared:

* `Body.run` -- on the session, where every call that reaches the database may fail;
* `Body.Step` -- on a `Journal`, what it changed: what is durable, what was flushed or executed,
  what is pending. What a query sees is the database with the first two applied.

**`run_spec`**: the session holds what the journal says, at every call, and a failure leaves what
was durable. **`providers_outcome`** says what that makes of a block.
-/

namespace AutomationPlatform

open Python Relational Raising

variable {F α : Type}

/-- Tables with rows, as a flush inserts them. -/
abbrev Objects (F : Type) := List (TableName × PgRow F)

/-- A new object of a class with values, as they are to be stored, for some of its columns: the
    constructor raises on other keywords. -/
structure NewObject (F : Type) where
  model : Model
  attrs : Named ColumnName (SqlValue F)
  mapped : ∀ p ∈ attrs, p.1 ∈ model.columnNames

/-- Its row, once its defaults are drawn. -/
def NewObject.row (o : NewObject F) (drawn : Drawn) : TableName × PgRow F :=
  (o.model.mapped.tablename, o.model.construct drawn o.attrs)

/-- A program that uses a session. A flush and a commit hand it the rows of what it had added; an
    error of its own is `raised`, and which one makes no difference to what is stored. -/
inductive Body (F α : Type) where
  | returned (a : α)
  | raised (e : SessionError)
  | select (m : Model) (cond : PgRow F → Bool) (next : Option (PgRow F) → Body F α)
  | add (o : NewObject F) (next : Body F α)
  | execute (st : PgStmt F) (next : Body F α)
  | flush (next : Objects F → Body F α)
  | commit (next : Objects F → Body F α)
  | rollback (next : Body F α)

/-! ## 1. On the session -/

section Session

variable [DecidableEq F]

/-- A flush or a commit, with what it inserts. -/
def withObjects (m : SessionM F Unit) : SessionM F (Objects F) := do
  let c ← get
  m
  return flushOrder c.session.pending

/-- `await session.rollback()`. -/
def rollbackSession (env : SessionEnv) : SessionM F Unit := do
  called env
  modify fun c => { c with session := { c.session with
    visible := c.session.committed, pending := [] } }

def Body.run (env : SessionEnv) : Body F α → SessionM F α
  | .returned a => pure a
  | .raised e => throw e
  | .select m cond next => do
    let o ← selectOne env m.mapped.tablename cond
    (next o).run env
  | .add o next => do
    let _ ← AutomationPlatform.add env o.model o.attrs
    next.run env
  | .execute st next => do
    AutomationPlatform.execute env st
    next.run env
  | .flush next => do
    let objects ← withObjects (AutomationPlatform.flush env)
    (next objects).run env
  | .commit next => do
    let objects ← withObjects (commitSession env)
    (next objects).run env
  | .rollback next => do
    rollbackSession env
    next.run env

/-- `get_db` and `get_db_context`. -/
def getDb (env : SessionEnv) (body : Body F α) : SessionM F α :=
  tryCatch
    (do
      let a ← body.run env
      commitSession env
      return a)
    fun e => do
      rollbackSession env
      throw e

/-- `get_db_session`. -/
def getDbSession (env : SessionEnv) (body : Body F α) : SessionM F α := body.run env

end Session

/-! ## 2. On the journal -/

abbrev PgChange (F : Type) := Change TableName ColumnName (SqlValue F)

/-- What a block changed: durable, flushed or executed, pending; and how many objects it added
    ever. -/
structure Journal (F : Type) where
  durable : List (PgChange F)
  flushed : List (PgChange F)
  pending : Objects F
  drawn : Nat

namespace Journal

def new : Journal F := ⟨[], [], [], 0⟩

/-- What a flush inserts, in its order. -/
def inserts (j : Journal F) : List (PgChange F) :=
  (flushOrder j.pending).map fun p => .row p.1 p.2

/-- What a commit makes durable. -/
def changes (j : Journal F) : List (PgChange F) := j.durable ++ j.flushed ++ j.inserts

def add (j : Journal F) (p : TableName × PgRow F) : Journal F :=
  { j with pending := j.pending ++ [p], drawn := j.drawn + 1 }

def execute (j : Journal F) (st : PgStmt F) : Journal F :=
  { j with flushed := j.flushed ++ [.stmt st] }

def flush (j : Journal F) : Journal F :=
  { j with flushed := j.flushed ++ j.inserts, pending := [] }

def commit (j : Journal F) : Journal F :=
  { j with durable := j.changes, flushed := [], pending := [] }

def rollback (j : Journal F) : Journal F := { j with flushed := [], pending := [] }

/-- What a query sees: the database after the durable and the flushed changes. -/
def Sees (db : PgDb F) (j : Journal F) (db' : PgDb F) [DecidableEq F] : Prop :=
  applyAll ormSchema db (j.durable ++ j.flushed) = some db'

end Journal

section Steps

variable [DecidableEq F]

/-- **One step of a block over the database `db`.** A query that finds two rows has no step, nor has
    a statement that is rejected or a flush of an object its table rejects: there the block
    raises. -/
inductive Body.Step (env : SessionEnv) (db : PgDb F) :
    Body F α × Journal F → Body F α × Journal F → Prop where
  | select {m : Model} {cond : PgRow F → Bool} {next : Option (PgRow F) → Body F α}
      {j : Journal F} {db' : PgDb F} {o : Option (PgRow F)} (hdb : j.Sees db db')
      (ho : (db' m.mapped.tablename).filter cond = o.toList) :
      Step env db (.select m cond next, j) (next o, j)
  | add {o : NewObject F} {next : Body F α} {j : Journal F} :
      Step env db (.add o next, j) (next, j.add (o.row (env.draw j.drawn)))
  | execute {st : PgStmt F} {next : Body F α} {j : Journal F} {db' : PgDb F}
      (h : (j.execute st).Sees db db') : Step env db (.execute st next, j) (next, j.execute st)
  | flush {next : Objects F → Body F α} {j : Journal F}
      (h : (applyAll ormSchema db j.changes).isSome = true) :
      Step env db (.flush next, j) (next (flushOrder j.pending), j.flush)
  | commit {next : Objects F → Body F α} {j : Journal F}
      (h : (applyAll ormSchema db j.changes).isSome = true) :
      Step env db (.commit next, j) (next (flushOrder j.pending), j.commit)
  | rollback {next : Body F α} {j : Journal F} : Step env db (.rollback next, j) (next, j.rollback)

/-- The block gets there when no call fails. -/
def Body.Reaches (env : SessionEnv) (db : PgDb F) (body : Body F α)
    (q : Body F α × Journal F) : Prop :=
  Relation.ReflTransGen (Body.Step env db) (body, .new) q

/-- The session holds what the journal says. -/
structure Tracks (db : PgDb F) (j : Journal F) (s : Session F) : Prop where
  committed : applyAll ormSchema db j.durable = some s.committed
  visible : j.Sees db s.visible
  pending : s.pending = j.pending
  drawn : s.drawn = j.drawn

/-- What is committed is what was durable at some point of the block. -/
def Durable (env : SessionEnv) (db : PgDb F) (body : Body F α) (db' : PgDb F) : Prop :=
  ∃ q, body.Reaches env db q ∧ applyAll ormSchema db q.2.durable = some db'

/-- The block stops without returning. -/
def Body.Sticks (env : SessionEnv) (db : PgDb F) (body : Body F α) : Prop :=
  ∃ q, body.Reaches env db q ∧ (∀ q', ¬ Body.Step env db q q') ∧ ∀ a, q.1 ≠ .returned a

/-- No call fails. -/
def SessionEnv.Reliable (env : SessionEnv) : Prop := ∀ n, env.fails n = false

/-! ## 3. Each call -/

section Calls

variable {env : SessionEnv} {db : PgDb F} {j : Journal F} {reason : Prop}

/-- Where a call raises, what was durable is what is committed; where no call fails there is a
    reason. -/
def Holds (env : SessionEnv) (db : PgDb F) (j : Journal F) (reason : Prop) (_ : SessionError)
    (c : Client F) : Prop :=
  applyAll ormSchema db j.durable = some c.session.committed ∧ (env.Reliable → reason)

omit [DecidableEq F] in
theorem called_keeps {P : Session F → Prop} {E : SessionError → Client F → Prop}
    (h : ∀ e c, P c.session → ¬ env.Reliable → E e c) :
    Spec (fun c => P c.session) (called env) (fun _ c => P c.session) E := by
  unfold called
  refine Spec.get_bind fun c hc => ?_
  refine Spec.bind (Q := fun _ c' => P c'.session) (Spec.set fun _ _ => hc) fun _ => ?_
  split
  · rename_i hfails
    refine Spec.throw fun c' hc' => h _ c' hc' fun hsure => ?_
    rw [hsure] at hfails
    cases hfails
  · exact Spec.pure fun c' hc' => hc'

theorem called_tracks : Spec (fun c => Tracks db j c.session) (called env)
    (fun _ c => Tracks db j c.session) (Holds env db j reason) :=
  called_keeps fun _ _ h hfails => ⟨h.committed, fun hsure => absurd hsure hfails⟩

theorem select_tracks (t : TableName) (cond : PgRow F → Bool) :
    Spec (fun c => Tracks db j c.session) (selectOne env t cond)
      (fun o c => Tracks db j c.session ∧ (c.session.visible t).filter cond = o.toList)
      (Holds env db j (∃ db', j.Sees db db' ∧ ∀ o : Option (PgRow F),
        (db' t).filter cond ≠ o.toList)) := by
  unfold selectOne
  refine called_tracks.bind fun _ => ?_
  refine Spec.get_bind fun c hc => ?_
  cases hrows : (c.session.visible t).filter cond with
  | nil => exact Spec.pure fun c' e => e ▸ ⟨hc, hrows⟩
  | cons r rest =>
      cases rest with
      | nil => exact Spec.pure fun c' e => e ▸ ⟨hc, hrows⟩
      | cons s rest =>
          refine Spec.throw fun c' e => e ▸ ⟨hc.committed, fun _ => ⟨_, hc.visible, ?_⟩⟩
          intro o ho
          rw [hrows] at ho
          cases o <;> cases ho

/-- What is executed is executed on what is visible. -/
theorem execute_tracks (st : PgStmt F) :
    Spec (fun c => Tracks db j c.session) (execute env st)
      (fun _ c => Tracks db (j.execute st) c.session)
      (Holds env db j (∀ db', ¬ (j.execute st).Sees db db')) := by
  unfold execute
  refine called_tracks.bind fun _ => ?_
  refine Spec.get_bind fun c hc => ?_
  have hexec : applyAll ormSchema db (j.durable ++ (j.execute st).flushed) =
      exec ormSchema c.session.visible st := by
    show applyAll ormSchema db (j.durable ++ (j.flushed ++ [.stmt st])) = _
    rw [← List.append_assoc, applyAll_append, hc.visible, Option.bind_some, applyAll_singleton]
    rfl
  cases hst : exec ormSchema c.session.visible st with
  | none =>
      refine Spec.throw fun c' e => e ▸ ⟨hc.committed, fun _ db' hsees => ?_⟩
      cases (hexec.trans hst).symm.trans hsees
  | some db' =>
      exact Spec.set fun _ _ => ⟨hc.committed, hexec.trans hst, hc.pending, hc.drawn⟩

/-- Inserting what is pending into what is visible is applying everything. -/
theorem Tracks.applyAll_changes {s : Session F} (h : Tracks db j s) :
    applyAll ormSchema db j.changes =
      insertAll ormSchema s.visible (flushOrder s.pending) := by
  unfold Journal.changes Journal.inserts
  rw [applyAll_append, h.visible, Option.bind_some, applyAll_rows, h.pending]

theorem flush_tracks :
    Spec (fun c => Tracks db j c.session) (flush env)
      (fun _ c => Tracks db j.flush c.session ∧
        applyAll ormSchema db j.changes = some c.session.visible)
      (Holds env db j (applyAll ormSchema db j.changes = none)) := by
  unfold flush
  refine called_tracks.bind fun _ => ?_
  refine Spec.get_bind fun c hc => ?_
  have hchanges := hc.applyAll_changes
  cases hdb : insertAll ormSchema c.session.visible (flushOrder c.session.pending) with
  | none => exact Spec.throw fun c' e => e ▸ ⟨hc.committed, fun _ => hchanges.trans hdb⟩
  | some db' =>
      rw [hdb] at hchanges
      refine Spec.set fun _ _ => ⟨⟨hc.committed, ?_, rfl, hc.drawn⟩, hchanges⟩
      show applyAll ormSchema db (j.durable ++ (j.flushed ++ j.inserts)) = some db'
      rw [← List.append_assoc]
      exact hchanges

theorem commit_tracks :
    Spec (fun c => Tracks db j c.session) (commitSession env)
      (fun _ c => Tracks db j.commit c.session ∧
        applyAll ormSchema db j.changes = some c.session.committed)
      (Holds env db j (applyAll ormSchema db j.changes = none)) := by
  unfold commitSession
  refine flush_tracks.bind fun _ => ?_
  refine (called_keeps (P := fun s => Tracks db j.flush s ∧
    applyAll ormSchema db j.changes = some s.visible) fun _ _ h hfails =>
      ⟨h.1.committed, fun hsure => absurd hsure hfails⟩).bind fun _ => ?_
  refine Spec.modify fun c hc => ⟨⟨hc.2, ?_, hc.1.pending, hc.1.drawn⟩, hc.2⟩
  show applyAll ormSchema db (j.changes ++ []) = some c.session.visible
  rw [List.append_nil]
  exact hc.2

/-- The objects handed out are what the journal had pending. -/
theorem withObjects_tracks {m : SessionM F Unit} {P : Client F → Prop}
    {E : SessionError → Client F → Prop}
    (h : Spec (fun c => Tracks db j c.session) m (fun _ c => P c) E) :
    Spec (fun c => Tracks db j c.session) (withObjects m)
      (fun objects c => objects = flushOrder j.pending ∧ P c) E := by
  unfold withObjects
  refine Spec.get_bind fun c hc => ?_
  have hrun : Spec (fun c' => c' = c) m (fun _ c' => P c') E :=
    h.imp (fun c' e => e ▸ hc) fun _ _ hP => hP
  exact hrun.bind fun _ => Spec.pure fun c' hP => ⟨by rw [hc.pending], hP⟩

theorem rollback_tracks :
    Spec (fun c => Tracks db j c.session) (rollbackSession env)
      (fun _ c => Tracks db j.rollback c.session) (Holds env db j False) := by
  unfold rollbackSession
  refine called_tracks.bind fun _ => ?_
  refine Spec.modify fun c hc => ⟨hc.committed, ?_, rfl, hc.drawn⟩
  show applyAll ormSchema db (j.durable ++ []) = some c.session.committed
  rw [List.append_nil]
  exact hc.committed

omit [DecidableEq F] in
/-- A rollback leaves what is committed, also where it fails itself. -/
theorem rollback_keeps {P : PgDb F → Prop} :
    Spec (fun c => P c.session.committed) (rollbackSession env)
      (fun _ c => P c.session.committed) (fun _ c => P c.session.committed) := by
  unfold rollbackSession
  refine (called_keeps (P := fun s => P s.committed) fun _ _ h _ => h).bind fun _ => ?_
  exact Spec.modify fun c hc => hc

theorem tracks_opened (db : PgDb F) : Tracks db .new (Session.opened db) :=
  ⟨rfl, rfl, rfl, rfl⟩

end Calls

/-! ## 4. The block -/

/-- A block that raised: what is committed was durable at some step, and where no call failed the
    block sticks. -/
def Failed (env : SessionEnv) (db : PgDb F) (body : Body F α) (c : Client F) : Prop :=
  Durable env db body c.session.committed ∧ (env.Reliable → body.Sticks env db)

/-- **The session follows the journal**: a block that returns got there by steps of the journal,
    and where it raises, what is committed was durable at some step. -/
theorem run_spec {env : SessionEnv} {db : PgDb F} {body0 : Body F α} (body : Body F α)
    (j : Journal F) (hreach : body0.Reaches env db (body, j)) :
    Spec (fun c => Tracks db j c.session) (body.run env)
      (fun a c => ∃ j', body0.Reaches env db (.returned a, j') ∧ Tracks db j' c.session)
      (fun _ c => Failed env db body0 c) := by
  have hfail : ∀ {body : Body F α} {j : Journal F} {reason : Prop},
      body0.Reaches env db (body, j) → (reason → ∀ q', ¬ Body.Step env db (body, j) q') →
      (∀ a, body ≠ .returned a) → ∀ e c, Holds env db j reason e c → Failed env db body0 c :=
    fun hr hstuck hnot _ _ h => ⟨⟨_, hr, h.1⟩, fun hsure => ⟨_, hr, hstuck (h.2 hsure), hnot⟩⟩
  induction body generalizing j with
  | returned a => exact Spec.pure fun c hc => ⟨j, hreach, hc⟩
  | raised e =>
      refine Spec.throw fun c hc => ⟨⟨_, hreach, hc.committed⟩, fun _ => ⟨_, hreach, ?_, ?_⟩⟩
      · intro q' h
        cases h
      · exact fun a h => by cases h
  | select m cond next ih =>
      refine ((select_tracks _ cond).weaken (hfail hreach ?_ fun a h => by cases h)).bind
        fun o => Spec.of_eq fun c hc => ?_
      · rintro ⟨db', hsees, hmany⟩ q' hstep
        cases hstep with
        | select hdb ho =>
            cases hsees.symm.trans hdb
            exact hmany _ ho
      · exact (ih o j (hreach.tail (.select hc.1.visible hc.2))).imp (fun _ e => e ▸ hc.1)
          fun _ _ h => h
  | add o next ih =>
      refine Spec.bind (Q := fun _ c => Tracks db (j.add (o.row (env.draw j.drawn))) c.session)
        (fun c hc => ?_) fun _ => ih _ (hreach.tail .add)
      refine ⟨hc.committed, hc.visible, ?_, ?_⟩
      · show c.session.pending ++ [o.row (env.draw c.session.drawn)] = _
        rw [hc.pending, hc.drawn]
        rfl
      · show c.session.drawn + 1 = j.drawn + 1
        rw [hc.drawn]
  | execute st next ih =>
      refine ((execute_tracks st).weaken (hfail hreach ?_ fun a h => by cases h)).bind
        fun _ => Spec.of_eq fun c hc => ?_
      · intro hnone q' hstep
        cases hstep with
        | execute h => exact hnone _ h
      · exact (ih _ (hreach.tail (.execute hc.visible))).imp (fun _ e => e ▸ hc) fun _ _ h => h
  | flush next ih =>
      refine ((withObjects_tracks flush_tracks).weaken (hfail hreach ?_ fun a h => by cases h)).bind
        fun objects => Spec.fact fun e => Spec.of_eq fun c hc => ?_
      · intro hnone q' hstep
        cases hstep with
        | flush h =>
            rw [hnone] at h
            cases h
      · subst e
        exact (ih _ _ (hreach.tail (.flush (by rw [hc.2]; rfl)))).imp (fun _ e => e ▸ hc.1)
          fun _ _ h => h
  | commit next ih =>
      have hnot : ∀ a, Body.commit next ≠ .returned a := fun a h => by cases h
      refine ((withObjects_tracks commit_tracks).weaken (hfail hreach ?_ hnot)).bind
        fun objects => Spec.fact fun e => Spec.of_eq fun c hc => ?_
      · intro hnone q' hstep
        cases hstep with
        | commit h =>
            rw [hnone] at h
            cases h
      · subst e
        exact (ih _ _ (hreach.tail (.commit (by rw [hc.2]; rfl)))).imp (fun _ e => e ▸ hc.1)
          fun _ _ h => h
  | rollback next ih =>
      refine (rollback_tracks.weaken (hfail hreach (fun h => h.elim) fun a h => by cases h)).bind
        fun _ => ?_
      exact ih _ (hreach.tail .rollback)

/-! ## 5. The three providers -/

/-- The block sticks, or what is pending at its end breaks a constraint. -/
def Body.Refused (env : SessionEnv) (db : PgDb F) (body : Body F α) : Prop :=
  body.Sticks env db ∨ ∃ a j, body.Reaches env db (.returned a, j) ∧
    applyAll ormSchema db j.changes = none

theorem getDb_spec (env : SessionEnv) (db : PgDb F) (body : Body F α) :
    Spec (fun c => Tracks db .new c.session) (getDb env body)
      (fun a c => ∃ j, body.Reaches env db (.returned a, j) ∧
        applyAll ormSchema db j.changes = some c.session.committed)
      (fun _ c => Durable env db body c.session.committed ∧
        (env.Reliable → body.Refused env db)) := by
  unfold getDb
  refine Spec.tryCatch (D := fun _ c => Durable env db body c.session.committed ∧
    (env.Reliable → body.Refused env db)) ?_ fun e => ?_
  · refine ((run_spec body .new .refl).weaken fun _ c h => ⟨h.1, fun hs => .inl (h.2 hs)⟩).bind
      fun a => Spec.exists fun j => Spec.fact fun hreach => ?_
    refine (commit_tracks.weaken fun _ c h =>
      ⟨⟨_, hreach, h.1⟩, fun hs => .inr ⟨a, j, hreach, h.2 hs⟩⟩).bind fun _ => ?_
    exact Spec.pure fun c hc => ⟨j, hreach, hc.2⟩
  · refine (rollback_keeps (P := fun db' => Durable env db body db' ∧
      (env.Reliable → body.Refused env db))).bind fun _ => ?_
    exact Spec.throw fun c hc => hc

/-- The answer of a scope opened on the database `db`, and the database it leaves. -/
def runScope (scope : SessionM F α) (db : PgDb F) : Except SessionError α × PgDb F :=
  match scope ⟨Session.opened db, 0⟩ with
  | .ok a c => (.ok a, c.session.committed)
  | .error e c => (.error e, c.session.committed)

omit [DecidableEq F] in
/-- What a triple says of a scope. -/
theorem runScope_spec {scope : SessionM F α} {db : PgDb F} {P : Client F → Prop}
    (Q : α → PgDb F → Prop) (E : PgDb F → Prop) (hP : P ⟨Session.opened db, 0⟩)
    (h : Spec P scope (fun a c => Q a c.session.committed) fun _ c => E c.session.committed) :
    (∀ a, (runScope scope db).1 = .ok a → Q a (runScope scope db).2) ∧
      ∀ e, (runScope scope db).1 = .error e → E (runScope scope db).2 := by
  have hs := h _ hP
  unfold runScope
  cases hr : scope ⟨Session.opened db, 0⟩ with
  | ok a c =>
      rw [hr] at hs
      refine ⟨fun a' ha => ?_, fun e he => ?_⟩
      · cases ha
        exact hs
      · cases he
  | error e c =>
      rw [hr] at hs
      refine ⟨fun a ha => ?_, fun _ _ => hs⟩
      cases ha

/-- **`get_db`**: a block that returned has everything it changed stored, each change once and in
    the order of its flushes and statements; of one that raised only what it had committed itself is
    left. -/
theorem getDb_outcome (env : SessionEnv) (db : PgDb F) (body : Body F α) :
    (∀ a, (runScope (getDb env body) db).1 = .ok a →
      ∃ j, body.Reaches env db (.returned a, j) ∧
        applyAll ormSchema db j.changes = some (runScope (getDb env body) db).2) ∧
    ∀ e, (runScope (getDb env body) db).1 = .error e →
      Durable env db body (runScope (getDb env body) db).2 ∧
        (env.Reliable → body.Refused env db) :=
  runScope_spec
    (fun a db' => ∃ j, body.Reaches env db (.returned a, j) ∧
      applyAll ormSchema db j.changes = some db')
    (fun db' => Durable env db body db' ∧ (env.Reliable → body.Refused env db))
    (tracks_opened db) (getDb_spec env db body)

/-- **`get_db_session`**: what a block did not commit itself is gone, also when it returned. -/
theorem getDbSession_outcome (env : SessionEnv) (db : PgDb F) (body : Body F α) :
    (∀ a, (runScope (getDbSession env body) db).1 = .ok a →
      ∃ j, body.Reaches env db (.returned a, j) ∧
        applyAll ormSchema db j.durable = some (runScope (getDbSession env body) db).2) ∧
    ∀ e, (runScope (getDbSession env body) db).1 = .error e →
      Durable env db body (runScope (getDbSession env body) db).2 ∧
        (env.Reliable → body.Sticks env db) := by
  refine runScope_spec
    (fun a db' => ∃ j, body.Reaches env db (.returned a, j) ∧
      applyAll ormSchema db j.durable = some db')
    (fun db' => Durable env db body db' ∧ (env.Reliable → body.Sticks env db))
    (tracks_opened db) ((run_spec body .new .refl).imp (fun _ h => h) fun a c => ?_)
  rintro ⟨j, hreach, htracks⟩
  exact ⟨j, hreach, htracks.committed⟩

/-- The journal leaves no choice. -/
theorem Body.Step.unique {env : SessionEnv} {db : PgDb F} {q q1 q2 : Body F α × Journal F}
    (h1 : Body.Step env db q q1) (h2 : Body.Step env db q q2) : q1 = q2 := by
  cases h1 with
  | select hdb ho =>
      cases h2 with
      | select hdb' ho' =>
          cases hdb.symm.trans hdb'
          rename_i o o'
          have he := ho.symm.trans ho'
          cases o <;> cases o' <;> cases he <;> rfl
  | add =>
      cases h2
      rfl
  | execute _ =>
      cases h2
      rfl
  | flush _ =>
      cases h2
      rfl
  | commit _ =>
      cases h2
      rfl
  | rollback =>
      cases h2
      rfl

end Steps

section Samples

end Samples

end AutomationPlatform
