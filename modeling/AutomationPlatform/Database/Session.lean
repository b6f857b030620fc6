import AutomationPlatform.Database.FieldByField
import AutomationPlatform.Library.Raising
import AutomationPlatform.Library.Relational.Rows

/-!
# `async_session_factory`: a session without autoflush

A session sees the committed rows and the rows flushed since it began; an object that was added is
pending until the next flush and no query sees it. A commit flushes and makes what is visible
durable. Every call that reaches the database may raise, for reasons of its own; `SessionEnv` says
which calls do, and what `uuid4()` and the clock return. A call with a value that PostgreSQL does
not have, such as a text with U+0000, is one of those. Leaving the session without a commit leaves
what was committed.

A flush does not insert in the order of the `add`s but class by class (`flushOrder`), since only two
pairs of classes have a `relationship` that orders them.

The tables are the ones `init_db` creates.
-/

namespace AutomationPlatform

open Python Relational Raising

/-- What can be raised. -/
inductive SessionError where
  /-- A call failed: the connection, the server, a cancellation. -/
  | failed
  /-- `MultipleResultsFound` of `scalar_one_or_none`. -/
  | multipleResults
  /-- `IntegrityError` or `DataError`: a row or a statement breaks a constraint of its table. -/
  | integrity
  | keyError
  deriving DecidableEq, Repr

/-- Which calls fail, by their number, and what the defaults draw. -/
structure SessionEnv where
  fails : Nat → Bool
  ids : Nat → UUID
  now : Nat → Timestamp

/-- The draws of one object. -/
def SessionEnv.draw (env : SessionEnv) (n : Nat) : Drawn := ⟨env.ids n, env.now n⟩

structure Session (F : Type) where
  committed : PgDb F
  visible : PgDb F
  pending : List (TableName × PgRow F)
  drawn : Nat

/-- The session and the number of calls made. -/
structure Client (F : Type) where
  session : Session F
  calls : Nat

/-- A program that uses the session. -/
abbrev SessionM (F : Type) := EStateM SessionError (Client F)

variable {F : Type}

def Session.opened (db : PgDb F) : Session F := ⟨db, db, [], 0⟩

/-- One call that reaches the database. One that fails changes nothing there: the commit whose
    answer is lost on the way back is left out. -/
def called (env : SessionEnv) : SessionM F Unit := do
  let c ← get
  set { c with calls := c.calls + 1 }
  if env.fails c.calls then throw .failed

/-- `(await session.execute(select(...).where(...))).scalar_one_or_none()`. -/
def selectOne (env : SessionEnv) (t : TableName) (cond : PgRow F → Bool) :
    SessionM F (Option (PgRow F)) := do
  called env
  match ((← get).session.visible t).filter cond with
  | [] => return none
  | [r] => return some r
  | _ => throw .multipleResults

/-- The value of one column of a new object. An attribute given as `None` takes the default too, but
    for a JSON column, which stores `null`. -/
def MappedColumn.fill (c : MappedColumn) (drawn : Drawn) :
    Option (Option (SqlValue F)) → Option (SqlValue F)
  | some (some v) => some v
  | some none =>
    if c.type = .plain .jsonb then some (.json .none) else c.default.map (PyDefault.value drawn)
  | none => c.default.map (PyDefault.value drawn)

/-- The row of a new object: its attributes as given, the others at their default or `NULL`. -/
def Model.construct (m : Model) (drawn : Drawn) (attrs : Named ColumnName (SqlValue F)) :
    PgRow F := fun n =>
  (m.mapped.columns.find? fun c => decide (c.name = n)).bind fun c =>
    c.fill drawn (attrs.lookup n)

/-- `session.add(m(...))`. The defaults of the object are drawn here and not at the flush, where
    SQLAlchemy draws them: nothing reads them in between, and which draw is whose is the choice of
    `env`. -/
def add (env : SessionEnv) (m : Model) (attrs : Named ColumnName (SqlValue F)) :
    SessionM F (PgRow F) := do
  let c ← get
  let r := m.construct (env.draw c.session.drawn) attrs
  set { c with session := { c.session with
    pending := c.session.pending ++ [(m.mapped.tablename, r)]
    drawn := c.session.drawn + 1 } }
  return r

/-- The tables in the order of `mapper._sort_key`, the module and name of their class:
    `app.models.audit_log.AuditLog` to `app.models.user.User`. No class maps `user_roles`. -/
def classOrder : List TableName := [.auditLogs, .ingestedRows, .permissions, .roles,
  .rolePermissions, .ssoSessions, .suggestions, .templates, .templateVersions, .users, .userRoles]

/-- The classes a class has a `relationship` with and is saved after. -/
def savedAfter : TableName → List TableName
  | .rolePermissions => [.roles, .permissions]
  | .templateVersions => [.templates]
  | _ => []

/-- The table has to wait for objects of another class of the same flush. -/
def waits (pending : List (TableName × PgRow F)) (t : TableName) : Bool :=
  (savedAfter t).any fun u => pending.any fun p => decide (p.1 = u)

/-- **The order of a flush**: class by class, those that wait for another one last; the objects of a
    class as they were added. -/
def flushOrder (pending : List (TableName × PgRow F)) : List (TableName × PgRow F) :=
  (classOrder.filter (fun t => !waits pending t) ++ classOrder.filter (waits pending)).flatMap
    fun t => rowsOf t pending

section

variable [DecidableEq F]

/-- `await session.flush()`: everything pending is inserted, class by class. -/
def flush (env : SessionEnv) : SessionM F Unit := do
  called env
  let c ← get
  match insertAll ormSchema c.session.visible (flushOrder c.session.pending) with
  | some db => set { c with session := { c.session with visible := db, pending := [] } }
  | none => throw .integrity

/-- `await session.execute(st)` of an INSERT, UPDATE or DELETE: it is executed at once, on what is
    visible, and leaves what is pending pending. -/
def execute (env : SessionEnv) (st : PgStmt F) : SessionM F Unit := do
  called env
  let c ← get
  match exec ormSchema c.session.visible st with
  | some db => set { c with session := { c.session with visible := db } }
  | none => throw .integrity

/-- `await session.commit()`. -/
def commitSession (env : SessionEnv) : SessionM F Unit := do
  flush env
  called env
  modify fun c => { c with session := { c.session with committed := c.session.visible } }

end

/-! ## The row of a new object -/

/-- The default is a value of the type. -/
def PyDefault.fits : MappedType → PyDefault → Bool
  | .plain .uuid, .uuid4 => true
  | .plain .timestamptz, .utcNow => true
  | .plain .jsonb, .emptyDict => true
  | .plain .boolean, .bool _ => true
  | .plain (.enum labels), .label s => labels.contains s
  | .userRole, .role _ => true
  | _, _ => false

/-- **Every default passes the check of its own column.** -/
theorem Model.defaults_fit (m : Model) :
    ∀ c ∈ m.mapped.columns, ∀ p ∈ c.default, p.fits c.type = true := by
  cases m <;> decide

theorem PyDefault.admits_value {ty : MappedType} {p : PyDefault} (h : p.fits ty = true)
    (drawn : Drawn) : ty.sqlType.admits (p.value drawn : SqlValue F) = true := by
  unfold PyDefault.fits at h
  split at h
  · rfl
  · rfl
  · rfl
  · rfl
  · exact h
  · rename_i r
    cases r <;> rfl
  · cases h

/-- The column `create_all` makes of it. -/
def MappedColumn.toColumn (c : MappedColumn) : Column ColumnName ColType :=
  ⟨c.name, c.type.sqlType, c.nullable, false⟩

/-- The column takes the attribute: a value of its type, or none where it has a default, may be
    `NULL` or stores `null`. -/
def MappedColumn.takes (c : MappedColumn) : Option (Option (SqlValue F)) → Bool
  | some (some v) => c.toColumn.admits (some v)
  | some none => c.nullable || c.default.isSome || decide (c.type = .plain .jsonb)
  | none => c.nullable || c.default.isSome

def Model.takes (m : Model) (attrs : Named ColumnName (SqlValue F)) : Bool :=
  m.mapped.columns.all fun c => c.takes (attrs.lookup c.name)

theorem construct_of_mem {m : Model} {c : MappedColumn} (hc : c ∈ m.mapped.columns)
    (drawn : Drawn) (attrs : Named ColumnName (SqlValue F)) :
    m.construct drawn attrs c.name = c.fill drawn (attrs.lookup c.name) := by
  have hfind : m.mapped.columns.find? (fun c' => decide (c'.name = c.name)) = some c :=
    find?_column hc (decide_eq_true rfl) fun c' h => by rw [of_decide_eq_true h]
  unfold Model.construct
  rw [hfind]
  rfl

theorem admits_default {c : MappedColumn} (hfit : ∀ p ∈ c.default, p.fits c.type = true)
    (h : (c.nullable || c.default.isSome) = true) (drawn : Drawn) :
    c.toColumn.admits (c.default.map (PyDefault.value drawn) : Option (SqlValue F)) = true := by
  cases hd : c.default with
  | none =>
      rw [hd] at h
      exact (Bool.or_false _).symm.trans h
  | some p => exact p.admits_value (hfit p hd) drawn

theorem admits_fill {c : MappedColumn} {given : Option (Option (SqlValue F))}
    (hfit : ∀ p ∈ c.default, p.fits c.type = true) (h : c.takes given = true) (drawn : Drawn) :
    c.toColumn.admits (c.fill drawn given) = true := by
  match given, h with
  | some (some v), h => exact h
  | none, h => exact admits_default hfit h drawn
  | some none, h =>
      unfold MappedColumn.fill
      dsimp only
      by_cases hjson : c.type = .plain .jsonb
      · rw [if_pos hjson]
        show ColType.admits c.type.sqlType _ = true
        rw [hjson]
        rfl
      · rw [if_neg hjson]
        unfold MappedColumn.takes at h
        rw [decide_eq_false hjson, Bool.or_false] at h
        exact admits_default hfit h drawn

theorem admitsRow_construct {m : Model} {attrs : Named ColumnName (SqlValue F)}
    (h : m.takes attrs = true) (drawn : Drawn) :
    m.mapped.toTable.admitsRow (m.construct drawn attrs) = true := by
  unfold Table.admitsRow MappedTable.toTable
  rw [List.all_map, List.all_eq_true]
  intro c hc
  show c.toColumn.admits (m.construct drawn attrs c.name) = true
  rw [construct_of_mem hc]
  exact admits_fill (m.defaults_fit c hc) (List.all_eq_true.mp h c hc) drawn

/-! ## The order of a flush -/

section Order

variable {pending : List (TableName × PgRow F)}

theorem rowsOf_flushOrder (t : TableName) : rowsOf t (flushOrder pending) = rowsOf t pending := by
  have hperm : (classOrder.filter (fun t => !waits pending t) ++
      classOrder.filter (waits pending)).Perm classOrder :=
    List.perm_append_comm.trans (List.filter_append_perm _ _)
  exact rowsOf_flatMap (hperm.symm.nodup (by decide))
    (hperm.symm.subset (by cases t <;> decide))

theorem mem_flushOrder {p : TableName × PgRow F} : p ∈ flushOrder pending ↔ p ∈ pending := by
  have h : p ∈ rowsOf p.1 (flushOrder pending) ↔ p ∈ rowsOf p.1 pending := by
    rw [rowsOf_flushOrder]
  simpa only [mem_rowsOf, and_true] using h

/-- **The order does not matter for objects that refer to none of the same flush.** -/
theorem insertAll_flushOrder [DecidableEq F] {db : PgDb F} (h : Settled ormSchema db pending) :
    insertAll ormSchema db (flushOrder pending) = insertAll ormSchema db pending :=
  (insertAll_congr h fun t => (rowsOf_flushOrder t).symm).symm

end Order

/-! ## What each call does -/

/-- The program was stopped before anything was committed. Where `sure` holds, only a failing call
    stops it. -/
def Stopped (env : SessionEnv) (db : PgDb F) (sure : Prop) (e : SessionError) (c : Client F) :
    Prop :=
  c.session.committed = db ∧ (sure → e = .failed ∧ ∃ n, env.fails n = true)

section

variable {env : SessionEnv} {db0 : PgDb F} {sure : Prop} {P : Session F → Prop}

theorem called_spec (hP : ∀ s, P s → s.committed = db0) :
    Spec (fun c => P c.session) (called env) (fun _ c => P c.session) (Stopped env db0 sure) := by
  unfold called
  refine Spec.get_bind fun c hc => ?_
  refine Spec.bind (Q := fun _ c' => P c'.session) (Spec.set fun _ _ => hc) fun _ => ?_
  split
  · rename_i hfails
    exact Spec.throw fun c' hc' => ⟨hP _ hc', fun _ => ⟨rfl, _, hfails⟩⟩
  · exact Spec.pure fun c' hc' => hc'

theorem selectOne_spec (hP : ∀ s, P s → s.committed = db0) {t : TableName} {cond : PgRow F → Bool}
    (hone : ∀ s, P s → ((s.visible t).filter cond).length ≤ 1) :
    Spec (fun c => P c.session) (selectOne env t cond)
      (fun o c => P c.session ∧ (c.session.visible t).filter cond = o.toList)
      (Stopped env db0 sure) := by
  unfold selectOne
  refine (called_spec hP).bind fun _ => ?_
  refine Spec.get_bind fun c hc => ?_
  have hlen := hone c.session hc
  generalize hrows : (c.session.visible t).filter cond = rows at hlen
  cases rows with
  | nil => exact Spec.pure fun c' e => e ▸ ⟨hc, hrows⟩
  | cons r rest =>
      cases rest with
      | nil => exact Spec.pure fun c' e => e ▸ ⟨hc, hrows⟩
      | cons s rest => simp at hlen

theorem add_spec {Q : PgRow F → Session F → Prop} {m : Model}
    {attrs : Named ColumnName (SqlValue F)} (h : ∀ s, P s →
      let r := m.construct (env.draw s.drawn) attrs
      Q r { s with pending := s.pending ++ [(m.mapped.tablename, r)], drawn := s.drawn + 1 }) :
    Spec (fun c => P c.session) (add env m attrs) (fun r c => Q r c.session)
      (Stopped env db0 sure) :=
  fun c hc => h c.session hc

variable [DecidableEq F]

theorem flush_spec (hP : ∀ s, P s → s.committed = db0) {Q : Session F → Prop}
    (hsome : ∀ s, P s → ∀ db, insertAll ormSchema s.visible (flushOrder s.pending) = some db →
      Q { s with visible := db, pending := [] })
    (hnone : ∀ s, P s → insertAll ormSchema s.visible (flushOrder s.pending) = none → ¬ sure) :
    Spec (fun c => P c.session) (flush env) (fun _ c => Q c.session) (Stopped env db0 sure) := by
  unfold flush
  refine (called_spec hP).bind fun _ => ?_
  refine Spec.get_bind fun c hc => ?_
  cases hdb : insertAll ormSchema c.session.visible (flushOrder c.session.pending) with
  | some db => exact Spec.set fun _ _ => hsome c.session hc db hdb
  | none => exact Spec.throw fun c' e =>
      ⟨e ▸ hP c.session hc, fun hsure => absurd hsure (hnone c.session hc hdb)⟩

theorem commitSession_spec (hP : ∀ s, P s → s.committed = db0) {Q : Session F → Prop}
    (hsome : ∀ s, P s → ∀ db, insertAll ormSchema s.visible (flushOrder s.pending) = some db →
      Q { s with committed := db, visible := db, pending := [] })
    (hnone : ∀ s, P s → insertAll ormSchema s.visible (flushOrder s.pending) = none → ¬ sure) :
    Spec (fun c => P c.session) (commitSession env) (fun _ c => Q c.session)
      (Stopped env db0 sure) := by
  unfold commitSession
  refine (flush_spec hP (Q := fun s => s.committed = db0 ∧ Q { s with committed := s.visible })
    (fun s hs db hdb => ⟨hP s hs, hsome s hs db hdb⟩) hnone).bind fun _ => ?_
  refine (called_spec (P := fun s => s.committed = db0 ∧ Q { s with committed := s.visible })
    fun s hs => hs.1).bind fun _ => ?_
  exact Spec.modify fun c hc => hc.2

end

end AutomationPlatform
