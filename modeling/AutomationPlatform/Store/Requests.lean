import AutomationPlatform.Database.SessionScope
import AutomationPlatform.Database.SchemaDef
import Mathlib.Data.Rat.Defs

/-!
# Requests served one after another

Each request runs a block in a session of its own, handed out by `get_db` or by `get_db_session`.
No endpoint commits, so the blocks here do not (`Body.Plain`).

* `Served` -- the abstract store: a request handed `get_db` that returned applies all it changed,
  any other request changes nothing;
* **`served_run`** -- the database after any requests, whichever calls failed in them, is the
  abstract one;
* `requests_consistent` -- it meets every constraint;
* `requests_spare` -- a row of a table without foreign keys is there as long as every statement of
  the requests spares it.
-/

namespace AutomationPlatform

open Python Relational Runs

variable {F α : Type}

/-- Whatever it is answered, the block commits only where `commits` holds and executes only
    statements with `P`. -/
inductive Body.Uses (commits : Prop) (P : PgStmt F → Prop) : Body F α → Prop where
  | returned {a : α} : Uses commits P (.returned a)
  | raised {e : SessionError} : Uses commits P (.raised e)
  | select {m : Model} {cond : PgRow F → Bool} {next : Option (PgRow F) → Body F α}
      (h : ∀ o, Uses commits P (next o)) : Uses commits P (.select m cond next)
  | add {o : NewObject F} {next : Body F α} (h : Uses commits P next) : Uses commits P (.add o next)
  | execute {st : PgStmt F} {next : Body F α} (hst : P st) (h : Uses commits P next) :
      Uses commits P (.execute st next)
  | flush {next : Objects F → Body F α} (h : ∀ rows, Uses commits P (next rows)) :
      Uses commits P (.flush next)
  | commit {next : Objects F → Body F α} (hcommits : commits)
      (h : ∀ rows, Uses commits P (next rows)) : Uses commits P (.commit next)
  | rollback {next : Body F α} (h : Uses commits P next) : Uses commits P (.rollback next)

/-- The block commits nowhere itself. -/
abbrev Body.Plain (body : Body F α) : Prop := body.Uses False fun _ => True

/-- Every statement of the block has `P`. -/
abbrev Body.Executes (P : PgStmt F → Prop) (body : Body F α) : Prop := body.Uses True P

theorem Journal.stmt_mem_changes {j : Journal F} {st : PgStmt F} :
    .stmt st ∈ j.changes ↔ .stmt st ∈ j.durable ++ j.flushed := by
  unfold Journal.changes Journal.inserts
  rw [List.mem_append]
  refine or_iff_left fun h => ?_
  obtain ⟨p, -, hp⟩ := List.mem_map.mp h
  cases hp

variable [DecidableEq F]

/-! ## 1. What a block leaves in its journal -/

/-- **The journal of such a block** holds nothing durable unless it commits, and no other
    statement. -/
theorem Body.Uses.journal {commits : Prop} {P : PgStmt F → Prop} {env : SessionEnv} {db : PgDb F}
    {body : Body F α} (h : body.Uses commits P) {q : Body F α × Journal F}
    (hq : body.Reaches env db q) :
    q.1.Uses commits P ∧ (¬ commits → q.2.durable = []) ∧ ∀ st, .stmt st ∈ q.2.changes → P st := by
  simp only [Journal.stmt_mem_changes]
  induction hq with
  | refl => exact ⟨h, fun _ => rfl, fun st hst => absurd hst List.not_mem_nil⟩
  | tail _ hstep ih =>
      obtain ⟨hbody, hdurable, hall⟩ := ih
      cases hstep with
      | select =>
          cases hbody with
          | select hnext => exact ⟨hnext _, hdurable, hall⟩
      | add =>
          cases hbody with
          | add hnext => exact ⟨hnext, hdurable, hall⟩
      | @execute st0 _ j =>
          cases hbody with
          | execute hst0 hnext =>
              refine ⟨hnext, hdurable, fun st hst => ?_⟩
              have hmem : .stmt st ∈ (j.durable ++ j.flushed) ++ [.stmt st0] := by
                rw [List.append_assoc]
                exact hst
              rcases List.mem_append.mp hmem with hold | hnew
              · exact hall st hold
              · cases List.mem_singleton.mp hnew
                exact hst0
      | flush =>
          cases hbody with
          | flush hnext =>
              refine ⟨hnext _, hdurable, fun st hst => hall st (Journal.stmt_mem_changes.mp ?_)⟩
              unfold Journal.changes
              rw [List.append_assoc]
              exact hst
      | commit =>
          cases hbody with
          | commit hcommits hnext =>
              refine ⟨hnext _, fun hnot => absurd hcommits hnot, fun st hst =>
                hall st (Journal.stmt_mem_changes.mp ?_)⟩
              exact List.append_nil (Journal.changes _) ▸ hst
      | rollback =>
          cases hbody with
          | rollback hnext =>
              refine ⟨hnext, hdurable, fun st hst => hall st (List.mem_append_left _ ?_)⟩
              exact List.append_nil (Journal.durable _) ▸ hst

theorem Body.Plain.durable {env : SessionEnv} {db : PgDb F} {body : Body F α} (h : body.Plain)
    {q : Body F α × Journal F} (hq : body.Reaches env db q) : q.2.durable = [] :=
  (h.journal hq).2.1 id

theorem Body.Plain.eq_of_durable {env : SessionEnv} {db db' : PgDb F} {body : Body F α}
    (h : body.Plain) (hd : Durable env db body db') : db' = db := by
  obtain ⟨q, hq, hins⟩ := hd
  rw [Body.Plain.durable h hq] at hins
  exact (Option.some.inj hins).symm

/-! ## 2. Requests -/

/-- How the session of a request is handed out. -/
inductive Provider where
  | getDb
  | getDbSession
  deriving DecidableEq, Repr

structure Request (F : Type) where
  provider : Provider
  env : SessionEnv
  body : Body F Unit

def Request.scope (r : Request F) : SessionM F Unit :=
  match r.provider with
  | .getDb => AutomationPlatform.getDb r.env r.body
  | .getDbSession => AutomationPlatform.getDbSession r.env r.body

/-- The request is answered and not stopped by an error. -/
def Request.Answered (db : PgDb F) (r : Request F) : Prop := (runScope r.scope db).1 = .ok ()

def Request.serve (db : PgDb F) (r : Request F) : PgDb F := (runScope r.scope db).2

/-- **The abstract store.** -/
inductive Served : PgDb F → List (Request F) → PgDb F → Prop where
  | nil {db : PgDb F} : Served db [] db
  | stored {db db1 db2 : PgDb F} {r : Request F} {rs : List (Request F)} {j : Journal F}
      (hp : r.provider = .getDb) (hanswered : r.Answered db)
      (hj : r.body.Reaches r.env db (.returned (), j))
      (hall : applyAll ormSchema db j.changes = some db1) (hrest : Served db1 rs db2) :
      Served db (r :: rs) db2
  | dropped {db db2 : PgDb F} {r : Request F} {rs : List (Request F)}
      (h : r.provider = .getDbSession ∨ ¬ r.Answered db) (hrest : Served db rs db2) :
      Served db (r :: rs) db2

/-- **One request** stores all it changed, or nothing. -/
theorem Request.serve_cases {r : Request F} (hplain : r.body.Plain) (db : PgDb F) :
    (r.provider = .getDb ∧ r.Answered db ∧ ∃ j, r.body.Reaches r.env db (.returned (), j) ∧
        applyAll ormSchema db j.changes = some (r.serve db)) ∨
      ((r.provider = .getDbSession ∨ ¬ r.Answered db) ∧ r.serve db = db) := by
  cases hp : r.provider with
  | getDb =>
      have hscope : r.scope = getDb r.env r.body := by
        unfold Request.scope
        rw [hp]
      obtain ⟨hok, herr⟩ := getDb_outcome r.env db r.body
      rw [← hscope] at hok herr
      cases hres : (runScope r.scope db).1 with
      | ok a => exact Or.inl ⟨rfl, hres, hok a hres⟩
      | error e =>
          refine Or.inr ⟨Or.inr fun ha => ?_, Body.Plain.eq_of_durable hplain (herr e hres).1⟩
          unfold Request.Answered at ha
          rw [hres] at ha
          cases ha
  | getDbSession =>
      have hscope : r.scope = getDbSession r.env r.body := by
        unfold Request.scope
        rw [hp]
      obtain ⟨hok, herr⟩ := getDbSession_outcome r.env db r.body
      rw [← hscope] at hok herr
      refine Or.inr ⟨Or.inl rfl, ?_⟩
      cases hres : (runScope r.scope db).1 with
      | ok a =>
          obtain ⟨j, hj, hins⟩ := hok a hres
          rw [Body.Plain.durable hplain hj] at hins
          exact (Option.some.inj hins).symm
      | error e => exact Body.Plain.eq_of_durable hplain (herr e hres).1

/-- A request breaks no constraint. -/
theorem Request.serve_consistent {r : Request F} (hplain : r.body.Plain) {db : PgDb F}
    (hdb : Consistent ormSchema db) : Consistent ormSchema (r.serve db) := by
  rcases Request.serve_cases hplain db with ⟨-, -, j, -, hall⟩ | ⟨-, he⟩
  · exact consistent_applyAll hdb hall
  · rw [he]
    exact hdb

/-- **The database after any requests is the abstract one**: what a request handed `get_db` changed
    is there, each change once and in order, when it was answered, and nothing of any other request
    is. -/
theorem served_run (db : PgDb F) (rs : List (Request F)) (h : ∀ r ∈ rs, r.body.Plain) :
    Served db rs (run Request.serve db rs) := by
  induction rs generalizing db with
  | nil => exact .nil
  | cons r rs ih =>
      have hrest := ih (r.serve db) fun r' hr' => h r' (List.mem_cons_of_mem _ hr')
      rw [run_cons]
      rcases Request.serve_cases (h r List.mem_cons_self) db with ⟨hp, ha, j, hj, hall⟩ | ⟨hd, he⟩
      · exact .stored hp ha hj hall hrest
      · rw [he] at hrest ⊢
        exact .dropped hd hrest

/-- A request none of whose calls fails. -/
def calmRequest (p : Provider) (u : UUID) (body : Body F Unit) : Request F where
  provider := p
  env := ⟨fun _ => false, fun _ => u, fun _ => .epoch⟩
  body := body

def roleNamed (name : String) : NewObject F where
  model := .role
  attrs := [(.name, some (.text name))]
  mapped := List.forall_mem_singleton.mpr (show .name ∈ Model.role.columnNames by decide)

/-- A request that adds a role of the given name. -/
def addsRole (p : Provider) (name : String) (u : UUID) : Request F :=
  calmRequest p u (.add (roleNamed name) (.returned ()))

/-- A request that deletes the roles of the given name. -/
def deletesRole (p : Provider) (name : String) : Request F :=
  calmRequest p (.repeated 0) (.execute (.delete .roles fun r => r .name == some (.text name))
    (.returned ()))

/-- The second session is not committed; the third request repeats a name and is refused. -/
theorem served_run_roles :
    Served (fun _ => []) [addsRole .getDb "admin" (.repeated 1),
        addsRole .getDbSession "viewer" (.repeated 2), addsRole .getDb "admin" (.repeated 3),
        deletesRole .getDb "admin"]
      (run Request.serve (fun _ => [] : PgDb ℚ) [addsRole .getDb "admin" (.repeated 1),
        addsRole .getDbSession "viewer" (.repeated 2), addsRole .getDb "admin" (.repeated 3),
        deletesRole .getDb "admin"]) := by
  refine served_run _ _ fun r hr => ?_
  simp only [List.mem_cons, List.not_mem_nil, or_false] at hr
  rcases hr with rfl | rfl | rfl | rfl
  · exact .add .returned
  · exact .add .returned
  · exact .add .returned
  · exact .execute trivial .returned

/-! ## 3. What requests leave alone -/

/-- No constraint is broken. -/
theorem requests_consistent {db : PgDb F} (rs : List (Request F))
    (h : ∀ r ∈ rs, r.body.Plain) (hdb : Consistent ormSchema db) :
    Consistent ormSchema (run Request.serve db rs) :=
  run_rel (R := fun a b : PgDb F => Consistent ormSchema a → Consistent ormSchema b)
    (fun _ => id) (fun _ _ _ hab hbc => hbc ∘ hab)
    (fun _ _ hplain => Request.serve_consistent hplain) (meets_of_forall fun _ r hr => h r hr) hdb

/-- A row that the statements of one request spare. -/
theorem Request.mem_serve {r : Request F} (hplain : r.body.Plain) {t : TableName} {row : PgRow F}
    (hkeys : (ormSchema.table t).foreignKeys = []) (hspares : r.body.Executes (·.SparesRow t row))
    {db : PgDb F} (hrow : row ∈ db t) : row ∈ r.serve db t := by
  rcases Request.serve_cases hplain db with ⟨-, -, j, hj, hall⟩ | ⟨-, he⟩
  · exact mem_applyAll hkeys hrow (hspares.journal hj).2.2 hall
  · rw [he]
    exact hrow

/-- **A row that every statement spares is there after any requests.** -/
theorem requests_spare {t : TableName} {row : PgRow F}
    (hkeys : (ormSchema.table t).foreignKeys = []) {db : PgDb F} (rs : List (Request F))
    (h : ∀ r ∈ rs, r.body.Plain ∧ r.body.Executes (·.SparesRow t row)) (hrow : row ∈ db t) :
    row ∈ run Request.serve db rs t :=
  run_rel (R := fun a b : PgDb F => row ∈ a t → row ∈ b t)
    (fun _ => id) (fun _ _ _ hab hbc => hbc ∘ hab)
    (fun _ _ hr => Request.mem_serve hr.1 hkeys hr.2) (meets_of_forall fun _ r hr => h r hr) hrow

/-- Requests handed `get_db_session` change nothing. -/
theorem Served.eq_of_getDbSession {db db' : PgDb F} {rs : List (Request F)} (h : Served db rs db')
    (hp : ∀ r ∈ rs, r.provider = .getDbSession) : db' = db := by
  induction h with
  | nil => rfl
  | stored hget =>
      rw [hp _ List.mem_cons_self] at hget
      cases hget
  | dropped _ _ ih => exact ih fun r hr => hp r (List.mem_cons_of_mem _ hr)

end AutomationPlatform
