import AutomationPlatform.Library.Relational.Schema

/-!
# Statements: INSERT, UPDATE, DELETE

`exec S db st` is the state a statement commits, or `none` when it is rejected; a rejected statement
has no effect. A `DELETE` runs the referential actions the foreign keys declare:

* `doomed` is the closure of the deleted rows under `ON DELETE CASCADE`, one level of references per
  step; `removed` is that closure at a depth no chain of references exceeds;
* rows that refer to a removed row through an `ON DELETE SET NULL` key have that column nulled
  (`severed`); one that refers to it through a `RESTRICT` key rejects the statement (`blocked`);
* a row trigger fires on every row the statement touches, also through a referential action, and
  rejects it (`fires`).

What remains (`NOT NULL`, types, `CHECK`, keys, `NO ACTION` references) is checked on the state
reached. `UPDATE` checks keys at that point too, which accepts at least what a row-by-row check
does.
-/

namespace Relational

variable {T C Ty V : Type} [DecidableEq T] [DecidableEq C] [DecidableEq V]

/-- A statement. `cond` is its `WHERE`, `set` its `SET`; the row of an `INSERT` is complete, its
    defaults filled in. -/
inductive Stmt (T C V : Type) where
  | insert (t : T) (r : Row C V)
  | update (t : T) (cond : Row C V → Bool) (set : Row C V → Row C V)
  | delete (t : T) (cond : Row C V → Bool)

/-! ## 1. What a DELETE does -/

section Delete

variable (S : Schema T C Ty) (db : Db T C V) (t0 : T) (cond : Row C V → Bool)

/-- The rows deleted after `n` rounds of cascading. -/
def doomed : Nat → T → Row C V → Bool
  | 0, t, r => decide (t = t0) && cond r
  | n + 1, t, r => doomed n t r ||
      (S.table t).foreignKeys.any fun fk => fk.onDelete == .cascade &&
        (db fk.target).any fun s => references fk r s && doomed n fk.target s

def removed (t : T) (r : Row C V) : Bool := doomed S db t0 cond S.tables.length t r

/-- `r` refers through `fk` to a removed row. -/
def orphaned (fk : ForeignKey T C) (r : Row C V) : Bool :=
  (db fk.target).any fun s => references fk r s && removed S db t0 cond fk.target s

/-- The row with its `SET NULL` references to removed rows nulled. -/
def severed (t : T) (r : Row C V) : Row C V := fun c =>
  if (S.table t).foreignKeys.any fun fk =>
      decide (fk.column = c) && fk.onDelete == .setNull && orphaned S db t0 cond fk r
  then none else r c

/-- A `SET NULL` action updates the row. -/
def isSevered (t : T) (r : Row C V) : Bool :=
  (S.table t).foreignKeys.any fun fk => fk.onDelete == .setNull && orphaned S db t0 cond fk r

/-- The statement deletes or updates the row. -/
def touched (t : T) (r : Row C V) : Bool :=
  removed S db t0 cond t r || isSevered S db t0 cond t r

def blocked : Bool :=
  S.tables.any fun t => (db t).any fun r =>
    (S.table t).foreignKeys.any fun fk => fk.onDelete == .restrict && orphaned S db t0 cond fk r

def fires : Bool :=
  S.tables.any fun t => (S.table t).frozen && (db t).any (touched S db t0 cond t)

def afterDelete : Db T C V := fun t =>
  ((db t).filter fun r => !removed S db t0 cond t r).map (severed S db t0 cond t)

end Delete

/-! ## 2. Executing a statement -/

section Exec

variable [ColumnType Ty V]

/-- A state that breaks a constraint is not committed. -/
def commit (S : Schema T C Ty) (db : Db T C V) : Option (Db T C V) :=
  if Consistent S db then some db else none

/-- **The state a statement commits**, `none` when it is rejected. -/
def exec (S : Schema T C Ty) (db : Db T C V) : Stmt T C V → Option (Db T C V)
  | .insert t r =>
    if t ∈ S.tables then commit S (Function.update db t (db t ++ [r])) else none
  | .update t cond set =>
    if t ∈ S.tables ∧ ((S.table t).frozen && (db t).any cond) = false then
      commit S (Function.update db t ((db t).map fun r => if cond r then set r else r))
    else none
  | .delete t cond =>
    if t ∈ S.tables ∧ blocked S db t cond = false ∧ fires S db t cond = false then
      commit S (afterDelete S db t cond)
    else none

/-- A rejected statement leaves the state as it was. -/
def step (S : Schema T C Ty) (db : Db T C V) (st : Stmt T C V) : Db T C V :=
  (exec S db st).getD db

omit [DecidableEq T] [DecidableEq C] in
theorem commit_eq_some {S : Schema T C Ty} {db db' : Db T C V} (h : commit S db = some db') :
    db' = db ∧ Consistent S db := by
  unfold commit at h
  split at h
  · rename_i hc
    exact ⟨(Option.some.inj h).symm, hc⟩
  · cases h

/-- **What an accepted statement does**, one case per statement. -/
theorem exec_cases {S : Schema T C Ty} {db db' : Db T C V} {st : Stmt T C V}
    (h : exec S db st = some db') :
    Consistent S db' ∧
      ((∃ t r, st = .insert t r ∧ db' = Function.update db t (db t ++ [r])) ∨
      (∃ t cond set, st = .update t cond set ∧ ((S.table t).frozen && (db t).any cond) = false ∧
        db' = Function.update db t ((db t).map fun r => if cond r then set r else r)) ∨
      (∃ t cond, st = .delete t cond ∧ blocked S db t cond = false ∧ fires S db t cond = false ∧
        db' = afterDelete S db t cond)) := by
  cases st with
  | insert t r =>
    rw [exec] at h
    split at h
    · obtain ⟨rfl, hc⟩ := commit_eq_some h
      exact ⟨hc, Or.inl ⟨t, r, rfl, rfl⟩⟩
    · cases h
  | update t cond set =>
    rw [exec] at h
    split at h
    · rename_i hg
      obtain ⟨rfl, hc⟩ := commit_eq_some h
      exact ⟨hc, Or.inr (Or.inl ⟨t, cond, set, rfl, hg.2, rfl⟩)⟩
    · cases h
  | delete t cond =>
    rw [exec] at h
    split at h
    · rename_i hg
      obtain ⟨rfl, hc⟩ := commit_eq_some h
      exact ⟨hc, Or.inr (Or.inr ⟨t, cond, rfl, hg.2.1, hg.2.2, rfl⟩)⟩
    · cases h

/-- A table outside the schema stays empty. -/
theorem exec_outside {S : Schema T C Ty} {db db' : Db T C V} {st : Stmt T C V}
    (h : exec S db st = some db') {t : T} (ht : t ∉ S.tables) (hempty : db t = []) :
    db' t = [] := by
  cases st with
  | insert t' r =>
    rw [exec] at h
    split at h
    · rename_i ht'
      obtain ⟨rfl, -⟩ := commit_eq_some h
      have hne : t ≠ t' := fun e => ht (e ▸ ht')
      rwa [Function.update_of_ne hne]
    · cases h
  | update t' cond set =>
    rw [exec] at h
    split at h
    · rename_i hg
      obtain ⟨rfl, -⟩ := commit_eq_some h
      have hne : t ≠ t' := fun e => ht (e ▸ hg.1)
      rwa [Function.update_of_ne hne]
    · cases h
  | delete t' cond =>
    rw [exec] at h
    split at h
    · obtain ⟨rfl, -⟩ := commit_eq_some h
      rw [afterDelete, hempty]
      rfl
    · cases h

/-- **Every statement keeps the constraints.** -/
theorem step_consistent {S : Schema T C Ty} (db : Db T C V) (st : Stmt T C V)
    (h : Consistent S db) : Consistent S (step S db st) := by
  unfold step
  cases hst : exec S db st with
  | none => exact h
  | some db' => exact (exec_cases hst).1

end Exec

end Relational
