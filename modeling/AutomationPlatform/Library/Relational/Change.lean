import AutomationPlatform.Library.Relational.Delete
import AutomationPlatform.Library.Relational.Rows

/-!
# Rows and statements, one after another

A transaction inserts single rows (`insertRow`) and executes statements (`exec`). `applyAll` is the
state after a list of such changes, or `none` when one of them is refused.

* `applyAll_append`, `applyAll_rows`: how lists of changes compose;
* **`consistent_applyAll`**: what a list of changes leaves meets every constraint;
* **`mem_applyAll`**: a row of a table without foreign keys stays where every statement spares it.
-/

namespace Relational

variable {T C Ty V : Type} [DecidableEq T] [DecidableEq C] [DecidableEq V] [ColumnType Ty V]

inductive Change (T C V : Type) where
  | row (t : T) (r : Row C V)
  | stmt (st : Stmt T C V)

def applyChange (S : Schema T C Ty) (db : Db T C V) : Change T C V → Option (Db T C V)
  | .row t r => insertRow S db t r
  | .stmt st => exec S db st

/-- The state after the changes, `none` when one of them is refused. -/
def applyAll (S : Schema T C Ty) : Db T C V → List (Change T C V) → Option (Db T C V)
  | db, [] => some db
  | db, c :: cs => (applyChange S db c).bind fun db' => applyAll S db' cs

variable {S : Schema T C Ty} {db db' : Db T C V} {cs : List (Change T C V)}

theorem applyAll_append {cs' : List (Change T C V)} : applyAll S db (cs ++ cs') =
    (applyAll S db cs).bind fun db' => applyAll S db' cs' := by
  induction cs generalizing db with
  | nil => rfl
  | cons c cs ih =>
      show (applyChange S db c).bind _ = ((applyChange S db c).bind _).bind _
      rw [Option.bind_assoc]
      exact congrArg _ (funext fun db' => ih)

theorem applyAll_singleton {c : Change T C V} : applyAll S db [c] = applyChange S db c :=
  Option.bind_fun_some _

/-- The rows alone. -/
theorem applyAll_rows (rows : List (T × Row C V)) :
    applyAll S db (rows.map fun p => .row p.1 p.2) = insertAll S db rows := by
  induction rows generalizing db with
  | nil => rfl
  | cons p rows ih => exact congrArg _ (funext fun db' => ih)

/-- **The rule for what a change keeps.** -/
theorem applyAll_invariant {I : Db T C V → Prop} (hdb : I db) (h : applyAll S db cs = some db')
    (hstep : ∀ db db' c, c ∈ cs → I db → applyChange S db c = some db' → I db') : I db' := by
  induction cs generalizing db with
  | nil => exact Option.some.inj h ▸ hdb
  | cons c cs ih =>
      obtain ⟨db1, h1, h2⟩ := Option.bind_eq_some_iff.mp h
      exact ih (hstep db db1 c List.mem_cons_self hdb h1) h2 fun db db' c' hc' =>
        hstep db db' c' (List.mem_cons_of_mem c hc')

theorem consistent_applyChange {c : Change T C V} (hdb : Consistent S db)
    (h : applyChange S db c = some db') : Consistent S db' := by
  cases c with
  | row t r => exact (exec_cases (exec_of_insertRow hdb h)).1
  | stmt st => exact (exec_cases h).1

/-- **Every constraint of a consistent state is kept.** -/
theorem consistent_applyAll (hdb : Consistent S db) (h : applyAll S db cs = some db') :
    Consistent S db' :=
  applyAll_invariant hdb h fun _ _ _ _ => consistent_applyChange

/-! ## A row that is spared -/

/-- The statement neither changes nor names the row `r` of `t`. -/
def Stmt.SparesRow (t : T) (r : Row C V) : Stmt T C V → Prop
  | .insert _ _ => True
  | .update t' cond set => t' = t → cond r = true → set r = r
  | .delete t' cond => t' = t → cond r = false

omit [DecidableEq C] [ColumnType Ty V] in
/-- No cascade reaches a table without foreign keys. -/
theorem doomed_of_no_keys {t t0 : T} (hkeys : (S.table t).foreignKeys = []) (cond : Row C V → Bool)
    (n : Nat) (r : Row C V) : doomed S db t0 cond n t r = (decide (t = t0) && cond r) := by
  induction n with
  | zero => rfl
  | succ n ih => rw [doomed, ih, hkeys, List.any_nil, Bool.or_false]

theorem mem_exec {t : T} {r : Row C V} (hkeys : (S.table t).foreignKeys = []) {st : Stmt T C V}
    (hr : r ∈ db t) (hspares : st.SparesRow t r) (h : exec S db st = some db') : r ∈ db' t := by
  obtain ⟨-, ⟨t', r', rfl, rfl⟩ | ⟨t', cond, set, rfl, -, rfl⟩ | ⟨t', cond, rfl, -, -, rfl⟩⟩ :=
    exec_cases h
  · exact (isPrefix_update _ _ _).subset hr
  · by_cases ht : t = t'
    · subst ht
      rw [Function.update_self, List.mem_map]
      refine ⟨r, hr, ?_⟩
      by_cases hc : cond r = true
      · rw [if_pos hc]
        exact hspares rfl hc
      · rw [if_neg hc]
    · rwa [Function.update_of_ne ht]
  · refine mem_afterDelete.mpr ⟨r, hr, ?_, severed_eq_self ?_⟩
    · unfold removed
      rw [doomed_of_no_keys hkeys, Bool.and_eq_false_iff, decide_eq_false_iff_not]
      exact (em (t = t')).symm.imp id fun ht => hspares ht.symm
    · unfold isSevered
      rw [hkeys, List.any_nil]

/-- **A row that every statement spares is still there.** -/
theorem mem_applyAll {t : T} {r : Row C V} (hkeys : (S.table t).foreignKeys = []) (hr : r ∈ db t)
    (hspares : ∀ st, .stmt st ∈ cs → st.SparesRow t r) (h : applyAll S db cs = some db') :
    r ∈ db' t := by
  refine applyAll_invariant (I := fun db : Db T C V => r ∈ db t) hr h fun db db' c hc hr hcs => ?_
  cases c with
  | row t' r' =>
      obtain ⟨-, rfl⟩ := insertRow_eq_some_iff.mp hcs
      exact (isPrefix_update _ _ _).subset hr
  | stmt st => exact mem_exec hkeys hr (hspares st hc) hcs

end Relational
