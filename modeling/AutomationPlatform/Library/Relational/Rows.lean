import AutomationPlatform.Library.Relational.Insert
import AutomationPlatform.Library.Runs

/-!
# Inserting rows one by one

`insertRow` checks what an INSERT of one row can break: the columns of the row, its keys against the
stored rows, its references. Rows already there are not looked at again, so it also says what
happens in a state that breaks a constraint elsewhere; in a consistent state it is accepted only
where the statement is (`exec_of_insertRow`). `insertAll` is a list of them, in order, and in a
consistent state a run of INSERTs (**`run_of_insertAll`**).
-/

namespace Relational

open Runs

variable {T C Ty V : Type} [DecidableEq T] [DecidableEq V] [ColumnType Ty V]

/-- The row breaks no constraint of its table. -/
def accepts (S : Schema T C Ty) (db : Db T C V) (t : T) (r : Row C V) : Bool :=
  (S.table t).admitsRow r && ((S.table t).keys.all fun cols => (db t).all fun s =>
    !agreeOn cols s r) && (S.table t).foreignKeys.all fun fk => refersWithin db fk r

def insertRow (S : Schema T C Ty) (db : Db T C V) (t : T) (r : Row C V) : Option (Db T C V) :=
  if t ∈ S.tables ∧ accepts S db t r = true then some (Function.update db t (db t ++ [r])) else none

/-- The state after the rows, `none` when one of them is rejected. -/
def insertAll (S : Schema T C Ty) : Db T C V → List (T × Row C V) → Option (Db T C V)
  | db, [] => some db
  | db, p :: rows => (insertRow S db p.1 p.2).bind fun db' => insertAll S db' rows

variable {S : Schema T C Ty} {db db' : Db T C V} {t : T} {r : Row C V} {rows : List (T × Row C V)}

omit [DecidableEq T] in
theorem accepts_iff : accepts S db t r = true ↔ (S.table t).admitsRow r = true ∧
    (∀ cols ∈ (S.table t).keys, ∀ s ∈ db t, agreeOn cols s r = false) ∧
      ∀ fk ∈ (S.table t).foreignKeys, refersWithin db fk r = true := by
  simp only [accepts, Bool.and_eq_true, List.all_eq_true, Bool.not_eq_true', and_assoc]

theorem insertRow_eq_some_iff : insertRow S db t r = some db' ↔
    (t ∈ S.tables ∧ accepts S db t r = true) ∧ db' = Function.update db t (db t ++ [r]) := by
  unfold insertRow
  split
  · rename_i h
    rw [Option.some.injEq, eq_comm]
    exact ⟨fun e => ⟨h, e⟩, fun e => e.2⟩
  · rename_i h
    exact ⟨fun e => (by cases e), fun e => absurd e.1 h⟩

/-- A row accepted in a consistent state is accepted as a statement. -/
theorem exec_of_insertRow [DecidableEq C] (hdb : Consistent S db)
    (h : insertRow S db t r = some db') : exec S db (.insert t r) = some db' := by
  obtain ⟨⟨ht, hacc⟩, rfl⟩ := insertRow_eq_some_iff.mp h
  obtain ⟨hadm, hfree, hrefs⟩ := accepts_iff.mp hacc
  rw [exec, if_pos ht, commit, if_pos (consistent_append hdb hadm hfree hrefs)]

/-- **As a statement a row is accepted exactly when it is accepted by itself**, in a table that does
    not refer to itself. -/
theorem exec_insert_eq [DecidableEq C] (hdb : Consistent S db)
    (hself : ∀ fk ∈ (S.table t).foreignKeys, fk.target ≠ t) :
    exec S db (.insert t r) = insertRow S db t r := by
  cases hrow : insertRow S db t r with
  | some db' => exact exec_of_insertRow hdb hrow
  | none =>
      cases hexec : exec S db (.insert t r) with
      | none => rfl
      | some db' =>
          rw [exec] at hexec
          split at hexec
          · rename_i ht
            obtain ⟨rfl, hcons⟩ := commit_eq_some hexec
            have hnew : r ∈ Function.update db t (db t ++ [r]) t := by simp
            have hacc : accepts S db t r = true := by
              refine accepts_iff.mpr ⟨hcons.rows t ht r hnew, fun cols hcols s hs => ?_,
                fun fk hfk => ?_⟩
              · have hkeys := hcons.keys t ht cols hcols
                rw [Function.update_self] at hkeys
                exact (List.pairwise_append.mp hkeys).2.2 s hs r (List.mem_singleton_self r)
              · have href := hcons.refs t ht fk hfk r hnew
                rw [refersWithin_iff] at href ⊢
                rwa [Function.update_of_ne (hself fk hfk)] at href
            rw [insertRow, if_pos ⟨ht, hacc⟩] at hrow
            cases hrow
          · cases hexec

/-- The keys of the table stay distinct. -/
theorem keyOk_of_insertRow {cols : List C} (hcols : cols ∈ (S.table t).keys)
    (hkey : KeyOk cols (db t)) (h : insertRow S db t r = some db') : KeyOk cols (db' t) := by
  obtain ⟨⟨-, hacc⟩, rfl⟩ := insertRow_eq_some_iff.mp h
  rw [Function.update_self]
  refine List.pairwise_append.mpr ⟨hkey, List.pairwise_singleton _ _, fun s hs s' hs' => ?_⟩
  rw [List.mem_singleton.mp hs']
  exact (accepts_iff.mp hacc).2.1 cols hcols s hs

/-! ## Several rows -/

theorem insertAll_append {rows' : List (T × Row C V)} : insertAll S db (rows ++ rows') =
    (insertAll S db rows).bind fun db' => insertAll S db' rows' := by
  induction rows generalizing db with
  | nil => rfl
  | cons p rows ih =>
      show (insertRow S db p.1 p.2).bind _ = ((insertRow S db p.1 p.2).bind _).bind _
      rw [Option.bind_assoc]
      exact congrArg _ (funext fun db' => ih)

theorem insertAll_singleton : insertAll S db [(t, r)] = insertRow S db t r :=
  Option.bind_fun_some _

/-- **The rule for what an accepted row keeps.** -/
theorem insertAll_invariant {I : Db T C V → Prop}
    (hstep : ∀ db db' t r, I db → insertRow S db t r = some db' → I db') (hdb : I db)
    (h : insertAll S db rows = some db') : I db' := by
  induction rows generalizing db with
  | nil => exact Option.some.inj h ▸ hdb
  | cons p rows ih =>
      obtain ⟨db1, h1, h2⟩ := Option.bind_eq_some_iff.mp h
      exact ih (hstep db db1 p.1 p.2 hdb h1) h2

section Statements

variable [DecidableEq C]

/-- **In a consistent state the rows are a run of INSERTs.** -/
theorem run_of_insertAll (hdb : Consistent S db) (h : insertAll S db rows = some db') :
    run (step S) db (rows.map fun p => .insert p.1 p.2) = db' := by
  induction rows generalizing db with
  | nil => exact Option.some.inj h
  | cons p rows ih =>
      obtain ⟨db1, h1, h2⟩ := Option.bind_eq_some_iff.mp h
      have hexec := exec_of_insertRow hdb h1
      rw [List.map_cons, run_cons, step, hexec, Option.getD_some]
      exact ih (exec_cases hexec).1 h2

/-- Every constraint of a consistent state is kept. -/
theorem consistent_insertAll (hdb : Consistent S db) (h : insertAll S db rows = some db') :
    Consistent S db' := by
  rw [← run_of_insertAll hdb h]
  exact run_invariant (fun db st => step_consistent db st) hdb _

end Statements

/-- What is stored then was stored before or is one of the rows. -/
theorem mem_insertAll (h : insertAll S db rows = some db') (s : Row C V) :
    s ∈ db' t ↔ s ∈ db t ∨ (t, s) ∈ rows := by
  induction rows generalizing db with
  | nil =>
      rw [← Option.some.inj h]
      simp
  | cons p rows ih =>
      obtain ⟨db1, h1, h2⟩ := Option.bind_eq_some_iff.mp h
      obtain ⟨-, rfl⟩ := insertRow_eq_some_iff.mp h1
      rw [ih h2]
      by_cases ht : t = p.1
      · subst ht
        rw [Function.update_self, List.mem_append, List.mem_singleton, List.mem_cons, or_assoc]
        simp [Prod.ext_iff]
      · rw [Function.update_of_ne ht, List.mem_cons]
        simp [Prod.ext_iff, ht]

omit [DecidableEq V] [ColumnType Ty V] in
theorem isPrefix_update (db : Db T C V) (r : Row C V) (t' : T) :
    db t' <+: Function.update db t (db t ++ [r]) t' := by
  by_cases ht : t' = t
  · subst ht
    rw [Function.update_self]
    exact List.prefix_append _ _
  · simp [Function.update_of_ne ht]

omit [DecidableEq V] [ColumnType Ty V] in
theorem mem_update (db : Db T C V) (r : Row C V) :
    r ∈ Function.update db t (db t ++ [r]) t := by
  rw [Function.update_self]
  exact List.mem_append_right _ (List.mem_singleton_self _)

/-- Rows are appended, none is changed. -/
theorem isPrefix_insertAll (h : insertAll S db rows = some db') (t : T) : db t <+: db' t := by
  refine insertAll_invariant (I := fun db' => db t <+: db' t) (fun db1 db2 t' r hdb h => ?_)
    (List.prefix_refl _) h
  obtain ⟨-, rfl⟩ := insertRow_eq_some_iff.mp h
  exact hdb.trans (isPrefix_update _ _ _)

/-! ## Rows in another order -/

/-- What the rows refer to is stored already. -/
def Settled (S : Schema T C Ty) (db : Db T C V) (rows : List (T × Row C V)) : Prop :=
  ∀ p ∈ rows, ∀ fk ∈ (S.table p.1).foreignKeys, refersWithin db fk p.2 = true

/-- The rows of one table, in order. -/
def rowsOf (t : T) (rows : List (T × Row C V)) : List (T × Row C V) :=
  rows.filter fun p => decide (p.1 = t)

omit [DecidableEq V] [ColumnType Ty V] in
theorem mem_rowsOf {p : T × Row C V} : p ∈ rowsOf t rows ↔ p ∈ rows ∧ p.1 = t := by
  rw [rowsOf, List.mem_filter, decide_eq_true_eq]

/-- A row of another table is no obstacle to a row whose references are stored. -/
theorem accepts_update {u : T} {s : Row C V} (hne : t ≠ u)
    (hs : ∀ fk ∈ (S.table u).foreignKeys, refersWithin db fk s = true) :
    accepts S (Function.update db t (db t ++ [r])) u s = accepts S db u s := by
  have hgrow : ∀ t', db t' ⊆ Function.update db t (db t ++ [r]) t' :=
    fun t' => (isPrefix_update db r t').subset
  rw [Bool.eq_iff_iff, accepts_iff, accepts_iff, Function.update_of_ne hne.symm]
  exact and_congr_right fun _ => and_congr_right fun _ =>
    iff_of_true (fun fk hfk => refersWithin_mono hgrow (hs fk hfk)) hs

/-- **Rows of different tables may be exchanged** when what they refer to is stored. -/
theorem insertRow_comm {u : T} {s : Row C V} (hne : t ≠ u)
    (hr : ∀ fk ∈ (S.table t).foreignKeys, refersWithin db fk r = true)
    (hs : ∀ fk ∈ (S.table u).foreignKeys, refersWithin db fk s = true) :
    (insertRow S db t r).bind (fun db' => insertRow S db' u s) =
      (insertRow S db u s).bind fun db' => insertRow S db' t r := by
  have hafter : ∀ {t u : T} {r s : Row C V}, t ≠ u →
      (∀ fk ∈ (S.table u).foreignKeys, refersWithin db fk s = true) →
      (insertRow S db t r).bind (fun db' => insertRow S db' u s) =
        if (t ∈ S.tables ∧ accepts S db t r = true) ∧ u ∈ S.tables ∧ accepts S db u s = true
        then some (Function.update (Function.update db t (db t ++ [r])) u (db u ++ [s]))
        else none := by
    intro t u r s hne hs
    by_cases ht : t ∈ S.tables ∧ accepts S db t r = true
    · rw [insertRow, if_pos ht, Option.bind_some, insertRow, accepts_update hne hs,
        Function.update_of_ne hne.symm]
      exact if_congr (by rw [and_iff_right ht]) rfl rfl
    · rw [insertRow, if_neg ht, Option.bind_none, if_neg fun h => ht h.1]
  rw [hafter hne hs, hafter hne.symm hr, Function.update_comm hne]
  exact if_congr and_comm rfl rfl

omit [DecidableEq T] [ColumnType Ty V] in
theorem Settled.mono (h : Settled S db rows) (hgrow : ∀ t, db t <+: db' t) :
    Settled S db' rows :=
  fun p hp fk hfk => refersWithin_mono (fun t => (hgrow t).subset) (h p hp fk hfk)

/-- A row may be moved before rows of other tables. -/
theorem insertAll_move {pre post : List (T × Row C V)} {p : T × Row C V}
    (h : Settled S db (p :: pre)) (hpre : ∀ q ∈ pre, q.1 ≠ p.1) :
    insertAll S db (pre ++ p :: post) = insertAll S db (p :: (pre ++ post)) := by
  induction pre generalizing db with
  | nil => rfl
  | cons q pre ih =>
      have hmoved : insertAll S db (q :: pre ++ p :: post) =
          (insertRow S db q.1 q.2).bind fun db1 =>
            (insertRow S db1 p.1 p.2).bind fun db2 => insertAll S db2 (pre ++ post) := by
        show (insertRow S db q.1 q.2).bind _ = _
        cases hq : insertRow S db q.1 q.2 with
        | none => rfl
        | some db1 =>
            obtain ⟨-, rfl⟩ := insertRow_eq_some_iff.mp hq
            refine ih (Settled.mono (fun p' hp' => h p' ?_) (isPrefix_update db q.2)) fun q' hq' =>
              hpre q' (List.mem_cons_of_mem q hq')
            rcases List.mem_cons.mp hp' with rfl | hp'
            · exact List.mem_cons_self
            · exact List.mem_cons_of_mem _ (List.mem_cons_of_mem _ hp')
      rw [hmoved, ← Option.bind_assoc, insertRow_comm (hpre q List.mem_cons_self)
        (h q (List.mem_cons_of_mem p List.mem_cons_self)) (h p List.mem_cons_self),
        Option.bind_assoc]
      rfl

/-- **Only the order within each table matters** for rows whose references are stored. -/
theorem insertAll_congr {rows' : List (T × Row C V)} (h : Settled S db rows)
    (hsame : ∀ t, rowsOf t rows = rowsOf t rows') : insertAll S db rows = insertAll S db rows' := by
  induction rows generalizing db rows' with
  | nil =>
      cases rows' with
      | nil => rfl
      | cons p rows' =>
          have hp : p ∈ rowsOf p.1 (p :: rows') := mem_rowsOf.mpr ⟨List.mem_cons_self, rfl⟩
          rw [← hsame p.1] at hp
          cases hp
  | cons p rows ih =>
      -- `p` is the first of its table in the other list too
      have hfirst : rowsOf p.1 rows' = p :: rowsOf p.1 rows := by
        rw [← hsame, rowsOf, List.filter_cons, if_pos (decide_eq_true rfl)]
        rfl
      obtain ⟨pre, post, rfl, hpre, -, hpost⟩ := List.filter_eq_cons_iff.mp hfirst
      have hne : ∀ q ∈ pre, q.1 ≠ p.1 := fun q hq e => hpre q hq (decide_eq_true e)
      have hrest : ∀ t, rowsOf t rows = rowsOf t (pre ++ post) := by
        intro t
        have ht := hsame t
        by_cases hpt : p.1 = t
        · subst hpt
          rw [rowsOf, rowsOf, List.filter_append, List.filter_eq_nil_iff.mpr hpre, List.nil_append]
          exact hpost.symm
        · unfold rowsOf at ht ⊢
          rw [List.filter_cons, if_neg (by simpa using hpt), List.filter_append, List.filter_cons,
            if_neg (by simpa using hpt)] at ht
          rw [ht, List.filter_append]
      have hpre_settled : Settled S db (p :: pre) := fun q hq => by
        rcases List.mem_cons.mp hq with rfl | hq
        · exact h q List.mem_cons_self
        · have hmem : q ∈ rowsOf q.1 (p :: rows) := by
            rw [hsame]
            exact mem_rowsOf.mpr ⟨List.mem_append_left _ hq, rfl⟩
          exact h q (mem_rowsOf.mp hmem).1
      rw [insertAll_move hpre_settled hne]
      show (insertRow S db p.1 p.2).bind _ = (insertRow S db p.1 p.2).bind _
      cases hrow : insertRow S db p.1 p.2 with
      | none => rfl
      | some db1 =>
          obtain ⟨-, rfl⟩ := insertRow_eq_some_iff.mp hrow
          exact ih (Settled.mono (fun q hq => h q (List.mem_cons_of_mem p hq))
            (isPrefix_update db p.2)) hrest

omit [DecidableEq V] in
/-- Table by table, in any order of the tables, the rows of each are in their own order. -/
theorem rowsOf_flatMap {order : List T} (hnodup : order.Nodup) (ht : t ∈ order) :
    rowsOf t (order.flatMap fun u => rowsOf u rows) = rowsOf t rows := by
  have hself : rowsOf t (rowsOf t rows) = rowsOf t rows :=
    List.filter_eq_self.mpr fun p hp => decide_eq_true (mem_rowsOf.mp hp).2
  have hother : ∀ {rest : List (T × Row C V)}, (∀ p ∈ rest, p.1 ≠ t) → rowsOf t rest = [] :=
    fun h => List.filter_eq_nil_iff.mpr fun p hp e => h p hp (of_decide_eq_true e)
  induction order with
  | nil => cases ht
  | cons u order ih =>
      obtain ⟨hu, hrest⟩ := List.nodup_cons.mp hnodup
      have hsplit : rowsOf t ((u :: order).flatMap fun u => rowsOf u rows) =
          rowsOf t (rowsOf u rows) ++ rowsOf t (order.flatMap fun u => rowsOf u rows) := by
        rw [List.flatMap_cons, rowsOf, List.filter_append]
        rfl
      rw [hsplit]
      by_cases hut : u = t
      · subst hut
        have hnone : rowsOf u (order.flatMap fun u => rowsOf u rows) = [] := hother fun p hp e => by
          obtain ⟨u', hu', hp⟩ := List.mem_flatMap.mp hp
          rw [← e, (mem_rowsOf.mp hp).2] at hu
          exact hu hu'
        rw [hself, hnone, List.append_nil]
      · have hnone : rowsOf t (rowsOf u rows) = [] :=
          hother fun p hp e => hut ((mem_rowsOf.mp hp).2.symm.trans e)
        rw [hnone, List.nil_append]
        exact ih hrest ((List.mem_cons.mp ht).resolve_left fun e => hut e.symm)

end Relational
