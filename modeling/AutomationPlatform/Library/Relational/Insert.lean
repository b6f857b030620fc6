import AutomationPlatform.Library.Relational.Statement

/-!
# INSERTs that name some of the columns

`insertNamed` is `INSERT INTO t (c1, ..., cn) VALUES (...)`: a column that is not named takes its
default, or `NULL`. The values the defaults draw (`now()`, `gen_random_uuid()`) are given as a
function of the column.

* **`insertNamed_accepted`**: it is accepted when the columns exist, the completed row is one the
  table admits, its keys are free and its references present;
* `insertNamed_of_missing`, `insertNamed_of_inadmissible`: what rejects it in every state.
-/

namespace Relational

variable {T C Ty V : Type} [DecidableEq C]

/-- The columns a statement names, with the values it gives them. -/
abbrev Named (C V : Type) := List (C × Option V)

/-- The row an INSERT completes: named columns as given, the others at their default or `NULL`. -/
def Table.complete (t : Table T C Ty) (drawn : C → V) (named : Named C V) : Row C V := fun c =>
  match named.lookup c with
  | some v => v
  | none => if t.columns.any fun col => decide (col.name = c) && col.hasDefault
      then some (drawn c) else none

/-- Every named column is a column of the table. -/
def Table.hasColumns (t : Table T C Ty) (named : Named C V) : Bool :=
  named.all fun p => t.columns.any fun col => decide (col.name = p.1)

section

variable [DecidableEq T] [DecidableEq V] [ColumnType Ty V]

def insertNamed (S : Schema T C Ty) (db : Db T C V) (t : T) (drawn : C → V) (named : Named C V) :
    Option (Db T C V) :=
  if (S.table t).hasColumns named = true then
    exec S db (.insert t ((S.table t).complete drawn named))
  else none

variable {S : Schema T C Ty} {db : Db T C V} {t : T}

omit [DecidableEq C] in
/-- **Appending a row keeps the constraints** when the table admits it, its keys are free and its
    references are present. -/
theorem consistent_append (hdb : Consistent S db) {r : Row C V}
    (hadm : (S.table t).admitsRow r = true)
    (hfree : ∀ cols ∈ (S.table t).keys, ∀ s ∈ db t, agreeOn cols s r = false)
    (hrefs : ∀ fk ∈ (S.table t).foreignKeys, refersWithin db fk r = true) :
    Consistent S (Function.update db t (db t ++ [r])) := by
  have hgrow : ∀ t', db t' ⊆ Function.update db t (db t ++ [r]) t' := by
    intro t'
    by_cases ht : t' = t
    · subst ht
      rw [Function.update_self]
      exact List.subset_append_left _ _
    · rw [Function.update_of_ne ht]
      exact List.Subset.refl _
  have hrow : ∀ t' s, s ∈ Function.update db t (db t ++ [r]) t' → s ∈ db t' ∨ t' = t ∧ s = r := by
    intro t' s hs
    by_cases ht : t' = t
    · subst ht
      rw [Function.update_self, List.mem_append, List.mem_singleton] at hs
      exact hs.imp_right fun h => ⟨rfl, h⟩
    · rw [Function.update_of_ne ht] at hs
      exact Or.inl hs
  refine ⟨fun t' ht' s hs => ?_, fun t' ht' cols hcols => ?_, fun t' ht' fk hfk s hs => ?_⟩
  · rcases hrow t' s hs with h | ⟨rfl, rfl⟩
    · exact hdb.rows t' ht' s h
    · exact hadm
  · by_cases ht : t' = t
    · subst ht
      rw [Function.update_self]
      refine List.pairwise_append.mpr
        ⟨hdb.keys t' ht' cols hcols, List.pairwise_singleton _ _, fun s hs s' hs' => ?_⟩
      rw [List.mem_singleton.mp hs']
      exact hfree cols hcols s hs
    · rw [Function.update_of_ne ht]
      exact hdb.keys t' ht' cols hcols
  · rcases hrow t' s hs with h | ⟨rfl, rfl⟩
    · exact refersWithin_mono hgrow (hdb.refs t' ht' fk hfk s h)
    · exact refersWithin_mono hgrow (hrefs fk hfk)

/-- **When an INSERT is accepted.** -/
theorem insertNamed_accepted (hdb : Consistent S db) (ht : t ∈ S.tables) {drawn : C → V}
    {named : Named C V} (hcols : (S.table t).hasColumns named = true)
    (hadm : (S.table t).admitsRow ((S.table t).complete drawn named) = true)
    (hfree : ∀ cols ∈ (S.table t).keys, ∀ s ∈ db t,
      agreeOn cols s ((S.table t).complete drawn named) = false)
    (hrefs : ∀ fk ∈ (S.table t).foreignKeys,
      refersWithin db fk ((S.table t).complete drawn named) = true) :
    insertNamed S db t drawn named =
      some (Function.update db t (db t ++ [(S.table t).complete drawn named])) := by
  rw [insertNamed, if_pos hcols, exec, if_pos ht, commit,
    if_pos (consistent_append hdb hadm hfree hrefs)]

/-- A column the table does not have rejects the INSERT. -/
theorem insertNamed_of_missing {drawn : C → V} {named : Named C V}
    (h : (S.table t).hasColumns named = false) : insertNamed S db t drawn named = none := by
  rw [insertNamed, if_neg (by rw [h]; simp)]

/-- A value its column does not admit rejects the INSERT. -/
theorem insertNamed_of_inadmissible {drawn : C → V} {named : Named C V} {c : Column C Ty}
    (hc : c ∈ (S.table t).columns)
    (h : c.admits ((S.table t).complete drawn named c.name) = false) :
    insertNamed S db t drawn named = none := by
  unfold insertNamed
  split
  · cases hx : exec S db (.insert t ((S.table t).complete drawn named)) with
    | none => rfl
    | some db' =>
        have hcons : Consistent S db' := (exec_cases hx).1
        rw [exec] at hx
        split at hx
        · rename_i ht
          obtain ⟨rfl, -⟩ := commit_eq_some hx
          have hadm := hcons.rows t ht ((S.table t).complete drawn named) (by simp)
          rw [List.all_eq_true.mp hadm c hc] at h
          cases h
        · cases hx
  · rfl

end

end Relational
