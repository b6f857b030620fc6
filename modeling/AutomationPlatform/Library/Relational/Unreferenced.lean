import AutomationPlatform.Library.Relational.Delete
import AutomationPlatform.Library.Relational.Insert

/-!
# A table that no other table needs

A table nothing refers to, that no trigger guards and whose own keys do not restrict a DELETE, can
hold any rows without the other tables noticing: on two states that differ in that table only, a
statement is accepted alike and leaves two states that differ there only (`step_sameOff`). The one
thing its rows can refuse is an UPDATE of the keys they refer to.
-/

namespace Relational

variable {T C Ty V : Type}

/-- Nothing refers to `t1`, and a row of it stands in no DELETE's way. -/
structure Schema.Unneeded (S : Schema T C Ty) (t1 : T) : Prop where
  unreferenced : ∀ t, ∀ fk ∈ (S.table t).foreignKeys, fk.target ≠ t1
  yields : ∀ fk ∈ (S.table t1).foreignKeys, fk.onDelete ≠ .restrict
  unguarded : (S.table t1).frozen = false

/-- The states differ in `t1` at most. -/
def SameOff (t1 : T) (db db' : Db T C V) : Prop := ∀ t, t ≠ t1 → db t = db' t

/-- An UPDATE leaves the keys that `t1` refers to as they are. -/
def KeepsKeys (S : Schema T C Ty) (t1 : T) (db : Db T C V) : Stmt T C V → Prop
  | .update t cond set => ∀ fk ∈ (S.table t1).foreignKeys, fk.target = t →
      ∀ r ∈ db t, cond r = true → set r fk.key = r fk.key
  | _ => True

variable {S : Schema T C Ty} {t1 : T} {db db' : Db T C V}

theorem SameOff.symm (h : SameOff t1 db db') : SameOff t1 db' db := fun t ht => (h t ht).symm

theorem SameOff.update [DecidableEq T] (h : SameOff t1 db db') (t : T)
    (f : List (Row C V) → List (Row C V)) :
    SameOff t1 (Function.update db t (f (db t))) (Function.update db' t (f (db' t))) := by
  intro t' ht'
  by_cases ht : t' = t
  · subst ht
    rw [Function.update_self, Function.update_self, h t' ht']
  · rw [Function.update_of_ne ht, Function.update_of_ne ht, h t' ht']

/-! ## 1. The constraints, table by table -/

section Constraints

variable [DecidableEq V] [ColumnType Ty V]

/-- The constraints of one table. -/
structure ConsistentAt (S : Schema T C Ty) (db : Db T C V) (t : T) : Prop where
  rows : ∀ r ∈ db t, (S.table t).admitsRow r = true
  keys : ∀ cols ∈ (S.table t).keys, KeyOk cols (db t)
  refs : ∀ fk ∈ (S.table t).foreignKeys, ∀ r ∈ db t, refersWithin db fk r = true

theorem consistent_iff_forall : Consistent S db ↔ ∀ t ∈ S.tables, ConsistentAt S db t :=
  ⟨fun h t ht => ⟨h.rows t ht, h.keys t ht, h.refs t ht⟩,
    fun h => ⟨fun t ht => (h t ht).rows, fun t ht => (h t ht).keys, fun t ht => (h t ht).refs⟩⟩

/-- The constraints of another table do not look at `t1`. -/
theorem ConsistentAt.sameOff (hS : S.Unneeded t1) (h : SameOff t1 db db') {t : T} (ht : t ≠ t1)
    (hc : ConsistentAt S db t) : ConsistentAt S db' t where
  rows := h t ht ▸ hc.rows
  keys := h t ht ▸ hc.keys
  refs fk hfk r hr := by
    have href := hc.refs fk hfk r (h t ht ▸ hr)
    rw [refersWithin_iff] at href ⊢
    rwa [← h _ (hS.unreferenced t fk hfk)]

/-- Where the constraints of `t1` hold on both states, the others decide alike. -/
theorem consistent_iff_sameOff (hS : S.Unneeded t1) (h : SameOff t1 db db')
    (h1 : t1 ∈ S.tables → ConsistentAt S db t1 ∧ ConsistentAt S db' t1) :
    Consistent S db ↔ Consistent S db' := by
  rw [consistent_iff_forall, consistent_iff_forall]
  refine forall₂_congr fun t ht => ?_
  by_cases ht1 : t = t1
  · subst ht1
    exact ⟨fun _ => (h1 ht).2, fun _ => (h1 ht).1⟩
  · exact ⟨.sameOff hS h ht1, .sameOff hS h.symm ht1⟩

variable [DecidableEq T]

/-- Rows of another table may change as long as `t1` finds the keys it refers to. -/
theorem ConsistentAt.of_keysFound (hdb : ConsistentAt S db t1) {t : T} (ht : t ≠ t1)
    {rows : List (Row C V)} (hfound : ∀ fk ∈ (S.table t1).foreignKeys, fk.target = t →
      ∀ s ∈ db t, ∃ s' ∈ rows, s' fk.key = s fk.key) :
    ConsistentAt S (Function.update db t rows) t1 where
  rows := by
    rw [Function.update_of_ne ht.symm]
    exact hdb.rows
  keys := by
    rw [Function.update_of_ne ht.symm]
    exact hdb.keys
  refs fk hfk r hr := by
    rw [Function.update_of_ne ht.symm] at hr
    have href := hdb.refs fk hfk r hr
    rw [refersWithin_iff] at href ⊢
    refine href.imp_right fun ⟨s, hs, hrs⟩ => ?_
    by_cases htgt : fk.target = t
    · rw [htgt] at hs ⊢
      obtain ⟨s', hs', hkey⟩ := hfound fk hfk htgt s hs
      rw [Function.update_self]
      exact ⟨s', hs', references_iff.mpr (hkey ▸ references_iff.mp hrs)⟩
    · rw [Function.update_of_ne htgt]
      exact ⟨s, hs, hrs⟩

end Constraints

/-! ## 2. A DELETE -/

section Delete

variable [DecidableEq T] [DecidableEq C] [DecidableEq V] {t0 : T} {cond : Row C V → Bool}

omit [DecidableEq C] in
/-- A chain of references never enters `t1`. -/
theorem doomed_sameOff (hS : S.Unneeded t1) (h : SameOff t1 db db') (n : Nat) (t : T)
    (r : Row C V) : doomed S db t0 cond n t r = doomed S db' t0 cond n t r := by
  induction n generalizing t r with
  | zero => rfl
  | succ n ih =>
      rw [doomed, doomed, ih]
      congr 1
      rw [Bool.eq_iff_iff, List.any_eq_true, List.any_eq_true]
      refine exists_congr fun fk => and_congr_right fun hfk => ?_
      rw [h _ (hS.unreferenced t fk hfk)]
      simp only [ih]

omit [DecidableEq C] in
theorem orphaned_sameOff (hS : S.Unneeded t1) (h : SameOff t1 db db') {t : T}
    {fk : ForeignKey T C} (hfk : fk ∈ (S.table t).foreignKeys) (r : Row C V) :
    orphaned S db t0 cond fk r = orphaned S db' t0 cond fk r := by
  unfold orphaned removed
  rw [h _ (hS.unreferenced t fk hfk)]
  simp only [doomed_sameOff hS h]

omit [DecidableEq C] in
theorem any_orphaned_sameOff (hS : S.Unneeded t1) (h : SameOff t1 db db') (t : T)
    (p : ForeignKey T C → Bool) (r : Row C V) :
    ((S.table t).foreignKeys.any fun fk => p fk && orphaned S db t0 cond fk r) =
      (S.table t).foreignKeys.any fun fk => p fk && orphaned S db' t0 cond fk r := by
  rw [Bool.eq_iff_iff, List.any_eq_true, List.any_eq_true]
  refine exists_congr fun fk => and_congr_right fun hfk => ?_
  rw [orphaned_sameOff hS h hfk]

omit [DecidableEq C] in
theorem touched_sameOff (hS : S.Unneeded t1) (h : SameOff t1 db db') (t : T) (r : Row C V) :
    touched S db t0 cond t r = touched S db' t0 cond t r := by
  unfold touched isSevered removed
  rw [doomed_sameOff hS h, any_orphaned_sameOff hS h t (fun fk => fk.onDelete == .setNull)]

omit [DecidableEq C] in
theorem blocked_sameOff (hS : S.Unneeded t1) (h : SameOff t1 db db') :
    blocked S db t0 cond = blocked S db' t0 cond := by
  unfold blocked
  rw [Bool.eq_iff_iff, List.any_eq_true, List.any_eq_true]
  refine exists_congr fun t => and_congr_right fun _ => ?_
  simp only [any_orphaned_sameOff hS h t (fun fk => fk.onDelete == .restrict)]
  by_cases ht : t = t1
  · subst ht
    have hnone : ∀ r, ((S.table t).foreignKeys.any fun fk =>
        fk.onDelete == .restrict && orphaned S db' t0 cond fk r) = false := by
      refine fun r => List.any_eq_false.mpr fun fk hfk hb => ?_
      exact hS.yields fk hfk (beq_iff_eq.mp (Bool.and_eq_true_iff.mp hb).1)
    simp [hnone]
  · rw [h t ht]

omit [DecidableEq C] in
theorem fires_sameOff (hS : S.Unneeded t1) (h : SameOff t1 db db') :
    fires S db t0 cond = fires S db' t0 cond := by
  unfold fires
  rw [Bool.eq_iff_iff, List.any_eq_true, List.any_eq_true]
  refine exists_congr fun t => and_congr_right fun _ => ?_
  rw [funext (touched_sameOff hS h t)]
  by_cases ht : t = t1
  · rw [ht, hS.unguarded, Bool.false_and, Bool.false_and]
  · rw [h t ht]

theorem afterDelete_sameOff (hS : S.Unneeded t1) (h : SameOff t1 db db') :
    SameOff t1 (afterDelete S db t0 cond) (afterDelete S db' t0 cond) := by
  intro t ht
  have hsevered : severed S db t0 cond t = severed S db' t0 cond t := by
    funext r c
    unfold severed
    rw [any_orphaned_sameOff hS h t (fun fk => decide (fk.column = c) && fk.onDelete == .setNull)]
  have hremoved : removed S db t0 cond t = removed S db' t0 cond t :=
    funext (doomed_sameOff hS h S.tables.length t)
  unfold afterDelete
  rw [h t ht, hsevered, hremoved]

end Delete

/-! ## 3. A statement -/

section Step

variable [DecidableEq T] [DecidableEq C] [DecidableEq V] [ColumnType Ty V] {rank : T → Nat}

omit [DecidableEq T] [DecidableEq C] in
theorem commit_sameOff {e e' : Db T C V} (hdb : SameOff t1 db db') (he : SameOff t1 e e')
    (h : Consistent S e ↔ Consistent S e') :
    SameOff t1 ((commit S e).getD db) ((commit S e').getD db') := by
  unfold commit
  by_cases hc : Consistent S e
  · rw [if_pos hc, if_pos (h.mp hc)]
    exact he
  · rw [if_neg hc, if_neg (mt h.mpr hc)]
    exact hdb

/-- A statement on `t1` stays there, unless it is a DELETE. -/
theorem step_sameOff_self {st : Stmt T C V} (hst : (∃ r, st = .insert t1 r) ∨
    ∃ cond set, st = .update t1 cond set) (db : Db T C V) : SameOff t1 (step S db st) db := by
  intro t ht
  unfold step
  cases hexec : exec S db st with
  | none => rfl
  | some db' =>
      rw [Option.getD_some]
      rcases hst with ⟨r, rfl⟩ | ⟨cond, set, rfl⟩ <;>
        obtain ⟨-, ⟨t', r', e, rfl⟩ | ⟨t', cond', set', e, -, rfl⟩ | ⟨t', cond', e, -, -, rfl⟩⟩ :=
          exec_cases hexec <;> cases e
      · exact Function.update_of_ne ht _ _
      · exact Function.update_of_ne ht _ _

section

variable (hS : S.Unneeded t1) (hdb : Consistent S db) (hdb' : Consistent S db')
variable (h : SameOff t1 db db')

include hS hdb hdb' h

omit [DecidableEq C] in
/-- Rows of another table are replaced, and `t1` finds the keys it refers to. -/
theorem commit_update_sameOff {t : T} (ht : t ≠ t1) (f : List (Row C V) → List (Row C V))
    (hfound : ∀ e, e = db ∨ e = db' → ∀ fk ∈ (S.table t1).foreignKeys, fk.target = t →
      ∀ s ∈ e t, ∃ s' ∈ f (e t), s' fk.key = s fk.key) :
    SameOff t1 ((commit S (Function.update db t (f (db t)))).getD db)
      ((commit S (Function.update db' t (f (db' t)))).getD db') := by
  refine commit_sameOff h (h.update t f) (consistent_iff_sameOff hS (h.update t f) fun ht1 => ?_)
  exact ⟨(consistent_iff_forall.mp hdb t1 ht1).of_keysFound ht (hfound db (Or.inl rfl)),
    (consistent_iff_forall.mp hdb' t1 ht1).of_keysFound ht (hfound db' (Or.inr rfl))⟩

theorem insert_sameOff {t : T} (ht : t ≠ t1) (r : Row C V) :
    SameOff t1 (step S db (.insert t r)) (step S db' (.insert t r)) := by
  rw [step, step, exec, exec]
  by_cases hmem : t ∈ S.tables
  · rw [if_pos hmem, if_pos hmem]
    exact commit_update_sameOff hS hdb hdb' h ht (fun rows => rows ++ [r])
      fun _ _ _ _ _ s hs => ⟨s, List.mem_append_left _ hs, rfl⟩
  · rw [if_neg hmem, if_neg hmem]
    exact h

theorem update_sameOff {t : T} (ht : t ≠ t1) {cond : Row C V → Bool} {set : Row C V → Row C V}
    (hkeys : KeepsKeys S t1 db (.update t cond set)) :
    SameOff t1 (step S db (.update t cond set)) (step S db' (.update t cond set)) := by
  rw [step, step, exec, exec, ← h t ht]
  by_cases hg : t ∈ S.tables ∧ ((S.table t).frozen && (db t).any cond) = false
  · rw [if_pos hg, if_pos hg]
    have hfound : ∀ fk ∈ (S.table t1).foreignKeys, fk.target = t → ∀ s ∈ db t,
        ∃ s' ∈ (db t).map fun r => if cond r then set r else r, s' fk.key = s fk.key := by
      intro fk hfk htgt s hs
      refine ⟨_, List.mem_map_of_mem hs, ?_⟩
      by_cases hc : cond s = true
      · rw [if_pos hc]
        exact hkeys fk hfk htgt s hs hc
      · rw [if_neg hc]
    have hoff := commit_update_sameOff hS hdb hdb' h ht
      (fun rows => rows.map fun r => if cond r then set r else r) ?_
    · rwa [← h t ht] at hoff
    · rintro e (rfl | rfl)
      · exact hfound
      · rw [← h t ht]
        exact hfound
  · rw [if_neg hg, if_neg hg]
    exact h

theorem delete_sameOff (hwf : S.WellFormed rank) (t : T) (cond : Row C V → Bool) :
    SameOff t1 (step S db (.delete t cond)) (step S db' (.delete t cond)) := by
  unfold step
  have hb : blocked S db t cond = blocked S db' t cond := blocked_sameOff hS h
  have hf : fires S db t cond = fires S db' t cond := fires_sameOff hS h
  by_cases hg : t ∈ S.tables ∧ blocked S db t cond = false ∧ fires S db t cond = false
  · obtain ⟨ht, hblocked, hfires⟩ := hg
    rw [exec_delete hwf hdb ht hblocked hfires,
      exec_delete hwf hdb' ht (hb ▸ hblocked) (hf ▸ hfires)]
    exact afterDelete_sameOff hS h
  · rw [exec, exec, if_neg hg, if_neg (hb ▸ hf ▸ hg)]
    exact h

end

/-- **A statement does not see what `t1` holds**, if it leaves the keys alone that `t1` refers
    to. -/
theorem step_sameOff (hS : S.Unneeded t1) (hwf : S.WellFormed rank) (hdb : Consistent S db)
    (hdb' : Consistent S db') (h : SameOff t1 db db') {st : Stmt T C V}
    (hkeys : KeepsKeys S t1 db st) : SameOff t1 (step S db st) (step S db' st) := by
  -- a statement on `t1` itself shows nowhere else
  have hself : ((∃ r, st = .insert t1 r) ∨ ∃ cond set, st = .update t1 cond set) →
      SameOff t1 (step S db st) (step S db' st) := fun hst t' ht' => by
    rw [step_sameOff_self hst db t' ht', step_sameOff_self hst db' t' ht', h t' ht']
  cases st with
  | insert t r =>
      by_cases ht : t = t1
      · exact hself (Or.inl ⟨r, ht ▸ rfl⟩)
      · exact insert_sameOff hS hdb hdb' h ht r
  | update t cond set =>
      by_cases ht : t = t1
      · exact hself (Or.inr ⟨cond, set, ht ▸ rfl⟩)
      · exact update_sameOff hS hdb hdb' h ht hkeys
  | delete t cond => exact delete_sameOff hS hdb hdb' h hwf t cond

end Step

end Relational
