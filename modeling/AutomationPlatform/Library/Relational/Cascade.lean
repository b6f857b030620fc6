import AutomationPlatform.Library.Relational.Delete

/-!
# What a DELETE means

`exec` runs a DELETE in rounds. This file says what it means, without rounds and without computing:

* `Falls` -- the rows that go: those the statement names, and every row that refers to a falling one
  through an `ON DELETE CASCADE` key, however long the chain;
* `Obstructed` -- when the statement is refused: a stored row refers to a falling one through a
  `RESTRICT` key, or a row trigger raises on a row that falls or loses a reference;
* `declared` -- the state the foreign keys declare.

**`exec_delete_eq`**: in a well-formed schema and a consistent state, `exec` is refused exactly when
the DELETE is obstructed and leads to the declared state otherwise.
-/

namespace Relational

variable {T C Ty V : Type} [DecidableEq V]

/-! ## 1. The rows that go, and the state declared -/

section Meaning

variable (S : Schema T C Ty) (db : Db T C V) (t0 : T) (cond : Row C V → Bool)

/-- **The rows a DELETE takes with it.** -/
inductive Falls : T → Row C V → Prop where
  | named {r : Row C V} (h : cond r = true) : Falls t0 r
  | cascade {t : T} {r s : Row C V} {fk : ForeignKey T C} (hfk : fk ∈ (S.table t).foreignKeys)
      (hact : fk.onDelete = .cascade) (hs : s ∈ db fk.target) (href : references fk r s = true)
      (h : Falls fk.target s) : Falls t r

/-- `r` refers through `fk` to a row that falls. -/
def Strands (fk : ForeignKey T C) (r : Row C V) : Prop :=
  ∃ s ∈ db fk.target, references fk r s = true ∧ Falls S db t0 cond fk.target s

/-- A key of `r` that does `act` on deletion refers to a row that falls. -/
def Loses (act : OnDelete) (t : T) (r : Row C V) : Prop :=
  ∃ fk ∈ (S.table t).foreignKeys, fk.onDelete = act ∧ Strands S db t0 cond fk r

/-- **What a DELETE is refused for.** -/
def Obstructed : Prop :=
  (∃ t ∈ S.tables, ∃ r ∈ db t, Loses S db t0 cond .restrict t r) ∨
    ∃ t ∈ S.tables, (S.table t).frozen = true ∧
      ∃ r ∈ db t, Falls S db t0 cond t r ∨ Loses S db t0 cond .setNull t r

open Classical in
/-- The row without its `SET NULL` references to rows that fall. -/
noncomputable def unlinked (t : T) (r : Row C V) : Row C V := fun c =>
  if ∃ fk ∈ (S.table t).foreignKeys,
      fk.column = c ∧ fk.onDelete = .setNull ∧ Strands S db t0 cond fk r
  then none else r c

open Classical in
/-- **The state the foreign keys declare.** -/
noncomputable def declared : Db T C V := fun t =>
  ((db t).filter fun r => ¬ Falls S db t0 cond t r).map (unlinked S db t0 cond t)

end Meaning

/-- A table without cascading keys loses the rows the statement names only. -/
theorem falls_iff_named {S : Schema T C Ty} {db : Db T C V} {t0 t : T} {cond : Row C V → Bool}
    (h : ∀ fk ∈ (S.table t).foreignKeys, fk.onDelete ≠ .cascade) {r : Row C V} :
    Falls S db t0 cond t r ↔ t = t0 ∧ cond r = true := by
  refine ⟨fun hf => ?_, fun ⟨ht, hc⟩ => ht ▸ .named hc⟩
  cases hf with
  | named hc => exact ⟨rfl, hc⟩
  | cascade hfk hact => exact absurd hact (h _ hfk)

/-! ## 2. The rounds of `exec` compute it -/

section Rounds

variable [DecidableEq T] {S : Schema T C Ty} {rank : T → Nat} {db : Db T C V} {t0 : T}
variable {cond : Row C V → Bool}

/-- A row deleted in some round falls. -/
theorem falls_of_doomed {n : Nat} {t : T} {r : Row C V} (h : doomed S db t0 cond n t r = true) :
    Falls S db t0 cond t r := by
  induction n generalizing t r with
  | zero =>
      rw [doomed, Bool.and_eq_true, decide_eq_true_eq] at h
      obtain ⟨rfl, h⟩ := h
      exact .named h
  | succ n ih =>
      rw [doomed, Bool.or_eq_true] at h
      rcases h with h | h
      · exact ih h
      · obtain ⟨fk, hfk, h⟩ := List.any_eq_true.mp h
        rw [Bool.and_eq_true, beq_iff_eq] at h
        obtain ⟨s, hs, h'⟩ := List.any_eq_true.mp h.2
        rw [Bool.and_eq_true] at h'
        exact .cascade hfk h.1 hs h'.1 (ih h'.2)

/-- **As many rounds as there are tables reach every row that falls.** -/
theorem removed_iff_falls (hS : S.WellFormed rank) {t : T} (ht : t ∈ S.tables) {r : Row C V} :
    removed S db t0 cond t r = true ↔ Falls S db t0 cond t r := by
  refine ⟨falls_of_doomed, fun h => ?_⟩
  induction h with
  | named h => exact (removed_iff hS ht).mpr (Or.inl ⟨rfl, h⟩)
  | cascade hfk hact hs href _ ih =>
      exact (removed_iff hS ht).mpr
        (Or.inr ⟨_, hfk, hact, _, hs, href, ih (hS.target _ ht _ hfk)⟩)

theorem orphaned_iff_strands (hS : S.WellFormed rank) {t : T} (ht : t ∈ S.tables)
    {fk : ForeignKey T C} (hfk : fk ∈ (S.table t).foreignKeys) {r : Row C V} :
    orphaned S db t0 cond fk r = true ↔ Strands S db t0 cond fk r := by
  rw [orphaned_iff]
  refine exists_congr fun s => and_congr_right fun _ => and_congr_right fun _ => ?_
  exact removed_iff_falls hS (hS.target t ht fk hfk)

theorem any_orphaned_iff_loses (hS : S.WellFormed rank) {t : T} (ht : t ∈ S.tables)
    {act : OnDelete} {r : Row C V} :
    ((S.table t).foreignKeys.any fun fk => fk.onDelete == act && orphaned S db t0 cond fk r) =
      true ↔ Loses S db t0 cond act t r := by
  rw [List.any_eq_true]
  refine exists_congr fun fk => and_congr_right fun hfk => ?_
  rw [Bool.and_eq_true, beq_iff_eq, orphaned_iff_strands hS ht hfk]

theorem blocked_iff (hS : S.WellFormed rank) :
    blocked S db t0 cond = true ↔
      ∃ t ∈ S.tables, ∃ r ∈ db t, Loses S db t0 cond .restrict t r := by
  unfold blocked
  rw [List.any_eq_true]
  refine exists_congr fun t => and_congr_right fun ht => ?_
  rw [List.any_eq_true]
  exact exists_congr fun r => and_congr_right fun _ => any_orphaned_iff_loses hS ht

theorem touched_iff (hS : S.WellFormed rank) {t : T} (ht : t ∈ S.tables) {r : Row C V} :
    touched S db t0 cond t r = true ↔
      Falls S db t0 cond t r ∨ Loses S db t0 cond .setNull t r := by
  unfold touched isSevered
  rw [Bool.or_eq_true, removed_iff_falls hS ht, any_orphaned_iff_loses hS ht]

theorem fires_iff (hS : S.WellFormed rank) :
    fires S db t0 cond = true ↔ ∃ t ∈ S.tables, (S.table t).frozen = true ∧
      ∃ r ∈ db t, Falls S db t0 cond t r ∨ Loses S db t0 cond .setNull t r := by
  unfold fires
  rw [List.any_eq_true]
  refine exists_congr fun t => and_congr_right fun ht => ?_
  rw [Bool.and_eq_true, List.any_eq_true]
  exact and_congr_right fun _ => exists_congr fun r => and_congr_right fun _ => touched_iff hS ht

theorem severed_eq_unlinked [DecidableEq C] (hS : S.WellFormed rank) {t : T} (ht : t ∈ S.tables)
    (r : Row C V) : severed S db t0 cond t r = unlinked S db t0 cond t r := by
  funext c
  unfold unlinked
  rcases severed_cases S db t0 cond t r c with ⟨h, fk, hfk, hc, hact, horph⟩ | ⟨h, hfree⟩
  · rw [h, if_pos ⟨fk, hfk, hc, hact, (orphaned_iff_strands hS ht hfk).mp horph⟩]
  · rw [h, if_neg]
    rintro ⟨fk, hfk, hc, hact, hstr⟩
    rw [← orphaned_iff_strands hS ht hfk, hfree fk hfk hc hact] at hstr
    cases hstr

open Classical in
theorem afterDelete_eq_declared [DecidableEq C] (hS : S.WellFormed rank) {t : T}
    (ht : t ∈ S.tables) : afterDelete S db t0 cond t = declared S db t0 cond t := by
  have hkept : ∀ r ∈ db t, (!removed S db t0 cond t r) = decide (¬ Falls S db t0 cond t r) := by
    intro r _
    rw [Bool.eq_iff_iff, Bool.not_eq_true', decide_eq_true_eq, ← removed_iff_falls hS ht,
      Bool.not_eq_true]
  unfold afterDelete declared
  rw [List.filter_congr hkept]
  exact List.map_congr_left fun r _ => severed_eq_unlinked hS ht r

end Rounds

/-! ## 3. The whole statement -/

section Whole

variable [DecidableEq T] [DecidableEq C] [ColumnType Ty V] {S : Schema T C Ty} {rank : T → Nat}
variable {db : Db T C V} {t0 : T} {cond : Row C V → Bool}

omit [ColumnType Ty V] in
open Classical in
/-- A table outside the schema has no foreign keys, so no DELETE reaches it. -/
theorem afterDelete_of_notMem (hout : ∀ t, t ∉ S.tables → (S.table t).foreignKeys = [])
    (ht0 : t0 ∈ S.tables) {t : T} (ht : t ∉ S.tables) :
    afterDelete S db t0 cond t = declared S db t0 cond t := by
  have hfall : ∀ r, ¬ Falls S db t0 cond t r := by
    intro r h
    cases h with
    | named => exact ht ht0
    | cascade hfk => exact absurd (hout t ht ▸ hfk) List.not_mem_nil
  have hun : ∀ r, unlinked S db t0 cond t r = r := by
    intro r
    funext c
    unfold unlinked
    rw [if_neg]
    rintro ⟨fk, hfk, -⟩
    exact absurd (hout t ht ▸ hfk) List.not_mem_nil
  have huntouched : ∀ r ∈ db t, touched S db t0 cond t r = false := by
    intro r _
    unfold touched isSevered
    rw [hout t ht, List.any_nil, Bool.or_false, ← Bool.not_eq_true]
    exact fun h => hfall r (falls_of_doomed h)
  rw [afterDelete_of_untouched huntouched]
  unfold declared
  rw [List.filter_eq_self.mpr fun r _ => decide_eq_true (hfall r)]
  exact ((List.map_congr_left fun r _ => hun r).trans (List.map_id _)).symm

open Classical in
/-- **A DELETE means what the foreign keys declare**: it is refused exactly when it is obstructed,
    and leads to the declared state otherwise. -/
theorem exec_delete_eq (hS : S.WellFormed rank)
    (hout : ∀ t, t ∉ S.tables → (S.table t).foreignKeys = []) (hdb : Consistent S db)
    (ht0 : t0 ∈ S.tables) :
    exec S db (.delete t0 cond) =
      if Obstructed S db t0 cond then none else some (declared S db t0 cond) := by
  have hiff : Obstructed S db t0 cond ↔
      blocked S db t0 cond = true ∨ fires S db t0 cond = true := by
    rw [blocked_iff hS, fires_iff hS]
    rfl
  by_cases hobs : Obstructed S db t0 cond
  · rw [if_pos hobs, exec, if_neg]
    rintro ⟨-, hb, hf⟩
    rcases hiff.mp hobs with h | h
    · rw [hb] at h
      cases h
    · rw [hf] at h
      cases h
  · rw [hiff, not_or, Bool.not_eq_true, Bool.not_eq_true] at hobs
    rw [if_neg (by rw [hiff, hobs.1, hobs.2]; simp), exec_delete hS hdb ht0 hobs.1 hobs.2]
    refine congrArg some (funext fun t => ?_)
    by_cases ht : t ∈ S.tables
    · exact afterDelete_eq_declared hS ht
    · exact afterDelete_of_notMem hout ht0 ht

end Whole

end Relational
