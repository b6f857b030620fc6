import Mathlib.Data.List.Basic
import Mathlib.Data.List.Pairwise
import Mathlib.Logic.Function.Basic
import Mathlib.Tactic.Common

/-!
# Relational schemas and the states they admit

A schema is data: per table its columns, its keys, its foreign keys and whether a row trigger
rejects updates and deletes. A row is a function from column names to values, `none` for `NULL`; a
database is a list of rows per table. Table names, column names, column types and values are
parameters; a type language says which values a type admits (`ColumnType.admits`).

`Consistent S db` is what the constraints of `S` say of a state. It is decidable, so a statement can
be executed: it commits when the state it leads to is consistent (`Statement.lean`).
-/

namespace Relational

/-- Which values a column type admits. -/
class ColumnType (Ty V : Type) where
  admits : Ty → V → Bool

/-- `ON DELETE` of a foreign key. -/
inductive OnDelete where
  | noAction
  | restrict
  | cascade
  | setNull
  deriving DecidableEq, Repr

structure Column (C Ty : Type) where
  name : C
  type : Ty
  nullable : Bool
  hasDefault : Bool
  deriving DecidableEq, Repr

structure ForeignKey (T C : Type) where
  column : C
  target : T
  key : C
  onDelete : OnDelete
  deriving DecidableEq, Repr

/-- One table. `keys` are the column lists declared `PRIMARY KEY` or `UNIQUE`; `frozen` says that a
    `BEFORE UPDATE OR DELETE` row trigger raises on every row. -/
structure Table (T C Ty : Type) where
  columns : List (Column C Ty)
  keys : List (List C)
  foreignKeys : List (ForeignKey T C)
  frozen : Bool
  deriving DecidableEq, Repr

structure Schema (T C Ty : Type) where
  tables : List T
  table : T → Table T C Ty

/-- A row: `none` is `NULL`. -/
abbrev Row (C V : Type) := C → Option V

/-- A state: the rows of each table. -/
abbrev Db (T C V : Type) := T → List (Row C V)

variable {T C Ty V : Type}

/-! ## 1. What the constraints say -/

section Checks

variable [ColumnType Ty V]

/-- Type, length, `CHECK` and `NOT NULL` of one column. -/
def Column.admits (c : Column C Ty) : Option V → Bool
  | none => c.nullable
  | some v => ColumnType.admits c.type v

def Table.admitsRow (t : Table T C Ty) (r : Row C V) : Bool :=
  t.columns.all fun c => c.admits (r c.name)

/-- A `NOT NULL` column of an admitted row holds a value of its type. -/
theorem Table.exists_of_admitsRow {t : Table T C Ty} {r : Row C V} (h : t.admitsRow r = true)
    {c : Column C Ty} (hc : c ∈ t.columns) (hnull : c.nullable = false) :
    ∃ v, r c.name = some v ∧ ColumnType.admits c.type v = true := by
  have hadm : c.admits (r c.name) = true := List.all_eq_true.mp h c hc
  unfold Column.admits at hadm
  split at hadm
  · rw [hnull] at hadm
    cases hadm
  · rename_i v hv
    exact ⟨v, hv, hadm⟩

end Checks

section Keys

variable [DecidableEq V]

/-- Two rows have the same key: equal on the key columns and `NULL` in none of them. -/
def agreeOn (cols : List C) (r s : Row C V) : Bool :=
  cols.all fun c => (r c).isSome && r c == s c

/-- No two rows have the same key. -/
def KeyOk (cols : List C) (rows : List (Row C V)) : Prop :=
  rows.Pairwise fun r s => agreeOn cols r s = false

instance (cols : List C) (rows : List (Row C V)) : Decidable (KeyOk cols rows) := by
  unfold KeyOk
  infer_instance

/-- `r` refers to `s` through `fk`. -/
def references (fk : ForeignKey T C) (r s : Row C V) : Bool :=
  (r fk.column).isSome && r fk.column == s fk.key

/-- The foreign key of `r` is `NULL` or refers to a stored row. -/
def refersWithin (db : Db T C V) (fk : ForeignKey T C) (r : Row C V) : Bool :=
  (r fk.column).isNone || (db fk.target).any (references fk r)

end Keys

/-- **The constraints of a schema**, over a whole state. -/
structure Consistent [DecidableEq V] [ColumnType Ty V] (S : Schema T C Ty) (db : Db T C V) :
    Prop where
  rows : ∀ t ∈ S.tables, ∀ r ∈ db t, (S.table t).admitsRow r = true
  keys : ∀ t ∈ S.tables, ∀ cols ∈ (S.table t).keys, KeyOk cols (db t)
  refs : ∀ t ∈ S.tables, ∀ fk ∈ (S.table t).foreignKeys, ∀ r ∈ db t,
    refersWithin db fk r = true

instance [DecidableEq V] [ColumnType Ty V] (S : Schema T C Ty) (db : Db T C V) :
    Decidable (Consistent S db) :=
  decidable_of_iff
    ((∀ t ∈ S.tables, ∀ r ∈ db t, (S.table t).admitsRow r = true) ∧
      (∀ t ∈ S.tables, ∀ cols ∈ (S.table t).keys, KeyOk cols (db t)) ∧
      ∀ t ∈ S.tables, ∀ fk ∈ (S.table t).foreignKeys, ∀ r ∈ db t, refersWithin db fk r = true)
    ⟨fun ⟨h1, h2, h3⟩ => ⟨h1, h2, h3⟩, fun h => ⟨h.rows, h.keys, h.refs⟩⟩

/-! ## 2. Reading the checks -/

section

variable [DecidableEq V]

theorem agreeOn_iff {cols : List C} {r s : Row C V} :
    agreeOn cols r s = true ↔ ∀ c ∈ cols, (r c).isSome = true ∧ r c = s c := by
  simp [agreeOn]

theorem references_iff {fk : ForeignKey T C} {r s : Row C V} :
    references fk r s = true ↔ (r fk.column).isSome = true ∧ r fk.column = s fk.key := by
  simp [references]

theorem refersWithin_iff {db : Db T C V} {fk : ForeignKey T C} {r : Row C V} :
    refersWithin db fk r = true ↔
      r fk.column = none ∨ ∃ s ∈ db fk.target, references fk r s = true := by
  simp [refersWithin]

theorem agreeOn_comm {cols : List C} {r s : Row C V} : agreeOn cols r s = agreeOn cols s r := by
  rw [Bool.eq_iff_iff, agreeOn_iff, agreeOn_iff]
  refine forall₂_congr fun c _ => ⟨fun h => ⟨h.2 ▸ h.1, h.2.symm⟩, fun h => ⟨h.2 ▸ h.1, h.2.symm⟩⟩

/-- A key identifies its row. -/
theorem KeyOk.eq_of_agreeOn {cols : List C} {rows : List (Row C V)} (h : KeyOk cols rows)
    {r s : Row C V} (hr : r ∈ rows) (hs : s ∈ rows) (hrs : agreeOn cols r s = true) : r = s := by
  by_contra hne
  have : Std.Symm fun r s : Row C V => agreeOn cols r s = false :=
    ⟨fun _ _ h => agreeOn_comm.trans h⟩
  rw [List.Pairwise.forall h hr hs hne] at hrs
  cases hrs

/-- At most one row has the values a query gives for a key. -/
theorem KeyOk.length_filter_le_one {cols : List C} {rows : List (Row C V)} (h : KeyOk cols rows)
    {cond : Row C V → Bool} (hcond : ∀ r s, cond r = true → cond s = true →
      agreeOn cols r s = true) : (rows.filter cond).length ≤ 1 := by
  have hpair := h.filter cond
  cases hrows : rows.filter cond with
  | nil => exact Nat.zero_le _
  | cons r rest =>
      cases rest with
      | nil => exact Nat.le_refl _
      | cons s rest =>
          have hr : cond r = true := (List.mem_filter.mp (hrows ▸ List.mem_cons_self)).2
          have hs : cond s = true :=
            (List.mem_filter.mp (hrows ▸ List.mem_cons_of_mem _ List.mem_cons_self)).2
          rw [hrows] at hpair
          have hfalse := (List.pairwise_cons.mp hpair).1 s List.mem_cons_self
          rw [hcond r s hr hs] at hfalse
          cases hfalse

/-- A query by key that finds a row finds that one only. -/
theorem KeyOk.countP_eq_one {cols : List C} {rows : List (Row C V)} (h : KeyOk cols rows)
    {cond : Row C V → Bool} (hcond : ∀ r s, cond r = true → cond s = true →
      agreeOn cols r s = true) {r : Row C V} (hr : r ∈ rows) (hrc : cond r = true) :
    rows.countP cond = 1 := by
  have hpos : 0 < rows.countP cond := List.countP_pos_iff.mpr ⟨r, hr, hrc⟩
  have hle := h.length_filter_le_one hcond
  rw [← List.countP_eq_length_filter] at hle
  omega

/-- Keys depend on the key columns only. -/
theorem agreeOn_congr {cols : List C} {r s s' : Row C V} (h : ∀ c ∈ cols, s c = s' c) :
    agreeOn cols r s = agreeOn cols r s' := by
  rw [Bool.eq_iff_iff, agreeOn_iff, agreeOn_iff]
  exact forall₂_congr fun c hc => by rw [h c hc]

/-- A reference depends on its own column only. -/
theorem refersWithin_congr {db : Db T C V} {fk : ForeignKey T C} {r r' : Row C V}
    (h : r fk.column = r' fk.column) : refersWithin db fk r = refersWithin db fk r' := by
  rw [Bool.eq_iff_iff, refersWithin_iff, refersWithin_iff]
  simp only [references_iff, h]

/-- A reference is kept where rows are added. -/
theorem refersWithin_mono {db db' : Db T C V} (hgrow : ∀ t, db t ⊆ db' t) {fk : ForeignKey T C}
    {r : Row C V} (h : refersWithin db fk r = true) : refersWithin db' fk r = true := by
  rw [refersWithin_iff] at h ⊢
  exact h.imp_right fun ⟨s, hs, href⟩ => ⟨s, hgrow _ hs, href⟩

/-- A state without rows meets every constraint. -/
theorem consistent_empty [ColumnType Ty V] (S : Schema T C Ty) :
    Consistent S (fun _ => [] : Db T C V) where
  rows _ _ _ h := absurd h List.not_mem_nil
  keys _ _ _ _ := List.Pairwise.nil
  refs _ _ _ _ _ h := absurd h List.not_mem_nil

end

end Relational
