import AutomationPlatform.Library.Relational.Statement

/-!
# Stores and the scripts that define them

A store is a catalog, the tables in order of creation and the named indexes, and the rows of each
table. A script of DDL statements changes it; the schema that rows are checked against is read off
the catalog (`Catalog.schema`), where a unique index is a key like any other.

* A statement is refused when what it creates exists (unless it says `IF NOT EXISTS`), when a column
  or a referenced key is missing, when the rows break a unique index, or when another table refers
  to the table it drops.
* A script runs in one transaction: refused as a whole, it changes nothing (`Store.transaction`).

Whether rows break a unique index is the one thing a statement asks of the rows; what it does to the
catalog is a function of the answers (`Ddl.alter`).
-/

namespace Relational

structure Index (T C I : Type) where
  name : I
  table : T
  columns : List C
  unique : Bool
  deriving DecidableEq, Repr

structure Catalog (T C Ty I : Type) where
  tables : List (T × Table T C Ty)
  indexes : List (Index T C I)
  deriving DecidableEq, Repr

structure Store (T C Ty V I : Type) where
  catalog : Catalog T C Ty I
  rows : Db T C V

/-- A DDL statement. The one row trigger a table can have raises on every `UPDATE` and `DELETE`;
    `dropTrigger` is `DROP TRIGGER IF EXISTS`. -/
inductive Ddl (T C Ty I : Type) where
  | createTable (ifNotExists : Bool) (t : T) (d : Table T C Ty)
  | createIndex (ifNotExists : Bool) (i : Index T C I)
  | createTrigger (t : T)
  | dropTrigger (t : T)
  | dropTable (t : T)
  deriving DecidableEq, Repr

variable {T C Ty V I : Type}

/-! ## 1. Reading a catalog -/

namespace Catalog

def empty : Catalog T C Ty I := ⟨[], []⟩

def names (c : Catalog T C Ty I) : List T := c.tables.map Prod.fst

variable [DecidableEq T]

/-- The definition of a table, with the columns of its unique indexes among its keys. -/
def keyed (c : Catalog T C Ty I) (t : T) (d : Table T C Ty) : Table T C Ty :=
  { d with keys := d.keys ++
      (c.indexes.filter fun i => i.unique && decide (i.table = t)).map Index.columns }

/-- **What rows are checked against.** -/
def schema (c : Catalog T C Ty I) : Schema T C Ty where
  tables := c.names
  table t := (c.tables.lookup t).elim ⟨[], [], [], false⟩ (c.keyed t)

/-- `fk` refers to a key of a table that exists. -/
def provides [DecidableEq C] (c : Catalog T C Ty I) (fk : ForeignKey T C) : Bool :=
  (c.tables.lookup fk.target).any fun d => decide ([fk.key] ∈ (c.keyed fk.target d).keys)

/-- The trigger of `t` set or cleared. -/
def guard (c : Catalog T C Ty I) (t : T) (b : Bool) : Catalog T C Ty I :=
  { c with tables := c.tables.map fun e => if e.1 = t then (e.1, { e.2 with frozen := b }) else e }

/-- A table other than `t` refers to `t`. -/
def neededBy (c : Catalog T C Ty I) (t : T) : Bool :=
  c.tables.any fun e => decide (e.1 ≠ t) && e.2.foreignKeys.any fun fk => decide (fk.target = t)

/-- The catalog without the tables `ts` and their indexes. -/
def without (c : Catalog T C Ty I) (ts : List T) : Catalog T C Ty I where
  tables := c.tables.filter fun e => decide (e.1 ∉ ts)
  indexes := c.indexes.filter fun i => decide (i.table ∉ ts)

end Catalog

/-! ## 2. Statements and scripts -/

section Run

variable [DecidableEq T] [DecidableEq C] [DecidableEq I]

/-- **What a statement does to the catalog**, `none` when it is refused. `unique t cols` says
    whether the rows of `t` differ on `cols`. -/
def Ddl.alter (unique : T → List C → Bool) (c : Catalog T C Ty I) :
    Ddl T C Ty I → Option (Catalog T C Ty I)
  | .createTable ifNotExists t d =>
    match c.tables.lookup t with
    | some _ => if ifNotExists then some c else none
    | none =>
      if d.foreignKeys.all c.provides then
        some { c with tables := c.tables ++ [(t, { d with frozen := false })] }
      else none
  | .createIndex ifNotExists i =>
    match c.tables.lookup i.table with
    | none => none
    | some d =>
      -- the columns are looked up before the name
      if i.columns.all fun n => decide (n ∈ d.columns.map Column.name) then
        if i.name ∈ c.indexes.map Index.name then
          if ifNotExists then some c else none
        else if i.unique && !unique i.table i.columns then none
        else some { c with indexes := c.indexes ++ [i] }
      else none
  | .createTrigger t =>
    match c.tables.lookup t with
    | none => none
    | some d => if d.frozen then none else some (c.guard t true)
  | .dropTrigger t => some (c.guard t false)
  | .dropTable t =>
    if t ∈ c.names ∧ c.neededBy t = false then some (c.without [t]) else none

/-- Only a dropped table loses its rows. -/
def Ddl.keep (db : Db T C V) : Ddl T C Ty I → Db T C V
  | .dropTable t => Function.update db t []
  | _ => db

namespace Store

variable [DecidableEq V]

/-- No two rows of `t` have equal values in `cols`. -/
def differ (db : Db T C V) (t : T) (cols : List C) : Bool := decide (KeyOk cols (db t))

def ddl (s : Store T C Ty V I) (st : Ddl T C Ty I) : Option (Store T C Ty V I) :=
  (st.alter (differ s.rows) s.catalog).map fun c => ⟨c, st.keep s.rows⟩

def script (s : Store T C Ty V I) (sts : List (Ddl T C Ty I)) : Option (Store T C Ty V I) :=
  sts.foldlM ddl s

/-- **A script in one transaction.** -/
def transaction (s : Store T C Ty V I) (sts : List (Ddl T C Ty I)) : Store T C Ty V I :=
  (s.script sts).getD s

/-- A statement on the rows. -/
def statement [ColumnType Ty V] (s : Store T C Ty V I) (st : Stmt T C V) : Store T C Ty V I :=
  { s with rows := step s.catalog.schema s.rows st }

end Store

end Run

end Relational
