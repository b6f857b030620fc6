import AutomationPlatform.Database.Models
import AutomationPlatform.Python.Json

/-!
# Storing a dict as a row, field by field

A key that names a mapped column is stored there, any other key is not stored. An attribute that is
missing takes the default of its column, else `NULL`; one that is `None` counts as missing, but for
a JSON column, which stores `null`. A value its column does not take (too long a text, a text that
is no UUID, a text for a timestamp, a NaN inside JSON) rejects the whole row. A row that is read
holds objects, `uuid.UUID` and `datetime`, where its columns have these types.

* `storeRow_eq_some`, `exists_storeRow`: the row, column by column;
* **`roundTrips_iff`**: a dict comes back the same exactly when each column brings its key back and
  the other keys hold nothing.
-/

namespace AutomationPlatform

open Python Relational

variable {F : Type}

/-! ## 1. One column -/

/-- What a flush draws for the Python-side defaults. -/
structure Drawn where
  uuid : UUID
  now : Timestamp

def PyDefault.value (drawn : Drawn) : PyDefault → SqlValue F
  | .uuid4 => .uuid drawn.uuid
  | .utcNow => .timestamp drawn.now
  | .emptyDict => .json (.dict [])
  | .bool b => .bool b
  | .label s => .text s
  | .role r => .text r.name

/-- What an attribute of a row that was read holds. -/
inductive Loaded (F : Type) where
  | value (v : Value F)
  | uuid (u : UUID)
  | datetime (t : Timestamp)
  | role (r : UserRoleEnum)

/-- A text column; the name of a role is read as its member. -/
def MappedType.loadText : MappedType → String → Loaded F
  | .plain _, s => .value (.str s)
  | .userRole, s =>
    match UserRoleEnum.all.find? fun r => r.name == s with
    | some r => .role r
    | none => .value (.str s)

/-- `NULL` is read as `None`. -/
def MappedType.load (ty : MappedType) : Option (SqlValue F) → Loaded F
  | none => .value .none
  | some (.uuid u) => .uuid u
  | some (.text s) => ty.loadText s
  | some (.bool b) => .value (.bool b)
  | some (.int n) => .value (.int n)
  | some (.double x) => .value (.float x)
  | some (.timestamp t) => .datetime t
  | some (.json v) => .value v

/-- The attribute holds the value; an object does when the value is its text. -/
def Loaded.Holds : Loaded F → Value F → Prop
  | .value v, w => v = w
  | .uuid u, w => w = .str u.text
  | .datetime t, w => w = .str t.iso
  | .role r, w => w = .str r.value

/-- What the `INSERT` is given for the column. `None` counts as missing, but for a JSON column. -/
def MappedColumn.given (c : MappedColumn) (d : Record F) : Option (Value F) :=
  match d.get? c.name.attrName with
  | some .none => if c.type = .plain .jsonb then some .none else none
  | v => v

section Given

variable {c : MappedColumn} {d : Record F}

theorem given_of_get? {v : Value F} (hd : d.get? c.name.attrName = some v) (hv : v ≠ .none) :
    c.given d = some v := by
  unfold MappedColumn.given
  rw [hd]
  split
  · rename_i h
    exact absurd (Option.some.inj h) hv
  · rfl

theorem given_of_missing (hd : d.get? c.name.attrName = none) : c.given d = none := by
  unfold MappedColumn.given
  rw [hd]

/-- `None` counts as missing. -/
theorem given_of_none (hd : d.get? c.name.attrName = some .none) (ht : c.type ≠ .plain .jsonb) :
    c.given d = none := by
  unfold MappedColumn.given
  rw [hd]
  exact if_neg ht

end Given

/-! ## 2. Reading a row -/

/-- `row.<k>`, `None` for a name no column has. -/
def loadKey (m : Model) (r : PgRow F) (k : String) : Loaded F :=
  match m.mapped.columns.find? fun c => c.name.attrName == k with
  | some c => c.type.load (r c.name)
  | none => .value .none

/-- The columns of a class have different attribute names. -/
theorem Model.nodup_attrNames (m : Model) :
    (m.mapped.columns.map fun c => c.name.attrName).Nodup := by
  cases m <;> decide +kernel

theorem Model.column_unique {m : Model} {c c' : MappedColumn} (hc : c ∈ m.mapped.columns)
    (hc' : c' ∈ m.mapped.columns) (h : c.name.attrName = c'.name.attrName) : c = c' :=
  List.inj_on_of_nodup_map m.nodup_attrNames hc hc' h

theorem find?_column {m : Model} {c : MappedColumn} (hc : c ∈ m.mapped.columns)
    {p : MappedColumn → Bool} (hp : p c = true)
    (honly : ∀ c', p c' = true → c'.name.attrName = c.name.attrName) :
    m.mapped.columns.find? p = some c := by
  obtain ⟨c', hc'⟩ := Option.isSome_iff_exists.mp (List.find?_isSome.mpr ⟨c, hc, hp⟩)
  rw [hc', Model.column_unique (List.mem_of_find?_eq_some hc') hc
    (honly c' (List.find?_some hc'))]

theorem loadKey_of_mem {m : Model} {c : MappedColumn} (hc : c ∈ m.mapped.columns)
    (r : PgRow F) : loadKey m r c.name.attrName = c.type.load (r c.name) := by
  have hfind : m.mapped.columns.find? (fun c' => c'.name.attrName == c.name.attrName) = some c :=
    find?_column hc (beq_self_eq_true _) fun c' h => beq_iff_eq.mp h
  unfold loadKey
  rw [hfind]

theorem loadKey_of_not_mem {m : Model} {k : String}
    (hk : ∀ c ∈ m.mapped.columns, c.name.attrName ≠ k) (r : PgRow F) :
    loadKey m r k = .value .none := by
  unfold loadKey
  rw [List.find?_eq_none.mpr fun c hc => by simpa using hk c hc]

/-! ## 3. Storing a row -/

variable [JsonFloat F]

/-- The value a column stores for a Python value, `none` where the driver or the server refuses it.
    The driver takes a text for a UUID, and none for a timestamp. What it makes of a number for a
    column of another number type is left out. -/
def ColType.store : ColType → Value F → Option (SqlValue F)
  | .jsonb, v => if v.isJsonb then some (.json v) else none
  | .uuid, .str s => (UUID.parse s).map .uuid
  | .varchar n, .str s => if s.length ≤ n ∧ hasNul s = false then some (.text s) else none
  | .varcharIn n labels, .str s =>
    if s.length ≤ n ∧ s ∈ labels then some (.text s) else none
  | .enum labels, .str s => if s ∈ labels then some (.text s) else none
  | .text, .str s => if hasNul s = false then some (.text s) else none
  | .boolean, .bool b => some (.bool b)
  | .integer, .int n => if -2 ^ 31 ≤ n ∧ n < 2 ^ 31 then some (.int n) else none
  | .double, .float x => some (.double x)
  | _, _ => none

/-- What the column holds once the dict is stored, `none` when it rejects the dict's value. -/
def MappedColumn.stored (c : MappedColumn) (drawn : Drawn) (d : Record F) :
    Option (Option (SqlValue F)) :=
  match c.given d with
  | some v => (c.type.sqlType.store v).map some
  | none =>
    match c.default with
    | some p => some (some (p.value drawn))
    | none => if c.nullable then some none else none

/-- The column brings the dict's value back. -/
def MappedColumn.RoundTrips (c : MappedColumn) (drawn : Drawn) (d : Record F) : Prop :=
  ∃ w, c.stored drawn d = some w ∧ (c.type.load w).Holds (d.get c.name.attrName)

def storeRow (m : Model) (drawn : Drawn) (d : Record F) : Option (PgRow F) :=
  if m.mapped.columns.all fun c => (c.stored drawn d).isSome then
    some fun n => ((m.mapped.columns.find? fun c => decide (c.name = n)).bind fun c =>
      c.stored drawn d).join
  else none

/-- **The dict comes back the same**: stored as a row of the class and read back, every key holds
    what it held. -/
def RoundTrips (m : Model) (drawn : Drawn) (d : Record F) : Prop :=
  ∃ r, storeRow m drawn d = some r ∧ ∀ k, (loadKey m r k).Holds (d.get k)

theorem storeRow_eq_some {m : Model} {drawn : Drawn} {d : Record F} {r : PgRow F}
    (h : storeRow m drawn d = some r) {c : MappedColumn} (hc : c ∈ m.mapped.columns) :
    c.stored drawn d = some (r c.name) := by
  unfold storeRow at h
  split at h
  · rename_i hall
    have hfind : m.mapped.columns.find? (fun c' => decide (c'.name = c.name)) = some c :=
      find?_column hc (decide_eq_true rfl) fun c' h => by rw [of_decide_eq_true h]
    obtain ⟨w, hw⟩ := Option.isSome_iff_exists.mp (List.all_eq_true.mp hall c hc)
    rw [← Option.some.inj h]
    dsimp only
    rw [hfind, Option.bind_some, hw]
    rfl
  · cases h

theorem exists_storeRow {m : Model} {drawn : Drawn} {d : Record F}
    (h : ∀ c ∈ m.mapped.columns, (c.stored drawn d).isSome = true) :
    ∃ r, storeRow m drawn d = some r :=
  ⟨_, if_pos (List.all_eq_true.mpr h)⟩

/-- What is read under the key of a column is what the column stored. -/
theorem loadKey_of_stored {m : Model} {drawn : Drawn} {d : Record F} {r : PgRow F}
    (h : storeRow m drawn d = some r) {c : MappedColumn} (hc : c ∈ m.mapped.columns)
    {w : Option (SqlValue F)} (hw : c.stored drawn d = some w) :
    loadKey m r c.name.attrName = c.type.load w := by
  rw [loadKey_of_mem hc, Option.some.inj ((storeRow_eq_some h hc).symm.trans hw)]

/-- A column whose key is read as the dict holds it brings it back. -/
theorem roundTrips_of_loadKey {m : Model} {drawn : Drawn} {d : Record F} {r : PgRow F}
    (h : storeRow m drawn d = some r) {c : MappedColumn} (hc : c ∈ m.mapped.columns)
    (hback : (loadKey m r c.name.attrName).Holds (d.get c.name.attrName)) :
    c.RoundTrips drawn d :=
  ⟨r c.name, storeRow_eq_some h hc, loadKey_of_mem hc r ▸ hback⟩

/-- **A dict comes back the same exactly when each column brings its key back** and no other key
    holds anything. -/
theorem roundTrips_iff {m : Model} {drawn : Drawn} {d : Record F} :
    RoundTrips m drawn d ↔ (∀ c ∈ m.mapped.columns, c.RoundTrips drawn d) ∧
      ∀ k, (∀ c ∈ m.mapped.columns, c.name.attrName ≠ k) → d.get k = .none := by
  refine ⟨fun ⟨r, hr, hback⟩ => ?_, fun ⟨hcols, hrest⟩ => ?_⟩
  · refine ⟨fun c hc => roundTrips_of_loadKey hr hc (hback _), fun k hk => ?_⟩
    have h := hback k
    rw [loadKey_of_not_mem hk] at h
    exact h.symm
  · obtain ⟨r, hr⟩ := exists_storeRow fun c hc => by
      obtain ⟨w, hw, -⟩ := hcols c hc
      rw [hw]
      rfl
    refine ⟨r, hr, fun k => ?_⟩
    by_cases hk : ∃ c ∈ m.mapped.columns, c.name.attrName = k
    · obtain ⟨c, hc, rfl⟩ := hk
      obtain ⟨w, hw, hback⟩ := hcols c hc
      rw [loadKey_of_stored hr hc hw]
      exact hback
    · have hk' : ∀ c ∈ m.mapped.columns, c.name.attrName ≠ k := fun c hc e => hk ⟨c, hc, e⟩
      rw [loadKey_of_not_mem hk', hrest k hk']
      rfl

/-! ## 4. Columns one by one -/

section Columns

variable {c : MappedColumn} {drawn : Drawn} {d : Record F} {t : ColType}

/-- The `payload` of template versions, of ingested rows and of suggestions. -/
def payloadColumn : MappedColumn := Model.fieldDefault .payload .jsonb .emptyDict

/-- The canonical text of a UUID. -/
def IsUuidText (s : String) : Prop := ∃ u : UUID, s = u.text

/-- `VARCHAR(n)` takes the text. -/
def FitsVarchar (n : Nat) (s : String) : Prop := s.length ≤ n ∧ hasNul s = false

theorem stored_of_get? {v : Value F} (hd : d.get? c.name.attrName = some v) (hv : v ≠ .none)
    (ht : c.type = .plain t) : c.stored drawn d = (t.store v).map some := by
  unfold MappedColumn.stored
  rw [given_of_get? hd hv, ht]
  rfl

/-- A column whose stored form of the value is read as the value. -/
theorem roundTrips_of_store {v : Value F} {w : SqlValue F}
    (hd : d.get? c.name.attrName = some v) (hv : v ≠ .none) (ht : c.type = .plain t)
    (hw : t.store v = some w) (hback : ((MappedType.plain t).load (some w)).Holds v) :
    c.RoundTrips drawn d := by
  refine ⟨some w, ?_, ?_⟩
  · rw [stored_of_get? hd hv ht, hw]
    rfl
  · rw [ht, Record.get_of_get? hd]
    exact hback

theorem store_of_roundTrips {v : Value F} (hd : d.get? c.name.attrName = some v) (hv : v ≠ .none)
    (ht : c.type = .plain t) (h : c.RoundTrips drawn d) :
    ∃ w, t.store v = some w ∧ ((MappedType.plain t).load (some w)).Holds v := by
  obtain ⟨w, hw, hback⟩ := h
  rw [stored_of_get? hd hv ht] at hw
  obtain ⟨w', hw', rfl⟩ := Option.map_eq_some_iff.mp hw
  rw [ht, Record.get_of_get? hd] at hback
  exact ⟨w', hw', hback⟩

theorem roundTrips_uuid {s : String} (hd : d.get? c.name.attrName = some (.str s))
    (ht : c.type = .plain .uuid) : c.RoundTrips drawn d ↔ IsUuidText s := by
  refine ⟨fun h => ?_, fun ⟨u, hu⟩ => ?_⟩
  · obtain ⟨w, hw, hback⟩ := store_of_roundTrips hd (by simp) ht h
    obtain ⟨u, -, rfl⟩ := Option.map_eq_some_iff.mp hw
    cases hback
    exact ⟨u, rfl⟩
  · subst hu
    refine roundTrips_of_store hd (by simp) ht (w := .uuid u) ?_ rfl
    rw [ColType.store, UUID.parse_text]
    rfl

/-- Whether the column takes a text does not depend on reading it back. -/
theorem isSome_stored_varchar {s : String} {n : Nat}
    (hd : d.get? c.name.attrName = some (.str s)) (ht : c.type = .plain (.varchar n)) :
    (c.stored drawn d).isSome = true ↔ FitsVarchar n s := by
  rw [stored_of_get? hd (by simp) ht, ColType.store, Option.isSome_map]
  by_cases h : s.length ≤ n ∧ hasNul s = false
  · rw [if_pos h]
    exact iff_of_true rfl h
  · rw [if_neg h]
    exact iff_of_false (by simp) h

theorem roundTrips_varchar {s : String} {n : Nat}
    (hd : d.get? c.name.attrName = some (.str s)) (ht : c.type = .plain (.varchar n)) :
    c.RoundTrips drawn d ↔ FitsVarchar n s := by
  refine ⟨fun ⟨w, hw, _⟩ => (isSome_stored_varchar hd ht).mp (by rw [hw]; rfl), fun h => ?_⟩
  exact roundTrips_of_store hd (by simp) ht (if_pos h) rfl

/-- What JSONB takes comes back. -/
theorem roundTrips_jsonb {v : Value F} (hd : d.get? c.name.attrName = some v) (hv : v ≠ .none)
    (ht : c.type = .plain .jsonb) : c.RoundTrips drawn d ↔ v.isJsonb = true := by
  refine ⟨fun h => ?_, fun h => roundTrips_of_store hd hv ht (if_pos h) rfl⟩
  obtain ⟨w, hw, -⟩ := store_of_roundTrips hd hv ht h
  by_contra hj
  rw [ColType.store, if_neg hj] at hw
  cases hw

/-- A text is no `datetime`: the driver refuses it. -/
theorem stored_timestamp {s : String} (hd : d.get? c.name.attrName = some (.str s))
    (ht : c.type = .plain .timestamptz) : c.stored drawn d = none :=
  stored_of_get? hd (by simp) ht

/-- A column whose key is missing takes its default. -/
theorem stored_default {p : PyDefault} (hd : d.get? c.name.attrName = none)
    (hdef : c.default = some p) : c.stored drawn d = some (some (p.value drawn)) := by
  unfold MappedColumn.stored
  rw [given_of_missing hd, hdef]

/-- A nullable column without a default keeps a missing value missing. -/
theorem roundTrips_missing (hd : c.given d = none) (hget : d.get c.name.attrName = .none)
    (hdef : c.default = none) (hnull : c.nullable = true) : c.RoundTrips drawn d := by
  refine ⟨none, ?_, ?_⟩
  · unfold MappedColumn.stored
    rw [hd, hdef]
    exact if_pos hnull
  · rw [hget]
    rfl

end Columns

end AutomationPlatform
