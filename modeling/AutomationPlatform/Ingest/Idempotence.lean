import AutomationPlatform.Database.SchemaDef
import AutomationPlatform.Orchestrator.Ingest
import AutomationPlatform.Python.Ascii

/-!
# Ingesting the same row twice

`ingested_rows` as each of the three definitions creates it, filled by workers: a call of `ingest`
queues the records it returns, and a worker inserts the records of its queue one at a time, between
the inserts of the others. An insert is skipped when a key of the table rejects it. The two ghost
lists hold what was given to `ingest` and what was inserted so far.

* `rejects_iff`: both migrations reject a stored `(source_id, source_row_hash)`; the table of
  `create_all`, whose class declares no constraint, rejects nothing;
* `accounted_after`: in every reachable state what is stored is what was inserted, and what was
  given is inserted or queued, whichever definition made the table;
* **`ingestion_idempotent_iff`**: no pair is stored twice exactly when a migration made the table or
  no insert of the run repeats a pair.
-/

namespace AutomationPlatform

open Python Relational Runs

def SchemaDef.ingestedRows (d : SchemaDef) : PgTable := d.schema.table .ingestedRows

/-- The column the row itself goes to. -/
def SchemaDef.payloadColumn : SchemaDef → ColumnName
  | .alembicMigration => .rawPayload
  | _ => .payload

/-- The keys the three definitions declare. -/
theorem ingestedRows_keys (d : SchemaDef) :
    d.ingestedRows.keys = if d = .createAll then [[.id]]
      else [[.id], [.sourceId, .sourceRowHash]] := by
  cases d <;> rfl

/-- `(source_id, source_row_hash)`. -/
abbrev IngestKey := Option String × Option String

section

variable {F : Type}

/-! ## 1. What an insert offers -/

/-- The row an insert of the record offers. -/
def offered (d : SchemaDef) (u : UUID) (rec : Record F) : PgRow F
  | .id => some (.uuid u)
  | .sourceId => (recordKey rec).1.map .text
  | .sourceRowHash => (recordKey rec).2.map .text
  | c => if c = d.payloadColumn then some (.json rec.toValue) else none

def textIn : Option (SqlValue F) → Option String
  | some (.text s) => some s
  | _ => none

/-- The pair of a stored row. -/
def rowKey (r : PgRow F) : IngestKey := (textIn (r .sourceId), textIn (r .sourceRowHash))

/-- Both parts of the pair are there. -/
def HasKey (rec : Record F) : Prop := ∃ s h, recordKey rec = (some s, some h)

theorem textIn_eq_some_iff {v : Option (SqlValue F)} {s : String} :
    textIn v = some s ↔ v = some (.text s) := by
  unfold textIn
  split
  · simp
  · rename_i h
    exact ⟨fun e => (by cases e), fun e => absurd e (h s)⟩

theorem rowKey_offered (d : SchemaDef) (u : UUID) (rec : Record F) :
    rowKey (offered d u rec) = recordKey rec := by
  have hread : ∀ o : Option String, textIn (o.map SqlValue.text : Option (SqlValue F)) = o := by
    intro o
    cases o <;> rfl
  exact Prod.ext (hread _) (hread _)

variable [DecidableEq F]

/-- A uniqueness constraint of the table rejects the row. -/
def rejects (d : SchemaDef) (stored : List (PgRow F)) (r : PgRow F) : Bool :=
  d.ingestedRows.keys.any fun cols => stored.any fun s => agreeOn cols s r

theorem agreeOn_sourceHash {d : SchemaDef} {u : UUID} {rec : Record F} (hrec : HasKey rec)
    (r : PgRow F) :
    agreeOn [.sourceId, .sourceRowHash] r (offered d u rec) = true ↔ rowKey r = recordKey rec := by
  obtain ⟨s, h, hkey⟩ := hrec
  have hsource : offered d u rec .sourceId = some (.text s) := by
    show (recordKey rec).1.map SqlValue.text = _
    rw [hkey]
    rfl
  have hhash : offered d u rec .sourceRowHash = some (.text h) := by
    show (recordKey rec).2.map SqlValue.text = _
    rw [hkey]
    rfl
  rw [agreeOn_iff, hkey, rowKey, Prod.mk.injEq, textIn_eq_some_iff, textIn_eq_some_iff]
  refine ⟨fun hall => ?_, fun ⟨h1, h2⟩ c hc => ?_⟩
  · exact ⟨(hall _ (by decide)).2.trans hsource, (hall _ (by decide)).2.trans hhash⟩
  · rcases List.mem_cons.mp hc with rfl | hc
    · rw [h1, hsource]
      exact ⟨rfl, rfl⟩
    · rw [List.mem_singleton.mp hc, h2, hhash]
      exact ⟨rfl, rfl⟩

/-- **What the constraints of each definition reject**: with a new id, a stored pair, unless
    `create_all` made the table. -/
theorem rejects_iff {d : SchemaDef} {stored : List (PgRow F)} {u : UUID} {rec : Record F}
    (hid : ¬ ∃ r ∈ stored, r .id = some (.uuid u)) (hrec : HasKey rec) :
    rejects d stored (offered d u rec) = true ↔
      d ≠ .createAll ∧ recordKey rec ∈ stored.map rowKey := by
  have hpk : (stored.any fun s => agreeOn [.id] s (offered d u rec)) = false := by
    rw [List.any_eq_false]
    intro r hr h
    exact hid ⟨r, hr, ((agreeOn_iff.mp h) _ (List.mem_singleton_self _)).2⟩
  have hpair : (stored.any fun s =>
      agreeOn [.sourceId, .sourceRowHash] s (offered d u rec)) = true ↔
        recordKey rec ∈ stored.map rowKey := by
    rw [List.any_eq_true, List.mem_map]
    exact exists_congr fun r => and_congr_right fun _ => agreeOn_sourceHash hrec r
  unfold rejects
  rw [ingestedRows_keys]
  by_cases hd : d = .createAll
  · rw [if_pos hd, List.any_cons, hpk, List.any_nil]
    exact ⟨fun h => (by cases h), fun h => absurd hd h.1⟩
  · rw [if_neg hd, List.any_cons, hpk, List.any_cons, List.any_nil, Bool.false_or, Bool.or_false,
      hpair]
    exact ⟨fun h => ⟨hd, h⟩, fun h => h.2⟩

/-! ## 2. The workers -/

/-- The table, the queues of the workers, and the pairs given and inserted so far. -/
structure Ingestion (F : Type) where
  stored : List (PgRow F)
  pending : Nat → List (Record F)
  given : List IngestKey
  inserted : List IngestKey

def Ingestion.start : Ingestion F := ⟨[], fun _ => [], [], []⟩

/-- The next record of the queue; `uuid4()` draws no id that is taken. -/
def Ingestion.taken (st : Ingestion F) (worker : Nat) (u : UUID) : Option (Record F) :=
  if ∃ r ∈ st.stored, r .id = some (.uuid u) then none else (st.pending worker).head?

inductive IngestionAction (F : Type) where
  | call (worker : Nat) (sourceId : String) (rows : List (Record F))
  | insert (worker : Nat) (u : UUID)

/-- The state once the worker has inserted `rec`, the first record of its queue. -/
def Ingestion.insertRecord (d : SchemaDef) (st : Ingestion F) (worker : Nat) (u : UUID)
    (rec : Record F) : Ingestion F where
  stored := if rejects d st.stored (offered d u rec) then st.stored
    else st.stored ++ [offered d u rec]
  pending := Function.update st.pending worker (st.pending worker).tail
  given := st.given
  inserted := st.inserted ++ [recordKey rec]

variable [UnicodeData] [PyFloat F]

/-- The state once the worker has called `ingest`. -/
def Ingestion.callIngest (digest : String → String) (st : Ingestion F) (worker : Nat)
    (sourceId : String) (rows : List (Record F)) : Ingestion F where
  stored := st.stored
  pending := Function.update st.pending worker
    (st.pending worker ++ ingest digest sourceId rows)
  given := st.given ++ rows.map fun raw => (some sourceId, some (rowHash digest sourceId raw))
  inserted := st.inserted

def ingestionStep (d : SchemaDef) (digest : String → String) (st : Ingestion F) :
    IngestionAction F → Ingestion F
  | .call w s rows => st.callIngest digest w s rows
  | .insert w u =>
    match st.taken w u with
    | some rec => st.insertRecord d w u rec
    | none => st

/-- The state the actions lead to from an empty table. -/
def ingestionAfter (d : SchemaDef) (digest : String → String) (acts : List (IngestionAction F)) :
    Ingestion F :=
  run (ingestionStep d digest) Ingestion.start acts

/-- **Idempotent ingestion**: no pair is stored twice, the stored pairs are the inserted ones, and
    what was given to `ingest` is inserted or still queued. -/
structure Idempotent (st : Ingestion F) : Prop where
  distinct : (st.stored.map rowKey).Nodup
  stored_iff : ∀ p, p ∈ st.stored.map rowKey ↔ p ∈ st.inserted
  given_iff : ∀ p, p ∈ st.given ↔ p ∈ st.inserted ∨ ∃ w, p ∈ (st.pending w).map recordKey

/-- The action inserts no pair that was inserted before. -/
def FirstImport (st : Ingestion F) : IngestionAction F → Prop
  | .call .. => True
  | .insert w u => ∀ rec, st.taken w u = some rec → recordKey rec ∉ st.inserted

omit [UnicodeData] [PyFloat F] in
theorem taken_eq_some {st : Ingestion F} {w : Nat} {u : UUID} {rec : Record F}
    (h : st.taken w u = some rec) : (¬ ∃ r ∈ st.stored, r .id = some (.uuid u)) ∧
      st.pending w = rec :: (st.pending w).tail := by
  unfold Ingestion.taken at h
  split at h
  · cases h
  · rename_i hid
    exact ⟨hid, (List.cons_head?_tail h).symm⟩

/-- **One case per action**: a call, an insert that finds nothing to insert, an insert. -/
theorem ingestionStep_cases (d : SchemaDef) (digest : String → String) (st : Ingestion F)
    (a : IngestionAction F) :
    (∃ w s rows, a = .call w s rows ∧ ingestionStep d digest st a = st.callIngest digest w s rows) ∨
      (∃ w u, a = .insert w u ∧ st.taken w u = none ∧ ingestionStep d digest st a = st) ∨
      (∃ w u rec, a = .insert w u ∧ st.taken w u = some rec ∧
        ingestionStep d digest st a = st.insertRecord d w u rec) := by
  cases a with
  | call w s rows => exact Or.inl ⟨w, s, rows, rfl, rfl⟩
  | insert w u =>
      cases h : st.taken w u with
      | none => exact Or.inr (Or.inl ⟨w, u, rfl, h, by rw [ingestionStep, h]⟩)
      | some rec => exact Or.inr (Or.inr ⟨w, u, rec, rfl, h, by rw [ingestionStep, h]⟩)

/-! ## 3. Nothing is lost -/

omit [UnicodeData] [PyFloat F] [DecidableEq F] in
/-- What is queued once a queue was replaced. -/
theorem queued_update_iff (q : Nat → List (Record F)) (w : Nat) (l : List (Record F))
    (p : IngestKey) : (∃ w', p ∈ (Function.update q w l w').map recordKey) ↔
      p ∈ l.map recordKey ∨ ∃ w', w' ≠ w ∧ p ∈ (q w').map recordKey := by
  refine ⟨fun ⟨w', hp⟩ => ?_, fun hp => ?_⟩
  · by_cases hw : w' = w
    · subst hw
      rw [Function.update_self] at hp
      exact Or.inl hp
    · rw [Function.update_of_ne hw] at hp
      exact Or.inr ⟨w', hw, hp⟩
  · rcases hp with hp | ⟨w', hw, hp⟩
    · exact ⟨w, by rw [Function.update_self]; exact hp⟩
    · exact ⟨w', by rw [Function.update_of_ne hw]; exact hp⟩

omit [UnicodeData] [PyFloat F] [DecidableEq F] in
theorem queued_iff (q : Nat → List (Record F)) (w : Nat) (p : IngestKey) :
    (∃ w', p ∈ (q w').map recordKey) ↔
      p ∈ (q w).map recordKey ∨ ∃ w', w' ≠ w ∧ p ∈ (q w').map recordKey := by
  have h := queued_update_iff q w (q w) p
  rwa [Function.update_eq_self] at h

/-- What holds of every reachable state, whichever definition made the table. -/
structure Accounted (st : Ingestion F) : Prop where
  keyed : ∀ w, ∀ rec ∈ st.pending w, HasKey rec
  stored_iff : ∀ p, p ∈ st.stored.map rowKey ↔ p ∈ st.inserted
  given_iff : ∀ p, p ∈ st.given ↔ p ∈ st.inserted ∨ ∃ w, p ∈ (st.pending w).map recordKey

omit [UnicodeData] [PyFloat F] [DecidableEq F] in
theorem accounted_start : Accounted (Ingestion.start : Ingestion F) where
  keyed _ _ h := absurd h List.not_mem_nil
  stored_iff _ := Iff.rfl
  given_iff _ := by simp [Ingestion.start]

omit [UnicodeData] [PyFloat F] [DecidableEq F] in
/-- Replacing a queue keeps the pairs of the records when the new ones have theirs. -/
theorem keyed_update {q : Nat → List (Record F)} (h : ∀ w, ∀ rec ∈ q w, HasKey rec) {w : Nat}
    {l : List (Record F)} (hl : ∀ rec ∈ l, HasKey rec) :
    ∀ w', ∀ rec ∈ Function.update q w l w', HasKey rec := by
  intro w' rec hrec
  by_cases hw : w' = w
  · subst hw
    rw [Function.update_self] at hrec
    exact hl rec hrec
  · rw [Function.update_of_ne hw] at hrec
    exact h w' rec hrec

omit [DecidableEq F] in
theorem hasKey_of_mem_ingest {digest : String → String} {s : String} {rows : List (Record F)}
    {rec : Record F} (h : rec ∈ ingest digest s rows) : HasKey rec := by
  have hkey := mem_ingestKeys_iff.mp (List.mem_map_of_mem (f := recordKey) h)
  obtain ⟨raw, -, e⟩ := List.mem_map.mp hkey
  exact ⟨s, rowHash digest s raw, e.symm⟩

omit [DecidableEq F] in
theorem accounted_call {st : Ingestion F} (h : Accounted st) (digest : String → String) (w : Nat)
    (s : String) (rows : List (Record F)) : Accounted (st.callIngest digest w s rows) where
  keyed := keyed_update h.keyed fun rec hrec =>
    (List.mem_append.mp hrec).elim (h.keyed w rec) hasKey_of_mem_ingest
  stored_iff := h.stored_iff
  given_iff p := by
    have hqueue : (∃ w', p ∈ ((st.callIngest digest w s rows).pending w').map recordKey) ↔
        (∃ w', p ∈ (st.pending w').map recordKey) ∨
          p ∈ (ingest digest s rows).map recordKey := by
      rw [Ingestion.callIngest, queued_update_iff, queued_iff st.pending w, List.map_append,
        List.mem_append, or_right_comm]
    show p ∈ st.given ++ _ ↔ p ∈ st.inserted ∨ _
    rw [List.mem_append, h.given_iff p, hqueue, or_assoc, mem_ingestKeys_iff]

omit [UnicodeData] [PyFloat F] in
theorem accounted_insert {d : SchemaDef} {st : Ingestion F} (h : Accounted st) {w : Nat} {u : UUID}
    {rec : Record F} (ht : st.taken w u = some rec) : Accounted (st.insertRecord d w u rec) := by
  obtain ⟨hid, hpending⟩ := taken_eq_some ht
  have hrec : HasKey rec := h.keyed w rec (by rw [hpending]; exact List.mem_cons_self)
  refine ⟨keyed_update h.keyed fun rec' hrec' => h.keyed w rec' (List.mem_of_mem_tail hrec'),
    fun p => ?_, fun p => ?_⟩
  · show p ∈ (if _ then st.stored else _).map rowKey ↔ p ∈ st.inserted ++ [recordKey rec]
    rw [List.mem_append, List.mem_singleton, ← h.stored_iff p]
    split
    · -- a skipped insert: its pair is stored already
      rename_i hrej
      have hin := ((rejects_iff hid hrec).mp hrej).2
      exact ⟨Or.inl, fun hp => hp.elim (fun hp => hp) fun e => e ▸ hin⟩
    · rw [List.map_append, List.mem_append, List.map_singleton, List.mem_singleton, rowKey_offered]
  · have hqueue : (∃ w', p ∈ (st.pending w').map recordKey) ↔ p = recordKey rec ∨
        ∃ w', p ∈ ((st.insertRecord d w u rec).pending w').map recordKey := by
      rw [Ingestion.insertRecord, queued_update_iff, queued_iff st.pending w, hpending,
        List.map_cons, List.mem_cons, List.tail_cons, or_assoc]
    show p ∈ st.given ↔ p ∈ st.inserted ++ [recordKey rec] ∨ _
    rw [h.given_iff p, hqueue, List.mem_append, List.mem_singleton, or_assoc]

theorem accounted_step (d : SchemaDef) (digest : String → String) (st : Ingestion F)
    (a : IngestionAction F) (h : Accounted st) : Accounted (ingestionStep d digest st a) := by
  rcases ingestionStep_cases d digest st a with
    ⟨w, s, rows, -, e⟩ | ⟨w, u, -, -, e⟩ | ⟨w, u, rec, -, ht, e⟩
  · rw [e]
    exact accounted_call h digest w s rows
  · rw [e]
    exact h
  · rw [e]
    exact accounted_insert h ht

/-- **Nothing is lost and nothing appears**, whichever definition made the table. -/
theorem accounted_after (d : SchemaDef) (digest : String → String)
    (acts : List (IngestionAction F)) : Accounted (ingestionAfter d digest acts) :=
  run_invariant (accounted_step d digest) accounted_start acts

/-! ## 4. Nothing is stored twice -/

/-- With the unique constraint, from any state without duplicates. -/
theorem distinct_step {d : SchemaDef} (hd : d ≠ .createAll) (digest : String → String)
    (st : Ingestion F) (a : IngestionAction F)
    (h : Accounted st ∧ (st.stored.map rowKey).Nodup) :
    Accounted (ingestionStep d digest st a) ∧
      ((ingestionStep d digest st a).stored.map rowKey).Nodup := by
  refine ⟨accounted_step d digest st a h.1, ?_⟩
  rcases ingestionStep_cases d digest st a with
    ⟨w, s, rows, -, e⟩ | ⟨w, u, -, -, e⟩ | ⟨w, u, rec, -, ht, e⟩
  · rw [e]
    exact h.2
  · rw [e]
    exact h.2
  · rw [e]
    obtain ⟨hid, hpending⟩ := taken_eq_some ht
    have hrec : HasKey rec := h.1.keyed w rec (by rw [hpending]; exact List.mem_cons_self)
    show ((if _ then st.stored else _).map rowKey).Nodup
    split
    · exact h.2
    · rename_i hrej
      rw [rejects_iff hid hrec, not_and] at hrej
      rw [List.map_append, List.map_singleton, rowKey_offered]
      exact List.nodup_append.mpr ⟨h.2, List.nodup_singleton _, fun p hp q hq e =>
        hrej hd (List.mem_singleton.mp hq ▸ e ▸ hp)⟩

/-- Without it every insert stores its pair. -/
theorem stored_eq_inserted (digest : String → String) (acts : List (IngestionAction F)) :
    (ingestionAfter .createAll digest acts).stored.map rowKey =
      (ingestionAfter .createAll digest acts).inserted := by
  refine (run_invariant (I := fun st : Ingestion F => Accounted st ∧
    st.stored.map rowKey = st.inserted) (fun st a h => ?_) ⟨accounted_start, rfl⟩ acts).2
  refine ⟨accounted_step .createAll digest st a h.1, ?_⟩
  rcases ingestionStep_cases .createAll digest st a with
    ⟨w, s, rows, -, e⟩ | ⟨w, u, -, -, e⟩ | ⟨w, u, rec, -, ht, e⟩
  · rw [e]
    exact h.2
  · rw [e]
    exact h.2
  · rw [e]
    obtain ⟨hid, hpending⟩ := taken_eq_some ht
    have hrec : HasKey rec := h.1.keyed w rec (by rw [hpending]; exact List.mem_cons_self)
    show (if _ then st.stored else _).map rowKey = st.inserted ++ [recordKey rec]
    rw [if_neg fun hrej => ((rejects_iff hid hrec).mp hrej).1 rfl, List.map_append, h.2,
      List.map_singleton, rowKey_offered]

/-- The pairs inserted are distinct when each insert was the first of its pair. -/
theorem inserted_nodup_iff (d : SchemaDef) (digest : String → String)
    (acts : List (IngestionAction F)) : (ingestionAfter d digest acts).inserted.Nodup ↔
      Meets (ingestionStep d digest) FirstImport Ingestion.start acts := by
  unfold ingestionAfter
  induction acts using List.reverseRec with
  | nil => exact ⟨fun _ => trivial, fun _ => List.nodup_nil⟩
  | append_singleton acts a ih =>
      rw [meets_append, ← ih, run_append_singleton]
      generalize run (ingestionStep d digest) Ingestion.start acts = st
      rcases ingestionStep_cases d digest st a with
        ⟨w, s, rows, rfl, e⟩ | ⟨w, u, rfl, ht, e⟩ | ⟨w, u, rec, rfl, ht, e⟩
      · rw [e]
        exact ⟨fun h => ⟨h, trivial, trivial⟩, fun h => h.1⟩
      · rw [e]
        refine ⟨fun h => ⟨h, fun rec hrec => ?_, trivial⟩, fun h => h.1⟩
        rw [ht] at hrec
        cases hrec
      · rw [e]
        show (st.inserted ++ [recordKey rec]).Nodup ↔ _
        rw [List.nodup_append]
        refine ⟨fun ⟨hnd, _, hnew⟩ => ?_, fun ⟨hnd, hnew, _⟩ => ?_⟩
        · refine ⟨hnd, fun rec' hrec' hin => ?_, trivial⟩
          rw [ht] at hrec'
          rw [← Option.some.inj hrec'] at hin
          exact hnew _ hin _ (List.mem_singleton_self _) rfl
        · exact ⟨hnd, List.nodup_singleton _, fun p hp q hq e =>
            hnew rec ht (List.mem_singleton.mp hq ▸ e ▸ hp)⟩

/-- **Ingestion is idempotent** exactly when the table has the unique constraint, or the run does
    without it because no insert repeats a pair. -/
theorem ingestion_idempotent_iff (d : SchemaDef) (digest : String → String)
    (acts : List (IngestionAction F)) : Idempotent (ingestionAfter d digest acts) ↔
      d ≠ .createAll ∨ Meets (ingestionStep d digest) FirstImport Ingestion.start acts := by
  have hacc := accounted_after d digest acts
  have hdistinct : Idempotent (ingestionAfter d digest acts) ↔
      ((ingestionAfter d digest acts).stored.map rowKey).Nodup :=
    ⟨fun h => h.distinct, fun h => ⟨h, hacc.stored_iff, hacc.given_iff⟩⟩
  rw [hdistinct]
  by_cases hd : d = .createAll
  · subst hd
    rw [stored_eq_inserted, inserted_nodup_iff]
    exact ⟨Or.inr, fun h => h.resolve_left fun hne => hne rfl⟩
  · refine ⟨fun _ => Or.inl hd, fun _ => ?_⟩
    exact (run_invariant (distinct_step hd digest) ⟨accounted_start, List.nodup_nil⟩ acts).2

end

/-! ## 5. A batch imported twice -/

section

open Python.Ascii

/-- One row, twice, on the table of `create_all`. -/
def retriedImport : List (IngestionAction Ascii.Float) :=
  [.call 0 "crm" [Dict.ofList [("Name", .str "Ann")]], .insert 0 (UUID.repeated 1),
    .call 0 "crm" [Dict.ofList [("Name", .str "Ann")]], .insert 0 (UUID.repeated 2)]

theorem not_idempotent_retriedImport : ¬ ∀ (d : SchemaDef) (digest : String → String)
    (acts : List (IngestionAction Ascii.Float)), Idempotent (ingestionAfter d digest acts) := by
  intro h
  have hdup : ¬ ((ingestionAfter .createAll id retriedImport).stored.map rowKey).Nodup := by
    decide +kernel
  exact hdup (h .createAll _ retriedImport).distinct

end

end AutomationPlatform
