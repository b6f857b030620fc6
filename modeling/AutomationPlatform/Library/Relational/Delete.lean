import AutomationPlatform.Library.Relational.Statement

/-!
# Which DELETEs are accepted, and which rows no statement touches

Two rules about `exec`, for any schema and any state:

* `isPrefix_of_spares` -- a statement that spares every row of a table keeps them all, in place;
  a table whose row trigger raises is spared by every accepted statement (`spares_of_frozen`);
* **`exec_delete`** -- in a well-formed schema and a consistent state, a DELETE that no `RESTRICT`
  reference blocks and no trigger fires on is accepted. What it takes is that cascades end
  (`removed_iff`), that `SET NULL` columns may be `NULL` and that no key is nulled.
-/

namespace Relational

variable {T C Ty V : Type} [DecidableEq T] [DecidableEq V]

/-! ## 1. Rows no statement touches -/

section Spared

variable [DecidableEq C] [ColumnType Ty V] {S : Schema T C Ty} {db db' : Db T C V} {t : T}
variable {st : Stmt T C V}

/-- The statement neither changes nor removes a row of `t`. -/
def Spares (S : Schema T C Ty) (db : Db T C V) (t : T) : Stmt T C V → Prop
  | .insert _ _ => True
  | .update t' cond set => t' = t → ∀ r ∈ db t, cond r = true → set r = r
  | .delete t' cond => ∀ r ∈ db t, touched S db t' cond t r = false

omit [ColumnType Ty V] in
theorem severed_eq_self {t0 : T} {cond : Row C V → Bool} {r : Row C V}
    (h : isSevered S db t0 cond t r = false) : severed S db t0 cond t r = r := by
  funext c
  unfold severed
  split
  · rename_i hc
    obtain ⟨fk, hfk, hc⟩ := List.any_eq_true.mp hc
    simp only [Bool.and_eq_true] at hc
    have := List.any_eq_false.mp h fk hfk
    simp [hc.1.2, hc.2] at this
  · rfl

omit [ColumnType Ty V] in
theorem afterDelete_of_untouched {t0 : T} {cond : Row C V → Bool}
    (h : ∀ r ∈ db t, touched S db t0 cond t r = false) :
    afterDelete S db t0 cond t = db t := by
  have hr : ∀ r ∈ db t, removed S db t0 cond t r = false ∧ isSevered S db t0 cond t r = false :=
    fun r hr => by simpa [touched] using h r hr
  unfold afterDelete
  rw [List.filter_eq_self.mpr fun r hm => by simp [(hr r hm).1]]
  calc (db t).map (severed S db t0 cond t)
      = (db t).map id := List.map_congr_left fun r hm => severed_eq_self (hr r hm).2
    _ = db t := List.map_id _

/-- **A statement that spares a table keeps its rows in place.** -/
theorem isPrefix_of_spares (h : exec S db st = some db') (hs : Spares S db t st) :
    db t <+: db' t := by
  obtain ⟨-, ⟨t', r, rfl, rfl⟩ | ⟨t', cond, set, rfl, -, rfl⟩ | ⟨t', cond, rfl, -, -, rfl⟩⟩ :=
    exec_cases h
  · by_cases ht : t = t'
    · subst ht
      rw [Function.update_self]
      exact List.prefix_append _ _
    · exact ⟨[], by rw [List.append_nil, Function.update_of_ne ht]⟩
  · by_cases ht : t = t'
    · subst ht
      have hid : (db t).map (fun r => if cond r then set r else r) = (db t).map id :=
        List.map_congr_left fun r hr => by
          show (if cond r then set r else r) = r
          split
          · exact hs rfl r hr ‹_›
          · rfl
      exact ⟨[], by rw [List.append_nil, Function.update_self, hid, List.map_id]⟩
    · exact ⟨[], by rw [List.append_nil, Function.update_of_ne ht]⟩
  · exact ⟨[], by rw [List.append_nil, afterDelete_of_untouched hs]⟩

/-- **A raising row trigger spares its table from every accepted statement.** -/
theorem spares_of_frozen (h : exec S db st = some db') (ht : t ∈ S.tables)
    (hf : (S.table t).frozen = true) : Spares S db t st := by
  obtain ⟨-, ⟨t', r, rfl, -⟩ | ⟨t', cond, set, rfl, hg, -⟩ | ⟨t', cond, rfl, -, hg, -⟩⟩ :=
    exec_cases h
  · exact trivial
  · rintro rfl r hr hc
    have hn : (db t').any cond = true := List.any_eq_true.mpr ⟨r, hr, hc⟩
    rw [hf, hn] at hg
    cases hg
  · intro r hr
    have := List.any_eq_false.mp hg t ht
    rw [hf, Bool.true_and] at this
    simpa using List.any_eq_false.mp (by simpa using this) r hr

end Spared

/-! ## 2. Cascades end -/

/-- What makes a DELETE with no obstacle acceptable: cascades descend along `rank`, references stay
    inside the schema, `SET NULL` columns may be `NULL` and no referenced key is one of them. -/
structure Schema.WellFormed (S : Schema T C Ty) (rank : T → Nat) : Prop where
  rank_le : ∀ t ∈ S.tables, rank t ≤ S.tables.length
  target : ∀ t ∈ S.tables, ∀ fk ∈ (S.table t).foreignKeys, fk.target ∈ S.tables
  acts : ∀ t ∈ S.tables, ∀ fk ∈ (S.table t).foreignKeys, fk.onDelete ≠ .noAction
  cascade : ∀ t ∈ S.tables, ∀ fk ∈ (S.table t).foreignKeys, fk.onDelete = .cascade →
    rank fk.target < rank t
  nullable : ∀ t ∈ S.tables, ∀ fk ∈ (S.table t).foreignKeys, fk.onDelete = .setNull →
    ∀ c ∈ (S.table t).columns, c.name = fk.column → c.nullable = true
  key : ∀ t ∈ S.tables, ∀ fk ∈ (S.table t).foreignKeys,
    ∀ fk' ∈ (S.table fk.target).foreignKeys, fk'.onDelete = .setNull → fk'.column ≠ fk.key

section Cascade

variable {S : Schema T C Ty} {rank : T → Nat} (hS : S.WellFormed rank)
variable {db : Db T C V} {t0 : T} {cond : Row C V → Bool}

theorem doomed_mono {n m : Nat} (h : n ≤ m) {t : T} {r : Row C V}
    (hr : doomed S db t0 cond n t r = true) : doomed S db t0 cond m t r = true := by
  induction h with
  | refl => exact hr
  | step _ ih =>
      rw [doomed, ih, Bool.true_or]

include hS in
/-- One more round of cascading removes nothing once as many rounds ran as the table's rank. -/
theorem doomed_succ {n : Nat} {t : T} (ht : t ∈ S.tables) (hn : rank t ≤ n) (r : Row C V) :
    doomed S db t0 cond (n + 1) t r = doomed S db t0 cond n t r := by
  induction n generalizing t r with
  | zero =>
      have hno : ∀ fk ∈ (S.table t).foreignKeys, (fk.onDelete == .cascade) = false := by
        intro fk hfk
        by_contra hc
        have := hS.cascade t ht fk hfk (by simpa using hc)
        omega
      simp only [doomed]
      rw [List.any_eq_false.mpr fun fk hfk => by simp [hno fk hfk]]
      simp
  | succ n ih =>
      rw [doomed, doomed]
      -- the two disjunctions have the same references, by the induction hypothesis at the targets
      have hrefs : ((S.table t).foreignKeys.any fun fk => fk.onDelete == .cascade &&
            (db fk.target).any fun s => references fk r s &&
              doomed S db t0 cond (n + 1) fk.target s) =
          (S.table t).foreignKeys.any fun fk => fk.onDelete == .cascade &&
            (db fk.target).any fun s => references fk r s && doomed S db t0 cond n fk.target s := by
        rw [Bool.eq_iff_iff, List.any_eq_true, List.any_eq_true]
        refine exists_congr fun fk => and_congr_right fun hfk => ?_
        rw [Bool.and_eq_true, Bool.and_eq_true, beq_iff_eq]
        refine and_congr_right fun hc => ?_
        have hlt := hS.cascade t ht fk hfk hc
        have hih : doomed S db t0 cond (n + 1) fk.target = doomed S db t0 cond n fk.target :=
          funext fun s => ih (hS.target t ht fk hfk) (by omega) s
        rw [hih]
      rw [hrefs, Bool.or_assoc, Bool.or_self]

include hS in
/-- **What a DELETE removes**: the rows it names, and those that refer to a removed row through an
    `ON DELETE CASCADE` key. -/
theorem removed_iff {t : T} (ht : t ∈ S.tables) {r : Row C V} :
    removed S db t0 cond t r = true ↔
      (t = t0 ∧ cond r = true) ∨
        ∃ fk ∈ (S.table t).foreignKeys, fk.onDelete = .cascade ∧
          ∃ s ∈ db fk.target, references fk r s = true ∧
            removed S db t0 cond fk.target s = true := by
  have hfix : doomed S db t0 cond (S.tables.length + 1) t r =
      doomed S db t0 cond S.tables.length t r := doomed_succ hS ht (hS.rank_le t ht) r
  refine ⟨?_, ?_⟩
  · -- round by round: a row removed in a round was named, or refers to a row removed earlier
    have hround : ∀ n ≤ S.tables.length, doomed S db t0 cond n t r = true →
        (t = t0 ∧ cond r = true) ∨
          ∃ fk ∈ (S.table t).foreignKeys, fk.onDelete = .cascade ∧
            ∃ s ∈ db fk.target, references fk r s = true ∧
              removed S db t0 cond fk.target s = true := by
      intro n
      induction n with
      | zero => exact fun _ h => Or.inl (by simpa [doomed] using h)
      | succ n ih =>
          intro hn h
          rw [doomed, Bool.or_eq_true] at h
          rcases h with h | h
          · exact ih (by omega) h
          · obtain ⟨fk, hfk, h⟩ := List.any_eq_true.mp h
            rw [Bool.and_eq_true, beq_iff_eq] at h
            obtain ⟨s, hs, h'⟩ := List.any_eq_true.mp h.2
            rw [Bool.and_eq_true] at h'
            exact Or.inr ⟨fk, hfk, h.1, s, hs, h'.1, doomed_mono (by omega) h'.2⟩
    exact hround _ (Nat.le_refl _)
  · rintro (⟨rfl, hc⟩ | ⟨fk, hfk, hc, s, hs, href, hrem⟩)
    · exact doomed_mono (Nat.zero_le _) (by simp [doomed, hc])
    · have hany : doomed S db t0 cond (S.tables.length + 1) t r = true := by
        rw [doomed, Bool.or_eq_true]
        refine Or.inr (List.any_eq_true.mpr ⟨fk, hfk, ?_⟩)
        rw [hc, beq_self_eq_true, Bool.true_and]
        refine List.any_eq_true.mpr ⟨s, hs, ?_⟩
        rw [href, Bool.true_and]
        exact hrem
      rw [hfix] at hany
      exact hany

end Cascade

/-! ## 3. Accepted DELETEs -/

section Accepted

variable [DecidableEq C] {S : Schema T C Ty} {rank : T → Nat} (hS : S.WellFormed rank)
variable {db : Db T C V} {t0 : T} {cond : Row C V → Bool}

/-- A column of a severed row is nulled by a `SET NULL` key or is as it was. -/
theorem severed_cases (S : Schema T C Ty) (db : Db T C V) (t0 : T) (cond : Row C V → Bool)
    (t : T) (r : Row C V) (c : C) :
    (severed S db t0 cond t r c = none ∧ ∃ fk ∈ (S.table t).foreignKeys,
        fk.column = c ∧ fk.onDelete = .setNull ∧ orphaned S db t0 cond fk r = true) ∨
      (severed S db t0 cond t r c = r c ∧ ∀ fk ∈ (S.table t).foreignKeys,
        fk.column = c → fk.onDelete = .setNull → orphaned S db t0 cond fk r = false) := by
  unfold severed
  split
  · rename_i h
    obtain ⟨fk, hfk, h⟩ := List.any_eq_true.mp h
    simp only [Bool.and_eq_true, decide_eq_true_eq, beq_iff_eq] at h
    exact Or.inl ⟨rfl, fk, hfk, h.1.1, h.1.2, h.2⟩
  · rename_i h
    refine Or.inr ⟨rfl, fun fk hfk hc hact => ?_⟩
    have := List.any_eq_false.mp (Bool.not_eq_true _ ▸ h) fk hfk
    simpa [hc, hact] using this

theorem severed_eq_none_or (S : Schema T C Ty) (db : Db T C V) (t0 : T)
    (cond : Row C V → Bool) (t : T) (r : Row C V) (c : C) :
    severed S db t0 cond t r c = none ∨ severed S db t0 cond t r c = r c :=
  (severed_cases S db t0 cond t r c).imp And.left And.left

theorem mem_afterDelete {t : T} {r' : Row C V} :
    r' ∈ afterDelete S db t0 cond t ↔
      ∃ r ∈ db t, removed S db t0 cond t r = false ∧ severed S db t0 cond t r = r' := by
  simp [afterDelete, and_assoc]

omit [DecidableEq C] in
theorem orphaned_iff {fk : ForeignKey T C} {r : Row C V} :
    orphaned S db t0 cond fk r = true ↔
      ∃ s ∈ db fk.target, references fk r s = true ∧ removed S db t0 cond fk.target s = true := by
  simp [orphaned]

/-- Nulling columns creates no equal keys. -/
theorem agreeOn_of_severed {t : T} {cols : List C} {r s : Row C V}
    (h : agreeOn cols (severed S db t0 cond t r) (severed S db t0 cond t s) = true) :
    agreeOn cols r s = true := by
  rw [agreeOn_iff] at h ⊢
  intro c hc
  obtain ⟨hsome, heq⟩ := h c hc
  rcases severed_eq_none_or S db t0 cond t r c with hr | hr
  · rw [hr] at hsome
    cases hsome
  · rcases severed_eq_none_or S db t0 cond t s c with hs | hs
    · rw [heq, hs] at hsome
      cases hsome
    · rw [hr] at hsome
      rw [hr, hs] at heq
      exact ⟨hsome, heq⟩

variable [ColumnType Ty V]

include hS in
/-- A row whose reference was not nulled still refers to a stored row. -/
theorem refersWithin_afterDelete (hdb : Consistent S db) (hb : blocked S db t0 cond = false)
    {t : T} (ht : t ∈ S.tables) {fk : ForeignKey T C} (hfk : fk ∈ (S.table t).foreignKeys)
    {r : Row C V} (hr : r ∈ db t) (hkept : removed S db t0 cond t r = false) :
    refersWithin (afterDelete S db t0 cond) fk (severed S db t0 cond t r) = true := by
  rw [refersWithin_iff]
  rcases severed_cases S db t0 cond t r fk.column with
    ⟨hnull, -⟩ | ⟨hsame, hfree⟩
  · exact Or.inl hnull
  · rw [hsame]
    rcases refersWithin_iff.mp (hdb.refs t ht fk hfk r hr) with hnone | ⟨s, hs, href⟩
    · exact Or.inl hnone
    · -- the row `r` refers to is not removed, whatever its key declares
      have hs' : removed S db t0 cond fk.target s = false := by
        by_contra hrem
        rw [Bool.not_eq_false] at hrem
        have horph : orphaned S db t0 cond fk r = true := orphaned_iff.mpr ⟨s, hs, href, hrem⟩
        cases hact : fk.onDelete with
        | noAction => exact hS.acts t ht fk hfk hact
        | restrict =>
            have hany : blocked S db t0 cond = true :=
              List.any_eq_true.mpr ⟨t, ht, List.any_eq_true.mpr ⟨r, hr,
                List.any_eq_true.mpr ⟨fk, hfk, by rw [hact, horph]; rfl⟩⟩⟩
            rw [hb] at hany
            cases hany
        | cascade =>
            have := (removed_iff hS ht).mpr (Or.inr ⟨fk, hfk, hact, s, hs, href, hrem⟩)
            rw [hkept] at this
            cases this
        | setNull =>
            rw [hfree fk hfk rfl hact] at horph
            cases horph
      refine Or.inr ⟨_, mem_afterDelete.mpr ⟨s, hs, hs', rfl⟩, ?_⟩
      rw [references_iff] at href ⊢
      have hkey : severed S db t0 cond fk.target s fk.key = s fk.key := by
        rcases severed_cases S db t0 cond fk.target s fk.key with
          ⟨-, fk', hfk', hcol, hact, -⟩ | ⟨h, -⟩
        · exact absurd hcol (hS.key t ht fk hfk fk' hfk' hact)
        · exact h
      rw [hsame, hkey]
      exact href

include hS in
/-- **A DELETE that nothing blocks keeps the constraints.** -/
theorem consistent_afterDelete (hdb : Consistent S db) (hb : blocked S db t0 cond = false) :
    Consistent S (afterDelete S db t0 cond) where
  rows t ht r' hr' := by
    obtain ⟨r, hr, -, rfl⟩ := mem_afterDelete.mp hr'
    refine List.all_eq_true.mpr fun c hc => ?_
    have hadm := List.all_eq_true.mp (hdb.rows t ht r hr) c hc
    rcases severed_cases S db t0 cond t r c.name with
      ⟨hnull, fk, hfk, hcol, hact, -⟩ | ⟨hsame, -⟩
    · rw [hnull]
      exact hS.nullable t ht fk hfk hact c hc hcol.symm
    · rw [hsame]
      exact hadm
  keys t ht cols hcols := by
    refine List.pairwise_map.mpr (List.Pairwise.imp ?_ ((hdb.keys t ht cols hcols).filter _))
    intro r s hrs
    by_contra h
    rw [Bool.not_eq_false] at h
    rw [agreeOn_of_severed h] at hrs
    cases hrs
  refs t ht fk hfk r' hr' := by
    obtain ⟨r, hr, hkept, rfl⟩ := mem_afterDelete.mp hr'
    exact refersWithin_afterDelete hS hdb hb ht hfk hr hkept

include hS in
/-- **A DELETE is accepted when nothing blocks it and no trigger fires**, and then does exactly what
    the foreign keys declare. -/
theorem exec_delete (hdb : Consistent S db) (ht0 : t0 ∈ S.tables)
    (hb : blocked S db t0 cond = false) (hf : fires S db t0 cond = false) :
    exec S db (.delete t0 cond) = some (afterDelete S db t0 cond) := by
  rw [exec, if_pos ⟨ht0, hb, hf⟩, commit, if_pos (consistent_afterDelete hS hdb hb)]

end Accepted

end Relational
