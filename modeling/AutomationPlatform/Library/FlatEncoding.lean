import AutomationPlatform.Library.Codes

/-!
# Columns written one after another

A record is a name and a list of columns. It is written as the name, a mark, and the columns joined
by a separator, each as its key, a sign and its cell; nothing is quoted or escaped. `Format` holds
the three marks, which keys and cells occur, and the order of the keys. A format is *open* where a
cell may hold the marks (`Format.merge`): then two columns can be read as one.

* `merged`: any columns can be written as at most one column with the same text;
* **`determined_iff`**: which records are told from their text. With two columns or more, none.
-/

namespace FlatEncoding

open Codes

structure Format where
  mark : String
  sep : String
  sign : String
  Key : String → Prop
  Cell : String → Prop
  /-- The order the keys are written in. -/
  Before : String → String → Prop
  sign_ne : sign ≠ ""
  /-- Two cells with a key between them are a cell. -/
  merge : ∀ a k b, Cell a → Key k → Cell b → Cell (a ++ (sep ++ (k ++ (sign ++ b))))

namespace Format

variable (f : Format)

/-- A column as it is written. -/
def column (c : String × String) : String := c.1 ++ (f.sign ++ c.2)

def canonical (cols : List (String × String)) : String := f.sep.intercalate (cols.map f.column)

def payload (s : String) (cols : List (String × String)) : String :=
  s ++ (f.mark ++ f.canonical cols)

/-- The columns of a record. -/
structure Legal (cols : List (String × String)) : Prop where
  ordered : cols.Pairwise fun c d => f.Before c.1 d.1
  parts : ∀ c ∈ cols, f.Key c.1 ∧ f.Cell c.2

/-- A text that no columns or one column have. -/
def Parses (text : String) : Prop :=
  text = "" ∨ ∃ k v, f.Key k ∧ f.Cell v ∧ text = f.column (k, v)

/-- The name ends at no other mark, unless what follows is no column. -/
def OneCut (s : String) (cols : List (String × String)) : Prop :=
  ∀ s' text, s' ++ (f.mark ++ text) = f.payload s cols → s' ≠ s → ¬ f.Parses text

/-- The key ends at no other sign, and the cell is no two cells with a later key between them. -/
def OneColumn (k v : String) : Prop :=
  (∀ k' v', f.column (k', v') = f.column (k, v) → f.Key k' → f.Cell v' → k' = k) ∧
    ∀ a k' b, a ++ (f.sep ++ f.column (k', b)) = v → f.Before k k' → f.Key k' → f.Cell a →
      ¬ f.Cell b

/-- The text is written in one way. -/
def Unambiguous (s : String) : List (String × String) → Prop
  | [] => f.OneCut s []
  | [(k, v)] => f.OneCut s [(k, v)] ∧ f.OneColumn k v
  | _ => False

/-- No other record has the text. -/
def Determined (s : String) (cols : List (String × String)) : Prop :=
  ∀ s' cols', f.Legal cols' → f.payload s' cols' = f.payload s cols → s' = s ∧ cols' = cols

variable {f}

theorem legal_nil : f.Legal [] := ⟨List.Pairwise.nil, fun _ h => absurd h List.not_mem_nil⟩

theorem legal_singleton {k v : String} (hk : f.Key k) (hv : f.Cell v) : f.Legal [(k, v)] :=
  ⟨List.pairwise_singleton _ _, fun c hc => by rw [List.mem_singleton.mp hc]; exact ⟨hk, hv⟩⟩

theorem Legal.tail {c : String × String} {cols : List (String × String)}
    (h : f.Legal (c :: cols)) : f.Legal cols :=
  ⟨(List.pairwise_cons.mp h.ordered).2, fun d hd => h.parts d (List.mem_cons_of_mem _ hd)⟩

theorem column_ne_empty (c : String × String) : f.column c ≠ "" := by
  intro h
  rw [column, String.append_eq_empty_iff, String.append_eq_empty_iff] at h
  exact f.sign_ne h.2.1

theorem canonical_cons_cons (c d : String × String) (cols : List (String × String)) :
    f.canonical (c :: d :: cols) = f.column c ++ (f.sep ++ f.canonical (d :: cols)) := by
  rw [canonical, List.map_cons, List.map_cons, String.intercalate_cons_cons, String.append_assoc]
  rfl

theorem canonical_singleton (c : String × String) : f.canonical [c] = f.column c :=
  String.intercalate_singleton

theorem column_append (k v x : String) : f.column (k, v) ++ x = f.column (k, v ++ x) := by
  rw [column, column, String.append_assoc, String.append_assoc]

theorem column_cancel {k v v' : String} (h : f.column (k, v) = f.column (k, v')) : v = v' :=
  string_append_left_cancel (string_append_left_cancel h)

/-- **Columns read as one**: the first key, and a cell with everything else in it. -/
theorem merged {k v : String} {cols : List (String × String)} (h : f.Legal ((k, v) :: cols)) :
    ∃ w, f.Cell w ∧ f.canonical ((k, v) :: cols) = f.column (k, w) := by
  induction cols generalizing k v with
  | nil => exact ⟨v, (h.parts _ List.mem_cons_self).2, canonical_singleton _⟩
  | cons c cols ih =>
      obtain ⟨l, x⟩ := c
      obtain ⟨w, hw, e⟩ := ih h.tail
      have hv : f.Cell v := (h.parts _ List.mem_cons_self).2
      have hl : f.Key l := (h.tail.parts _ List.mem_cons_self).1
      refine ⟨v ++ (f.sep ++ f.column (l, w)), f.merge v l w hv hl hw, ?_⟩
      rw [canonical_cons_cons, e, column_append]

theorem parses_canonical {cols : List (String × String)} (h : f.Legal cols) :
    f.Parses (f.canonical cols) := by
  cases cols with
  | nil => exact Or.inl String.intercalate_nil
  | cons c cols =>
      obtain ⟨w, hw, e⟩ := merged h
      exact Or.inr ⟨c.1, w, (h.parts _ List.mem_cons_self).1, hw, e⟩

theorem exists_legal_of_parses {text : String} (h : f.Parses text) :
    ∃ cols, f.Legal cols ∧ f.canonical cols = text := by
  rcases h with rfl | ⟨k, v, hk, hv, rfl⟩
  · exact ⟨[], legal_nil, String.intercalate_nil⟩
  · exact ⟨[(k, v)], legal_singleton hk hv, canonical_singleton _⟩

theorem canonical_eq_empty {cols : List (String × String)} (h : f.Legal cols)
    (he : f.canonical cols = "") : cols = [] := by
  cases cols with
  | nil => rfl
  | cons c cols =>
      obtain ⟨w, -, e⟩ := merged h
      exact absurd (e.symm.trans he) (column_ne_empty _)

/-! ## 1. What a determined record is like -/

theorem oneCut_of_determined {s : String} {cols : List (String × String)}
    (h : f.Determined s cols) : f.OneCut s cols := by
  intro s' text e hne hp
  obtain ⟨cols', hlegal, rfl⟩ := exists_legal_of_parses hp
  exact hne (h s' cols' hlegal e).1

theorem oneColumn_of_determined {s k v : String} (hlegal : f.Legal [(k, v)])
    (h : f.Determined s [(k, v)]) : f.OneColumn k v := by
  have hk : f.Key k := (hlegal.parts _ List.mem_cons_self).1
  refine ⟨fun k' v' e hk' hv' => ?_, fun a k' b e hbefore hk' ha hb => ?_⟩
  · have hsame := (h s [(k', v')] (legal_singleton hk' hv') (by
      rw [payload, payload, canonical_singleton, canonical_singleton, e])).2
    exact congrArg Prod.fst (List.cons.inj hsame).1
  · have htwo : f.Legal [(k, a), (k', b)] := by
      refine ⟨List.pairwise_pair.mpr hbefore, fun c hc => ?_⟩
      rcases List.mem_cons.mp hc with rfl | hc
      · exact ⟨hk, ha⟩
      · rw [List.mem_singleton.mp hc]
        exact ⟨hk', hb⟩
    have hsame := (h s _ htwo (by
      rw [payload, payload, canonical_cons_cons, canonical_singleton, canonical_singleton,
        column_append, e])).2
    cases hsame

/-! ## 2. What an unambiguous record is told from -/

theorem determined_of_oneCut {s : String} {cols : List (String × String)} (hcut : f.OneCut s cols)
    (hcols : ∀ cols', f.Legal cols' → f.canonical cols' = f.canonical cols → cols' = cols) :
    f.Determined s cols := by
  intro s' cols' hlegal e
  have hs : s' = s := by
    by_contra hne
    exact hcut s' _ e hne (parses_canonical hlegal)
  subst hs
  exact ⟨rfl, hcols cols' hlegal (string_append_left_cancel (string_append_left_cancel e))⟩

theorem eq_of_oneColumn {k v : String} (h : f.OneColumn k v) {cols : List (String × String)}
    (hlegal : f.Legal cols) (e : f.canonical cols = f.canonical [(k, v)]) : cols = [(k, v)] := by
  rw [canonical_singleton] at e
  match cols with
  | [] => exact absurd e.symm (column_ne_empty _)
  | [(k', v')] =>
      rw [canonical_singleton] at e
      obtain ⟨hk', hv'⟩ := hlegal.parts _ List.mem_cons_self
      have hk := h.1 k' v' e hk' hv'
      subst hk
      rw [column_cancel e]
  | (k', a) :: (l, b) :: rest =>
      -- the second column takes in the rest, then the first takes in the second
      obtain ⟨w, hw, hmerged⟩ := merged hlegal.tail
      obtain ⟨hk', ha⟩ := hlegal.parts _ List.mem_cons_self
      have hl : f.Key l := (hlegal.tail.parts _ List.mem_cons_self).1
      rw [canonical_cons_cons, hmerged, column_append] at e
      have hk := h.1 k' _ e hk' (f.merge a l w ha hl hw)
      subst hk
      have hbefore : f.Before k' l :=
        (List.pairwise_cons.mp hlegal.ordered).1 _ List.mem_cons_self
      exact absurd hw (h.2 a l w (column_cancel e) hbefore hl ha)

/-- **Which records are told from their text.** -/
theorem determined_iff {s : String} {cols : List (String × String)} (hlegal : f.Legal cols) :
    f.Determined s cols ↔ f.Unambiguous s cols := by
  match cols with
  | [] =>
      refine ⟨oneCut_of_determined, fun h => determined_of_oneCut h fun cols' hl e => ?_⟩
      exact canonical_eq_empty hl (e.trans String.intercalate_nil)
  | [(k, v)] =>
      exact ⟨fun h => ⟨oneCut_of_determined h, oneColumn_of_determined hlegal h⟩,
        fun ⟨hcut, hcol⟩ => determined_of_oneCut hcut fun _ hl e => eq_of_oneColumn hcol hl e⟩
  | (k, v) :: d :: rest =>
      refine ⟨fun h => ?_, fun h => h.elim⟩
      obtain ⟨w, hw, e⟩ := merged hlegal
      have hk : f.Key k := (hlegal.parts _ List.mem_cons_self).1
      have hsame := (h s [(k, w)] (legal_singleton hk hw) (by
        rw [payload, payload, e, canonical_singleton])).2
      cases hsame

end Format

end FlatEncoding
