import AutomationPlatform.Python.Repr
import Mathlib.Logic.Relation

/-!
# The order of the members of nested dicts

`Swap v w`: two neighbouring members of one dict inside `v` have changed places. What differs only
in the order of members, at any depth, is a chain of such swaps (`Reordered`).

* `isRigid`: every dict inside the value has at most one member; nothing can be swapped in such a
  value (`Swap.not_rigid`);
* `reordered_of_perm`: a chain of swaps leads to every order of the members of a dict;
* **`exists_swap`**: every other value has a swap that `repr` shows.
-/

namespace Python

open Codes

variable {F : Type}

/-- Two neighbouring members of a dict inside the value change places. -/
inductive Swap : Value F → Value F → Prop
  | here (pre : List (String × Value F)) (m n : String × Value F) (post : List (String × Value F)) :
      Swap (.dict (pre ++ m :: n :: post)) (.dict (pre ++ n :: m :: post))
  | inList (pre post : List (Value F)) {x y : Value F} (h : Swap x y) :
      Swap (.list (pre ++ x :: post)) (.list (pre ++ y :: post))
  | inDict (pre post : List (String × Value F)) (k : String) {x y : Value F} (h : Swap x y) :
      Swap (.dict (pre ++ (k, x) :: post)) (.dict (pre ++ (k, y) :: post))

mutual
/-- No dict inside the value has two members. -/
def isRigid : Value F → Bool
  | .list xs => isRigidAll xs
  | .dict ms => decide (ms.length ≤ 1) && isRigidMembers ms
  | _ => true

def isRigidAll : List (Value F) → Bool
  | [] => true
  | x :: xs => isRigid x && isRigidAll xs

def isRigidMembers : List (String × Value F) → Bool
  | [] => true
  | (_, x) :: ms => isRigid x && isRigidMembers ms
end

/-! ## 1. Element by element -/

theorem isRigidAll_eq (xs : List (Value F)) : isRigidAll xs = xs.all isRigid := by
  induction xs with
  | nil => rfl
  | cons x xs ih => rw [isRigidAll, ih, List.all_cons]

theorem isRigidMembers_eq (ms : List (String × Value F)) :
    isRigidMembers ms = ms.all fun m => isRigid m.2 := by
  induction ms with
  | nil => rfl
  | cons m ms ih => rw [isRigidMembers, ih, List.all_cons]

theorem wellFormedAll_iff {xs : List (Value F)} :
    Value.WellFormedAll xs ↔ ∀ x ∈ xs, x.WellFormed := by
  induction xs with
  | nil => simp [Value.WellFormedAll]
  | cons x xs ih => rw [Value.WellFormedAll, ih, List.forall_mem_cons]

theorem wellFormedMembers_iff {ms : List (String × Value F)} :
    Value.WellFormedMembers ms ↔ ∀ m ∈ ms, m.2.WellFormed := by
  induction ms with
  | nil => simp [Value.WellFormedMembers]
  | cons m ms ih => rw [Value.WellFormedMembers, ih, List.forall_mem_cons]

theorem wellFormed_list_iff {xs : List (Value F)} :
    (Value.list xs).WellFormed ↔ ∀ x ∈ xs, x.WellFormed := by
  rw [Value.WellFormed, wellFormedAll_iff]

theorem wellFormed_dict_iff {ms : List (String × Value F)} :
    (Value.dict ms).WellFormed ↔ (ms.map Prod.fst).Nodup ∧ ∀ m ∈ ms, m.2.WellFormed := by
  rw [Value.WellFormed, wellFormedMembers_iff]

/-! ## 2. What a swap keeps -/

theorem Swap.wellFormed {v w : Value F} (h : Swap v w) (hv : v.WellFormed) : w.WellFormed := by
  induction h with
  | here pre m n post =>
      rw [wellFormed_dict_iff] at hv ⊢
      have hperm : (pre ++ n :: m :: post).Perm (pre ++ m :: n :: post) :=
        (List.Perm.swap m n post).append_left pre
      exact ⟨(hperm.map Prod.fst).nodup_iff.mpr hv.1, fun p hp => hv.2 p (hperm.mem_iff.mp hp)⟩
  | inList pre post _ ih =>
      rw [wellFormed_list_iff, List.forall_mem_append, List.forall_mem_cons] at hv ⊢
      exact ⟨hv.1, ih hv.2.1, hv.2.2⟩
  | inDict pre post k _ ih =>
      rw [wellFormed_dict_iff, List.forall_mem_append, List.forall_mem_cons] at hv ⊢
      rw [List.map_append, List.map_cons] at hv ⊢
      exact ⟨hv.1, hv.2.1, ih hv.2.2.1, hv.2.2.2⟩

theorem Swap.not_rigid {v w : Value F} (h : Swap v w) : isRigid v = false := by
  induction h with
  | here pre m n post =>
      have hlen : ¬ (pre ++ m :: n :: post).length ≤ 1 := by
        rw [List.length_append, List.length_cons, List.length_cons]
        omega
      rw [isRigid, decide_eq_false hlen, Bool.false_and]
  | inList pre post _ ih =>
      rw [isRigid, isRigidAll_eq, List.all_append, List.all_cons, ih, Bool.false_and,
        Bool.and_false]
  | inDict pre post k _ ih =>
      rw [isRigid, isRigidMembers_eq, List.all_append, List.all_cons, ih, Bool.false_and,
        Bool.and_false, Bool.and_false]

/-- A swap inside a dict leaves a dict with the same keys, in some order. -/
theorem Swap.dict_cases {ms : List (String × Value F)} {w : Value F} (h : Swap (.dict ms) w) :
    ∃ ns, w = .dict ns ∧ (ns.Perm ms ∨ ∃ m ∈ ms, isRigid m.2 = false) := by
  cases h with
  | here pre m n post => exact ⟨_, rfl, Or.inl ((List.Perm.swap m n post).append_left pre)⟩
  | inDict pre post k h =>
      exact ⟨_, rfl, Or.inr ⟨_, List.mem_append_right _ List.mem_cons_self, h.not_rigid⟩⟩

/-! ## 3. Chains of swaps -/

/-- The same value but for the order of members, at any depth. -/
def Reordered (v w : Value F) : Prop := Relation.ReflTransGen Swap v w

theorem Swap.cons {ms : List (String × Value F)} {w : Value F} (h : Swap (.dict ms) w)
    (m : String × Value F) : ∃ ns, w = .dict ns ∧ Swap (.dict (m :: ms)) (.dict (m :: ns)) := by
  cases h with
  | here pre a b post => exact ⟨_, rfl, .here (m :: pre) a b post⟩
  | inDict pre post k h => exact ⟨_, rfl, .inDict (m :: pre) post k h⟩

theorem Reordered.cons {ms : List (String × Value F)} {w : Value F} (h : Reordered (.dict ms) w)
    (m : String × Value F) :
    ∃ ns, w = .dict ns ∧ Reordered (.dict (m :: ms)) (.dict (m :: ns)) := by
  induction h with
  | refl => exact ⟨ms, rfl, Relation.ReflTransGen.refl⟩
  | tail _ hs ih =>
      obtain ⟨ls, rfl, hls⟩ := ih
      obtain ⟨ns, e, hns⟩ := hs.cons m
      exact ⟨ns, e, hls.tail hns⟩

/-- **Every permutation of the members is a chain of swaps.** -/
theorem reordered_of_perm {ms ns : List (String × Value F)} (h : ms.Perm ns) :
    Reordered (.dict ms) (.dict ns) := by
  induction h with
  | nil => exact Relation.ReflTransGen.refl
  | cons m _ ih =>
      obtain ⟨ns, e, hns⟩ := Reordered.cons ih m
      rw [Value.dict.inj e]
      exact hns
  | swap m n l => exact Relation.ReflTransGen.single (.here [] n m l)
  | trans _ _ ih ih' => exact Relation.ReflTransGen.trans ih ih'

/-! ## 4. What `repr` shows -/

section Repr

variable [UnicodeData] [PyFloat F]

theorem pyReprAll_eq (xs : List (Value F)) : pyReprAll xs = xs.map pyRepr := by
  induction xs with
  | nil => rfl
  | cons x xs ih => rw [pyReprAll, ih, List.map_cons]

/-- One member as `repr` prints it. -/
def reprMember (m : String × Value F) : String := reprStr m.1 ++ ": " ++ pyRepr m.2

theorem pyReprMembers_eq (ms : List (String × Value F)) :
    pyReprMembers ms = ms.map reprMember := by
  induction ms with
  | nil => rfl
  | cons m ms ih =>
      rw [pyReprMembers, ih, List.map_cons]
      rfl

theorem pyRepr_list (xs : List (Value F)) :
    pyRepr (.list xs) = "[" ++ ", ".intercalate (xs.map pyRepr) ++ "]" := by
  rw [pyRepr, pyReprAll_eq]

theorem pyRepr_dict (ms : List (String × Value F)) :
    pyRepr (.dict ms) = "\x7b" ++ ", ".intercalate (ms.map reprMember) ++ "\x7d" := by
  rw [pyRepr, pyReprMembers_eq]

/-- The first two members of a dict, the other way round. -/
theorem pyRepr_swap_ne {m n : String × Value F} (h : m.1 ≠ n.1) (post : List (String × Value F)) :
    pyRepr (.dict (n :: m :: post)) ≠ pyRepr (.dict (m :: n :: post)) := by
  rw [pyRepr_dict, pyRepr_dict]
  refine bracket_ne fun e => ?_
  rw [List.map_cons, List.map_cons, List.map_cons, List.map_cons, String.intercalate_cons_cons,
    String.intercalate_cons_cons, reprMember, reprMember] at e
  simp only [String.append_assoc] at e
  exact h (reprStr_unique e).symm

mutual
/-- **A value that is not rigid has a swap that `repr` shows.** -/
theorem exists_swap : ∀ v : Value F, v.WellFormed → isRigid v = false →
    ∃ w, Swap v w ∧ pyRepr w ≠ pyRepr v
  | .none, _, h => by cases h
  | .bool _, _, h => by cases h
  | .int _, _, h => by cases h
  | .float _, _, h => by cases h
  | .str _, _, h => by cases h
  | .list xs, hwf, h => by
      rw [Value.WellFormed] at hwf
      rw [isRigid] at h
      obtain ⟨pre, x, y, post, e, hs, hne⟩ := exists_swapAll xs hwf h
      rw [e]
      refine ⟨_, .inList pre post hs, ?_⟩
      rw [pyRepr_list, pyRepr_list, List.map_append, List.map_append, List.map_cons, List.map_cons]
      exact bracket_ne (OneOff.intercalate_ne ⟨_, _, _, _, rfl, rfl, hne⟩ _)
  | .dict ms, hwf, h => by
      rw [Value.WellFormed] at hwf
      rw [isRigid, Bool.and_eq_false_iff] at h
      match ms, hwf, h with
      | m :: n :: post, hwf, _ =>
          have hkeys : m.1 ≠ n.1 := by
            intro e
            have hnotin := (List.nodup_cons.mp hwf.1).1
            rw [e] at hnotin
            exact hnotin List.mem_cons_self
          exact ⟨_, .here [] m n post, pyRepr_swap_ne hkeys post⟩
      | [], _, h => rcases h with h | h <;> cases h
      | [m], hwf, h =>
          have hmember := h.resolve_left (by simp)
          obtain ⟨pre, k, x, y, post, e, hs, hne⟩ := exists_swapMembers [m] hwf.2 hmember
          rw [e]
          refine ⟨_, .inDict pre post k hs, ?_⟩
          rw [pyRepr_dict, pyRepr_dict, List.map_append, List.map_append, List.map_cons,
            List.map_cons]
          refine bracket_ne (OneOff.intercalate_ne ⟨_, _, _, _, rfl, rfl, fun e => ?_⟩ _)
          exact hne (string_append_left_cancel e)

theorem exists_swapAll : ∀ xs : List (Value F), Value.WellFormedAll xs → isRigidAll xs = false →
    ∃ pre x y post, xs = pre ++ x :: post ∧ Swap x y ∧ pyRepr y ≠ pyRepr x
  | [], _, h => by cases h
  | x :: xs, hwf, h => by
      rw [isRigidAll, Bool.and_eq_false_iff] at h
      rcases h with h | h
      · obtain ⟨y, hs, hne⟩ := exists_swap x hwf.1 h
        exact ⟨[], x, y, xs, rfl, hs, hne⟩
      · obtain ⟨pre, z, y, post, e, hs, hne⟩ := exists_swapAll xs hwf.2 h
        exact ⟨x :: pre, z, y, post, by rw [e]; rfl, hs, hne⟩

theorem exists_swapMembers : ∀ ms : List (String × Value F), Value.WellFormedMembers ms →
    isRigidMembers ms = false →
    ∃ pre k x y post, ms = pre ++ (k, x) :: post ∧ Swap x y ∧ pyRepr y ≠ pyRepr x
  | [], _, h => by cases h
  | (k, x) :: ms, hwf, h => by
      rw [isRigidMembers, Bool.and_eq_false_iff] at h
      rcases h with h | h
      · obtain ⟨y, hs, hne⟩ := exists_swap x hwf.1 h
        exact ⟨[], k, x, y, ms, rfl, hs, hne⟩
      · obtain ⟨pre, l, z, y, post, e, hs, hne⟩ := exists_swapMembers ms hwf.2 h
        exact ⟨(k, x) :: pre, l, z, y, post, by rw [e]; rfl, hs, hne⟩
end

end Repr

end Python
