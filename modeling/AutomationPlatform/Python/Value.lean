import AutomationPlatform.Library.Dict

/-!
# The values a Python program passes around as data

`Value F` is the universe of the built-in values that occur in decoded JSON and in the dicts of a
program that handles it: `None`, `bool`, `int`, `float`, `str`, `list`, `dict`. The type of floats
is a parameter: nothing here computes with one. A nested `dict` is its list of items in insertion
order, since that order is what `str` prints.

* `Value.WellFormed`: no nested `dict` has a key twice (the invariant of the type `dict`);
* `Value.decEq`: equality is decidable when it is on floats;
* `Value.get`: `d.get(k)` with its default `None`.
-/

namespace Python

/-- `None`, `bool`, `int`, `float`, `str`, `list` and `dict`. -/
inductive Value (F : Type) where
  | none
  | bool (b : Bool)
  | int (n : Int)
  | float (x : F)
  | str (s : String)
  | list (xs : List (Value F))
  | dict (ms : List (String × Value F))
  deriving Repr

namespace Value

variable {F : Type}

/-! ## 1. Deciding equality -/

section Beq

variable [DecidableEq F]

mutual
def beq : Value F → Value F → Bool
  | .none, .none => true
  | .bool a, .bool b => a == b
  | .int a, .int b => a == b
  | .float a, .float b => a == b
  | .str a, .str b => a == b
  | .list xs, .list ys => beqAll xs ys
  | .dict ms, .dict ns => beqMembers ms ns
  | _, _ => false

def beqAll : List (Value F) → List (Value F) → Bool
  | [], [] => true
  | x :: xs, y :: ys => beq x y && beqAll xs ys
  | _, _ => false

def beqMembers : List (String × Value F) → List (String × Value F) → Bool
  | [], [] => true
  | (k, x) :: ms, (l, y) :: ns => k == l && beq x y && beqMembers ms ns
  | _, _ => false
end

mutual
theorem beq_iff : ∀ v w : Value F, beq v w = true ↔ v = w
  | .none, w => by cases w <;> simp [beq]
  | .bool _, w => by cases w <;> simp [beq]
  | .int _, w => by cases w <;> simp [beq]
  | .float _, w => by cases w <;> simp [beq]
  | .str _, w => by cases w <;> simp [beq]
  | .list xs, w => by
      cases w with
      | list ys => simpa [beq] using beqAll_iff xs ys
      | _ => simp [beq]
  | .dict ms, w => by
      cases w with
      | dict ns => simpa [beq] using beqMembers_iff ms ns
      | _ => simp [beq]

theorem beqAll_iff : ∀ xs ys : List (Value F), beqAll xs ys = true ↔ xs = ys
  | [], ys => by cases ys <;> simp [beqAll]
  | x :: xs, ys => by
      cases ys with
      | nil => simp [beqAll]
      | cons y ys => simp [beqAll, beq_iff x y, beqAll_iff xs ys]

theorem beqMembers_iff : ∀ ms ns : List (String × Value F), beqMembers ms ns = true ↔ ms = ns
  | [], ns => by cases ns <;> simp [beqMembers]
  | (k, x) :: ms, ns => by
      cases ns with
      | nil => simp [beqMembers]
      | cons n ns =>
        obtain ⟨l, y⟩ := n
        simp [beqMembers, beq_iff x y, beqMembers_iff ms ns]
end

instance decEq : DecidableEq (Value F) := fun v w => decidable_of_iff _ (beq_iff v w)

end Beq

/-! ## 2. Nested dicts -/

mutual
/-- No `dict` inside the value has a key twice. -/
def WellFormed : Value F → Prop
  | .list xs => WellFormedAll xs
  | .dict ms => (ms.map Prod.fst).Nodup ∧ WellFormedMembers ms
  | _ => True

def WellFormedAll : List (Value F) → Prop
  | [] => True
  | x :: xs => WellFormed x ∧ WellFormedAll xs

def WellFormedMembers : List (String × Value F) → Prop
  | [] => True
  | (_, x) :: ms => WellFormed x ∧ WellFormedMembers ms
end

end Value

/-! ## 3. Dicts of values -/

/-- A `dict` with string keys. -/
abbrev Record (F : Type) := Dict String (Value F)

namespace Record

variable {F : Type}

/-- `d.get(k)`: `None` for a missing key. -/
def get (d : Record F) (k : String) : Value F := (d.get? k).getD .none

/-- The string under a key, if it holds one. -/
def text? (d : Record F) (k : String) : Option String :=
  match d.get? k with
  | some (.str s) => some s
  | _ => none

/-- The record as a value, to be stored inside another one. -/
def toValue (d : Record F) : Value F := .dict d.items

theorem get_of_get? {d : Record F} {k : String} {v : Value F} (h : d.get? k = some v) :
    d.get k = v := by
  unfold get
  rw [h]
  rfl

theorem text?_eq_some_iff {d : Record F} {k s : String} :
    d.text? k = some s ↔ d.get? k = some (.str s) := by
  unfold text?
  split
  · rename_i s' h
    simp [h]
  · rename_i h
    exact ⟨fun e => (by cases e), fun e => absurd e (h s)⟩

end Record

/-- `v[k]` of a nested dict, with the default `None`. -/
def Value.member {F : Type} (v : Value F) (k : String) : Value F :=
  match v with
  | .dict ms => (ms.lookup k).getD .none
  | _ => .none

/-- `Optional[str]` as a value. -/
def Value.ofOptStr {F : Type} : Option String → Value F
  | some s => .str s
  | Option.none => .none

/-- `Optional[dict[str, Any]]` as a value. -/
def Value.ofOptRecord {F : Type} : Option (Record F) → Value F
  | some d => d.toValue
  | Option.none => .none

end Python
