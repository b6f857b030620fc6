import AutomationPlatform.Python.Number
import AutomationPlatform.Python.Value

/-!
# JSON and JSONB

`float` reads `nan`, `inf` and every literal too large for a double without an error. JSON has no
text for what it returns then. `math.isfinite` is a parameter here (`JsonFloat`, `FiniteFloat`): a
decimal literal is finite when it is below the midpoint of the largest double and the next power of
two, from where rounding to the nearest gives an infinity.

* `Value.isJson`: a decoded value that can be encoded again;
* `Value.isJsonb`: one that PostgreSQL takes as `JSONB`, which refuses U+0000 in strings and keys;
* `Value.isJsonScalar`: a boolean, an integer, a finite float or a string.
-/

namespace Python

/-- Where rounding to a double gives an infinity. -/
def overflowBound : Nat := 2 ^ 1024 - 2 ^ 970

/-- The literal is read as a finite float. -/
def FloatLit.isFinite : FloatLit → Bool
  | .inf _ => false
  | .nan => false
  | .finite _ mantissa exponent =>
    if 0 ≤ exponent then decide (mantissa * 10 ^ exponent.toNat < overflowBound)
    else decide (mantissa < overflowBound * 10 ^ (-exponent).toNat)

/-- `math.isfinite`. -/
class JsonFloat (F : Type) where
  isFinite : F → Bool

/-- A type of floats with `math.isfinite`. -/
class FiniteFloat (F : Type) [UnicodeData] extends PyFloat F, JsonFloat F where
  isFinite_ofLit : ∀ l, isFinite (ofLit l) = l.isFinite

/-- The text has a U+0000, which no text of PostgreSQL has. -/
def hasNul (s : String) : Bool := s.toList.contains '\x00'

namespace Value

variable {F : Type}

mutual
/-- Every scalar inside the value passes `leaf`, and every key of a dict `key`. -/
def every (leaf : Value F → Bool) (key : String → Bool) : Value F → Bool
  | .list xs => everyItem leaf key xs
  | .dict ms => everyMember leaf key ms
  | v => leaf v

def everyItem (leaf : Value F → Bool) (key : String → Bool) : List (Value F) → Bool
  | [] => true
  | x :: xs => every leaf key x && everyItem leaf key xs

def everyMember (leaf : Value F → Bool) (key : String → Bool) : List (String × Value F) → Bool
  | [] => true
  | (k, x) :: ms => key k && every leaf key x && everyMember leaf key ms
end

theorem everyMember_iff {leaf : Value F → Bool} {key : String → Bool}
    {ms : List (String × Value F)} : everyMember leaf key ms = true ↔
      ∀ m ∈ ms, key m.1 = true ∧ m.2.every leaf key = true := by
  induction ms with
  | nil => simp [everyMember]
  | cons m ms ih =>
      rw [everyMember, Bool.and_eq_true, Bool.and_eq_true, ih, List.forall_mem_cons]

section Mono

variable {leaf leaf' : Value F → Bool} {key key' : String → Bool}

mutual
theorem every_mono (hleaf : ∀ v, leaf v = true → leaf' v = true)
    (hkey : ∀ k, key k = true → key' k = true) :
    ∀ v : Value F, v.every leaf key = true → v.every leaf' key' = true
  | .none, h => hleaf _ h
  | .bool _, h => hleaf _ h
  | .int _, h => hleaf _ h
  | .float _, h => hleaf _ h
  | .str _, h => hleaf _ h
  | .list xs, h => by
      rw [every] at h ⊢
      exact everyItem_mono hleaf hkey xs h
  | .dict ms, h => by
      rw [every] at h ⊢
      exact everyMember_mono hleaf hkey ms h

theorem everyItem_mono (hleaf : ∀ v, leaf v = true → leaf' v = true)
    (hkey : ∀ k, key k = true → key' k = true) :
    ∀ xs : List (Value F), everyItem leaf key xs = true → everyItem leaf' key' xs = true
  | [], _ => rfl
  | x :: xs, h => by
      rw [everyItem, Bool.and_eq_true] at h ⊢
      exact ⟨every_mono hleaf hkey x h.1, everyItem_mono hleaf hkey xs h.2⟩

theorem everyMember_mono (hleaf : ∀ v, leaf v = true → leaf' v = true)
    (hkey : ∀ k, key k = true → key' k = true) :
    ∀ ms : List (String × Value F),
      everyMember leaf key ms = true → everyMember leaf' key' ms = true
  | [], _ => rfl
  | (k, x) :: ms, h => by
      rw [everyMember, Bool.and_eq_true, Bool.and_eq_true] at h ⊢
      exact ⟨⟨hkey k h.1.1, every_mono hleaf hkey x h.1.2⟩, everyMember_mono hleaf hkey ms h.2⟩
end

end Mono

variable [JsonFloat F]

/-- JSON has a text for the scalar: the float is finite, and the integer has no more digits than
    `str` writes. -/
def jsonLeaf : Value F → Bool
  | .int n => decide ((Nat.toDigits 10 n.natAbs).length ≤ maxStrDigits)
  | .float x => JsonFloat.isFinite x
  | _ => true

def jsonbLeaf : Value F → Bool
  | .str s => !hasNul s
  | v => v.jsonLeaf

/-- `json.dumps(v, allow_nan=False)` encodes the value. -/
def isJson (v : Value F) : Bool := v.every jsonLeaf fun _ => true

/-- PostgreSQL takes what `json.dumps(v)` writes as `JSONB`. -/
def isJsonb (v : Value F) : Bool := v.every jsonbLeaf fun k => !hasNul k

theorem isJson_of_isJsonb {v : Value F} (h : v.isJsonb = true) : v.isJson = true :=
  every_mono (fun v hv => by cases v <;> first | exact hv | rfl) (fun _ _ => rfl) v h

def isJsonScalar : Value F → Bool
  | .bool _ => true
  | .int _ => true
  | .float x => JsonFloat.isFinite x
  | .str _ => true
  | _ => false

end Value

end Python
