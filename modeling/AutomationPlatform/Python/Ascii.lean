import AutomationPlatform.Library.Codes
import AutomationPlatform.Python.Json

/-!
# An interpreter that knows ASCII

The smallest character database and the smallest types of floats that fill the parameters of `Text`,
`Number` and `Json`: beyond ASCII no character is cased, a digit or printable (the sigmas keep their
mapping), and the only float is a NaN, or beside it the infinities and one finite value. On ASCII
text and on values without floats they behave as CPython's do.
-/

namespace Python.Ascii

def lowerFull (c : Char) : List Char :=
  if c.toNat < 128 then [c.toLower] else if c = 'Σ' then ['σ'] else [c]

/-- The lower case of an ASCII character. -/
theorem toLower_spec {c : Char} (h : c.toNat < 128) :
    c.toLower.toNat < 128 ∧ c.toLower.toLower = c.toLower ∧
      (isSpace c = false → isSpace c.toLower = false) := by
  have hall : ∀ n < 128, (Char.ofNat n).toLower.toNat < 128 ∧
      (Char.ofNat n).toLower.toLower = (Char.ofNat n).toLower ∧
      (isSpace (Char.ofNat n) = false → isSpace (Char.ofNat n).toLower = false) := by decide
  have hc := hall c.toNat h
  rwa [Char.ofNat_toNat] at hc

theorem ne_sigma {c : Char} (h : c.toNat < 128) : c ≠ 'Σ' := by
  intro e
  rw [e] at h
  exact absurd h (by decide)

theorem lowerFull_of_ascii {c : Char} (h : c.toNat < 128) : lowerFull c = [c.toLower] := if_pos h

/-- One case per branch of `lowerFull`. -/
theorem mem_lowerFull {c d : Char} (h : d ∈ lowerFull c) :
    c.toNat < 128 ∧ d = c.toLower ∨ d = 'σ' ∨ d = c ∧ ¬ c.toNat < 128 ∧ c ≠ 'Σ' := by
  unfold lowerFull at h
  split at h
  · rename_i hc
    exact Or.inl ⟨hc, List.mem_singleton.mp h⟩
  · rename_i hc
    split at h
    · exact Or.inr (Or.inl (List.mem_singleton.mp h))
    · rename_i hne
      exact Or.inr (Or.inr ⟨List.mem_singleton.mp h, hc, hne⟩)

scoped instance database : UnicodeData where
  lowerFull := lowerFull
  cased := Char.isAlpha
  caseIgnorable c := c.toNat ∈ [39, 46, 58, 94, 96]
  decimal c := if c.isDigit then some (Fin.ofNat 10 (c.toNat - 48)) else none
  printable _ := false
  lowerFull_ascii _ h := lowerFull_of_ascii h
  lowerFull_ne_nil c := by
    unfold lowerFull
    split
    · exact List.cons_ne_nil _ _
    · split <;> exact List.cons_ne_nil _ _
  lowerFull_lowered c d h := by
    rcases mem_lowerFull h with ⟨hc, rfl⟩ | rfl | ⟨rfl, hc, hne⟩
    · obtain ⟨hlt, hfix, -⟩ := toLower_spec hc
      exact ⟨by rw [lowerFull_of_ascii hlt, hfix], ne_sigma hlt⟩
    · decide
    · exact ⟨by rw [lowerFull, if_neg hc, if_neg hne], hne⟩
  lowerFull_sigma := by decide
  lowerFull_space c hspace d h := by
    rcases mem_lowerFull h with ⟨hc, rfl⟩ | rfl | ⟨rfl, -, -⟩
    · exact (toLower_spec hc).2.2 hspace
    · decide
    · exact hspace
  decimal_ascii _ _ := rfl

/-- The only float. -/
inductive Float where
  | nan
  deriving DecidableEq, Repr

scoped instance : PyFloat Float where
  ofLit _ := .nan
  str _ := "nan"
  str_alphabet _ := forall_mem_of_all (by decide)
  str_not_int _ := by decide
  parse_str x := ⟨.nan, by decide, by cases x; rfl⟩

/-- A NaN, the infinities and zero, to which every finite literal is rounded. -/
inductive CoarseFloat where
  | nan
  | inf (neg : Bool)
  | zero
  deriving DecidableEq, Repr

namespace CoarseFloat

def ofLit : FloatLit → CoarseFloat
  | .nan => .nan
  | .inf neg => .inf neg
  | .finite neg m e => if (FloatLit.finite neg m e).isFinite then .zero else .inf neg

def str : CoarseFloat → String
  | .nan => "nan"
  | .inf neg => if neg then "-inf" else "inf"
  | .zero => "0.0"

def isFinite (x : CoarseFloat) : Bool := decide (x = .zero)

theorem isFinite_ofLit (l : FloatLit) : isFinite (ofLit l) = l.isFinite := by
  cases l with
  | inf neg => rfl
  | nan => rfl
  | finite neg m e =>
      rw [ofLit]
      cases (FloatLit.finite neg m e).isFinite <;> rfl

end CoarseFloat

scoped instance : FiniteFloat CoarseFloat where
  ofLit := CoarseFloat.ofLit
  str := CoarseFloat.str
  str_alphabet x := by
    cases x with
    | nan => exact forall_mem_of_all (by decide)
    | inf neg => cases neg <;> exact forall_mem_of_all (by decide)
    | zero => exact forall_mem_of_all (by decide)
  str_not_int x := by
    cases x with
    | nan => decide
    | inf neg => cases neg <;> decide
    | zero => decide
  parse_str x := by
    cases x with
    | nan => exact ⟨.nan, by decide, rfl⟩
    | inf neg => cases neg <;> exact ⟨.inf _, by decide, rfl⟩
    | zero => exact ⟨.finite false 0 (-1), by decide, by decide +kernel⟩
  isFinite := CoarseFloat.isFinite
  isFinite_ofLit := CoarseFloat.isFinite_ofLit

/-- A digest that is known for one text: every other text is its own, marked. -/
def pinnedDigest (payload hex : String) (text : String) : String :=
  if text = payload then hex else "#" ++ text

theorem pinnedDigest_injective {payload hex : String} (h : hex.toList.head? ≠ some '#') :
    Function.Injective (pinnedDigest payload hex) := by
  have hmark : ∀ x : String, hex ≠ "#" ++ x := by
    intro x e
    rw [e, String.toList_append, List.head?_append_of_ne_nil _ (by decide)] at h
    exact h (by decide)
  intro p q e
  unfold pinnedDigest at e
  split at e
  · split at e
    · rename_i hp hq
      rw [hp, hq]
    · exact absurd e (hmark q)
  · split at e
    · exact absurd e.symm (hmark p)
    · exact Codes.string_append_left_cancel e

example : lower (strip " Name ") = "name" := by decide

example : parseInt "-30" = some (-30) := by decide

end Python.Ascii
