import Mathlib.Algebra.Ring.Int.Defs
import Mathlib.Algebra.Ring.Nat
import Mathlib.Data.List.DropRight
import Mathlib.Data.List.Induction
import Mathlib.Tactic.Common

/-!
# `str.strip` and `str.lower`

A Python string without lone surrogates (those do not encode as UTF-8) is a `String`: a list of
Unicode scalar values. White space is `str.isspace`. Case mapping, decimal digits and printability
come from the Unicode character database, which is a parameter: `UnicodeData` holds its tables and
what this development relies on of them. Lower-casing follows CPython: the full mapping of each
character, and the context rule for the capital sigma.

* `strip_strip`, `lower_lower`, **`normalised_fixed`**: stripping, lower-casing and the one after
  the other are idempotent.
-/

namespace Python

/-- `str.isspace` of one character. -/
def isSpace (c : Char) : Bool :=
  let n := c.toNat
  (9 ≤ n && n ≤ 13) || (28 ≤ n && n ≤ 32) || n == 0x85 || n == 0xA0 || n == 0x1680 ||
    (0x2000 ≤ n && n ≤ 0x200A) || n == 0x2028 || n == 0x2029 || n == 0x202F || n == 0x205F ||
    n == 0x3000

/-- The tables of the Unicode character database that `str` and `int` read. -/
class UnicodeData where
  /-- The full lower-case mapping. -/
  lowerFull : Char → List Char
  cased : Char → Bool
  caseIgnorable : Char → Bool
  /-- The value of a decimal digit of any script. -/
  decimal : Char → Option (Fin 10)
  printable : Char → Bool
  lowerFull_ascii : ∀ c, c.toNat < 128 → lowerFull c = [c.toLower]
  lowerFull_ne_nil : ∀ c, lowerFull c ≠ []
  /-- What a mapping yields is in lower case. -/
  lowerFull_lowered : ∀ c, ∀ d ∈ lowerFull c, lowerFull d = [d] ∧ d ≠ 'Σ'
  lowerFull_sigma : lowerFull 'σ' = ['σ'] ∧ lowerFull 'ς' = ['ς']
  lowerFull_space : ∀ c, isSpace c = false → ∀ d ∈ lowerFull c, isSpace d = false
  decimal_ascii : ∀ c, c.toNat < 128 →
    decimal c = if c.isDigit then some (Fin.ofNat 10 (c.toNat - 48)) else none

/-- What is decided character by character holds of each one. `Char` is finite, and deciding a
    statement about all characters would go through all of them. -/
theorem forall_mem_of_all {p : Char → Prop} [DecidablePred p] {cs : List Char}
    (h : cs.all (fun c => decide (p c)) = true) : ∀ c ∈ cs, p c :=
  fun c hc => of_decide_eq_true (List.all_eq_true.mp h c hc)

/-! ## 1. Stripping -/

/-- `s.strip()`, on characters. -/
def stripChars (cs : List Char) : List Char := (cs.dropWhile isSpace).rdropWhile isSpace

def strip (s : String) : String := String.ofList (stripChars s.toList)

/-- Neither end is white space. -/
structure Trimmed (cs : List Char) : Prop where
  head : ∀ c, cs.head? = some c → isSpace c = false
  last : ∀ c, cs.getLast? = some c → isSpace c = false

/-- Joining trimmed texts by a visible character. -/
theorem Trimmed.join {a b : List Char} {c : Char} (ha : Trimmed a) (hb : Trimmed b)
    (hc : isSpace c = false) : Trimmed (a ++ c :: b) := by
  refine ⟨fun d h => ?_, fun d h => ?_⟩
  · cases a with
    | nil => exact Option.some.inj h ▸ hc
    | cons x a => exact ha.head d h
  · rw [List.getLast?_append, List.getLast?_cons] at h
    cases hl : b.getLast? with
    | none =>
        rw [hl] at h
        exact Option.some.inj h ▸ hc
    | some x =>
        rw [hl] at h
        exact Option.some.inj h ▸ hb.last x hl

theorem trimmed_of_all {cs : List Char} (h : ∀ c ∈ cs, isSpace c = false) : Trimmed cs :=
  ⟨fun c hc => h c (List.mem_of_mem_head? hc), fun c hc => h c (List.mem_of_mem_getLast? hc)⟩

theorem stripChars_of_trimmed {cs : List Char} (h : Trimmed cs) : stripChars cs = cs := by
  unfold stripChars
  cases cs with
  | nil => rfl
  | cons c cs =>
      rw [List.dropWhile_cons_of_neg (by rw [h.head c rfl]; simp)]
      refine List.rdropWhile_eq_self_iff.mpr fun hl => ?_
      rw [h.last _ (List.getLast?_eq_some_getLast hl)]
      simp

theorem trimmed_stripChars (cs : List Char) : Trimmed (stripChars cs) := by
  refine ⟨fun c hc => ?_, fun c hc => ?_⟩
  · have hpre : stripChars cs <+: cs.dropWhile isSpace := List.rdropWhile_prefix isSpace _
    obtain ⟨t, ht⟩ := hpre
    have hhead : (cs.dropWhile isSpace).head? = some c := by
      rw [← ht, List.head?_append, hc]
      rfl
    have := List.head?_dropWhile_not isSpace cs
    rw [hhead] at this
    simpa using this
  · have hne : stripChars cs ≠ [] := by
      intro e
      rw [e] at hc
      cases hc
    have := List.rdropWhile_last_not isSpace (cs.dropWhile isSpace) hne
    rw [List.getLast?_eq_some_getLast hne] at hc
    rw [← Option.some.inj hc]
    exact eq_false_of_ne_true this

theorem strip_eq_self_iff {s : String} : strip s = s ↔ Trimmed s.toList := by
  unfold strip
  refine ⟨fun h => ?_, fun h => ?_⟩
  · rw [← h, String.toList_ofList]
    exact trimmed_stripChars _
  · rw [stripChars_of_trimmed h, String.ofList_toList]

theorem trimmed_strip (s : String) : Trimmed (strip s).toList := by
  unfold strip
  rw [String.toList_ofList]
  exact trimmed_stripChars _

theorem strip_strip (s : String) : strip (strip s) = strip s :=
  strip_eq_self_iff.mpr (trimmed_strip s)

/-! ## 2. Lower-casing -/

section Lower

variable [U : UnicodeData]

/-- A capital sigma ends a word: a cased character stands before it and none after it, case
    ignorable ones not counted. `before` is in reverse order. -/
def isFinalSigma (before after : List Char) : Bool :=
  ((before.dropWhile U.caseIgnorable).head?.any U.cased) &&
    !((after.dropWhile U.caseIgnorable).head?.any U.cased)

def lowerChar (before : List Char) (c : Char) (after : List Char) : List Char :=
  if c = 'Σ' then [if isFinalSigma before after then 'ς' else 'σ'] else U.lowerFull c

def lowerChars : List Char → List Char → List Char
  | _, [] => []
  | before, c :: cs => lowerChar before c cs ++ lowerChars (c :: before) cs

/-- `s.lower()`. -/
def lower (s : String) : String := String.ofList (lowerChars [] s.toList)

/-- The character is its own lower case. -/
def Lowered (c : Char) : Prop := U.lowerFull c = [c] ∧ c ≠ 'Σ'

theorem lowered_of_mem_lowerChar {before after : List Char} {c d : Char}
    (h : d ∈ lowerChar before c after) : Lowered d := by
  unfold lowerChar at h
  split at h
  · rw [List.mem_singleton] at h
    subst h
    split
    · exact ⟨U.lowerFull_sigma.2, by decide⟩
    · exact ⟨U.lowerFull_sigma.1, by decide⟩
  · exact U.lowerFull_lowered c d h

theorem lowered_of_mem_lowerChars {before cs : List Char} {d : Char}
    (h : d ∈ lowerChars before cs) : Lowered d := by
  induction cs generalizing before with
  | nil => cases h
  | cons c cs ih =>
      rcases List.mem_append.mp h with h | h
      · exact lowered_of_mem_lowerChar h
      · exact ih h

theorem lowerChars_of_lowered {before cs : List Char} (h : ∀ c ∈ cs, Lowered c) :
    lowerChars before cs = cs := by
  induction cs generalizing before with
  | nil => rfl
  | cons c cs ih =>
      have hc := h c List.mem_cons_self
      rw [lowerChars, ih fun d hd => h d (List.mem_cons_of_mem _ hd), lowerChar, if_neg hc.2, hc.1]
      rfl

theorem lower_lower (s : String) : lower (lower s) = lower s := by
  unfold lower
  rw [String.toList_ofList, lowerChars_of_lowered fun _ h => lowered_of_mem_lowerChars h]

theorem lowerChar_ne_nil (before after : List Char) (c : Char) :
    lowerChar before c after ≠ [] := by
  unfold lowerChar
  split
  · exact List.cons_ne_nil _ _
  · exact U.lowerFull_ne_nil c

theorem space_of_mem_lowerChar {before after : List Char} {c d : Char} (hc : isSpace c = false)
    (h : d ∈ lowerChar before c after) : isSpace d = false := by
  unfold lowerChar at h
  split at h
  · rw [List.mem_singleton] at h
    subst h
    split <;> decide
  · exact U.lowerFull_space c hc d h

theorem lowerChars_append_singleton (before cs : List Char) (c : Char) :
    ∃ front, lowerChars before (cs ++ [c]) = front ++ lowerChar (cs.reverse ++ before) c [] := by
  induction cs generalizing before with
  | nil => exact ⟨[], by simp [lowerChars]⟩
  | cons d cs ih =>
      obtain ⟨front, hf⟩ := ih (d :: before)
      refine ⟨lowerChar before d (cs ++ [c]) ++ front, ?_⟩
      rw [List.cons_append, lowerChars, hf, List.append_assoc, List.reverse_cons,
        List.append_assoc]
      rfl

/-- Lower-casing keeps the ends visible. -/
theorem Trimmed.lowerChars {cs : List Char} (h : Trimmed cs) :
    Trimmed (Python.lowerChars [] cs) := by
  refine ⟨fun d hd => ?_, fun d hd => ?_⟩
  · cases cs with
    | nil => cases hd
    | cons c cs =>
        rw [Python.lowerChars, List.head?_append_of_ne_nil _ (lowerChar_ne_nil _ _ _)] at hd
        exact space_of_mem_lowerChar (h.head c rfl) (List.mem_of_mem_head? hd)
  · cases cs using List.reverseRec with
    | nil => cases hd
    | append_singleton cs c _ =>
        obtain ⟨front, hf⟩ := lowerChars_append_singleton [] cs c
        rw [hf, List.getLast?_append_of_ne_nil _ (lowerChar_ne_nil _ _ _)] at hd
        exact space_of_mem_lowerChar (h.last c (by simp)) (List.mem_of_mem_getLast? hd)

/-- **Stripping and lower-casing once is enough.** -/
theorem normalised_fixed (s : String) :
    lower (strip (lower (strip s))) = lower (strip s) := by
  have htrim : Trimmed (lower (strip s)).toList := by
    unfold lower
    rw [String.toList_ofList]
    exact (trimmed_strip s).lowerChars
  rw [strip_eq_self_iff.mpr htrim, lower_lower]

/-- ASCII text is lower-cased character by character. -/
theorem lowerChars_ascii {before cs : List Char} (h : ∀ c ∈ cs, c.toNat < 128) :
    lowerChars before cs = cs.map Char.toLower := by
  induction cs generalizing before with
  | nil => rfl
  | cons c cs ih =>
      have hc := h c List.mem_cons_self
      have hne : c ≠ 'Σ' := by
        intro e
        rw [e] at hc
        revert hc
        decide
      rw [lowerChars, ih fun d hd => h d (List.mem_cons_of_mem _ hd), lowerChar, if_neg hne,
        U.lowerFull_ascii c hc]
      rfl

/-- A lower-case ASCII character stays where it is. -/
theorem mem_lowerChars_of_ascii {before cs : List Char} {c : Char} (hc : c.toNat < 128)
    (hlow : c.toLower = c) (h : c ∈ cs) : c ∈ lowerChars before cs := by
  induction cs generalizing before with
  | nil => cases h
  | cons d cs ih =>
      rw [lowerChars, List.mem_append]
      rcases List.mem_cons.mp h with rfl | h
      · left
        have hne : c ≠ 'Σ' := by
          intro e
          rw [e] at hc
          revert hc
          decide
        rw [lowerChar, if_neg hne, U.lowerFull_ascii c hc, hlow]
        exact List.mem_singleton_self c
      · exact Or.inr (ih h)

end Lower

end Python
