import AutomationPlatform.Library.Codes
import AutomationPlatform.Python.Number
import AutomationPlatform.Python.Value

/-!
# `repr` and `str`

`str` of a string is the string; of every other value it is its `repr`, where strings inside a list
or a dict are quoted and escaped as CPython does it: the quote is `'` unless the text holds `'` and
no `"`; the quote, the backslash and what is not printable are escaped.

* **`reprChars_unique`**: the `repr` of a string is told from what follows it.
-/

namespace Python

variable [U : UnicodeData]

/-! ## 1. Strings -/

/-- `v` in hexadecimal, `w` digits. -/
def hexDigits : Nat → Nat → List Char
  | 0, _ => []
  | w + 1, v => hexDigits w (v / 16) ++ [Nat.digitChar (v % 16)]

def escapeChar (q c : Char) : List Char :=
  if c = q ∨ c = '\\' then ['\\', c]
  else if c = '\t' then ['\\', 't']
  else if c = '\n' then ['\\', 'n']
  else if c = '\r' then ['\\', 'r']
  else if c.toNat < 32 ∨ c.toNat = 127 then '\\' :: 'x' :: hexDigits 2 c.toNat
  else if c.toNat < 127 ∨ U.printable c = true then [c]
  else if c.toNat < 256 then '\\' :: 'x' :: hexDigits 2 c.toNat
  else if c.toNat < 65536 then '\\' :: 'u' :: hexDigits 4 c.toNat
  else '\\' :: 'U' :: hexDigits 8 c.toNat

def quoteOf (cs : List Char) : Char := if '\'' ∈ cs ∧ '"' ∉ cs then '"' else '\''

def reprChars (cs : List Char) : List Char :=
  quoteOf cs :: (cs.flatMap (escapeChar (quoteOf cs)) ++ [quoteOf cs])

/-- `repr(s)` of a string. -/
def reprStr (s : String) : String := String.ofList (reprChars s.toList)

/-! ### Reading an escape back -/

def hexValue (cs : List Char) : Nat :=
  cs.foldl (fun n c => 16 * n + (if c.isDigit then c.toNat - 48 else c.toNat - 87)) 0

omit U in
theorem hexValue_hexDigits {w v : Nat} (h : v < 16 ^ w) : hexValue (hexDigits w v) = v := by
  induction w generalizing v with
  | zero =>
      have : v = 0 := by simpa using h
      subst this
      rfl
  | succ w ih =>
      have hdiv : v / 16 < 16 ^ w := by
        rw [Nat.pow_succ] at h
        omega
      have hdigit : ∀ d < 16, (if (Nat.digitChar d).isDigit then (Nat.digitChar d).toNat - 48
          else (Nat.digitChar d).toNat - 87) = d := by decide
      have hpre : (hexDigits w (v / 16)).foldl (fun n c =>
          16 * n + (if c.isDigit then c.toNat - 48 else c.toNat - 87)) 0 = v / 16 := ih hdiv
      rw [hexValue, hexDigits, List.foldl_append, hpre, List.foldl_cons, List.foldl_nil,
        hdigit _ (by omega)]
      omega

omit U in
theorem length_hexDigits (w v : Nat) : (hexDigits w v).length = w := by
  induction w generalizing v with
  | zero => rfl
  | succ w ih => rw [hexDigits, List.length_append, ih, List.length_singleton]

/-- The character the text begins with, escaped or not. -/
def readEscape : List Char → Option Char
  | '\\' :: 't' :: _ => some '\t'
  | '\\' :: 'n' :: _ => some '\n'
  | '\\' :: 'r' :: _ => some '\r'
  | '\\' :: 'x' :: cs => some (Char.ofNat (hexValue (cs.take 2)))
  | '\\' :: 'u' :: cs => some (Char.ofNat (hexValue (cs.take 4)))
  | '\\' :: 'U' :: cs => some (Char.ofNat (hexValue (cs.take 8)))
  | '\\' :: c :: _ => some c
  | c :: _ => some c
  | [] => none

omit U in
theorem ofNat_hexValue {w : Nat} {c : Char} (h : c.toNat < 16 ^ w) (x : List Char) :
    Char.ofNat (hexValue ((hexDigits w c.toNat ++ x).take w)) = c := by
  have htake : (hexDigits w c.toNat ++ x).take w = hexDigits w c.toNat := by
    rw [List.take_append_of_le_length (by rw [length_hexDigits]), List.take_of_length_le]
    rw [length_hexDigits]
  rw [htake, hexValue_hexDigits h, Char.ofNat_toNat]

theorem readEscape_escapeChar {q : Char} (hq : q = '\'' ∨ q = '"') (c : Char) (x : List Char) :
    readEscape (escapeChar q c ++ x) = some c := by
  unfold escapeChar
  split
  · rename_i h
    rcases h with rfl | rfl
    · rcases hq with rfl | rfl <;> rfl
    · rfl
  · rename_i hplain
    split
    · rename_i h
      rw [h]
      rfl
    · split
      · rename_i h
        rw [h]
        rfl
      · split
        · rename_i h
          rw [h]
          rfl
        · split
          · rename_i h
            exact congrArg some (ofNat_hexValue (w := 2) (by omega) x)
          · split
            · -- a character that stands for itself is no backslash
              show readEscape (c :: x) = some c
              unfold readEscape
              split <;> simp_all
            · split
              · exact congrArg some (ofNat_hexValue (w := 2) (by omega) x)
              · split
                · exact congrArg some (ofNat_hexValue (w := 4) (by omega) x)
                · have hlt : c.toNat < 16 ^ 8 := by
                    have := c.valid
                    unfold UInt32.isValidChar Nat.isValidChar at this
                    show c.val.toNat < 16 ^ 8
                    omega
                  exact congrArg some (ofNat_hexValue (w := 8) hlt x)

theorem escapeChar_ne_quote {q : Char} (hq : q = '\'' ∨ q = '"') (c : Char) (x y : List Char) :
    escapeChar q c ++ x ≠ q :: y := by
  have hback : ∀ cs : List Char, '\\' :: cs ≠ q :: y := by
    intro cs e
    rw [← (List.cons.inj e).1] at hq
    revert hq
    decide
  unfold escapeChar
  split
  · exact hback _
  · rename_i hplain
    repeat' split
    all_goals first
      | exact hback _
      | exact fun e => hplain (Or.inl (List.cons.inj e).1)

theorem escapeChar_prefixFree {q : Char} (hq : q = '\'' ∨ q = '"') :
    Codes.PrefixFree (escapeChar q) :=
  Codes.prefixFree_of_decode readEscape (readEscape_escapeChar hq)

omit U in
theorem quoteOf_cases (cs : List Char) : quoteOf cs = '\'' ∨ quoteOf cs = '"' := by
  unfold quoteOf
  split
  · exact Or.inr rfl
  · exact Or.inl rfl

/-- **The `repr` of a string is told from what follows it.** -/
theorem reprChars_unique {as bs x y : List Char} (h : reprChars as ++ x = reprChars bs ++ y) :
    as = bs := by
  unfold reprChars at h
  rw [List.cons_append, List.cons_append, List.cons.injEq] at h
  obtain ⟨hq, h⟩ := h
  rw [← hq, List.append_assoc, List.append_assoc] at h
  have hquote := quoteOf_cases as
  exact ((escapeChar_prefixFree hquote).flatMap_inj (escapeChar_ne_quote hquote) h).1

theorem reprStr_unique {a b x y : String} (h : reprStr a ++ x = reprStr b ++ y) : a = b := by
  unfold reprStr at h
  rw [← String.toList_inj, String.toList_append, String.toList_append, String.toList_ofList,
    String.toList_ofList] at h
  exact String.toList_inj.mp (reprChars_unique h)

/-! ## 2. Values -/

section Values

variable {F : Type} [PyFloat F]

mutual
/-- `repr(v)`. -/
def pyRepr : Value F → String
  | .none => "None"
  | .bool b => if b then "True" else "False"
  | .int n => toString n
  | .float x => PyFloat.str x
  | .str s => reprStr s
  | .list xs => "[" ++ ", ".intercalate (pyReprAll xs) ++ "]"
  | .dict ms => "\x7b" ++ ", ".intercalate (pyReprMembers ms) ++ "\x7d"

def pyReprAll : List (Value F) → List String
  | [] => []
  | x :: xs => pyRepr x :: pyReprAll xs

def pyReprMembers : List (String × Value F) → List String
  | [] => []
  | (k, x) :: ms => (reprStr k ++ ": " ++ pyRepr x) :: pyReprMembers ms
end

/-- `str(v)`. -/
def pyStr : Value F → String
  | .str s => s
  | v => pyRepr v

end Values

end Python
