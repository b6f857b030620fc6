import Mathlib.Data.List.Basic
import Mathlib.Tactic.Common

/-!
# UUIDs and instants, and the texts they travel as

A program holds both as text (`str(uuid4())`, `datetime.now(timezone.utc).isoformat()`), a database
as values of their own. `UUID` is the 32 hexadecimal digits, `Timestamp` an instant in UTC under its
ISO text.

* `UUID.parse` reads what a driver accepts: 32 digits of either case, hyphens anywhere, at most 36
  characters; `UUID.text` writes the hyphenated lower-case form;
* `UUID.parse_text`: what is written reads back.
-/

namespace Python

/-! ## 1. UUIDs -/

structure UUID where
  digits : List (Fin 16)
  length_eq : digits.length = 32
  deriving DecidableEq, Repr

namespace UUID

/-- One digit, 32 times. -/
def repeated (d : Nat) : UUID := ⟨List.replicate 32 (Fin.ofNat 16 d), List.length_replicate⟩

def hexChar (d : Fin 16) : Char := Nat.digitChar d.val

def hexValue? (c : Char) : Option (Fin 16) :=
  if '0' ≤ c ∧ c ≤ '9' then some (Fin.ofNat 16 (c.toNat - '0'.toNat))
  else if 'a' ≤ c ∧ c ≤ 'f' then some (Fin.ofNat 16 (c.toNat - 'a'.toNat + 10))
  else if 'A' ≤ c ∧ c ≤ 'F' then some (Fin.ofNat 16 (c.toNat - 'A'.toNat + 10))
  else none

/-- `8-4-4-4-12`, in lower case. -/
def text (u : UUID) : String :=
  let block (i n : Nat) : List Char := ((u.digits.drop i).take n).map hexChar
  String.ofList (block 0 8 ++ '-' :: block 8 4 ++ '-' :: block 12 4 ++ '-' :: block 16 4 ++
    '-' :: block 20 12)

def parse (s : String) : Option UUID :=
  match (s.toList.filter (· != '-')).mapM hexValue? with
  | none => none
  | some ds => if h : ds.length = 32 ∧ s.length ≤ 36 then some ⟨ds, h.1⟩ else none

theorem hexValue?_hexChar (d : Fin 16) : hexValue? (hexChar d) = some d := by
  revert d
  decide

theorem hexChar_ne_hyphen (d : Fin 16) : (hexChar d != '-') = true := by
  revert d
  decide

theorem filter_map_hexChar (ds : List (Fin 16)) :
    (ds.map hexChar).filter (· != '-') = ds.map hexChar :=
  List.filter_eq_self.mpr fun c hc => by
    obtain ⟨d, -, rfl⟩ := List.mem_map.mp hc
    exact hexChar_ne_hyphen d

theorem mapM_hexValue?_map (ds : List (Fin 16)) :
    (ds.map hexChar).mapM hexValue? = some ds := by
  induction ds with
  | nil => rfl
  | cons d ds ih =>
      rw [List.map_cons, List.mapM_cons, hexValue?_hexChar, ih]
      rfl

/-- The blocks of the text are the digits in order. -/
theorem filter_text (u : UUID) :
    u.text.toList.filter (· != '-') = u.digits.map hexChar := by
  have hblocks : u.digits = (u.digits.drop 0).take 8 ++ ((u.digits.drop 8).take 4 ++
      ((u.digits.drop 12).take 4 ++
        ((u.digits.drop 16).take 4 ++ (u.digits.drop 20).take 12))) := by
    have hlast : (u.digits.drop 20).take 12 = u.digits.drop 20 :=
      List.take_of_length_le (by have := u.length_eq; rw [List.length_drop]; omega)
    have hjoin : ∀ i n, (u.digits.drop i).take n ++ u.digits.drop (i + n) = u.digits.drop i :=
      fun i n => by rw [← List.drop_drop, List.take_append_drop]
    rw [hlast, hjoin 16 4, hjoin 12 4, hjoin 8 4, hjoin 0 8, List.drop_zero]
  conv_rhs => rw [hblocks]
  simp only [text, String.toList_ofList, List.filter_append, List.map_append, List.append_assoc,
    List.cons_append, List.filter_cons, filter_map_hexChar]
  simp

theorem length_text (u : UUID) : u.text.length = 36 := by
  have h := u.length_eq
  simp only [text, String.length_ofList, List.length_append, List.length_cons, List.length_map,
    List.length_take, List.length_drop]
  omega

/-- **What is written reads back.** -/
theorem parse_text (u : UUID) : parse u.text = some u := by
  unfold parse
  rw [filter_text, mapM_hexValue?_map]
  exact dif_pos ⟨u.length_eq, Nat.le_of_eq (length_text u)⟩

end UUID

/-! ## 2. Instants -/

def daysInMonth (year month : Nat) : Nat :=
  if month = 2 then
    if year % 4 = 0 ∧ (year % 100 ≠ 0 ∨ year % 400 = 0) then 29 else 28
  else if month ∈ [4, 6, 9, 11] then 30 else 31

/-- The texts `isoformat()` gives for instants in UTC: `YYYY-MM-DDTHH:MM:SS`, six more digits when
    the microseconds are not zero, and the offset. -/
def isIsoUtc (s : String) : Bool :=
  let cs := s.toList
  let number (i n : Nat) : Nat := Nat.ofDigitChars 10 ((cs.drop i).take n) 0
  let shape (p : String) : Bool := p.length == cs.length &&
    (p.toList.zip cs).all fun (m, c) => if m = 'd' then c.isDigit else m == c
  (shape "dddd-dd-ddTdd:dd:dd+00:00" ||
      shape "dddd-dd-ddTdd:dd:dd.dddddd+00:00" && number 20 6 != 0) &&
    (1 ≤ number 0 4 && 1 ≤ number 5 2 && number 5 2 ≤ 12 && 1 ≤ number 8 2 &&
      number 8 2 ≤ daysInMonth (number 0 4) (number 5 2) &&
      number 11 2 < 24 && number 14 2 < 60 && number 17 2 < 60)

structure Timestamp where
  iso : String
  isIsoUtc : isIsoUtc iso = true
  deriving DecidableEq, Repr

def Timestamp.epoch : Timestamp := ⟨"1970-01-01T00:00:00+00:00", by decide⟩

end Python
