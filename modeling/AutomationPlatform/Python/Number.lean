import AutomationPlatform.Python.Text

/-!
# `int(s)`, `float(s)` and the texts of numbers

The grammars CPython accepts, for a text without white space at its ends: decimal digits of any
script count as ASCII digits, a single underscore may stand between two digits, and `int` takes at
most 4300 digits. `float` first reads a literal (`FloatLit`); rounding it to a double and printing a
double are parameters, with the documented facts about them (`PyFloat`).

* `parseInt_toString`: an integer that `int` returned is read back from its text;
* `parseInt_of_bar`, `parseFloat_of_bar`: a text with a `|` is no number.
-/

namespace Python

open Nat (ofDigitChars)

variable [U : UnicodeData]

/-- A digit of any script as an ASCII digit. -/
def asciiDigit (c : Char) : Char :=
  match U.decimal c with
  | some d => Nat.digitChar d.val
  | none => c

def splitSign : List Char → Bool × List Char
  | '-' :: cs => (true, cs)
  | '+' :: cs => (false, cs)
  | cs => (false, cs)

/-- Digits with single underscores between them; the digits. -/
def readDigits : List Char → Option (List Char)
  | [] => none
  | [c] => if c.isDigit then some [c] else none
  | c :: '_' :: cs => if c.isDigit then (readDigits cs).map (c :: ·) else none
  | c :: cs => if c.isDigit then (readDigits cs).map (c :: ·) else none

/-- `sys.int_info.default_max_str_digits`. -/
def maxStrDigits : Nat := 4300

/-- `int(s)`, `none` for `ValueError`. -/
def parseInt (s : String) : Option Int :=
  let (neg, cs) := splitSign (s.toList.map asciiDigit)
  match readDigits cs with
  | some ds =>
    if ds.length ≤ maxStrDigits then
      some (if neg then -(ofDigitChars 10 ds 0 : Int) else ofDigitChars 10 ds 0)
    else none
  | none => none

/-- What a float literal says: `±mantissa * 10 ^ exponent`, an infinity or a NaN. -/
inductive FloatLit where
  | inf (neg : Bool)
  | nan
  | finite (neg : Bool) (mantissa : Nat) (exponent : Int)
  deriving DecidableEq, Repr

/-- The text without its underscores, each of which must stand between two digits. -/
def dropUnderscores : Char → List Char → Option (List Char)
  | prev, [] => if prev = '_' then none else some []
  | prev, c :: cs =>
    if c = '_' then
      if prev.isDigit then dropUnderscores '_' cs else none
    else if prev = '_' ∧ ¬ c.isDigit then none
    else (dropUnderscores c cs).map (c :: ·)

/-- Digits with an optional point, then an optional exponent. -/
def readDecimal (neg : Bool) (cs : List Char) : Option FloatLit :=
  let mark := fun c : Char => c != 'e' && c != 'E'
  let mant := cs.takeWhile mark
  let whole := mant.takeWhile (· != '.')
  let frac := (mant.dropWhile (· != '.')).tail
  if whole.all Char.isDigit && frac.all Char.isDigit && !(whole ++ frac).isEmpty then
    match cs.dropWhile mark with
    | [] => some (.finite neg (ofDigitChars 10 (whole ++ frac) 0) (-frac.length))
    | _ :: ex =>
      let (eneg, es) := splitSign ex
      if es.all Char.isDigit && !es.isEmpty then
        let e : Int := ofDigitChars 10 es 0
        some (.finite neg (ofDigitChars 10 (whole ++ frac) 0)
          ((if eneg then -e else e) - frac.length))
      else none
  else none

/-- `float(s)` up to rounding, `none` for `ValueError`. -/
def parseFloat (s : String) : Option FloatLit :=
  match dropUnderscores ' ' (s.toList.map asciiDigit) with
  | none => none
  | some cs =>
    let (neg, body) := splitSign cs
    let word := String.ofList (body.map Char.toLower)
    if word ∈ ["inf", "infinity"] then some (.inf neg)
    else if word = "nan" then some .nan
    else readDecimal neg body

/-- A type of floats: rounding a literal to it and printing one of its values. The NaNs are one
    value. -/
class PyFloat (F : Type) where
  ofLit : FloatLit → F
  str : F → String
  /-- `str` writes digits, signs, a point, an exponent, `inf` or `nan`. -/
  str_alphabet : ∀ x, ∀ c ∈ (str x).toList, c ∈ "0123456789+-.einfa".toList
  /-- `str` never writes an integer literal. -/
  str_not_int : ∀ x, parseInt (str x) = none
  /-- `float(str(x)) == x`. -/
  parse_str : ∀ x, ∃ l, parseFloat (str x) = some l ∧ ofLit l = x

/-! ## 1. Integers -/

omit U in
theorem digit_range {c : Char} (h : c.isDigit = true) : 48 ≤ c.toNat ∧ c.toNat ≤ 57 := by
  unfold Char.isDigit at h
  rw [Bool.and_eq_true, decide_eq_true_eq, decide_eq_true_eq] at h
  exact ⟨UInt32.le_iff_toNat_le.mp h.1, UInt32.le_iff_toNat_le.mp h.2⟩

theorem asciiDigit_ascii {c : Char} (h : c.toNat < 128) : asciiDigit c = c := by
  unfold asciiDigit
  rw [U.decimal_ascii c h]
  by_cases hd : c.isDigit
  · rw [if_pos hd]
    show Nat.digitChar ((c.toNat - 48) % 10) = c
    have hrange := digit_range hd
    apply Char.toNat_inj.mp
    rw [Nat.toNat_digitChar_of_lt_ten (by omega)]
    omega
  · rw [if_neg hd]

theorem map_asciiDigit {cs : List Char} (h : ∀ c ∈ cs, c.toNat < 128) :
    cs.map asciiDigit = cs := by
  rw [List.map_congr_left fun c hc => asciiDigit_ascii (h c hc), List.map_id']

omit U in
theorem readDigits_of_digits {ds : List Char} (hne : ds ≠ []) (h : ∀ c ∈ ds, c.isDigit = true) :
    readDigits ds = some ds := by
  induction ds with
  | nil => exact absurd rfl hne
  | cons c ds ih =>
      have hc := h c List.mem_cons_self
      cases ds with
      | nil => simp [readDigits, hc]
      | cons d ds =>
          have hd := h d (List.mem_cons_of_mem _ List.mem_cons_self)
          have hne' : d ≠ '_' := by
            intro e
            rw [e] at hd
            revert hd
            decide
          have := ih (List.cons_ne_nil _ _) fun x hx => h x (List.mem_cons_of_mem _ hx)
          simp [readDigits, hc, hne', this]

omit U in
/-- What `readDigits` accepts and what it returns. -/
theorem readDigits_eq_some : ∀ {cs ds : List Char}, readDigits cs = some ds →
    (∀ c ∈ ds, c.isDigit = true) ∧ ∀ c ∈ cs, c.isDigit = true ∨ c = '_'
  | [], _, h => by cases h
  | [c], ds, h => by
      rw [readDigits] at h
      split at h
      · rename_i hc
        rw [← Option.some.inj h]
        exact ⟨fun d hd => List.mem_singleton.mp hd ▸ hc,
          fun d hd => Or.inl (List.mem_singleton.mp hd ▸ hc)⟩
      · cases h
  | c :: d :: cs, ds, h => by
      by_cases hu : d = '_'
      · subst hu
        rw [readDigits] at h
        split at h
        · rename_i hc
          obtain ⟨ds', hds', rfl⟩ := Option.map_eq_some_iff.mp h
          obtain ⟨h1, h2⟩ := readDigits_eq_some hds'
          simp only [List.forall_mem_cons]
          exact ⟨⟨hc, h1⟩, Or.inl hc, Or.inr trivial, h2⟩
        · cases h
      · have h' : (if c.isDigit then (readDigits (d :: cs)).map (c :: ·) else none) = some ds := by
          simpa [readDigits, hu] using h
        split at h'
        · rename_i hc
          obtain ⟨ds', hds', rfl⟩ := Option.map_eq_some_iff.mp h'
          obtain ⟨h1, h2⟩ := readDigits_eq_some hds'
          simp only [List.forall_mem_cons] at h2 ⊢
          exact ⟨⟨hc, h1⟩, Or.inl hc, h2⟩
        · cases h'

omit U in
theorem ofDigitChars_lt {ds : List Char} (h : ∀ c ∈ ds, c.isDigit = true) :
    ofDigitChars 10 ds 0 < 10 ^ ds.length := by
  induction ds using List.reverseRec with
  | nil => simp
  | append_singleton ds c ih =>
      have hlt := ih fun d hd => h d (List.mem_append_left _ hd)
      have hc := digit_range (h c (by simp))
      rw [Nat.ofDigitChars_append, Nat.ofDigitChars_cons, Nat.ofDigitChars_nil,
        List.length_append, List.length_singleton, Nat.pow_succ]
      have h0 : '0'.toNat = 48 := rfl
      omega

/-- An integer `int` returns has few digits. -/
theorem length_toDigits_of_parseInt {s : String} {n : Int} (h : parseInt s = some n) :
    (Nat.toDigits 10 n.natAbs).length ≤ maxStrDigits := by
  unfold parseInt at h
  revert h
  cases splitSign (s.toList.map asciiDigit) with
  | mk neg cs =>
      intro h
      dsimp only at h
      split at h
      · rename_i ds hds
        split at h
        · rename_i hlen
          have hlt := ofDigitChars_lt (readDigits_eq_some hds).1
          have hn : n.natAbs = ofDigitChars 10 ds 0 := by
            cases neg with
            | true => rw [← Option.some.inj h]; simp
            | false => rw [← Option.some.inj h]; simp
          rw [hn, Nat.length_toDigits_le_iff (by omega) (by decide)]
          exact Nat.lt_of_lt_of_le hlt (Nat.pow_le_pow_right (by omega) hlen)
        · cases h
      · cases h

omit U in
/-- The text of an integer, character by character. -/
theorem toList_toString (n : Int) :
    (toString n).toList = if 0 ≤ n then Nat.toDigits 10 n.natAbs
      else '-' :: Nat.toDigits 10 n.natAbs := by
  rw [Int.toString_eq_repr, Int.repr_eq_if]
  by_cases h : 0 ≤ n
  · rw [if_pos h, if_pos h, Nat.toList_repr, show n.toNat = n.natAbs by omega]
  · rw [if_neg h, if_neg h, String.toList_append, Nat.toList_repr,
      show (-n).toNat = n.natAbs by omega]
    rfl

omit U in
theorem mem_toString {n : Int} {c : Char} (h : c ∈ (toString n).toList) :
    c = '-' ∨ c.isDigit = true := by
  rw [toList_toString] at h
  have hdig : c ∈ Nat.toDigits 10 n.natAbs → c.isDigit = true :=
    Nat.isDigit_of_mem_toDigits (by omega) (by omega)
  split at h
  · exact Or.inr (hdig h)
  · exact (List.mem_cons.mp h).imp_right hdig

omit U in
/-- The sign of an integer's text is split off. -/
theorem splitSign_toString (n : Int) :
    splitSign (toString n).toList = (decide (n < 0), Nat.toDigits 10 n.natAbs) := by
  rw [toList_toString]
  split
  · rename_i hn
    rw [decide_eq_false (by omega)]
    cases hds : Nat.toDigits 10 n.natAbs with
    | nil => rfl
    | cons c cs =>
        have hc : c.isDigit = true :=
          Nat.isDigit_of_mem_toDigits (b := 10) (n := n.natAbs) (by omega) (by omega)
            (by rw [hds]; exact List.mem_cons_self)
        unfold splitSign
        split
        · rename_i e
          rw [(List.cons.inj e).1] at hc
          exact absurd hc (by decide)
        · rename_i e
          rw [(List.cons.inj e).1] at hc
          exact absurd hc (by decide)
        · rfl
  · rename_i hn
    rw [decide_eq_true (by omega)]
    rfl

/-- **An integer `int` returned is read back from its text.** -/
theorem parseInt_toString {s : String} {n : Int} (h : parseInt s = some n) :
    parseInt (toString n) = some n := by
  have hlen := length_toDigits_of_parseInt h
  have hascii : ∀ c ∈ (toString n).toList, c.toNat < 128 := by
    intro c hc
    rcases mem_toString hc with rfl | hd
    · decide
    · have := digit_range hd
      omega
  have hread : readDigits (Nat.toDigits 10 n.natAbs) = some (Nat.toDigits 10 n.natAbs) :=
    readDigits_of_digits Nat.toDigits_ne_nil fun c hc =>
      Nat.isDigit_of_mem_toDigits (by omega) (by omega) hc
  unfold parseInt
  rw [map_asciiDigit hascii, splitSign_toString]
  dsimp only
  rw [hread]
  dsimp only
  rw [if_pos hlen, Nat.ofDigitChars_ten_toDigits]
  by_cases hn : n < 0
  · rw [decide_eq_true hn, if_pos rfl]
    congr 1
    omega
  · rw [decide_eq_false hn, if_neg (by simp)]
    congr 1
    omega

/-! ## 2. No number has a bar -/

omit U in
theorem mem_splitSign {cs : List Char} (h : '|' ∈ cs) : '|' ∈ (splitSign cs).2 := by
  unfold splitSign
  split
  · simpa using h
  · simpa using h
  · exact h

theorem mem_map_asciiDigit {cs : List Char} (h : '|' ∈ cs) : '|' ∈ cs.map asciiDigit :=
  List.mem_map.mpr ⟨'|', h, asciiDigit_ascii (by decide)⟩

theorem parseInt_of_bar {s : String} (h : '|' ∈ s.toList) : parseInt s = none := by
  have hbar := mem_splitSign (mem_map_asciiDigit h)
  unfold parseInt
  cases hcs : splitSign (s.toList.map asciiDigit) with
  | mk neg cs =>
      rw [hcs] at hbar
      dsimp only
      cases hr : readDigits cs with
      | none => rfl
      | some ds =>
          rcases (readDigits_eq_some hr).2 _ hbar with hd | hd
          · exact absurd hd (by decide)
          · exact absurd hd (by decide)

omit U in
theorem mem_dropUnderscores {prev : Char} {cs out : List Char}
    (h : dropUnderscores prev cs = some out) (hbar : '|' ∈ cs) : '|' ∈ out := by
  induction cs generalizing prev out with
  | nil => cases hbar
  | cons c cs ih =>
      rw [dropUnderscores] at h
      split at h
      · rename_i hc
        have hbar' : '|' ∈ cs := by
          rcases List.mem_cons.mp hbar with e | hm
          · rw [← e] at hc
            exact absurd hc (by decide)
          · exact hm
        split at h
        · exact ih h hbar'
        · cases h
      · split at h
        · cases h
        · obtain ⟨out', hout, rfl⟩ := Option.map_eq_some_iff.mp h
          rcases List.mem_cons.mp hbar with e | hm
          · rw [e]
            exact List.mem_cons_self
          · exact List.mem_cons_of_mem _ (ih hout hm)

omit U in
theorem not_all_digits_of_bar {cs : List Char} (h : '|' ∈ cs) : cs.all Char.isDigit = false := by
  by_contra hall
  rw [Bool.not_eq_false] at hall
  exact absurd (List.all_eq_true.mp hall _ h) (by decide)

omit U in
theorem mem_tail_dropWhile {p : Char → Bool} {cs : List Char} (hp : p '|' = true)
    (h : '|' ∈ cs.dropWhile p) : '|' ∈ (cs.dropWhile p).tail := by
  have hhead := List.head?_dropWhile_not p cs
  cases hd : cs.dropWhile p with
  | nil =>
      rw [hd] at h
      cases h
  | cons c rest =>
      rw [hd] at h hhead
      rcases List.mem_cons.mp h with e | hm
      · have hc : p c = false := by simpa using hhead
        rw [← e, hp] at hc
        cases hc
      · exact hm

omit U in
theorem readDecimal_of_bar {neg : Bool} {cs : List Char} (h : '|' ∈ cs) :
    readDecimal neg cs = none := by
  unfold readDecimal
  dsimp only
  generalize hmark : (fun c : Char => c != 'e' && c != 'E') = mark
  have hp : mark '|' = true := by
    rw [← hmark]
    decide
  rw [← List.takeWhile_append_dropWhile (p := mark) (l := cs), List.mem_append] at h
  generalize cs.takeWhile mark = mant at h ⊢
  by_cases hm : '|' ∈ mant
  · -- in the digits before or after the point
    rw [if_neg]
    rw [← List.takeWhile_append_dropWhile (p := (· != '.')) (l := mant), List.mem_append] at hm
    rcases hm with hw | hf
    · rw [not_all_digits_of_bar hw]
      simp
    · rw [not_all_digits_of_bar (mem_tail_dropWhile (by decide) hf)]
      simp
  · have hex := mem_tail_dropWhile hp (h.resolve_left hm)
    split
    · split
      · rename_i heq
        rw [heq] at hex
        cases hex
      · rename_i heq
        rw [heq, List.tail_cons] at hex
        rw [if_neg]
        rw [not_all_digits_of_bar (mem_splitSign hex)]
        simp
    · rfl

theorem parseFloat_of_bar {s : String} (h : '|' ∈ s.toList) : parseFloat s = none := by
  unfold parseFloat
  cases hd : dropUnderscores ' ' (s.toList.map asciiDigit) with
  | none => rfl
  | some cs =>
      have hbar := mem_splitSign (mem_dropUnderscores hd (mem_map_asciiDigit h))
      dsimp only
      have hword : '|' ∈ (String.ofList ((splitSign cs).2.map Char.toLower)).toList := by
        rw [String.toList_ofList]
        exact List.mem_map.mpr ⟨'|', hbar, by decide⟩
      generalize String.ofList ((splitSign cs).2.map Char.toLower) = word at hword ⊢
      have hwords : ∀ w ∈ ["inf", "infinity", "nan"], word ≠ w := by
        intro w hw e
        have hno : ∀ w ∈ ["inf", "infinity", "nan"], '|' ∉ w.toList := by decide
        exact hno w hw (e ▸ hword)
      rw [if_neg, if_neg (hwords "nan" (by simp)), readDecimal_of_bar hbar]
      intro hm
      rcases List.mem_cons.mp hm with e | hm
      · exact hwords _ (by simp) e
      · exact hwords _ (by simp) (List.mem_singleton.mp hm)

end Python
