import AutomationPlatform.Python.Value

/-!
# `app/orchestrator/templates.py`: the payload of a template

`validate_template_payload` looks at three fields. `TemplatePayload` is what it accepts as a type:
two lists, a list that is not empty, and whatever else the dict holds.

* `mem_validateTemplatePayload_iff`: every error is about the field it names;
* **`templatePayload_roundTrips`**: the payloads without errors are those that decode, and decoding
  and encoding undo each other.

The fields are not checked to hold names: a list of numbers is accepted for `inputs`.
-/

namespace AutomationPlatform

open Python

variable {F : Type}

/-! ## 1. The checks -/

/-- `payload[key]`, if it is a list. -/
def listField (payload : Record F) (key : String) : Option (List (Value F)) :=
  match payload.get? key with
  | some (.list xs) => some xs
  | _ => none

/-- `if key not in payload or not isinstance(payload[key], list): errors.append(message)`. -/
def listErrors (payload : Record F) (key message : String) : List String :=
  if (listField payload key).isNone then [message] else []

def inputsErrors (payload : Record F) : List String :=
  listErrors payload "inputs" "payload.inputs must be a list"

def outputsErrors (payload : Record F) : List String :=
  listErrors payload "outputs" "payload.outputs must be a list"

/-- The one check with an `elif`: an empty list has the same message. -/
def rulesErrors (payload : Record F) : List String :=
  match listField payload "rules" with
  | none => ["payload.rules must be a non-empty list"]
  | some rules => if rules.length = 0 then ["payload.rules must be a non-empty list"] else []

/-- `validate_template_payload(payload)`. -/
def validateTemplatePayload (payload : Record F) : List String :=
  inputsErrors payload ++ outputsErrors payload ++ rulesErrors payload

theorem listField_eq_some_iff {payload : Record F} {key : String} {xs : List (Value F)} :
    listField payload key = some xs ↔ payload.get? key = some (.list xs) := by
  unfold listField
  split
  · rename_i ys h
    simp [h]
  · rename_i h
    exact ⟨fun e => (by cases e), fun e => absurd e (h xs)⟩

/-- The field a message names, with what it has to hold. -/
def FieldOk (payload : Record F) (key : String) : Prop :=
  ∃ xs, payload.get? key = some (.list xs) ∧ (key = "rules" → xs ≠ [])

theorem listErrors_eq_nil_iff {payload : Record F} {key message : String} (hk : key ≠ "rules") :
    listErrors payload key message = [] ↔ FieldOk payload key := by
  unfold listErrors FieldOk
  cases h : listField payload key with
  | none =>
      refine ⟨fun e => (by cases e), fun ⟨xs, hxs, _⟩ => ?_⟩
      rw [listField_eq_some_iff.mpr hxs] at h
      cases h
  | some xs => exact ⟨fun _ => ⟨xs, listField_eq_some_iff.mp h, fun e => absurd e hk⟩, fun _ => rfl⟩

theorem rulesErrors_eq_nil_iff {payload : Record F} :
    rulesErrors payload = [] ↔ FieldOk payload "rules" := by
  unfold rulesErrors FieldOk
  cases h : listField payload "rules" with
  | none =>
      refine ⟨fun e => (by cases e), fun ⟨xs, hxs, _⟩ => ?_⟩
      rw [listField_eq_some_iff.mpr hxs] at h
      cases h
  | some rules =>
      have hget := listField_eq_some_iff.mp h
      rw [hget]
      cases rules with
      | nil => simp
      | cons rule rules => simp

/-- The fields with the messages about them. -/
def payloadChecks : List (String × String) := [
  ("inputs", "payload.inputs must be a list"), ("outputs", "payload.outputs must be a list"),
  ("rules", "payload.rules must be a non-empty list")]

/-- **Every error is about the field it names**, and there is one for each field that fails. -/
theorem mem_validateTemplatePayload_iff {payload : Record F} {message : String} :
    message ∈ validateTemplatePayload payload ↔
      ∃ c ∈ payloadChecks, c.2 = message ∧ ¬ FieldOk payload c.1 := by
  have hlist : ∀ {key m : String}, key ≠ "rules" →
      (message ∈ listErrors payload key m ↔ m = message ∧ ¬ FieldOk payload key) := by
    intro key m hk
    have hnil : listErrors payload key m = [] ↔ FieldOk payload key := listErrors_eq_nil_iff hk
    rw [← hnil]
    unfold listErrors
    split <;> simp [eq_comm]
  have hrules : message ∈ rulesErrors payload ↔
      "payload.rules must be a non-empty list" = message ∧ ¬ FieldOk payload "rules" := by
    rw [← rulesErrors_eq_nil_iff]
    unfold rulesErrors
    split
    · simp [eq_comm]
    · split <;> simp [eq_comm]
  unfold validateTemplatePayload inputsErrors outputsErrors
  rw [List.mem_append, List.mem_append, hlist (by decide), hlist (by decide), hrules]
  simp [payloadChecks, or_assoc]

/-! ## 2. What is accepted -/

/-- A payload without errors; `other` is what no check looks at. -/
structure TemplatePayload (F : Type) where
  inputs : List (Value F)
  outputs : List (Value F)
  rules : List (Value F)
  other : Record F
  rules_ne : rules ≠ []
  other_free : ∀ k ∈ ["inputs", "outputs", "rules"], other.get? k = none

namespace TemplatePayload

def encode (p : TemplatePayload F) : Record F :=
  ((p.other.insert "inputs" (.list p.inputs)).insert "outputs" (.list p.outputs)).insert
    "rules" (.list p.rules)

/-- The fields no check looks at. -/
def rest (payload : Record F) : Record F :=
  ((payload.erase "rules").erase "outputs").erase "inputs"

theorem rest_free (payload : Record F) :
    ∀ k ∈ ["inputs", "outputs", "rules"], (rest payload).get? k = none := by
  intro k hk
  simp only [List.mem_cons, List.not_mem_nil, or_false] at hk
  rcases hk with rfl | rfl | rfl <;> simp [rest]

def decode (payload : Record F) : Option (TemplatePayload F) :=
  match listField payload "inputs", listField payload "outputs", listField payload "rules" with
  | some inputs, some outputs, some (rule :: rules) =>
    some ⟨inputs, outputs, rule :: rules, rest payload, List.cons_ne_nil _ _, rest_free payload⟩
  | _, _, _ => none

/-- **What decodes.** -/
theorem decode_eq_some_iff {payload : Record F} {p : TemplatePayload F} :
    decode payload = some p ↔ payload.get? "inputs" = some (.list p.inputs) ∧
      payload.get? "outputs" = some (.list p.outputs) ∧
      payload.get? "rules" = some (.list p.rules) ∧ p.other = rest payload := by
  rw [← listField_eq_some_iff, ← listField_eq_some_iff, ← listField_eq_some_iff]
  obtain ⟨inputs, outputs, rules, other, hne, hfree⟩ := p
  unfold decode
  split
  · rename_i inputs' outputs' rule rules' hi ho hr
    rw [hi, ho, hr]
    simp only [Option.some.injEq, mk.injEq]
    exact ⟨fun ⟨h1, h2, h3, h4⟩ => ⟨h1, h2, h3, h4.symm⟩,
      fun ⟨h1, h2, h3, h4⟩ => ⟨h1, h2, h3, h4.symm⟩⟩
  · rename_i hnone
    refine ⟨fun e => (by cases e), fun ⟨hi, ho, hr, _⟩ => ?_⟩
    cases rules with
    | nil => exact absurd rfl hne
    | cons rule rules => exact absurd hr (hnone _ _ _ _ hi ho)

theorem isSome_decode_iff {payload : Record F} :
    (decode payload).isSome = true ↔ validateTemplatePayload payload = [] := by
  unfold validateTemplatePayload inputsErrors outputsErrors
  rw [List.append_eq_nil_iff, List.append_eq_nil_iff, listErrors_eq_nil_iff (by decide),
    listErrors_eq_nil_iff (by decide), rulesErrors_eq_nil_iff, Option.isSome_iff_exists]
  constructor
  · rintro ⟨p, hp⟩
    obtain ⟨hi, ho, hr, -⟩ := decode_eq_some_iff.mp hp
    exact ⟨⟨⟨_, hi, fun e => absurd e (by decide)⟩, _, ho, fun e => absurd e (by decide)⟩, _, hr,
      fun _ => p.rules_ne⟩
  · rintro ⟨⟨⟨inputs, hi, -⟩, outputs, ho, -⟩, rules, hr, hne⟩
    exact ⟨⟨inputs, outputs, rules, rest payload, hne rfl, rest_free payload⟩,
      decode_eq_some_iff.mpr ⟨hi, ho, hr, rfl⟩⟩

theorem rest_encode (p : TemplatePayload F) : rest p.encode = p.other := by
  have hinputs := p.other_free "inputs" (by simp)
  have houtputs := p.other_free "outputs" (by simp)
  have hrules := p.other_free "rules" (by simp)
  unfold rest encode
  rw [Dict.erase_insert_self (by simp [hrules]), Dict.erase_insert_self (by simp [houtputs]),
    Dict.erase_insert_self hinputs]

theorem decode_encode (p : TemplatePayload F) : decode p.encode = some p :=
  decode_eq_some_iff.mpr ⟨by simp [encode], by simp [encode], by simp [encode],
    (rest_encode p).symm⟩

theorem encode_same {payload : Record F} {p : TemplatePayload F} (h : decode payload = some p) :
    p.encode.Same payload := by
  obtain ⟨hi, ho, hr, hother⟩ := decode_eq_some_iff.mp h
  intro k
  unfold encode
  rw [hother, Dict.get?_insert, Dict.get?_insert, Dict.get?_insert]
  by_cases h1 : k = "rules"
  · rw [if_pos h1, h1, hr]
  by_cases h2 : k = "outputs"
  · rw [if_neg h1, if_pos h2, h2, ho]
  by_cases h3 : k = "inputs"
  · rw [if_neg h1, if_neg h2, if_pos h3, h3, hi]
  rw [if_neg h1, if_neg h2, if_neg h3]
  simp [rest, h1, h2, h3]

end TemplatePayload

/-- **Validation accepts what decodes**: the payloads without errors are the encodings of typed
    payloads, and of no two the same. -/
theorem templatePayload_roundTrips :
    (∀ payload : Record F, validateTemplatePayload payload = [] ↔
      ∃ p, TemplatePayload.decode payload = some p ∧ p.encode.Same payload) ∧
    (∀ p : TemplatePayload F, validateTemplatePayload p.encode = [] ∧
      TemplatePayload.decode p.encode = some p) ∧
    ∀ (payload : Record F) (message : String), message ∈ validateTemplatePayload payload ↔
      ∃ c ∈ payloadChecks, c.2 = message ∧ ¬ FieldOk payload c.1 := by
  refine ⟨fun payload => ?_, fun p => ?_, fun _ _ => mem_validateTemplatePayload_iff⟩
  · rw [← TemplatePayload.isSome_decode_iff, Option.isSome_iff_exists]
    exact ⟨fun ⟨p, hp⟩ => ⟨p, hp, TemplatePayload.encode_same hp⟩, fun ⟨p, hp, _⟩ => ⟨p, hp⟩⟩
  · have hp := p.decode_encode
    exact ⟨TemplatePayload.isSome_decode_iff.mp (by rw [hp]; rfl), hp⟩

end AutomationPlatform
