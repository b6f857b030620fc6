import AutomationPlatform.Python.Value

/-!
# `app/orchestrator/review.py`: deciding a suggestion

`applyReviewDecision` returns a changed copy of the suggestion or raises on a decision it does not
know; `auditTrailEntry` builds the audit dict of the same decision and raises only when the
suggestion has no `id`. Both compute the new state, each in an expression of its own.
-/

namespace AutomationPlatform

open Python

variable {F : Type}

/-- `ValueError(f"unknown decision: {decision!r}")`. -/
inductive ReviewError where
  | unknownDecision (decision : String)
  deriving DecidableEq, Repr

/-- `KeyError(key)`. -/
inductive KeyError where
  | missing (key : String)
  deriving DecidableEq, Repr

/-- The arguments `decision, reviewer_id, notes, edits` of one `apply_review_decision` call. -/
structure ReviewCall (F : Type) where
  decision : String
  reviewerId : String
  notes : Option String
  edits : Option (Record F)

/-- `apply_review_decision(suggestion, decision, reviewer_id, notes, edits)`. -/
def applyReviewDecision (suggestion : Record F) (c : ReviewCall F) :
    Except ReviewError (Record F) :=
  if c.decision ∉ ["approve", "reject", "edit"] then
    .error (.unknownDecision c.decision)
  else
    .ok ((((suggestion.insert "state"
        (.str (if c.decision = "approve" then "approved" else "rejected"))).insert
      "reviewer_id" (.str c.reviewerId)).insert
      "review_notes" (.ofOptStr c.notes)).insert
      "review_edits" (.ofOptRecord c.edits))

/-- `audit_trail_entry(suggestion, decision, reviewer_id)`. -/
def auditTrailEntry (suggestion : Record F) (decision reviewerId : String) :
    Except KeyError (Record F) :=
  match suggestion.get? "id" with
  | none => .error (.missing "id")
  | some id =>
    .ok ⟨[ ("resource_type", .str "suggestion"),
           ("resource_id", id),
           ("action", .str ("review." ++ decision)),
           ("actor_id", .str reviewerId),
           ("before", .dict [("state", suggestion.get "state")]),
           ("after", .dict [("state",
             .str (if decision = "approve" then "approved" else "rejected"))]) ], by simp⟩

/-! ## 1. What one decision does -/

/-- The decision is one `apply_review_decision` knows. -/
def ReviewCall.Valid (c : ReviewCall F) : Prop := c.decision ∈ ["approve", "reject", "edit"]

instance (c : ReviewCall F) : Decidable c.Valid := by
  unfold ReviewCall.Valid
  infer_instance

/-- The fields a decision writes. -/
def reviewKeys : List String := ["state", "reviewer_id", "review_notes", "review_edits"]

/-- The fields a decision writes, with the values it writes. -/
def ReviewCall.written (c : ReviewCall F) : List (String × Value F) :=
  [ ("state", .str (if c.decision = "approve" then "approved" else "rejected")),
    ("reviewer_id", .str c.reviewerId),
    ("review_notes", .ofOptStr c.notes),
    ("review_edits", .ofOptRecord c.edits) ]

theorem applyReviewDecision_invalid {c : ReviewCall F} (h : ¬ c.Valid) (s : Record F) :
    applyReviewDecision s c = .error (.unknownDecision c.decision) := if_pos h

/-- **What an accepted decision returns**: the written fields are overlaid on the suggestion,
    every other key is as before. -/
theorem applyReviewDecision_valid {c : ReviewCall F} (h : c.Valid) (s : Record F) :
    ∃ s', applyReviewDecision s c = .ok s' ∧
      ∀ k, s'.get? k = (c.written.lookup k).or (s.get? k) := by
  refine ⟨_, if_neg (not_not_intro h), fun k => ?_⟩
  simp only [Dict.get?_insert, ReviewCall.written, List.lookup_cons, List.lookup_nil]
  by_cases h1 : k = "review_edits"
  · simp [h1]
  by_cases h2 : k = "review_notes"
  · simp [h2]
  by_cases h3 : k = "reviewer_id"
  · simp [h3]
  by_cases h4 : k = "state"
  · simp [h4]
  have hb : ∀ {l : String}, ¬ k = l → (k == l) = false := fun h => by simpa using h
  rw [if_neg h1, if_neg h2, if_neg h3, if_neg h4, hb h1, hb h2, hb h3, hb h4]
  rfl

theorem applyReviewDecision_ok {c : ReviewCall F} {s s' : Record F}
    (h : applyReviewDecision s c = .ok s') :
    c.Valid ∧ ∀ k, s'.get? k = (c.written.lookup k).or (s.get? k) := by
  by_cases hc : c.Valid
  · obtain ⟨s'', hs, hk⟩ := applyReviewDecision_valid hc s
    rw [hs] at h
    cases h
    exact ⟨hc, hk⟩
  · rw [applyReviewDecision_invalid hc] at h
    cases h

theorem get_state_of_ok {c : ReviewCall F} {s s' : Record F}
    (h : applyReviewDecision s c = .ok s') :
    s'.get "state" = .str (if c.decision = "approve" then "approved" else "rejected") := by
  refine Record.get_of_get? (((applyReviewDecision_ok h).2 "state").trans ?_)
  simp [ReviewCall.written]

theorem get_reviewerId_of_ok {c : ReviewCall F} {s s' : Record F}
    (h : applyReviewDecision s c = .ok s') : s'.get "reviewer_id" = .str c.reviewerId := by
  refine Record.get_of_get? (((applyReviewDecision_ok h).2 "reviewer_id").trans ?_)
  simp [ReviewCall.written, List.lookup_cons]

/-! ## 2. A suggestion under a sequence of calls -/

/-- One call on the suggestion a caller holds: a call that raises leaves it as it was. -/
def applyCall (s : Record F) (c : ReviewCall F) : Record F :=
  match applyReviewDecision s c with
  | .ok s' => s'
  | .error _ => s

theorem applyCall_invalid {c : ReviewCall F} (h : ¬ c.Valid) (s : Record F) :
    applyCall s c = s := by
  unfold applyCall
  rw [applyReviewDecision_invalid h]

theorem get?_applyCall_valid {c : ReviewCall F} (h : c.Valid) (s : Record F) (k : String) :
    (applyCall s c).get? k = (c.written.lookup k).or (s.get? k) := by
  obtain ⟨s', hs, hk⟩ := applyReviewDecision_valid h s
  unfold applyCall
  rw [hs]
  exact hk k

theorem isSome_lookup_written (c : ReviewCall F) {k : String} (hk : k ∈ reviewKeys) :
    (c.written.lookup k).isSome := by
  simp only [reviewKeys, List.mem_cons, List.not_mem_nil, or_false] at hk
  rcases hk with rfl | rfl | rfl | rfl <;> simp [ReviewCall.written, List.lookup_cons]

/-- A known decision overwrites every review field, whatever it held. -/
theorem get?_applyCall_reviewKeys {c : ReviewCall F} (h : c.Valid) (s : Record F) {k : String}
    (hk : k ∈ reviewKeys) : (applyCall s c).get? k = c.written.lookup k := by
  obtain ⟨v, hv⟩ := Option.isSome_iff_exists.mp (isSome_lookup_written c hk)
  rw [get?_applyCall_valid h, hv]
  rfl

/-- No decision writes any other field. -/
theorem get?_applyCall_other {k : String} (hk : k ∉ reviewKeys) (s : Record F)
    (c : ReviewCall F) : (applyCall s c).get? k = s.get? k := by
  by_cases h : c.Valid
  · have hnone : c.written.lookup k = none := by
      simp only [reviewKeys, List.mem_cons, List.not_mem_nil, or_false, not_or] at hk
      simp [ReviewCall.written, List.lookup_cons, beq_false_of_ne hk.1, beq_false_of_ne hk.2.1,
        beq_false_of_ne hk.2.2.1, beq_false_of_ne hk.2.2.2]
    rw [get?_applyCall_valid h, hnone]
    rfl
  · rw [applyCall_invalid h]

/-! ## 3. Audit entries -/

/-- `entry["before"]["state"]`. -/
def beforeState (e : Record F) : Value F := (e.get "before").member "state"

/-- `entry["after"]["state"]`. -/
def afterState (e : Record F) : Value F := (e.get "after").member "state"

/-- **What an audit entry records.** -/
theorem auditTrailEntry_ok {s e : Record F} {decision reviewerId : String}
    (h : auditTrailEntry s decision reviewerId = .ok e) :
    e.get? "resource_id" = s.get? "id" ∧ beforeState e = s.get "state" ∧
      afterState e = .str (if decision = "approve" then "approved" else "rejected") ∧
      e.get "actor_id" = .str reviewerId := by
  unfold auditTrailEntry at h
  split at h
  · cases h
  · rename_i id hid
    cases h
    simp [beforeState, afterState, Value.member, Record.get, Dict.get?, List.lookup_cons] at hid ⊢
    exact hid.symm

theorem auditTrailEntry_isOk {s : Record F} {v : Value F} (h : s.get? "id" = some v)
    (decision reviewerId : String) : ∃ e, auditTrailEntry s decision reviewerId = .ok e := by
  unfold auditTrailEntry
  rw [h]
  exact ⟨_, rfl⟩

end AutomationPlatform
