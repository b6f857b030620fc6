import AutomationPlatform.Orchestrator.Review

/-!
# What a decision is documented to do

A reviewer approves, rejects, or edits a suggestion before its mapping is applied. The code chooses
the state by a two-way expression, so an edit rejects the suggestion, and it notes the edits under a
key of their own in place of applying them to the payload.

* `decided_iff`: what an accepted call does, against what it should do;
* **`documentedEffect_iff`**: for which suggestions and calls it is the documented effect.
-/

namespace AutomationPlatform

open Python

variable {F : Type}

/-- `{**payload, **edits}`. -/
def overlay (payload : Value F) (edits : Record F) : Value F :=
  match payload with
  | .dict ms => .dict (Dict.ofList (ms ++ edits.items)).items
  | _ => edits.toValue

/-- The payload with the edits of the call applied to it. -/
def editedPayload (s : Record F) : Option (Record F) → Option (Value F)
  | some e => some (overlay (s.get "payload") e)
  | none => s.get? "payload"

/-- The call is accepted: it sets state and payload as given, records reviewer and notes, and leaves
    every other key of the suggestion as it was. -/
def Decided (s : Record F) (c : ReviewCall F) (state : String) (payload : Option (Value F)) :
    Prop :=
  ∃ s', applyReviewDecision s c = .ok s' ∧ s'.get? "state" = some (.str state) ∧
    s'.get? "payload" = payload ∧ s'.get? "reviewer_id" = some (.str c.reviewerId) ∧
    s'.get? "review_notes" = some (.ofOptStr c.notes) ∧
    ∀ k ∈ s.keys, k ∉ ["state", "payload", "reviewer_id", "review_notes"] →
      s'.get? k = s.get? k

/-- **The documented effect of a decision.** -/
def DocumentedEffect (s : Record F) (c : ReviewCall F) : Prop :=
  if c.decision = "approve" then Decided s c "approved" (s.get? "payload")
  else if c.decision = "reject" then Decided s c "rejected" (s.get? "payload")
  else if c.decision = "edit" then Decided s c "approved" (editedPayload s c.edits)
  else (∃ e, applyReviewDecision s c = .error e) ∧ applyCall s c = s

/-- The suggestion holds no edits but those of the call. -/
def NoOtherEdits (s : Record F) (c : ReviewCall F) : Prop :=
  ∀ v, s.get? "review_edits" = some v → v = .ofOptRecord c.edits

/-- **What an accepted call does**: the state of the two-way expression, the payload untouched, and
    the edits of the call in place of any the suggestion held. -/
theorem decided_iff {c : ReviewCall F} (h : c.Valid) (s : Record F) (state : String)
    (payload : Option (Value F)) : Decided s c state payload ↔
      state = (if c.decision = "approve" then "approved" else "rejected") ∧
        payload = s.get? "payload" ∧ NoOtherEdits s c := by
  obtain ⟨s', hs, hget⟩ := applyReviewDecision_valid h s
  have hstate : s'.get? "state" =
      some (.str (if c.decision = "approve" then "approved" else "rejected")) := by
    simp [hget, ReviewCall.written]
  have hpayload : s'.get? "payload" = s.get? "payload" := by
    simp [hget, ReviewCall.written, List.lookup_cons]
  have hreviewer : s'.get? "reviewer_id" = some (.str c.reviewerId) := by
    simp [hget, ReviewCall.written, List.lookup_cons]
  have hnotes : s'.get? "review_notes" = some (.ofOptStr c.notes) := by
    simp [hget, ReviewCall.written, List.lookup_cons]
  have hedits : s'.get? "review_edits" = some (.ofOptRecord c.edits) := by
    simp [hget, ReviewCall.written, List.lookup_cons]
  have hother : ∀ k, k ∉ reviewKeys → s'.get? k = s.get? k := by
    intro k hk
    have hcall : applyCall s c = s' := by
      unfold applyCall
      rw [hs]
    rw [← hcall]
    exact get?_applyCall_other hk s c
  refine ⟨?_, ?_⟩
  · rintro ⟨s'', hs'', h1, h2, -, -, hframe⟩
    obtain rfl : s' = s'' := Except.ok.inj (hs.symm.trans hs'')
    refine ⟨?_, h2.symm.trans hpayload, fun v hv => ?_⟩
    · rw [hstate] at h1
      exact (Value.str.inj (Option.some.inj h1)).symm
    · have hkept := hframe "review_edits" (Dict.mem_keys_iff.mpr ⟨v, hv⟩) (by decide)
      rw [hedits, hv] at hkept
      exact (Option.some.inj hkept).symm
  · rintro ⟨h1, h2, hno⟩
    refine ⟨s', hs, h1 ▸ hstate, h2 ▸ hpayload, hreviewer, hnotes, fun k hk hout => ?_⟩
    by_cases hkey : k = "review_edits"
    · obtain ⟨v, hv⟩ := Dict.mem_keys_iff.mp hk
      rw [hkey] at hv ⊢
      rw [hedits, hv, hno v hv]
    · refine hother k fun hin => ?_
      simp only [reviewKeys, List.mem_cons, List.not_mem_nil, or_false, not_or] at hin hout
      rcases hin with rfl | rfl | rfl | rfl
      · exact hout.1 rfl
      · exact hout.2.2.1 rfl
      · exact hout.2.2.2 rfl
      · exact hkey rfl

/-- **Which calls have the documented effect**: none that edits, and an approval or a rejection
    unless it overwrites the edits of an earlier decision. -/
theorem documentedEffect_iff (s : Record F) (c : ReviewCall F) :
    DocumentedEffect s c ↔ c.decision ≠ "edit" ∧ (c.Valid → NoOtherEdits s c) := by
  unfold DocumentedEffect
  by_cases happrove : c.decision = "approve"
  · have hvalid : c.Valid := by simp [ReviewCall.Valid, happrove]
    rw [if_pos happrove, decided_iff hvalid, if_pos happrove, happrove]
    exact ⟨fun ⟨_, _, hno⟩ => ⟨by decide, fun _ => hno⟩, fun ⟨_, hno⟩ => ⟨rfl, rfl, hno hvalid⟩⟩
  rw [if_neg happrove]
  by_cases hreject : c.decision = "reject"
  · have hvalid : c.Valid := by simp [ReviewCall.Valid, hreject]
    rw [if_pos hreject, decided_iff hvalid, if_neg happrove, hreject]
    exact ⟨fun ⟨_, _, hno⟩ => ⟨by decide, fun _ => hno⟩, fun ⟨_, hno⟩ => ⟨rfl, rfl, hno hvalid⟩⟩
  rw [if_neg hreject]
  by_cases hedit : c.decision = "edit"
  · -- an edit rejects the suggestion
    have hvalid : c.Valid := by simp [ReviewCall.Valid, hedit]
    rw [if_pos hedit, decided_iff hvalid, if_neg happrove]
    exact ⟨fun ⟨hstate, _⟩ => absurd hstate (by decide), fun ⟨hne, _⟩ => absurd hedit hne⟩
  · have hinvalid : ¬ c.Valid := by simp [ReviewCall.Valid, happrove, hreject, hedit]
    rw [if_neg hedit]
    exact ⟨fun _ => ⟨hedit, fun hv => absurd hv hinvalid⟩,
      fun _ => ⟨⟨_, applyReviewDecision_invalid hinvalid s⟩, applyCall_invalid hinvalid s⟩⟩

/-- A reviewer corrects the total of a pending suggestion. -/
theorem not_documentedEffect_edit : ¬ DocumentedEffect
    (Dict.ofList [("id", .str "s1"), ("payload", .dict [("total", .int 5)]),
      ("state", .str "pending_review")] : Record Unit)
    ⟨"edit", "u1", none, some (Dict.ofList [("total", .int 7)])⟩ := by
  rintro ⟨s', hs, hstate, -⟩
  rw [← Except.ok.inj hs] at hstate
  revert hstate
  decide

end AutomationPlatform
