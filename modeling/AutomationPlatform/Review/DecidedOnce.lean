import AutomationPlatform.Library.Runs
import AutomationPlatform.Orchestrator.Review
import AutomationPlatform.Orchestrator.Suggestions
import Mathlib.Algebra.Order.Ring.Unbundled.Rat
import Mathlib.Data.Rat.Defs
import Mathlib.Tactic.NormNum

/-!
# A suggestion is decided once -- and when it is not

`applyReviewDecision` never looks at the state of the suggestion it is given. So a second decision
replaces the first, and a decision on an auto-approved suggestion replaces the approval. This file
says exactly which sequences of calls leave a decided suggestion alone:

* on an auto-approved suggestion, those without a known decision;
* on a pending one, those whose known decisions all write the same four values.
-/

namespace AutomationPlatform

open Python Runs

variable {F : Type}

/-- **Decided once**: from the first moment of the run at which the suggestion is not pending, no
    later call changes a review field. -/
def DecidedOnce (s : Record F) (calls : List (ReviewCall F)) : Prop :=
  ∀ pre mid, pre ++ mid <+: calls →
    (run applyCall s pre).get "state" ≠ .str "pending_review" →
    ∀ k ∈ reviewKeys, (run applyCall s (pre ++ mid)).get? k = (run applyCall s pre).get? k

/-- Two calls that would leave the same outcome on the suggestion. -/
structure ReviewCall.SameOutcome (c c' : ReviewCall F) : Prop where
  approve : c.decision = "approve" ↔ c'.decision = "approve"
  reviewerId : c.reviewerId = c'.reviewerId
  notes : c.notes = c'.notes
  edits : c.edits = c'.edits

/-! ## 1. What a run leaves in the review fields -/

/-- A known decision never leaves the suggestion pending. -/
theorem applyCall_not_pending {c : ReviewCall F} (h : c.Valid) (s : Record F) :
    (applyCall s c).get "state" ≠ .str "pending_review" := by
  have hs := get?_applyCall_reviewKeys h s (k := "state") (by simp [reviewKeys])
  have hv : c.written.lookup "state" =
      some (.str (if c.decision = "approve" then "approved" else "rejected")) := by
    simp [ReviewCall.written]
  rw [Record.get_of_get? (hs.trans hv)]
  by_cases hd : c.decision = "approve" <;> simp [hd]

theorem run_all_invalid {calls : List (ReviewCall F)} (h : ∀ c ∈ calls, ¬ c.Valid)
    (s : Record F) : run applyCall s calls = s := by
  induction calls generalizing s with
  | nil => rfl
  | cons c calls ih =>
    rw [run_cons, applyCall_invalid (h c List.mem_cons_self)]
    exact ih (fun c' hc' => h c' (List.mem_cons_of_mem _ hc')) s

/-- When all known decisions of a sequence write `w`, the run has either met none of them or left
    `w` in the review fields. -/
theorem run_uniform {w : List (String × Value F)} {calls : List (ReviewCall F)}
    (h : ∀ c ∈ calls, c.Valid → c.written = w) (s : Record F) :
    run applyCall s calls = s ∨
      ∀ k ∈ reviewKeys, (run applyCall s calls).get? k = w.lookup k := by
  induction calls using List.reverseRec with
  | nil => exact Or.inl rfl
  | append_singleton calls c ih =>
    rw [run_append_singleton]
    by_cases hc : c.Valid
    · right
      intro k hk
      rw [get?_applyCall_reviewKeys hc _ hk, h c (by simp) hc]
    · rw [applyCall_invalid hc]
      exact ih fun c' hc' => h c' (List.mem_append_left _ hc')

theorem ReviewCall.written_eq {c c' : ReviewCall F} (h : c.SameOutcome c') :
    c.written = c'.written := by
  simp only [ReviewCall.written, h.approve, h.reviewerId, h.notes, h.edits]

theorem ofOptStr_injective : Function.Injective (Value.ofOptStr (F := F)) := by
  intro a b h
  cases a <;> cases b <;> simp_all [Value.ofOptStr]

theorem ofOptRecord_injective : Function.Injective (Value.ofOptRecord (F := F)) := by
  intro a b h
  cases a <;> cases b <;> simp_all [Value.ofOptRecord, Record.toValue]
  exact Dict.ext h

theorem ReviewCall.sameOutcome_of_lookup {c c' : ReviewCall F}
    (h : ∀ k ∈ reviewKeys, c.written.lookup k = c'.written.lookup k) : c.SameOutcome c' := by
  have h1 := h "state" (by simp [reviewKeys])
  have h2 := h "reviewer_id" (by simp [reviewKeys])
  have h3 := h "review_notes" (by simp [reviewKeys])
  have h4 := h "review_edits" (by simp [reviewKeys])
  simp only [ReviewCall.written, List.lookup_cons, List.lookup_nil] at h1 h2 h3 h4
  refine ⟨?_, by simpa using h2, ofOptStr_injective (by simpa using h3),
    ofOptRecord_injective (by simpa using h4)⟩
  by_cases ha : c.decision = "approve" <;> by_cases hb : c'.decision = "approve" <;>
    simp_all

/-! ## 2. The exact condition -/

/-- In a run that decides once, of two known decisions the later one repeats the earlier. -/
theorem DecidedOnce.repeats {s : Record F} {l m r : List (ReviewCall F)} {c c' : ReviewCall F}
    (h : DecidedOnce s (l ++ c :: (m ++ c' :: r))) (hc : c.Valid) (hc' : c'.Valid) :
    c.SameOutcome c' := by
  have hpre : (l ++ [c]) ++ (m ++ [c']) <+: l ++ c :: (m ++ c' :: r) := ⟨r, by simp⟩
  have hdec : (run applyCall s (l ++ [c])).get "state" ≠ .str "pending_review" := by
    rw [run_append_singleton]
    exact applyCall_not_pending hc _
  refine ReviewCall.sameOutcome_of_lookup fun k hk => ?_
  have hkeep := h (l ++ [c]) (m ++ [c']) hpre hdec k hk
  rw [← List.append_assoc, run_append_singleton, run_append_singleton,
    get?_applyCall_reviewKeys hc _ hk, get?_applyCall_reviewKeys hc' _ hk] at hkeep
  exact hkeep.symm

theorem ReviewCall.SameOutcome.symm {c c' : ReviewCall F} (h : c.SameOutcome c') :
    c'.SameOutcome c :=
  ⟨h.approve.symm, h.reviewerId.symm, h.notes.symm, h.edits.symm⟩

/-- The condition: what a sequence of calls may hold so that a decided suggestion is left alone. -/
structure SettlesOnce (autoApproved : Bool) (calls : List (ReviewCall F)) : Prop where
  bypassed : autoApproved = true → ∀ c ∈ calls, ¬ c.Valid
  reviewed : autoApproved = false →
    ∀ c ∈ calls, ∀ c' ∈ calls, c.Valid → c'.Valid → c.SameOutcome c'

section

/-- A suggestion, decided or not when it is made, that is decided once. -/
theorem settlesOnce_of_decidedOnce {s : Record F} {auto : Bool}
    (hstate : s.get? "state" = some (.str (if auto then "approved" else "pending_review")))
    (hnew : s.get? "reviewer_id" = none) {calls : List (ReviewCall F)}
    (h : DecidedOnce s calls) : SettlesOnce auto calls := by
  refine ⟨fun hauto c hmem hc => ?_, fun _ c hmem c' hmem' hc hc' => ?_⟩
  · -- the approval at creation is the decision; the call then sets a reviewer
    obtain ⟨l, r, rfl⟩ := List.append_of_mem hmem
    have hdec : (run applyCall s []).get "state" ≠ .str "pending_review" := by
      rw [run_nil, Record.get_of_get? hstate, hauto]
      simp
    have hkeep := h [] (l ++ [c]) ⟨r, by simp⟩ hdec "reviewer_id" (by simp [reviewKeys])
    rw [List.nil_append, run_append_singleton,
      get?_applyCall_reviewKeys hc _ (by simp [reviewKeys]), run_nil, hnew] at hkeep
    simp [ReviewCall.written, List.lookup_cons] at hkeep
  · obtain ⟨l, r, rfl⟩ := List.append_of_mem hmem
    rcases List.mem_append.mp hmem' with hl | hr
    · obtain ⟨l1, l2, rfl⟩ := List.append_of_mem hl
      rw [List.append_assoc, List.cons_append] at h
      exact (h.repeats hc' hc).symm
    · rcases List.mem_cons.mp hr with rfl | hr
      · exact ⟨Iff.rfl, rfl, rfl, rfl⟩
      · obtain ⟨r1, r2, rfl⟩ := List.append_of_mem hr
        exact h.repeats hc hc'

theorem decidedOnce_of_settlesOnce {s : Record F} {auto : Bool}
    (hstate : s.get? "state" = some (.str (if auto then "approved" else "pending_review")))
    {calls : List (ReviewCall F)} (h : SettlesOnce auto calls) : DecidedOnce s calls := by
  intro pre mid hpre hdec k hk
  have hsub : ∀ c ∈ pre ++ mid, c ∈ calls := fun c hc => hpre.subset hc
  by_cases hex : ∃ c ∈ calls, c.Valid
  · obtain ⟨c0, hc0, hv0⟩ := hex
    have hauto : auto = false := by
      rw [Bool.eq_false_iff]
      exact fun e => h.bypassed e c0 hc0 hv0
    have hw : ∀ c ∈ calls, c.Valid → c.written = c0.written := fun c hc hv =>
      ReviewCall.written_eq (h.reviewed hauto c hc c0 hc0 hv hv0)
    have hpend : run applyCall s pre ≠ s := by
      intro e
      rw [e, Record.get_of_get? hstate, hauto] at hdec
      simp at hdec
    -- the outcome is in place after `pre`, so it is still there after `pre ++ mid`
    have hfix := (run_uniform (fun c hc => hw c (hsub c (List.mem_append_left _ hc)))
      s).resolve_left hpend
    rw [run_append, hfix k hk]
    rcases run_uniform (fun c hc => hw c (hsub c (List.mem_append_right _ hc)))
      (run applyCall s pre) with e | hlater
    · rw [e, hfix k hk]
    · exact hlater k hk
  · have hinv : ∀ c ∈ calls, ¬ c.Valid := fun c hc hv => hex ⟨c, hc, hv⟩
    rw [run_all_invalid (fun c hc => hinv c (hsub c hc)),
      run_all_invalid fun c hc => hinv c (hsub c (List.mem_append_left _ hc))]

variable [OfScientific F] [LE F] [DecidableLE F]

/-- **A suggestion is decided once exactly when no known decision reaches it after it is decided,
    other than one that repeats the outcome it has.** -/
theorem decidedOnce_iff_settlesOnce (id createdAt ingestedRowId templateId : String)
    (payload : Record F) (confidence : F) (calls : List (ReviewCall F)) :
    DecidedOnce (makeSuggestion id createdAt ingestedRowId templateId payload confidence) calls ↔
      SettlesOnce (shouldAutoApprove confidence) calls := by
  have hstate := makeSuggestion_get?_state id createdAt ingestedRowId templateId payload confidence
  have hnew := makeSuggestion_get?_review id createdAt ingestedRowId templateId payload confidence
    (k := "reviewer_id") (by simp)
  exact ⟨settlesOnce_of_decidedOnce hstate hnew, decidedOnce_of_settlesOnce hstate⟩

end

/-- One `reject` turns an auto-approved suggestion into a rejected one. -/
theorem not_decidedOnce_autoApproved :
    ¬ DecidedOnce (makeSuggestion "s1" "2026-07-04T00:00:00+00:00" "row-1" "tpl-1" Dict.empty
        (0.95 : ℚ)) [⟨"reject", "u1", none, none⟩] := by
  intro h
  have hauto : shouldAutoApprove (0.95 : ℚ) = true := by
    simp only [shouldAutoApprove, autoApproveThreshold]
    norm_num
  have hc : (⟨"reject", "u1", none, none⟩ : ReviewCall ℚ).Valid := by simp [ReviewCall.Valid]
  have hstate := makeSuggestion_get?_state "s1" "2026-07-04T00:00:00+00:00" "row-1" "tpl-1"
    Dict.empty (0.95 : ℚ)
  have hkeep := h [] [⟨"reject", "u1", none, none⟩] ⟨[], rfl⟩
    (by rw [run_nil, Record.get_of_get? hstate, hauto]; simp) "state" (by simp [reviewKeys])
  rw [List.nil_append, run_cons, run_nil, run_nil, get?_applyCall_reviewKeys hc _
    (by simp [reviewKeys]), hstate, hauto] at hkeep
  simp [ReviewCall.written] at hkeep

end AutomationPlatform
