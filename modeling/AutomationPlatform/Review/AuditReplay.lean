import AutomationPlatform.Library.Runs
import AutomationPlatform.Orchestrator.Review
import Mathlib.Data.List.Chain

/-!
# The audit trail replays to the stored suggestions

A caller of the review module holds a store of suggestions with distinct ids and an audit log. For
each decision it applies `applyReviewDecision` to the stored suggestion and, when that does not
raise, stores the result and appends `auditTrailEntry` of the suggestion AS IT WAS. The new state is
then computed twice, in two functions. `audit_replays` says that after any sequence of decisions on
any suggestions in any order the log, restricted to one id, is a history of that suggestion.
-/

namespace AutomationPlatform

open Python Runs

variable {F : Type}

/-- The id a suggestion carries. -/
def suggestionId (s : Record F) : Option String := s.text? "id"

/-- Suggestions that carry an id each, no two the same. -/
structure SuggestionStore (F : Type) where
  items : List (Record F)
  named : ∀ s ∈ items, (suggestionId s).isSome
  distinct : (items.map suggestionId).Nodup

/-- The suggestion stored under an id. -/
def SuggestionStore.find? (st : SuggestionStore F) (id : String) : Option (Record F) :=
  st.items.find? fun s => suggestionId s = some id

theorem map_suggestionId_replace (s' : Record F) (l : List (Record F)) :
    (l.map fun t => if suggestionId t = suggestionId s' then s' else t).map suggestionId =
      l.map suggestionId := by
  rw [List.map_map]
  refine List.map_congr_left fun t _ => ?_
  by_cases h : suggestionId t = suggestionId s' <;> simp [h]

/-- The store with the suggestion of the same id replaced. -/
def SuggestionStore.replace (st : SuggestionStore F) (s' : Record F) : SuggestionStore F where
  items := st.items.map fun t => if suggestionId t = suggestionId s' then s' else t
  named := by
    intro s hs
    have hm := List.mem_map_of_mem (f := suggestionId) hs
    rw [map_suggestionId_replace] at hm
    obtain ⟨t, ht, e⟩ := List.mem_map.mp hm
    exact e ▸ st.named t ht
  distinct := by
    rw [map_suggestionId_replace]
    exact st.distinct

/-- The store and the audit log. -/
structure ReviewState (F : Type) where
  store : SuggestionStore F
  log : List (Record F)

/-- A decision on the suggestion with the id. -/
structure ReviewEvent (F : Type) where
  id : String
  call : ReviewCall F

/-- **One decision**: both results are computed from the suggestion as it is stored before; an
    unknown id or a decision that raises changes nothing. -/
def review (st : ReviewState F) (ev : ReviewEvent F) : ReviewState F :=
  match st.store.find? ev.id with
  | none => st
  | some s =>
    match applyReviewDecision s ev.call,
        auditTrailEntry s ev.call.decision ev.call.reviewerId with
    | .ok s', .ok entry => ⟨st.store.replace s', st.log ++ [entry]⟩
    | _, _ => st

/-- The log restricted to one suggestion. -/
def entriesFor (id : String) (log : List (Record F)) : List (Record F) :=
  log.filter fun e => e.text? "resource_id" = some id

/-- **A history of one suggestion** from `s0` to `s`. -/
structure Replays (s0 s : Record F) (entries : List (Record F)) : Prop where
  untouched : entries = [] → s = s0
  first : ∀ e ∈ entries.head?, beforeState e = s0.get "state"
  linked : entries.IsChain fun e e' => afterState e = beforeState e'
  last : ∀ e ∈ entries.getLast?,
    afterState e = s.get "state" ∧ e.get "actor_id" = s.get "reviewer_id"

/-! ## 1. The store -/

theorem find?_some_id {st : SuggestionStore F} {id : String} {s : Record F}
    (h : st.find? id = some s) : suggestionId s = some id := by
  simpa using List.find?_some h

theorem find?_replace_self {st : SuggestionStore F} {id : String} {s s' : Record F}
    (h : st.find? id = some s) (hid : suggestionId s' = some id) :
    (st.replace s').find? id = some s' := by
  unfold SuggestionStore.find? SuggestionStore.replace at *
  simp only
  generalize st.items = l at h ⊢
  induction l with
  | nil => simp at h
  | cons t l ih =>
    by_cases ht : suggestionId t = some id
    · simp [ht, hid]
    · simp only [List.find?_cons, ht, decide_false] at h
      simp only [List.map_cons, hid, ht, if_false, List.find?_cons, decide_false]
      rw [← hid]
      rw [← hid] at h ih
      exact ih h

theorem find?_replace_other {st : SuggestionStore F} {id : String} {s' : Record F}
    (hid : suggestionId s' ≠ some id) : (st.replace s').find? id = st.find? id := by
  unfold SuggestionStore.find? SuggestionStore.replace
  simp only
  induction st.items with
  | nil => rfl
  | cons t l ih =>
    by_cases ht : suggestionId t = suggestionId s'
    · have ht' : suggestionId t ≠ some id := ht ▸ hid
      simp only [List.map_cons, ht, if_true, List.find?_cons, hid, decide_false]
      simpa [ht'] using ih
    · simp only [List.map_cons, ht, if_false, List.find?_cons]
      rw [ih]

/-! ## 2. One decision -/

/-- A decision does not touch the id. -/
theorem suggestionId_applyReviewDecision {c : ReviewCall F} {s s' : Record F}
    (h : applyReviewDecision s c = .ok s') : suggestionId s' = suggestionId s := by
  have hk := (applyReviewDecision_ok h).2 "id"
  have hw : c.written.lookup "id" = none := by simp [ReviewCall.written, List.lookup_cons]
  rw [hw, Option.none_or] at hk
  unfold suggestionId Record.text?
  rw [hk]

/-- **What one decision does**: nothing, or it replaces the stored suggestion and logs it. -/
theorem review_cases (st : ReviewState F) (ev : ReviewEvent F) :
    review st ev = st ∨ ∃ s s' entry, st.store.find? ev.id = some s ∧
      applyReviewDecision s ev.call = .ok s' ∧
      auditTrailEntry s ev.call.decision ev.call.reviewerId = .ok entry ∧
      review st ev = ⟨st.store.replace s', st.log ++ [entry]⟩ := by
  unfold review
  split
  · exact Or.inl rfl
  · rename_i s hs
    split
    · rename_i s' entry h1 h2
      exact Or.inr ⟨s, s', entry, hs, h1, h2, rfl⟩
    · exact Or.inl rfl

theorem entriesFor_append (id : String) (log : List (Record F)) (e : Record F) :
    entriesFor id (log ++ [e]) =
      entriesFor id log ++ (if e.text? "resource_id" = some id then [e] else []) := by
  unfold entriesFor
  rw [List.filter_append, List.filter_singleton]
  by_cases h : e.text? "resource_id" = some id <;> simp [h]

/-- A history grows by one accepted decision. -/
theorem Replays.append {s0 s s' entry : Record F} {es : List (Record F)} {c : ReviewCall F}
    (h : Replays s0 s es) (ha : applyReviewDecision s c = .ok s')
    (he : auditTrailEntry s c.decision c.reviewerId = .ok entry) :
    Replays s0 s' (es ++ [entry]) := by
  obtain ⟨_, hbefore, hafter, hactor⟩ := auditTrailEntry_ok he
  refine ⟨fun hnil => by simp at hnil, fun e hhead => ?_, ?_, fun e hlast => ?_⟩
  · cases es with
    | nil =>
      have hee : entry = e := by simpa using hhead
      rw [← hee, hbefore, h.untouched rfl]
    | cons a es => exact h.first e (by simpa using hhead)
  · refine List.isChain_append.mpr ⟨h.linked, List.isChain_singleton _, fun a ha' b hb => ?_⟩
    have hee : entry = b := by simpa using hb
    rw [← hee, hbefore]
    exact (h.last a ha').1
  · have hee : entry = e := by simpa using hlast
    rw [← hee]
    exact ⟨hafter.trans (get_state_of_ok ha).symm, hactor.trans (get_reviewerId_of_ok ha).symm⟩

/-- **The step lemma**: a decision keeps the history of every suggestion. -/
theorem review_replays {st : ReviewState F} {id : String} {s0 : Record F}
    (h : ∃ s, st.store.find? id = some s ∧ Replays s0 s (entriesFor id st.log))
    (ev : ReviewEvent F) :
    ∃ s, (review st ev).store.find? id = some s ∧
      Replays s0 s (entriesFor id (review st ev).log) := by
  obtain ⟨s, hfind, hrep⟩ := h
  rcases review_cases st ev with e | ⟨t, t', entry, htfind, ha, he, e⟩
  · rw [e]
    exact ⟨s, hfind, hrep⟩
  rw [e]
  have htid : suggestionId t = some ev.id := find?_some_id htfind
  have htid' : suggestionId t' = some ev.id :=
    (suggestionId_applyReviewDecision ha).trans htid
  have hres : entry.text? "resource_id" = some ev.id := by
    rw [Record.text?_eq_some_iff, (auditTrailEntry_ok he).1]
    exact Record.text?_eq_some_iff.mp htid
  simp only [entriesFor_append, hres]
  by_cases hid : ev.id = id
  · -- the decision is on this suggestion
    subst hid
    rw [hfind] at htfind
    cases htfind
    exact ⟨t', find?_replace_self hfind htid', by simpa using hrep.append ha he⟩
  · have hne : suggestionId t' ≠ some id := by
      rw [htid']
      simpa using hid
    exact ⟨s, (find?_replace_other hne).trans hfind, by simpa [hid] using hrep⟩

/-- **The audit trail replays to the stored suggestions**, for every store and every sequence of
    decisions. -/
theorem audit_replays (st0 : SuggestionStore F) (evs : List (ReviewEvent F)) (id : String)
    (s0 : Record F) (h : st0.find? id = some s0) :
    ∃ s, (run review ⟨st0, []⟩ evs).store.find? id = some s ∧
      Replays s0 s (entriesFor id (run review ⟨st0, []⟩ evs).log) := by
  refine run_invariant
    (I := fun st : ReviewState F =>
      ∃ s, st.store.find? id = some s ∧ Replays s0 s (entriesFor id st.log))
    (fun st ev hst => review_replays hst ev) ⟨s0, h, ?_⟩ evs
  exact ⟨fun _ => rfl, fun e he => by simp [entriesFor] at he, List.isChain_nil,
    fun e he => by simp [entriesFor] at he⟩

/-- Two decisions on one suggestion, the first one approving it. -/
theorem audit_replays_approve_reject :
    let s0 : Record Unit := ⟨[("id", .str "s1"), ("state", .str "pending_review")], by simp⟩
    let st0 : SuggestionStore Unit := ⟨[s0], by decide, by simp⟩
    let evs : List (ReviewEvent Unit) :=
      [⟨"s1", ⟨"approve", "u1", none, none⟩⟩, ⟨"s1", ⟨"reject", "u2", some "no", none⟩⟩]
    ∃ s, (run review ⟨st0, []⟩ evs).store.find? "s1" = some s ∧
      Replays s0 s (entriesFor "s1" (run review ⟨st0, []⟩ evs).log) := by
  intro s0 st0 evs
  have hid : suggestionId s0 = some "s1" := by decide
  exact audit_replays st0 evs "s1" s0 (by simp [SuggestionStore.find?, st0, hid])

end AutomationPlatform
