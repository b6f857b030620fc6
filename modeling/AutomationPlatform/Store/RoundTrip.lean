import AutomationPlatform.Database.FieldByField
import AutomationPlatform.Library.Runs
import AutomationPlatform.Orchestrator.Audit
import AutomationPlatform.Orchestrator.Review
import AutomationPlatform.Orchestrator.Suggestions
import Mathlib.Algebra.Order.Ring.Unbundled.Rat
import Mathlib.Data.Rat.Defs

/-!
# What survives the way to the tables

`make_suggestion` and `build_audit_entry` write the instant of the call as a text, and the driver
takes no text for a timestamp column: such a dict is refused as a whole. Were it not, `Suggestion`
has no column for `review_edits`, and `AuditLog` calls the states of an entry `before_state` and
`after_state` where the orchestrator calls them `before` and `after`. So edits are lost, and so is
every state an entry records.

* `suggestion_columns`, `buildAuditEntry_columns`: which columns bring their key back;
* **`orchestrator_lost`**: no suggestion and no entry comes back the same.
-/

namespace AutomationPlatform

open Python Runs

variable {F : Type}

/-! ## 1. Suggestions -/

/-- A dict with the fields of a new suggestion and, besides them, review fields only. -/
structure SuggestionFields (d : Record F) (id : UUID) (createdAt : Timestamp)
    (ingestedRowId templateId : String) (payload : Record F) : Prop where
  id : d.get? "id" = some (.str id.text)
  ingestedRowId : d.get? "ingested_row_id" = some (.str ingestedRowId)
  templateId : d.get? "template_id" = some (.str templateId)
  confidence : ∃ x, d.get? "confidence" = some (.float x)
  state : ∃ s ∈ ["pending_review", "approved", "rejected"], d.get? "state" = some (.str s)
  payload : d.get? "payload" = some payload.toValue
  createdAt : d.get? "created_at" = some (.str createdAt.iso)
  others : ∀ k, k ∉ ["id", "ingested_row_id", "template_id", "confidence", "state", "payload",
    "created_at"] → k ∉ reviewKeys → d.get? k = none

/-- The columns of `Suggestion` whose fate depends on the values. -/
def rowColumn : MappedColumn := Model.field .ingestedRowId .uuid

def templateColumn : MappedColumn := Model.field .templateId .uuid

def reviewerColumn : MappedColumn := Model.fieldOptional .reviewerId .uuid

def notesColumn : MappedColumn := Model.fieldOptional .reviewNotes (.varchar 2000)

def createdAtColumn : MappedColumn := Model.fieldDefault .createdAt .timestamptz .utcNow

/-- **Every other key**: it has a column that brings it back, or holds nothing. -/
def RestRoundTrips (drawn : Drawn) (d : Record F) [JsonFloat F] : Prop :=
  (∀ c ∈ Model.suggestion.mapped.columns, c ≠ createdAtColumn → c.RoundTrips drawn d) ∧
    ∀ k, (∀ c ∈ Model.suggestion.mapped.columns, c.name.attrName ≠ k) → d.get k = .none

section

variable [JsonFloat F]

omit [JsonFloat F] in
/-- A key that is no column of `Suggestion` holds nothing, but for the edits. -/
theorem SuggestionFields.get_other {d : Record F} {id : UUID} {createdAt : Timestamp}
    {ingestedRowId templateId : String} {payload : Record F}
    (hd : SuggestionFields d id createdAt ingestedRowId templateId payload) {k : String}
    (hk : ∀ c ∈ Model.suggestion.mapped.columns, c.name.attrName ≠ k) (he : k ≠ "review_edits") :
    d.get k = .none := by
  have hcovered : ∀ n ∈ ["id", "ingested_row_id", "template_id", "confidence", "state",
      "payload", "created_at", "reviewer_id", "review_notes"],
      ∃ c ∈ Model.suggestion.mapped.columns, c.name.attrName = n := by decide
  have hno : ∀ n ∈ ["id", "ingested_row_id", "template_id", "confidence", "state",
      "payload", "created_at", "reviewer_id", "review_notes"], k ≠ n := by
    intro n hn e
    obtain ⟨c, hc, hname⟩ := hcovered n hn
    exact hk c hc (hname.trans e.symm)
  simp only [List.forall_mem_cons] at hno
  unfold Record.get
  rw [hd.others k (by simp; tauto) (by simp [reviewKeys]; tauto)]
  rfl

/-- The columns that cannot fail drop out; what remains are the texts meant to be UUIDs, the
    payload, the two review columns, and the edits, which have no column. -/
theorem restRoundTrips_of_fields {d : Record F} {id : UUID} {createdAt : Timestamp}
    {ingestedRowId templateId : String} {payload : Record F}
    (hd : SuggestionFields d id createdAt ingestedRowId templateId payload) (drawn : Drawn) :
    RestRoundTrips drawn d ↔
      IsUuidText ingestedRowId ∧ IsUuidText templateId ∧ payload.toValue.isJsonb = true ∧
        reviewerColumn.RoundTrips drawn d ∧ notesColumn.RoundTrips drawn d ∧
        d.get "review_edits" = .none := by
  obtain ⟨x, hx⟩ := hd.confidence
  obtain ⟨s, hs, hstate⟩ := hd.state
  have hid : Model.primaryKey.RoundTrips drawn d :=
    (roundTrips_uuid hd.id rfl).mpr ⟨id, rfl⟩
  have hconf : (Model.field .confidence .double).RoundTrips drawn d :=
    roundTrips_of_store hx (by simp) rfl rfl rfl
  have hst : (Model.fieldDefault .state (.enum ["pending_review", "approved", "rejected"])
      (.label "pending_review")).RoundTrips drawn d :=
    roundTrips_of_store hstate (by simp) rfl (if_pos hs) rfl
  have hreviewed : (Model.fieldOptional .reviewedAt .timestamptz).RoundTrips drawn d := by
    have hnone : d.get? "reviewed_at" = none := hd.others _ (by decide) (by decide)
    refine roundTrips_missing (given_of_missing hnone) ?_ rfl rfl
    show (d.get? "reviewed_at").getD .none = .none
    rw [hnone]
    rfl
  have hrow : rowColumn.RoundTrips drawn d ↔ IsUuidText ingestedRowId :=
    roundTrips_uuid hd.ingestedRowId rfl
  have htpl : templateColumn.RoundTrips drawn d ↔ IsUuidText templateId :=
    roundTrips_uuid hd.templateId rfl
  have hpay : payloadColumn.RoundTrips drawn d ↔ payload.toValue.isJsonb = true :=
    roundTrips_jsonb hd.payload (by simp [Record.toValue]) rfl
  unfold RestRoundTrips
  rw [← hrow, ← htpl, ← hpay]
  refine ⟨fun ⟨hcols, hrest⟩ => ?_, fun ⟨hrow, htpl, hpay, hreviewer, hnotes, hedits⟩ => ?_⟩
  · exact ⟨hcols rowColumn (by decide) (by decide), hcols templateColumn (by decide) (by decide),
      hcols payloadColumn (by decide) (by decide), hcols reviewerColumn (by decide) (by decide),
      hcols notesColumn (by decide) (by decide), hrest "review_edits" (by decide)⟩
  · refine ⟨?_, fun k hk => ?_⟩
    · show ∀ c ∈ Model.suggestion.mapped.columns, c ≠ createdAtColumn → _
      simp only [Model.mapped, List.forall_mem_cons]
      exact ⟨fun _ => hid, fun _ => hrow, fun _ => htpl, fun _ => hconf, fun _ => hst,
        fun _ => hpay, fun _ => hreviewer, fun _ => hnotes, fun h => absurd rfl h,
        fun _ => hreviewed, fun _ h => absurd h List.not_mem_nil⟩
    · by_cases he : k = "review_edits"
      · subst he
        exact hedits
      · exact hd.get_other hk he

end

/-- A run of calls leaves the fields no decision writes. -/
theorem get?_run_other {k : String} (hk : k ∉ reviewKeys) (s : Record F)
    (calls : List (ReviewCall F)) : (run applyCall s calls).get? k = s.get? k :=
  run_invariant (I := fun s' => s'.get? k = s.get? k)
    (fun s' c h => (get?_applyCall_other hk s' c).trans h) rfl calls

section

variable [OfScientific F] [LE F] [DecidableLE F]

/-- A made suggestion after any accepted calls has these fields. -/
theorem fields_of_run (id : UUID) (createdAt : Timestamp) (ingestedRowId templateId : String)
    (payload : Record F) (confidence : F) {calls : List (ReviewCall F)}
    (hvalid : ∀ c ∈ calls, c.Valid) :
    SuggestionFields (run applyCall (makeSuggestion id.text createdAt.iso ingestedRowId templateId
      payload confidence) calls) id createdAt ingestedRowId templateId payload where
  id := by rw [get?_run_other (by decide)]; simp [makeSuggestion, Dict.get?]
  ingestedRowId := by
    rw [get?_run_other (by decide)]
    simp [makeSuggestion, Dict.get?, List.lookup_cons]
  templateId := by
    rw [get?_run_other (by decide)]
    simp [makeSuggestion, Dict.get?, List.lookup_cons]
  confidence := by
    rw [get?_run_other (by decide)]
    simp [makeSuggestion, Dict.get?, List.lookup_cons]
  payload := by
    rw [get?_run_other (by decide)]
    simp [makeSuggestion, Dict.get?, List.lookup_cons]
  createdAt := by
    rw [get?_run_other (by decide)]
    simp [makeSuggestion, Dict.get?, List.lookup_cons]
  state := by
    cases calls using List.reverseRec with
    | nil =>
        refine ⟨_, ?_, makeSuggestion_get?_state ..⟩
        split <;> simp
    | append_singleton calls c _ =>
        rw [run_append_singleton,
          get?_applyCall_reviewKeys (hvalid c (by simp)) _ (by simp [reviewKeys])]
        refine ⟨if c.decision = "approve" then "approved" else "rejected", ?_, ?_⟩
        · split <;> simp
        · simp [ReviewCall.written]
  others k hk hr := by
    rw [get?_run_other hr]
    simp only [List.mem_cons, List.not_mem_nil, or_false, not_or] at hk
    obtain ⟨h1, h2, h3, h4, h5, h6, h7⟩ := hk
    simp [makeSuggestion, Dict.get?, List.lookup_cons, beq_false_of_ne h1, beq_false_of_ne h2,
      beq_false_of_ne h3, beq_false_of_ne h4, beq_false_of_ne h5, beq_false_of_ne h6,
      beq_false_of_ne h7]

end

section

variable [JsonFloat F]

/-- What the last accepted call must have carried. -/
structure ReviewCall.Storable (c : ReviewCall F) : Prop where
  reviewerId : IsUuidText c.reviewerId
  notes : ∀ n, c.notes = some n → FitsVarchar 2000 n
  edits : c.edits = none

/-- The review fields come back when the call that wrote them is storable. -/
theorem reviewColumns_iff {d : Record F} {c : ReviewCall F}
    (hd : ∀ k ∈ reviewKeys, d.get? k = c.written.lookup k) (drawn : Drawn) :
    (reviewerColumn.RoundTrips drawn d ∧ notesColumn.RoundTrips drawn d ∧
      d.get "review_edits" = .none) ↔ c.Storable := by
  have hreviewer : d.get? "reviewer_id" = some (.str c.reviewerId) := by
    rw [hd _ (by simp [reviewKeys])]
    simp [ReviewCall.written, List.lookup_cons]
  have hnotes : d.get? "review_notes" = some (.ofOptStr c.notes) := by
    rw [hd _ (by simp [reviewKeys])]
    simp [ReviewCall.written, List.lookup_cons]
  have hedits : d.get "review_edits" = .ofOptRecord c.edits := by
    refine Record.get_of_get? ((hd _ (by simp [reviewKeys])).trans ?_)
    simp [ReviewCall.written, List.lookup_cons]
  have hr : reviewerColumn.RoundTrips drawn d ↔ IsUuidText c.reviewerId :=
    roundTrips_uuid hreviewer rfl
  have hn : notesColumn.RoundTrips drawn d ↔ ∀ n, c.notes = some n → FitsVarchar 2000 n := by
    cases hcn : c.notes with
    | none =>
        rw [hcn] at hnotes
        refine ⟨fun _ n h => (by cases h), fun _ => ?_⟩
        exact roundTrips_missing (given_of_none hnotes (by decide)) (Record.get_of_get? hnotes)
          rfl rfl
    | some n =>
        rw [hcn] at hnotes
        rw [roundTrips_varchar hnotes (n := 2000) rfl]
        exact ⟨fun h _ e => Option.some.inj e ▸ h, fun h => h n rfl⟩
  have he : d.get "review_edits" = .none ↔ c.edits = none := by
    rw [hedits]
    cases c.edits <;> simp [Value.ofOptRecord, Record.toValue]
  rw [hr, hn, he]
  exact ⟨fun h => ⟨h.1, h.2.1, h.2.2⟩, fun h => ⟨h.reviewerId, h.notes, h.edits⟩⟩

variable [OfScientific F] [LE F] [DecidableLE F] (drawn : Drawn) (id : UUID)
  (createdAt : Timestamp) (ingestedRowId templateId : String) (payload : Record F) (confidence : F)

/-- **Which keys of a suggestion come back**: not its time; the others where the ids are UUIDs,
    JSONB takes the payload, and the last call, if there was one, carried no edits and a note that
    fits. -/
theorem suggestion_columns {calls : List (ReviewCall F)} (hvalid : ∀ c ∈ calls, c.Valid) :
    RestRoundTrips drawn (run applyCall (makeSuggestion id.text createdAt.iso
        ingestedRowId templateId payload confidence) calls) ↔
      IsUuidText ingestedRowId ∧ IsUuidText templateId ∧ payload.toValue.isJsonb = true ∧
        ∀ c, calls.getLast? = some c → c.Storable := by
  have hfields := fields_of_run id createdAt ingestedRowId templateId payload confidence hvalid
  rw [restRoundTrips_of_fields hfields]
  refine and_congr_right fun _ => and_congr_right fun _ => and_congr_right fun _ => ?_
  cases calls using List.reverseRec with
  | nil =>
      have hnew := fun k hk => makeSuggestion_get?_review id.text createdAt.iso ingestedRowId
        templateId payload confidence (k := k) hk
      have hget : ∀ k ∈ ["reviewer_id", "review_notes", "review_edits"], Record.get (makeSuggestion
          id.text createdAt.iso ingestedRowId templateId payload confidence) k = .none := by
        intro k hk
        unfold Record.get
        rw [hnew k hk]
        rfl
      refine ⟨fun _ c h => (by cases h), fun _ => ⟨?_, ?_, hget _ (by simp)⟩⟩
      · exact roundTrips_missing (given_of_missing (hnew "reviewer_id" (by simp)))
          (hget "reviewer_id" (by simp)) rfl rfl
      · exact roundTrips_missing (given_of_missing (hnew "review_notes" (by simp)))
          (hget "review_notes" (by simp)) rfl rfl
  | append_singleton calls c _ =>
      have hlast : ∀ k ∈ reviewKeys, (run applyCall (makeSuggestion id.text createdAt.iso
          ingestedRowId templateId payload confidence) (calls ++ [c])).get? k =
            c.written.lookup k := fun k hk => by
        rw [run_append_singleton, get?_applyCall_reviewKeys (hvalid c (by simp)) _ hk]
      rw [reviewColumns_iff hlast, List.getLast?_append, List.getLast?_singleton]
      exact ⟨fun h _ e => Option.some.inj e ▸ h, fun h => h c rfl⟩

/-- **No suggestion comes back**: the time it was made at is a text, which its column refuses, so
    there is no row. -/
theorem suggestion_lost (calls : List (ReviewCall F)) :
    ¬ RoundTrips .suggestion drawn (run applyCall (makeSuggestion id.text createdAt.iso
      ingestedRowId templateId payload confidence) calls) := by
  intro h
  have htime : (run applyCall (makeSuggestion id.text createdAt.iso ingestedRowId templateId
      payload confidence) calls).get? "created_at" = some (.str createdAt.iso) := by
    rw [get?_run_other (by decide)]
    simp [makeSuggestion, Dict.get?, List.lookup_cons]
  obtain ⟨w, hw, -⟩ := (roundTrips_iff.mp h).1 createdAtColumn (by decide)
  rw [stored_timestamp htime rfl] at hw
  cases hw

end

/-! ## 2. Audit entries -/

section

variable [JsonFloat F]

/-- **An entry survives**: stored as an `AuditLog` row and read back, its states, actor and resource
    are what the entry said. -/
def AuditSurvives (drawn : Drawn) (e : Record F) : Prop :=
  ∃ r, storeRow .auditLog drawn e = some r ∧
    (loadKey .auditLog r "before_state").Holds (e.get "before") ∧
    (loadKey .auditLog r "after_state").Holds (e.get "after") ∧
    (loadKey .auditLog r "actor_id").Holds (e.get "actor_id") ∧
    (loadKey .auditLog r "resource_type").Holds (e.get "resource_type") ∧
    (loadKey .auditLog r "resource_id").Holds (e.get "resource_id")

def resourceTypeColumn : MappedColumn := Model.field .resourceType (.varchar 100)

def resourceIdColumn : MappedColumn := Model.field .resourceId (.varchar 100)

def actionColumn : MappedColumn := Model.field .action (.varchar 100)

def actorColumn : MappedColumn := Model.fieldOptional .actorId .uuid

def beforeColumn : MappedColumn := Model.fieldDefault .beforeState .jsonb .emptyDict

def afterColumn : MappedColumn := Model.fieldDefault .afterState .jsonb .emptyDict

def occurredAtColumn : MappedColumn := Model.fieldDefault .occurredAt .timestamptz .utcNow

theorem auditLog_columns : Model.auditLog.mapped.columns = [Model.primaryKey, resourceTypeColumn,
    resourceIdColumn, actionColumn, actorColumn, beforeColumn, afterColumn, occurredAtColumn] := rfl

/-- The columns of the states hold `{}` where the entry does not use their names. -/
theorem stored_states {e : Record F} (hbefore : e.get? "before_state" = none)
    (hafter : e.get? "after_state" = none) (drawn : Drawn) :
    beforeColumn.stored drawn e = some (some (.json (.dict []))) ∧
      afterColumn.stored drawn e = some (some (.json (.dict []))) :=
  ⟨stored_default (c := beforeColumn) (p := .emptyDict) hbefore rfl,
    stored_default (c := afterColumn) (p := .emptyDict) hafter rfl⟩

/-- An entry that does not use the column names for its states loses them: the columns hold the
    default `{}`. -/
theorem auditSurvives_iff {e : Record F} (hid : e.get? "id" = none)
    (hbefore : e.get? "before_state" = none) (hafter : e.get? "after_state" = none)
    (drawn : Drawn) :
    AuditSurvives drawn e ↔
      resourceTypeColumn.RoundTrips drawn e ∧ resourceIdColumn.RoundTrips drawn e ∧
        actorColumn.RoundTrips drawn e ∧ (actionColumn.stored drawn e).isSome = true ∧
        (occurredAtColumn.stored drawn e).isSome = true ∧
        e.get "before" = .dict [] ∧ e.get "after" = .dict [] := by
  obtain ⟨hb, ha⟩ := stored_states hbefore hafter drawn
  have hi : Model.primaryKey.stored drawn e = some (some (.uuid drawn.uuid)) :=
    stored_default (c := Model.primaryKey) (p := .uuid4) hid rfl
  have hmem : ∀ c ∈ [Model.primaryKey, resourceTypeColumn, resourceIdColumn, actionColumn,
      actorColumn, beforeColumn, afterColumn, occurredAtColumn],
      c ∈ Model.auditLog.mapped.columns := fun c hc => auditLog_columns ▸ hc
  -- the row holds `{}` in both columns, whatever the states of the entry are
  have hstates : ∀ r, storeRow .auditLog drawn e = some r →
      loadKey .auditLog r "before_state" = .value (.dict []) ∧
        loadKey .auditLog r "after_state" = .value (.dict []) := fun r hr =>
    ⟨loadKey_of_stored hr (hmem beforeColumn (by simp)) hb,
      loadKey_of_stored hr (hmem afterColumn (by simp)) ha⟩
  refine ⟨?_, ?_⟩
  · intro ⟨r, hr, hbs, has, hactor, htype, hres⟩
    rw [(hstates r hr).1] at hbs
    rw [(hstates r hr).2] at has
    refine ⟨roundTrips_of_loadKey hr (hmem resourceTypeColumn (by simp)) htype,
      roundTrips_of_loadKey hr (hmem resourceIdColumn (by simp)) hres,
      roundTrips_of_loadKey hr (hmem actorColumn (by simp)) hactor, ?_, ?_, hbs.symm, has.symm⟩
    · rw [storeRow_eq_some hr (hmem actionColumn (by simp))]
      rfl
    · rw [storeRow_eq_some hr (hmem occurredAtColumn (by simp))]
      rfl
  · intro ⟨⟨wt, hwt, htype⟩, ⟨wi, hwi, hres⟩, ⟨wa, hwa, hactor⟩, haction, hocc, hbe, hae⟩
    have hstores : ∃ r, storeRow .auditLog drawn e = some r := exists_storeRow (by
      rw [auditLog_columns]
      simp only [List.forall_mem_cons]
      exact ⟨by rw [hi]; rfl, by rw [hwt]; rfl, by rw [hwi]; rfl, haction, by rw [hwa]; rfl,
        by rw [hb]; rfl, by rw [ha]; rfl, hocc, fun _ h => absurd h List.not_mem_nil⟩)
    obtain ⟨r, hr⟩ := hstores
    refine ⟨r, hr, ?_, ?_, ?_, ?_, ?_⟩
    · rw [(hstates r hr).1]
      exact hbe.symm
    · rw [(hstates r hr).2]
      exact hae.symm
    · rw [← loadKey_of_stored hr (hmem actorColumn (by simp)) hwa] at hactor
      exact hactor
    · rw [← loadKey_of_stored hr (hmem resourceTypeColumn (by simp)) hwt] at htype
      exact htype
    · rw [← loadKey_of_stored hr (hmem resourceIdColumn (by simp)) hwi] at hres
      exact hres

/-- What `build_audit_entry` must be called with for the rest of the entry to come back. -/
structure EntryStorable (resourceType resourceId action actorId : String)
    (before after : Option (Record F)) : Prop where
  resourceType : FitsVarchar 100 resourceType
  resourceId : FitsVarchar 100 resourceId
  action : FitsVarchar 100 action
  actorId : IsUuidText actorId
  before : ∀ d, before = some d → d.items = []
  after : ∀ d, after = some d → d.items = []

section

variable (drawn : Drawn) (resourceType resourceId action actorId : String)
  (before after : Option (Record F)) (now : Timestamp)

/-- **Which parts of an entry come back**: not its time, and no state with a key; an entry that
    leaves the time to the column survives where its texts fit and it records no state. -/
theorem buildAuditEntry_columns : AuditSurvives drawn
      ((buildAuditEntry resourceType resourceId action actorId before after now).erase
        "occurred_at") ↔
    EntryStorable resourceType resourceId action actorId before after := by
  have hget : ∀ k, ((buildAuditEntry resourceType resourceId action actorId before after now).erase
      "occurred_at").get? k = [("resource_type", .str resourceType),
        ("resource_id", .str resourceId), ("action", .str action), ("actor_id", .str actorId),
        ("before", orEmpty before), ("after", orEmpty after)].lookup k := fun _ => rfl
  generalize (buildAuditEntry resourceType resourceId action actorId before after now).erase
    "occurred_at" = e at hget ⊢
  have htype : e.get? "resource_type" = some (.str resourceType) := (hget _).trans rfl
  have hres : e.get? "resource_id" = some (.str resourceId) := (hget _).trans rfl
  have haction : e.get? "action" = some (.str action) := (hget _).trans rfl
  have hactor : e.get? "actor_id" = some (.str actorId) := (hget _).trans rfl
  have hbefore : Record.get e "before" = orEmpty before :=
    Record.get_of_get? ((hget _).trans rfl)
  have hafter : Record.get e "after" = orEmpty after := Record.get_of_get? ((hget _).trans rfl)
  have hocc : (occurredAtColumn.stored drawn e).isSome = true := by
    have hnone : e.get? occurredAtColumn.name.attrName = none := (hget _).trans rfl
    rw [stored_default (p := .utcNow) hnone rfl]
    rfl
  rw [auditSurvives_iff ((hget _).trans rfl) ((hget _).trans rfl) ((hget _).trans rfl),
    show resourceTypeColumn.RoundTrips drawn e ↔ _ from roundTrips_varchar htype rfl,
    show resourceIdColumn.RoundTrips drawn e ↔ _ from roundTrips_varchar hres rfl,
    show actorColumn.RoundTrips drawn e ↔ _ from roundTrips_uuid hactor rfl,
    show (actionColumn.stored drawn e).isSome = true ↔ _ from isSome_stored_varchar haction rfl,
    hbefore, hafter, orEmpty_eq_empty_iff, orEmpty_eq_empty_iff]
  exact ⟨fun ⟨h1, h2, h3, h4, _, h6, h7⟩ => ⟨h1, h2, h4, h3, h6, h7⟩,
    fun h => ⟨h.resourceType, h.resourceId, h.actorId, h.action, hocc, h.before, h.after⟩⟩

/-- **No entry of `build_audit_entry` survives**: its time is a text too. -/
theorem buildAuditEntry_lost : ¬ AuditSurvives drawn
    (buildAuditEntry resourceType resourceId action actorId before after now) := by
  have htime : (buildAuditEntry resourceType resourceId action actorId before after now).get?
      occurredAtColumn.name.attrName = some (.str now.iso) := rfl
  rw [auditSurvives_iff rfl rfl rfl, stored_timestamp htime rfl]
  intro ⟨_, _, _, _, hocc, _⟩
  cases hocc

end

/-- The entry of a review decision never survives: it always records a state before. -/
theorem auditTrailEntry_lost (drawn : Drawn) {s e : Record F} {decision reviewerId : String}
    (h : auditTrailEntry s decision reviewerId = .ok e) : ¬ AuditSurvives drawn e := by
  unfold auditTrailEntry at h
  split at h
  · cases h
  · cases h
    rw [auditSurvives_iff rfl rfl rfl]
    intro ⟨_, _, _, _, _, hbefore, _⟩
    cases hbefore

end

/-! ## 3. Together -/

/-- **Nothing the orchestrator computes comes back from the tables**: no suggestion, whatever the
    calls on it, and no audit entry, whatever it records. -/
theorem orchestrator_lost [JsonFloat F] [OfScientific F] [LE F] [DecidableLE F] (drawn : Drawn) :
    (∀ (id : UUID) (createdAt : Timestamp) (ingestedRowId templateId : String)
      (payload : Record F) (confidence : F) (calls : List (ReviewCall F)),
      ¬ RoundTrips .suggestion drawn (run applyCall (makeSuggestion id.text createdAt.iso
        ingestedRowId templateId payload confidence) calls)) ∧
    (∀ (resourceType resourceId action actorId : String) (before after : Option (Record F))
      (now : Timestamp), ¬ AuditSurvives drawn
        (buildAuditEntry resourceType resourceId action actorId before after now)) ∧
    ∀ (s : Record F) (decision reviewerId : String),
      ¬ ∃ e, auditTrailEntry s decision reviewerId = .ok e ∧ AuditSurvives drawn e :=
  ⟨suggestion_lost drawn, buildAuditEntry_lost drawn,
    fun _ _ _ ⟨_, h, hsurvives⟩ => auditTrailEntry_lost drawn h hsurvives⟩

section Samples

/-- Every rational is finite. -/
local instance : JsonFloat ℚ := ⟨fun _ => true⟩

def sampleDrawn : Drawn := ⟨.repeated 9, .epoch⟩

/-- A suggestion after one edit by a reviewer. -/
def editedSuggestion : Record ℚ :=
  run applyCall (makeSuggestion (UUID.repeated 1).text Timestamp.epoch.iso (UUID.repeated 2).text
    (UUID.repeated 3).text Dict.empty (0.5 : ℚ))
    [⟨"edit", (UUID.repeated 4).text, none, some ⟨[("total", .int 7)], by simp⟩⟩]

/-- It does not come back, and its edits would not if its time did. -/
theorem not_roundTrips_edited :
    ¬ RoundTrips .suggestion sampleDrawn editedSuggestion ∧
      ¬ RestRoundTrips sampleDrawn editedSuggestion := by
  unfold editedSuggestion
  refine ⟨suggestion_lost sampleDrawn (.repeated 1) .epoch _ _ _ _ _, ?_⟩
  rw [suggestion_columns]
  · intro ⟨_, _, _, h⟩
    cases (h _ rfl).edits
  · intro c hc
    rw [List.mem_singleton.mp hc]
    simp [ReviewCall.Valid]

end Samples

end AutomationPlatform
