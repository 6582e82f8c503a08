import Ravn.Core.Decode
import Ravn.Theory.MemberOrder

/-! How an agent's report, a proposal, a decision and the audit record of a remediation are written
and read. Each of them is read back from what was written (`ofDoc_toJson`), also when the members of
its objects come in another order (`ofDoc_canonical`), as they do from a column that holds JSON. -/

namespace Ravn

open Theory Doc

/-! ## Writers -/

def ActionStatus.toText : ActionStatus → String
  | succeeded => "succeeded"
  | preconditionFailed => "precondition_failed"
  | failed => "failed"
  | rejected => "rejected"
  | frozen => "frozen"

section

variable (P : Platform)

/-- The fields as they are written. -/
def ActionResult.members (r : ActionResult) : List (String × Json) :=
  [("command_id", r.commandId.toJson), ("status", Json.str r.status.toText)] ++
    (r.detail.toList.map fun detail => ("detail", Json.str detail)) ++
    (r.observedState.toList.map fun state => ("observed_state", Json.str state)) ++
    [("finished_at", r.finishedAt.toJson P)]

def ActionResult.toJson (r : ActionResult) : Json := .obj (r.members P)

/-- A map of texts. -/
def paramsJson (params : BTreeMap String String) : Json :=
  .obj (params.entries.map fun e => (e.1, .str e.2))

def RemediationProposal.members (p : RemediationProposal) : List (String × Json) :=
  [("id", p.id.toJson),
    ("event_id", p.eventId.toJson),
    ("agent_id", p.agentId.toJson),
    ("host", Json.str p.host),
    ("template_id", Json.str p.templateId),
    ("template_version", Json.num p.templateVersion.toNat),
    ("risk_tier", Json.str p.riskTier.toText)] ++
    (if p.params = .empty then [] else [("params", paramsJson p.params)]) ++
    [("rationale", Json.str p.rationale), ("created_at", p.createdAt.toJson P)]

def RemediationProposal.toJson (p : RemediationProposal) : Json := .obj (p.members P)

def Decision.members : Decision → List (String × Json)
  | pending => []
  | approved approval => [("by", approval.toJson P)]
  | rejected «by» «at» reason =>
    [("by", Json.str «by»), ("at", «at».toJson P)] ++
      reason.toList.map fun reason => ("reason", Json.str reason)

def Decision.tag : Decision → String
  | pending => "pending"
  | approved _ => "approved"
  | rejected _ _ _ => "rejected"

def Decision.toJson (d : Decision) : Json := .obj (("decision", .str d.tag) :: d.members P)

def RemediationRecord.members (r : RemediationRecord) : List (String × Json) :=
  [("proposal", r.proposal.toJson P), ("decision", r.decision.toJson P)] ++
    (r.commandId.toList.map fun id => ("command_id", id.toJson)) ++
    (r.signature.toList.map fun signature => ("signature", Json.str signature)) ++
    (r.result.toList.map fun result => ("result", result.toJson P)) ++
    [("updated_at", r.updatedAt.toJson P)]

def RemediationRecord.toJson (r : RemediationRecord) : Json := .obj (r.members P)

end

/-! ## Readers -/

def ActionStatus.ofText : String → Option ActionStatus
  | "succeeded" => some succeeded
  | "precondition_failed" => some preconditionFailed
  | "failed" => some failed
  | "rejected" => some rejected
  | "frozen" => some frozen
  | _ => none

def ActionStatus.ofDoc (d : Doc) : Option ActionStatus := d.unitVariant.bind ofText

section

variable (parseTime : String → Option DateTime)

namespace ActionResult

def fieldNames : List String := ["command_id", "status", "detail", "observed_state", "finished_at"]

def ofFields (fs : List (String × Doc)) : Option ActionResult := do
  some {
    commandId := ← required fs "command_id" Uuid.ofDoc
    status := ← required fs "status" ActionStatus.ofDoc
    detail := ← withDefault fs "detail" (asOption asStr) none
    observedState := ← withDefault fs "observed_state" (asOption asStr) none
    finishedAt := ← required fs "finished_at" (DateTime.ofDoc parseTime) }

def ofDoc (d : Doc) : Option ActionResult := (d.fields fieldNames).bind (ofFields parseTime)

end ActionResult

namespace RemediationProposal

def fieldNames : List String :=
  ["id", "event_id", "agent_id", "host", "template_id", "template_version", "risk_tier", "params",
    "rationale", "created_at"]

def ofFields (fs : List (String × Doc)) : Option RemediationProposal := do
  some {
    id := ← required fs "id" Uuid.ofDoc
    eventId := ← required fs "event_id" Uuid.ofDoc
    agentId := ← required fs "agent_id" AgentId.ofDoc
    host := ← required fs "host" asStr
    templateId := ← required fs "template_id" asStr
    templateVersion := ← required fs "template_version" asU32
    riskTier := ← required fs "risk_tier" RiskTier.ofDoc
    params := ← withDefault fs "params" (asMap asStr) .empty
    rationale := ← required fs "rationale" asStr
    createdAt := ← required fs "created_at" (DateTime.ofDoc parseTime) }

def ofDoc (d : Doc) : Option RemediationProposal := (d.fields fieldNames).bind (ofFields parseTime)

end RemediationProposal

namespace Decision

def ofApproved (fs : List (String × Doc)) : Option Decision := do
  some (approved (← required fs "by" (ApprovalRef.ofDoc parseTime)))

def ofRejected (fs : List (String × Doc)) : Option Decision := do
  some (rejected (← required fs "by" asStr) (← required fs "at" (DateTime.ofDoc parseTime))
    (← withDefault fs "reason" (asOption asStr) none))

def ofVariant (variant : String) (content : Doc) : Option Decision :=
  match variant with
  | "pending" => (content.fields []).bind fun _ => some pending
  | "approved" => (content.fields ["by"]).bind (ofApproved parseTime)
  | "rejected" => (content.fields ["by", "at", "reason"]).bind (ofRejected parseTime)
  | _ => none

def ofDoc (d : Doc) : Option Decision :=
  (d.tagged "decision").bind fun e => ofVariant parseTime e.1 e.2

end Decision

namespace RemediationRecord

def fieldNames : List String :=
  ["proposal", "decision", "command_id", "signature", "result", "updated_at"]

def ofFields (fs : List (String × Doc)) : Option RemediationRecord := do
  some {
    proposal := ← required fs "proposal" (RemediationProposal.ofDoc parseTime)
    decision := ← required fs "decision" (Decision.ofDoc parseTime)
    commandId := ← withDefault fs "command_id" (asOption Uuid.ofDoc) none
    signature := ← withDefault fs "signature" (asOption asStr) none
    result := ← withDefault fs "result" (asOption (ActionResult.ofDoc parseTime)) none
    updatedAt := ← required fs "updated_at" (DateTime.ofDoc parseTime) }

def ofDoc (d : Doc) : Option RemediationRecord := (d.fields fieldNames).bind (ofFields parseTime)

end RemediationRecord

end

/-! ## Round trips -/

theorem ActionStatus.ofDoc_toText (s : ActionStatus) :
    ActionStatus.ofDoc (Json.toDoc (.str s.toText)) = some s := by
  cases s <;> rfl

/-- The member that the parameters are written as if they are skipped when there are none. -/
theorem lookup_params (key : String) (params : BTreeMap String String) :
    (Json.toMembers (if params = .empty then [] else [("params", paramsJson params)])).lookup key =
      if key = "params" then if params = .empty then none else some (paramsJson params).toDoc
      else none := by
  by_cases hparams : params = .empty
  · simp [hparams]
  · simp [hparams]

theorem asMap_paramsJson (params : BTreeMap String String) :
    asMap asStr (paramsJson params).toDoc = some params :=
  asMap_entries (g := Json.str) asStr_str params

section

variable {P : Platform} {parseTime : String → Option DateTime}
  (htime : ∀ t, parseTime (P.rfc3339 t) = some t)

include htime

omit htime in
theorem ActionResult.members_sublist (r : ActionResult) :
    ((r.members P).map Prod.fst).Sublist fieldNames := by
  have hdetail := map_fst_optional "detail" r.detail Json.str
  have hstate := map_fst_optional "observed_state" r.observedState Json.str
  simp only [members, List.map_append]
  exact (((List.Sublist.refl _).append hdetail).append hstate).append (.refl _)

omit htime in
theorem ActionResult.fields_toJson (r : ActionResult) :
    fields fieldNames (r.toJson P).toDoc = some (Json.toMembers (r.members P)) :=
  fields_of_sublist (by decide) r.members_sublist

theorem ActionResult.ofDoc_toJson (r : ActionResult) :
    ActionResult.ofDoc parseTime (r.toJson P).toDoc = some r := by
  rw [ofDoc, fields_toJson, Option.bind_some, ofFields,
    withDefault_optional rfl asStr_str (o := r.detail) (by simp [members]),
    withDefault_optional rfl asStr_str (o := r.observedState) (by simp [members])]
  simp [members, required, Uuid.ofDoc_toJson, ActionStatus.ofDoc_toText, DateTime.ofDoc_toJson htime]

omit htime in
theorem RemediationProposal.members_sublist (p : RemediationProposal) :
    ((p.members P).map Prod.fst).Sublist fieldNames := by
  have hparams : ((if p.params = .empty then [] else [("params", paramsJson p.params)]).map
      Prod.fst).Sublist ["params"] := by
    split
    · exact List.nil_sublist _
    · exact List.Sublist.refl _
  simp only [members, List.map_append]
  exact ((List.Sublist.refl _).append hparams).append (.refl _)

omit htime in
theorem RemediationProposal.fields_toJson (p : RemediationProposal) :
    fields fieldNames (p.toJson P).toDoc = some (Json.toMembers (p.members P)) :=
  fields_of_sublist (by decide) p.members_sublist

theorem RemediationProposal.ofDoc_toJson (p : RemediationProposal) :
    RemediationProposal.ofDoc parseTime (p.toJson P).toDoc = some p := by
  have hparams : withDefault (Json.toMembers (p.members P)) "params" (asMap asStr) .empty =
      some p.params := by
    by_cases hempty : p.params = .empty
    · simp [withDefault, members, hempty]
    · simp [withDefault, members, hempty, asMap_paramsJson]
  rw [ofDoc, fields_toJson, Option.bind_some, ofFields, hparams]
  simp [members, required, lookup_params, Uuid.ofDoc_toJson, AgentId.ofDoc_toJson, RiskTier.ofDoc_toText,
    DateTime.ofDoc_toJson htime]

omit htime in
theorem ApprovalRef.inRange_toJson (a : ApprovalRef) : (a.toJson P).toDoc.inRange := by
  cases a <;> simp [ApprovalRef.toJson, DateTime.toJson]

omit htime in
theorem Decision.members_inRange (d : Decision) : ∀ m ∈ d.members P, m.2.toDoc.inRange := by
  cases d <;> simp [members, or_imp, forall_and, ApprovalRef.inRange_toJson, DateTime.toJson]

theorem Decision.ofDoc_toJson (d : Decision) : Decision.ofDoc parseTime (d.toJson P).toDoc = some d := by
  cases d with
  | pending => rfl
  | approved approval =>
    rw [toJson, ofDoc, tagged_cons (by simp [members]) (members_inRange _)]
    have hfields : fields ["by"] (Json.toDoc (.obj (members P (.approved approval)))) = some _ :=
      fields_of_sublist (by decide) (.refl _)
    simp only [Option.bind_some, ofVariant, tag, hfields, ofApproved]
    simp [members, required, ApprovalRef.ofDoc_toJson htime]
  | rejected «by» «at» reason =>
    have hreason := map_fst_optional "reason" reason Json.str
    rw [toJson, ofDoc, tagged_cons ?_ (members_inRange _)]
    · have hfields : fields ["by", "at", "reason"]
          (Json.toDoc (.obj (members P (.rejected «by» «at» reason)))) = some _ :=
        fields_of_sublist (by decide) (by
          simp only [members, List.map_append]
          exact (List.Sublist.refl _).append hreason)
      have hlast : withDefault (Json.toMembers (members P (.rejected «by» «at» reason))) "reason"
          (asOption asStr) none = some reason :=
        withDefault_optional rfl asStr_str (by simp [members])
      simp only [Option.bind_some, ofVariant, tag, hfields, ofRejected, hlast]
      simp [members, required, DateTime.ofDoc_toJson htime]
    · intro m hm
      have hkey : m.1 ∈ ["by", "at", "reason"] := by
        refine List.Sublist.subset ?_ (List.mem_map_of_mem hm)
        simp only [members, List.map_append]
        exact (List.Sublist.refl _).append hreason
      intro heq
      simp [heq] at hkey

omit htime in
theorem RemediationRecord.members_sublist (r : RemediationRecord) :
    ((r.members P).map Prod.fst).Sublist fieldNames := by
  have hcommand := map_fst_optional "command_id" r.commandId Uuid.toJson
  have hsignature := map_fst_optional "signature" r.signature Json.str
  have hresult := map_fst_optional "result" r.result (ActionResult.toJson P)
  simp only [members, List.map_append]
  exact ((((List.Sublist.refl _).append hcommand).append hsignature).append hresult).append (.refl _)

omit htime in
theorem RemediationRecord.fields_toJson (r : RemediationRecord) :
    fields fieldNames (r.toJson P).toDoc = some (Json.toMembers (r.members P)) :=
  fields_of_sublist (by decide) r.members_sublist

theorem RemediationRecord.ofDoc_toJson (r : RemediationRecord) :
    RemediationRecord.ofDoc parseTime (r.toJson P).toDoc = some r := by
  rw [ofDoc, fields_toJson, Option.bind_some, ofFields,
    withDefault_optional rfl Uuid.ofDoc_toJson (o := r.commandId) (by simp [members]),
    withDefault_optional rfl asStr_str (o := r.signature) (by simp [members]),
    withDefault_optional rfl (ActionResult.ofDoc_toJson htime) (o := r.result) (by simp [members])]
  simp [members, required, RemediationProposal.ofDoc_toJson htime, Decision.ofDoc_toJson htime,
    DateTime.ofDoc_toJson htime]

end

/-! ## The order of members -/

section

variable {parseTime : String → Option DateTime}

theorem Uuid.orderless_ofDoc : Orderless Uuid.ofDoc := orderless_asStr.bind _

theorem AgentId.orderless_ofDoc : Orderless AgentId.ofDoc := Uuid.orderless_ofDoc.map _

theorem RiskTier.orderless_ofDoc : Orderless RiskTier.ofDoc := orderless_unitVariant.bind _

theorem DateTime.orderless_ofDoc : Orderless (DateTime.ofDoc parseTime) := orderless_asStr.bind _

theorem ActionStatus.orderless_ofDoc : Orderless ActionStatus.ofDoc := orderless_unitVariant.bind _

/-- The fields that follow the tag of an approval. -/
def ApprovalRef.ofVariant (parseTime : String → Option DateTime) (variant : String) (content : Doc) :
    Option ApprovalRef :=
  match variant with
  | "policy_auto" => (content.fields []).bind fun _ => some policyAuto
  | "human" => (content.fields ["user", "approved_at"]).bind fun fs =>
    (required fs "user" asStr).bind fun user =>
      (required fs "approved_at" (DateTime.ofDoc parseTime)).bind fun approvedAt =>
        some (human user approvedAt)
  | _ => none

theorem ApprovalRef.ofDoc_eq (d : Doc) : ApprovalRef.ofDoc parseTime d =
    (d.tagged "kind").bind fun e => ofVariant parseTime e.1 e.2 := by
  unfold ApprovalRef.ofDoc
  rw [Option.bind_eq_bind]
  refine congrArg _ (funext fun e => ?_)
  simp only [ofVariant, Option.bind_eq_bind, Option.map_eq_bind]
  rfl

theorem ApprovalRef.orderless_ofDoc : Orderless (ApprovalRef.ofDoc parseTime) := by
  rw [funext ApprovalRef.ofDoc_eq]
  refine Orderless.tagged (fun variant => ?_) "kind"
  unfold ofVariant
  split
  · exact (fieldsOrderless_some _).struct _
  · refine FieldsOrderless.struct ?_ _
    refine (orderless_asStr.required _).bind fun _ => ?_
    exact (DateTime.orderless_ofDoc.required _).bind fun _ => fieldsOrderless_some _
  · exact ⟨fun _ h => h⟩

theorem ActionResult.orderless_ofDoc : Orderless (ActionResult.ofDoc parseTime) := by
  refine FieldsOrderless.struct ?_ _
  unfold ofFields
  simp only [Option.bind_eq_bind]
  refine (Uuid.orderless_ofDoc.required _).bind fun _ => ?_
  refine (ActionStatus.orderless_ofDoc.required _).bind fun _ => ?_
  refine (orderless_asStr.asOption.withDefault _ _).bind fun _ => ?_
  refine (orderless_asStr.asOption.withDefault _ _).bind fun _ => ?_
  exact (DateTime.orderless_ofDoc.required _).bind fun _ => fieldsOrderless_some _

theorem RemediationProposal.orderless_ofDoc : Orderless (RemediationProposal.ofDoc parseTime) := by
  refine FieldsOrderless.struct ?_ _
  unfold ofFields
  simp only [Option.bind_eq_bind]
  refine (Uuid.orderless_ofDoc.required _).bind fun _ => ?_
  refine (Uuid.orderless_ofDoc.required _).bind fun _ => ?_
  refine (AgentId.orderless_ofDoc.required _).bind fun _ => ?_
  refine (orderless_asStr.required _).bind fun _ => ?_
  refine (orderless_asStr.required _).bind fun _ => ?_
  refine (orderless_asU32.required _).bind fun _ => ?_
  refine (RiskTier.orderless_ofDoc.required _).bind fun _ => ?_
  refine (orderless_asStr.asMap.withDefault _ _).bind fun _ => ?_
  refine (orderless_asStr.required _).bind fun _ => ?_
  exact (DateTime.orderless_ofDoc.required _).bind fun _ => fieldsOrderless_some _

theorem Decision.orderless_ofDoc : Orderless (Decision.ofDoc parseTime) := by
  refine Orderless.tagged (fun variant => ?_) "decision"
  unfold ofVariant
  split
  · exact (fieldsOrderless_some _).struct _
  · refine FieldsOrderless.struct ?_ _
    unfold ofApproved
    simp only [Option.bind_eq_bind]
    exact (ApprovalRef.orderless_ofDoc.required _).bind fun _ => fieldsOrderless_some _
  · refine FieldsOrderless.struct ?_ _
    unfold ofRejected
    simp only [Option.bind_eq_bind]
    refine (orderless_asStr.required _).bind fun _ => ?_
    refine (DateTime.orderless_ofDoc.required _).bind fun _ => ?_
    exact (orderless_asStr.asOption.withDefault _ _).bind fun _ => fieldsOrderless_some _
  · exact ⟨fun _ h => h⟩

theorem RemediationRecord.orderless_ofDoc : Orderless (RemediationRecord.ofDoc parseTime) := by
  refine FieldsOrderless.struct ?_ _
  unfold ofFields
  simp only [Option.bind_eq_bind]
  refine (RemediationProposal.orderless_ofDoc.required _).bind fun _ => ?_
  refine (Decision.orderless_ofDoc.required _).bind fun _ => ?_
  refine (Uuid.orderless_ofDoc.asOption.withDefault _ _).bind fun _ => ?_
  refine (orderless_asStr.asOption.withDefault _ _).bind fun _ => ?_
  refine (ActionResult.orderless_ofDoc.asOption.withDefault _ _).bind fun _ => ?_
  exact (DateTime.orderless_ofDoc.required _).bind fun _ => fieldsOrderless_some _

end

/-! ## No name is repeated -/

section

variable {P : Platform}

open Json

theorem ApprovalRef.uniqueKeys_toJson (a : ApprovalRef) : (a.toJson P).UniqueKeys := by
  cases a with
  | policyAuto => exact ⟨List.nodup_singleton _, trivial, trivial⟩
  | human user approvedAt =>
    exact ⟨by simp, trivial, trivial, trivial, trivial⟩

theorem ActionResult.uniqueKeys_toJson (r : ActionResult) : (r.toJson P).UniqueKeys := by
  refine uniqueKeys_obj fieldNames (by decide) r.members_sublist ?_
  have hdetail := membersUnique_optional (f := Json.str) (fun _ => trivial) "detail" r.detail
  have hstate := membersUnique_optional (f := Json.str) (fun _ => trivial) "observed_state"
    r.observedState
  refine membersUnique_append (membersUnique_append (membersUnique_append ?_ hdetail) hstate) ?_
  · exact ⟨trivial, trivial, trivial⟩
  · exact ⟨trivial, trivial⟩

theorem uniqueKeys_paramsJson (params : BTreeMap String String) :
    (paramsJson params).UniqueKeys := by
  refine ⟨?_, membersUnique_iff.mpr fun m hm => ?_⟩
  · rw [List.map_map]
    exact params.nodup_entries
  · obtain ⟨e, -, rfl⟩ := List.mem_map.mp hm
    trivial

theorem RemediationProposal.uniqueKeys_toJson (p : RemediationProposal) :
    (p.toJson P).UniqueKeys := by
  refine uniqueKeys_obj fieldNames (by decide) p.members_sublist ?_
  have hparams : MembersUnique
      (if p.params = .empty then [] else [("params", paramsJson p.params)]) := by
    split
    · trivial
    · exact ⟨uniqueKeys_paramsJson _, trivial⟩
  refine membersUnique_append (membersUnique_append ?_ hparams) ?_
  · exact ⟨trivial, trivial, trivial, trivial, trivial, trivial, trivial, trivial⟩
  · exact ⟨trivial, trivial, trivial⟩

theorem Decision.uniqueKeys_toJson (d : Decision) : (d.toJson P).UniqueKeys := by
  cases d with
  | pending => exact ⟨List.nodup_singleton _, trivial, trivial⟩
  | approved approval =>
    exact ⟨by simp [members], trivial, approval.uniqueKeys_toJson, trivial⟩
  | rejected «by» «at» reason =>
    have hreason := membersUnique_optional (f := Json.str) (fun _ => trivial) "reason" reason
    refine uniqueKeys_obj ["decision", "by", "at", "reason"] (by decide) ?_
      ⟨trivial, trivial, trivial, hreason⟩
    exact (((map_fst_optional "reason" reason Json.str).cons_cons _).cons_cons _).cons_cons _

theorem RemediationRecord.uniqueKeys_toJson (r : RemediationRecord) : (r.toJson P).UniqueKeys := by
  refine uniqueKeys_obj fieldNames (by decide) r.members_sublist ?_
  have hcommand := membersUnique_optional (f := Uuid.toJson) (fun _ => trivial) "command_id"
    r.commandId
  have hsignature := membersUnique_optional (f := Json.str) (fun _ => trivial) "signature" r.signature
  have hresult := membersUnique_optional (f := ActionResult.toJson P)
    (fun a => a.uniqueKeys_toJson) "result" r.result
  refine membersUnique_append (membersUnique_append (membersUnique_append (membersUnique_append ?_
    hcommand) hsignature) hresult) ⟨trivial, trivial⟩
  exact ⟨r.proposal.uniqueKeys_toJson, r.decision.uniqueKeys_toJson, trivial⟩

end

/-! ## Nesting -/

section

variable {P : Platform}

theorem ActionResult.depth_toJson_le (r : ActionResult) : (r.toJson P).depth ≤ 1 := by
  have hdetail := depth_optional "detail" r.detail (f := .str) fun _ => Nat.zero_le 0
  have hstate := depth_optional "observed_state" r.observedState (f := .str) fun _ => Nat.zero_le 0
  refine Json.depth_obj_le.mpr ?_
  simp only [members, List.forall_mem_append, List.forall_mem_cons]
  exact ⟨⟨⟨⟨Nat.le_refl 0, Nat.le_refl 0, nofun⟩, hdetail⟩, hstate⟩, Nat.le_refl 0, nofun⟩

theorem depth_paramsJson_le (params : BTreeMap String String) : (paramsJson params).depth ≤ 1 := by
  refine Json.depth_obj_le.mpr fun m hm => ?_
  obtain ⟨e, -, rfl⟩ := List.mem_map.mp hm
  exact Nat.le_refl 0

theorem RemediationProposal.depth_toJson_le (p : RemediationProposal) : (p.toJson P).depth ≤ 2 := by
  refine Json.depth_obj_le.mpr ?_
  have hparams : ∀ m ∈ (if p.params = .empty then [] else [("params", paramsJson p.params)]),
      m.2.depth ≤ 1 := by
    intro m hm
    split at hm
    · cases hm
    · cases List.mem_singleton.mp hm
      exact depth_paramsJson_le p.params
  have hleaf : ∀ v : Json, v.depth = 0 → v.depth ≤ 1 := fun v hv => hv ▸ Nat.zero_le 1
  simp only [members, List.forall_mem_append, List.forall_mem_cons]
  exact ⟨⟨⟨hleaf _ rfl, hleaf _ rfl, hleaf _ rfl, hleaf _ rfl, hleaf _ rfl,
    hleaf _ (Json.depth_num _), hleaf _ rfl, nofun⟩, hparams⟩, hleaf _ rfl, hleaf _ rfl, nofun⟩

theorem ApprovalRef.depth_toJson_le (a : ApprovalRef) : (a.toJson P).depth ≤ 1 := by
  cases a with
  | policyAuto => exact Nat.le_refl 1
  | human user approvedAt => exact Nat.le_refl 1

theorem Decision.depth_toJson_le (d : Decision) : (d.toJson P).depth ≤ 2 := by
  refine Json.depth_obj_le.mpr (List.forall_mem_cons.mpr ⟨Nat.zero_le 1, ?_⟩)
  cases d with
  | pending => nofun
  | approved approval =>
    exact List.forall_mem_cons.mpr ⟨approval.depth_toJson_le, nofun⟩
  | rejected «by» «at» reason =>
    have hreason := depth_optional "reason" reason (f := .str) fun _ => Nat.zero_le 1
    simp only [members, List.forall_mem_append, List.forall_mem_cons]
    exact ⟨⟨Nat.zero_le 1, Nat.zero_le 1, nofun⟩, hreason⟩

theorem RemediationRecord.depth_toJson_le (r : RemediationRecord) : (r.toJson P).depth ≤ 3 := by
  have hcommand := depth_optional "command_id" r.commandId (f := Uuid.toJson) fun _ => Nat.zero_le 2
  have hsignature := depth_optional "signature" r.signature (f := .str) fun _ => Nat.zero_le 2
  have hresult := depth_optional "result" r.result (f := ActionResult.toJson P)
    fun a => Nat.le_succ_of_le a.depth_toJson_le
  refine Json.depth_obj_le.mpr ?_
  simp only [members, List.forall_mem_append, List.forall_mem_cons]
  exact ⟨⟨⟨⟨⟨r.proposal.depth_toJson_le, r.decision.depth_toJson_le, nofun⟩, hcommand⟩, hsignature⟩,
    hresult⟩, Nat.zero_le 2, nofun⟩

/-! ## Numbers of what is written -/

theorem ActionResult.inRange_toJson (r : ActionResult) : (r.toJson P).toDoc.inRange := by
  simp [toJson, members, or_imp, forall_and, Uuid.toJson, DateTime.toJson]

theorem RemediationProposal.inRange_toJson (p : RemediationProposal) :
    (p.toJson P).toDoc.inRange := by
  have hparams : (paramsJson p.params).toDoc.inRange := by
    rw [paramsJson, inRange_obj, List.forall_mem_map]
    exact fun e _ => rfl
  simp [toJson, members, hparams, or_imp, forall_and, Uuid.toJson, AgentId.toJson, DateTime.toJson]

theorem Decision.inRange_toJson (d : Decision) : (d.toJson P).toDoc.inRange :=
  inRange_obj.mpr (List.forall_mem_cons.mpr ⟨rfl, d.members_inRange⟩)

theorem RemediationRecord.inRange_toJson (r : RemediationRecord) : (r.toJson P).toDoc.inRange := by
  simp [toJson, members, or_imp, forall_and, Uuid.toJson, DateTime.toJson, ActionResult.inRange_toJson,
    RemediationProposal.inRange_toJson, Decision.inRange_toJson]

end

/-! ## Round trips through a sorted value -/

section

variable {P : Platform} {parseTime : String → Option DateTime}
  (htime : ∀ t, parseTime (P.rfc3339 t) = some t)

include htime

theorem ActionResult.ofDoc_canonical (r : ActionResult) :
    ActionResult.ofDoc parseTime (r.toJson P).canonical.toDoc = some r :=
  orderless_ofDoc.canonical r.uniqueKeys_toJson (ofDoc_toJson htime r)

theorem RemediationProposal.ofDoc_canonical (p : RemediationProposal) :
    RemediationProposal.ofDoc parseTime (p.toJson P).canonical.toDoc = some p :=
  orderless_ofDoc.canonical p.uniqueKeys_toJson (ofDoc_toJson htime p)

theorem Decision.ofDoc_canonical (d : Decision) :
    Decision.ofDoc parseTime (d.toJson P).canonical.toDoc = some d :=
  orderless_ofDoc.canonical d.uniqueKeys_toJson (ofDoc_toJson htime d)

theorem RemediationRecord.ofDoc_canonical (r : RemediationRecord) :
    RemediationRecord.ofDoc parseTime (r.toJson P).canonical.toDoc = some r :=
  orderless_ofDoc.canonical r.uniqueKeys_toJson (ofDoc_toJson htime r)

end

end Ravn
