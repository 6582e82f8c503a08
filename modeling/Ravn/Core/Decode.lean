import Ravn.Core.Wire
import Ravn.Theory.Serde

/-! How an envelope is read from the wire: the readers that serde derives for the remediation schema,
field by field, with the defaults that older envelopes rely on. Each reader undoes its writer, so an
envelope survives any number of encodings (`CommandEnvelope.fromText_toText`). -/

namespace Ravn

open Theory Doc

/-! ## Readers -/

def RiskTier.ofText : String → Option RiskTier
  | "safe" => some safe
  | "guarded" => some guarded
  | "dangerous" => some dangerous
  | _ => none

def RiskTier.ofDoc (d : Doc) : Option RiskTier := d.unitVariant.bind ofText

def Rollback.ofText : String → Option Rollback
  | "none" => some none
  | "nix_generation" => some nixGeneration
  | _ => Option.none

def Rollback.ofDoc (d : Doc) : Option Rollback := d.unitVariant.bind ofText

def Uuid.ofDoc (d : Doc) : Option Uuid := d.asStr.bind fun s => parse s.toList

def AgentId.ofDoc (d : Doc) : Option AgentId := (Uuid.ofDoc d).map AgentId.mk

namespace Capability

/-- The fields of a variant that names a unit. -/
def ofUnit (f : String → Capability) (content : Doc) : Option Capability := do
  let fs ← content.fields ["unit"]
  some (f (← required fs "unit" asStr))

/-- The fields of a variant that names an object in a namespace. -/
def ofNamespaced (name : String) (f : String → String → Capability) (content : Doc) :
    Option Capability := do
  let fs ← content.fields ["namespace", name]
  some (f (← required fs "namespace" asStr) (← required fs name asStr))

def ofDoc (d : Doc) : Option Capability := do
  let (variant, content) ← d.tagged "capability"
  match variant with
  | "reset_failed" => ofUnit resetFailed content
  | "restart_unit" => ofUnit restartUnit content
  | "unit_state" => ofUnit unitState content
  | "nix_rollback" => (content.fields []).map fun _ => nixRollback
  | "delete_pod" => ofNamespaced "pod" deletePod content
  | "restart_deployment" => ofNamespaced "deployment" restartDeployment content
  | "pod_state" => ofNamespaced "pod_prefix" podState content
  | _ => none

end Capability

def Condition.ofDoc (d : Doc) : Option Condition := do
  let fs ← d.fields ["check", "equals"]
  some ⟨← required fs "check" Capability.ofDoc, ← required fs "equals" asStr⟩

/-- `default_verify_timeout` -/
def Verify.defaultTimeout : UInt64 := 30

def Verify.ofDoc (d : Doc) : Option Verify := do
  let fs ← d.fields ["check", "equals", "timeout_s"]
  some ⟨← required fs "check" Capability.ofDoc, ← required fs "equals" asStr,
    ← withDefault fs "timeout_s" asU64 defaultTimeout⟩

namespace CommandEnvelope

variable (P : Platform)

/-- `serde_json::to_string` at this type. -/
def toText (env : CommandEnvelope) : List Char := (env.toJson P).print

/-- `serde_json::to_string` at a list of envelopes. -/
def listToText (envs : List CommandEnvelope) : List Char :=
  (Json.arr (envs.map (toJson P))).print

end CommandEnvelope

section

/-! chrono reads a time from its text; `parseTime` stands for that. -/

variable (parseTime : String → Option DateTime)

def DateTime.ofDoc (d : Doc) : Option DateTime := d.asStr.bind parseTime

def ApprovalRef.ofDoc (d : Doc) : Option ApprovalRef := do
  let (variant, content) ← d.tagged "kind"
  match variant with
  | "policy_auto" => (content.fields []).map fun _ => policyAuto
  | "human" => do
    let fs ← content.fields ["user", "approved_at"]
    some (human (← required fs "user" asStr) (← required fs "approved_at" (DateTime.ofDoc parseTime)))
  | _ => none

namespace CommandEnvelope

/-- The fields in declaration order. -/
def fieldNames : List String :=
  ["command_id", "agent_id", "template_id", "template_version", "risk_tier", "preconditions",
    "steps", "verify", "rollback", "approval_ref", "nonce", "issued_at", "expires_at", "kid", "sig"]

def ofFields (fs : List (String × Doc)) : Option CommandEnvelope := do
  some {
    commandId := ← required fs "command_id" Uuid.ofDoc
    agentId := ← required fs "agent_id" AgentId.ofDoc
    templateId := ← required fs "template_id" asStr
    templateVersion := ← required fs "template_version" asU32
    riskTier := ← required fs "risk_tier" RiskTier.ofDoc
    preconditions := ← withDefault fs "preconditions" (asList Condition.ofDoc) []
    steps := ← required fs "steps" (asList Capability.ofDoc)
    verify := ← withDefault fs "verify" (asOption Verify.ofDoc) none
    rollback := ← withDefault fs "rollback" Rollback.ofDoc .none
    approvalRef := ← required fs "approval_ref" (ApprovalRef.ofDoc parseTime)
    nonce := ← required fs "nonce" asStr
    issuedAt := ← required fs "issued_at" (DateTime.ofDoc parseTime)
    expiresAt := ← required fs "expires_at" (DateTime.ofDoc parseTime)
    kid := ← withDefault fs "kid" (asOption asStr) none
    sig := ← withDefault fs "sig" (asOption asStr) none }

def ofDoc (d : Doc) : Option CommandEnvelope := (d.fields fieldNames).bind (ofFields parseTime)

/-- `serde_json::from_str` at this type. -/
def fromText (text : List Char) : Option CommandEnvelope := (Json.parse text).bind (ofDoc parseTime)

/-- `serde_json::from_str` at a list of envelopes. -/
def listFromText (text : List Char) : Option (List CommandEnvelope) :=
  (Json.parse text).bind (asList (ofDoc parseTime))

end CommandEnvelope

end

/-! ## Round trips -/

theorem RiskTier.ofDoc_toText (t : RiskTier) :
    RiskTier.ofDoc (Json.toDoc (.str t.toText)) = some t := by
  cases t <;> rfl

theorem Rollback.ofDoc_toText (r : Rollback) :
    Rollback.ofDoc (Json.toDoc (.str r.toText)) = some r := by
  cases r <;> rfl

theorem Uuid.ofDoc_toJson (u : Uuid) : Uuid.ofDoc u.toJson.toDoc = some u := by
  simp [Uuid.toJson, Uuid.ofDoc, Uuid.toString, parse_toText]

theorem AgentId.ofDoc_toJson (a : AgentId) : AgentId.ofDoc a.toJson.toDoc = some a := by
  simp [AgentId.toJson, AgentId.ofDoc, Uuid.ofDoc_toJson]

namespace Capability

theorem ofUnit_toDoc (f : String → Capability) (unit : String) :
    ofUnit f (Json.toDoc (.obj [("unit", .str unit)])) = some (f unit) := by
  rw [ofUnit, fields_of_sublist (by decide) (by simp)]
  simp [required]

theorem ofNamespaced_toDoc (name : String) (f : String → String → Capability) (ns value : String)
    (hname : name ≠ "namespace") :
    ofNamespaced name f (Json.toDoc (.obj [("namespace", .str ns), (name, .str value)])) =
      some (f ns value) := by
  have hnodup : ["namespace", name].Nodup := by simp [Ne.symm hname]
  rw [ofNamespaced, fields_of_sublist hnodup (by simp)]
  simp [required, hname]

theorem ofDoc_toJson (c : Capability) : ofDoc c.toJson.toDoc = some c := by
  cases c with
  | resetFailed unit =>
    rw [toJson, ofDoc, tagged_cons (by simp) (by simp)]
    exact ofUnit_toDoc resetFailed unit
  | restartUnit unit =>
    rw [toJson, ofDoc, tagged_cons (by simp) (by simp)]
    exact ofUnit_toDoc restartUnit unit
  | unitState unit =>
    rw [toJson, ofDoc, tagged_cons (by simp) (by simp)]
    exact ofUnit_toDoc unitState unit
  | nixRollback =>
    rw [toJson, ofDoc, tagged_cons (by simp) (by simp)]
    rfl
  | deletePod ns pod =>
    rw [toJson, ofDoc, tagged_cons (by simp) (by simp)]
    exact ofNamespaced_toDoc "pod" deletePod ns pod (by decide)
  | restartDeployment ns deployment =>
    rw [toJson, ofDoc, tagged_cons (by simp) (by simp)]
    exact ofNamespaced_toDoc "deployment" restartDeployment ns deployment (by decide)
  | podState ns podPrefix =>
    rw [toJson, ofDoc, tagged_cons (by simp) (by simp)]
    exact ofNamespaced_toDoc "pod_prefix" podState ns podPrefix (by decide)

end Capability

theorem Condition.ofDoc_toJson (c : Condition) : Condition.ofDoc c.toJson.toDoc = some c := by
  rw [Condition.toJson, ofDoc, fields_of_sublist (by decide) (by simp)]
  simp [required, Capability.ofDoc_toJson]

theorem Verify.ofDoc_toJson (v : Verify) : Verify.ofDoc v.toJson.toDoc = some v := by
  rw [Verify.toJson, ofDoc, fields_of_sublist (by decide) (by simp)]
  simp [required, withDefault, Capability.ofDoc_toJson]

example : Verify.ofDoc (.obj [("equals", .str "active"),
    ("check", .arr [.str "unit_state", .str "nginx.service"])]) =
      some ⟨.unitState "nginx.service", "active", 30⟩ := by rfl

section

variable {P : Platform} {parseTime : String → Option DateTime}
  (htime : ∀ t, parseTime (P.rfc3339 t) = some t)

include htime

theorem DateTime.ofDoc_toJson (t : DateTime) :
    DateTime.ofDoc parseTime (t.toJson P).toDoc = some t := by
  simp [DateTime.toJson, ofDoc, htime]

theorem ApprovalRef.ofDoc_toJson (a : ApprovalRef) :
    ApprovalRef.ofDoc parseTime (a.toJson P).toDoc = some a := by
  cases a with
  | policyAuto =>
    rw [ApprovalRef.toJson, ofDoc, tagged_cons (by simp) (by simp)]
    rfl
  | human user approvedAt =>
    have hfields : fields ["user", "approved_at"] (Json.toDoc (.obj [("user", .str user),
        ("approved_at", approvedAt.toJson P)])) = some _ := fields_of_sublist (by decide) (.refl _)
    have htime' := DateTime.ofDoc_toJson htime approvedAt
    rw [ApprovalRef.toJson, ofDoc, tagged_cons (by simp) (by simp [DateTime.toJson])]
    simp only [Option.bind_eq_bind, Option.bind_some, hfields]
    simp [required, htime']

namespace CommandEnvelope

omit htime in
/-- The members of an envelope are its fields in declaration order, the absent ones left out. -/
theorem fields_toJson (env : CommandEnvelope) (ms : List (String × Json))
    (h : env.toJson P = .obj ms) :
    fields fieldNames (env.toJson P).toDoc = some (Json.toMembers ms) := by
  rw [h]
  refine fields_of_sublist (by decide) ?_
  cases h
  have hverify := map_fst_optional "verify" env.verify Verify.toJson
  have hkid := map_fst_optional "kid" env.kid Json.str
  have hsig := map_fst_optional "sig" env.sig Json.str
  simp only [List.map_append]
  exact ((((((List.Sublist.refl _).append (map_fst_unless_nil _ _ _)).append
    (List.Sublist.refl _)).append hverify).append (List.Sublist.refl _)).append hkid).append hsig

theorem ofDoc_toJson (env : CommandEnvelope) : ofDoc parseTime (env.toJson P).toDoc = some env := by
  rw [ofDoc, fields_toJson env _ rfl, Option.bind_some, ofFields]
  -- The fields that may be skipped come first: an absent one is read as its default.
  rw [withDefault_list Condition.ofDoc_toJson (l := env.preconditions) (by simp),
    withDefault_optional rfl Verify.ofDoc_toJson (o := env.verify) (by simp),
    withDefault_optional rfl asStr_str (o := env.kid) (by simp),
    withDefault_optional rfl asStr_str (o := env.sig) (by simp)]
  simp [required, withDefault, Uuid.ofDoc_toJson, AgentId.ofDoc_toJson, RiskTier.ofDoc_toText,
    asList_map Capability.ofDoc_toJson, Rollback.ofDoc_toText, ApprovalRef.ofDoc_toJson htime,
    DateTime.ofDoc_toJson htime]

/-- What was written is read back. -/
theorem fromText_toText (env : CommandEnvelope) :
    fromText parseTime (env.toText P) = some env := by
  rw [fromText, toText, Json.parse_print, Option.bind_some, ofDoc_toJson htime]

theorem listFromText_listToText (envs : List CommandEnvelope) :
    listFromText parseTime (listToText P envs) = some envs := by
  rw [listFromText, listToText, Json.parse_print, Option.bind_some, asList_map (ofDoc_toJson htime)]

/-- An envelope is one line on the socket, and the blanks around the line are none of its own. -/
theorem fromText_trim_readLine (env : CommandEnvelope) :
    fromText parseTime (trim (readLine (env.wireLine P))) = some env := by
  have hline : '\n' ∉ env.toText P := Json.newline_not_mem_print _
  obtain ⟨cs, hcs⟩ : ∃ cs, env.toText P = '{' :: cs ++ ['}'] := Json.print_obj _
  have htrim : trim (env.toText P ++ ['\n']) = env.toText P := by
    rw [hcs]
    exact trim_line (by decide) (by decide) cs
  rw [wireLine, ← toText, readLine_line hline, htrim, fromText_toText htime]

end CommandEnvelope

end

end Ravn
