import Ravn.Core.Platform
import Ravn.Core.Remediation

/-! The bytes that are signed: the compact JSON text of every field of an envelope but `sig`. The
encodings below are the ones serde derives, field by field in declaration order. -/

namespace Ravn

open Theory

/-! ## Encodings -/

namespace RiskTier

def toText : RiskTier → String
  | safe => "safe"
  | guarded => "guarded"
  | dangerous => "dangerous"

theorem toText_injective {a b : RiskTier} (h : a.toText = b.toText) : a = b := by
  cases a <;> cases b <;> first | rfl | exact absurd h (by decide)

end RiskTier

namespace Rollback

def toText : Rollback → String
  | none => "none"
  | nixGeneration => "nix_generation"

theorem toText_injective {a b : Rollback} (h : a.toText = b.toText) : a = b := by
  cases a <;> cases b <;> first | rfl | exact absurd h (by decide)

end Rollback

def Uuid.toJson (u : Uuid) : Json := .str u.toString

theorem Uuid.toJson_injective {a b : Uuid} (h : a.toJson = b.toJson) : a = b :=
  Uuid.toString_injective (Json.str.inj h)

/-- `AgentId` is transparent. -/
def AgentId.toJson (a : AgentId) : Json := a.uuid.toJson

theorem AgentId.toJson_injective {a b : AgentId} (h : a.toJson = b.toJson) : a = b :=
  congrArg AgentId.mk (Uuid.toJson_injective h)

/-- Internally tagged by `capability`. -/
def Capability.toJson : Capability → Json
  | resetFailed unit => .obj [("capability", .str "reset_failed"), ("unit", .str unit)]
  | restartUnit unit => .obj [("capability", .str "restart_unit"), ("unit", .str unit)]
  | unitState unit => .obj [("capability", .str "unit_state"), ("unit", .str unit)]
  | nixRollback => .obj [("capability", .str "nix_rollback")]
  | deletePod ns pod =>
    .obj [("capability", .str "delete_pod"), ("namespace", .str ns), ("pod", .str pod)]
  | restartDeployment ns deployment =>
    .obj [("capability", .str "restart_deployment"), ("namespace", .str ns),
      ("deployment", .str deployment)]
  | podState ns podPrefix =>
    .obj [("capability", .str "pod_state"), ("namespace", .str ns),
      ("pod_prefix", .str podPrefix)]

theorem Capability.toJson_injective {a b : Capability} (h : a.toJson = b.toJson) : a = b := by
  cases a <;> cases b <;> simp [Capability.toJson] at h <;> simp [h]

def Condition.toJson (c : Condition) : Json :=
  .obj [("check", c.check.toJson), ("equals", .str c.equals)]

theorem Condition.toJson_injective {a b : Condition} (h : a.toJson = b.toJson) : a = b := by
  obtain ⟨check, equals⟩ := a
  simp only [Condition.toJson, Json.obj.injEq, List.cons.injEq, Prod.mk.injEq, Json.str.injEq,
    true_and, and_true] at h
  rw [Capability.toJson_injective h.1, h.2]

def Verify.toJson (v : Verify) : Json :=
  .obj [("check", v.check.toJson), ("equals", .str v.equals), ("timeout_s", .num v.timeoutS.toNat)]

theorem Verify.toJson_injective {a b : Verify} (h : a.toJson = b.toJson) : a = b := by
  obtain ⟨check, equals, timeout⟩ := a
  simp only [Verify.toJson, Json.obj.injEq, List.cons.injEq, Prod.mk.injEq, Json.str.injEq,
    Json.num.injEq, true_and, and_true] at h
  obtain ⟨hc, he, ht⟩ := h
  rw [Capability.toJson_injective hc, he, UInt64.toNat_inj.mp (Int.ofNat.inj ht)]

/-- `Option` serialises a missing value as `null`. -/
def optionJson (f : α → Json) : Option α → Json
  | none => .null
  | some a => f a

section

variable (P : Platform)

def DateTime.toJson (t : DateTime) : Json := .str (P.rfc3339 t)

/-- Internally tagged by `kind`. -/
def ApprovalRef.toJson : ApprovalRef → Json
  | policyAuto => .obj [("kind", .str "policy_auto")]
  | human user approvedAt =>
    .obj [("kind", .str "human"), ("user", .str user), ("approved_at", approvedAt.toJson P)]

/-! ## The payload -/

namespace CommandEnvelope

/-- The shadow struct `Signable`. Unlike in the envelope itself, empty preconditions and an absent
`verify` are written out; only an absent `kid` is skipped. -/
def signable (env : CommandEnvelope) : Json :=
  .obj ([("command_id", env.commandId.toJson),
    ("agent_id", env.agentId.toJson),
    ("template_id", .str env.templateId),
    ("template_version", .num env.templateVersion.toNat),
    ("risk_tier", .str env.riskTier.toText),
    ("preconditions", .arr (env.preconditions.map Condition.toJson)),
    ("steps", .arr (env.steps.map Capability.toJson)),
    ("verify", optionJson Verify.toJson env.verify),
    ("rollback", .str env.rollback.toText),
    ("approval_ref", env.approvalRef.toJson P),
    ("nonce", .str env.nonce),
    ("issued_at", env.issuedAt.toJson P),
    ("expires_at", env.expiresAt.toJson P)] ++
    env.kid.toList.map fun kid => ("kid", .str kid))

/-- `signing_payload`: the exact bytes that get signed and verified. -/
def signingPayload (env : CommandEnvelope) : List UInt8 :=
  (env.signable P).print.flatMap String.utf8EncodeChar

/-- Everything of an envelope but its signature. -/
def unsigned (env : CommandEnvelope) : CommandEnvelope := { env with sig := none }

end CommandEnvelope

end

/-! ## Injectivity -/

theorem utf8_injective {cs ds : List Char}
    (h : cs.flatMap String.utf8EncodeChar = ds.flatMap String.utf8EncodeChar) : cs = ds := by
  have henc : cs.utf8Encode = ds.utf8Encode := by rw [List.utf8Encode, h, List.utf8Encode]
  have hstr : String.ofList cs = String.ofList ds := by
    rw [← String.toByteArray_inj]
    simpa using henc
  exact String.ofList_injective hstr

theorem optionJson_injective {f : α → Json} (hf : ∀ {a b}, f a = f b → a = b)
    (hnull : ∀ a, f a ≠ .null) {x y : Option α} (h : optionJson f x = optionJson f y) : x = y := by
  cases x with
  | none =>
    cases y with
    | none => rfl
    | some b => exact absurd h.symm (hnull b)
  | some a =>
    cases y with
    | none => exact absurd h (hnull a)
    | some b => rw [hf h]

variable {P : Platform} (hP : Function.Injective P.rfc3339)

include hP

theorem DateTime.toJson_injective {a b : DateTime} (h : a.toJson P = b.toJson P) : a = b :=
  hP (Json.str.inj h)

theorem ApprovalRef.toJson_injective {a b : ApprovalRef} (h : a.toJson P = b.toJson P) : a = b := by
  cases a with
  | policyAuto =>
    cases b with
    | policyAuto => rfl
    | human user approvedAt => simp [ApprovalRef.toJson] at h
  | human user approvedAt =>
    cases b with
    | policyAuto => simp [ApprovalRef.toJson] at h
    | human user' approvedAt' =>
      simp only [ApprovalRef.toJson, Json.obj.injEq, List.cons.injEq, Prod.mk.injEq, Json.str.injEq,
        true_and, and_true] at h
      rw [h.1, DateTime.toJson_injective hP h.2]

namespace CommandEnvelope

theorem signable_injective {a b : CommandEnvelope} (h : a.signable P = b.signable P) :
    a.unsigned = b.unsigned := by
  obtain ⟨id, agent, tmpl, version, tier, pres, steps, verify, rollback, approval, nonce, issued,
    expires, kid, sig⟩ := a
  simp only [signable, Json.obj.injEq, List.cons_append, List.nil_append, List.cons.injEq,
    Prod.mk.injEq, Json.str.injEq, Json.num.injEq, Json.arr.injEq, true_and] at h
  obtain ⟨hid, hagent, htmpl, hversion, htier, hpres, hsteps, hverify, hrollback, happroval, hnonce,
    hissued, hexpires, hkid⟩ := h
  have hkid' : kid = b.kid := by
    cases kid <;> cases hb : b.kid <;> simp_all
  simp only [unsigned]
  rw [Uuid.toJson_injective hid, AgentId.toJson_injective hagent, htmpl, UInt32.toNat_inj.mp (Int.ofNat.inj hversion),
    RiskTier.toText_injective htier,
    (List.map_injective_iff.mpr fun _ _ => Condition.toJson_injective) hpres,
    (List.map_injective_iff.mpr fun _ _ => Capability.toJson_injective) hsteps,
    optionJson_injective Verify.toJson_injective (by simp [Verify.toJson]) hverify,
    Rollback.toText_injective hrollback, ApprovalRef.toJson_injective hP happroval, hnonce,
    DateTime.toJson_injective hP hissued, DateTime.toJson_injective hP hexpires, hkid']

/-- Two envelopes with the same signed bytes differ in `sig` at most. -/
theorem unsigned_eq_of_signingPayload {a b : CommandEnvelope}
    (h : a.signingPayload P = b.signingPayload P) : a.unsigned = b.unsigned :=
  signable_injective hP (Json.print_injective (utf8_injective h))

end CommandEnvelope

end Ravn
