import Ravn.Core.SigningPayload

/-! The wire form of an envelope: the JSON document that serde derives for the struct itself. Unlike
in the signed bytes, empty preconditions and absent options are skipped, and `sig` is included. -/

namespace Ravn

open Theory

variable (P : Platform)

namespace CommandEnvelope

def toJson (env : CommandEnvelope) : Json :=
  .obj ([("command_id", env.commandId.toJson),
    ("agent_id", env.agentId.toJson),
    ("template_id", .str env.templateId),
    ("template_version", .num env.templateVersion.toNat),
    ("risk_tier", .str env.riskTier.toText)] ++
    (if env.preconditions = [] then []
      else [("preconditions", .arr (env.preconditions.map Condition.toJson))]) ++
    [("steps", .arr (env.steps.map Capability.toJson))] ++
    (env.verify.toList.map fun verify => ("verify", verify.toJson)) ++
    [("rollback", .str env.rollback.toText),
      ("approval_ref", env.approvalRef.toJson P),
      ("nonce", .str env.nonce),
      ("issued_at", env.issuedAt.toJson P),
      ("expires_at", env.expiresAt.toJson P)] ++
    (env.kid.toList.map fun kid => ("kid", .str kid)) ++
    (env.sig.toList.map fun sig => ("sig", .str sig)))

/-- The line that `send_to_actuator` writes. -/
def wireLine (env : CommandEnvelope) : List Char := (env.toJson P).print ++ ['\n']

end CommandEnvelope

end Ravn
