import Ravn.Core.Event

/-! The remediation schema: typed capabilities, the signed command envelope, the agent's report on
it, and the proposal with its audit record. No type here holds free-form text that is executed. -/

namespace Ravn

open Theory

/-- How dangerous a remediation is, ordered least to most. -/
inductive RiskTier where
  | safe
  | guarded
  /-- Potential data loss or wide blast radius; never executed automatically. -/
  | dangerous
deriving DecidableEq

/-- A single typed, whitelisted operation: there is no arbitrary-shell variant. -/
inductive Capability where
  | resetFailed (unit : String)
  | restartUnit (unit : String)
  | unitState (unit : String)
  | nixRollback
  | deletePod («namespace» pod : String)
  | restartDeployment («namespace» deployment : String)
  | podState («namespace» podPrefix : String)
deriving DecidableEq

/-- Whether a capability only observes, and so may appear in a check. -/
def Capability.isReadOnly : Capability → Bool
  | unitState _ | podState _ _ => true
  | _ => false

/-- A read-only check and the value it must equal. -/
structure Condition where
  check : Capability
  equals : String
deriving DecidableEq

/-- A post-condition with a bounded wait for the desired state. -/
structure Verify where
  check : Capability
  equals : String
  timeoutS : UInt64
deriving DecidableEq

/-- What to do if verification fails. -/
inductive Rollback where
  | none
  | nixGeneration
deriving DecidableEq

/-- Who or what authorised an action. -/
inductive ApprovalRef where
  | policyAuto
  | human (user : String) (approvedAt : DateTime)
deriving DecidableEq

/-- A ready-to-execute command. The signature covers every field but `sig` itself. -/
structure CommandEnvelope where
  commandId : Uuid
  agentId : AgentId
  templateId : String
  templateVersion : UInt32
  riskTier : RiskTier
  preconditions : List Condition
  steps : List Capability
  verify : Option Verify
  rollback : Rollback
  approvalRef : ApprovalRef
  nonce : String
  issuedAt : DateTime
  expiresAt : DateTime
  kid : Option String
  sig : Option String
deriving DecidableEq

/-- Outcome of executing an envelope, as the agent reports it. -/
inductive ActionStatus where
  | succeeded
  | preconditionFailed
  | failed
  | rejected
  /-- Verification failed and so did the declared rollback. -/
  | frozen
deriving DecidableEq

structure ActionResult where
  commandId : Uuid
  status : ActionStatus
  detail : Option String
  observedState : Option String
  finishedAt : DateTime
deriving DecidableEq

/-- A proposed remediation awaiting a decision. -/
structure RemediationProposal where
  id : Uuid
  eventId : Uuid
  agentId : AgentId
  host : String
  templateId : String
  templateVersion : UInt32
  riskTier : RiskTier
  params : BTreeMap String String
  rationale : String
  createdAt : DateTime
deriving DecidableEq

inductive Decision where
  | pending
  | approved («by» : ApprovalRef)
  | rejected («by» : String) («at» : DateTime) (reason : Option String)
deriving DecidableEq

/-- The audit trail of a remediation's whole lifecycle. -/
structure RemediationRecord where
  proposal : RemediationProposal
  decision : Decision
  commandId : Option Uuid
  signature : Option String
  result : Option ActionResult
  updatedAt : DateTime
deriving DecidableEq

end Ravn
