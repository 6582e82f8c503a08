import Ravn.Core.Basic
import Ravn.Theory.BTreeMap
import Ravn.Theory.Json
import Mathlib.Data.String.Basic

/-! The normalized detection event and its payload, one variant per detection tap. The source of an
event is derived from its payload, so the two cannot disagree. -/

namespace Ravn

open Theory

/-- Severity of an event, ordered least to most urgent. -/
inductive Severity where
  | info | notice | warning | error | critical
deriving DecidableEq

def Severity.toText : Severity → String
  | info => "info"
  | notice => "notice"
  | warning => "warning"
  | error => "error"
  | critical => "critical"

/-- The place of a severity in the derived order. -/
def Severity.rank : Severity → Nat
  | info => 0
  | notice => 1
  | warning => 2
  | error => 3
  | critical => 4

/-- Which detection tap produced an event. -/
inductive Source where
  | journald | failedUnit | configDrift | auth | update | kubeWorkload | kubeNode | ravnInternal
deriving DecidableEq

/-- The flattened additional data of a payload. -/
abbrev Extra := BTreeMap String Json

structure JournaldPayload where
  unit : Option String
  priority : Option UInt8
  message : String
  extra : Extra

structure FailedUnitPayload where
  unit : String
  result : String
  recentLog : List String
  extra : Extra

structure ConfigDriftPayload where
  path : String
  oldHash : Option String
  newHash : String
  diff : Option String
  extra : Extra

structure AuthPayload where
  action : String
  user : Option String
  remoteAddr : Option String
  succeeded : Bool
  extra : Extra

structure UpdatePayload where
  mechanism : String
  from_ : Option String
  to_ : Option String
  changes : List String
  extra : Extra

structure KubeWorkloadPayload where
  «namespace» : String
  objectKind : String
  name : String
  reason : String
  message : Option String
  count : Option UInt32
  container : Option String
  extra : Extra

structure KubeNodePayload where
  node : String
  condition : String
  message : Option String
  extra : Extra

structure CircuitBreakerTripPayload where
  host : String
  templateId : String
deriving DecidableEq

inductive Payload where
  | journald (p : JournaldPayload)
  | failedUnit (p : FailedUnitPayload)
  | configDrift (p : ConfigDriftPayload)
  | auth (p : AuthPayload)
  | update (p : UpdatePayload)
  | kubeWorkload (p : KubeWorkloadPayload)
  | kubeNode (p : KubeNodePayload)
  | circuitBreakerTrip (p : CircuitBreakerTripPayload)

def Payload.kindText : Payload → String
  | journald _ => "journald"
  | failedUnit _ => "failed_unit"
  | configDrift _ => "config_drift"
  | auth _ => "auth"
  | update _ => "update"
  | kubeWorkload _ => "kube_workload"
  | kubeNode _ => "kube_node"
  | circuitBreakerTrip _ => "circuit_breaker_trip"

def Payload.source : Payload → Source
  | journald _ => .journald
  | failedUnit _ => .failedUnit
  | configDrift _ => .configDrift
  | auth _ => .auth
  | update _ => .update
  | kubeWorkload _ => .kubeWorkload
  | kubeNode _ => .kubeNode
  | circuitBreakerTrip _ => .ravnInternal

/-- A normalized detection event, produced by a tap independently of any model. -/
structure Event where
  id : Uuid
  occurredAt : DateTime
  observedAt : DateTime
  agentId : AgentId
  host : String
  severity : Severity
  title : String
  categoryHints : List String
  payload : Payload

def Event.source (e : Event) : Source := e.payload.source

end Ravn
