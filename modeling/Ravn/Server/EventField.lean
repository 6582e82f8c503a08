import Ravn.Core.Event

/-! The typed accessor for dotted paths into an event, which template conditions and parameters are
written with, and the signature under which recurrences of a fault are known. -/

namespace Ravn

/-- `event_field`: the string at a path, `none` if the payload has none there or the path is
unknown. -/
def eventField (event : Event) (path : String) : Option String :=
  match path with
  | "host" => some event.host
  | "title" => some event.title
  | "severity" => some event.severity.toText
  | "payload.kind" => some event.payload.kindText
  | "payload.unit" =>
    match event.payload with
    | .failedUnit p => some p.unit
    | .journald p => p.unit
    | _ => none
  | "payload.result" => match event.payload with | .failedUnit p => some p.result | _ => none
  | "payload.message" =>
    match event.payload with
    | .journald p => some p.message
    | .kubeWorkload p => p.message
    | .kubeNode p => p.message
    | _ => none
  | "payload.path" => match event.payload with | .configDrift p => some p.path | _ => none
  | "payload.new_hash" => match event.payload with | .configDrift p => some p.newHash | _ => none
  | "payload.old_hash" => match event.payload with | .configDrift p => p.oldHash | _ => none
  | "payload.diff" => match event.payload with | .configDrift p => p.diff | _ => none
  | "payload.action" => match event.payload with | .auth p => some p.action | _ => none
  | "payload.user" => match event.payload with | .auth p => p.user | _ => none
  | "payload.remote_addr" => match event.payload with | .auth p => p.remoteAddr | _ => none
  | "payload.mechanism" => match event.payload with | .update p => some p.mechanism | _ => none
  | "payload.from" => match event.payload with | .update p => p.from_ | _ => none
  | "payload.to" => match event.payload with | .update p => p.to_ | _ => none
  | "payload.namespace" =>
    match event.payload with
    | .kubeWorkload p => some p.namespace
    | _ => none
  | "payload.name" => match event.payload with | .kubeWorkload p => some p.name | _ => none
  | "payload.object_kind" =>
    match event.payload with
    | .kubeWorkload p => some p.objectKind
    | _ => none
  | "payload.reason" => match event.payload with | .kubeWorkload p => some p.reason | _ => none
  | "payload.container" => match event.payload with | .kubeWorkload p => p.container | _ => none
  | "payload.node" => match event.payload with | .kubeNode p => some p.node | _ => none
  | "payload.condition" => match event.payload with | .kubeNode p => some p.condition | _ => none
  | _ => none

/-- The paths that `validate_event_path` recognises. -/
def eventPaths : List String :=
  ["host", "title", "severity", "payload.kind", "payload.unit", "payload.result",
    "payload.message", "payload.path", "payload.new_hash", "payload.old_hash", "payload.diff",
    "payload.action", "payload.user", "payload.remote_addr", "payload.mechanism", "payload.from",
    "payload.to", "payload.namespace", "payload.name", "payload.object_kind", "payload.reason",
    "payload.container", "payload.node", "payload.condition"]

def validateEventPath (path : String) : Bool := eventPaths.contains path

/-- Every path that the accessor reads is one that validation accepts. -/
theorem validateEventPath_of_eventField (h : eventField event path = some value) :
    validateEventPath path = true := by
  unfold eventField at h
  split at h <;> first | decide | cases h

/-! ## Fault signatures -/

def Source.debugText : Source → String
  | journald => "Journald"
  | failedUnit => "FailedUnit"
  | configDrift => "ConfigDrift"
  | auth => "Auth"
  | update => "Update"
  | kubeWorkload => "KubeWorkload"
  | kubeNode => "KubeNode"
  | ravnInternal => "RavnInternal"

/-- `fault_signature`: the source, the affected object and the state, joined by colons. -/
def faultSignature (event : Event) : String :=
  let (key, state) := match event.payload with
    | .failedUnit p => (p.unit, p.result)
    | .journald p => (p.unit.getD "-", "journal")
    | .configDrift p => (p.path, "drift")
    | .auth p => (p.user.getD "-", p.action)
    | .update p => (p.mechanism, "update")
    | .kubeWorkload p =>
      (if p.namespace.isEmpty then p.name else p.namespace ++ "/" ++ p.name, p.reason)
    | .kubeNode p => (p.node, p.condition)
    | .circuitBreakerTrip p => (p.host, p.templateId)
  event.source.debugText ++ ":" ++ key ++ ":" ++ state

end Ravn
