import Ravn.Core.Message

/-! From objects of the Kubernetes API to messages: an Event of core/v1 to at most one, a node's
conditions to one for each that is active. -/

namespace Ravn

def kubeSeverityForReason : String → Severity
  | "OOMKilled" | "Evicted" | "NodeNotReady" | "SystemOOM" => .critical
  | "CrashLoopBackOff" | "BackOff" | "FailedMount" | "FailedCreatePodSandBox" => .error
  | "Unhealthy" | "MemoryPressure" | "DiskPressure" | "PIDPressure" => .error
  | "FailedScheduling" | "ImagePullBackOff" | "ErrImagePull" | "ProbeWarning" => .warning
  | "Created" | "Started" | "Pulled" | "Scheduled" | "SuccessfulCreate" => .info
  | _ => .warning

/-- What is drawn for one message: its id, and the clock where the object carries no time and where the
event is observed. -/
structure MessageDraw where
  id : Uuid
  now : DateTime
  observedAt : DateTime

/-! ## Events -/

/-- A core/v1 `ObjectReference`, as far as it is read. -/
structure ObjectReference where
  «namespace» : Option String
  kind : Option String
  name : Option String
  fieldPath : Option String

/-- A core/v1 `Event`, as far as it is read. -/
structure KubeEvent where
  uid : Option String
  reason : Option String
  type_ : Option String
  message : Option String
  count : Option Int32
  involvedObject : ObjectReference
  firstTimestamp : Option DateTime
  lastTimestamp : Option DateTime

/-- `container_from_field_path`: what stands between the first opening brace and the next closing one,
if anything does. -/
def containerFromFieldPath (fieldPath : String) : Option String :=
  match fieldPath.toList.dropWhile (· != '{') with
  | [] => none
  | _ :: rest =>
    if '}' ∈ rest then
      let name := rest.takeWhile (· != '}')
      if name = [] then none else some (String.ofList name)
    else none

/-- `event_to_message`. -/
def eventToMessage (ev : KubeEvent) (agentId : AgentId) (host : String) (draw : MessageDraw) :
    Option Message := do
  let reason ← ev.reason
  let severity := kubeSeverityForReason reason
  let isWarning : Bool := ev.type_ = some "Warning"
  if !isWarning && severity.rank < Severity.error.rank then none
  let obj := ev.involvedObject
  let «namespace» := obj.namespace.getD ""
  let objectKind := obj.kind.getD ""
  let name := obj.name.getD ""
  let occurredAt := ((ev.lastTimestamp <|> ev.firstTimestamp).getD draw.now)
  let title :=
    if objectKind = "" then reason ++ " in " ++ «namespace»
    else reason ++ ": " ++ objectKind ++ " " ++ «namespace» ++ "/" ++ name
  some (.new {
    id := draw.id
    occurredAt := occurredAt
    observedAt := draw.observedAt
    agentId := agentId
    host := host
    severity := severity
    title := title
    categoryHints := [«namespace», "kubernetes"]
    payload := .kubeWorkload {
      «namespace» := «namespace»
      objectKind := objectKind
      name := name
      reason := reason
      message := ev.message
      count := ev.count.map fun c => UInt32.ofNat (max c.toInt 0).toNat
      container := obj.fieldPath.bind containerFromFieldPath
      extra := .empty } })

/-! ## Nodes -/

/-- A condition of a node's status, as far as it is read. -/
structure NodeCondition where
  type_ : String
  status : String
  message : Option String
  lastTransitionTime : Option DateTime

/-- A `Node`, as far as it is read: `metadata.name` and `status.conditions`. -/
structure Node where
  name : Option String
  conditions : Option (List NodeCondition)

def pressureConditions : List String := ["MemoryPressure", "DiskPressure", "PIDPressure"]

/-- The condition to report, if this one signals trouble. -/
def NodeCondition.active (c : NodeCondition) : Option String :=
  if c.type_ = "Ready" then (if c.status ≠ "True" then some "NodeNotReady" else none)
  else if c.type_ ∈ pressureConditions then (if c.status = "True" then some c.type_ else none)
  else none

def Node.nodeName (node : Node) (host : String) : String := node.name.getD host

/-- The message for an active condition. -/
def NodeCondition.toMessage (c : NodeCondition) (condition nodeName : String) (agentId : AgentId)
    (host : String) (draw : MessageDraw) : Message :=
  .new {
    id := draw.id
    occurredAt := c.lastTransitionTime.getD draw.now
    observedAt := draw.observedAt
    agentId := agentId
    host := host
    severity := kubeSeverityForReason condition
    title := condition ++ " on node " ++ nodeName
    categoryHints := [nodeName, "kubernetes", "node"]
    payload := .kubeNode {
      node := nodeName
      condition := condition
      message := c.message
      extra := .empty } }

/-- `node_to_messages`, with what is drawn at each place of the list of conditions. -/
def nodeToMessages (node : Node) (agentId : AgentId) (host : String) (draws : Nat → MessageDraw) :
    List Message :=
  match node.conditions with
  | none => []
  | some conditions => conditions.zipIdx.filterMap fun (c, i) =>
    c.active.map fun condition =>
      c.toMessage condition (node.nodeName host) agentId host (draws i)

/-- The active conditions of a node. -/
def Node.activeConditions (node : Node) : List String :=
  (node.conditions.getD []).filterMap NodeCondition.active

/-- The node and the condition that a message reports. -/
def Message.nodeSignal (m : Message) : Option (String × String) :=
  match m.event.payload with
  | .kubeNode p => some (p.node, p.condition)
  | _ => none

/-- There is one message for each active condition, in order. -/
theorem map_nodeSignal_nodeToMessages (node : Node) (agentId : AgentId) (host : String)
    (draws : Nat → MessageDraw) :
    (nodeToMessages node agentId host draws).map Message.nodeSignal =
      node.activeConditions.map fun condition => some (node.nodeName host, condition) := by
  unfold nodeToMessages Node.activeConditions
  cases node.conditions with
  | none => rfl
  | some conditions =>
    suffices h : ∀ n, ((conditions.zipIdx n).filterMap fun (c, i) => c.active.map fun condition =>
        c.toMessage condition (node.nodeName host) agentId host (draws i)).map Message.nodeSignal =
          (conditions.filterMap NodeCondition.active).map fun condition =>
            some (node.nodeName host, condition) from h 0
    induction conditions with
    | nil => exact fun _ => rfl
    | cons c conditions ih =>
      intro n
      rw [List.zipIdx_cons]
      cases hactive : c.active with
      | none =>
        rw [List.filterMap_cons_none (by simp [hactive]), List.filterMap_cons_none hactive]
        exact ih (n + 1)
      | some condition =>
        rw [List.filterMap_cons_some (by simp [hactive]; rfl), List.filterMap_cons_some hactive]
        exact congrArg (_ :: ·) (ih (n + 1))

theorem mem_activeConditions_cases {node : Node} (h : c ∈ node.activeConditions) :
    c ∈ "NodeNotReady" :: pressureConditions := by
  obtain ⟨nc, -, hactive⟩ := List.mem_filterMap.mp h
  unfold NodeCondition.active at hactive
  split at hactive
  · split at hactive
    · cases hactive
      exact List.mem_cons_self
    · cases hactive
  · split at hactive
    · split at hactive
      · cases hactive
        exact List.mem_cons_of_mem _ ‹_›
      · cases hactive
    · cases hactive

end Ravn
