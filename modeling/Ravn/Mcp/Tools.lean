import Ravn.Mcp.Client

/-! The tools of the MCP server: five that read and two that decide a proposal. The latter are advertised
and called only where mutations are allowed. Every tool makes one call at most, and which one is known
before it is made (`asks_dispatch`). -/

namespace Ravn.Mcp

open Theory

/-! ## Catalog -/

def maxEventLimit : Nat := 500

def defaultEventLimit : Nat := 50

/-- The tools by the names of `names`. -/
inductive Tool where
  | listAgents | listRecentEvents | getEvent | getTopology | listRemediationProposals
  | approveRemediation | rejectRemediation
deriving DecidableEq

def Tool.name : Tool → String
  | listAgents => "list_agents"
  | listRecentEvents => "list_recent_events"
  | getEvent => "get_event"
  | getTopology => "get_topology"
  | listRemediationProposals => "list_remediation_proposals"
  | approveRemediation => "approve_remediation"
  | rejectRemediation => "reject_remediation"

def Tool.ofName : String → Option Tool
  | "list_agents" => some listAgents
  | "list_recent_events" => some listRecentEvents
  | "get_event" => some getEvent
  | "get_topology" => some getTopology
  | "list_remediation_proposals" => some listRemediationProposals
  | "approve_remediation" => some approveRemediation
  | "reject_remediation" => some rejectRemediation
  | _ => none

structure ToolAnnotations where
  title : String
  readOnlyHint : Bool
  destructiveHint : Bool
  idempotentHint : Bool
  openWorldHint : Bool

/-- `read_only`. -/
def readOnly (title : String) : ToolAnnotations := ⟨title, true, false, true, true⟩

/-- `mutating`. -/
def mutating (title : String) : ToolAnnotations := ⟨title, false, false, false, true⟩

structure ToolDefinition where
  name : String
  description : String
  inputSchema : Json
  annotations : ToolAnnotations

/-- The schema of an object with these properties. -/
def objectSchema (properties : List (String × Json)) (required : List String) : Json :=
  .obj ([("type", .str "object"), ("properties", .obj properties)] ++
    (if required = [] then [] else [("required", .arr (required.map .str))]) ++
    [("additionalProperties", .bool false)])

def noArgsSchema : Json := objectSchema [] []

/-- A property of a type with its description. -/
def property (type description : String) : Json :=
  .obj [("type", .str type), ("description", .str description)]

def Tool.definition : Tool → ToolDefinition
  | listAgents => {
      name := "list_agents"
      description := "List all registered Ravn agents with their derived liveness status " ++
        "(online/stale/offline), host, labels, and last-seen time. Read-only."
      inputSchema := noArgsSchema
      annotations := readOnly "List agents" }
  | listRecentEvents => {
      name := "list_recent_events"
      description := "List recent detection events across the fleet, newest first. These are " ++
        "deterministic detections (not LLM output). Optional `limit` (1–500, default 50). Read-only."
      inputSchema := objectSchema [("limit", .obj [("type", .str "integer"), ("minimum", .num 1),
        ("maximum", .num maxEventLimit),
        ("description", .str "Maximum number of events to return.")])] []
      annotations := readOnly "List recent events" }
  | getEvent => {
      name := "get_event"
      description := "Fetch a single detection event by its `id` (UUID). Returns the full stored " ++
        "event including payload and any LLM explanation. Read-only."
      inputSchema := objectSchema [("id", property "string" "The event UUID.")] ["id"]
      annotations := readOnly "Get event" }
  | getTopology => {
      name := "get_topology"
      description := "Return the fleet shaped for the topology diagram: agents grouped by an " ++
        "optional label key (`group_by`, e.g. `env`), each node carrying its status " ++
        "and worst recent severity. Read-only."
      inputSchema := objectSchema [("group_by", property "string"
        "Label key to group agents by (e.g. `env`). Omit for a single group.")] []
      annotations := readOnly "Get topology" }
  | listRemediationProposals => {
      name := "list_remediation_proposals"
      description := "List remediation records, optionally filtered to only those awaiting a " ++
        "decision (`pending_only`, default true). Each proposal is a pre-authored, " ++
        "deterministic remediation matched to a detection — never LLM-authored. " ++
        "Read-only: this does NOT approve or reject anything."
      inputSchema := objectSchema [("pending_only", property "boolean"
        "When true (default), return only proposals still awaiting a decision.")] []
      annotations := readOnly "List remediation proposals" }
  | approveRemediation => {
      name := "approve_remediation"
      description := "Approve a PENDING remediation proposal by `id`: the control plane signs and " ++
        "enqueues the command for the target agent to pull. The action is attributed " ++
        "to the supplied admin token. This never executes anything directly and never " ++
        "auto-approves — it mirrors clicking Approve in the portal. Gated: requires " ++
        "the server to run with --allow-mutations and an admin-scoped token."
      inputSchema := objectSchema [("id", property "string" "The remediation proposal UUID.")] ["id"]
      annotations := mutating "Approve remediation" }
  | rejectRemediation => {
      name := "reject_remediation"
      description := "Reject a pending remediation proposal by `id`. Records the rejection in the " ++
        "audit trail; no command is issued. Gated: requires --allow-mutations and an " ++
        "admin-scoped token."
      inputSchema := objectSchema [("id", property "string" "The remediation proposal UUID.")] ["id"]
      annotations := mutating "Reject remediation" }

def readOnlyTools : List ToolDefinition :=
  [Tool.listAgents, .listRecentEvents, .getEvent, .getTopology, .listRemediationProposals].map
    Tool.definition

def mutatingTools : List ToolDefinition :=
  [Tool.approveRemediation, .rejectRemediation].map Tool.definition

def toolCatalog (allowMutations : Bool) : List ToolDefinition :=
  readOnlyTools ++ if allowMutations then mutatingTools else []

/-! ## Results -/

/-- The one block of a result: a value, which is written as indented JSON, or a message. -/
inductive Content where
  | json (value : Doc)
  | text (message : String)

structure CallToolResult where
  content : Content
  isError : Bool

namespace CallToolResult

def json (value : Doc) : CallToolResult := ⟨.json value, false⟩

def error (message : String) : CallToolResult := ⟨.text message, true⟩

end CallToolResult

def relay : Except String Doc → CallToolResult
  | .ok value => .json value
  | .error e => .error e

/-! ## Tools -/

/-- What stands for the reader of times. -/
abbrev TimeReader := String → Option DateTime

section

variable (texts : Texts) (client : ControlPlaneClient)

/-- The limit that is asked for; none if the argument is not an unsigned integer. -/
def eventLimit (args : Doc) : Option Nat :=
  match args.get "limit" with
  | none | some .null => some defaultEventLimit
  | some v => (v.asUnsigned (2 ^ 64)).map fun n => max 1 (min maxEventLimit (n % 2 ^ 32))

def listRecentEvents (args : Doc) : Call CallToolResult :=
  match eventLimit args with
  | none => .done (.error "`limit` must be an integer")
  | some limit => do return relay (← client.listEvents texts limit)

/-- The elements of a value that is an array. -/
def elements : Doc → List Doc
  | .arr ds => ds
  | _ => []

def getEvent (args : Doc) : Call CallToolResult :=
  match (args.get "id").bind Doc.asStr with
  | none => .done (.error "`id` (string UUID) is required")
  | some id => do
    match ← client.listEvents texts maxEventLimit with
    | .error e => .done (.error e)
    | .ok events =>
      match (elements events).find? fun e => (e.get "id").bind Doc.asStr = some id with
      | some event => .done (.json event)
      | none => .done (.error s!"no event with id {id} in the most recent {maxEventLimit} events")

def getTopology (args : Doc) : Call CallToolResult := do
  return relay (← client.topology texts ((args.get "group_by").bind Doc.asStr))

/-- `matches!(r.decision, Decision::Pending)`. -/
def isPendingRecord (r : RemediationRecord) : Bool := r.decision = .pending

/-- What the tool makes of the list of records. -/
def pendingProposals (P : Platform) (parseTime : TimeReader) (raw : Doc) : Doc :=
  match Doc.asList (RemediationRecord.ofDoc parseTime) raw with
  | none => raw
  | some records =>
    Json.toDoc (.arr ((records.filter isPendingRecord).map fun r => (r.toJson P).canonical))

def listRemediationProposals (P : Platform) (parseTime : TimeReader) (args : Doc) :
    Call CallToolResult := do
  match ← client.listRemediations texts with
  | .error e => .done (.error e)
  | .ok raw =>
    if ((args.get "pending_only").bind Doc.asBool).getD true then
      .done (.json (pendingProposals P parseTime raw))
    else .done (.json raw)

/-- `mutate` for the endpoint of its tool. -/
def mutate (endpoint : String → Call (Except String Doc)) (args : Doc) : Call CallToolResult :=
  match (args.get "id").bind Doc.asStr with
  | none => .done (.error "`id` (string UUID) is required")
  | some id => do return relay (← endpoint id)

/-- The answer to a gated tool. -/
def disabled (name : String) : CallToolResult :=
  .error (s!"tool `{name}` is disabled: this MCP server runs read-only. " ++
    "Restart it with --allow-mutations and an admin token to enable mutations.")

def dispatch (P : Platform) (parseTime : TimeReader) (allowMutations : Bool) (name : String)
    (args : Doc) : Call CallToolResult :=
  match Tool.ofName name with
  | some .listAgents => do return relay (← client.listAgents texts)
  | some .listRecentEvents => listRecentEvents texts client args
  | some .getEvent => getEvent texts client args
  | some .getTopology => getTopology texts client args
  | some .listRemediationProposals => listRemediationProposals texts client P parseTime args
  | some .approveRemediation =>
    if allowMutations then mutate (client.approveRemediation texts) args
    else .done (disabled name)
  | some .rejectRemediation =>
    if allowMutations then mutate (client.rejectRemediation texts) args
    else .done (disabled name)
  | none => .done (.error s!"unknown tool: {name}")

end

/-! ## The call of a tool -/

/-- A call that reads. -/
def readCall (client : ControlPlaneClient) (tool : Tool) (args : Doc) : Option HttpCall :=
  match tool with
  | .listAgents => some (client.getCall ControlPlaneClient.agentsPath)
  | .listRecentEvents => (eventLimit args).map fun limit =>
    client.getCall (ControlPlaneClient.eventsPath limit)
  | .getEvent => ((args.get "id").bind Doc.asStr).map fun _ =>
    client.getCall (ControlPlaneClient.eventsPath maxEventLimit)
  | .getTopology =>
    some (client.getCall (ControlPlaneClient.topologyPath ((args.get "group_by").bind Doc.asStr)))
  | .listRemediationProposals => some (client.getCall ControlPlaneClient.remediationsPath)
  | .approveRemediation | .rejectRemediation => none

/-- What a caller decides about a proposal. -/
inductive Verdict where
  | approve
  | reject
deriving DecidableEq

/-- The last segment of the verdict's endpoint. -/
def Verdict.verb : Verdict → String
  | approve => "approve"
  | reject => "reject"

/-- The verdict that a tool gives. -/
def Tool.verdict : Tool → Option Verdict
  | approveRemediation => some .approve
  | rejectRemediation => some .reject
  | _ => none

/-- The call of a tool, if it makes one. -/
def toolCall (client : ControlPlaneClient) (allowMutations : Bool) (name : String) (args : Doc) :
    Option HttpCall :=
  (Tool.ofName name).bind fun tool =>
    match tool.verdict with
    | none => readCall client tool args
    | some verdict =>
      if allowMutations then ((args.get "id").bind Doc.asStr).map fun id =>
        client.postCall (ControlPlaneClient.decisionPath id verdict.verb)
      else none

section

variable {texts : Texts} {client : ControlPlaneClient}

theorem asks_listRecentEvents (args : Doc) :
    (listRecentEvents texts client args).Asks Survivable (readCall client .listRecentEvents args) := by
  unfold listRecentEvents readCall
  cases eventLimit args with
  | none => exact ⟨_, rfl⟩
  | some limit => exact (asks_send texts _ _).map relay

theorem asks_getEvent (args : Doc) :
    (getEvent texts client args).Asks Survivable (readCall client .getEvent args) := by
  unfold getEvent readCall
  cases (args.get "id").bind Doc.asStr with
  | none => exact ⟨_, rfl⟩
  | some id =>
    refine Exchange.Asks.bind (asks_send texts "GET" _) fun events => ?_
    cases events with
    | error e => exact ⟨_, rfl⟩
    | ok events =>
      dsimp only
      split <;> exact ⟨_, rfl⟩

theorem asks_listRemediationProposals (P : Platform) (parseTime : TimeReader) (args : Doc) :
    (listRemediationProposals texts client P parseTime args).Asks Survivable
      (readCall client .listRemediationProposals args) := by
  refine Exchange.Asks.bind (asks_send texts "GET" _) fun raw => ?_
  cases raw with
  | error e => exact ⟨_, rfl⟩
  | ok raw =>
    dsimp only
    split <;> exact ⟨_, rfl⟩

theorem asks_mutate (verdict : Verdict) {endpoint : String → Call (Except String Doc)}
    (hendpoint : ∀ id, (endpoint id).Asks Survivable
      (some (client.postCall (ControlPlaneClient.decisionPath id verdict.verb)))) (args : Doc) :
    (mutate endpoint args).Asks Survivable (((args.get "id").bind Doc.asStr).map fun id =>
      client.postCall (ControlPlaneClient.decisionPath id verdict.verb)) := by
  unfold mutate
  cases (args.get "id").bind Doc.asStr with
  | none => exact ⟨_, rfl⟩
  | some id => exact (hendpoint id).map relay

/-- A tool makes its call and no other. -/
theorem asks_dispatch (P : Platform) (parseTime : TimeReader) (allowMutations : Bool)
    (name : String) (args : Doc) :
    (dispatch texts client P parseTime allowMutations name args).Asks Survivable
      (toolCall client allowMutations name args) := by
  unfold dispatch toolCall
  cases Tool.ofName name with
  | none => exact ⟨_, rfl⟩
  | some tool =>
    cases tool with
    | listAgents => exact (asks_send texts "GET" _).map relay
    | listRecentEvents => exact asks_listRecentEvents args
    | getEvent => exact asks_getEvent args
    | getTopology => exact (asks_send texts "GET" _).map relay
    | listRemediationProposals => exact asks_listRemediationProposals P parseTime args
    | approveRemediation =>
      cases allowMutations with
      | false => exact ⟨_, rfl⟩
      | true => exact asks_mutate .approve (fun id => asks_send texts "POST" _) args
    | rejectRemediation =>
      cases allowMutations with
      | false => exact ⟨_, rfl⟩
      | true => exact asks_mutate .reject (fun id => asks_send texts "POST" _) args

end

end Ravn.Mcp
