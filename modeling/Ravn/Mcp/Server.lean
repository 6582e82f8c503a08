import Ravn.Mcp.Tools

/-! The MCP request handler and its loop over the lines of stdin. A line is a JSON-RPC message: a request
is answered under its id, a notification is not, and a line that is no message is answered under no id. -/

namespace Ravn.Mcp

open Theory Doc

/-! ## Messages -/

/-- `JsonRpcRequest`; the id is absent from a notification. -/
structure JsonRpcRequest where
  jsonrpc : String
  id : Option Doc
  method : String
  params : Doc

/-- A value of any shape inside so many open objects. -/
def asAny (opened : Nat) (d : Doc) : Option Doc :=
  if opened + d.depth < recursionLimit ∧ d.inRange then some d.value else none

namespace JsonRpcRequest

def fieldNames : List String := ["jsonrpc", "id", "method", "params"]

def ofFields (fs : List (String × Doc)) : Option JsonRpcRequest := do
  some {
    jsonrpc := ← required fs "jsonrpc" asStr
    id := ← withDefault fs "id" (asOption (asAny 1)) none
    method := ← required fs "method" asStr
    params := ← withDefault fs "params" (asAny 1) .null }

/-- `serde_json::from_str`. -/
def ofLine (line : List Char) : Option JsonRpcRequest :=
  (Json.parse line).bind fun d => (d.fields fieldNames).bind ofFields

end JsonRpcRequest

structure JsonRpcError where
  code : Int
  message : String
deriving DecidableEq

namespace JsonRpcError

def parseError (detail : String) : JsonRpcError := ⟨-32700, detail⟩

def methodNotFound (method : String) : JsonRpcError := ⟨-32601, s!"method not found: {method}"⟩

def invalidParams (detail : String) : JsonRpcError := ⟨-32602, detail⟩

end JsonRpcError

/-- What a request is answered with: a value of the protocol, or the result of a tool. -/
inductive RpcResult where
  | value (v : Json)
  | tool (r : CallToolResult)

/-- `JsonRpcResponse`, with one of `result` and `error`. -/
structure JsonRpcResponse where
  id : Doc
  outcome : Except JsonRpcError RpcResult

namespace JsonRpcResponse

def ok (id : Doc) (result : RpcResult) : JsonRpcResponse := ⟨id, .ok result⟩

def err (id : Doc) (error : JsonRpcError) : JsonRpcResponse := ⟨id, .error error⟩

end JsonRpcResponse

structure CallToolParams where
  name : String
  arguments : Doc

namespace CallToolParams

def fieldNames : List String := ["name", "arguments"]

def ofFields (fs : List (String × Doc)) : Option CallToolParams := do
  some {
    name := ← required fs "name" asStr
    arguments := ← withDefault fs "arguments" some .null }

/-- `serde_json::from_value`. -/
def ofDoc (d : Doc) : Option CallToolParams := (d.fields fieldNames).bind ofFields

end CallToolParams

/-! ## Handler -/

def protocolVersion : String := "2025-06-18"

def serverName : String := "ravn-mcp"

def serverVersion : String := "0.0.0"

structure Handler where
  client : ControlPlaneClient
  allowMutations : Bool

def ToolAnnotations.toJson (a : ToolAnnotations) : Json :=
  .obj [("title", .str a.title), ("readOnlyHint", .bool a.readOnlyHint),
    ("destructiveHint", .bool a.destructiveHint), ("idempotentHint", .bool a.idempotentHint),
    ("openWorldHint", .bool a.openWorldHint)]

def ToolDefinition.toJson (t : ToolDefinition) : Json :=
  .obj [("name", .str t.name), ("description", .str t.description), ("inputSchema", t.inputSchema),
    ("annotations", t.annotations.toJson)]

namespace Handler

/-- `initialize`. -/
def initializeResult (h : Handler) : Json :=
  let mode :=
    if h.allowMutations then "Mutations are ENABLED (approve/reject remediation are available and " ++
      "require an admin token)."
    else "Read-only mode: mutating tools are not exposed."
  Json.canonical (.obj [("protocolVersion", .str protocolVersion),
    ("capabilities", .obj [("tools", .obj [("listChanged", .bool false)])]),
    ("serverInfo", .obj [("name", .str serverName), ("version", .str serverVersion)]),
    ("instructions", .str ("Ravn control-plane bridge. Use the read tools to inspect agents, events, " ++
      "topology, and remediation proposals. " ++ mode))])

def toolsList (h : Handler) : Json :=
  Json.canonical (.obj [("tools", .arr ((toolCatalog h.allowMutations).map ToolDefinition.toJson))])

section

variable (P : Platform) (parseTime : TimeReader) (texts : Texts)

def toolsCall (h : Handler) (params : Doc) : Call (Except JsonRpcError RpcResult) :=
  match CallToolParams.ofDoc params with
  | none =>
    .done (.error (.invalidParams s!"invalid tools/call params: {texts.paramsError params}"))
  | some params => do
    return .ok (.tool (← dispatch texts h.client P parseTime h.allowMutations params.name
      params.arguments))

def handle (h : Handler) (req : JsonRpcRequest) : Call (Option JsonRpcResponse) :=
  match req.id with
  | none => .done none
  | some id =>
    match req.method with
    | "initialize" => .done (some (.ok id (.value h.initializeResult)))
    | "ping" => .done (some (.ok id (.value (.obj []))))
    | "tools/list" => .done (some (.ok id (.value h.toolsList)))
    | "tools/call" => do return some ⟨id, ← h.toolsCall P parseTime texts req.params⟩
    | other => .done (some (.err id (.methodNotFound other)))

/-- A line that is not blank. -/
def answerLine (h : Handler) (line : List Char) : Call (Option JsonRpcResponse) :=
  match JsonRpcRequest.ofLine line with
  | some req => h.handle P parseTime texts req
  | none => .done (some (.err .null
      (.parseError s!"invalid JSON-RPC message: {texts.requestError line}")))

end

end Handler

/-! ## Loop -/

/-- Why a session ends: only at the end of stdin without an error. -/
inductive Ending where
  | eof
  /-- The next line cannot be read: it is no text, or reading fails. -/
  | unreadable
  /-- The response cannot be written to stdout. -/
  | closed
  | panicked
deriving DecidableEq

/-- The end of a session: what was written, and the surroundings. -/
structure Session (σ : Type u) where
  responses : List JsonRpcResponse
  ending : Ending
  surroundings : σ

/-- `serve_stdio`, over the lines of stdin, `none` for one that cannot be read. Of the responses, `n` are
written; stdout takes the next one or not. -/
def serveStdio (P : Platform) (parseTime : TimeReader) (texts : Texts)
    (send : σ → HttpCall → HttpReply × σ) (takes : Nat → Bool) (h : Handler) :
    σ → Nat → List (Option (List Char)) → Session σ
  | s, _, [] => ⟨[], .eof, s⟩
  | s, _, none :: _ => ⟨[], .unreadable, s⟩
  | s, n, some line :: lines =>
    if trim line = [] then serveStdio P parseTime texts send takes h s n lines
    else match (h.answerLine P parseTime texts line).run send s with
      | (none, s) => ⟨[], .panicked, s⟩
      | (some none, s) => serveStdio P parseTime texts send takes h s n lines
      | (some (some response), s) =>
        if takes n then
          let rest := serveStdio P parseTime texts send takes h s (n + 1) lines
          { rest with responses := response :: rest.responses }
        else ⟨[], .closed, s⟩

/-- The lines up to the first that cannot be read. -/
def readable : List (Option α) → List α
  | some line :: lines => line :: readable lines
  | _ => []

/-! ## The calls of a session -/

/-- The tool and the arguments that a line asks for. -/
def toolAsked (line : List Char) : Option CallToolParams :=
  if trim line = [] then none
  else do
    let req ← JsonRpcRequest.ofLine line
    let _ ← req.id
    if req.method = "tools/call" then CallToolParams.ofDoc req.params else none

def lineCall (h : Handler) (line : List Char) : Option HttpCall :=
  (toolAsked line).bind fun params =>
    toolCall h.client h.allowMutations params.name params.arguments

/-- The error code that a response has, if it is an error. -/
def JsonRpcResponse.code (r : JsonRpcResponse) : Option Int :=
  match r.outcome with
  | .error e => some e.code
  | .ok _ => none

/-- Under which id a response stands, and its error code. -/
def JsonRpcResponse.head (r : JsonRpcResponse) : Doc × Option Int := (r.id, r.code)

def paramsCode (params : Doc) : Option Int :=
  match CallToolParams.ofDoc params with
  | none => some (-32602)
  | some _ => none

def methodCode (req : JsonRpcRequest) : Option Int :=
  match req.method with
  | "initialize" | "ping" | "tools/list" => none
  | "tools/call" => paramsCode req.params
  | _ => some (-32601)

/-- What a line is owed: nothing if it is blank or a notification. -/
def owed (line : List Char) : Option (Doc × Option Int) :=
  if trim line = [] then none
  else match JsonRpcRequest.ofLine line with
    | none => some (.null, some (-32700))
    | some req => req.id.map fun id => (id, methodCode req)

section

variable {P : Platform} {parseTime : TimeReader} {texts : Texts} {h : Handler}

theorem asks_toolsCall (params : Doc) :
    (h.toolsCall P parseTime texts params).Asks Survivable
      ((CallToolParams.ofDoc params).bind fun params =>
        toolCall h.client h.allowMutations params.name params.arguments) := by
  unfold Handler.toolsCall
  cases CallToolParams.ofDoc params with
  | none => exact ⟨_, rfl⟩
  | some params => exact (asks_dispatch P parseTime h.allowMutations _ _).map _

theorem asks_handle (req : JsonRpcRequest) :
    (h.handle P parseTime texts req).Asks Survivable (req.id.bind fun _ =>
      (if req.method = "tools/call" then CallToolParams.ofDoc req.params else none).bind fun params =>
        toolCall h.client h.allowMutations params.name params.arguments) := by
  unfold Handler.handle
  cases req.id with
  | none => exact ⟨_, rfl⟩
  | some id =>
    rw [Option.bind_some]
    dsimp only
    by_cases hmethod : req.method = "tools/call"
    · rw [if_pos hmethod, hmethod]
      exact (asks_toolsCall req.params).map _
    · rw [if_neg hmethod]
      split
      · exact ⟨_, rfl⟩
      · exact ⟨_, rfl⟩
      · exact ⟨_, rfl⟩
      · exact absurd ‹_› hmethod
      · exact ⟨_, rfl⟩

theorem asks_answerLine {line : List Char} (hline : trim line ≠ []) :
    (h.answerLine P parseTime texts line).Asks Survivable (lineCall h line) := by
  unfold Handler.answerLine lineCall toolAsked
  rw [if_neg hline]
  cases JsonRpcRequest.ofLine line with
  | none => exact ⟨_, rfl⟩
  | some req =>
    have hasks : (h.handle P parseTime texts req).Asks Survivable _ := asks_handle req
    change (h.handle P parseTime texts req).Asks Survivable ((req.id.bind fun _ =>
      if req.method = "tools/call" then CallToolParams.ofDoc req.params else none).bind _)
    rwa [Option.bind_assoc]

theorem lineCall_of_blank {line : List Char} (hline : trim line = []) : lineCall h line = none := by
  rw [lineCall, toolAsked, if_pos hline, Option.bind_none]

/-- A line that makes a call has a request. -/
theorem isSome_owed {line : List Char} (h' : (lineCall h line).isSome) : (owed line).isSome := by
  obtain ⟨c, hcall⟩ := Option.isSome_iff_exists.mp h'
  obtain ⟨params, hasked, -⟩ := Option.bind_eq_some_iff.mp hcall
  unfold toolAsked at hasked
  unfold owed
  split at hasked
  · cases hasked
  · rename_i hline
    rw [if_neg hline]
    obtain ⟨req, hreq, hasked⟩ := Option.bind_eq_some_iff.mp hasked
    obtain ⟨id, hid, -⟩ := Option.bind_eq_some_iff.mp hasked
    simp [hreq, hid]

/-! ## The answers of a session -/

theorem yields_toolsCall (params : Doc) :
    (h.toolsCall P parseTime texts params).Yields fun outcome =>
      JsonRpcResponse.code ⟨.null, outcome⟩ = paramsCode params := by
  unfold Handler.toolsCall paramsCode
  cases CallToolParams.ofDoc params with
  | none => exact rfl
  | some params =>
    have hany := Exchange.yields_of_forall (p := fun _ : CallToolResult => True) (fun _ => trivial)
      (dispatch texts h.client P parseTime h.allowMutations params.name params.arguments)
    exact hany.bind fun _ _ => rfl

theorem yields_handle (req : JsonRpcRequest) :
    (h.handle P parseTime texts req).Yields fun response =>
      response.map JsonRpcResponse.head = req.id.map fun id => (id, methodCode req) := by
  unfold Handler.handle methodCode
  cases req.id with
  | none => exact rfl
  | some id =>
    dsimp only
    split
    · exact rfl
    · exact rfl
    · exact rfl
    · have hcall : (h.toolsCall P parseTime texts req.params).Yields _ := yields_toolsCall req.params
      exact hcall.bind fun outcome houtcome => congrArg (fun code => some (id, code)) houtcome
    · exact rfl

theorem yields_answerLine {line : List Char} (hline : trim line ≠ []) :
    (h.answerLine P parseTime texts line).Yields fun response =>
      response.map JsonRpcResponse.head = owed line := by
  unfold Handler.answerLine owed
  rw [if_neg hline]
  cases JsonRpcRequest.ofLine line with
  | none => exact rfl
  | some req => exact yields_handle req

theorem filterMap_cons_eq_append (f : α → Option β) (a : α) (l : List α) :
    (a :: l).filterMap f = (f a).toList ++ l.filterMap f := by
  rw [List.filterMap_cons]
  cases f a <;> rfl

/-- How a session goes: it answers lines up to the first, if any, that it is owed an answer for and does
not give one. -/
structure Went (h : Handler) (send : σ → HttpCall → HttpReply × σ) (takes : Nat → Bool) (s : σ) (n : Nat)
    (stdin : List (Option (List Char))) (session : Session σ) (answered rest : List (List Char)) :
    Prop where
  lines : readable stdin = answered ++ rest
  responses : session.responses.map JsonRpcResponse.head = answered.filterMap owed
  surroundings : session.surroundings =
    Exchange.sendAll send s ((answered ++ rest.head?.toList).filterMap (lineCall h))
  owing : ∀ line ∈ rest.head?, (owed line).isSome
  ended : session.ending = .eof ∨ session.ending = .unreadable ↔ rest = []
  completed : session.ending = .eof ↔ rest = [] ∧ ∀ line ∈ stdin, line.isSome
  undisturbed : rest = [] ↔
    (∀ k < ((readable stdin).filterMap owed).length, takes (n + k)) ∧
      ∀ r ∈ Exchange.received send s ((answered ++ rest.head?.toList).filterMap (lineCall h)),
        Survivable r

variable {send : σ → HttpCall → HttpReply × σ} {takes : Nat → Bool} {s : σ} {n : Nat}
  {stdin : List (Option (List Char))} {session : Session σ} {line : List Char}
  {answered rest : List (List Char)}

/-- The lines whose calls are made are the first ones. -/
theorem Went.called_prefix (hwent : Went h send takes s n stdin session answered rest) :
    readable stdin = (answered ++ rest.head?.toList) ++ rest.tail := by
  rw [hwent.lines]
  cases rest with
  | nil => simp
  | cons line rest => simp

/-- Every line is answered exactly if none is left. -/
theorem Went.responses_eq_iff (hwent : Went h send takes s n stdin session answered rest) :
    session.responses.map JsonRpcResponse.head = (readable stdin).filterMap owed ↔ rest = [] := by
  rw [hwent.responses, hwent.lines, List.filterMap_append, List.self_eq_append_right]
  constructor
  · intro hnil
    cases rest with
    | nil => rfl
    | cons line rest =>
      obtain ⟨id, hid⟩ := Option.isSome_iff_exists.mp (hwent.owing line rfl)
      rw [List.filterMap_cons_some hid] at hnil
      cases hnil
  · rintro rfl
    rfl

/-- A line that makes no call and is owed nothing is passed over. -/
theorem Went.skip (hcall : lineCall h line = none) (howed : owed line = none)
    (hwent : Went h send takes s n stdin session answered rest) :
    Went h send takes s n (some line :: stdin) session (line :: answered) rest where
  lines := congrArg (line :: ·) hwent.lines
  responses := by rw [hwent.responses, List.filterMap_cons_none howed]
  surroundings := by rw [hwent.surroundings, List.cons_append, List.filterMap_cons_none hcall]
  owing := hwent.owing
  ended := hwent.ended
  completed := by
    rw [hwent.completed, List.forall_mem_cons]
    simp
  undisturbed := by
    rw [readable, List.filterMap_cons_none howed, List.cons_append, List.filterMap_cons_none hcall]
    exact hwent.undisturbed

/-- A line that is answered, after the call that it makes, if any. -/
theorem Went.answer {head : Doc × Option Int} (howed : owed line = some head) (htakes : takes n)
    {response : JsonRpcResponse} (hhead : response.head = head)
    (hsurvived : ∀ r ∈ Exchange.received send s (lineCall h line).toList, Survivable r)
    (hwent : Went h send takes (Exchange.sendAll send s (lineCall h line).toList) (n + 1) stdin session
      answered rest) :
    Went h send takes s n (some line :: stdin)
      { session with responses := response :: session.responses } (line :: answered) rest where
  lines := congrArg (line :: ·) hwent.lines
  responses := by rw [List.map_cons, hhead, hwent.responses, List.filterMap_cons_some howed]
  surroundings := by
    rw [List.cons_append, filterMap_cons_eq_append, Exchange.sendAll_append]
    exact hwent.surroundings
  owing := hwent.owing
  ended := hwent.ended
  completed := by
    rw [List.forall_mem_cons]
    simpa using hwent.completed
  undisturbed := by
    have hall (m : Nat) : (∀ k < m + 1, takes (n + k)) ↔ ∀ k < m, takes (n + 1 + k) := by
      constructor
      · intro h k hk
        rw [Nat.add_right_comm, Nat.add_assoc]
        exact h (k + 1) (Nat.succ_lt_succ hk)
      · intro h k hk
        cases k with
        | zero => exact htakes
        | succ k =>
          rw [Nat.add_comm k, ← Nat.add_assoc]
          exact h k (Nat.lt_of_succ_lt_succ hk)
    rw [readable, List.filterMap_cons_some howed, List.length_cons, hall, List.cons_append,
      filterMap_cons_eq_append, Exchange.received_append, List.forall_mem_append,
      and_iff_right hsurvived]
    exact hwent.undisturbed

/-- A line that is owed an answer, where the session ends instead. -/
theorem Went.stop (howed : (owed line).isSome) {ending : Ending}
    (hending : ¬(ending = .eof ∨ ending = .unreadable))
    (hdies : takes n → ∃ r ∈ Exchange.received send s (lineCall h line).toList, ¬Survivable r) :
    Went h send takes s n (some line :: stdin)
      ⟨[], ending, Exchange.sendAll send s (lineCall h line).toList⟩ [] (line :: readable stdin) where
  lines := rfl
  responses := rfl
  surroundings := by
    rw [List.head?_cons, Option.toList_some, List.nil_append, filterMap_cons_eq_append,
      List.filterMap_nil, List.append_nil]
  owing l hl := by
    cases hl
    exact howed
  ended := ⟨fun h => absurd h hending, fun h => absurd h (List.cons_ne_nil _ _)⟩
  completed := ⟨fun h => absurd (.inl h) hending, fun h => absurd h.1 (List.cons_ne_nil _ _)⟩
  undisturbed := by
    obtain ⟨head, hhead⟩ := Option.isSome_iff_exists.mp howed
    rw [readable, List.filterMap_cons_some hhead, List.head?_cons, Option.toList_some, List.nil_append,
      filterMap_cons_eq_append, List.filterMap_nil, List.append_nil]
    refine ⟨nofun, fun ⟨htakes, hsurvives⟩ => ?_⟩
    obtain ⟨r, hr, hr'⟩ := hdies (htakes 0 (Nat.zero_lt_succ _))
    exact absurd (hsurvives r hr) hr'

variable (P parseTime texts h) in
theorem exists_went (send : σ → HttpCall → HttpReply × σ) (takes : Nat → Bool) (s : σ) (n : Nat)
    (stdin : List (Option (List Char))) :
    ∃ answered rest, Went h send takes s n stdin
      (serveStdio P parseTime texts send takes h s n stdin) answered rest := by
  induction stdin generalizing s n with
  | nil =>
    refine ⟨[], [], rfl, rfl, rfl, nofun, ⟨fun _ => rfl, fun _ => .inl rfl⟩, ?_, ?_⟩
    · exact ⟨fun _ => ⟨rfl, nofun⟩, fun _ => rfl⟩
    · exact ⟨fun _ => ⟨nofun, nofun⟩, fun _ => rfl⟩
  | cons line? stdin ih =>
    cases line? with
    | none =>
      refine ⟨[], [], rfl, rfl, rfl, nofun, ⟨fun _ => rfl, fun _ => .inr rfl⟩, ?_, ?_⟩
      · exact ⟨nofun, fun h => absurd (h.2 none List.mem_cons_self) Bool.false_ne_true⟩
      · exact ⟨fun _ => ⟨nofun, nofun⟩, fun _ => rfl⟩
    | some line =>
      unfold serveStdio
      split
      · rename_i hline
        obtain ⟨answered, rest, hwent⟩ := ih s n
        have howed : owed line = none := by rw [owed, if_pos hline]
        exact ⟨line :: answered, rest, hwent.skip (lineCall_of_blank hline) howed⟩
      · rename_i hline
        have hasks : (h.answerLine P parseTime texts line).Asks Survivable (lineCall h line) :=
          asks_answerLine hline
        have hrun := Exchange.run_of_asks hasks send s
        have hpanic := Exchange.run_eq_none_iff hasks send s
        have hyields : (h.answerLine P parseTime texts line).Yields _ := yields_answerLine hline
        have howed := fun response => Exchange.run_of_yields (a := response) hyields send s
        split
        · rename_i s' heq
          rw [heq] at hrun hpanic
          cases hrun
          obtain ⟨r, hr, hdies⟩ := hpanic.mp rfl
          have hcall : (lineCall h line).isSome := by
            cases hcall : lineCall h line with
            | none =>
              rw [hcall] at hr
              cases hr
            | some c => rfl
          exact ⟨[], line :: readable stdin, .stop (isSome_owed hcall) (by decide) fun _ => ⟨r, hr, hdies⟩⟩
        · rename_i s' heq
          rw [heq] at hrun howed
          have hnone : owed line = none := (howed none rfl).symm
          have hcall : lineCall h line = none := by
            cases hcall : lineCall h line with
            | none => rfl
            | some c =>
              have hsome : (owed line).isSome := isSome_owed (h := h) (by rw [hcall]; rfl)
              rw [hnone] at hsome
              cases hsome
          rw [hcall] at hrun
          cases hrun
          obtain ⟨answered, rest, hwent⟩ := ih s n
          exact ⟨line :: answered, rest, hwent.skip hcall hnone⟩
        · rename_i response s' heq
          rw [heq] at hrun hpanic howed
          cases hrun
          have hhead : owed line = some response.head := (howed _ rfl).symm
          have hsurvived : ∀ r ∈ Exchange.received send s (lineCall h line).toList, Survivable r := by
            intro r hr
            by_contra hdies
            exact absurd (hpanic.mpr ⟨r, hr, hdies⟩) (Option.some_ne_none _)
          split
          · rename_i htakes
            obtain ⟨answered, rest, hwent⟩ :=
              ih (Exchange.sendAll send s (lineCall h line).toList) (n + 1)
            exact ⟨line :: answered, rest, hwent.answer hhead htakes rfl hsurvived⟩
          · rename_i htakes
            have howing : (owed line).isSome := by rw [hhead]; rfl
            exact ⟨[], line :: readable stdin, .stop howing (by decide) fun h => absurd h htakes⟩

end

end Ravn.Mcp
