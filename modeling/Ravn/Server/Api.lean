import Ravn.Server.ControlPlane

/-! The HTTP API: the bearer-token layer, the route table, and what the handler behind each route does
to the queue, the records and the agent registry. Whether a request is let through is decided by its
method; what it does is decided by its handler. The two disagree in one place: the pull of an agent's
commands is a GET, and it takes them. -/

namespace Ravn

open Theory

/-! ## Requests -/

inductive Method where
  | get | head | options | trace | post | put | patch | delete | connect
  | extension (name : String)
deriving DecidableEq

def Method.isSafe : Method → Bool
  | get | head | options | trace => true
  | _ => false

/-- A request, with what the JSON extractor makes of its body at each type and what the handler draws
from outside while it runs. -/
structure HttpRequest where
  method : Method
  path : List Char
  query : Option (List Char)
  /-- The value of the `Authorization` header, if it is text. -/
  authorization : Option (List Char)
  labels : Option (BTreeMap String String)
  result : Option ActionResult
  draws : List Draw

/-! ## Authentication -/

/-- `UserAuth`; `verify` stands for the check of a token's signature and claims. -/
structure UserAuth where
  verify : List Char → Option Json
  groupsClaim : String
  adminGroup : Option String
  viewerGroup : Option String

/-- `extract_groups`: a list of texts, or one text separated by commas and blanks. -/
def extractGroups (claims : Json) (claim : String) : List String :=
  match claims with
  | .obj ms =>
    match ms.lookup claim with
    | some (.arr items) => items.filterMap fun | .str s => some s | _ => none
    | some (.str s) =>
      (((split ',' s.toList).flatMap (split ' ')).filter fun t => !t.isEmpty).map String.ofList
    | _ => []
  | _ => []

/-- `UserAuth::authorize`: no answer for an invalid token, no role for a user in no allowed group. -/
def UserAuth.authorize (u : UserAuth) (token : List Char) : Option (Option Role) :=
  (u.verify token).map fun claims =>
    let groups := extractGroups claims u.groupsClaim
    if u.adminGroup.any groups.contains then some .admin
    else if u.viewerGroup.all groups.contains then some .viewer
    else none

structure ApiConfig (P : Platform) where
  app : AppConfig P
  adminToken : Option (List Char)
  viewerToken : Option (List Char)
  userAuth : Option UserAuth
  /-- The router's percent-decoding of a path segment. -/
  percentDecode : List Char → Option (List Char)

/-- `query_param`. -/
def queryParam (query : Option (List Char)) (key : List Char) : Option (List Char) :=
  query.bind fun q => (split '&' q).findSome? fun pair =>
    (splitOnce ['='] pair).bind fun (k, v) => if k = key then some v else none

/-- `is_public`. -/
def isPublic (path : List Char) : Bool :=
  ["/ready", "/metrics", "/enroll", "/ingest", "/auth/config", "/api/system/health"].contains
    (String.ofList path)

/-- `role_for`. -/
def roleFor (token : List Char) (admin viewer : Option (List Char)) : Option Role :=
  if admin = some token then some .admin
  else if viewer = some token then some .viewer
  else none

/-- `authorized`. -/
def authorized (method : Method) (role : Role) : Bool := method.isSafe || role = .admin

/-- What the layer makes of a request: it goes on, with a role if one was resolved, or is answered. -/
inductive Admission where
  | pass (role : Option Role)
  | answer (status : Nat) (message : String)
deriving DecidableEq

variable {P : Platform}

/-- `auth_mw`. -/
def authMw (cfg : ApiConfig P) (req : HttpRequest) : Admission :=
  if cfg.adminToken.isNone ∧ cfg.viewerToken.isNone ∧ cfg.userAuth.isNone then .pass none
  else if isPublic req.path then .pass none
  else
    let header := req.authorization.bind (stripPrefix "Bearer ".toList)
    match header.or (queryParam req.query "access_token".toList) with
    | none => .answer 401 "missing bearer token"
    | some token =>
      let allow := fun role =>
        if authorized req.method role then .pass (some role) else .answer 403 "admin role required"
      match roleFor token cfg.adminToken cfg.viewerToken with
      | some role => allow role
      | none =>
        match cfg.userAuth.bind fun u => u.authorize token with
        | some (some role) => allow role
        | some none => .answer 403 "authenticated but not in an allowed group"
        | none => .answer 401 "missing or invalid bearer token"

/-! ## Routes -/

/-- The routes of the stateful router, with the path parameters as they stand in the path. -/
inductive Route where
  | ready | events | agents | agent (id : String) | labels (id : String) | categories | topology
  | wsEvents | metrics | enroll | ingest | commands (id : String) | result (id cmd : String)
  | commandKeys | remediations | approve (id : String) | reject (id : String) | authConfig | me
  | settings | systemHealth
deriving DecidableEq

/-- The route of a path. A parameter is one segment that is not empty. -/
def route (path : List Char) : Option Route :=
  match (split '/' path).map String.ofList with
  | ["", "ready"] => some .ready
  | ["", "api", "events"] => some .events
  | ["", "api", "agents"] => some .agents
  | ["", "api", "agents", id] => if id = "" then none else some (.agent id)
  | ["", "api", "agents", id, "labels"] => if id = "" then none else some (.labels id)
  | ["", "api", "categories"] => some .categories
  | ["", "api", "topology"] => some .topology
  | ["", "ws", "events"] => some .wsEvents
  | ["", "metrics"] => some .metrics
  | ["", "enroll"] => some .enroll
  | ["", "ingest"] => some .ingest
  | ["", "agents", id, "commands"] => if id = "" then none else some (.commands id)
  | ["", "agents", id, "commands", cmd, "result"] =>
    if id = "" ∨ cmd = "" then none else some (.result id cmd)
  | ["", "command-keys"] => some .commandKeys
  | ["", "api", "remediations"] => some .remediations
  | ["", "api", "remediations", id, "approve"] => if id = "" then none else some (.approve id)
  | ["", "api", "remediations", id, "reject"] => if id = "" then none else some (.reject id)
  | ["", "auth", "config"] => some .authConfig
  | ["", "api", "me"] => some .me
  | ["", "api", "settings"] => some .settings
  | ["", "api", "system", "health"] => some .systemHealth
  | _ => none

/-- The handlers that write something the API shares, with the values their extractors read; the
others read only, or write elsewhere (metrics, the settings file, an enrollment or an ingested message
behind a public route). -/
inductive Handler where
  | getCommands (agent : Uuid)
  | postCommandResult (result : ActionResult)
  | approveRemediation (id : Uuid)
  | rejectRemediation (id : Uuid)
  | putLabels (id : Uuid) (labels : BTreeMap String String)
  | deleteAgent (id : Uuid)
  | other
deriving DecidableEq

/-- `Path<Uuid>`. -/
def pathUuid (cfg : ApiConfig P) (segment : String) : Option Uuid :=
  (cfg.percentDecode segment.toList).bind Uuid.parse

/-- The handler that runs for a request; none if the method is not allowed on the route or an extractor
fails. A handler for GET also answers HEAD. -/
def Route.handler (cfg : ApiConfig P) (req : HttpRequest) : Route → Option Handler
  | commands id =>
    match req.method with
    | .get | .head => (pathUuid cfg id).map .getCommands
    | _ => none
  | result id cmd =>
    match req.method with
    | .post => do
      let _ ← pathUuid cfg id
      let _ ← pathUuid cfg cmd
      return .postCommandResult (← req.result)
    | _ => none
  | approve id =>
    match req.method with
    | .post => (pathUuid cfg id).map .approveRemediation
    | _ => none
  | reject id =>
    match req.method with
    | .post => (pathUuid cfg id).map .rejectRemediation
    | _ => none
  | labels id =>
    match req.method with
    | .put => do return .putLabels (← pathUuid cfg id) (← req.labels)
    | _ => none
  | agent id =>
    match req.method with
    | .get | .head => (pathUuid cfg id).map fun _ => .other
    | .delete => (pathUuid cfg id).map .deleteAgent
    | _ => none
  | settings =>
    match req.method with
    | .get | .head | .put => some .other
    | _ => none
  | enroll | ingest =>
    match req.method with
    | .post => some .other
    | _ => none
  | ready | events | agents | categories | topology | wsEvents | metrics | commandKeys
  | remediations | authConfig | me | systemHealth =>
    match req.method with
    | .get | .head => some .other
    | _ => none

/-! ## Handlers -/

/-- An agent of the registry with its labels. -/
structure RegisteredAgent where
  agentId : Uuid
  host : String
  labels : BTreeMap String String

abbrev AgentRegistry := List RegisteredAgent

/-- `replace_labels`: one transaction. -/
def AgentRegistry.replaceLabels (r : AgentRegistry) (id : Uuid) (labels : BTreeMap String String) :
    AgentRegistry :=
  r.map fun a => if a.agentId = id then { a with labels := labels } else a

/-- `delete_agent`; the labels go with the agent. -/
def AgentRegistry.deleteAgent (r : AgentRegistry) (id : Uuid) : AgentRegistry :=
  r.filter fun a => a.agentId ≠ id

structure ApiState where
  app : AppState
  agents : AgentRegistry

/-- What a handler does. Those of the control plane are its tasks, carried to their end. -/
def Handler.run (cfg : ApiConfig P) (s : ApiState) (role : Option Role) (draws : List Draw) :
    Handler → ApiState
  | getCommands agent => { s with app := s.app.pull agent }
  | postCommandResult result =>
    { s with app := (Pool.alone (Task.step cfg.app) s.app (.resultUpdate result) draws).1 }
  | approveRemediation id =>
    { s with app := (Pool.alone (Task.step cfg.app) s.app
        (.approveSelect id (role.getD .admin)) draws).1 }
  | rejectRemediation id =>
    { s with app := (Pool.alone (Task.step cfg.app) s.app (.rejectKey id (role.getD .admin)) draws).1 }
  | putLabels id labels =>
    { s with agents := if draws.all fun d => d.reply.ok then s.agents.replaceLabels id labels
                       else s.agents }
  | deleteAgent id =>
    { s with agents := if draws.all fun d => d.reply.ok then s.agents.deleteAgent id else s.agents }
  | other => s

/-- A request on its way through the router. -/
def serveRequest (cfg : ApiConfig P) (s : ApiState) (req : HttpRequest) : ApiState :=
  match authMw cfg req with
  | .answer _ _ => s
  | .pass role =>
    match (route req.path).bind (Route.handler cfg req) with
    | none => s
    | some handler => handler.run cfg s role req.draws

/-! ## What a viewer can do -/

/-- The layer lets the request through with the viewer's role, to a route that is not public. -/
def AdmittedAsViewer (cfg : ApiConfig P) (req : HttpRequest) : Prop :=
  isPublic req.path = false ∧ authMw cfg req = .pass (some .viewer)

/-- The request is a GET or a HEAD of an agent's commands. -/
def Pulls (cfg : ApiConfig P) (req : HttpRequest) (agent : Uuid) : Prop :=
  (req.method = .get ∨ req.method = .head) ∧
    ∃ id, route req.path = some (.commands id) ∧ pathUuid cfg id = some agent

/-- The queue, the records and the registry are the same, and so is the answer to any agent's next
pull. -/
structure ApiState.SameAs (s s' : ApiState) : Prop where
  queue : s'.app.queue = s.app.queue
  records : s'.app.store.rows = s.app.store.rows
  agents : s'.agents = s.agents
  nextPull : ∀ agent, (s'.app.queue.takeFor agent).1 = (s.app.queue.takeFor agent).1

variable {cfg : ApiConfig P} {req : HttpRequest} {s : ApiState}

theorem authorized_of_authMw (h : authMw cfg req = .pass (some role)) :
    authorized req.method role = true := by
  have hadmit : ∀ role', (if authorized req.method role' then Admission.pass (some role')
      else .answer 403 "admin role required") = .pass (some role) →
        authorized req.method role = true := by
    intro role' h
    split at h
    · cases h
      assumption
    · cases h
  unfold authMw at h
  split at h
  · cases h
  split at h
  · cases h
  dsimp only at h
  split at h
  · cases h
  split at h
  · exact hadmit _ h
  split at h
  · exact hadmit _ h
  · cases h
  · cases h

/-- Of the handlers that a safe method reaches, only the pull of commands writes. -/
theorem Route.handler_of_isSafe {r : Route} {handler : Handler} (hsafe : req.method.isSafe = true)
    (h : r.handler cfg req = some handler) :
    handler = .other ∨ ∃ id agent, r = .commands id ∧ (req.method = .get ∨ req.method = .head) ∧
      pathUuid cfg id = some agent ∧ handler = .getCommands agent := by
  have hmethod : req.method = .get ∨ req.method = .head ∨ req.method = .options ∨
      req.method = .trace := by
    cases hm : req.method <;> simp [hm, Method.isSafe] at hsafe ⊢
  cases r with
  | commands id =>
    rcases hmethod with hm | hm | hm | hm <;> simp only [Route.handler, hm] at h
    · obtain ⟨agent, hid, rfl⟩ := Option.map_eq_some_iff.mp h
      exact .inr ⟨id, agent, rfl, .inl hm, hid, rfl⟩
    · obtain ⟨agent, hid, rfl⟩ := Option.map_eq_some_iff.mp h
      exact .inr ⟨id, agent, rfl, .inr hm, hid, rfl⟩
    · cases h
    · cases h
  | agent id =>
    rcases hmethod with hm | hm | hm | hm <;> simp only [Route.handler, hm] at h
    · obtain ⟨agent, -, rfl⟩ := Option.map_eq_some_iff.mp h
      exact .inl rfl
    · obtain ⟨agent, -, rfl⟩ := Option.map_eq_some_iff.mp h
      exact .inl rfl
    · cases h
    · cases h
  | _ =>
    rcases hmethod with hm | hm | hm | hm <;> simp only [Route.handler, hm] at h <;> cases h <;>
      exact .inl rfl

/-- A viewer's request takes an agent's commands, or leaves everything as it is. -/
theorem serveRequest_viewer (h : AdmittedAsViewer cfg req) (s : ApiState) :
    (∃ agent, Pulls cfg req agent ∧ serveRequest cfg s req = { s with app := s.app.pull agent }) ∨
      (∀ agent, ¬Pulls cfg req agent) ∧ serveRequest cfg s req = s := by
  have hsafe : req.method.isSafe = true := by
    have hauth := authorized_of_authMw h.2
    simpa [authorized] using hauth
  unfold serveRequest
  rw [h.2]
  dsimp only
  cases hhandler : (route req.path).bind (Route.handler cfg req) with
  | none =>
    refine .inr ⟨?_, rfl⟩
    rintro agent ⟨hmethod, id, hroute, hid⟩
    rw [hroute, Option.bind_some] at hhandler
    rcases hmethod with hm | hm <;> simp [Route.handler, hm, hid] at hhandler
  | some handler =>
    obtain ⟨r, hroute, hr⟩ := Option.bind_eq_some_iff.mp hhandler
    obtain rfl | ⟨id, agent, rfl, hmethod, hid, rfl⟩ := Route.handler_of_isSafe hsafe hr
    · refine .inr ⟨?_, rfl⟩
      rintro agent ⟨hmethod, id, hroute', hid⟩
      cases hroute.symm.trans hroute'
      rcases hmethod with hm | hm <;> simp [Route.handler, hm, hid] at hr
    · exact .inl ⟨agent, ⟨hmethod, id, hroute, hid⟩, rfl⟩

theorem Pulls.unique (h : Pulls cfg req agent) (h' : Pulls cfg req agent') : agent' = agent := by
  obtain ⟨-, id, hroute, hid⟩ := h
  obtain ⟨-, id', hroute', hid'⟩ := h'
  cases hroute.symm.trans hroute'
  exact Option.some.inj (hid'.symm.trans hid)

/-- A sequence of requests, one after another. -/
def serveAll (cfg : ApiConfig P) (s : ApiState) (reqs : List HttpRequest) : ApiState :=
  reqs.foldl (serveRequest cfg) s

/-- What is left after a viewer's requests: the queues of the agents whose commands were not pulled,
and everything else. -/
structure LeftByViewer (cfg : ApiConfig P) (reqs : List HttpRequest) (s s' : ApiState) : Prop where
  pulled : ∀ req ∈ reqs, ∀ agent, Pulls cfg req agent → s'.app.queue.pending agent = []
  pending : ∀ agent, (∀ req ∈ reqs, ¬Pulls cfg req agent) →
    s'.app.queue.pending agent = s.app.queue.pending agent
  results : s'.app.queue.results = s.app.queue.results
  records : s'.app.store.rows = s.app.store.rows
  agents : s'.agents = s.agents
  emptied : ∀ agent, s.app.queue.pending agent = [] → s'.app.queue.pending agent = []

theorem leftByViewer_serveRequest (h : AdmittedAsViewer cfg req) (s : ApiState) :
    LeftByViewer cfg [req] s (serveRequest cfg s req) := by
  obtain ⟨agent, hpulls, hserve⟩ | ⟨hnot, hserve⟩ := serveRequest_viewer h s
  · have hpending : ∀ a, (serveRequest cfg s req).app.queue.pending a =
        if a = agent then [] else s.app.queue.pending a := by
      intro a
      rw [hserve]
      rfl
    refine ⟨?_, ?_, by rw [hserve]; rfl, by rw [hserve]; rfl, by rw [hserve], ?_⟩
    · intro req' hreq' a hpulls'
      cases List.mem_singleton.mp hreq'
      rw [hpending, if_pos (hpulls.unique hpulls')]
    · intro a hnone
      have hne : a ≠ agent := by
        rintro rfl
        exact hnone req List.mem_cons_self hpulls
      rw [hpending, if_neg hne]
    · intro a hempty
      rw [hpending]
      split
      · rfl
      · exact hempty
  · rw [hserve]
    refine ⟨?_, fun _ _ => rfl, rfl, rfl, rfl, fun _ hempty => hempty⟩
    intro req' hreq' a hpulls
    cases List.mem_singleton.mp hreq'
    exact absurd hpulls (hnot a)

theorem LeftByViewer.trans {s' s'' : ApiState} (h : LeftByViewer cfg reqs s s')
    (h' : LeftByViewer cfg reqs' s' s'') : LeftByViewer cfg (reqs ++ reqs') s s'' := by
  refine ⟨?_, ?_, h'.results.trans h.results, h'.records.trans h.records,
    h'.agents.trans h.agents, fun a hempty => h'.emptied a (h.emptied a hempty)⟩
  · intro req hreq agent hpulls
    rcases List.mem_append.mp hreq with hreq | hreq
    · exact h'.emptied agent (h.pulled req hreq agent hpulls)
    · exact h'.pulled req hreq agent hpulls
  · intro agent hnone
    rw [h'.pending agent fun req hreq => hnone req (List.mem_append_right _ hreq),
      h.pending agent fun req hreq => hnone req (List.mem_append_left _ hreq)]

theorem leftByViewer_serveAll (s : ApiState) (h : ∀ req ∈ reqs, AdmittedAsViewer cfg req) :
    LeftByViewer cfg reqs s (serveAll cfg s reqs) := by
  induction reqs generalizing s with
  | nil =>
    refine ⟨?_, fun _ _ => rfl, rfl, rfl, rfl, fun _ hempty => hempty⟩
    exact fun _ h => nomatch h
  | cons req reqs ih =>
    have hfirst := leftByViewer_serveRequest (h req List.mem_cons_self) s
    exact hfirst.trans (ih _ fun req' hreq' => h req' (List.mem_cons_of_mem _ hreq'))

/-- A viewer's requests leave the queue, the records and the registry as they are exactly when none of
them pulls the commands of an agent that has some. -/
theorem viewer_changes_nothing_iff (cfg : ApiConfig P) (s : ApiState) (reqs : List HttpRequest)
    (hviewer : ∀ req ∈ reqs, AdmittedAsViewer cfg req) :
    s.SameAs (serveAll cfg s reqs) ↔
      ∀ req ∈ reqs, ∀ agent, Pulls cfg req agent → s.app.queue.pending agent = [] := by
  have hleft := leftByViewer_serveAll s hviewer
  constructor
  · intro hsame req hreq agent hpulls
    rw [← hsame.queue]
    exact hleft.pulled req hreq agent hpulls
  · intro hempty
    have hpending : ∀ agent, (serveAll cfg s reqs).app.queue.pending agent =
        s.app.queue.pending agent := by
      intro agent
      by_cases hpulled : ∃ req ∈ reqs, Pulls cfg req agent
      · obtain ⟨req, hreq, hpulls⟩ := hpulled
        rw [hleft.pulled req hreq agent hpulls, hempty req hreq agent hpulls]
      · exact hleft.pending agent fun req hreq hpulls => hpulled ⟨req, hreq, hpulls⟩
    have hqueue : (serveAll cfg s reqs).app.queue = s.app.queue := by
      have hresults := hleft.results
      cases hq : (serveAll cfg s reqs).app.queue
      cases hq' : s.app.queue
      simp only [hq, hq'] at hpending hresults
      rw [funext hpending, hresults]
    exact ⟨hqueue, hleft.records, hleft.agents, fun agent => hpending agent⟩

/-! ## A viewer's pull -/

namespace ApiState

open Platform

def sampleApi : ApiConfig sample where
  app := ControlPlane.sampleConfig
  adminToken := some "admin-token".toList
  viewerToken := some "viewer-token".toList
  userAuth := none
  percentDecode := some

/-- A GET with the viewer's token. -/
def sampleGet (path : String) : HttpRequest where
  method := .get
  path := path.toList
  query := none
  authorization := some "Bearer viewer-token".toList
  labels := none
  result := none
  draws := []

/-- A command for agent 2 has been approved and waits for the agent's pull. -/
def sampleQueued : ApiState where
  app := (AppState.start []).enqueue ⟨5⟩ sampleEnvelope
  agents := [⟨⟨2⟩, "web-1", .empty⟩]

theorem sampleGet_admitted (path : String) (h : isPublic path.toList = false) :
    AdmittedAsViewer sampleApi (sampleGet path) := by
  refine ⟨h, ?_⟩
  have henabled : ¬(sampleApi.adminToken.isNone ∧ sampleApi.viewerToken.isNone ∧
      sampleApi.userAuth.isNone) := by decide
  unfold authMw
  rw [if_neg henabled, if_neg (by simpa [sampleGet] using h)]
  rfl

end ApiState

open ApiState in
theorem viewer_changes_nothing_iff_sample :
    sampleQueued.SameAs (serveAll sampleApi sampleQueued [sampleGet "/api/remediations"]) := by
  have hviewer : ∀ req ∈ [sampleGet "/api/remediations"], AdmittedAsViewer sampleApi req := by
    intro req hreq
    cases List.mem_singleton.mp hreq
    exact sampleGet_admitted _ (by decide)
  refine (viewer_changes_nothing_iff sampleApi sampleQueued _ hviewer).mpr ?_
  rintro req hreq agent ⟨-, id, hroute, -⟩
  cases List.mem_singleton.mp hreq
  cases hroute

open ApiState in
/-- A viewer reads the agent's command channel, and the approved command is gone. -/
theorem viewer_takes_command :
    AdmittedAsViewer sampleApi
        (sampleGet "/agents/00000000-0000-0000-0000-000000000002/commands") ∧
      (sampleQueued.app.queue.takeFor ⟨2⟩).1 = [Platform.sampleEnvelope] ∧
      ((serveAll sampleApi sampleQueued
        [sampleGet "/agents/00000000-0000-0000-0000-000000000002/commands"]).app.queue.takeFor
          ⟨2⟩).1 = [] := by
  refine ⟨sampleGet_admitted _ (by decide), by decide, by decide +kernel⟩

end Ravn
