import Ravn.Mcp.Server

/-! What a session of the MCP server does to the control plane. Its calls stand among the requests of
everyone else. One that reads leaves no trace; one that decides does what the same request from the portal
does (`session_decides`), and without `--allow-mutations` there is none of these (`readOnly_invisible`). -/

namespace Ravn.Mcp

open Theory

variable {P : Platform}

/-! ## Surroundings -/

/-- The request that a call arrives as, with what its handler draws from outside. -/
def HttpCall.toRequest (c : HttpCall) (draws : List Draw) : Option HttpRequest :=
  (requestTarget c.url).map fun (path, query) => {
    method := c.method
    path := path
    query := query
    authorization := c.authorization
    labels := none
    result := none
    draws := draws }

def serveCall (cfg : ApiConfig P) (s : ApiState) (c : HttpCall) (draws : List Draw) : ApiState :=
  match c.toRequest draws with
  | none => s
  | some req => serveRequest cfg s req

/-- What becomes of a call: it never reaches the control plane, or its handler runs, with what it draws,
and some reply comes back or an error in its place. -/
inductive Passage where
  | unsent (error : String)
  | served (draws : List Draw) (reply : HttpReply)

def Passage.reply : Passage → HttpReply
  | unsent error => .failed error
  | served _ reply => reply

/-- What goes on around a session: the requests of others before each of its calls, and what becomes of
the call. -/
structure Traffic where
  others : Nat → List HttpRequest
  passage : Nat → Passage

def Traffic.reply (t : Traffic) (n : Nat) : HttpReply := (t.passage n).reply

/-- The control plane, and how many calls the session has made. -/
structure World where
  api : ApiState
  calls : Nat

/-- The control plane after a call, if the call reaches it. -/
def Passage.serve (cfg : ApiConfig P) (s : ApiState) (c : HttpCall) : Passage → ApiState
  | unsent _ => s
  | served draws _ => serveCall cfg s c draws

def World.send (cfg : ApiConfig P) (t : Traffic) (w : World) (c : HttpCall) : HttpReply × World :=
  (t.reply w.calls,
    ⟨(t.passage w.calls).serve cfg (serveAll cfg w.api (t.others w.calls)) c, w.calls + 1⟩)

/-! ## Verdicts -/

def Verdict.route : Verdict → String → Route
  | approve, id => .approve id
  | reject, id => .reject id

def Verdict.handler : Verdict → Uuid → Ravn.Handler
  | approve, id => .approveRemediation id
  | reject, id => .rejectRemediation id

/-- A POST without a body. -/
def postRequest (authorization : Option (List Char)) (draws : List Draw) (path : List Char) :
    HttpRequest where
  method := .post
  path := path
  query := none
  authorization := authorization
  labels := none
  result := none
  draws := draws

/-- The request that the portal makes for a verdict. -/
def portalRequest (authorization : Option (List Char)) (draws : List Draw) (decision : Verdict × Uuid) :
    HttpRequest :=
  postRequest authorization draws
    ("/api/remediations/".toList ++ decision.2.toText ++ '/' :: decision.1.verb.toList)

/-- The verdict that a tool's arguments give about a proposal. -/
def CallToolParams.decision (params : CallToolParams) : Option (Verdict × Uuid) := do
  let verdict ← (← Tool.ofName params.name).verdict
  let id ← (params.arguments.get "id").bind Doc.asStr
  return (verdict, ← Uuid.parse id.toList)

/-- What the lines decide: an entry for each line that makes a call. -/
def decisionsAsked (h : Handler) (lines : List (List Char)) : List (Option (Verdict × Uuid)) :=
  lines.filterMap fun line =>
    (lineCall h line).map fun _ => (toolAsked line).bind CallToolParams.decision

/-! ## Reads -/

variable {cfg : ApiConfig P} {client : ControlPlaneClient}

/-- A request that reaches no handler, or one that reads. -/
theorem serveRequest_of_other {req : HttpRequest}
    (h : ∀ handler, (route req.path).bind (Route.handler cfg req) = some handler → handler = .other)
    (s : ApiState) : serveRequest cfg s req = s := by
  unfold serveRequest
  split
  · rfl
  · split
    · rfl
    · rename_i handler hhandler
      rw [h handler hhandler]
      rfl

/-- The routes that are read. -/
def IsReadRoute (r : Route) : Prop := r = .agents ∨ r = .events ∨ r = .topology ∨ r = .remediations

theorem serveCall_get {path p : List Char} {q : Option (List Char)} {r : Route}
    (htarget : requestTarget (client.baseUrl ++ path) = some (p, q)) (hroute : route p = some r)
    (hread : IsReadRoute r) (s : ApiState) (draws : List Draw) :
    serveCall cfg s (client.getCall path) draws = s := by
  rw [serveCall, HttpCall.toRequest, ControlPlaneClient.getCall, htarget]
  apply serveRequest_of_other
  intro handler hhandler
  rw [hroute, Option.bind_some] at hhandler
  rcases hread with rfl | rfl | rfl | rfl <;> exact (Option.some.inj hhandler).symm

/-- A call that reads leaves the control plane as it is. -/
theorem serveCall_read (hbase : IsOrigin client.baseUrl) {tool : Tool} {args : Doc} {c : HttpCall}
    (hcall : readCall client tool args = some c) (s : ApiState) (draws : List Draw) :
    serveCall cfg s c draws = s := by
  have hevents : ∀ limit, serveCall cfg s (client.getCall (ControlPlaneClient.eventsPath limit)) draws =
      s := by
    intro limit
    have hdigits : '#' ∉ (toString limit).toList := fun h => absurd (isDigit_of_mem_toString h) (by decide)
    have htarget := requestTarget_query hbase "api/events".toList
      ("limit=".toList ++ (toString limit).toList) (by decide) (by
        rw [List.mem_append, List.mem_cons, List.mem_append]
        rintro (h | h | h | h)
        · exact absurd h (by decide)
        · exact absurd h (by decide)
        · exact absurd h (by decide)
        · exact hdigits h)
    exact serveCall_get htarget (r := .events) (by decide) (.inr (.inl rfl)) s draws
  cases tool with
  | listAgents =>
    cases hcall
    have htarget := requestTarget_path hbase "api/agents".toList (by decide) (by decide)
    exact serveCall_get htarget (r := .agents) (by decide) (.inl rfl) s draws
  | listRecentEvents =>
    obtain ⟨limit, -, rfl⟩ := Option.map_eq_some_iff.mp hcall
    exact hevents limit
  | getEvent =>
    obtain ⟨id, -, rfl⟩ := Option.map_eq_some_iff.mp hcall
    exact hevents maxEventLimit
  | getTopology =>
    cases hcall
    cases (args.get "group_by").bind Doc.asStr with
    | none =>
      have htarget := requestTarget_path hbase "api/topology".toList (by decide) (by decide)
      exact serveCall_get htarget (r := .topology) (by decide) (.inr (.inr (.inl rfl))) s draws
    | some key =>
      have htarget := requestTarget_query hbase "api/topology".toList
        ("group_by=".toList ++ urlencode key) (by decide) (by
          rw [List.mem_append, List.mem_cons, List.mem_append]
          rintro (h | h | h | h)
          · exact absurd h (by decide)
          · exact absurd h (by decide)
          · exact absurd h (by decide)
          · exact notMem_urlencode (.inr (.inr rfl)) h)
      exact serveCall_get htarget (r := .topology) (by decide) (.inr (.inr (.inl rfl))) s draws
  | listRemediationProposals =>
    cases hcall
    have htarget := requestTarget_path hbase "api/remediations".toList (by decide) (by decide)
    exact serveCall_get htarget (r := .remediations) (by decide) (.inr (.inr (.inr rfl))) s draws
  | approveRemediation => cases hcall
  | rejectRemediation => cases hcall

/-! ## Decisions -/

theorem length_of_parse {cs : List Char} {u : Uuid} (h : Uuid.parse cs = some u) : 32 ≤ cs.length := by
  unfold Uuid.parse at h
  split at h
  · omega
  split at h
  · omega
  split at h
  · omega
  split at h
  · omega
  · cases h

theorem split_decisionPath {segment verb : List Char} (hsegment : '/' ∉ segment) (hverb : '/' ∉ verb) :
    split '/' ("api/remediations/".toList ++ segment ++ '/' :: verb) =
      ["api".toList, "remediations".toList, segment, verb] := by
  have hpath : "api/remediations/".toList ++ segment ++ '/' :: verb =
      "api".toList ++ '/' :: ("remediations".toList ++ '/' :: (segment ++ '/' :: verb)) := by
    simp
  rw [hpath, split_append_cons (by decide), split_append_cons (by decide),
    split_append_cons hsegment, split_of_notMem hverb]

theorem Verdict.notMem_verb (v : Verdict) : '/' ∉ v.verb.toList := by
  cases v <;> decide

/-- The route of a verdict's path. -/
theorem route_decisionPath (v : Verdict) {segment : List Char} (hsegment : '/' ∉ segment) :
    route ('/' :: ("api/remediations/".toList ++ segment ++ '/' :: v.verb.toList)) =
      if segment = [] then none else some (v.route (String.ofList segment)) := by
  have hsplit : split '/' ('/' :: ("api/remediations/".toList ++ segment ++ '/' :: v.verb.toList)) =
      [] :: ["api".toList, "remediations".toList, segment, v.verb.toList] := by
    rw [← split_decisionPath hsegment v.notMem_verb]
    exact split_append_cons (l := []) List.not_mem_nil _
  have hempty : String.ofList segment = "" ↔ segment = [] := by
    rw [← String.toList_inj]
    simp
  rw [route, hsplit]
  simp only [List.map_cons, List.map_nil, String.ofList_toList]
  cases v with
  | approve => simp [Verdict.verb, Verdict.route, hempty]
  | reject => simp [Verdict.verb, Verdict.route, hempty]

theorem flatMap_slash_split {segment verb : List Char} :
    (["api".toList, "remediations".toList, segment, verb].flatMap fun s => '/' :: s) =
      '/' :: ("api/remediations/".toList ++ segment ++ '/' :: verb) := by
  simp

/-- A verdict's path is sent as it is, unless the named identifier is a dot segment: then there is
nothing where it leads. -/
theorem route_resolvePath (v : Verdict) {segment : List Char} (hsegment : '/' ∉ segment) :
    route (resolvePath ('/' :: ("api/remediations/".toList ++ segment ++ '/' :: v.verb.toList))) =
      if segment = [] ∨ isDot segment ∨ isDotDot segment then none
      else some (v.route (String.ofList segment)) := by
  have hplain : isDotDot v.verb.toList = false ∧ isDot v.verb.toList = false := by
    cases v <;> decide
  rw [resolvePath, split_decisionPath hsegment v.notMem_verb,
    resolveFrom_cons (by decide) (by decide), resolveFrom_cons (by decide) (by decide)]
  by_cases hdotdot : isDotDot segment = true
  · have hpath : resolveFrom ["remediations".toList, "api".toList] [segment, v.verb.toList] =
        ["api".toList, v.verb.toList] := by
      simp [resolveFrom, hdotdot, hplain]
    rw [hpath, if_pos (.inr (.inr hdotdot))]
    cases v <;> decide
  · by_cases hdot : isDot segment = true
    · have hpath : resolveFrom ["remediations".toList, "api".toList] [segment, v.verb.toList] =
          ["api".toList, "remediations".toList, v.verb.toList] := by
        simp [resolveFrom, hdotdot, hdot, hplain]
      rw [hpath, if_pos (.inr (.inl hdot))]
      cases v <;> decide
    · have hpath : resolveFrom ["remediations".toList, "api".toList] [segment, v.verb.toList] =
          ["api".toList, "remediations".toList, segment, v.verb.toList] := by
        simp [resolveFrom, hdotdot, hdot, hplain]
      rw [hpath, flatMap_slash_split, route_decisionPath v hsegment]
      simp [hdot, hdotdot]

/-- What a request to a verdict's route does. -/
theorem serveRequest_verdict {req : HttpRequest} {v : Verdict} {id : String}
    (hmethod : req.method = .post) (hroute : route req.path = some (v.route id)) (s : ApiState) :
    serveRequest cfg s req = match authMw cfg req, pathUuid cfg id with
      | .pass role, some u => (v.handler u).run cfg s role req.draws
      | _, _ => s := by
  unfold serveRequest
  rw [hroute, Option.bind_some]
  cases authMw cfg req with
  | answer status message => rfl
  | pass role =>
    cases v with
    | approve =>
      simp only [Verdict.route, Route.handler, hmethod]
      cases pathUuid cfg id <;> rfl
    | reject =>
      simp only [Verdict.route, Route.handler, hmethod]
      cases pathUuid cfg id <;> rfl

theorem serveRequest_undecoded (req : HttpRequest) {v : Verdict} {id : String}
    (hmethod : req.method = .post) (hroute : route req.path = some (v.route id))
    (hid : pathUuid cfg id = none) (s : ApiState) : serveRequest cfg s req = s := by
  rw [serveRequest_verdict hmethod hroute, hid]
  cases authMw cfg req <;> rfl

/-- No route of a verdict is public. -/
theorem isPublic_of_route {path : List Char} {v : Verdict} {id : String}
    (hroute : route path = some (v.route id)) : isPublic path = false := by
  have hroutes : ∀ p ∈ ["/ready", "/metrics", "/enroll", "/ingest", "/auth/config",
      "/api/system/health"], ∀ v id, route p.toList ≠ some (Verdict.route v id) := by
    intro p hp v id
    simp only [List.mem_cons, List.not_mem_nil, or_false] at hp
    rcases hp with rfl | rfl | rfl | rfl | rfl | rfl <;> cases v <;> exact fun h => nomatch h
  by_contra hpublic
  rw [Bool.not_eq_false, isPublic, List.contains_iff_mem] at hpublic
  have hroute' := hroutes _ hpublic v id
  rw [String.toList_ofList] at hroute'
  exact hroute' hroute

/-- The layer sees the method and the credentials of a request, not its path. -/
theorem authMw_congr {req req' : HttpRequest} (hmethod : req.method = req'.method)
    (hquery : req.query = req'.query) (hauth : req.authorization = req'.authorization)
    (hpublic : isPublic req.path = false) (hpublic' : isPublic req'.path = false) :
    authMw cfg req = authMw cfg req' := by
  unfold authMw
  rw [hmethod, hquery, hauth, hpublic, hpublic']

theorem Uuid.notMem_toText {u : Uuid} (h : c = '/' ∨ c = '%') : c ∉ u.toText := by
  have hdigit : ∀ d < 16, Nat.digitChar d ≠ '/' ∧ Nat.digitChar d ≠ '%' := by decide
  intro hmem
  rcases Uuid.mem_toText hmem with rfl | ⟨d, hlt, rfl⟩
  · exact absurd h (by decide)
  · exact h.elim (hdigit d hlt).1 (hdigit d hlt).2

/-- The router's reader of path parameters: octets in UTF-8. -/
def DecodesPaths (cfg : ApiConfig P) : Prop :=
  ∀ cs, cfg.percentDecode cs = decodeUtf8 (percentDecode cs)

theorem pathUuid_urlencode (hdecode : DecodesPaths cfg) (id : String) :
    pathUuid cfg (String.ofList (urlencode id)) = Uuid.parse id.toList := by
  rw [pathUuid, hdecode, String.toList_ofList, decode_urlencode, Option.bind_some]

theorem pathUuid_toText (hdecode : DecodesPaths cfg) (u : Uuid) :
    pathUuid cfg (String.ofList u.toText) = some u := by
  rw [pathUuid, hdecode, String.toList_ofList, percentDecode_of_notMem (Uuid.notMem_toText (.inr rfl)),
    decodeUtf8_encode, Option.bind_some, Uuid.parse_toText]

theorem toRequest_postCall {path p : List Char} (draws : List Draw)
    (htarget : requestTarget (client.baseUrl ++ path) = some (p, none)) :
    (client.postCall path).toRequest draws = some (postRequest client.authorization draws p) := by
  rw [HttpCall.toRequest, ControlPlaneClient.postCall, htarget]
  rfl

/-- A request to a verdict's route does what the portal's request for the same proposal does. -/
theorem serveRequest_portal (hdecode : DecodesPaths cfg) {path : List Char} {v : Verdict} {id : String}
    {u : Uuid} (hroute : route path = some (v.route id)) (hid : pathUuid cfg id = some u)
    (auth : Option (List Char)) (draws : List Draw) (s : ApiState) :
    serveRequest cfg s (postRequest auth draws path) =
      serveRequest cfg s (portalRequest auth draws (v, u)) := by
  have hne : u.toText ≠ [] := by
    intro hnil
    have hlength := u.length_toText
    rw [hnil] at hlength
    cases hlength
  have hportal : route (portalRequest auth draws (v, u)).path =
      some (v.route (String.ofList u.toText)) := by
    have hpath := route_decisionPath v (Uuid.notMem_toText (u := u) (.inl rfl))
    rw [if_neg hne] at hpath
    exact hpath
  have hauth : authMw cfg (postRequest auth draws path) =
      authMw cfg (portalRequest auth draws (v, u)) :=
    authMw_congr rfl rfl rfl (isPublic_of_route hroute) (isPublic_of_route hportal)
  rw [serveRequest_verdict rfl hroute, serveRequest_verdict rfl hportal, hid, pathUuid_toText hdecode,
    hauth]
  rfl

/-- What is encoded as a dot segment is too short for an identifier. -/
theorem parse_of_dot {id : String} (hdot : urlencode id = [] ∨ isDot (urlencode id) ∨
    isDotDot (urlencode id)) : Uuid.parse id.toList = none := by
  cases hparse : Uuid.parse id.toList with
  | none => rfl
  | some u =>
    have hlength := length_of_parse hparse
    have hle := length_le_urlencode id
    rcases hdot with hnil | hdot
    · rw [hnil, List.length_nil] at hle
      omega
    · have hshort := length_le_of_isDot hdot
      omega

/-- The call of a verdict does what the portal's request does, for the proposal that the named identifier
is read as; it does nothing if it is read as none. -/
theorem serveCall_post (hbase : IsOrigin client.baseUrl) (hdecode : DecodesPaths cfg) (v : Verdict)
    (id : String) (s : ApiState) (draws : List Draw) :
    serveCall cfg s (client.postCall (ControlPlaneClient.decisionPath id v.verb)) draws =
      ((Uuid.parse id.toList).map fun u =>
        portalRequest client.authorization draws (v, u)).elim s (serveRequest cfg s) := by
  have hnot : ∀ c, c = '?' ∨ c = '#' →
      c ∉ "api/remediations/".toList ++ urlencode id ++ '/' :: v.verb.toList := by
    have hfixed : ∀ c, c = '?' ∨ c = '#' → c ∉ "api/remediations/".toList ∧ c ∉ '/' :: v.verb.toList := by
      rintro c (rfl | rfl) <;> cases v <;> decide
    intro c hc
    rw [List.mem_append, List.mem_append, not_or, not_or]
    exact ⟨⟨(hfixed c hc).1, notMem_urlencode (.inr hc)⟩, (hfixed c hc).2⟩
  have htarget := requestTarget_path hbase _ (hnot _ (.inl rfl)) (hnot _ (.inr rfl))
  have hroute := route_resolvePath v (notMem_urlencode (s := id) (.inl rfl))
  have hpath : ControlPlaneClient.decisionPath id v.verb =
      '/' :: ("api/remediations/".toList ++ urlencode id ++ '/' :: v.verb.toList) := rfl
  generalize resolvePath ('/' :: ("api/remediations/".toList ++ urlencode id ++ '/' :: v.verb.toList)) =
    path at htarget hroute
  rw [serveCall, hpath, toRequest_postCall draws htarget]
  dsimp only
  split at hroute
  · rename_i hdot
    rw [parse_of_dot hdot, Option.map_none, Option.elim_none]
    apply serveRequest_of_other
    intro handler hhandler
    rw [postRequest, hroute] at hhandler
    cases hhandler
  · have hid := pathUuid_urlencode hdecode id
    cases hparse : Uuid.parse id.toList with
    | none =>
      rw [hparse] at hid
      rw [Option.map_none, Option.elim_none]
      exact serveRequest_undecoded (postRequest _ draws path) rfl hroute hid s
    | some u =>
      rw [hparse] at hid
      rw [Option.map_some, Option.elim_some]
      exact serveRequest_portal hdecode hroute hid _ _ s

/-! ## Sessions -/

/-- The requests that stand for a call, if it reaches the control plane. -/
def Passage.acts (act : List Draw → List HttpRequest) : Passage → List HttpRequest
  | unsent _ => []
  | served draws _ => act draws

/-- The requests of a stretch of traffic from the `n`-th call on, with what stands for each call. -/
def Traffic.woven (t : Traffic) : Nat → List (List Draw → List HttpRequest) → List HttpRequest
  | _, [] => []
  | n, act :: acts => t.others n ++ ((t.passage n).acts act ++ t.woven (n + 1) acts)

/-- What stands for a call: the portal's request if the call decides, and nothing if it reads. -/
def portalAct (auth : Option (List Char)) (decision : Option (Verdict × Uuid)) (draws : List Draw) :
    List HttpRequest :=
  decision.toList.map (portalRequest auth draws)

theorem serveAll_append (s : ApiState) (reqs reqs' : List HttpRequest) :
    serveAll cfg s (reqs ++ reqs') = serveAll cfg (serveAll cfg s reqs) reqs' :=
  List.foldl_append

/-- The requests stand for the call. -/
def StandsFor (cfg : ApiConfig P) (c : HttpCall) (act : List Draw → List HttpRequest) : Prop :=
  ∀ s draws, serveCall cfg s c draws = serveAll cfg s (act draws)

theorem StandsFor.passage {c : HttpCall} {act : List Draw → List HttpRequest}
    (h : StandsFor cfg c act) (p : Passage) (s : ApiState) :
    p.serve cfg s c = serveAll cfg s (p.acts act) := by
  cases p with
  | unsent error => rfl
  | served draws reply => exact h s draws

theorem sendAll_send (t : Traffic) {calls : List HttpCall}
    {acts : List (List Draw → List HttpRequest)} (hacts : List.Forall₂ (StandsFor cfg) calls acts)
    (s : ApiState) (n : Nat) : Exchange.sendAll (World.send cfg t) ⟨s, n⟩ calls =
      ⟨serveAll cfg s (t.woven n acts), n + acts.length⟩ := by
  induction hacts generalizing s n with
  | nil => rfl
  | @cons call act calls acts hact _ ih =>
    rw [Exchange.sendAll, List.foldl_cons, ← Exchange.sendAll]
    change Exchange.sendAll (World.send cfg t)
      ⟨(t.passage n).serve cfg (serveAll cfg s (t.others n)) call, n + 1⟩ calls = _
    rw [hact.passage, ih, Traffic.woven, serveAll_append, serveAll_append, List.length_cons]
    congr 1
    omega

theorem woven_silent (t : Traffic) (n k : Nat) :
    t.woven n (List.replicate k fun _ => []) = (List.range' n k).flatMap t.others := by
  induction k generalizing n with
  | zero => rfl
  | succ k ih =>
    have hnone : (t.passage n).acts (fun _ => []) = [] := by
      cases t.passage n <;> rfl
    rw [List.replicate_succ, Traffic.woven, List.range'_succ, List.flatMap_cons, ih, hnone,
      List.nil_append]

/-- What a line's call stands for. -/
theorem standsFor_lineCall {h : Handler} (hbase : IsOrigin h.client.baseUrl)
    (hdecode : DecodesPaths cfg) {line : List Char} {c : HttpCall} (hcall : lineCall h line = some c) :
    StandsFor cfg c
      (portalAct h.client.authorization ((toolAsked line).bind CallToolParams.decision)) := by
  intro s draws
  obtain ⟨params, hasked, hcall⟩ := Option.bind_eq_some_iff.mp hcall
  obtain ⟨tool, htool, hcall⟩ := Option.bind_eq_some_iff.mp hcall
  rw [hasked, Option.bind_some]
  cases hverdict : tool.verdict with
  | none =>
    have hdecision : params.decision = none := by
      simp [CallToolParams.decision, htool, hverdict]
    rw [hverdict] at hcall
    rw [hdecision, serveCall_read hbase hcall]
    rfl
  | some v =>
    rw [hverdict] at hcall
    dsimp only at hcall
    split at hcall
    · obtain ⟨id, hid, rfl⟩ := Option.map_eq_some_iff.mp hcall
      have hdecision : params.decision = (Uuid.parse id.toList).map fun u => (v, u) := by
        simp only [CallToolParams.decision, htool, hverdict, hid, Option.bind_eq_bind, Option.bind_some]
        cases Uuid.parse id.toList <;> rfl
      rw [serveCall_post hbase hdecode, hdecision]
      generalize Uuid.parse id.toList = parsed
      cases parsed with
      | none => rfl
      | some u =>
        simp only [Option.map_some, Option.elim_some, portalAct, Option.toList_some, List.map_cons,
          List.map_nil, serveAll, List.foldl_cons, List.foldl_nil]
    · cases hcall

/-- Without `--allow-mutations` a line's call reads. -/
theorem silent_lineCall {h : Handler} (hbase : IsOrigin h.client.baseUrl)
    (hmode : h.allowMutations = false) {line : List Char} {c : HttpCall}
    (hcall : lineCall h line = some c) : StandsFor cfg c fun _ => [] := by
  intro s draws
  obtain ⟨params, -, hcall⟩ := Option.bind_eq_some_iff.mp hcall
  obtain ⟨tool, -, hcall⟩ := Option.bind_eq_some_iff.mp hcall
  rw [hmode] at hcall
  cases hverdict : tool.verdict with
  | none =>
    rw [hverdict] at hcall
    rw [serveCall_read hbase hcall]
    rfl
  | some v =>
    rw [hverdict] at hcall
    cases hcall

/-- Each line that makes a call, with what stands for it. -/
theorem forall₂_filterMap (calls : α → Option β) (act : α → γ) {R : β → γ → Prop}
    (h : ∀ a b, calls a = some b → R b (act a)) (l : List α) :
    List.Forall₂ R (l.filterMap calls) (l.filterMap fun a => (calls a).map fun _ => act a) := by
  induction l with
  | nil => exact .nil
  | cons a l ih =>
    rw [List.filterMap_cons, List.filterMap_cons]
    cases hcall : calls a with
    | none => exact ih
    | some b => exact .cons (h a b hcall) ih

variable (parseTime : TimeReader) (texts : Texts)

/-- A session does to the control plane what the portal's requests for its decisions do, among the same
requests of others: for each of its calls that reaches the control plane, in their order. These are the
calls of all its lines, or of the first ones if it ends early. -/
theorem session_decides (cfg : ApiConfig P) (hdecode : DecodesPaths cfg) (t : Traffic)
    (takes : Nat → Bool) (h : Handler) (hbase : IsOrigin h.client.baseUrl) (s : ApiState)
    (stdin : List (Option (List Char))) :
    let session := serveStdio P parseTime texts (World.send cfg t) takes h ⟨s, 0⟩ 0 stdin
    let asked := decisionsAsked h (readable stdin)
    let made := asked.take session.surroundings.calls
    session.surroundings.api =
        serveAll cfg s (t.woven 0 (made.map (portalAct h.client.authorization))) ∧
      (session.ending = .eof ∨ session.ending = .unreadable → made = asked) := by
  intro session asked made
  obtain ⟨answered, rest, hwent⟩ :=
    exists_went P parseTime texts h (World.send cfg t) takes ⟨s, 0⟩ 0 stdin
  have hlines := hwent.called_prefix
  have hs := hwent.surroundings
  generalize hcalled : answered ++ rest.head?.toList = done at hlines hs
  have hacts := forall₂_filterMap (lineCall h) (R := StandsFor cfg)
    (fun line => portalAct h.client.authorization ((toolAsked line).bind CallToolParams.decision))
    (fun line c => standsFor_lineCall hbase hdecode) done
  have hmap : (done.filterMap fun line => (lineCall h line).map fun _ =>
      portalAct h.client.authorization ((toolAsked line).bind CallToolParams.decision)) =
        (decisionsAsked h done).map (portalAct h.client.authorization) := by
    rw [decisionsAsked, List.map_filterMap]
    simp only [Option.map_map]
    rfl
  rw [hmap] at hacts
  have hworld : session.surroundings =
      ⟨serveAll cfg s (t.woven 0 ((decisionsAsked h done).map (portalAct h.client.authorization))),
        (decisionsAsked h done).length⟩ := by
    rw [hs, sendAll_send t hacts s 0, List.length_map, Nat.zero_add]
  have hmade : made = decisionsAsked h done := by
    have hasked : asked = decisionsAsked h done ++ decisionsAsked h rest.tail := by
      change decisionsAsked h (readable stdin) = _
      rw [hlines]
      exact List.filterMap_append
    change asked.take session.surroundings.calls = _
    rw [hworld, hasked, List.take_left]
  refine ⟨by rw [hmade, hworld], fun hending => ?_⟩
  change made = decisionsAsked h (readable stdin)
  rw [hmade, hlines, hwent.ended.mp hending, List.tail_nil, List.append_nil]

theorem received_send (t : Traffic) (calls : List HttpCall) (w : World) :
    Exchange.received (World.send cfg t) w calls = (List.range' w.calls calls.length).map t.reply := by
  induction calls generalizing w with
  | nil => rfl
  | cons c calls ih =>
    rw [Exchange.received, ih, List.length_cons, List.range'_succ]
    rfl

theorem calls_sendAll (t : Traffic) (calls : List HttpCall) (w : World) :
    (Exchange.sendAll (World.send cfg t) w calls).calls = w.calls + calls.length := by
  induction calls generalizing w with
  | nil => rfl
  | cons c calls ih =>
    rw [Exchange.sendAll, List.foldl_cons, ← Exchange.sendAll, ih, List.length_cons]
    change w.calls + 1 + calls.length = _
    omega

/-- A session answers what its lines are owed, in order and under their ids. Up to the first line that
cannot be read it answers all of it exactly if stdout takes every response and it survives every reply of
the control plane; if all lines can be read besides, and only then, it goes on to the end of stdin. -/
theorem session_answers (cfg : ApiConfig P) (t : Traffic) (takes : Nat → Bool) (h : Handler)
    (s : ApiState) (stdin : List (Option (List Char))) :
    let session := serveStdio P parseTime texts (World.send cfg t) takes h ⟨s, 0⟩ 0 stdin
    let due := (readable stdin).filterMap owed
    session.responses.map JsonRpcResponse.head <+: due ∧
      (session.responses.map JsonRpcResponse.head = due ↔
        (∀ n < due.length, takes n) ∧ ∀ n < session.surroundings.calls, Survivable (t.reply n)) ∧
      (session.ending = .eof ↔
        session.responses.map JsonRpcResponse.head = due ∧ ∀ line ∈ stdin, line.isSome) := by
  intro session due
  obtain ⟨answered, rest, hwent⟩ :=
    exists_went P parseTime texts h (World.send cfg t) takes ⟨s, 0⟩ 0 stdin
  have hall : session.responses.map JsonRpcResponse.head = due ↔ rest = [] := hwent.responses_eq_iff
  refine ⟨?_, ?_, ?_⟩
  · change session.responses.map JsonRpcResponse.head <+: (readable stdin).filterMap owed
    rw [hwent.responses, hwent.lines, List.filterMap_append]
    exact List.prefix_append _ _
  · rw [hall, hwent.undisturbed, received_send, hwent.surroundings, calls_sendAll]
    simp [List.mem_range'_1, due]
  · rw [hall]
    exact hwent.completed

/-! ### Lines that decide -/

def sampleHandler (allowMutations : Bool) : Handler where
  client := .new "http://127.0.0.1:8080/".toList (some "admin-token".toList)
  allowMutations := allowMutations

theorem isOrigin_sampleHandler (allowMutations : Bool) :
    IsOrigin (sampleHandler allowMutations).client.baseUrl :=
  ⟨"http".toList, "127.0.0.1:8080".toList, by cases allowMutations <;> decide +kernel,
    by decide +kernel, by simp⟩

/-- A call of a tool, about proposal 5. -/
def sampleLine (id tool : String) : List Char :=
  ("\x7b\"jsonrpc\":\"2.0\",\"id\":" ++ id ++ ",\"method\":\"tools/call\",\"params\":\x7b\"name\":\"" ++
    tool ++ "\",\"arguments\":\x7b\"id\":\"00000000-0000-0000-0000-000000000005\"\x7d\x7d\x7d").toList

/-- A rejection of the proposal, an approval, a read, the rejection again and a line that is no text. -/
def sampleStdin : List (Option (List Char)) :=
  [some (sampleLine "1" "reject_remediation"), some (sampleLine "2" "approve_remediation"),
    some (sampleLine "3" "list_agents"), some (sampleLine "4" "reject_remediation"), none]

/-- The first call finds no control plane. A viewer reads before each, and the later ones are answered
with an empty body. -/
def sampleTraffic : Traffic where
  others _ := [ApiState.sampleGet "/api/agents"]
  passage n :=
    if n = 0 then .unsent "connection refused"
    else .served ((List.range 5).map fun k => ControlPlane.sampleDraw ⟨20 * n + k⟩) (.received 200 (.ok ""))

def sampleTexts : Texts where
  status _ := "OK"
  bodyError _ := "EOF"
  requestError _ := "EOF"
  paramsError _ := "missing field"

def decodingApi : ApiConfig Platform.sample :=
  { ApiState.sampleApi with percentDecode := fun cs => decodeUtf8 (percentDecode cs) }

/-- Proposal 5 is pending. -/
def samplePending : ApiState where
  app := ControlPlane.samplePending.shared
  agents := [⟨⟨2⟩, "web-1", .empty⟩]

def sampleSession (allowMutations : Bool) (takes : Nat → Bool) : Session World :=
  serveStdio Platform.sample (fun _ => none) sampleTexts (World.send decodingApi sampleTraffic) takes
    (sampleHandler allowMutations) ⟨samplePending, 0⟩ 0 sampleStdin

/-- The proposal is approved, and its command is in the queue: the rejection before the approval was not
sent, and stdout breaks before the one after it is read. -/
theorem session_decides_sample :
    (sampleSession true (· < 2)).surroundings.api = serveAll decodingApi samplePending
        [ApiState.sampleGet "/api/agents", ApiState.sampleGet "/api/agents",
          portalRequest (some "Bearer admin-token".toList)
            ((List.range 5).map fun k => ControlPlane.sampleDraw ⟨20 + k⟩) (.approve, ⟨5⟩),
          ApiState.sampleGet "/api/agents"] ∧
      ((sampleSession true (· < 2)).surroundings.api.app.queue.takeFor ⟨2⟩).1.length = 1 := by
  -- The lines are read once for all three.
  obtain ⟨hcalls, hqueue, hasked⟩ : (sampleSession true (· < 2)).surroundings.calls = 3 ∧
      ((sampleSession true (· < 2)).surroundings.api.app.queue.takeFor ⟨2⟩).1.length = 1 ∧
      decisionsAsked (sampleHandler true) (readable sampleStdin) =
        [some (.reject, ⟨5⟩), some (.approve, ⟨5⟩), none, some (.reject, ⟨5⟩)] := by
    decide +kernel
  have hsession := (session_decides (fun _ => none) sampleTexts decodingApi (fun _ => rfl) sampleTraffic
    (· < 2) (sampleHandler true) (isOrigin_sampleHandler true) samplePending sampleStdin).1
  rw [← sampleSession, hcalls, hasked] at hsession
  exact ⟨hsession, hqueue⟩

/-- Without `--allow-mutations` the control plane is left as the requests of others leave it. -/
theorem readOnly_invisible (cfg : ApiConfig P) (t : Traffic) (takes : Nat → Bool) (h : Handler)
    (hbase : IsOrigin h.client.baseUrl) (hmode : h.allowMutations = false) (s : ApiState)
    (stdin : List (Option (List Char))) :
    let w := (serveStdio P parseTime texts (World.send cfg t) takes h ⟨s, 0⟩ 0 stdin).surroundings
    w.api = serveAll cfg s ((List.range w.calls).flatMap t.others) := by
  intro w
  obtain ⟨answered, rest, hwent⟩ :=
    exists_went P parseTime texts h (World.send cfg t) takes ⟨s, 0⟩ 0 stdin
  have hs := hwent.surroundings
  generalize answered ++ rest.head?.toList = done at hs
  have hacts := forall₂_filterMap (lineCall h) (R := StandsFor cfg) (fun _ _ => [])
    (fun line c => silent_lineCall hbase hmode) done
  have hacts' : ∃ k, (done.filterMap fun line => (lineCall h line).map fun _ =>
      fun _ : List Draw => ([] : List HttpRequest)) = List.replicate k fun _ => [] := by
    refine ⟨_, List.eq_replicate_iff.mpr ⟨rfl, fun act hact => ?_⟩⟩
    obtain ⟨line, -, hline⟩ := List.mem_filterMap.mp hact
    obtain ⟨c, -, rfl⟩ := Option.map_eq_some_iff.mp hline
    rfl
  obtain ⟨k, hk⟩ := hacts'
  rw [hk] at hacts
  have hworld : w = ⟨serveAll cfg s ((List.range' 0 k).flatMap t.others), k⟩ := by
    change (serveStdio P parseTime texts (World.send cfg t) takes h ⟨s, 0⟩ 0 stdin).surroundings = _
    rw [hs, sendAll_send t hacts s 0, woven_silent, List.length_replicate, Nat.zero_add]
  rw [hworld, List.range_eq_range']

/-- The three calls that decide are refused, and the one that reads is the first. -/
theorem readOnly_invisible_sample :
    (sampleSession false fun _ => true).surroundings.api =
        serveAll decodingApi samplePending [ApiState.sampleGet "/api/agents"] ∧
      (sampleSession false fun _ => true).ending = .unreadable := by
  obtain ⟨hcalls, hending⟩ : (sampleSession false fun _ => true).surroundings.calls = 1 ∧
      (sampleSession false fun _ => true).ending = .unreadable := by
    decide +kernel
  have hinvisible := readOnly_invisible (fun _ => none) sampleTexts decodingApi sampleTraffic
    (fun _ => true) (sampleHandler false) (isOrigin_sampleHandler false) rfl samplePending sampleStdin
  dsimp only at hinvisible
  rw [← sampleSession, hcalls] at hinvisible
  exact ⟨hinvisible, hending⟩

end Ravn.Mcp
