import Ravn.Core.Record
import Ravn.Server.Api
import Ravn.Server.Inference
import Ravn.Theory.Exchange
import Ravn.Theory.Percent
import Ravn.Theory.Utf8

/-! The client that the MCP server speaks to the control plane with: the calls it makes, and what it makes
of an answer. An identifier that a caller names is one segment of the path, whatever it holds. -/

namespace Ravn.Mcp

open Theory

/-! ## Calls -/

/-- A request as the client hands it to its HTTP package. -/
structure HttpCall where
  method : Method
  url : List Char
  authorization : Option (List Char)
deriving DecidableEq

/-- What comes back: an error with its sources, or a status and the body, unless it cannot be read. -/
inductive HttpReply where
  | failed (error : String)
  | received (status : Nat) (body : Except String String)

abbrev Call := Exchange HttpCall HttpReply

/-- The texts that other packages make: `StatusCode`'s `Display`, and serde_json's errors. -/
structure Texts where
  status : Nat → String
  bodyError : String → String
  requestError : List Char → String
  paramsError : Doc → String

/-- `urlencode`. -/
def isUnreserved (b : UInt8) : Bool :=
  (65 ≤ b ∧ b ≤ 90) ∨ (97 ≤ b ∧ b ≤ 122) ∨ (48 ≤ b ∧ b ≤ 57) ∨ b = 45 ∨ b = 95 ∨ b = 46 ∨ b = 126

def urlencode (s : String) : List Char :=
  percentEncode isUnreserved (s.toList.flatMap String.utf8EncodeChar)

/-- `truncate`; `none` where the slice panics. -/
def truncate (s : String) (max : Nat) : Option String := cutAt max "…" s

structure ControlPlaneClient where
  baseUrl : List Char
  token : Option (List Char)

namespace ControlPlaneClient

def new (baseUrl : List Char) (token : Option (List Char)) : ControlPlaneClient where
  baseUrl := trimEndMatches '/' baseUrl
  token := token

/-- The credential that goes with every call. -/
def authorization (c : ControlPlaneClient) : Option (List Char) :=
  c.token.map fun token => "Bearer ".toList ++ token

/-- The hint for an operator whose token is missing or too weak. -/
def hint : Nat → String
  | 401 => " (missing or invalid token — set RAVN_MCP_TOKEN to a control-plane bearer token)"
  | 403 => " (token lacks the required role — mutations need an admin-scoped token)"
  | _ => ""

/-- `json_or_error`. -/
def jsonOrError (texts : Texts) (status : Nat) (body : Except String String) (url : String) :
    Call (Except String Doc) :=
  if 200 ≤ status ∧ status < 300 then
    match body with
    | .error e => .done (.error s!"reading body of {url}: {e}")
    | .ok body =>
      if trim body.toList = [] then .done (.ok .null)
      else match valueFromStr body.toList with
        | some v => .done (.ok v.value)
        | none => .done (.error s!"parsing JSON body of {url}: {texts.bodyError body}")
  else
    match truncate (body.toOption.getD "") 500 with
    | none => .panic
    | some body =>
      .done (.error s!"control plane returned {texts.status status} for {url}{hint status}: {body}")

def send (texts : Texts) (verb : String) (call : HttpCall) : Call (Except String Doc) :=
  .ask call fun
    | .failed e => .done (.error s!"{verb} {String.ofList call.url}: {e}")
    | .received status body => jsonOrError texts status body (String.ofList call.url)

def getCall (c : ControlPlaneClient) (path : List Char) : HttpCall where
  method := .get
  url := c.baseUrl ++ path
  authorization := c.authorization

def postCall (c : ControlPlaneClient) (path : List Char) : HttpCall where
  method := .post
  url := c.baseUrl ++ path
  authorization := c.authorization

def get (texts : Texts) (c : ControlPlaneClient) (path : List Char) : Call (Except String Doc) :=
  send texts "GET" (c.getCall path)

def post (texts : Texts) (c : ControlPlaneClient) (path : List Char) : Call (Except String Doc) :=
  send texts "POST" (c.postCall path)

/-! ## Endpoints -/

def agentsPath : List Char := "/api/agents".toList

def eventsPath (limit : Nat) : List Char := "/api/events?limit=".toList ++ (toString limit).toList

def topologyPath : Option String → List Char
  | some key => "/api/topology?group_by=".toList ++ urlencode key
  | none => "/api/topology".toList

def remediationsPath : List Char := "/api/remediations".toList

/-- The path of a mutating endpoint. -/
def decisionPath (id verb : String) : List Char :=
  "/api/remediations/".toList ++ urlencode id ++ '/' :: verb.toList

def listAgents (texts : Texts) (c : ControlPlaneClient) : Call (Except String Doc) :=
  c.get texts agentsPath

def listEvents (texts : Texts) (c : ControlPlaneClient) (limit : Nat) : Call (Except String Doc) :=
  c.get texts (eventsPath limit)

def topology (texts : Texts) (c : ControlPlaneClient) (groupBy : Option String) :
    Call (Except String Doc) :=
  c.get texts (topologyPath groupBy)

def listRemediations (texts : Texts) (c : ControlPlaneClient) : Call (Except String Doc) :=
  c.get texts remediationsPath

def approveRemediation (texts : Texts) (c : ControlPlaneClient) (id : String) :
    Call (Except String Doc) :=
  c.post texts (decisionPath id "approve")

def rejectRemediation (texts : Texts) (c : ControlPlaneClient) (id : String) :
    Call (Except String Doc) :=
  c.post texts (decisionPath id "reject")

end ControlPlaneClient

/-! ## What an answer makes the client do -/

/-- The body of an error that the client can cut. -/
def Survivable : HttpReply → Prop
  | .failed _ => True
  | .received status body =>
    (200 ≤ status ∧ status < 300) ∨ Cuttable 500 (body.toOption.getD "")

theorem ended_jsonOrError (texts : Texts) {status : Nat} {body : Except String String}
    (url : String) (h : Survivable (.received status body)) :
    (ControlPlaneClient.jsonOrError texts status body url).Ended := by
  unfold ControlPlaneClient.jsonOrError
  split
  · split
    · exact ⟨_, rfl⟩
    · split
      · exact ⟨_, rfl⟩
      · split <;> exact ⟨_, rfl⟩
  · rename_i hstatus
    have hcut : cutAt 500 "…" _ ≠ none := cutAt_ne_none_iff.mpr (h.resolve_left hstatus)
    split
    · exact absurd ‹_› hcut
    · exact ⟨_, rfl⟩

theorem panic_jsonOrError (texts : Texts) {status : Nat} {body : Except String String}
    (url : String) (h : ¬Survivable (.received status body)) :
    ControlPlaneClient.jsonOrError texts status body url = .panic := by
  obtain ⟨hstatus, hcut⟩ := not_or.mp h
  have hnone : truncate (body.toOption.getD "") 500 = none := by
    by_contra hsome
    exact hcut (cutAt_ne_none_iff.mp hsome)
  unfold ControlPlaneClient.jsonOrError
  rw [if_neg hstatus, hnone]

theorem asks_send (texts : Texts) (verb : String) (call : HttpCall) :
    (ControlPlaneClient.send texts verb call).Asks Survivable (some call) := by
  refine ⟨_, rfl, fun r => ?_⟩
  cases r with
  | failed e => exact ⟨fun _ => ⟨_, rfl⟩, fun h => absurd trivial h⟩
  | received status body => exact ⟨ended_jsonOrError texts _, panic_jsonOrError texts _⟩

/-! ## What is sent -/

theorem plain_isUnreserved : Plain isUnreserved := by
  intro b hb
  simp only [isUnreserved, decide_eq_true_eq, ← UInt8.toNat_inj, UInt8.le_iff_toNat_le] at hb
  constructor
  · change b.toNat < 128
    simp at hb
    omega
  · intro h
    subst h
    simp at hb

theorem decode_urlencode (s : String) :
    decodeUtf8 (percentDecode (urlencode s)) = some s.toList :=
  decodeUtf8_percentDecode plain_isUnreserved s.toList

/-- An encoded text has no separator of a URL. -/
theorem notMem_urlencode {s : String} (hc : c = '/' ∨ c = '?' ∨ c = '#') : c ∉ urlencode s := by
  have hdigit : ∀ n < 16, upperHexDigit n ≠ '/' ∧ upperHexDigit n ≠ '?' ∧ upperHexDigit n ≠ '#' := by
    decide
  have hkept : ∀ n < 256, isUnreserved (UInt8.ofNat n) = true →
      Char.ofNat n ≠ '/' ∧ Char.ofNat n ≠ '?' ∧ Char.ofNat n ≠ '#' := by
    decide +kernel
  intro hmem
  have hne : c ≠ '/' ∧ c ≠ '?' ∧ c ≠ '#' := by
    rcases mem_percentEncode hmem with rfl | ⟨n, hn, rfl⟩ | ⟨b, hb, rfl⟩
    · decide
    · exact hdigit n hn
    · exact hkept b.toNat b.toNat_lt (by rwa [UInt8.ofNat_toNat])
  rcases hc with rfl | rfl | rfl
  · exact hne.1 rfl
  · exact hne.2.1 rfl
  · exact hne.2.2 rfl

theorem length_le_urlencode (s : String) : s.toList.length ≤ (urlencode s).length :=
  Nat.le_trans (length_le_octets s.toList) (length_le_percentEncode isUnreserved _)

end Ravn.Mcp
