import Ravn.Core.Template
import Ravn.Crypto.Envelope
import Ravn.Server.EventField

/-! The template registry and the two builders around it: a proposal from a matched template and an
event, and a signed command from a proposal and a template. -/

namespace Ravn

open Theory

/-! ## The registry -/

/-- A directory entry: its path, whether its extension is `toml`, and what reading and parsing it
gives. -/
structure TemplateFile where
  path : String
  isToml : Bool
  parsed : Except String Template

structure TemplateRegistry where
  templates : List Template

/-- A path of a template that is no event path. -/
inductive PathError where
  | condition (templateId path : String)
  | parameter (templateId name path : String)

def PathError.display : PathError → String
  | condition templateId path =>
    "template '" ++ templateId ++ "': condition path '" ++ path ++
      "' is not a recognised event field; valid paths: " ++ ", ".intercalate eventPaths
  | parameter templateId name path =>
    "template '" ++ templateId ++ "': parameter '" ++ name ++ "' has unrecognised from-path '" ++
      path ++ "'; valid paths: " ++ ", ".intercalate eventPaths

/-- Every condition path, then every parameter's source path, is a recognised event path; the error
names the first that is not. -/
def validateTemplatePaths (t : Template) : Except PathError Unit :=
  match t.match_.conditions.keys.find? fun path => !validateEventPath path with
  | some path => .error (.condition t.id path)
  | none =>
    match t.parameters.entries.find? fun p => !validateEventPath p.2.from_ with
    | some p => .error (.parameter t.id p.1 p.2.from_)
    | none => .ok ()

/-- Why loading the templates failed. -/
inductive LoadError where
  | parsing (path message : String)
  | invalid (path : String) (error : TemplateError)
  | invalidPaths (path : String) (error : PathError)

def LoadError.display : LoadError → String
  | parsing path message => "parsing template " ++ path ++ ": " ++ message
  | invalid path error => "invalid template " ++ path ++ ": " ++ error.display
  | invalidPaths path error => "invalid template " ++ path ++ ": " ++ error.display

/-- One entry: nothing for a file that is no template, else the validated template. -/
def loadFile (file : TemplateFile) : Except LoadError (Option Template) :=
  if !file.isToml then .ok none
  else
    match file.parsed with
    | .error e => .error (.parsing file.path e)
    | .ok t =>
      match t.validate with
      | .error e => .error (.invalid file.path e)
      | .ok () =>
        match validateTemplatePaths t with
        | .error e => .error (.invalidPaths file.path e)
        | .ok () => .ok (some t)

namespace TemplateRegistry

/-- `load_dir`, on the entries in the order in which the directory lists them; a missing directory
has none. Nothing compares the ids of the templates. -/
def loadDir (entries : List TemplateFile) : Except LoadError TemplateRegistry := do
  let templates ← entries.mapM loadFile
  .ok ⟨templates.filterMap id⟩

/-- The source matches and every condition holds. -/
def matchesEvent (event : Event) (t : Template) : Bool :=
  t.match_.source == event.source &&
    t.match_.conditions.entries.all fun c => eventField event c.1 == some c.2

/-- `match_event`: the first template that matches. -/
def matchEvent (reg : TemplateRegistry) (event : Event) : Option Template :=
  reg.templates.find? (matchesEvent event)

/-- `get`: the first template with the id. -/
def get (reg : TemplateRegistry) (id : String) : Option Template :=
  reg.templates.find? fun t => t.id == id

end TemplateRegistry

/-! ## Proposals -/

def k8sIdParamNames : List String := ["namespace", "pod", "deployment", "name"]

/-- Why a parameter has no acceptable value. -/
inductive ParamError where
  | noValue (name path : String)
  | invalidKubeIdentifier (name value : String)
deriving DecidableEq

def ParamError.display (P : Platform) : ParamError → String
  | noValue name path => "parameter " ++ name ++ ": no string value at '" ++ path ++ "'"
  | invalidKubeIdentifier name value =>
    "parameter " ++ name ++ ": value " ++ P.debugStr value ++
      " is not a valid Kubernetes identifier (RFC 1123 DNS label: 1–63 lowercase alphanumeric " ++
      "or '-' chars, must start and end with alphanumeric)"

/-- The value of one parameter. -/
def resolveParam (event : Event) (name : String) (spec : ParameterSpec) :
    Except ParamError String :=
  match eventField event spec.from_ with
  | none => .error (.noValue name spec.from_)
  | some value =>
    if k8sIdParamNames.contains name && !isValidK8sLabel value then
      .error (.invalidKubeIdentifier name value)
    else .ok value

/-- `resolve_params`, over the declared parameters in order. -/
def resolveParams (t : Template) (event : Event) : Except ParamError (BTreeMap String String) :=
  t.parameters.entries.foldlM
    (fun params p => do
      let value ← resolveParam event p.1 p.2
      .ok (params.insert p.1 value)) .empty

/-- `build_proposal`, with the fresh id and the time. -/
def buildProposal (t : Template) (event : Event) (params : BTreeMap String String) (id : Uuid)
    (now : DateTime) : RemediationProposal :=
  let detail := ", ".intercalate params.values
  { id := id
    eventId := event.id
    agentId := event.agentId
    host := event.host
    templateId := t.id
    templateVersion := t.version
    riskTier := t.riskTier
    params := params
    rationale := event.title ++ " on " ++ event.host ++ " matched template \"" ++ t.title ++
      "\" (" ++ t.id ++ "). Proposed: " ++ t.title ++ " [" ++
      (if detail.isEmpty then "no parameters" else detail) ++ "]."
    createdAt := now }

@[simp] theorem buildProposal_id (t : Template) (event : Event) (params : BTreeMap String String)
    (id : Uuid) (now : DateTime) : (buildProposal t event params id now).id = id := rfl

/-! ## Commands -/

/-- What a template's parts render to under given parameters. -/
def Template.renderSteps (t : Template) (params : BTreeMap String String) :
    Except RenderError (List Capability) :=
  t.steps.mapM fun c => c.resolve params

def Template.renderPreconditions (t : Template) (params : BTreeMap String String) :
    Except RenderError (List Condition) :=
  t.preconditions.mapM fun c => do
    let check ← c.check.resolve params
    .ok { c with check := check }

def Template.renderVerify (t : Template) (params : BTreeMap String String) :
    Except RenderError (Option Verify) :=
  match t.verify with
  | none => .ok none
  | some v => do
    let check ← v.check.resolve params
    .ok (some { v with check := check })

/-- Why no command was built. -/
inductive BuildError where
  | steps (e : RenderError)
  | preconditions (e : RenderError)
  | verify (e : RenderError)

def BuildError.display (P : Platform) : BuildError → String
  | steps e => "resolving steps: " ++ e.display P
  | preconditions e => "resolving preconditions: " ++ e.display P
  | verify e => "resolving verify: " ++ e.display P

/-- What `build_command` draws while it runs: the time, the command id and the nonce. -/
structure Fresh where
  now : DateTime
  commandId : Uuid
  nonce : Uuid

/-- `now + Duration::seconds(ttl_secs.max(1))`; `none` where it panics. -/
def expiresAt (now : DateTime) (ttlSecs : Int) : Option DateTime :=
  let ttl := max ttlSecs 1
  if ttl ≤ (2 ^ 63 - 1) / 1000 then now.checkedAdd (ttl * 1000000000) else none

variable (P : Platform)

/-- `build_command`; `none` where it panics. Version and tier are those of the template it is given,
not the proposal's. -/
def buildCommand (proposal : RemediationProposal) (t : Template) (signer : P.SigningKey)
    (approval : ApprovalRef) (ttlSecs : Int) (fresh : Fresh) :
    Option (Except BuildError CommandEnvelope) :=
  match t.renderSteps proposal.params with
  | .error e => some (.error (.steps e))
  | .ok steps =>
    match t.renderPreconditions proposal.params with
    | .error e => some (.error (.preconditions e))
    | .ok preconditions =>
      match t.renderVerify proposal.params with
      | .error e => some (.error (.verify e))
      | .ok verify =>
        (expiresAt fresh.now ttlSecs).map fun expires =>
          .ok (signEnvelope P signer
            { commandId := fresh.commandId
              agentId := proposal.agentId
              templateId := t.id
              templateVersion := t.version
              riskTier := t.riskTier
              preconditions := preconditions
              steps := steps
              verify := verify
              rollback := t.rollback
              approvalRef := approval
              nonce := fresh.nonce.toString
              issuedAt := fresh.now
              expiresAt := expires
              kid := none
              sig := none })

/-- What a built command holds. -/
structure BuiltFrom (proposal : RemediationProposal) (t : Template) (approval : ApprovalRef)
    (fresh : Fresh) (env : CommandEnvelope) : Prop where
  commandId : env.commandId = fresh.commandId
  agentId : env.agentId = proposal.agentId
  templateId : env.templateId = t.id
  templateVersion : env.templateVersion = t.version
  riskTier : env.riskTier = t.riskTier
  preconditions : t.renderPreconditions proposal.params = .ok env.preconditions
  steps : t.renderSteps proposal.params = .ok env.steps
  verify : t.renderVerify proposal.params = .ok env.verify
  rollback : env.rollback = t.rollback
  approvalRef : env.approvalRef = approval
  signed : ∃ sig, env.sig = some sig

variable {P}

theorem buildCommand_builtFrom {signer : P.SigningKey}
    (h : buildCommand P proposal t signer approval ttlSecs fresh = some (.ok env)) :
    BuiltFrom proposal t approval fresh env := by
  unfold buildCommand at h
  split at h
  · cases h
  split at h
  · cases h
  split at h
  · cases h
  obtain ⟨expires, -, henv⟩ := Option.map_eq_some_iff.mp h
  cases henv
  refine ⟨rfl, rfl, rfl, rfl, rfl, ?_, ?_, ?_, rfl, rfl, _, rfl⟩ <;> assumption

end Ravn
