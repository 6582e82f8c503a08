import Ravn.Core.Platform
import Ravn.Core.Remediation

/-! Pre-authored remediation templates: their structural validation, and the rendering of their
`{{param}}` placeholders against supplied values. -/

namespace Ravn

open Theory

/-! ## Kubernetes identifiers -/

def isLowerAlnum (c : Char) : Bool := ('a' ≤ c && c ≤ 'z') || ('0' ≤ c && c ≤ '9')

/-- `is_valid_k8s_label`: an RFC 1123 DNS label. The length is the one of the UTF-8 text. -/
def isValidK8sLabel (s : String) : Bool :=
  if s.isEmpty || 63 < s.utf8ByteSize then false
  else if !s.toList.head?.any isLowerAlnum then false
  else if !s.toList.getLast?.any isLowerAlnum then false
  else s.toList.all fun c => isLowerAlnum c || c == '-'

/-! ## Rendering -/

inductive RenderError where
  /-- A placeholder had no supplied value. -/
  | missingValue (name : String)
  /-- A Kubernetes identifier is not a DNS label. -/
  | invalidKubeIdentifier (field value : String)
deriving DecidableEq

def RenderError.display (P : Platform) : RenderError → String
  | missingValue name => "no value supplied for parameter \x7b\x7b" ++ name ++ "\x7d\x7d"
  | invalidKubeIdentifier field value =>
    "invalid Kubernetes identifier for " ++ field ++ ": " ++ P.debugStr value ++
      " (must be an RFC 1123 DNS label: 1–63 lowercase alphanumeric or '-' chars, " ++
      "start and end with alphanumeric)"

def openBraces : List Char := ['{', '{']

def closeBraces : List Char := ['}', '}']

/-- The loop of `resolve_str`, on the text that is left. -/
def resolveChars (values : BTreeMap String String) (rest : List Char) :
    Except RenderError (List Char) :=
  match _hstart : splitOnce openBraces rest with
  | none => .ok rest
  | some (literal, after) =>
    match _hend : splitOnce closeBraces after with
    -- Without closing braces the rest is literal.
    | none => .ok rest
    | some (inner, rest') =>
      let name := String.ofList (trim inner)
      match values.get name with
      | none => .error (.missingValue name)
      | some value => do
        let out ← resolveChars values rest'
        .ok (literal ++ value.toList ++ out)
termination_by rest.length
decreasing_by
  have hstart' := length_lt_of_splitOnce (by simp [openBraces]) _hstart
  have hend' := length_lt_of_splitOnce (by simp [closeBraces]) _hend
  omega

def resolveStr (raw : String) (values : BTreeMap String String) : Except RenderError String := do
  let out ← resolveChars values raw.toList
  .ok (String.ofList out)

/-- The common part of the three Kubernetes capabilities: both fields are rendered, then both are
checked. -/
def resolveKube (make : String → String → Capability) (field ns name : String)
    (values : BTreeMap String String) : Except RenderError Capability := do
  let ns ← resolveStr ns values
  let name ← resolveStr name values
  if !isValidK8sLabel ns then throw (.invalidKubeIdentifier "namespace" ns)
  if !isValidK8sLabel name then throw (.invalidKubeIdentifier field name)
  .ok (make ns name)

def Capability.resolve (values : BTreeMap String String) :
    Capability → Except RenderError Capability
  | resetFailed unit => return .resetFailed (← resolveStr unit values)
  | restartUnit unit => return .restartUnit (← resolveStr unit values)
  | unitState unit => return .unitState (← resolveStr unit values)
  | nixRollback => .ok .nixRollback
  | deletePod ns pod => resolveKube .deletePod "pod" ns pod values
  | restartDeployment ns deployment =>
    resolveKube .restartDeployment "deployment" ns deployment values
  | podState ns podPrefix => resolveKube .podState "pod_prefix" ns podPrefix values

/-! ## Templates -/

/-- The kind of a declared parameter. -/
inductive ParamType where
  | string
deriving DecidableEq

/-- A declared parameter and the dotted event path its value comes from. -/
structure ParameterSpec where
  ty : ParamType
  from_ : String
deriving DecidableEq

/-- The fault signature a template matches. -/
structure TemplateMatch where
  source : Source
  conditions : BTreeMap String String
deriving DecidableEq

/-- A pre-authored, deterministic remediation. -/
structure Template where
  id : String
  version : UInt32
  title : String
  riskTier : RiskTier
  match_ : TemplateMatch
  parameters : BTreeMap String ParameterSpec
  preconditions : List Condition
  steps : List Capability
  verify : Option Verify
  rollback : Rollback
deriving DecidableEq

/-- The placeholder names of a text, in order. -/
def placeholdersInChars (rest : List Char) : List String :=
  match _hstart : splitOnce openBraces rest with
  | none => []
  | some (_, after) =>
    match _hend : splitOnce closeBraces after with
    | none => []
    | some (inner, rest') => String.ofList (trim inner) :: placeholdersInChars rest'
termination_by rest.length
decreasing_by
  have hstart' := length_lt_of_splitOnce (by simp [openBraces]) _hstart
  have hend' := length_lt_of_splitOnce (by simp [closeBraces]) _hend
  omega

def placeholdersInStr (raw : String) : List String := placeholdersInChars raw.toList

def placeholdersInCapability : Capability → List String
  | .resetFailed unit | .restartUnit unit | .unitState unit => placeholdersInStr unit
  | .nixRollback => []
  | .deletePod ns name | .restartDeployment ns name | .podState ns name =>
    placeholdersInStr ns ++ placeholdersInStr name

/-- Why a template failed validation. -/
inductive TemplateError where
  | undeclaredParameter (name : String)
  | nonReadOnlyCheck
  | noSteps
deriving DecidableEq

def TemplateError.display : TemplateError → String
  | undeclaredParameter name =>
    "template uses undeclared parameter \x7b\x7b" ++ name ++ "\x7d\x7d"
  | nonReadOnlyCheck => "preconditions and verify must use read-only check capabilities"
  | noSteps => "template declares no steps"

namespace Template

/-- Every placeholder of the capability is declared; the error names the first that is not. -/
def checkPlaceholders (t : Template) (cap : Capability) : Except TemplateError Unit :=
  match (placeholdersInCapability cap).find? fun token => !t.parameters.containsKey token with
  | some token => .error (.undeclaredParameter token)
  | none => .ok ()

/-- A check must be read-only, and its placeholders declared. -/
def checkCheck (t : Template) (check : Capability) : Except TemplateError Unit :=
  if check.isReadOnly then t.checkPlaceholders check else .error .nonReadOnlyCheck

def validate (t : Template) : Except TemplateError Unit := do
  t.preconditions.forM fun cond => t.checkCheck cond.check
  t.steps.forM t.checkPlaceholders
  if let some verify := t.verify then t.checkCheck verify.check
  if t.steps.isEmpty then throw .noSteps

end Template

end Ravn
