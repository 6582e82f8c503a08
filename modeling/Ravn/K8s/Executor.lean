import Ravn.Actuator.CommandLaw
import Ravn.Core.KubeNames

/-! `KubeExecutor`, the executor that runs in the cluster. It checks the names of a capability again
before it asks the API; its check is wider than those of rendering and of `handle_command`, so it lets
pass whatever they admit. -/

namespace Ravn

open Theory

/-! ## The names -/

/-- `is_valid_k8s_name`. -/
def isValidK8sName (name : String) : Bool :=
  !name.isEmpty && name.utf8ByteSize ≤ 253 &&
    (name.toList.all fun c => isLowerAlnum c || c == '-' || c == '.') &&
    name.toList.head? != some '-' && name.toList.getLast? != some '-' &&
    name.toList.head? != some '.' && name.toList.getLast? != some '.'

section

variable (P : Platform)

/-- `validate_ns_and_name`; the error is the text of the `ExecError`. -/
def validateNsAndName (ns name nameLabel : String) : Except String Unit :=
  if !isValidK8sName ns then .error ("invalid Kubernetes namespace: " ++ P.debugStr ns)
  else if !isValidK8sName name then
    .error ("invalid Kubernetes " ++ nameLabel ++ ": " ++ P.debugStr name)
  else .ok ()

variable {P} {s ns name : String}

/-- Alphanumeric ends exclude a hyphen or a dot there. -/
theorem isValidK8sName_of_edged (hedged : Edged IsAlnum s.toList)
    (hall : ∀ c ∈ s.toList, c = '.' ∨ IsHyphenAlnum c) (hlen : s.utf8ByteSize ≤ 253) :
    isValidK8sName s = true := by
  have hends : ∀ o : Option Char, (∃ c ∈ o, IsAlnum c) → o ≠ some '-' ∧ o ≠ some '.' := by
    rintro o ⟨c, rfl, hc⟩
    rw [← isLowerAlnum_iff] at hc
    constructor <;> rintro ⟨rfl⟩ <;> exact absurd hc (by decide)
  have hchars : (s.toList.all fun c => isLowerAlnum c || c == '-' || c == '.') = true := by
    refine List.all_eq_true.mpr fun c hc => ?_
    rcases hall c hc with rfl | rfl | hc
    · decide
    · decide
    · rw [isLowerAlnum_iff.mpr hc]
      rfl
  have hne : s ≠ "" := by
    rintro rfl
    obtain ⟨c, hc, -⟩ := hedged.first
    cases hc
  obtain ⟨hfirst, hfirst'⟩ := hends _ hedged.first
  obtain ⟨hlast, hlast'⟩ := hends _ hedged.last
  simp [isValidK8sName, hne, hlen, hchars, hfirst, hfirst', hlast, hlast']

/-- A subdomain is a name. -/
theorem isValidK8sName_of_subdomain (h : isValidK8sSubdomain s = true) : isValidK8sName s = true := by
  obtain ⟨hjoined, hlen⟩ := isValidK8sSubdomain_iff.mp h
  obtain ⟨hedged, hall⟩ := edged_of_mem_joined hjoined
  exact isValidK8sName_of_edged hedged hall (utf8ByteSize_of_mem_joined hjoined ▸ hlen)

theorem isValidK8sName_of_label (h : isValidK8sLabel s = true) : isValidK8sName s = true :=
  isValidK8sName_of_subdomain (isValidK8sSubdomain_of_label h)

theorem validateNsAndName_of_labels (hns : isValidK8sLabel ns = true)
    (hname : isValidK8sLabel name = true) (nameLabel : String) :
    validateNsAndName P ns name nameLabel = .ok () := by
  simp [validateNsAndName, isValidK8sName_of_label hns, isValidK8sName_of_label hname]

end

/-! ## The executor -/

/-- What the executor reads of a pod: its name, and the phase in its status. -/
structure Pod where
  name : Option String
  phase : Option String
deriving DecidableEq

def Pod.phaseText (p : Pod) : String := p.phase.getD "Unknown"

def Pod.named (p : Pod) (podPrefix : String) : Bool :=
  p.name.any fun n => podPrefix.toList.isPrefixOf n.toList

/-- The Kubernetes API, and the clocks of the process. Errors carry the text of the `kube::Error`. -/
structure Cluster (σ : Type u) where
  deletePod : String → String → σ → Except String Unit × σ
  /-- Patches the deployment's pod template: its annotation `kubectl.kubernetes.io/restartedAt` becomes
  the given time. -/
  patchRestartedAt : String → String → DateTime → σ → Except String Unit × σ
  listPods : String → σ → Except String (List Pod) × σ
  utcNow : σ → DateTime × σ
  instantNow : σ → Nat × σ
  sleep : Nat → σ → σ

namespace KubeExecutor

variable (P : Platform) {σ : Type u} (K : Cluster σ)

def deletePod (ns pod : String) (s : σ) : Except String (Option String) × σ :=
  match validateNsAndName P ns pod "pod name" with
  | .error e => (.error e, s)
  | .ok () =>
    match K.deletePod ns pod s with
    | (.error e, s) => (.error ("deleting pod " ++ ns ++ "/" ++ pod ++ ": " ++ e), s)
    | (.ok (), s) => (.ok none, s)

def restartDeployment (ns deployment : String) (s : σ) : Except String (Option String) × σ :=
  match validateNsAndName P ns deployment "deployment name" with
  | .error e => (.error e, s)
  | .ok () =>
    let (now, s) := K.utcNow s
    match K.patchRestartedAt ns deployment now s with
    | (.error e, s) => (.error ("patching deployment " ++ ns ++ "/" ++ deployment ++ ": " ++ e), s)
    | (.ok (), s) => (.ok none, s)

/-- The phase of the first pod with the prefix that is not running. -/
def podState (ns podPrefix : String) (s : σ) : Except String (Option String) × σ :=
  match validateNsAndName P ns podPrefix "pod prefix" with
  | .error e => (.error e, s)
  | .ok () =>
    match K.listPods ns s with
    | (.error e, s) => (.error ("listing pods in " ++ ns ++ ": " ++ e), s)
    | (.ok pods, s) =>
      let matching := pods.filter fun p => p.named podPrefix
      if matching.isEmpty then
        (.error ("no pod with prefix " ++ P.debugStr podPrefix ++ " found in namespace " ++ ns), s)
      else
        match matching.find? fun p => p.phaseText != "Running" with
        | some p => (.ok (some p.phaseText), s)
        | none => (.ok (some "Running"), s)

/-- `run`. -/
def run : Capability → σ → Except String (Option String) × σ
  | .deletePod ns pod, s => deletePod P K ns pod s
  | .restartDeployment ns deployment, s => restartDeployment P K ns deployment s
  | .podState ns podPrefix, s => podState P K ns podPrefix s
  | .resetFailed _, s | .restartUnit _, s | .unitState _, s | .nixRollback, s =>
    (.error ("host systemd capability is not supported by the K8s executor; " ++
      "route to the host actuator instead"), s)

/-- The executor on a cluster. -/
def host : Host σ where
  run := run P K
  utcNow := K.utcNow
  instantNow := K.instantNow
  sleep := K.sleep

/-! ## What is asked of the API -/

/-- The check with which the executor begins a capability. -/
def validate : Capability → Except String Unit
  | .deletePod ns pod => validateNsAndName P ns pod "pod name"
  | .restartDeployment ns deployment => validateNsAndName P ns deployment "deployment name"
  | .podState ns podPrefix => validateNsAndName P ns podPrefix "pod prefix"
  | .resetFailed _ | .restartUnit _ | .unitState _ | .nixRollback => .ok ()

/-- The state after the request of a capability. -/
def requested : Capability → σ → σ
  | .deletePod ns pod, s => (K.deletePod ns pod s).2
  | .restartDeployment ns deployment, s =>
    (K.patchRestartedAt ns deployment (K.utcNow s).1 (K.utcNow s).2).2
  | .podState ns _, s => (K.listPods ns s).2
  | .resetFailed _, s | .restartUnit _, s | .unitState _, s | .nixRollback, s => s

variable {P K} {cap cap' : Capability} {ns podPrefix : String}

/-- After the check the API is asked once, whatever becomes of the answer. -/
theorem run_of_valid (h : validate P cap = .ok ()) (s : σ) :
    (run P K cap s).2 = requested K cap s := by
  cases cap with
  | deletePod ns pod =>
    simp only [validate] at h
    simp only [run, deletePod, h, requested]
    rcases K.deletePod ns pod s with ⟨e | _, s'⟩ <;> rfl
  | restartDeployment ns deployment =>
    simp only [validate] at h
    simp only [run, restartDeployment, h, requested]
    rcases K.patchRestartedAt ns deployment (K.utcNow s).1 (K.utcNow s).2 with ⟨e | _, s'⟩ <;> rfl
  | podState ns podPrefix =>
    simp only [validate] at h
    simp only [run, podState, h, requested]
    rcases K.listPods ns s with ⟨e | pods, s'⟩
    · rfl
    · dsimp only
      split
      · rfl
      · split <;> rfl
  | resetFailed | restartUnit | unitState | nixRollback => rfl

/-! ## What the earlier checks admit -/

theorem validate_of_kubeTexts (h : ∀ text ∈ cap.kubeTexts, isValidK8sLabel text = true) :
    validate P cap = .ok () := by
  cases cap with
  | deletePod ns name | restartDeployment ns name | podState ns name =>
    simp only [Capability.kubeTexts, List.forall_mem_cons] at h
    exact validateNsAndName_of_labels h.1 h.2.1 _
  | resetFailed | restartUnit | unitState | nixRollback => rfl

/-- Whatever executor and clocks a command runs with, the in-cluster check passes all its calls. -/
theorem validate_of_mem_calls {H : Host σ} {ring : Keyring P} {env : CommandEnvelope} {s : σ}
    (h : call ∈ (handleCommand P H ring env fuel s).2.1.calls) : validate P call.cap = .ok () := by
  have hlaw := handleCommand_commandLaw (P := P) (H := H) ring env fuel s
  by_cases hcap : call.cap = .nixRollback
  · rw [hcap]
    rfl
  · exact validate_of_kubeTexts (hlaw.identifiers call h hcap).kubeTexts

/-- Of a command on a cluster every call reaches the API: none is held up by the check of the names. -/
theorem run_of_mem_calls {ring : Keyring P} {env : CommandEnvelope} {s : σ}
    (h : call ∈ (handleCommand P (host P K) ring env fuel s).2.1.calls) (s' : σ) :
    (run P K call.cap s').2 = requested K call.cap s' :=
  run_of_valid (validate_of_mem_calls h) s'

end KubeExecutor

/-- The three validators accept the label grammar, the labels joined by dots and a superset of these.
Hence what rendering gives out, what `handle_command` admits and what it runs all pass the check of the
in-cluster executor. -/
theorem kubeNames_nest (P : Platform) :
    (∀ s, isValidK8sLabel s = true ↔ s.toList ∈ dnsLabels) ∧
    (∀ s, isValidK8sSubdomain s = true ↔ s.toList ∈ dnsSubdomains) ∧
    (∀ s, isValidK8sLabel s = true → isValidK8sSubdomain s = true) ∧
    (∀ s, isValidK8sSubdomain s = true → isValidK8sName s = true) ∧
    (∀ ns name, isValidK8sLabel ns = true → isValidK8sLabel name = true →
      ∀ nameLabel, validateNsAndName P ns name nameLabel = .ok ()) ∧
    (∀ (cap cap' : Capability) values, cap.resolve values = .ok cap' →
      KubeExecutor.validate P cap' = .ok ()) ∧
    (∀ (ring : Keyring P) env now, admission P ring env now = .ok () →
      ∀ cap ∈ env.capabilities, KubeExecutor.validate P cap = .ok ()) ∧
    ∀ (σ : Type u) (H : Host σ) (ring : Keyring P) env fuel s,
      ∀ call ∈ (handleCommand P H ring env fuel s).2.1.calls,
        KubeExecutor.validate P call.cap = .ok () := by
  refine ⟨fun s => isValidK8sLabel_iff, fun s => isValidK8sSubdomain_iff,
    fun s => isValidK8sSubdomain_of_label, fun s => isValidK8sName_of_subdomain,
    fun ns name => validateNsAndName_of_labels, fun cap cap' values h => ?_,
    fun ring env now h cap hcap => ?_, ?_⟩
  · exact KubeExecutor.validate_of_kubeTexts (Capability.resolve_rendered h).labels
  · exact KubeExecutor.validate_of_kubeTexts (validIdentifiers_of_admission h hcap).kubeTexts
  · exact fun σ H ring env fuel s call hcall => KubeExecutor.validate_of_mem_calls hcall

theorem kubeNames_nest_sample : isValidK8sName "my-app" = true ∧
    KubeExecutor.validate Platform.sample (.deletePod "payments" "my-app") = .ok () := by
  obtain ⟨-, -, hsubdomain, hname, -, hresolved, -⟩ := kubeNames_nest.{0} Platform.sample
  have hliteral : ∀ raw : String, splitOnce openBraces raw.toList = none →
      resolveStr raw .empty = .ok raw := by
    intro raw h
    rw [resolveStr, resolveChars_literal h]
    exact congrArg Except.ok String.ofList_toList
  have hresolve : (Capability.deletePod "payments" "my-app").resolve .empty =
      .ok (.deletePod "payments" "my-app") :=
    resolveKube_of_ok (hliteral _ (by decide)) (hliteral _ (by decide))
  exact ⟨hname _ (hsubdomain _ (by decide)), hresolved _ _ _ hresolve⟩

end Ravn
