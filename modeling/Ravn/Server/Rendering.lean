import Ravn.Actuator.CommandLaw
import Ravn.Server.ApprovedTemplate

/-! What `build_command` makes of a validated template and an event: which error it can report, what the
envelope keeps of the template, and when placeholders are left in it. -/

namespace Ravn

open Theory

/-! ## Parameters -/

section

variable {event : Event}

theorem resolveParam_eq_ok (h : resolveParam event name spec = .ok value) :
    eventField event spec.from_ = some value := by
  unfold resolveParam at h
  split at h
  · cases h
  · split at h
    · cases h
    · cases h
      assumption

/-- The parameters after the declared ones have been resolved one after another: each has a value, which
is its own. -/
theorem foldlM_resolveParam {ps : List (String × ParameterSpec)} {acc params : BTreeMap String String}
    (h : ps.foldlM (fun params p => do
        let value ← resolveParam event p.1 p.2
        .ok (params.insert p.1 value)) acc = .ok params) :
    (∀ name, (∃ v, acc.get name = some v) ∨ name ∈ ps.map Prod.fst →
      ∃ v, params.get name = some v) ∧
    ∀ name v, params.get name = some v →
      acc.get name = some v ∨ ∃ path, eventField event path = some v := by
  induction ps generalizing acc with
  | nil =>
    cases h
    exact ⟨by simp, fun _ _ => .inl⟩
  | cons p ps ih =>
    rw [List.foldlM_cons] at h
    obtain ⟨acc', hacc, h⟩ := bind_eq_ok h
    obtain ⟨value, hvalue, hacc⟩ := bind_eq_ok hacc
    cases hacc
    obtain ⟨hall, hfrom⟩ := ih h
    refine ⟨fun name hname => hall name ?_, fun name v hv => ?_⟩
    · rw [BTreeMap.get_insert]
      by_cases hp : name = p.1
      · exact .inl ⟨value, if_pos hp⟩
      · rw [if_neg hp]
        rw [List.map_cons, List.mem_cons] at hname
        exact hname.imp_right fun hname => hname.resolve_left hp
    · rcases hfrom name v hv with hacc | hpath
      · rw [BTreeMap.get_insert] at hacc
        split at hacc
        · cases hacc
          exact .inr ⟨p.2.from_, resolveParam_eq_ok hvalue⟩
        · exact .inl hacc
      · exact .inr hpath

theorem resolveParams_get {t : Template} (h : resolveParams t event = .ok params) :
    (∀ name, t.parameters.containsKey name = true → ∃ v, params.get name = some v) ∧
    ∀ name v, params.get name = some v → ∃ path, eventField event path = some v := by
  obtain ⟨hall, hfrom⟩ := foldlM_resolveParam h
  refine ⟨fun name hname => hall name (.inr (BTreeMap.containsKey_iff.mp hname)), fun name v hv => ?_⟩
  exact (hfrom name v hv).resolve_left nofun

end

/-! ## Commands -/

/-- Why a part did not render. -/
def BuildError.cause : BuildError → RenderError
  | steps e | preconditions e | verify e => e

/-- The envelope has the capabilities of the template position by position, with what is expected of the
checks, and all its Kubernetes identifiers are labels. -/
structure RendersTo (t : Template) (env : CommandEnvelope) : Prop where
  preconditions : List.Forall₂ (fun cond cond' => cond.check.SameVariant cond'.check ∧
    cond'.equals = cond.equals ∧ cond'.check.isReadOnly = true) t.preconditions env.preconditions
  steps : List.Forall₂ Capability.SameVariant t.steps env.steps
  verify : Option.Rel (fun v v' => v.check.SameVariant v'.check ∧ v'.equals = v.equals ∧
    v'.timeoutS = v.timeoutS ∧ v'.check.isReadOnly = true) t.verify env.verify
  labels : ∀ cap ∈ env.capabilities, ∀ id ∈ capabilityKubeIds cap, isValidK8sLabel id.2 = true

/-- No capability of the envelope has a placeholder in a string field. -/
def FullyResolved (env : CommandEnvelope) : Prop :=
  ∀ cap ∈ env.capabilities, placeholdersInCapability cap = []

section

variable {P : Platform} {t : Template} {values : BTreeMap String String}

/-- What the three parts of a template render to, each with its rendering. -/
structure RenderedParts (values : BTreeMap String String) (t : Template) (env : CommandEnvelope) :
    Prop where
  preconditions : List.Forall₂ (fun cond cond' => cond.check.Rendered values cond'.check ∧
    cond'.equals = cond.equals) t.preconditions env.preconditions
  steps : List.Forall₂ (Capability.Rendered values) t.steps env.steps
  verify : Option.Rel (fun v v' => v.check.Rendered values v'.check ∧ v'.equals = v.equals ∧
    v'.timeoutS = v.timeoutS) t.verify env.verify

theorem renderedParts_of_builtFrom (h : BuiltFrom proposal t approval fresh env) :
    RenderedParts proposal.params t env where
  preconditions := by
    refine (mapM_eq_ok_iff.mp h.preconditions).imp fun cond cond' hcond => ?_
    obtain ⟨check, hcheck, hcond⟩ := bind_eq_ok hcond
    cases hcond
    exact ⟨Capability.resolve_rendered hcheck, rfl⟩
  steps := (mapM_eq_ok_iff.mp h.steps).imp fun _ _ => Capability.resolve_rendered
  verify := by
    have hverify := h.verify
    unfold Template.renderVerify at hverify
    cases hv : t.verify with
    | none =>
      rw [hv] at hverify
      rw [← Except.ok.inj hverify]
      exact .none
    | some v =>
      rw [hv] at hverify
      obtain ⟨check, hcheck, hverify⟩ := bind_eq_ok hverify
      rw [← Except.ok.inj hverify]
      exact .some ⟨Capability.resolve_rendered hcheck, rfl, rfl⟩

/-- Each capability of the envelope is the rendering of one of the template. -/
theorem RenderedParts.exists_rendered (h : RenderedParts values t env) (hcap : cap ∈ env.capabilities) :
    ∃ raw, Capability.Rendered values raw cap := by
  simp only [CommandEnvelope.capabilities, List.mem_append, List.mem_map, Option.mem_toList] at hcap
  obtain (⟨cond', hcond', rfl⟩ | hstep) | ⟨v', hv', rfl⟩ := hcap
  · obtain ⟨cond, -, hrendered, -⟩ := exists_left_of_forall₂ h.preconditions hcond'
    exact ⟨_, hrendered⟩
  · obtain ⟨step, -, hrendered⟩ := exists_left_of_forall₂ h.steps hstep
    exact ⟨step, hrendered⟩
  · have hverify := h.verify
    rw [hv'] at hverify
    generalize t.verify = o at hverify
    cases hverify with
    | some hrendered => exact ⟨_, hrendered.1⟩

theorem RenderedParts.rendersTo (h : RenderedParts values t env) (hvalid : t.Valid) :
    RendersTo t env where
  preconditions := by
    have hpre := List.forall₂_and_left _ _ |>.mpr ⟨hvalid.preconditions, h.preconditions⟩
    refine hpre.imp fun cond cond' hcond => ?_
    obtain ⟨⟨hreadOnly, -⟩, hrendered, hequals⟩ := hcond
    exact ⟨hrendered.variant, hequals, hrendered.variant.isReadOnly_eq.trans hreadOnly⟩
  steps := h.steps.imp fun _ _ => Capability.Rendered.variant
  verify := by
    have hverify := h.verify
    have hreadOnly := hvalid.verify
    generalize t.verify = o at hverify hreadOnly ⊢
    generalize env.verify = o' at hverify ⊢
    cases hverify with
    | none => exact .none
    | some hv =>
      obtain ⟨hrendered, hequals, htimeout⟩ := hv
      exact .some ⟨hrendered.variant, hequals, htimeout,
        hrendered.variant.isReadOnly_eq.trans (hreadOnly _ rfl).1⟩
  labels cap hcap kid hkid := by
    obtain ⟨raw, hrendered⟩ := h.exists_rendered hcap
    exact hrendered.labels _ (kubeIds_snd cap ▸ List.mem_map_of_mem hkid)

/-- With a value for each declared parameter only an identifier can be at fault. -/
theorem renderParts_error (hvalid : t.Valid)
    (hvalues : ∀ name, t.parameters.containsKey name = true → ∃ v, values.get name = some v) :
    (∀ e, t.renderSteps values = .error e → ∃ field value, e = .invalidKubeIdentifier field value) ∧
    (∀ e, t.renderPreconditions values = .error e →
      ∃ field value, e = .invalidKubeIdentifier field value) ∧
    ∀ e, t.renderVerify values = .error e → ∃ field value, e = .invalidKubeIdentifier field value := by
  have hcap : ∀ cap e, t.Declares cap → cap.resolve values = .error e →
      ∃ field value, e = .invalidKubeIdentifier field value :=
    fun cap e hdeclares => Capability.resolve_error fun token htoken => hvalues token (hdeclares token htoken)
  refine ⟨fun e he => ?_, fun e he => ?_, fun e he => ?_⟩
  · obtain ⟨step, hstep, he⟩ := mapM_eq_error he
    exact hcap step e (hvalid.steps step hstep) he
  · obtain ⟨cond, hcond, he⟩ := mapM_eq_error he
    rcases bind_eq_error he with he | ⟨check, -, he⟩
    · exact hcap _ e (hvalid.preconditions cond hcond).2 he
    · cases he
  · unfold Template.renderVerify at he
    cases hv : t.verify with
    | none =>
      rw [hv] at he
      cases he
    | some v =>
      rw [hv] at he
      rcases bind_eq_error he with he | ⟨check, -, he⟩
      · exact hcap _ e (hvalid.verify v hv).2 he
      · cases he

/-- How `build_command` ends: with the error of a part, with a command, or in the panic of its expiry. -/
theorem buildCommand_cases (P : Platform) (proposal : RemediationProposal) (t : Template)
    (signer : P.SigningKey) (approval : ApprovalRef) (ttlSecs : Int) (fresh : Fresh) :
    (∃ e, buildCommand P proposal t signer approval ttlSecs fresh = some (.error e) ∧
      (t.renderSteps proposal.params = .error e.cause ∨
        t.renderPreconditions proposal.params = .error e.cause ∨
        t.renderVerify proposal.params = .error e.cause)) ∨
    (∃ env, buildCommand P proposal t signer approval ttlSecs fresh = some (.ok env)) ∨
    buildCommand P proposal t signer approval ttlSecs fresh = none ∧
      expiresAt fresh.now ttlSecs = none := by
  unfold buildCommand
  split
  · rename_i e he
    exact .inl ⟨_, rfl, .inl he⟩
  split
  · rename_i e he
    exact .inl ⟨_, rfl, .inr (.inl he)⟩
  split
  · rename_i e he
    exact .inl ⟨_, rfl, .inr (.inr he)⟩
  cases expiresAt fresh.now ttlSecs with
  | none => exact .inr (.inr ⟨rfl, rfl⟩)
  | some expires => exact .inr (.inl ⟨_, rfl⟩)

end

/-- For a validated template and an event that its parameters resolve for, `build_command` ends with the
error of an identifier that is no label, or with an envelope that the template renders to; or it panics
where the expiry is no time that can be represented. -/
theorem validated_templates_render (P : Platform) (t : Template) (event : Event)
    (params : BTreeMap String String) (hvalid : t.validate = .ok ())
    (hparams : resolveParams t event = .ok params) (id : Uuid) (now : DateTime)
    (signer : P.SigningKey) (approval : ApprovalRef) (ttlSecs : Int) (fresh : Fresh) :
    (∃ e field value, buildCommand P (buildProposal t event params id now) t signer approval ttlSecs
        fresh = some (.error e) ∧ e.cause = .invalidKubeIdentifier field value) ∨
    (∃ env, buildCommand P (buildProposal t event params id now) t signer approval ttlSecs fresh =
        some (.ok env) ∧ RendersTo t env) ∨
    buildCommand P (buildProposal t event params id now) t signer approval ttlSecs fresh = none ∧
      expiresAt fresh.now ttlSecs = none := by
  have hvalid := Template.valid_of_validate hvalid
  obtain ⟨hsteps, hpre, hverify⟩ := renderParts_error hvalid (resolveParams_get hparams).1
  obtain ⟨e, hbuild, he⟩ | ⟨env, hbuild⟩ | hpanic := buildCommand_cases P
    (buildProposal t event params id now) t signer approval ttlSecs fresh
  · left
    obtain ⟨field, value, hcause⟩ : ∃ field value, e.cause = .invalidKubeIdentifier field value := by
      rcases he with he | he | he
      · exact hsteps _ he
      · exact hpre _ he
      · exact hverify _ he
    exact ⟨e, field, value, hbuild, hcause⟩
  · exact .inr (.inl ⟨env, hbuild,
      (renderedParts_of_builtFrom (buildCommand_builtFrom hbuild)).rendersTo hvalid⟩)
  · exact .inr (.inr hpanic)

open TemplateRegistry Platform in
theorem validated_templates_render_sample :
    ∃ env, buildCommand sample
        (buildProposal (sampleTemplate 1 "timeout" (.restartUnit "\x7b\x7bunit\x7d\x7d")) sampleEvent
          (BTreeMap.empty.insert "unit" "nginx.service") ⟨5⟩ noon)
        (sampleTemplate 1 "timeout" (.restartUnit "\x7b\x7bunit\x7d\x7d")) (7 : UInt8) .policyAuto 300
        ⟨noon, ⟨21⟩, ⟨22⟩⟩ = some (.ok env) ∧
      RendersTo (sampleTemplate 1 "timeout" (.restartUnit "\x7b\x7bunit\x7d\x7d")) env := by
  have hok : ((buildCommand sample
      (buildProposal (sampleTemplate 1 "timeout" (.restartUnit "\x7b\x7bunit\x7d\x7d")) sampleEvent
        (BTreeMap.empty.insert "unit" "nginx.service") ⟨5⟩ noon)
      (sampleTemplate 1 "timeout" (.restartUnit "\x7b\x7bunit\x7d\x7d")) (7 : UInt8) .policyAuto 300
      ⟨noon, ⟨21⟩, ⟨22⟩⟩).any Except.isOk) = true := by decide +kernel
  obtain ⟨e, -, -, hbuild, -⟩ | henv | ⟨hpanic, -⟩ := validated_templates_render sample
    (sampleTemplate 1 "timeout" (.restartUnit "\x7b\x7bunit\x7d\x7d")) sampleEvent
    (BTreeMap.empty.insert "unit" "nginx.service") (by decide +kernel) (by decide +kernel) ⟨5⟩ noon
    (7 : UInt8) .policyAuto 300 ⟨noon, ⟨21⟩, ⟨22⟩⟩
  · rw [hbuild] at hok
    cases hok
  · exact henv
  · rw [hpanic] at hok
    cases hok

/-! ## Placeholders in commands -/

section

variable {P : Platform} {signer : P.SigningKey} {event : Event}

/-- A command for harmless parameter values is fully resolved. -/
theorem fullyResolved_of_harmless (hbuild : buildCommand P proposal t signer approval ttlSecs fresh =
      some (.ok env))
    (hvalues : ∀ name v, proposal.params.get name = some v → Harmless v.toList) :
    FullyResolved env := by
  intro cap hcap
  obtain ⟨raw, hrendered⟩ :=
    (renderedParts_of_builtFrom (buildCommand_builtFrom hbuild)).exists_rendered hcap
  exact hrendered.no_placeholders hvalues

/-- A template that writes half a pair and a closing pair of braces behind the value at a path. -/
def bracesTemplate (path : String) : Template where
  id := "braces"
  version := 1
  title := "Braces"
  riskTier := .safe
  match_ := ⟨.failedUnit, .empty⟩
  parameters := BTreeMap.empty.insert "p" ⟨.string, path⟩
  preconditions := []
  steps := [.restartUnit "\x7b\x7bp\x7d\x7d\x7bx\x7d\x7d"]
  verify := none
  rollback := .none

theorem loadDir_bracesTemplate (h : validateEventPath path = true) :
    TemplateRegistry.loadDir [⟨"braces.toml", true, .ok (bracesTemplate path)⟩] =
      .ok ⟨[bracesTemplate path]⟩ := by
  have hplaceholders : placeholdersInStr "\x7b\x7bp\x7d\x7d\x7bx\x7d\x7d" = ["p"] := by decide +kernel
  have hdeclares : (bracesTemplate path).checkPlaceholders
      (.restartUnit "\x7b\x7bp\x7d\x7d\x7bx\x7d\x7d") = .ok () := by
    simp [Template.checkPlaceholders, placeholdersInCapability, hplaceholders, bracesTemplate,
      BTreeMap.containsKey]
  have hvalid : (bracesTemplate path).validate = .ok () := by
    have hsteps : (bracesTemplate path).steps.forM (bracesTemplate path).checkPlaceholders = .ok () := by
      change ((bracesTemplate path).checkPlaceholders _ >>= fun _ => .ok ()) = _
      rw [hdeclares]
      rfl
    rw [Template.validate, hsteps]
    rfl
  have hpaths : validateTemplatePaths (bracesTemplate path) = .ok () := by
    have hentries : (bracesTemplate path).parameters.entries = [("p", ⟨.string, path⟩)] := rfl
    have hkeys : (bracesTemplate path).match_.conditions.keys = [] := rfl
    simp [validateTemplatePaths, hentries, hkeys, h]
  have hload : loadFile ⟨"braces.toml", true, .ok (bracesTemplate path)⟩ =
      .ok (some (bracesTemplate path)) := by
    simp [loadFile, hvalid, hpaths]
  rw [TemplateRegistry.loadDir, List.mapM_cons, hload]
  rfl

theorem resolveParams_bracesTemplate (h : eventField event path = some v) :
    resolveParams (bracesTemplate path) event = .ok (BTreeMap.empty.insert "p" v) := by
  have hparam : resolveParam event "p" ⟨.string, path⟩ = .ok v := by
    have hp : "p" ∉ k8sIdParamNames := by decide
    simp [resolveParam, h, hp]
  have hentries : (bracesTemplate path).parameters.entries = [("p", ⟨.string, path⟩)] := rfl
  rw [resolveParams, hentries, List.foldlM_cons, hparam]
  rfl

theorem resolve_bracesTemplate (v : String) :
    (Capability.restartUnit "\x7b\x7bp\x7d\x7d\x7bx\x7d\x7d").resolve (BTreeMap.empty.insert "p" v) =
      .ok (.restartUnit (String.ofList (v.toList ++ ['{', 'x', '}', '}']))) := by
  have htext : "\x7b\x7bp\x7d\x7d\x7bx\x7d\x7d".toList = openBraces ++ ('p' :: closeBraces ++ ['{', 'x', '}', '}']) := by
    decide
  have hstart := splitOnce_self openBraces ('p' :: closeBraces ++ ['{', 'x', '}', '}'])
  have hend : splitOnce closeBraces ('p' :: closeBraces ++ ['{', 'x', '}', '}']) =
    some (['p'], ['{', 'x', '}', '}']) := by decide
  have hname : (BTreeMap.empty.insert "p" v).get (String.ofList (trim ['p'])) = some v := by
    rw [show String.ofList (trim ['p']) = "p" by decide]
    simp
  have hrest : resolveChars (BTreeMap.empty.insert "p" v) ['{', 'x', '}', '}'] =
    .ok ['{', 'x', '}', '}'] := resolveChars_literal (by decide)
  rw [Capability.resolve, resolveStr, htext, resolveChars_placeholder hstart hend, hname, hrest]
  rfl

/-- The command of that template for an event whose value at the path is not harmless. -/
theorem exists_unresolved (signer : P.SigningKey) (event : Event) (path : String)
    (h : ¬Harmless v.toList) :
    ∃ env, buildCommand P (buildProposal (bracesTemplate path) event (BTreeMap.empty.insert "p" v) ⟨5⟩
        Platform.noon) (bracesTemplate path) signer .policyAuto 300 ⟨Platform.noon, ⟨21⟩, ⟨22⟩⟩ =
        some (.ok env) ∧ ¬FullyResolved env := by
  have hsteps : (bracesTemplate path).renderSteps (BTreeMap.empty.insert "p" v) =
      .ok [.restartUnit (String.ofList (v.toList ++ ['{', 'x', '}', '}']))] := by
    change List.mapM _ [Capability.restartUnit _] = _
    rw [List.mapM_cons, resolve_bracesTemplate]
    rfl
  have hexpires : expiresAt Platform.noon 300 ≠ none := by decide
  obtain ⟨e, hbuild, he⟩ | ⟨env, hbuild⟩ | ⟨-, hpanic⟩ := buildCommand_cases P
    (buildProposal (bracesTemplate path) event (BTreeMap.empty.insert "p" v) ⟨5⟩ Platform.noon)
    (bracesTemplate path) signer .policyAuto 300 ⟨Platform.noon, ⟨21⟩, ⟨22⟩⟩
  · rcases he with he | he | he
    · cases hsteps.symm.trans he
    · cases he
    · cases he
  · refine ⟨env, hbuild, fun hresolved => ?_⟩
    have henv := Except.ok.inj (hsteps.symm.trans (buildCommand_builtFrom hbuild).steps)
    have hstep := hresolved (.restartUnit (String.ofList (v.toList ++ ['{', 'x', '}', '}'])))
      (by simp [CommandEnvelope.capabilities, ← henv])
    rw [placeholdersInCapability, placeholdersInStr, String.toList_ofList] at hstep
    exact placeholders_of_not_harmless h hstep
  · exact absurd hpanic hexpires

end

/-- For an event, the commands of all accepted templates are fully resolved exactly if no text that
templates read from it has an opening pair of braces or ends in half of one. For one template it is
enough that the values of its parameters are so. -/
theorem commands_resolved_iff (P : Platform) (signer : P.SigningKey) (event : Event) :
    ((∀ entries reg t params id now approval ttlSecs fresh env,
      TemplateRegistry.loadDir entries = .ok reg → t ∈ reg.templates →
      resolveParams t event = .ok params →
      buildCommand P (buildProposal t event params id now) t signer approval ttlSecs fresh =
        some (.ok env) → FullyResolved env) ↔
      ∀ path v, eventField event path = some v → Harmless v.toList) ∧
    ∀ t params id now approval ttlSecs fresh env,
      (∀ name v, params.get name = some v → Harmless v.toList) →
      buildCommand P (buildProposal t event params id now) t signer approval ttlSecs fresh =
        some (.ok env) → FullyResolved env := by
  refine ⟨⟨fun h path v hv => ?_, ?_⟩, ?_⟩
  · by_contra hharm
    obtain ⟨env, hbuild, hnot⟩ := exists_unresolved signer event path hharm
    exact hnot (h _ _ _ _ _ _ _ _ _ _ (loadDir_bracesTemplate (validateEventPath_of_eventField hv))
      (List.mem_singleton_self _) (resolveParams_bracesTemplate hv) hbuild)
  · intro h entries reg t params id now approval ttlSecs fresh env _ _ hparams hbuild
    refine fullyResolved_of_harmless hbuild fun name v hv => ?_
    obtain ⟨path, hpath⟩ := (resolveParams_get hparams).2 name v hv
    exact h path v hpath
  · intro t params id now approval ttlSecs fresh env hvalues hbuild
    exact fullyResolved_of_harmless hbuild hvalues

namespace TemplateRegistry

open Platform

/-- An agent reports a failed unit under the name of a placeholder. -/
def sampleBraces : Event :=
  { sampleEvent with payload := .failedUnit ⟨"\x7b\x7bunit\x7d\x7d", "exit-code", [], .empty⟩ }

theorem placeholder_signed :
    let t := sampleTemplate 2 "exit-code" (.restartUnit "\x7b\x7bunit\x7d\x7d")
    let params := BTreeMap.empty.insert "unit" "\x7b\x7bunit\x7d\x7d"
    (loadDir [sampleFile "a.toml" t]).toOption.map TemplateRegistry.templates = some [t] ∧
      resolveParams t sampleBraces = .ok params ∧
      ∃ env, buildCommand sample (buildProposal t sampleBraces params ⟨5⟩ noon) t (7 : UInt8)
          .policyAuto 300 ⟨noon, ⟨21⟩, ⟨22⟩⟩ = some (.ok env) ∧ ¬FullyResolved env := by
  intro t params
  refine ⟨by decide +kernel, by decide +kernel, ?_⟩
  have hsteps : ((buildCommand sample (buildProposal t sampleBraces params ⟨5⟩ noon) t (7 : UInt8)
      .policyAuto 300 ⟨noon, ⟨21⟩, ⟨22⟩⟩).bind Except.toOption).map CommandEnvelope.steps =
        some [.restartUnit "\x7b\x7bunit\x7d\x7d"] := by decide +kernel
  obtain ⟨env, henv, hsteps⟩ := Option.map_eq_some_iff.mp hsteps
  obtain ⟨r, hbuild, henv⟩ := Option.bind_eq_some_iff.mp henv
  cases r with
  | error e => cases henv
  | ok env' =>
    cases henv
    refine ⟨env, hbuild, fun hresolved => ?_⟩
    have hstep := hresolved (.restartUnit "\x7b\x7bunit\x7d\x7d")
      (by simp [CommandEnvelope.capabilities, hsteps])
    exact absurd hstep (by decide +kernel)

end TemplateRegistry

end Ravn
