import Ravn.Server.Templates

/-! What was approved against what is signed. Preparing selects a template by matching; approving looks
one up again by id, in whatever registry is loaded by then. -/

namespace Ravn

open Theory

/-- A proposal as `prepare_inner` records it: the template that `match_event` selects, with the
parameters that resolve for it. -/
def prepareProposal (reg : TemplateRegistry) (event : Event) (id : Uuid) (now : DateTime) :
    Option (Template × RemediationProposal) :=
  (reg.matchEvent event).bind fun t =>
    match resolveParams t event with
    | .error _ => none
    | .ok params => some (t, buildProposal t event params id now)

/-- The command that `approve_remediation` signs for a pending proposal, if it signs one. -/
def approveProposal (P : Platform) (reg : TemplateRegistry) (signer : P.SigningKey)
    (approval : ApprovalRef) (ttlSecs : Int) (proposal : RemediationProposal) (fresh : Fresh) :
    Option CommandEnvelope :=
  (reg.get proposal.templateId).bind fun t =>
    match buildCommand P proposal t signer approval ttlSecs fresh with
    | some (.ok env) => some env
    | _ => none

/-- The envelope has the proposal's version and tier, and is the resolution of the selected template
under the proposal's parameters. -/
structure SignedAsApproved (selected : Template) (proposal : RemediationProposal)
    (env : CommandEnvelope) : Prop where
  templateVersion : env.templateVersion = proposal.templateVersion
  riskTier : env.riskTier = proposal.riskTier
  preconditions : selected.renderPreconditions proposal.params = .ok env.preconditions
  steps : selected.renderSteps proposal.params = .ok env.steps
  verify : selected.renderVerify proposal.params = .ok env.verify
  rollback : env.rollback = selected.rollback

/-- Two templates that differ only in what a command does not carry, as far as these parameters
show. -/
structure SameCommand (params : BTreeMap String String) (t t' : Template) : Prop where
  version : t'.version = t.version
  riskTier : t'.riskTier = t.riskTier
  preconditions : t'.renderPreconditions params = t.renderPreconditions params
  steps : t'.renderSteps params = t.renderSteps params
  verify : t'.renderVerify params = t.renderVerify params
  rollback : t'.rollback = t.rollback

theorem prepareProposal_eq_some {id : Uuid}
    (h : prepareProposal reg event id now = some (selected, proposal)) :
    reg.matchEvent event = some selected ∧
      ∃ params, resolveParams selected event = .ok params ∧
        proposal = buildProposal selected event params id now := by
  obtain ⟨t, ht, hbuild⟩ := Option.bind_eq_some_iff.mp h
  split at hbuild
  · cases hbuild
  · rename_i params hparams
    cases hbuild
    exact ⟨ht, params, hparams, rfl⟩

theorem approveProposal_eq_some {P : Platform} {signer : P.SigningKey}
    (h : approveProposal P reg signer approval ttlSecs proposal fresh = some env) :
    ∃ t, reg.get proposal.templateId = some t ∧ BuiltFrom proposal t approval fresh env := by
  obtain ⟨t, ht, hbuild⟩ := Option.bind_eq_some_iff.mp h
  split at hbuild
  · rename_i env' henv
    cases hbuild
    exact ⟨t, ht, buildCommand_builtFrom henv⟩
  · cases hbuild

/-- An envelope that is signed for a proposal is what was approved exactly when the template that
the approving registry finds under the proposal's id gives the same command as the selected one. -/
theorem signed_as_approved_iff (P : Platform) (reg reg' : TemplateRegistry) (event : Event)
    (id : Uuid) (now : DateTime) (signer : P.SigningKey) (approval : ApprovalRef) (ttlSecs : Int)
    (fresh : Fresh) (selected : Template) (proposal : RemediationProposal) (env : CommandEnvelope)
    (hprepare : prepareProposal reg event id now = some (selected, proposal))
    (happrove : approveProposal P reg' signer approval ttlSecs proposal fresh = some env) :
    SignedAsApproved selected proposal env ↔
      ∀ t, reg'.get selected.id = some t → SameCommand proposal.params selected t := by
  obtain ⟨-, params, -, rfl⟩ := prepareProposal_eq_some hprepare
  obtain ⟨t, ht, hbuilt⟩ := approveProposal_eq_some happrove
  have hget : reg'.get selected.id = some t := ht
  constructor
  · intro h t' ht'
    cases hget.symm.trans ht'
    refine ⟨?_, ?_, ?_, ?_, ?_, ?_⟩
    · exact hbuilt.templateVersion.symm.trans h.templateVersion
    · exact hbuilt.riskTier.symm.trans h.riskTier
    · exact hbuilt.preconditions.trans h.preconditions.symm
    · exact hbuilt.steps.trans h.steps.symm
    · exact hbuilt.verify.trans h.verify.symm
    · exact hbuilt.rollback.symm.trans h.rollback
  · intro h
    obtain ⟨hversion, htier, hpre, hsteps, hverify, hrollback⟩ := h t hget
    refine ⟨?_, ?_, ?_, ?_, ?_, ?_⟩
    · exact hbuilt.templateVersion.trans hversion
    · exact hbuilt.riskTier.trans htier
    · exact hpre.symm.trans hbuilt.preconditions
    · exact hsteps.symm.trans hbuilt.steps
    · exact hverify.symm.trans hbuilt.verify
    · exact hbuilt.rollback.trans hrollback

/-- In one registry whose ids are distinct, lookup by id finds the selected template itself. -/
theorem get_eq_of_matchEvent {reg : TemplateRegistry}
    (hids : reg.templates.Pairwise fun a b => a.id ≠ b.id)
    (h : reg.matchEvent event = some selected) : reg.get selected.id = some selected := by
  have hmem := List.mem_of_find?_eq_some h
  unfold TemplateRegistry.get
  generalize reg.templates = ts at hids hmem
  induction ts with
  | nil => cases hmem
  | cons t ts ih =>
    obtain ⟨hne, hrest⟩ := List.pairwise_cons.mp hids
    rcases List.mem_cons.mp hmem with rfl | hmem
    · simp
    · rw [List.find?_cons_of_neg (by simpa using hne selected hmem)]
      exact ih hrest hmem

/-! ## Two templates under one id -/

namespace TemplateRegistry

open Platform

/-- A template for failed units, as one of several files may declare it. -/
def sampleTemplate (version : UInt32) (result : String) (step : Capability) : Template where
  id := "failed-unit"
  version := version
  title := "Restart the failed unit"
  riskTier := .safe
  match_ := ⟨.failedUnit, BTreeMap.empty.insert "payload.result" result⟩
  parameters := BTreeMap.empty.insert "unit" ⟨.string, "payload.unit"⟩
  preconditions := []
  steps := [step]
  verify := none
  rollback := .none

def sampleFile (path : String) (t : Template) : TemplateFile := ⟨path, true, .ok t⟩

def sampleEvent : Event where
  id := ⟨11⟩
  occurredAt := noon
  observedAt := noon
  agentId := ⟨⟨2⟩⟩
  host := "web-1"
  severity := .error
  title := "nginx.service failed"
  categoryHints := []
  payload := .failedUnit ⟨"nginx.service", "exit-code", [], .empty⟩

/-- The first file is for timeouts and restarts the unit, the second for exit codes and resets it. -/
def sampleDir : List TemplateFile :=
  [sampleFile "a.toml" (sampleTemplate 1 "timeout" (.restartUnit "\x7b\x7bunit\x7d\x7d")),
    sampleFile "b.toml" (sampleTemplate 2 "exit-code" (.resetFailed "\x7b\x7b unit \x7d\x7d"))]

/-- The admin approves at noon. -/
def sampleApprove (reg : TemplateRegistry) (proposal : RemediationProposal) :
    Option CommandEnvelope :=
  approveProposal sample reg (7 : UInt8) (.human "admin" noon) 300 proposal ⟨noon, ⟨21⟩, ⟨22⟩⟩

/-- Loading, preparing and approving in one registry, with the two versions this ends in. -/
def sampleVersions (entries : List TemplateFile) : Option (UInt32 × UInt32) :=
  (loadDir entries).toOption.bind fun reg =>
    (prepareProposal reg sampleEvent ⟨5⟩ noon).bind fun x =>
      (sampleApprove reg x.2).map fun env => (x.2.templateVersion, env.templateVersion)

theorem exists_signed {entries : List TemplateFile} (h : sampleVersions entries = some versions) :
    ∃ reg selected proposal env, loadDir entries = .ok reg ∧
      prepareProposal reg sampleEvent ⟨5⟩ noon = some (selected, proposal) ∧
      sampleApprove reg proposal = some env ∧
      (proposal.templateVersion, env.templateVersion) = versions := by
  obtain ⟨reg, hreg, h⟩ := Option.bind_eq_some_iff.mp h
  obtain ⟨⟨selected, proposal⟩, hprepare, h⟩ := Option.bind_eq_some_iff.mp h
  obtain ⟨env, henv, hversions⟩ := Option.map_eq_some_iff.mp h
  refine ⟨reg, selected, proposal, env, ?_, hprepare, henv, hversions⟩
  cases hload : loadDir entries with
  | error e => simp [hload, Except.toOption] at hreg
  | ok reg' =>
    rw [hload] at hreg
    cases hreg
    rfl

end TemplateRegistry

open TemplateRegistry in
theorem signed_as_approved_iff_sample :
    ∃ reg selected proposal env, loadDir (sampleDir.drop 1) = .ok reg ∧
      prepareProposal reg sampleEvent ⟨5⟩ Platform.noon = some (selected, proposal) ∧
      sampleApprove reg proposal = some env ∧ SignedAsApproved selected proposal env := by
  have hversions : sampleVersions (sampleDir.drop 1) = some (2, 2) := by decide +kernel
  have hids : ∀ reg ∈ (loadDir (sampleDir.drop 1)).toOption,
      reg.templates.Pairwise fun a b => a.id ≠ b.id := by decide +kernel
  obtain ⟨reg, selected, proposal, env, hload, hprepare, happrove, -⟩ := exists_signed hversions
  refine ⟨reg, selected, proposal, env, hload, hprepare, happrove, ?_⟩
  apply (signed_as_approved_iff Platform.sample reg reg sampleEvent ⟨5⟩ Platform.noon _ _ _ _
    selected proposal env hprepare happrove).mpr
  intro t ht
  have hself := get_eq_of_matchEvent (hids reg (by rw [hload]; rfl))
    (prepareProposal_eq_some hprepare).1
  cases hself.symm.trans ht
  exact ⟨rfl, rfl, rfl, rfl, rfl, rfl⟩

open TemplateRegistry in
/-- With two files of one id, the template that was matched and shown to the approver is not the one
that is signed. -/
theorem another_template_signed :
    ∃ reg selected proposal env, loadDir sampleDir = .ok reg ∧
      prepareProposal reg sampleEvent ⟨5⟩ Platform.noon = some (selected, proposal) ∧
      sampleApprove reg proposal = some env ∧ ¬SignedAsApproved selected proposal env := by
  have hversions : sampleVersions sampleDir = some (2, 1) := by decide +kernel
  obtain ⟨reg, selected, proposal, env, hload, hprepare, happrove, hv⟩ := exists_signed hversions
  refine ⟨reg, selected, proposal, env, hload, hprepare, happrove, ?_⟩
  intro h
  have hne := h.templateVersion
  rw [(Prod.mk.inj hv).1, (Prod.mk.inj hv).2] at hne
  exact absurd hne (by decide)

end Ravn
