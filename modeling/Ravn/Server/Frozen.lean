import Ravn.Server.Provenance

/-! Frozen targets. A command whose rollback failed is reported as frozen, and upstream is to stop
acting on the target by itself. The result is recorded and nothing reads it again: what keeps a later
event of the target from being acted on are policy's other guardrails alone. -/

namespace Ravn

open Theory

variable {P : Platform}

/-! ## What a frozen target asks for -/

/-- A frozen result is recorded for a command of the agent and template. -/
def ControlPlane.Frozen (s : ControlPlane) (agent : AgentId) (templateId : String) : Prop :=
  ∃ r ∈ s.shared.store.rows, (r.result.any fun result => result.status = .frozen) = true ∧
    r.proposal.agentId = agent ∧ r.proposal.templateId = templateId

/-- The event that a step prepares. -/
def ControlPlane.preparing (s : ControlPlane) : ControlLabel → Option (Event × Draw)
  | .advance i d =>
    match s.tasks[i]? with
    | some (.prepare event) => some (event, d)
    | _ => none
  | _ => none

/-- At this step an event of the agent that matches the template becomes the proposal `id`. -/
def PreparesFor (cfg : AppConfig P) (agent : AgentId) (templateId : String) (id : Uuid)
    (s : ControlPlane) (l : ControlLabel) : Prop :=
  ((s.preparing l).any fun x => x.1.agentId = agent ∧ x.2.proposalId = id ∧
    ((prepareProposal cfg.templates x.1 x.2.proposalId x.2.createdAt).any fun y =>
      y.1.id = templateId) = true) = true

/-- The proposal on which a step records a human's decision. -/
def ControlPlane.deciding (s : ControlPlane) : ControlLabel → Option Uuid
  | .advance i _ =>
    match s.tasks[i]? with
    | some (.approveUpdate id _ _ _) | some (.rejectUpdate id _ _ _) => some id
    | _ => none
  | _ => none

/-- At this step a human decides on a proposal of the agent and template. -/
def HumanDecides (agent : AgentId) (templateId : String) (s : ControlPlane) (l : ControlLabel) :
    Prop :=
  ((s.deciding l).any fun id => s.shared.store.rows.any fun r =>
    r.proposal.id = id ∧ r.proposal.agentId = agent ∧ r.proposal.templateId = templateId) = true

/-- From `m` on, until a human decides, no event of a target that is frozen there leads to a command
of policy's own. -/
def LeavesFrozenAlone (cfg : AppConfig P) (m : ControlPlane) (labels : List ControlLabel)
    (s : ControlPlane) : Prop :=
  ∀ agent templateId, m.Frozen agent templateId →
    ¬Occurs (ControlPlane.step cfg) (HumanDecides agent templateId) m labels →
    ∀ id env, Occurs (ControlPlane.step cfg) (PreparesFor cfg agent templateId id) m labels →
      (id, env) ∈ s.shared.enqueued → env.approvalRef ≠ .policyAuto

/-! ## What holds policy back -/

/-- The guardrails, none of which knows of a frozen target. -/
def PolicyEngine.HoldsBack (eng : PolicyEngine) (hits : HitLog) (c : PolicyCall) : Prop :=
  eng.autoEnabled = false ∨ eng.policy.decide c.host c.tier ≠ .auto ∨ c.tier = .dangerous ∨
    ((eng.tripped hits c).all fun r => r.1) = true

theorem PolicyEngine.HoldsBack.consult_ne_auto {eng : PolicyEngine} (h : eng.HoldsBack hits c) :
    eng.consult hits c ≠ some (⟨.auto, false⟩, hits') := by
  intro hconsult
  obtain ⟨-, henabled, hdecide, htier⟩ := consult_auto hconsult rfl
  rcases h with h | h | h | h
  · simp [h] at henabled
  · exact h hdecide
  · exact htier h
  · obtain ⟨-, hne, -⟩ | ⟨-, -, tripped, htripped, hr⟩ := consult_cases hconsult
    · exact hne rfl
    · rw [htripped] at h
      obtain rfl : tripped = true := h
      cases hr

/-- If the step prepares an event of a target that is frozen in `m`, the guardrails hold policy
back. -/
def HeldBack (cfg : AppConfig P) (m s : ControlPlane) (l : ControlLabel) : Prop :=
  ∀ x ∈ s.preparing l, ∀ t ∈ cfg.templates.matchEvent x.1, m.Frozen x.1.agentId t.id →
    cfg.policy.HoldsBack s.shared.hits ⟨x.1.host, t.riskTier, t.id, x.2.now⟩

/-! ## Ids are drawn once -/

/-- At this step an event becomes the proposal `id`. -/
def Draws (cfg : AppConfig P) (id : Uuid) (s : ControlPlane) (l : ControlLabel) : Prop :=
  ∃ event d t p, s.preparing l = some (event, d) ∧ d.proposalId = id ∧
    prepareProposal cfg.templates event d.proposalId d.createdAt = some (t, p)

variable {cfg : AppConfig P}

theorem Task.drawn_subset {s s' : AppState} (h : Task.step cfg s task d = some (s', task')) :
    s.drawn ⊆ s'.drawn := by
  cases step_access h with
  | prepared event hfresh hprepare =>
    obtain ⟨rfl, -⟩ | ⟨hits, rfl, -⟩ := prepareStep_cases hprepare
    · exact List.Subset.refl _
    · exact List.subset_append_left ..
  | _ => exact List.Subset.refl _

theorem ControlPlane.drawn_subset {s s' : ControlPlane} (h : ControlPlane.step cfg s l = some s') :
    s.shared.drawn ⊆ s'.shared.drawn := by
  obtain ⟨request, rfl, rfl⟩ | ⟨agent, rfl, rfl⟩ | ⟨i, d, pre, task, post, shared, task', rfl,
    -, -, hadvance, rfl⟩ := Pool.step_cases h
  · exact List.Subset.refl _
  · exact List.Subset.refl _
  · exact Task.drawn_subset hadvance

theorem preparing_eq_some {s : ControlPlane} (h : s.preparing l = some (event, d)) :
    ∃ i, l = .advance i d ∧ s.tasks[i]? = some (.prepare event) := by
  unfold ControlPlane.preparing at h
  split at h
  · split at h
    · rename_i htask
      cases h
      exact ⟨_, rfl, htask⟩
    · cases h
  · cases h

/-- A step that draws an id takes one that is new, and it is drawn from then on. -/
theorem Draws.step {id : Uuid} {s s' : ControlPlane} (h : Draws cfg id s l)
    (hstep : ControlPlane.step cfg s l = some s') :
    id ∉ s.shared.drawn ∧ id ∈ s'.shared.drawn := by
  obtain ⟨event, d, t, p, hpreparing, rfl, hproposal⟩ := h
  obtain ⟨i, rfl, htask⟩ := preparing_eq_some hpreparing
  simp only [ControlPlane.step, Pool.step, htask, Option.bind_some, Task.step] at hstep
  split at hstep
  · cases hstep
  rename_i hfresh
  refine ⟨hfresh, ?_⟩
  cases hstep
  obtain ⟨-, params, -, rfl⟩ := prepareProposal_eq_some hproposal
  simp only [Task.prepareStep, hproposal]
  split <;> simp

theorem preparesFor_iff {id : Uuid} : PreparesFor cfg agent templateId id s l ↔
    ∃ event d t p, s.preparing l = some (event, d) ∧ event.agentId = agent ∧ d.proposalId = id ∧
      prepareProposal cfg.templates event d.proposalId d.createdAt = some (t, p) ∧
      t.id = templateId := by
  simp only [PreparesFor, Option.any_eq_true, decide_eq_true_eq]
  constructor
  · rintro ⟨⟨event, d⟩, hpreparing, hagent, hid, ⟨t, p⟩, hproposal, htemplate⟩
    exact ⟨event, d, t, p, hpreparing, hagent, hid, hproposal, htemplate⟩
  · rintro ⟨event, d, t, p, hpreparing, hagent, hid, hproposal, htemplate⟩
    exact ⟨(event, d), hpreparing, hagent, hid, (t, p), hproposal, htemplate⟩

theorem PreparesFor.draws {id : Uuid} (h : PreparesFor cfg agent templateId id s l) :
    Draws cfg id s l := by
  obtain ⟨event, d, t, p, hpreparing, -, hid, hproposal, -⟩ := preparesFor_iff.mp h
  exact ⟨event, d, t, p, hpreparing, hid, hproposal⟩

theorem DecidesAuto.draws (h : DecidesAuto cfg event t p s l) : Draws cfg p.id s l := by
  obtain ⟨i, d, rfl, htask, p₀, hits, hproposal, rfl, -⟩ := h
  obtain ⟨-, params, -, rfl⟩ := prepareProposal_eq_some hproposal
  refine ⟨event, d, t, _, ?_, ?_, hproposal⟩
  · simp [ControlPlane.preparing, htask]
  · simp

/-! ## Runs -/

/-- Policy does not decide `Auto` at a step that prepares an event of a frozen target, if the
guardrails hold it back. -/
theorem HeldBack.not_decidesAuto {id : Uuid} (h : HeldBack cfg m s l)
    (hfrozen : m.Frozen agent templateId) (hprepares : PreparesFor cfg agent templateId id s l) :
    ¬DecidesAuto cfg event t p s l := by
  rintro ⟨i, d, rfl, htask, p₀, hits, hproposal, -, hconsult⟩
  obtain ⟨event', d', t', p', hpreparing, rfl, -, hproposal', rfl⟩ := preparesFor_iff.mp hprepares
  obtain ⟨i', hl, htask'⟩ := preparing_eq_some hpreparing
  cases hl
  cases htask.symm.trans htask'
  cases hproposal.symm.trans hproposal'
  have hmatch := (prepareProposal_eq_some hproposal).1
  exact (h (event, d) hpreparing t hmatch hfrozen).consult_ne_auto hconsult

/-- As long as the guardrails hold policy back from every later event of a target that is frozen,
none of these events leads to a command of policy's own. -/
theorem frozen_left_alone (cfg : AppConfig P) (rows : Table) (labels labels' : List ControlLabel)
    (m s : ControlPlane) (hm : run (ControlPlane.step cfg) (.start rows) labels = some m)
    (hs : run (ControlPlane.step cfg) m labels' = some s)
    (hheld : Along (ControlPlane.step cfg) (HeldBack cfg m) m labels') :
    LeavesFrozenAlone cfg m labels' s := by
  intro agent templateId hfrozen _ id env hprepares henv hauto
  have hrun : run (ControlPlane.step cfg) (.start rows) (labels ++ labels') = some s :=
    run_append_eq_some.mpr ⟨m, hm, hs⟩
  have hkeep : ∀ {s l s'}, id ∈ s.shared.drawn → ControlPlane.step cfg s l = some s' →
      id ∈ s'.shared.drawn := fun hs h => ControlPlane.drawn_subset h hs
  have honce : ∀ {s l s'}, id ∈ s.shared.drawn → Draws cfg id s l →
      ControlPlane.step cfg s l ≠ some s' := fun hs hd h => (hd.step h).1 hs
  have hdone : ∀ {s l s'}, Draws cfg id s l → ControlPlane.step cfg s l = some s' →
      id ∈ s'.shared.drawn := fun hd h => (hd.step h).2
  rcases (ControlPlane.accounted_of_run hrun).enqueued id env henv with hread | hissued
  · obtain ⟨m', l, hread⟩ := hread.exists
    obtain ⟨user, approvedAt, hhuman⟩ := hread.approvalRef
    cases hauto.symm.trans hhuman
  obtain ⟨event, t, p, fresh, rfl, hdecides, -⟩ := hissued
  -- The id was drawn once, so the decision is that of the event that came later.
  rcases occurs_append.mp hdecides with hbefore | ⟨m', hm', hafter⟩
  · have hdrawn := hbefore.done hkeep (fun h => hdone h.draws) hm
    exact not_occurs_of_done hkeep (fun hs h => honce hs h.draws) hs hdrawn hprepares
  · cases hm.symm.trans hm'
    have hmeet := Occurs.meet hkeep honce PreparesFor.draws DecidesAuto.draws hdone hs hprepares
      hafter
    obtain ⟨m'', l, hheld, hprepares, hdecides⟩ := (hheld.occurs hmeet).exists
    exact hheld.not_decidesAuto hfrozen hprepares hdecides

/-! ## A small run -/

instance (s : ControlPlane) (agent : AgentId) (templateId : String) :
    Decidable (s.Frozen agent templateId) :=
  inferInstanceAs (Decidable (∃ r ∈ s.shared.store.rows, _))

instance (cfg : AppConfig P) (agent : AgentId) (templateId : String) (id : Uuid) (s : ControlPlane)
    (l : ControlLabel) : Decidable (PreparesFor cfg agent templateId id s l) :=
  inferInstanceAs (Decidable (_ = true))

instance (agent : AgentId) (templateId : String) (s : ControlPlane) (l : ControlLabel) :
    Decidable (HumanDecides agent templateId s l) :=
  inferInstanceAs (Decidable (_ = true))

instance (eng : PolicyEngine) (hits : HitLog) (c : PolicyCall) : Decidable (eng.HoldsBack hits c) :=
  inferInstanceAs (Decidable (_ ∨ _ ∨ _ ∨ _))

instance (cfg : AppConfig P) (m s : ControlPlane) (l : ControlLabel) :
    Decidable (HeldBack cfg m s l) :=
  inferInstanceAs (Decidable (∀ x ∈ s.preparing l, _))

namespace ControlPlane

/-- Policy acts on an event, and the command is reported as frozen. -/
def sampleFreeze : List ControlLabel :=
  [.spawn (.ingest TemplateRegistry.sampleEvent), .advance 0 (sampleDraw ⟨31⟩),
    .advance 0 (sampleDraw ⟨32⟩), .advance 0 (sampleDraw ⟨33⟩), .advance 0 (sampleDraw ⟨34⟩),
    .advance 0 (sampleDraw ⟨35⟩),
    .spawn (.postResult ⟨⟨32⟩, .frozen, none, none, Platform.fivePastNoon⟩),
    .advance 1 (sampleDraw ⟨36⟩), .advance 1 (sampleDraw ⟨37⟩)]

/-- The fault occurs again. -/
def sampleRecurrence : List ControlLabel :=
  [.spawn (.ingest { TemplateRegistry.sampleEvent with id := ⟨12⟩ }), .advance 2 (sampleDraw ⟨41⟩),
    .advance 2 (sampleDraw ⟨42⟩), .advance 2 (sampleDraw ⟨43⟩), .advance 2 (sampleDraw ⟨44⟩),
    .advance 2 (sampleDraw ⟨45⟩)]

/-- Policy acts on a frozen target again, and no human has decided anything. -/
theorem frozen_target_acted_on :
    ∃ m s, run (step sampleConfig) (start []) sampleFreeze = some m ∧
      run (step sampleConfig) m sampleRecurrence = some s ∧
      ¬LeavesFrozenAlone sampleConfig m sampleRecurrence s := by
  have hfacts : ((run (step sampleConfig) (start []) sampleFreeze).bind fun m =>
      (run (step sampleConfig) m sampleRecurrence).map fun s =>
        (decide (m.Frozen ⟨⟨2⟩⟩ "failed-unit"),
          decide (Occurs (step sampleConfig) (HumanDecides ⟨⟨2⟩⟩ "failed-unit") m sampleRecurrence),
          decide (Occurs (step sampleConfig) (PreparesFor sampleConfig ⟨⟨2⟩⟩ "failed-unit" ⟨41⟩) m
            sampleRecurrence),
          s.shared.enqueued.any fun e => e.1 = ⟨41⟩ ∧ e.2.approvalRef = .policyAuto)) =
      some (true, false, true, true) := by
    decide +kernel
  obtain ⟨m, hm, hfacts⟩ := Option.bind_eq_some_iff.mp hfacts
  obtain ⟨s, hs, hfacts⟩ := Option.map_eq_some_iff.mp hfacts
  simp only [Prod.mk.injEq, decide_eq_true_eq, decide_eq_false_iff_not, List.any_eq_true] at hfacts
  obtain ⟨hfrozen, hdecides, hprepares, ⟨id, env⟩, henv, rfl, hauto⟩ := hfacts
  refine ⟨m, s, hm, hs, fun h => ?_⟩
  exact h _ _ hfrozen hdecides ⟨41⟩ env hprepares henv hauto

/-- One automatic execution per window and no more. -/
def sampleStrict : AppConfig Platform.sample :=
  { sampleConfig with policy := { sampleConfig.policy with maxAuto := 1 } }

/-- The breaker happens to hold policy back. -/
theorem frozen_left_alone_sample :
    ∃ m s, run (step sampleStrict) (start []) sampleFreeze = some m ∧
      m.Frozen ⟨⟨2⟩⟩ "failed-unit" ∧
      run (step sampleStrict) m (sampleRecurrence.take 4) = some s ∧
      LeavesFrozenAlone sampleStrict m (sampleRecurrence.take 4) s := by
  have hfacts : ((run (step sampleStrict) (start []) sampleFreeze).bind fun m =>
      (run (step sampleStrict) m (sampleRecurrence.take 4)).map fun _ =>
        (decide (m.Frozen ⟨⟨2⟩⟩ "failed-unit"),
          decide (Along (step sampleStrict) (HeldBack sampleStrict m) m
            (sampleRecurrence.take 4)))) = some (true, true) := by
    decide +kernel
  obtain ⟨m, hm, hfacts⟩ := Option.bind_eq_some_iff.mp hfacts
  obtain ⟨s, hs, hfacts⟩ := Option.map_eq_some_iff.mp hfacts
  simp only [Prod.mk.injEq, decide_eq_true_eq] at hfacts
  exact ⟨m, s, hm, hfacts.1, hs, frozen_left_alone sampleStrict [] sampleFreeze _ m s hm hs hfacts.2⟩

end ControlPlane

end Ravn
