import Ravn.Server.ControlPlane

/-! Where commands come from. Every command that is enqueued goes back to a step of the run at which an
approve request read its proposal as pending, or at which policy let a prepared event run by itself;
an event that is denied ends there. -/

namespace Ravn

open Theory

variable {P : Platform}

/-! ## The two sources -/

/-- At this step an approve request reads the proposal as pending and builds the command from it. -/
def ReadsPending (cfg : AppConfig P) (id : Uuid) (env : CommandEnvelope) (s : ControlPlane)
    (l : ControlLabel) : Prop :=
  ∃ i d role p, l = .advance i d ∧ s.tasks[i]? = some (.approveSelect id role) ∧
    s.shared.store.rows.pendingProposal id = some p ∧
    approveProposal P cfg.templates cfg.signer (.human role.user d.now) cfg.ttlSecs p d.fresh =
      some env

/-- An access that prepares an event decides to let the proposal run by itself. -/
def PreparesAuto (cfg : AppConfig P) (event : Event) (t : Template) (p : RemediationProposal)
    (s : AppState) (d : Draw) : Prop :=
  ∃ p₀ hits, prepareProposal cfg.templates event d.proposalId d.createdAt = some (t, p₀) ∧
    p = p₀.withNote d.note ∧
    cfg.policy.consult s.hits ⟨event.host, t.riskTier, t.id, d.now⟩ = some (⟨.auto, false⟩, hits)

/-- At this step an event is prepared, and policy decides `Auto`. -/
def DecidesAuto (cfg : AppConfig P) (event : Event) (t : Template) (p : RemediationProposal)
    (s : ControlPlane) (l : ControlLabel) : Prop :=
  ∃ i d, l = .advance i d ∧ s.tasks[i]? = some (.prepare event) ∧
    PreparesAuto cfg event t p s.shared d

theorem ReadsPending.approvalRef {cfg : AppConfig P} {id : Uuid} (h : ReadsPending cfg id env s l) :
    ∃ user approvedAt, env.approvalRef = .human user approvedAt := by
  obtain ⟨i, d, role, p, -, -, -, hbuild⟩ := h
  obtain ⟨t, -, hbuilt⟩ := approveProposal_eq_some hbuild
  exact ⟨_, _, hbuilt.approvalRef⟩

theorem DecidesAuto.policy {cfg : AppConfig P} (h : DecidesAuto cfg event t p s l) :
    cfg.policy.autoEnabled ∧ cfg.policy.policy.decide event.host t.riskTier = .auto ∧
      t.riskTier ≠ .dangerous := by
  obtain ⟨i, d, -, -, p₀, hits, -, -, hconsult⟩ := h
  exact (PolicyEngine.consult_auto hconsult rfl).2

/-- What accounts for a command before an approve request enqueues it, for a proposal that policy
lets run by itself, and for the command that is built for one. -/
structure Sources where
  approved : Uuid → CommandEnvelope → Prop
  prepared : Template → RemediationProposal → Prop
  automatic : Uuid → CommandEnvelope → Prop

/-- Whatever one account holds, the other does. -/
structure Sources.Le (S S' : Sources) : Prop where
  approved : ∀ id env, S.approved id env → S'.approved id env
  prepared : ∀ t p, S.prepared t p → S'.prepared t p
  automatic : ∀ id env, S.automatic id env → S'.automatic id env

namespace Task

variable {cfg : AppConfig P} {s s' : AppState} {task task' : Task} {d : Draw}

/-- What the handler carries is accounted for. -/
def Sourced (S : Sources) : Task → Prop
  | approveEnqueue id _ env => S.approved id env
  | prepareRecord t p _ _ => S.prepared t p
  | autoCheck p env _ | autoInsert p env _ => S.automatic p.id env
  | autoEnqueue id env => S.automatic id env
  | _ => True

theorem Sourced.mono {S S' : Sources} (h : task.Sourced S) (hle : S.Le S') : task.Sourced S' := by
  cases task with
  | approveEnqueue => exact hle.approved _ _ h
  | prepareRecord => exact hle.prepared _ _ h
  | autoCheck | autoInsert | autoEnqueue => exact hle.automatic _ _ h
  | _ => trivial

/-- An access enqueues nothing, or one command that is accounted for. -/
inductive Issues (S : Sources) (s s' : AppState) : Prop
  | none (henqueued : s'.enqueued = s.enqueued) (hqueue : s'.queue.pending = s.queue.pending)
  | one (id : Uuid) (env : CommandEnvelope) (h : S.approved id env ∨ S.automatic id env)
      (henqueued : s'.enqueued = s.enqueued ++ [(id, env)])
      (hqueue : s'.queue = s.queue.enqueue env)

/-- What the accesses of this handler may take up is accounted for. -/
structure Accounts (cfg : AppConfig P) (S : Sources) (s : AppState) (task : Task) (d : Draw) :
    Prop where
  approved : ∀ id role p env, task = .approveSelect id role →
    s.store.rows.pendingProposal id = some p →
    approveProposal P cfg.templates cfg.signer (.human role.user d.now) cfg.ttlSecs p d.fresh =
      some env → S.approved id env
  prepared : ∀ event t p, task = .prepare event → PreparesAuto cfg event t p s d → S.prepared t p
  automatic : ∀ t p env, S.prepared t p →
    buildCommand P p t cfg.signer .policyAuto cfg.ttlSecs d.fresh = some (.ok env) →
      S.automatic p.id env

theorem prepareStep_sourced (h : prepareStep cfg s event d = (s', task')) :
    s'.enqueued = s.enqueued ∧ s'.queue = s.queue ∧ s'.store = s.store ∧
      (task' = .finished ∨ (∃ p sig, task' = .insertCheck p sig) ∨
        ∃ t p sig call, task' = .prepareRecord t p sig call ∧ PreparesAuto cfg event t p s d) := by
  unfold prepareStep at h
  split at h
  · cases h
    exact ⟨rfl, rfl, rfl, .inl rfl⟩
  rename_i t p hproposal
  dsimp only at h
  split at h
  · cases h
    exact ⟨rfl, rfl, rfl, .inl rfl⟩
  rename_i r hits hconsult
  cases h
  refine ⟨rfl, rfl, rfl, ?_⟩
  split
  · exact .inl rfl
  · exact .inr (.inl ⟨_, _, rfl⟩)
  · rename_i hauto
    obtain ⟨rfl, -⟩ := PolicyEngine.consult_auto hconsult hauto
    exact .inr (.inr ⟨t, _, _, _, rfl, p, hits, hproposal, rfl, hconsult⟩)

theorem step_sourced {S : Sources} (h : step cfg s task d = some (s', task'))
    (hsourced : task.Sourced S) (hnew : Accounts cfg S s task d) :
    task'.Sourced S ∧ Issues S s s' := by
  cases step_access h with
  | approveSelected id role p env hp henv =>
    exact ⟨hnew.approved id role p env rfl hp henv, .none rfl rfl⟩
  | approveEnqueued id role env => exact ⟨trivial, .one id env (.inl hsourced) rfl rfl⟩
  | approveUpdated id «by» env key hok =>
    refine ⟨?_, .none rfl rfl⟩
    unfold afterApprove
    split <;> trivial
  | rejectUpdated id role «at» key hok =>
    refine ⟨?_, .none rfl rfl⟩
    unfold afterReject
    split <;> trivial
  | prepared event hfresh hprepare =>
    obtain ⟨henqueued, hqueue, -, rfl | ⟨p, sig, rfl⟩ | ⟨t, p, sig, call, rfl, hauto⟩⟩ :=
      prepareStep_sourced hprepare
    · exact ⟨trivial, .none henqueued (congrArg _ hqueue)⟩
    · exact ⟨trivial, .none henqueued (congrArg _ hqueue)⟩
    · exact ⟨hnew.prepared event t p rfl hauto, .none henqueued (congrArg _ hqueue)⟩
  | recorded t p sig call env henv => exact ⟨hnew.automatic t p env hsourced henv, .none rfl rfl⟩
  | autoFree | autoInserted => exact ⟨hsourced, .none rfl rfl⟩
  | autoEnqueued id env => exact ⟨trivial, .one id env (.inr hsourced) rfl rfl⟩
  | _ => exact ⟨trivial, .none rfl rfl⟩

end Task

/-! ## Over a run -/

namespace ControlPlane

/-- Everything that handlers carry and everything that was enqueued is accounted for, and nothing
else is in the queue. -/
structure Accounted (S : Sources) (s : ControlPlane) : Prop where
  tasks : ∀ task ∈ s.tasks, task.Sourced S
  enqueued : ∀ id env, (id, env) ∈ s.shared.enqueued → S.approved id env ∨ S.automatic id env
  queued : ∀ a, ∀ env ∈ s.shared.queue.pending a, ∃ id, (id, env) ∈ s.shared.enqueued

variable {cfg : AppConfig P} {S S' : Sources} {s s' : ControlPlane}

theorem Accounted.mono (h : Accounted S s) (hle : S.Le S') : Accounted S' s where
  tasks task htask := (h.tasks task htask).mono hle
  enqueued id env he := (h.enqueued id env he).imp (hle.approved id env) (hle.automatic id env)
  queued := h.queued

theorem Accounted.start (S : Sources) (rows : Table) : Accounted S (start rows) where
  tasks _ h := nomatch h
  enqueued _ _ h := nomatch h
  queued _ _ h := nomatch h

theorem Accounted.pull (h : Accounted S s) (agent : Uuid) :
    Accounted S ⟨s.shared.pull agent, s.tasks⟩ where
  tasks := h.tasks
  enqueued := h.enqueued
  queued a env henv := by
    simp only [AppState.pull, CommandQueue.takeFor] at henv
    split at henv
    · cases henv
    · exact h.queued a env henv

theorem Accounted.spawn (h : Accounted S s) (request : Request) :
    Accounted S ⟨s.shared, s.tasks ++ [request.start]⟩ where
  tasks task htask := by
    rcases List.mem_append.mp htask with htask | htask
    · exact h.tasks task htask
    · cases List.mem_singleton.mp htask
      cases request <;> trivial
  enqueued := h.enqueued
  queued := h.queued

theorem Accounted.step (h : Accounted S s) (hstep : step cfg s l = some s')
    (hnew : ∀ i d task, l = .advance i d → s.tasks[i]? = some task →
      Task.Accounts cfg S s.shared task d) : Accounted S s' := by
  obtain ⟨request, rfl, rfl⟩ | ⟨agent, rfl, rfl⟩ | ⟨i, d, pre, task, post, shared, task', rfl,
    htask, htasks, hadvance, rfl⟩ := Pool.step_cases hstep
  · exact h.spawn request
  · exact h.pull agent
  have hmem : task ∈ s.tasks := by
    rw [htasks]
    exact List.mem_append_right _ List.mem_cons_self
  obtain ⟨hsourced, hissues⟩ :=
    Task.step_sourced hadvance (h.tasks task hmem) (hnew i d task rfl htask)
  have htasks' : ∀ u ∈ pre ++ task' :: post, u.Sourced S := by
    intro u hu
    have hu : u = task' ∨ u ∈ pre ++ task :: post := Pool.mem_replaced hu
    rcases hu with rfl | hu
    · exact hsourced
    · exact h.tasks u (htasks ▸ hu)
  cases hissues with
  | none henqueued hqueue =>
    refine ⟨htasks', ?_, ?_⟩
    · rw [henqueued]
      exact h.enqueued
    · rw [henqueued, hqueue]
      exact h.queued
  | one id env hsource henqueued hqueue =>
    refine ⟨htasks', ?_, ?_⟩
    · intro id' env' he
      rw [henqueued] at he
      rcases List.mem_append.mp he with he | he
      · exact h.enqueued id' env' he
      · cases List.mem_singleton.mp he
        exact hsource
    · intro a e he
      rw [henqueued]
      rw [hqueue, CommandQueue.enqueue] at he
      dsimp only at he
      split at he
      · rcases List.mem_append.mp he with he | he
        · obtain ⟨id', hid'⟩ := h.queued a e he
          exact ⟨id', List.mem_append_left _ hid'⟩
        · cases List.mem_singleton.mp he
          exact ⟨id, List.mem_append_right _ List.mem_cons_self⟩
      · obtain ⟨id', hid'⟩ := h.queued a e he
        exact ⟨id', List.mem_append_left _ hid'⟩

/-- The steps of a run that account for what it enqueues. -/
def sources (cfg : AppConfig P) (s₀ : ControlPlane) (labels : List ControlLabel) : Sources where
  approved id env := Occurs (step cfg) (ReadsPending cfg id env) s₀ labels
  prepared t p := ∃ event, Occurs (step cfg) (DecidesAuto cfg event t p) s₀ labels
  automatic id env := ∃ event t p fresh, p.id = id ∧
    Occurs (step cfg) (DecidesAuto cfg event t p) s₀ labels ∧
    buildCommand P p t cfg.signer .policyAuto cfg.ttlSecs fresh = some (.ok env)

theorem sources_snoc (cfg : AppConfig P) (s₀ : ControlPlane) (labels : List ControlLabel)
    (l : ControlLabel) : (sources cfg s₀ labels).Le (sources cfg s₀ (labels ++ [l])) where
  approved id env h := h.snoc l
  prepared t p h := by
    obtain ⟨event, h⟩ := h
    exact ⟨event, h.snoc l⟩
  automatic id env h := by
    obtain ⟨event, t, p, fresh, hid, h, hbuild⟩ := h
    exact ⟨event, t, p, fresh, hid, h.snoc l, hbuild⟩

/-- Every run accounts for what it enqueues by its own steps. -/
theorem accounted_of_run {rows : Table} (hrun : run (step cfg) (start rows) labels = some s) :
    Accounted (sources cfg (start rows) labels) s := by
  refine run_history (I := fun labels s => Accounted (sources cfg (start rows) labels) s)
    ?_ hrun (.start _ rows)
  intro labels m l m' hm h hl
  refine (h.mono (sources_snoc cfg _ labels l)).step hl ?_
  rintro i d task rfl htask
  refine ⟨?_, ?_, ?_⟩
  · rintro id role p env rfl hp hbuild
    exact .last hm ⟨i, d, role, p, rfl, htask, hp, hbuild⟩
  · rintro event t p rfl hauto
    exact ⟨event, .last hm ⟨i, d, rfl, htask, hauto⟩⟩
  · rintro t p env ⟨event, hevent⟩ hbuild
    exact ⟨event, t, p, d.fresh, rfl, hevent, hbuild⟩

/-! ## Default deny -/

/-- What keeps an event from becoming a proposal: no template, no parameters, or policy. -/
inductive Denied (cfg : AppConfig P) (s : AppState) (event : Event) (now : DateTime) : Prop
  | noTemplate (h : cfg.templates.matchEvent event = none)
  | unresolved (h : cfg.templates.matchEvent event = some t) (he : resolveParams t event = .error e)
  | forbidden (h : cfg.templates.matchEvent event = some t)
      (he : cfg.policy.evaluate s.hits ⟨event.host, t.riskTier, t.id, now⟩ = some (r, hits))
      (hr : r.decision = .forbid)

theorem prepareStep_of_denied {s : AppState} (h : Denied cfg s event d.now) :
    (Task.prepareStep cfg s event d).1.queue = s.queue ∧
      (Task.prepareStep cfg s event d).1.store = s.store ∧
      (Task.prepareStep cfg s event d).2 = .finished := by
  unfold Task.prepareStep prepareProposal
  cases h with
  | noTemplate h => simp [h]
  | unresolved h he => simp [h, he]
  | forbidden h he hr =>
    rename_i t r hits
    rw [h, Option.bind_some]
    cases resolveParams t event with
    | error e => exact ⟨rfl, rfl, rfl⟩
    | ok params =>
      -- The answer is final at the breaker's first section: it is not `Auto`.
      rw [PolicyEngine.evaluate_eq_consult, Option.map_eq_some_iff] at he
      obtain ⟨⟨r', hits'⟩, hconsult, he⟩ := he
      obtain rfl : r' = r := (Prod.mk.inj he).1
      simp [hconsult, hr]

theorem rule_of_decide_auto {policy : Policy} (h : policy.decide host tier = .auto) :
    ∃ rule, policy.rules.find? (fun r => r.matches host tier) = some rule ∧
      rule.decision = .auto := by
  unfold Policy.decide at h
  cases hfind : policy.rules.find? fun r => r.matches host tier with
  | none => simp [hfind] at h
  | some rule => exact ⟨rule, rfl, by simpa [hfind] using h⟩

/-- In every run, every enqueued command was approved by a human, from a proposal that the approve
request read as pending, or was issued by policy outside the dangerous tier, for an event whose first
matching rule is `Auto` and with the kill switch on. The queue holds nothing else, and an event that
is denied leaves queue and records as they are and makes no further access. -/
theorem default_deny (cfg : AppConfig P) (rows : Table) (labels : List ControlLabel)
    (s : ControlPlane) (hrun : run (step cfg) (start rows) labels = some s) :
    (∀ id env, (id, env) ∈ s.shared.enqueued →
      ((∃ user approvedAt, env.approvalRef = .human user approvedAt) ∧
        Occurs (step cfg) (ReadsPending cfg id env) (start rows) labels) ∨
      (env.approvalRef = .policyAuto ∧ env.riskTier ≠ .dangerous ∧
        ∃ event t p fresh rule, p.id = id ∧
          Occurs (step cfg) (DecidesAuto cfg event t p) (start rows) labels ∧
          buildCommand P p t cfg.signer .policyAuto cfg.ttlSecs fresh = some (.ok env) ∧
          cfg.policy.policy.rules.find? (fun r => r.matches event.host env.riskTier) = some rule ∧
          rule.decision = .auto ∧ cfg.policy.autoEnabled = true)) ∧
    (∀ agent, ∀ env ∈ s.shared.queue.pending agent, ∃ id, (id, env) ∈ s.shared.enqueued) ∧
    ∀ i event d s', s.tasks[i]? = some (.prepare event) → Denied cfg s.shared event d.now →
      step cfg s (.advance i d) = some s' →
      s'.shared.queue = s.shared.queue ∧ s'.shared.store = s.shared.store ∧
        s'.tasks[i]? = some .finished := by
  have h := accounted_of_run hrun
  refine ⟨?_, h.queued, ?_⟩
  · intro id env henv
    rcases h.enqueued id env henv with hread | ⟨event, t, p, fresh, hid, hauto, hbuild⟩
    · obtain ⟨m, l, hreads⟩ := hread.exists
      exact .inl ⟨hreads.approvalRef, hread⟩
    · have hbuilt := buildCommand_builtFrom hbuild
      obtain ⟨m, l, hdecides⟩ := hauto.exists
      obtain ⟨henabled, hdecide, htier⟩ := hdecides.policy
      obtain ⟨rule, hrule, hdecision⟩ := rule_of_decide_auto hdecide
      refine .inr ⟨hbuilt.approvalRef, ?_, event, t, p, fresh, rule, hid, hauto, hbuild, ?_,
        hdecision, henabled⟩
      · rw [hbuilt.riskTier]
        exact htier
      · rw [hbuilt.riskTier]
        exact hrule
  · intro i event d s' htask hdenied hstep
    obtain ⟨hqueue, hstore, hfinished⟩ := prepareStep_of_denied hdenied
    obtain ⟨hi, -⟩ := List.getElem?_eq_some_iff.mp htask
    simp only [step, Pool.step, htask, Option.bind_some, Task.step] at hstep
    split at hstep
    · cases hstep
    · cases hstep
      refine ⟨hqueue, hstore, ?_⟩
      dsimp only
      rw [hfinished, List.getElem?_set_self hi]

open TemplateRegistry

/-- An approved command and one that policy issues. -/
theorem default_deny_sample :
    ∃ s, run (step sampleConfig) samplePending sampleIssued = some s ∧
      s.shared.enqueued.map (fun e => (e.1, e.2.riskTier)) = [(⟨5⟩, .safe), (⟨31⟩, .safe)] ∧
      ∀ id env, (id, env) ∈ s.shared.enqueued →
        (∃ user approvedAt, env.approvalRef = .human user approvedAt) ∨
          env.approvalRef = .policyAuto := by
  have henqueued : (run (step sampleConfig) samplePending sampleIssued).map
      (fun s => s.shared.enqueued.map fun e => (e.1, e.2.riskTier)) =
        some [(⟨5⟩, .safe), (⟨31⟩, .safe)] := by decide +kernel
  obtain ⟨s, hrun, hs⟩ := Option.map_eq_some_iff.mp henqueued
  refine ⟨s, hrun, hs, fun id env h => ?_⟩
  rcases (default_deny sampleConfig _ sampleIssued s hrun).1 id env h with h | h
  · exact .inl h.1
  · exact .inr h.1

end ControlPlane

end Ravn
