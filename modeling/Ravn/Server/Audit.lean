import Ravn.Server.ControlPlane

/-! The audit trail of issued commands. Policy's own commands are recorded before they are enqueued;
an approved one is enqueued first and recorded afterwards, if the update succeeds. Every command
that an agent is handed has its record as long as no agent pulls in between. -/

namespace Ravn

open Theory

/-! ## Records of commands -/

/-- The record of an approved command. -/
structure Row.Records (r : Row) (env : CommandEnvelope) : Prop where
  approved : r.decision.state = .approved
  commandId : r.commandId = some env.commandId
  signature : r.signature = env.sig

instance Row.decidableRecords (r : Row) (env : CommandEnvelope) : Decidable (r.Records env) :=
  decidable_of_iff
    (r.decision.state = .approved ∧ r.commandId = some env.commandId ∧ r.signature = env.sig)
    ⟨fun h => ⟨h.1, h.2.1, h.2.2⟩, fun h => ⟨h.approved, h.commandId, h.signature⟩⟩

namespace Table

def Audited (t : Table) (env : CommandEnvelope) : Prop := ∃ r ∈ t, r.Records env

instance decidableAudited (t : Table) (env : CommandEnvelope) : Decidable (t.Audited env) :=
  inferInstanceAs (Decidable (∃ r ∈ t, r.Records env))

def hasId (t : Table) (id : Uuid) : Bool := t.any fun r => r.proposal.id = id

theorem Audited.insertRow {t : Table} (h : t.Audited env) (r : Row) :
    (t.insertRow r).Audited env := by
  obtain ⟨r₀, hr₀, hrec⟩ := h
  exact ⟨r₀, mem_insertRow_of_mem hr₀, hrec⟩

/-- A row that records a command is not pending, so no approval touches it. -/
theorem Audited.approveRemediation {t : Table} (h : t.Audited env) (id : Uuid) (decision : Decision)
    (commandId : Uuid) (sig : Option String) (now : DateTime) :
    (t.approveRemediation id decision commandId sig now).2.Audited env := by
  obtain ⟨r, hr, hrec⟩ := h
  refine ⟨r, mem_updateWhere_of_not hr ?_, hrec⟩
  simp [Row.isPending, hrec.approved]

theorem Audited.recordResult {t : Table} (h : t.Audited env) (result : ActionResult)
    (now : DateTime) : (t.recordResult result now).2.Audited env := by
  obtain ⟨r, hr, hrec⟩ := h
  by_cases hcond : decide (r.commandId = some result.commandId) = true
  · refine ⟨{ r with result := some result, updatedAt := now }, ?_, ?_⟩
    · exact mem_updateWhere.mpr ⟨r, hr, .inl ⟨hcond, rfl⟩⟩
    · exact ⟨hrec.approved, hrec.commandId, hrec.signature⟩
  · exact ⟨r, mem_updateWhere_of_not hr (by simpa using hcond), hrec⟩

/-- An approval that finds its row records its command. -/
theorem audited_of_found {t : Table} {env : CommandEnvelope} {id : Uuid} {«by» : ApprovalRef}
    {now : DateTime}
    (h : (t.approveRemediation id (.approved «by») env.commandId env.sig now).1 = true) :
    (t.approveRemediation id (.approved «by») env.commandId env.sig now).2.Audited env := by
  obtain ⟨r, hr, hcond⟩ := List.any_eq_true.mp h
  exact ⟨_, mem_updateWhere.mpr ⟨r, hr, .inl ⟨hcond, rfl⟩⟩, rfl, rfl, rfl⟩

/-- Policy's insert records its command, as the id of the proposal is new to the table. -/
theorem audited_insertAutoApproved {t : Table} {p : RemediationProposal} (h : t.hasId p.id = false)
    (env : CommandEnvelope) (faultSignature : String) (now : DateTime) :
    (t.insertAutoApproved p (.approved .policyAuto) env.commandId env.sig faultSignature
      now).Audited env := by
  have hkey : t.hasKey p = false := by
    rw [hasKey, List.any_eq_false]
    intro r hr hkey
    have hid := List.any_eq_false.mp h r hr
    exact hid (decide_eq_true (of_decide_eq_true hkey).1)
  refine ⟨⟨p, .approved .policyAuto, some env.commandId, env.sig, none, faultSignature, now⟩, ?_,
    rfl, rfl, rfl⟩
  simp [insertAutoApproved, insertRow, hkey]

theorem hasId_updateWhere {t : Table} {cond : Row → Bool} {set : Row → Row}
    (hset : ∀ r, (set r).proposal = r.proposal) (id : Uuid) :
    (t.updateWhere cond set).2.hasId id = t.hasId id := by
  simp only [hasId, updateWhere, List.any_map]
  congr 1
  funext r
  simp only [Function.comp_apply]
  split
  · rw [hset]
  · rfl

theorem hasId_insertRow_le (t : Table) (r : Row) (id : Uuid) :
    ((t.insertRow r).hasId id).toNat ≤
      (t.hasId id).toNat + (decide (r.proposal.id = id)).toNat := by
  unfold insertRow
  split
  · exact Nat.le_add_right _ _
  · simp only [hasId, List.any_append, List.any_cons, List.any_nil, Bool.or_false]
    cases t.any _ <;> simp

end Table

/-! ## What an access keeps -/

namespace Task

/-- The handler has a proposal of the given id that it is yet to insert. -/
def inserts (id : Uuid) : Task → Bool
  | prepareRecord _ p _ _ | insertCheck p _ | insertRow p _ | autoCheck p _ _
  | autoInsert p _ _ => p.id = id
  | _ => false

def rejects : Task → Bool
  | rejectKey _ _ | rejectUpdate _ _ _ _ | rejectEvict _ => true
  | _ => false

/-- The id of a proposal is held by one handler at most until the proposal is in the table; `n` is
for the other handlers. -/
def IdHeldOnce (s : AppState) (id : Uuid) (n : Nat) : Prop :=
  n + (s.store.rows.hasId id).toNat ≤ (decide (id ∈ s.drawn)).toNat

/-- What an access of a handler that does not reject keeps of the audit trail. -/
structure Keeps (s s' : AppState) (task task' : Task) : Prop where
  returned : s'.returned = s.returned
  rejects : task'.rejects = false
  audited : ∀ env, s.store.rows.Audited env → s'.store.rows.Audited env
  idHeldOnce : ∀ id n, IdHeldOnce s id (n + (task.inserts id).toNat) →
    IdHeldOnce s' id (n + (task'.inserts id).toNat)
  /-- What is new in the queue is held by the handler, or was recorded before. -/
  queued : ∀ a, ∀ env ∈ s'.queue.pending a, env ∈ s.queue.pending a ∨ a = env.agentId.uuid ∧
    ∃ id, task'.outstanding = some (id, env) ∨ task = .autoEnqueue id env
  outstanding : ∀ e, task.outstanding = some e →
    task'.outstanding = some e ∨ s'.store.rows.Audited e.2
  issuing : ∀ id env, task' = .autoEnqueue id env → s'.store.rows.Audited env

variable {P : Platform} {cfg : AppConfig P} {s s' : AppState} {task task' : Task} {d : Draw}

theorem IdHeldOnce.setRows {rows : Table} {id : Uuid} (h : IdHeldOnce s id n)
    (hid : rows.hasId id = s.store.rows.hasId id) : IdHeldOnce (s.setRows rows) id n := by
  change n + (rows.hasId id).toNat ≤ (decide (id ∈ s.drawn)).toNat
  rw [hid]
  exact h

/-- Two states that agree on what the audit trail is about. -/
structure SameTrail (s s' : AppState) : Prop where
  rows : s'.store.rows = s.store.rows
  queue : s'.queue.pending = s.queue.pending
  returned : s'.returned = s.returned
  drawn : s'.drawn = s.drawn

/-- A handler goes on without taking up a rejection, a proposal or policy's command, and without
leaving behind a command that it holds. -/
structure GoesOn (task task' : Task) : Prop where
  rejects : task'.rejects = false
  inserts : ∀ id, task'.inserts id = true → task.inserts id = true
  outstanding : ∀ e, task.outstanding = some e → task'.outstanding = some e
  issuing : ∀ id env, task' ≠ .autoEnqueue id env

theorem GoesOn.finished (h : task.outstanding = none) : GoesOn task .finished :=
  ⟨rfl, fun _ h => (nomatch h), by simp [h], fun _ _ h => nomatch h⟩

theorem GoesOn.idHeldOnce {id : Uuid} (hgoes : GoesOn task task')
    (h : IdHeldOnce s id (n + (task.inserts id).toNat)) :
    IdHeldOnce s id (n + (task'.inserts id).toNat) := by
  have hle : (task'.inserts id).toNat ≤ (task.inserts id).toNat := by
    cases hins : task'.inserts id with
    | false => exact Nat.zero_le _
    | true => rw [hgoes.inserts id hins]
  unfold IdHeldOnce at h ⊢
  omega

theorem Keeps.of_same (hsame : SameTrail s s') (hgoes : GoesOn task task') :
    Keeps s s' task task' where
  returned := hsame.returned
  rejects := hgoes.rejects
  audited env h := hsame.rows ▸ h
  idHeldOnce id n h := by
    have hn := hgoes.idHeldOnce h
    unfold IdHeldOnce at hn ⊢
    rwa [hsame.rows, hsame.drawn]
  queued a env h := .inl (hsame.queue ▸ h)
  outstanding e h := .inl (hgoes.outstanding e h)
  issuing id env h := absurd h (hgoes.issuing id env)

theorem keeps_enqueue (id : Uuid) (env : CommandEnvelope) (hgoes : GoesOn task task')
    (hheld : task'.outstanding = some (id, env) ∨ task = .autoEnqueue id env) :
    Keeps s (s.enqueue id env) task task' where
  returned := rfl
  rejects := hgoes.rejects
  audited _ h := h
  idHeldOnce _ _ h := hgoes.idHeldOnce h
  queued a e he := by
    simp only [AppState.enqueue, CommandQueue.enqueue] at he
    split at he
    · rename_i ha
      rcases List.mem_append.mp he with he | he
      · exact .inl he
      · cases List.mem_singleton.mp he
        exact .inr ⟨ha, id, hheld⟩
    · exact .inl he
  outstanding e h := .inl (hgoes.outstanding e h)
  issuing id env h := absurd h (hgoes.issuing id env)

/-- The row is written, and with it the id passes from the handler to the table. -/
theorem keeps_insertRow (r : Row) (hrejects : task'.rejects = false)
    (hbefore : ∀ id, task.inserts id = decide (r.proposal.id = id))
    (hafter : ∀ id, task'.inserts id = false) (houtstanding : task.outstanding = none)
    (hissuing : ∀ id env, task' = .autoEnqueue id env → (s.store.rows.insertRow r).Audited env) :
    Keeps s (s.setRows (s.store.rows.insertRow r)) task task' where
  returned := rfl
  rejects := hrejects
  audited _ h := h.insertRow r
  idHeldOnce id n h := by
    unfold IdHeldOnce at h ⊢
    rw [hbefore] at h
    rw [hafter]
    have hle := Table.hasId_insertRow_le s.store.rows r id
    change n + 0 + ((s.store.rows.insertRow r).hasId id).toNat ≤ (decide (id ∈ s.drawn)).toNat
    omega
  queued _ _ h := .inl h
  outstanding e h := by simp [houtstanding] at h
  issuing := hissuing

theorem keeps_approveUpdate (id : Uuid) («by» : ApprovalRef) (env : CommandEnvelope)
    (key : Option DedupKey) (now : DateTime) :
    let u := s.store.rows.approveRemediation id (.approved «by») env.commandId env.sig now
    Keeps s (s.setRows u.2) (.approveUpdate id «by» env key) (afterApprove id env u.1 key) := by
  intro u
  have hafter : (afterApprove id env u.1 key).rejects = false ∧
      (∀ id', (afterApprove id env u.1 key).inserts id' = false) ∧
      ∀ id' env', afterApprove id env u.1 key ≠ .autoEnqueue id' env' := by
    cases u.1 <;> cases key <;> exact ⟨rfl, fun _ => rfl, fun _ _ h => nomatch h⟩
  obtain ⟨hrejects, hinserts, hissuing⟩ := hafter
  refine ⟨rfl, hrejects, ?_, ?_, fun _ _ h => .inl h, ?_,
    fun id env h => absurd h (hissuing id env)⟩
  · intro e he
    exact he.approveRemediation id (.approved «by») env.commandId env.sig now
  · intro id' n h
    rw [hinserts]
    refine IdHeldOnce.setRows h (Table.hasId_updateWhere ?_ id')
    exact fun _ => rfl
  · rintro e ⟨⟩
    rw [afterApprove_outstanding]
    cases hfound : u.1 with
    | false => exact .inl rfl
    | true => exact .inr (Table.audited_of_found hfound)

theorem keeps_resultUpdate (result : ActionResult) (now : DateTime) :
    Keeps s (s.setRows (s.store.rows.recordResult result now).2) (.resultUpdate result)
      (.resultPush result) := by
  refine ⟨rfl, rfl, fun e he => he.recordResult result now, ?_, fun _ _ h => .inl h,
    fun _ h => (nomatch h), fun _ _ h => nomatch h⟩
  intro id n h
  refine IdHeldOnce.setRows h (Table.hasId_updateWhere ?_ id)
  exact fun _ => rfl

/-- The handler comes to hold the id it draws, which was nobody's. -/
theorem keeps_prepare (event : Event) (hits : HitLog) (id : Uuid) (hfresh : id ∉ s.drawn)
    (hprepared : Prepared id task') :
    Keeps s { s with drawn := s.drawn ++ [id], hits := hits } (.prepare event) task' := by
  have hafter : task'.rejects = false ∧ (∀ id', task'.inserts id' = true → id = id') ∧
      ∀ id' env', task' ≠ .autoEnqueue id' env' := by
    obtain rfl | ⟨p, sig, hp, rfl | ⟨t, call, rfl⟩⟩ := hprepared
    · exact ⟨rfl, fun _ h => (nomatch h), fun _ _ h => nomatch h⟩
    · exact ⟨rfl, fun _ h => hp.symm.trans (of_decide_eq_true h), fun _ _ h => nomatch h⟩
    · exact ⟨rfl, fun _ h => hp.symm.trans (of_decide_eq_true h), fun _ _ h => nomatch h⟩
  obtain ⟨hrejects, hinserts, hissuing⟩ := hafter
  refine ⟨rfl, hrejects, fun _ h => h, ?_, fun _ _ h => .inl h, fun _ h => (nomatch h),
    fun id env h => absurd h (hissuing id env)⟩
  intro id' n h
  have h : n + 0 + (s.store.rows.hasId id').toNat ≤ (decide (id' ∈ s.drawn)).toNat := h
  change n + (task'.inserts id').toNat + (s.store.rows.hasId id').toNat ≤
    (decide (id' ∈ s.drawn ++ [id])).toNat
  by_cases hid : id = id'
  · subst hid
    have hle := Bool.toNat_le (task'.inserts id)
    simp only [hfresh, decide_false, Bool.toNat_false] at h
    simp only [List.mem_append, List.mem_singleton, or_true, decide_true, Bool.toNat_true]
    omega
  · have hfalse : task'.inserts id' = false := by
      cases hins : task'.inserts id' with
      | false => rfl
      | true => exact absurd (hinserts id' hins) hid
    simpa [hfalse, Ne.symm hid] using h

theorem step_keeps (h : step cfg s task d = some (s', task')) (hrejects : task.rejects = false)
    (hnew : ∀ id, task.inserts id = true → s.store.rows.hasId id = false) :
    Keeps s s' task task' := by
  cases step_access h with
  | approveSelected | approveEvicted | recorded | insertFree | autoFree | resultFailed =>
    exact .of_same ⟨rfl, rfl, rfl, rfl⟩
      ⟨rfl, fun _ h => h, fun _ h => (nomatch h), fun _ _ h => nomatch h⟩
  | approveEnqueued id role env =>
    exact keeps_enqueue id env
      ⟨rfl, fun _ h => h, fun _ h => (nomatch h), fun _ _ h => nomatch h⟩ (.inl rfl)
  | approveKeyRead | approveFailed =>
    exact .of_same ⟨rfl, rfl, rfl, rfl⟩ ⟨rfl, fun _ h => h, fun _ h => h, fun _ _ h => nomatch h⟩
  | approveUpdated id «by» env key hok => exact keeps_approveUpdate id «by» env key d.reply.now
  | rejectKeyRead | rejectUpdated | rejectFailed | rejectEvicted => cases hrejects
  | prepared event hfresh hprepare =>
    obtain ⟨rfl, rfl⟩ | ⟨hits, rfl, hprepared⟩ := prepareStep_cases hprepare
    · exact .of_same ⟨rfl, rfl, rfl, rfl⟩ (.finished rfl)
    · exact keeps_prepare event hits d.proposalId hfresh hprepared
  | inserted p sig hok =>
    exact keeps_insertRow _ rfl (fun _ => rfl) (fun _ => rfl) rfl (fun _ _ h => nomatch h)
  | autoInserted p env sig hok =>
    refine keeps_insertRow _ rfl (fun _ => rfl) (fun _ => rfl) rfl ?_
    rintro id env' ⟨⟩
    exact Table.audited_insertAutoApproved (hnew p.id (decide_eq_true rfl)) env sig d.reply.now
  | autoEnqueued id env => exact keeps_enqueue id env (.finished rfl) (.inr rfl)
  | resultUpdated result hok => exact keeps_resultUpdate result d.reply.now
  | _ => exact .of_same ⟨rfl, rfl, rfl, rfl⟩ (.finished rfl)

end Task

/-! ## Pulls -/

/-- An agent pulls when no handler that has enqueued a command for it is yet to record it. -/
def ControlPlane.PullsRecorded (s : ControlPlane) : ControlLabel → Prop
  | .access agent =>
    ∀ task ∈ s.tasks, ∀ e ∈ task.outstanding, e.2.agentId.uuid ≠ agent
  | _ => True

instance ControlPlane.decidablePullsRecorded (s : ControlPlane) :
    ∀ l, Decidable (s.PullsRecorded l)
  | .access agent => inferInstanceAs (Decidable
      (∀ task ∈ s.tasks, ∀ e ∈ task.outstanding, e.2.agentId.uuid ≠ agent))
  | .spawn _ | .advance _ _ => .isTrue trivial

/-- The label is not a reject request. -/
def ControlLabel.noReject : ControlLabel → Bool
  | .spawn (.reject _ _) => false
  | _ => true

namespace ControlPlane

structure AuditInv (s : ControlPlane) : Prop where
  /-- A queued command is recorded, or held by a handler that is yet to record it. -/
  queued : ∀ a, ∀ env ∈ s.shared.queue.pending a, s.shared.store.rows.Audited env ∨
    ∃ task ∈ s.tasks, ∃ id, task.outstanding = some (id, env)
  routed : s.shared.queue.Routed
  issuing : ∀ id env, .autoEnqueue id env ∈ s.tasks → s.shared.store.rows.Audited env
  returned : ∀ env ∈ s.shared.returned, s.shared.store.rows.Audited env
  idHeldOnce : ∀ id, Task.IdHeldOnce s.shared id (s.tasks.countP (Task.inserts id))
  rejects : ∀ task ∈ s.tasks, task.rejects = false

variable {P : Platform} {cfg : AppConfig P} {s s' : ControlPlane}

theorem auditInv_start (rows : Table) : AuditInv (start rows) where
  queued _ _ h := nomatch h
  routed _ _ h := nomatch h
  issuing _ _ h := nomatch h
  returned _ h := nomatch h
  idHeldOnce id := by
    have hiff : rows.hasId id = true ↔ id ∈ rows.map fun r => r.proposal.id := by
      simp [Table.hasId]
    change 0 + (rows.hasId id).toNat ≤ (decide (id ∈ rows.map fun r => r.proposal.id)).toNat
    rw [Nat.zero_add, ← Bool.decide_congr hiff, Bool.decide_eq_true]
  rejects _ h := nomatch h

theorem AuditInv.spawn (hs : AuditInv s) (request : Request)
    (hreject : (Request.start request).rejects = false) :
    AuditInv ⟨s.shared, s.tasks ++ [request.start]⟩ where
  queued a env h := by
    rcases hs.queued a env h with h | ⟨task, htask, hout⟩
    · exact .inl h
    · exact .inr ⟨task, List.mem_append_left _ htask, hout⟩
  routed := hs.routed
  issuing id env h := by
    rcases List.mem_append.mp h with h | h
    · exact hs.issuing id env h
    · cases request <;> cases List.mem_singleton.mp h
  returned := hs.returned
  idHeldOnce id := by
    have hnew : Task.inserts id request.start = false := by cases request <;> rfl
    simpa [hnew] using hs.idHeldOnce id
  rejects task h := by
    rcases List.mem_append.mp h with h | h
    · exact hs.rejects task h
    · rw [List.mem_singleton.mp h]
      exact hreject

theorem AuditInv.pull (hs : AuditInv s) {agent : Uuid} (hpull : s.PullsRecorded (.access agent)) :
    AuditInv ⟨s.shared.pull agent, s.tasks⟩ where
  queued a env h := by
    simp only [AppState.pull, CommandQueue.takeFor] at h
    split at h
    · cases h
    · exact hs.queued a env h
  routed := (hs.routed.takeFor agent).2
  issuing := hs.issuing
  returned env h := by
    rcases List.mem_append.mp h with h | h
    · exact hs.returned env h
    · rcases hs.queued agent env h with h' | ⟨task, htask, id, hout⟩
      · exact h'
      · exact absurd (hs.routed agent env h) (hpull task htask _ hout)
  idHeldOnce := hs.idHeldOnce
  rejects := hs.rejects

theorem AuditInv.advance (hs : AuditInv s) (htasks : s.tasks = pre ++ task :: post)
    (hstep : Task.step cfg s.shared task d = some (shared, task')) :
    AuditInv ⟨shared, pre ++ task' :: post⟩ := by
  have hmem : task ∈ s.tasks := by simp [htasks]
  have hheld := hs.idHeldOnce
  simp only [htasks, Pool.countP_replaced] at hheld
  have hnew : ∀ id, task.inserts id = true → s.shared.store.rows.hasId id = false := by
    intro id hins
    have hle := hheld id
    have hone := Bool.toNat_le (decide (id ∈ s.shared.drawn))
    unfold Task.IdHeldOnce at hle
    rw [hins, Bool.toNat_true] at hle
    cases hid : s.shared.store.rows.hasId id with
    | false => rfl
    | true =>
      rw [hid, Bool.toNat_true] at hle
      omega
  have hk := Task.step_keeps hstep (hs.rejects task hmem) hnew
  refine ⟨?_, ?_, ?_, ?_, ?_, ?_⟩
  · intro a env henv
    rcases hk.queued a env henv with henv | ⟨-, id, hout | hauto⟩
    · rcases hs.queued a env henv with h | ⟨t, ht, id, hout⟩
      · exact .inl (hk.audited env h)
      rw [htasks] at ht
      rcases List.mem_append.mp ht with ht | ht
      · exact .inr ⟨t, List.mem_append_left _ ht, id, hout⟩
      rcases List.mem_cons.mp ht with rfl | ht
      · rcases hk.outstanding _ hout with hout' | h
        · exact .inr ⟨task', by simp, id, hout'⟩
        · exact .inl h
      · exact .inr ⟨t, by simp [ht], id, hout⟩
    · exact .inr ⟨task', by simp, id, hout⟩
    · exact .inl (hk.audited env (hs.issuing id env (hauto ▸ hmem)))
  · intro a env henv
    rcases hk.queued a env henv with henv | ⟨ha, -⟩
    · exact hs.routed a env henv
    · exact ha.symm
  · intro id env h
    rcases Pool.mem_replaced h with heq | h
    · exact hk.issuing id env heq.symm
    · exact hk.audited env (hs.issuing id env (htasks ▸ h))
  · intro env henv
    rw [hk.returned] at henv
    exact hk.audited env (hs.returned env henv)
  · intro id
    rw [Pool.countP_replaced]
    exact hk.idHeldOnce id _ (hheld id)
  · intro t ht
    rcases Pool.mem_replaced ht with rfl | ht
    · exact hk.rejects
    · exact hs.rejects t (htasks ▸ ht)

theorem AuditInv.step (hs : AuditInv s) (hl : s.PullsRecorded l ∧ l.noReject = true)
    (h : step cfg s l = some s') : AuditInv s' := by
  obtain ⟨request, rfl, rfl⟩ | ⟨agent, rfl, rfl⟩ |
    ⟨i, d, pre, task, post, shared, task', rfl, -, htasks, hstep, rfl⟩ := Pool.step_cases h
  · refine hs.spawn request ?_
    cases request with
    | reject id role => cases hl.2
    | _ => rfl
  · exact hs.pull hl.1
  · exact hs.advance htasks hstep

/-- In every run of approve requests, ingested events, results and pulls in which no agent pulls
between a command's enqueueing and its recording, every command that was handed out has its record,
in every state from then on. Any statement may fail. -/
theorem returned_commands_audited {P : Platform} (cfg : AppConfig P) (rows : Table)
    (ls : List ControlLabel) (hdomain : ∀ l ∈ ls, l.noReject = true)
    (hpulls : Along (step cfg) PullsRecorded (start rows) ls) (pre post : List ControlLabel)
    (t : ControlPlane) (hls : ls = pre ++ post) (hrun : run (step cfg) (start rows) pre = some t) :
    ∀ env ∈ t.shared.returned, t.shared.store.rows.Audited env := by
  subst hls
  have hpre := ((along_append.mp hpulls).1.and fun l hl =>
    hdomain l (List.mem_append_left _ hl))
  exact (hpre.invariant AuditInv.step hrun (auditInv_start rows)).returned

theorem returned_commands_audited_sample :
    ∃ t, run (step sampleConfig) samplePending sampleIssued = some t ∧
      t.shared.returned.length = 2 ∧
      ∀ env ∈ t.shared.returned, t.shared.store.rows.Audited env := by
  have hreturned : (run (step sampleConfig) samplePending sampleIssued).map
      (fun t => t.shared.returned.length) = some 2 := by decide +kernel
  obtain ⟨t, hrun, ht⟩ := Option.map_eq_some_iff.mp hreturned
  exact ⟨t, hrun, ht, returned_commands_audited sampleConfig _ sampleIssued (by decide)
    (by decide +kernel) sampleIssued [] t (List.append_nil _).symm hrun⟩

/-- The agent pulls between the two. -/
def sampleEarlyPull : List ControlLabel :=
  [.spawn (.approve ⟨5⟩ .admin), .advance 0 (sampleDraw ⟨21⟩), .advance 0 (sampleDraw ⟨22⟩),
    .access ⟨2⟩]

/-- A command is handed out while its record is still pending. -/
theorem unaudited_command_returned :
    (∀ l ∈ sampleEarlyPull, l.noReject = true) ∧
      ∃ t, run (step sampleConfig) samplePending sampleEarlyPull = some t ∧
        ¬∀ env ∈ t.shared.returned, t.shared.store.rows.Audited env := by
  refine ⟨by decide, ?_⟩
  have haudited : (run (step sampleConfig) samplePending sampleEarlyPull).map
      (fun t => decide (∀ env ∈ t.shared.returned, t.shared.store.rows.Audited env)) =
        some false := by decide +kernel
  obtain ⟨t, hrun, ht⟩ := Option.map_eq_some_iff.mp haudited
  exact ⟨t, hrun, of_decide_eq_false ht⟩

end ControlPlane

end Ravn
