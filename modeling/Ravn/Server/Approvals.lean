import Ravn.Server.ControlPlane

/-! Concurrent decisions on one proposal. An approve request reads the record, enqueues the command,
and only then updates the record; a reject request updates it without looking. At most one command
is issued, and none for a rejected proposal, exactly when no such request acts inside another's
gap. -/

namespace Ravn

open Theory

/-! ## The decision of a record -/

namespace Table

/-- The decisions stored under an id. -/
def decisions (t : Table) (id : Uuid) : List DecisionState :=
  (t.filter fun r => r.proposal.id = id).map fun r => r.decision.state

/-- An update acts on the decisions stored under an id as it does on each of its rows. -/
theorem decisions_updateWhere {t : Table} {cond : Row → Bool} {set : Row → Row} {id : Uuid}
    {f : DecisionState → DecisionState} (hset : ∀ r, (set r).proposal = r.proposal)
    (hf : ∀ r, r.proposal.id = id →
      (if cond r then set r else r).decision.state = f r.decision.state) :
    (t.updateWhere cond set).2.decisions id = (t.decisions id).map f := by
  have hid : ∀ r, (if cond r then set r else r).proposal = r.proposal := by
    intro r
    split
    · exact hset r
    · rfl
  induction t with
  | nil => rfl
  | cons r t ih =>
    simp only [updateWhere, decisions, List.map_cons, List.filter_cons, hid] at ih ⊢
    split
    · rename_i hr
      simp only [List.map_cons, ih, hf r (of_decide_eq_true hr)]
    · exact ih

theorem decisions_updateWhere_of_same {t : Table} {cond : Row → Bool} {set : Row → Row} {id : Uuid}
    (hset : ∀ r, (set r).proposal = r.proposal)
    (hsame : ∀ r, r.proposal.id = id → cond r = true → (set r).decision = r.decision) :
    (t.updateWhere cond set).2.decisions id = t.decisions id := by
  have h : (t.updateWhere cond set).2.decisions id = (t.decisions id).map fun d => d := by
    refine decisions_updateWhere hset fun r hr => ?_
    split
    · rename_i hcond
      rw [hsame r hr hcond]
    · rfl
  rw [h, List.map_id']

theorem decisions_insertRow {t : Table} {r : Row} {id : Uuid} (h : r.proposal.id ≠ id) :
    (t.insertRow r).decisions id = t.decisions id := by
  unfold insertRow decisions
  split
  · rfl
  · simp [h]

theorem decisions_recordResult (t : Table) (result : ActionResult) (now : DateTime) (id : Uuid) :
    (t.recordResult result now).2.decisions id = t.decisions id :=
  decisions_updateWhere_of_same (fun _ => rfl) fun _ _ _ => rfl

section

variable (t : Table) («by» : ApprovalRef) (commandId : Uuid) (sig : Option String) (now : DateTime)

theorem decisions_approve_self (id : Uuid) :
    (t.approveRemediation id (.approved «by») commandId sig now).2.decisions id =
      (t.decisions id).map fun d => if d = .pending then .approved else d := by
  refine decisions_updateWhere (fun _ => rfl) fun r hr => ?_
  cases hd : r.decision <;> simp [hr, hd, Row.isPending, Decision.state]

theorem decisions_approve_of_ne {id pid : Uuid} (hne : id ≠ pid) :
    (t.approveRemediation id (.approved «by») commandId sig now).2.decisions pid =
      t.decisions pid := by
  refine decisions_updateWhere_of_same (fun _ => rfl) fun r hr hcond => ?_
  exact absurd ((of_decide_eq_true hcond).1.symm.trans hr) hne

theorem approve_found (id : Uuid) :
    (t.approveRemediation id (.approved «by») commandId sig now).1 =
      decide (.pending ∈ t.decisions id) := by
  rw [Bool.eq_iff_iff]
  simp [approveRemediation, updateWhere, decisions, Row.isPending, and_assoc]

end

section

variable (t : Table) («by» : String) («at» : DateTime) (reason : Option String) (now : DateTime)

theorem decisions_reject_self (id : Uuid) :
    (t.rejectRemediation id (.rejected «by» «at» reason) now).2.decisions id =
      (t.decisions id).map fun _ => .rejected := by
  refine decisions_updateWhere (fun _ => rfl) fun r hr => ?_
  simp [hr, Decision.state]

theorem decisions_reject_of_ne {id pid : Uuid} (hne : id ≠ pid) :
    (t.rejectRemediation id (.rejected «by» «at» reason) now).2.decisions pid =
      t.decisions pid := by
  refine decisions_updateWhere_of_same (fun _ => rfl) fun r hr hcond => ?_
  exact absurd ((of_decide_eq_true hcond).symm.trans hr) hne

end

end Table

/-! ## The standing of a proposal -/

/-- What decides whether a further command may be issued: the stored decision, the commands issued
so far, and how many approve requests have issued one that no record holds. -/
structure Standing where
  decisions : List DecisionState
  issued : Nat
  unrecorded : Nat

/-- What a step of the control plane is to one proposal. -/
inductive Act where
  | other
  | enqueue
  | update
  | reject

namespace Standing

def apply (v : Standing) : Act → Standing
  | .other => v
  | .enqueue => { v with issued := v.issued + 1, unrecorded := v.unrecorded + 1 }
  | .update =>
    { v with decisions := v.decisions.map fun d => if d = .pending then .approved else d
             unrecorded := if .pending ∈ v.decisions then v.unrecorded - 1 else v.unrecorded }
  | .reject => { v with decisions := v.decisions.map fun _ => .rejected }

/-- An update is made by a request that has issued a command. -/
def Enabled (v : Standing) : Act → Prop
  | .update => 0 < v.unrecorded
  | _ => True

/-- A command is issued while the record is pending, and a rejection made while it is not approved,
in both cases with no command outstanding that is yet to be recorded. -/
def Allows (v : Standing) : Act → Prop
  | .enqueue => .pending ∈ v.decisions ∧ v.unrecorded = 0
  | .reject => .approved ∉ v.decisions ∧ v.unrecorded = 0
  | _ => True

def AtMostOneCommand (v : Standing) : Prop :=
  v.issued ≤ 1 ∧ (.rejected ∈ v.decisions → v.issued = 0)

/-- Every command issued is recorded or held by the one request that is yet to record it. -/
inductive Inv (v : Standing) : Prop where
  | pending (decisions : v.decisions = [.pending]) (held : v.issued = v.unrecorded)
      (le_one : v.issued ≤ 1)
  | approved (decisions : v.decisions = [.approved]) (issued : v.issued = 1)
      (held : v.unrecorded = 0)
  | rejected (decisions : v.decisions = [.rejected]) (issued : v.issued = 0)
      (held : v.unrecorded = 0)

variable {v : Standing} {a : Act}

theorem Inv.atMostOneCommand (h : v.Inv) : v.AtMostOneCommand := by
  cases h with
  | pending hd _ hle => exact ⟨hle, fun h => by simp [hd] at h⟩
  | approved hd hi _ => exact ⟨by omega, fun h => by simp [hd] at h⟩
  | rejected hd hi _ => exact ⟨by omega, fun _ => hi⟩

theorem Inv.apply (h : v.Inv) (hen : v.Enabled a) (hal : v.Allows a) : (v.apply a).Inv := by
  cases a with
  | other => exact h
  | enqueue =>
    obtain ⟨hmem, hun⟩ := hal
    cases h with
    | pending hd hheld _ =>
      exact .pending hd (by simp [Standing.apply, hheld]) (by simp [Standing.apply]; omega)
    | approved hd _ _ => simp [hd] at hmem
    | rejected hd _ _ => simp [hd] at hmem
  | update =>
    have hen : 0 < v.unrecorded := hen
    cases h with
    | pending hd hheld hle =>
      refine .approved (by simp [Standing.apply, hd]) (by simp only [Standing.apply]; omega) ?_
      simp only [Standing.apply, hd, List.mem_singleton, if_true]
      omega
    | approved _ _ hheld => omega
    | rejected _ _ hheld => omega
  | reject =>
    obtain ⟨hmem, hun⟩ := hal
    cases h with
    | pending hd hheld _ => exact .rejected (by simp [Standing.apply, hd]) (hheld.trans hun) hun
    | approved hd _ _ => simp [hd] at hmem
    | rejected hd hi hheld => exact .rejected (by simp [Standing.apply, hd]) hi hheld

/-- What the condition excludes goes wrong at once. -/
theorem Inv.not_atMostOneCommand (h : v.Inv) (hal : ¬v.Allows a) :
    ¬(v.apply a).AtMostOneCommand := by
  cases a with
  | other | update => exact absurd trivial hal
  | enqueue =>
    intro hone
    cases h with
    | pending hd hheld _ =>
      -- Another request holds the command that is not recorded yet.
      have hun : v.unrecorded ≠ 0 := fun hun => hal ⟨by simp [hd], hun⟩
      have hle : v.issued + 1 ≤ 1 := hone.1
      omega
    | approved hd hi _ =>
      have hle : v.issued + 1 ≤ 1 := hone.1
      omega
    | rejected hd hi _ =>
      have hzero : v.issued + 1 = 0 := hone.2 (by simp [Standing.apply, hd])
      omega
  | reject =>
    intro hone
    cases h with
    | pending hd hheld _ =>
      have hun : v.unrecorded ≠ 0 := fun hun => hal ⟨by simp [hd], hun⟩
      have hzero : v.issued = 0 := hone.2 (by simp [Standing.apply, hd])
      omega
    | approved hd hi _ =>
      have hzero : v.issued = 0 := hone.2 (by simp [Standing.apply, hd])
      omega
    | rejected hd _ hheld => exact hal ⟨by simp [hd], hheld⟩

/-- What went wrong stays wrong: commands are not taken back, nor is a rejection. -/
theorem AtMostOneCommand.of_apply (h : (v.apply a).AtMostOneCommand) : v.AtMostOneCommand := by
  obtain ⟨hle, hrej⟩ := h
  cases a with
  | other => exact ⟨hle, hrej⟩
  | enqueue =>
    have hle : v.issued + 1 ≤ 1 := hle
    exact ⟨by omega, fun _ => by omega⟩
  | update =>
    refine ⟨hle, fun h => hrej ?_⟩
    exact List.mem_map.mpr ⟨_, h, by simp⟩
  | reject =>
    refine ⟨hle, fun h => hrej ?_⟩
    exact List.mem_map.mpr ⟨_, h, rfl⟩

end Standing

/-! ## What an access does to a proposal -/

/-- How many commands were enqueued for a proposal. -/
def AppState.issued (s : AppState) (id : Uuid) : Nat := s.enqueued.countP fun e => e.1 = id

def AppState.standing (s : AppState) (id : Uuid) (unrecorded : Nat) : Standing :=
  ⟨s.store.rows.decisions id, s.issued id, unrecorded⟩

namespace Task

/-- The handler has enqueued a command for the proposal, and no record holds it. -/
def unrecorded (id : Uuid) (task : Task) : Bool := task.outstanding.any fun e => e.1 = id

@[simp] theorem afterApprove_unrecorded (id id' : Uuid) (env : CommandEnvelope) (found : Bool)
    (key : Option DedupKey) :
    (afterApprove id' env found key).unrecorded id = (!found && decide (id' = id)) := by
  rw [unrecorded, afterApprove_outstanding]
  cases found <;> rfl

@[simp] theorem afterReject_unrecorded (id : Uuid) (found : Bool) (key : Option DedupKey) :
    (afterReject found key).unrecorded id = false := by
  cases found <;> cases key <;> rfl

/-- The proposal that an ingested event led to. -/
def proposalId : Task → Option Uuid
  | prepareRecord _ p _ _ | insertCheck p _ | insertRow p _ | autoCheck p _ _
  | autoInsert p _ _ => some p.id
  | autoEnqueue id _ => some id
  | _ => none

variable {P : Platform} {cfg : AppConfig P} {s s' : AppState} {task task' : Task} {d : Draw}

@[simp] theorem afterApprove_proposalId (id : Uuid) (env : CommandEnvelope) (found : Bool)
    (key : Option DedupKey) : (afterApprove id env found key).proposalId = none := by
  cases found <;> cases key <;> rfl

@[simp] theorem afterReject_proposalId (found : Bool) (key : Option DedupKey) :
    (afterReject found key).proposalId = none := by
  cases found <;> cases key <;> rfl

/-- What a handler's next access is to a proposal. -/
def act (id : Uuid) (d : Draw) : Task → Act
  | approveEnqueue id' _ _ => if id' = id then .enqueue else .other
  | approveUpdate id' _ _ _ => if id' = id ∧ d.reply.ok then .update else .other
  | rejectUpdate id' _ _ _ => if id' = id ∧ d.reply.ok then .reject else .other
  | _ => .other

/-- An access changes a proposal's standing as its act does, with `n` other requests that are yet to
record a command. -/
def Acts (id : Uuid) (d : Draw) (s s' : AppState) (task task' : Task) : Prop :=
  ∀ n, (s.standing id (n + (task.unrecorded id).toNat)).Enabled (task.act id d) ∧
    s'.standing id (n + (task'.unrecorded id).toNat) =
      (s.standing id (n + (task.unrecorded id).toNat)).apply (task.act id d)

theorem Acts.other {id : Uuid} (hact : task.act id d = .other)
    (hdecisions : s'.store.rows.decisions id = s.store.rows.decisions id)
    (hissued : s'.issued id = s.issued id)
    (hunrecorded : task'.unrecorded id = task.unrecorded id) : Acts id d s s' task task' := by
  intro n
  rw [hact, hunrecorded]
  refine ⟨trivial, ?_⟩
  simp [AppState.standing, Standing.apply, hdecisions, hissued]

/-- Every access but those of the task that brings the proposal in. -/
theorem step_acts {id : Uuid} (h : step cfg s task d = some (s', task'))
    (hid : task.proposalId ≠ some id) : Acts id d s s' task task' := by
  cases step_access h with
  | approveEnqueued id' role env =>
    by_cases hne : id' = id
    · subst hne
      intro n
      simp [act, Standing.Enabled, Standing.apply, AppState.standing, AppState.issued,
        AppState.enqueue, unrecorded, outstanding]
    · refine .other ?_ rfl ?_ ?_ <;>
        simp [act, AppState.issued, AppState.enqueue, unrecorded, outstanding, hne]
  | approveUpdated id' «by» env key hok =>
    by_cases hne : id' = id
    · subst hne
      intro n
      have hbefore : (approveUpdate id' «by» env key).unrecorded id' = true := by
        simp [unrecorded, outstanding]
      by_cases hfound : DecisionState.pending ∈ s.store.rows.decisions id' <;>
        simp [act, Standing.Enabled, Standing.apply, AppState.standing, AppState.issued,
          AppState.setRows, Table.decisions_approve_self, Table.approve_found, hbefore, hfound, hok]
    · refine .other (by simp [act, hne]) (Table.decisions_approve_of_ne _ _ _ _ _ hne) rfl ?_
      rw [afterApprove_unrecorded]
      simp [unrecorded, outstanding, hne]
  | approveFailed id' «by» env key hok =>
    refine .other (by simp [act, hok]) rfl rfl ?_
    simp [unrecorded, outstanding]
  | rejectUpdated id' role «at» key hok =>
    by_cases hne : id' = id
    · subst hne
      intro n
      have hbefore : (rejectUpdate id' role «at» key).unrecorded id' = false := rfl
      simp [act, Standing.Enabled, Standing.apply, AppState.standing, AppState.issued,
        AppState.setRows, Table.decisions_reject_self, hbefore, hok]
    · exact .other (by simp [act, hne]) (Table.decisions_reject_of_ne _ _ _ _ _ hne) rfl
        (afterReject_unrecorded ..)
  | rejectFailed id' role «at» key hok => exact .other (by simp [act, hok]) rfl rfl rfl
  | prepared event hfresh hprepare =>
    obtain ⟨rfl, rfl⟩ | ⟨hits, rfl, rfl | ⟨p, sig, -, rfl | ⟨t, call, rfl⟩⟩⟩ :=
      prepareStep_cases hprepare
    all_goals exact .other rfl rfl rfl rfl
  | inserted p sig hok | autoInserted p env sig hok =>
    exact .other rfl (Table.decisions_insertRow fun heq => hid (congrArg some heq)) rfl rfl
  | autoEnqueued id' env =>
    refine .other rfl rfl ?_ rfl
    have hne : id' ≠ id := fun heq => hid (congrArg some heq)
    simp [AppState.issued, AppState.enqueue, hne]
  | resultUpdated result hok => exact .other rfl (Table.decisions_recordResult ..) rfl rfl
  | _ => exact .other rfl rfl rfl rfl

/-- Ids are only added to those drawn, and a task comes by a proposal only by drawing its id. -/
theorem step_drawn {id : Uuid} (h : step cfg s task d = some (s', task')) (hid : id ∈ s.drawn) :
    id ∈ s'.drawn ∧ (task'.proposalId = some id → task.proposalId = some id) := by
  cases step_access h with
  | prepared event hfresh hprepare =>
    obtain ⟨rfl, rfl⟩ | ⟨hits, rfl, hprepared⟩ := prepareStep_cases hprepare
    · exact ⟨hid, fun h => nomatch h⟩
    refine ⟨List.mem_append_left _ hid, fun hid' => ?_⟩
    obtain rfl | ⟨p, sig, hp, rfl | ⟨t, call, rfl⟩⟩ := hprepared
    · cases hid'
    · cases hid'
      exact absurd hid (hp ▸ hfresh)
    · cases hid'
      exact absurd hid (hp ▸ hfresh)
  | approveUpdated | rejectUpdated =>
    refine ⟨hid, fun h => ?_⟩
    simp at h
  | recorded | insertFree | autoFree | autoInserted => exact ⟨hid, fun h => h⟩
  | _ => exact ⟨hid, fun h => nomatch h⟩

end Task

/-! ## Interleaved requests -/

namespace ControlPlane

def standing (s : ControlPlane) (id : Uuid) : Standing :=
  s.shared.standing id (s.tasks.countP (Task.unrecorded id))

/-- What a step is to a proposal. -/
def act (s : ControlPlane) (id : Uuid) : ControlLabel → Act
  | .advance i d => s.tasks[i]?.elim .other (Task.act id d)
  | _ => .other

/-- A command is issued and a rejection made only where the standing of the proposal allows it. -/
def Serialised (id : Uuid) (s : ControlPlane) (l : ControlLabel) : Prop :=
  (s.standing id).Allows (s.act id l)

/-- The id of the proposal was drawn, and no handler is bringing the proposal in. -/
structure Known (id : Uuid) (s : ControlPlane) : Prop where
  drawn : id ∈ s.shared.drawn
  tasks : ∀ task ∈ s.tasks, task.proposalId ≠ some id

/-- The proposal is pending and no command was issued for it. -/
structure AwaitsDecision (id : Uuid) (s : ControlPlane) : Prop extends Known id s where
  pending : s.shared.store.rows.decisions id = [.pending]
  issued : s.shared.issued id = 0
  unrecorded : ∀ task ∈ s.tasks, task.unrecorded id = false

variable {P : Platform} {cfg : AppConfig P} {s s' : ControlPlane} {l : ControlLabel} {id : Uuid}

theorem Known.step (hk : Known id s) (h : step cfg s l = some s') : Known id s' := by
  obtain ⟨request, rfl, rfl⟩ | ⟨agent, rfl, rfl⟩ |
    ⟨i, d, pre, task, post, shared, task', rfl, -, htasks, hstep, rfl⟩ := Pool.step_cases h
  · refine ⟨hk.drawn, fun task htask => ?_⟩
    rcases List.mem_append.mp htask with htask | htask
    · exact hk.tasks task htask
    · rw [List.mem_singleton.mp htask]
      cases request <;> exact fun h => nomatch h
  · exact ⟨hk.drawn, hk.tasks⟩
  · obtain ⟨hdrawn, hnew⟩ := Task.step_drawn hstep hk.drawn
    refine ⟨hdrawn, fun t ht hid => ?_⟩
    rcases Pool.mem_replaced ht with rfl | ht
    · exact hk.tasks task (by simp [htasks]) (hnew hid)
    · exact hk.tasks t (htasks ▸ ht) hid

/-- Every step changes the standing of a proposal as its act does. -/
theorem step_standing (hk : Known id s) (h : step cfg s l = some s') :
    (s.standing id).Enabled (s.act id l) ∧
      s'.standing id = (s.standing id).apply (s.act id l) := by
  obtain ⟨request, rfl, rfl⟩ | ⟨agent, rfl, rfl⟩ |
    ⟨i, d, pre, task, post, shared, task', rfl, htask, htasks, hstep, rfl⟩ := Pool.step_cases h
  · refine ⟨trivial, ?_⟩
    have hnew : Task.unrecorded id request.start = false := by cases request <;> rfl
    simp [standing, act, Standing.apply, hnew]
  · exact ⟨trivial, rfl⟩
  · have hacts := Task.step_acts hstep (hk.tasks task (by simp [htasks]))
      (pre.countP (Task.unrecorded id) + post.countP (Task.unrecorded id))
    have hact : s.act id (.advance i d) = task.act id d := by simp [act, htask]
    rw [hact, standing, standing, htasks, Pool.countP_replaced, Pool.countP_replaced]
    exact hacts

/-- The proposal is in a standing that its requests may go on from. -/
structure Exclusive (id : Uuid) (s : ControlPlane) : Prop where
  known : Known id s
  inv : (s.standing id).Inv

structure Broken (id : Uuid) (s : ControlPlane) : Prop where
  known : Known id s
  broken : ¬(s.standing id).AtMostOneCommand

theorem Exclusive.step (hs : Exclusive id s) (hl : Serialised id s l)
    (h : step cfg s l = some s') : Exclusive id s' := by
  obtain ⟨henabled, hstanding⟩ := step_standing hs.known h
  exact ⟨hs.known.step h, hstanding ▸ hs.inv.apply henabled hl⟩

theorem Exclusive.broken (hs : Exclusive id s) (hl : ¬Serialised id s l)
    (h : ControlPlane.step cfg s l = some s') : Broken id s' := by
  obtain ⟨-, hstanding⟩ := step_standing hs.known h
  exact ⟨hs.known.step h, hstanding ▸ hs.inv.not_atMostOneCommand hl⟩

theorem Exclusive.not_broken (hs : Exclusive id s) : ¬Broken id s :=
  fun hbroken => hbroken.broken hs.inv.atMostOneCommand

theorem Broken.step (hs : Broken id s) (h : step cfg s l = some s') : Broken id s' := by
  obtain ⟨-, hstanding⟩ := step_standing hs.known h
  exact ⟨hs.known.step h, fun hone => hs.broken (hstanding ▸ hone).of_apply⟩

/-- For a proposal that awaits its decision, whatever requests follow and however they interleave:
at most one command is issued, and none if it ends rejected, exactly when every command is issued
and every rejection made where the standing of the proposal allows it. -/
theorem at_most_one_command_iff {P : Platform} (cfg : AppConfig P) (id : Uuid) (s t : ControlPlane)
    (ls : List ControlLabel) (hs : AwaitsDecision id s) (hrun : run (step cfg) s ls = some t) :
    (t.standing id).AtMostOneCommand ↔ Along (step cfg) (Serialised id) s ls := by
  have hstart : (s.standing id).Inv := by
    refine .pending hs.pending ?_ ?_
    · rw [show (s.standing id).issued = 0 from hs.issued]
      exact (List.countP_eq_zero.mpr fun task htask => by simp [hs.unrecorded task htask]).symm
    · rw [show (s.standing id).issued = 0 from hs.issued]
      exact Nat.zero_le 1
  have hknown : Known id t := run_invariant (I := Known id) Known.step hrun hs.toKnown
  have hiff : Along (step cfg) (Serialised id) s ls ↔ ¬Broken id t :=
    along_iff_of_absorbing Exclusive.step Exclusive.broken Broken.step Exclusive.not_broken hrun
      ⟨hs.toKnown, hstart⟩
  constructor
  · exact fun hone => hiff.mpr fun hbroken => hbroken.2 hone
  · intro h
    exact Classical.byContradiction fun hone => hiff.mp h ⟨hknown, hone⟩

theorem samplePending_awaitsDecision : AwaitsDecision ⟨5⟩ samplePending where
  drawn := by decide
  tasks := by intro task h; cases h
  pending := by decide
  issued := rfl
  unrecorded := by intro task h; cases h

/-- One approve request, from its first access to its last. -/
def sampleApproval : List ControlLabel :=
  [.spawn (.approve ⟨5⟩ .admin), .advance 0 (sampleDraw ⟨21⟩), .advance 0 (sampleDraw ⟨22⟩),
    .advance 0 (sampleDraw ⟨23⟩), .advance 0 (sampleDraw ⟨24⟩), .advance 0 (sampleDraw ⟨25⟩)]

theorem at_most_one_command_iff_sample :
    ∃ t, run (step sampleConfig) samplePending sampleApproval = some t ∧
      (t.standing ⟨5⟩).issued = 1 ∧ Along (step sampleConfig) (Serialised ⟨5⟩) samplePending
        sampleApproval := by
  have hissued : (run (step sampleConfig) samplePending sampleApproval).map
      (fun t => ((t.standing ⟨5⟩).issued, (t.standing ⟨5⟩).decisions)) = some (1, [.approved]) := by
    decide +kernel
  obtain ⟨t, hrun, ht⟩ := Option.map_eq_some_iff.mp hissued
  obtain ⟨hone, happroved⟩ := Prod.mk.inj ht
  refine ⟨t, hrun, hone, ?_⟩
  refine (at_most_one_command_iff sampleConfig ⟨5⟩ samplePending t sampleApproval
    samplePending_awaitsDecision hrun).mp ⟨hone.le, fun h => ?_⟩
  rw [happroved] at h
  exact absurd h (by decide)

/-- Two approve requests read the pending record before either enqueues, and a rejection comes
before either updates it. -/
def sampleRace : List ControlLabel :=
  [.spawn (.approve ⟨5⟩ .admin), .spawn (.approve ⟨5⟩ .admin), .spawn (.reject ⟨5⟩ .admin),
    .advance 0 (sampleDraw ⟨21⟩), .advance 1 (sampleDraw ⟨31⟩), .advance 2 (sampleDraw ⟨41⟩),
    .advance 0 (sampleDraw ⟨22⟩), .advance 1 (sampleDraw ⟨32⟩), .advance 2 (sampleDraw ⟨42⟩)]

/-- Two commands are enqueued for one proposal, which ends rejected. -/
theorem two_commands_for_rejected :
    AwaitsDecision ⟨5⟩ samplePending ∧
      ∃ t, run (step sampleConfig) samplePending sampleRace = some t ∧
        (t.standing ⟨5⟩).issued = 2 ∧ (t.standing ⟨5⟩).decisions = [.rejected] ∧
        ¬(t.standing ⟨5⟩).AtMostOneCommand := by
  refine ⟨samplePending_awaitsDecision, ?_⟩
  have hissued : (run (step sampleConfig) samplePending sampleRace).map
      (fun t => ((t.standing ⟨5⟩).issued, (t.standing ⟨5⟩).decisions)) = some (2, [.rejected]) := by
    decide +kernel
  obtain ⟨t, hrun, ht⟩ := Option.map_eq_some_iff.mp hissued
  obtain ⟨htwo, hrejected⟩ := Prod.mk.inj ht
  refine ⟨t, hrun, htwo, hrejected, fun hone => ?_⟩
  have hle := hone.1
  omega

end ControlPlane

end Ravn
