import Ravn.Server.Audit
import Ravn.Server.Ingest
import Ravn.Server.Provenance

/-! What ingestion issues for an event when messages are prepared only as they are stored: at most one
record, and at most one command of policy's own for it. -/

namespace Ravn

open Theory

variable {P : Platform} {cfg : IngestConfig P}

/-! ## One record and one command -/

/-- The records of an event, and policy's own commands for a proposal. -/
def AppState.records (s : AppState) (event : Uuid) : Nat :=
  s.store.rows.countP fun r => r.proposal.eventId = event

def AppState.autoCommands (s : AppState) (id : Uuid) : Nat :=
  s.enqueued.countP fun x => x.1 = id ∧ x.2.approvalRef = .policyAuto

/-- Commands that approve requests carry are a human's. -/
def humanSources : Sources where
  approved _ env := env.approvalRef ≠ .policyAuto
  prepared _ _ := True
  automatic _ _ := True

namespace Task

/-- The handler may still record something for the event. -/
def holds (event : Uuid) : Task → Bool
  | prepare e => e.id = event
  | prepareRecord _ p _ _ | insertCheck p _ | insertRow p _ | autoCheck p _ _
  | autoInsert p _ _ => p.eventId = event
  | _ => false

/-- The handler is about to enqueue policy's command for the proposal. -/
def issuing (id : Uuid) : Task → Bool
  | autoEnqueue id' _ => id' = id
  | _ => false

variable {app : AppConfig P} {s s' : AppState} {task task' : Task} {d : Draw}

/-- What an access keeps of the counts; `n` is for the other handlers. -/
structure Counts (s s' : AppState) (task task' : Task) : Prop where
  records : ∀ event n, n + s.records event + (task.holds event).toNat ≤ k →
    n + s'.records event + (task'.holds event).toNat ≤ k
  ids : ∀ id n, IdHeldOnce s id (n + (task.inserts id).toNat) →
    IdHeldOnce s' id (n + (task'.inserts id).toNat)
  commands : ∀ id n, n + s.autoCommands id + (task.issuing id).toNat ≤
      (s.store.rows.hasId id).toNat →
    n + s'.autoCommands id + (task'.issuing id).toNat ≤ (s'.store.rows.hasId id).toNat

/-- The proposals in the table are the same, nothing is enqueued or drawn, and the handler takes up
nothing new. -/
theorem Counts.of_same (hrows : s'.store.rows.map Row.proposal = s.store.rows.map Row.proposal)
    (henqueued : ∀ id, s'.autoCommands id = s.autoCommands id) (hdrawn : s'.drawn = s.drawn)
    (hholds : ∀ event, task'.holds event = true → task.holds event = true)
    (hinserts : ∀ id, task'.inserts id = true → task.inserts id = true)
    (hissuing : ∀ id, task'.issuing id = true → task.issuing id = true) :
    Counts s s' task task' := by
  have hle : ∀ {a b : Bool}, (a = true → b = true) → a.toNat ≤ b.toNat := by
    intro a b h
    cases a with
    | false => exact Nat.zero_le _
    | true => rw [h rfl]
  have hrecords : ∀ event, s'.records event = s.records event := by
    intro event
    have h := congrArg (List.countP fun p => decide (p.eventId = event)) hrows
    rwa [List.countP_map, List.countP_map] at h
  have hids : ∀ id, s'.store.rows.hasId id = s.store.rows.hasId id := by
    intro id
    have h := congrArg (List.any · fun p => decide (p.id = id)) hrows
    rwa [List.any_map, List.any_map] at h
  refine ⟨?_, ?_, ?_⟩
  · intro k event n h
    have := hle (hholds event)
    rw [hrecords]
    omega
  · intro id n h
    have := hle (hinserts id)
    unfold IdHeldOnce at h ⊢
    rw [hids, hdrawn]
    omega
  · intro id n h
    have := hle (hissuing id)
    rw [hids, henqueued]
    omega

/-- The handler has nothing to record and nothing to enqueue. -/
structure HoldsNothing (task : Task) : Prop where
  holds : ∀ event, task.holds event = false
  inserts : ∀ id, task.inserts id = false
  issuing : ∀ id, task.issuing id = false

/-- Waiting on something other than the record and the command of an event. -/
def idle : Task → Bool
  | prepare .. | prepareRecord .. | insertCheck .. | insertRow .. | autoCheck .. | autoInsert ..
  | autoEnqueue .. => false
  | _ => true

theorem HoldsNothing.of_idle (hidle : task.idle = true) : task.HoldsNothing := by
  cases task with
  | prepare | prepareRecord | insertCheck | insertRow | autoCheck | autoInsert | autoEnqueue =>
    cases hidle
  | _ => exact ⟨fun _ => rfl, fun _ => rfl, fun _ => rfl⟩

theorem Counts.released (hrows : s'.store.rows.map Row.proposal = s.store.rows.map Row.proposal)
    (henqueued : ∀ id, s'.autoCommands id = s.autoCommands id) (hdrawn : s'.drawn = s.drawn)
    (hnothing : task'.HoldsNothing) : Counts s s' task task' :=
  .of_same hrows henqueued hdrawn (by simp [hnothing.holds]) (by simp [hnothing.inserts])
    (by simp [hnothing.issuing])

theorem map_proposal_updateWhere {t : Table} {cond : Row → Bool} {set : Row → Row}
    (hset : ∀ r, (set r).proposal = r.proposal) :
    (t.updateWhere cond set).2.map Row.proposal = t.map Row.proposal := by
  simp only [Table.updateWhere, List.map_map]
  apply List.map_congr_left
  intro r _
  simp only [Function.comp_apply]
  split
  · exact hset r
  · rfl

/-- An id that a row has is one that was drawn, so nothing else holds it. -/
theorem IdHeldOnce.not_hasId {id : Uuid} (h : IdHeldOnce s id n) (hn : 0 < n) :
    s.store.rows.hasId id = false := by
  unfold IdHeldOnce at h
  have hle := Bool.toNat_le (decide (id ∈ s.drawn))
  cases hhas : s.store.rows.hasId id with
  | false => rfl
  | true =>
    rw [hhas, Bool.toNat_true] at h
    omega

theorem insertRow_of_not_hasId {t : Table} {r : Row} (hnew : t.hasId r.proposal.id = false) :
    t.insertRow r = t ++ [r] := by
  have hkey : t.hasKey r.proposal = false := by
    rw [Table.hasKey, List.any_eq_false]
    intro r' hr' h
    exact List.any_eq_false.mp hnew r' hr' (decide_eq_true (of_decide_eq_true h).1)
  simp [Table.insertRow, hkey]

theorem toNat_hasId_snoc {t : Table} {r : Row} (hnew : t.hasId r.proposal.id = false) (id : Uuid) :
    (Table.hasId (t ++ [r]) id).toNat = (t.hasId id).toNat + (decide (r.proposal.id = id)).toNat := by
  by_cases hid : r.proposal.id = id
  · subst hid
    simp [Table.hasId] at hnew ⊢
    simpa using hnew
  · simp [Table.hasId, hid]

/-- The row is written: the record passes from the handler to the table. -/
theorem counts_insertRow (r : Row) (hnew : s.store.rows.hasId r.proposal.id = false)
    (hholds : ∀ event, task.holds event = decide (r.proposal.eventId = event))
    (hholds' : ∀ event, task'.holds event = false)
    (hinserts : ∀ id, task.inserts id = decide (r.proposal.id = id))
    (hinserts' : ∀ id, task'.inserts id = false) (hissuing : ∀ id, task.issuing id = false)
    (hissuing' : ∀ id, task'.issuing id = true → r.proposal.id = id) :
    Counts s (s.setRows (s.store.rows.insertRow r)) task task' := by
  have hids := toNat_hasId_snoc hnew
  rw [insertRow_of_not_hasId hnew]
  refine ⟨?_, ?_, ?_⟩
  · intro k event n h
    rw [hholds] at h
    rw [hholds']
    change n + (s.store.rows ++ [r]).countP _ + 0 ≤ k
    rw [List.countP_append, List.countP_singleton]
    unfold AppState.records at h
    by_cases hevent : r.proposal.eventId = event
    · simp only [hevent, decide_true, Bool.toNat_true, if_true] at h ⊢
      omega
    · simp only [hevent, decide_false, Bool.toNat_false, Bool.false_eq_true, if_false] at h ⊢
      omega
  · intro id n h
    rw [hinserts] at h
    rw [hinserts']
    unfold IdHeldOnce at h ⊢
    change n + 0 + ((s.store.rows ++ [r]).hasId id).toNat ≤ (decide (id ∈ s.drawn)).toNat
    rw [hids]
    omega
  · intro id n h
    rw [hissuing] at h
    change n + s.autoCommands id + (task'.issuing id).toNat ≤ ((s.store.rows ++ [r]).hasId id).toNat
    rw [hids]
    cases hiss : task'.issuing id with
    | false =>
      simp only [Bool.toNat_false] at h ⊢
      omega
    | true =>
      simp only [hissuing' id hiss, decide_true, Bool.toNat_true, Bool.toNat_false] at h ⊢
      omega

theorem autoCommands_enqueue (id' : Uuid) (env : CommandEnvelope) (id : Uuid) :
    (s.enqueue id' env).autoCommands id =
      s.autoCommands id + (decide (id' = id ∧ env.approvalRef = .policyAuto)).toNat := by
  simp only [AppState.autoCommands, AppState.enqueue, List.countP_append, List.countP_singleton]
  cases decide (id' = id ∧ env.approvalRef = .policyAuto) <;> rfl

/-- Policy's command passes from the handler to the queue. -/
theorem counts_autoEnqueue (id : Uuid) (env : CommandEnvelope) :
    Counts s (s.enqueue id env) (.autoEnqueue id env) .finished := by
  refine ⟨fun event n h => h, fun id' n h => h, ?_⟩
  intro id' n h
  rw [autoCommands_enqueue]
  change n + s.autoCommands id' + (decide (id = id')).toNat ≤ _ at h
  change n + (s.autoCommands id' + _) + 0 ≤ (s.store.rows.hasId id').toNat
  by_cases hid : id = id'
  · have hle := Bool.toNat_le (decide (id = id' ∧ env.approvalRef = .policyAuto))
    simp only [hid, decide_true, Bool.toNat_true] at h hle ⊢
    omega
  · simp only [hid, false_and, decide_false, Bool.toNat_false] at h ⊢
    omega

theorem prepareStep_holds {event : Uuid} (h : prepareStep app s e d = (s', task'))
    (hholds : task'.holds event = true) : e.id = event := by
  unfold prepareStep at h
  split at h
  · cases h
    cases hholds
  rename_i t p hproposal
  obtain ⟨-, params, -, rfl⟩ := prepareProposal_eq_some hproposal
  have hevent : ((buildProposal t e params d.proposalId d.createdAt).withNote d.note).eventId =
      e.id := by cases d.note <;> rfl
  dsimp only at h
  split at h
  · cases h
    cases hholds
  · cases h
    split at hholds
    · cases hholds
    · exact hevent.symm.trans (of_decide_eq_true hholds)
    · exact hevent.symm.trans (of_decide_eq_true hholds)

/-- The handler comes to hold the id it draws; the event it holds already. -/
theorem counts_prepare (e : Event) (hits : HitLog) (id : Uuid) (hfresh : id ∉ s.drawn)
    (hprepared : Prepared id task') (hholds : ∀ event, task'.holds event = true → e.id = event) :
    Counts s { s with drawn := s.drawn ++ [id], hits := hits } (.prepare e) task' := by
  have hissuing : ∀ id', task'.issuing id' = false := by
    obtain rfl | ⟨p, sig, -, rfl | ⟨t, call, rfl⟩⟩ := hprepared <;> exact fun _ => rfl
  refine ⟨?_, (keeps_prepare e hits id hfresh hprepared).idHeldOnce, ?_⟩
  · intro k event n h
    have h : n + s.records event + (decide (e.id = event)).toNat ≤ k := h
    change n + s.records event + (task'.holds event).toNat ≤ k
    cases hh : task'.holds event with
    | false => simp only [Bool.toNat_false]; omega
    | true =>
      simp only [hholds event hh, decide_true, Bool.toNat_true] at h ⊢
      omega
  · intro id' n h
    rw [hissuing]
    exact h

theorem step_counts (h : step app s task d = some (s', task')) (hhuman : task.Sourced humanSources)
    (hnew : ∀ id, task.inserts id = true → s.store.rows.hasId id = false) :
    Counts s s' task task' := by
  cases step_access h with
  | approveEnqueued id role env =>
    refine .released rfl ?_ rfl (.of_idle rfl)
    intro id'
    have hne : env.approvalRef ≠ .policyAuto := hhuman
    simp [autoCommands_enqueue, hne]
  | approveUpdated id «by» env key hok =>
    refine .released (map_proposal_updateWhere fun _ => rfl) (fun _ => rfl) rfl ?_
    unfold afterApprove
    split <;> exact .of_idle rfl
  | rejectUpdated id role «at» key hok =>
    refine .released (map_proposal_updateWhere fun _ => rfl) (fun _ => rfl) rfl ?_
    unfold afterReject
    split <;> exact .of_idle rfl
  | prepared e hfresh hprepare =>
    have hholds : ∀ event, task'.holds event = true → e.id = event :=
      fun event => prepareStep_holds hprepare
    obtain ⟨rfl, rfl⟩ | ⟨hits, rfl, hprepared⟩ := prepareStep_cases hprepare
    · exact .released rfl (fun _ => rfl) rfl (.of_idle rfl)
    · exact counts_prepare e hits d.proposalId hfresh hprepared hholds
  | recorded | insertFree | autoFree =>
    exact .of_same rfl (fun _ => rfl) rfl (fun _ h => h) (fun _ h => h) fun _ h => nomatch h
  | inserted p sig hok =>
    exact counts_insertRow _ (hnew p.id (decide_eq_true rfl)) (fun _ => rfl) (fun _ => rfl)
      (fun _ => rfl) (fun _ => rfl) (fun _ => rfl) fun _ h => nomatch h
  | autoInserted p env sig hok =>
    exact counts_insertRow _ (hnew p.id (decide_eq_true rfl)) (fun _ => rfl) (fun _ => rfl)
      (fun _ => rfl) (fun _ => rfl) (fun _ => rfl) fun _ h => of_decide_eq_true h
  | autoEnqueued id env => exact counts_autoEnqueue id env
  | resultUpdated result hok =>
    exact .released (map_proposal_updateWhere fun _ => rfl) (fun _ => rfl) rfl (.of_idle rfl)
  | _ => exact .released rfl (fun _ => rfl) rfl (.of_idle rfl)

end Task

namespace IngestState

/-- Each stored event has one record or one handler at most, each proposal one id holder, and each
record one command of policy's own. -/
structure OncePerEvent (s : IngestState) : Prop where
  records : ∀ event, s.plane.shared.records event + s.plane.tasks.countP (Task.holds event) ≤
    (s.events.hasId event).toNat
  ids : ∀ id, Task.IdHeldOnce s.plane.shared id (s.plane.tasks.countP (Task.inserts id))
  commands : ∀ id, s.plane.shared.autoCommands id + s.plane.tasks.countP (Task.issuing id) ≤
    (s.plane.shared.store.rows.hasId id).toNat
  human : ∀ task ∈ s.plane.tasks, task.Sourced humanSources

variable {s s' : IngestState}

/-- Only the events, the control plane and what it shares matter. -/
theorem OncePerEvent.of_eq (h : OncePerEvent s) (hplane : s'.plane = s.plane)
    (hevents : ∀ event, s'.events.hasId event = s.events.hasId event) : OncePerEvent s' := by
  refine ⟨?_, ?_, ?_, ?_⟩
  · intro event
    rw [hplane, hevents]
    exact h.records event
  · rw [hplane]
    exact h.ids
  · rw [hplane]
    exact h.commands
  · rw [hplane]
    exact h.human

/-- A handler is added that may record an event that is stored only now. -/
theorem OncePerEvent.push (h : OncePerEvent s) (task : Task)
    (hplane : s'.plane.shared = s.plane.shared)
    (htasks : s'.plane.tasks = s.plane.tasks ++ [task])
    (hrecords : ∀ event, (s.events.hasId event).toNat + (task.holds event).toNat ≤
      (s'.events.hasId event).toNat)
    (hinserts : ∀ id, task.inserts id = false) (hissuing : ∀ id, task.issuing id = false)
    (hhuman : task.Sourced humanSources) : OncePerEvent s' := by
  refine ⟨?_, ?_, ?_, ?_⟩
  · intro event
    have hold := h.records event
    have hadd := hrecords event
    rw [hplane, htasks, List.countP_append, List.countP_singleton]
    cases hholds : task.holds event <;> rw [hholds] at hadd <;>
      simp only [Bool.toNat_false, Bool.toNat_true, Bool.false_eq_true, if_false, if_true]
        at hadd ⊢ <;> omega
  · intro id
    rw [hplane, htasks, List.countP_append, List.countP_singleton, hinserts]
    exact h.ids id
  · intro id
    rw [hplane, htasks, List.countP_append, List.countP_singleton, hissuing]
    exact h.commands id
  · intro u hu
    rw [htasks] at hu
    rcases List.mem_append.mp hu with hu | hu
    · exact h.human u hu
    · rw [List.mem_singleton.mp hu]
      exact hhuman

theorem OncePerEvent.advance (h : OncePerEvent s)
    (hstep : s.controlStep cfg (.advance i d) written = some s') : OncePerEvent s' := by
  obtain ⟨task₀, -, hstep⟩ := Option.bind_eq_some_iff.mp hstep
  obtain ⟨plane, hplane, rfl⟩ := Option.map_eq_some_iff.mp hstep
  obtain ⟨_, hl, -⟩ | ⟨_, hl, -⟩ | ⟨i, d, pre, task, post, shared, task', hl, htask, htasks,
    hadvance, rfl⟩ := Pool.step_cases hplane
  · cases hl
  · cases hl
  have hmem : task ∈ s.plane.tasks := by
    rw [htasks]
    exact List.mem_append_right _ List.mem_cons_self
  have hsplit : ∀ p : Task → Bool, s.plane.tasks.countP p =
      pre.countP p + post.countP p + (p task).toNat := by
    intro p
    rw [htasks, Pool.countP_replaced]
  have hnew : ∀ id, task.inserts id = true → s.plane.shared.store.rows.hasId id = false := by
    intro id hid
    refine (h.ids id).not_hasId ?_
    rw [hsplit, hid, Bool.toNat_true]
    exact Nat.succ_pos _
  have hcounts := Task.step_counts hadvance (h.human task hmem) hnew
  refine ⟨?_, ?_, ?_, ?_⟩
  · intro event
    have hold := h.records event
    rw [hsplit] at hold
    have hnext := hcounts.records event (pre.countP (Task.holds event) +
      post.countP (Task.holds event)) (k := (s.events.hasId event).toNat) (by omega)
    dsimp only
    rw [Pool.countP_replaced]
    omega
  · intro id
    have hold := h.ids id
    rw [hsplit] at hold
    dsimp only
    rw [Pool.countP_replaced]
    exact hcounts.ids id _ hold
  · intro id
    have hold := h.commands id
    rw [hsplit] at hold
    have hnext := hcounts.commands id (pre.countP (Task.issuing id) +
      post.countP (Task.issuing id)) (by omega)
    dsimp only
    rw [Pool.countP_replaced]
    omega
  · intro u hu
    have hu : u = task' ∨ u ∈ pre ++ task :: post := Pool.mem_replaced hu
    rcases hu with rfl | hu
    · refine (Task.step_sourced hadvance (h.human task hmem) ⟨?_, ?_, ?_⟩).1
      · rintro id role p env - - hbuild
        obtain ⟨t, -, hbuilt⟩ := approveProposal_eq_some hbuild
        intro hauto
        cases hauto.symm.trans hbuilt.approvalRef
      · exact fun _ _ _ _ _ => trivial
      · exact fun _ _ _ _ _ => trivial
    · exact h.human u (htasks ▸ hu)

theorem hasId_updateExplanation (t : EventTable) (e : Event)
    (explanation : Explanation) (id : Uuid) :
    (t.updateExplanation e explanation).hasId id = t.hasId id := by
  simp only [EventTable.hasId, EventTable.updateExplanation, List.any_map]
  congr 1
  funext m
  simp only [Function.comp_apply]
  split <;> rfl

theorem OncePerEvent.deliver (h : OncePerEvent s) (msg : Message)
    (hkey : s.events.hasKey msg.event = false)
    (hunique : s.events.hasId msg.event.id = true → s.events.hasKey msg.event = true) :
    OncePerEvent (s.persistMessage cfg msg) := by
  refine h.push (.prepare msg.event) rfl rfl ?_ (fun _ => rfl) (fun _ => rfl) trivial
  intro event
  change _ + (decide (msg.event.id = event)).toNat ≤ ((s.events.insertMessage msg).hasId event).toNat
  have hevents : s.events.insertMessage msg = s.events ++ [msg] := by
    simp [EventTable.insertMessage, hkey]
  rw [hevents]
  by_cases hevent : msg.event.id = event
  · have hnew : s.events.hasId event = false := by
      cases hhas : s.events.hasId event with
      | false => rfl
      | true =>
        subst hevent
        cases hkey.symm.trans (hunique hhas)
    rw [hnew]
    simp [hevent, EventTable.hasId]
  · simp [hevent, EventTable.hasId]

theorem OncePerEvent.step (h : OncePerEvent s)
    (hunique : ∀ msg, l = .deliver msg true → s.events.hasId msg.event.id = true →
      s.events.hasKey msg.event = true)
    (hstep : stepOnce cfg s l = some s') : OncePerEvent s' := by
  cases l with
  | deliver msg ok =>
    cases ok with
    | false =>
      cases hstep
      exact h
    | true =>
      cases hstep
      simp only [if_true]
      split
      · exact h.push .finished rfl rfl (fun _ => le_rfl) (fun _ => rfl) (fun _ => rfl) trivial
      · rename_i hkey
        exact h.deliver msg (by simpa using hkey) (hunique msg rfl)
  | explained i explanation ok =>
    obtain ⟨event, -, rfl⟩ := Option.map_eq_some_iff.mp hstep
    refine h.of_eq rfl fun id => ?_
    dsimp only
    split
    · split
      · exact hasId_updateExplanation ..
      · rfl
    · rfl
  | plane l written =>
    cases l with
    | advance i d =>
      simp only [stepOnce] at hstep
      split at hstep
      · cases hstep
        exact h
      · exact h.advance hstep
    | access agent =>
      cases hstep
      exact ⟨h.records, h.ids, h.commands, h.human⟩
    | spawn request =>
      cases request with
      | ingest event => cases hstep
      | _ =>
        cases hstep
        exact h.push _ rfl rfl (fun _ => le_rfl) (fun _ => rfl) (fun _ => rfl) trivial

/-- Each stored event of a table has one record at most, and no other event has one. -/
def RecordsStored (events : EventTable) (rows : Table) : Prop :=
  ∀ event, rows.countP (fun r => r.proposal.eventId = event) ≤ (events.hasId event).toNat

theorem OncePerEvent.start {events : EventTable} {rows : Table} (h : RecordsStored events rows)
    (kb : KnowledgeBase) : OncePerEvent (start events rows kb) := by
  refine ⟨h, ?_, fun _ => Nat.zero_le _, fun _ h => nomatch h⟩
  intro id
  change 0 + (rows.hasId id).toNat ≤ (decide (id ∈ rows.map fun r => r.proposal.id)).toNat
  cases hid : rows.hasId id with
  | false => exact Nat.zero_le _
  | true =>
    obtain ⟨r, hr, hid⟩ := List.any_eq_true.mp hid
    have hmem : id ∈ rows.map fun r => r.proposal.id :=
      List.mem_map.mpr ⟨r, hr, of_decide_eq_true hid⟩
    simp [hmem]

end IngestState

end Ravn
