import Ravn.Server.ApprovedTemplate
import Ravn.Server.CommandQueue
import Ravn.Server.Policy
import Ravn.Server.RemediationStore
import Ravn.Theory.Interleaving

/-! The control plane's handlers, interleaved. A handler is cut at its accesses to what it shares
with the others: each SQL statement and each section under a lock is one step. What it computes
between two accesses belongs to the first of them. -/

namespace Ravn

open Theory

/-- A proposal whose rationale is followed by what the knowledge base recalls, if anything. -/
def RemediationProposal.withNote (p : RemediationProposal) : Option String → RemediationProposal
  | some note => { p with rationale := p.rationale ++ " " ++ note }
  | none => p

@[simp] theorem RemediationProposal.withNote_id (p : RemediationProposal) (note : Option String) :
    (p.withNote note).id = p.id := by
  cases note <;> rfl

/-- The role that the authentication layer attaches to a request; without it every request is the
admin's. -/
inductive Role where
  | admin
  | viewer
deriving DecidableEq

/-- The user that a decision is recorded under. -/
def Role.user : Role → String
  | admin => "admin"
  | viewer => "viewer"

/-- What the handlers read and never write. -/
structure AppConfig (P : Platform) where
  templates : TemplateRegistry
  signer : P.SigningKey
  ttlSecs : Int
  policy : PolicyEngine

/-- What the handlers share, and what is remembered of the past: the proposal ids drawn, the
commands enqueued with the proposal each is for, and the commands handed out. -/
structure AppState where
  store : RemediationStore
  queue : CommandQueue
  hits : HitLog
  drawn : List Uuid
  enqueued : List (Uuid × CommandEnvelope)
  returned : List CommandEnvelope

/-- A handler, by the access it makes next. -/
inductive Task where
  /-- `approve_remediation`: the SELECT of the pending proposal. -/
  | approveSelect (id : Uuid) (role : Role)
  | approveEnqueue (id : Uuid) (role : Role) (env : CommandEnvelope)
  /-- `RemediationStore::approve`: the SELECT for the key, the UPDATE, the eviction. -/
  | approveKey (id : Uuid) (role : Role) (env : CommandEnvelope)
  | approveUpdate (id : Uuid) («by» : ApprovalRef) (env : CommandEnvelope) (key : Option DedupKey)
  | approveEvict (id : Uuid) (env : CommandEnvelope) (key : DedupKey)
  /-- The handler has answered that the remediation is approved. It does not look at what `approve`
  returned. -/
  | approved (id : Uuid) (env : CommandEnvelope) (found : Bool)
  /-- `RemediationStore::reject`, likewise. -/
  | rejectKey (id : Uuid) (role : Role)
  | rejectUpdate (id : Uuid) (role : Role) («at» : DateTime) (key : Option DedupKey)
  | rejectEvict (key : DedupKey)
  /-- `prepare_inner`, up to the breaker's first section; then its second one. -/
  | prepare (event : Event)
  | prepareRecord (t : Template) (proposal : RemediationProposal) (faultSignature : String)
      (call : PolicyCall)
  /-- `RemediationStore::insert`. -/
  | insertCheck (proposal : RemediationProposal) (faultSignature : String)
  | insertRow (proposal : RemediationProposal) (faultSignature : String)
  | insertKey (key : DedupKey)
  /-- `auto_execute`: `insert_auto_approved`, then the queue. -/
  | autoCheck (proposal : RemediationProposal) (env : CommandEnvelope) (faultSignature : String)
  | autoInsert (proposal : RemediationProposal) (env : CommandEnvelope) (faultSignature : String)
  | autoEnqueue (id : Uuid) (env : CommandEnvelope)
  /-- `post_command_result`. -/
  | resultUpdate (result : ActionResult)
  | resultPush (result : ActionResult)
  | finished

inductive Request where
  | approve (id : Uuid) (role : Role)
  | reject (id : Uuid) (role : Role)
  | ingest (event : Event)
  | postResult (result : ActionResult)

def Request.start : Request → Task
  | approve id role => .approveSelect id role
  | reject id role => .rejectKey id role
  | ingest event => .prepare event
  | postResult result => .resultUpdate result

/-- What a step draws from outside: the answer of the database, the clock, the ids for a command or
a proposal, and what the knowledge base recalls of the fault. -/
structure Draw where
  reply : Reply
  now : DateTime
  fresh : Fresh
  proposalId : Uuid
  createdAt : DateTime
  note : Option String

namespace AppState

def start (rows : Table) : AppState where
  store := .new rows
  queue := .empty
  hits := fun _ => []
  drawn := rows.map fun r => r.proposal.id
  enqueued := []
  returned := []

def setRows (s : AppState) (rows : Table) : AppState :=
  { s with store := { s.store with rows := rows } }

def setKeys (s : AppState) (keys : Finset DedupKey) : AppState :=
  { s with store := { s.store with pendingKeys := keys } }

def enqueue (s : AppState) (id : Uuid) (env : CommandEnvelope) : AppState :=
  { s with queue := s.queue.enqueue env, enqueued := s.enqueued ++ [(id, env)] }

/-- `get_commands`. -/
def pull (s : AppState) (agent : Uuid) : AppState :=
  let (envs, queue) := s.queue.takeFor agent
  { s with queue := queue, returned := s.returned ++ envs }

end AppState

namespace Task

variable {P : Platform} (cfg : AppConfig P)

/-- `prepare_inner` up to the breaker's first section. -/
def prepareStep (s : AppState) (event : Event) (d : Draw) : AppState × Task :=
  match prepareProposal cfg.templates event d.proposalId d.createdAt with
  | none => (s, .finished)
  | some (t, proposal) =>
    let proposal := proposal.withNote d.note
    let s := { s with drawn := s.drawn ++ [proposal.id] }
    let call : PolicyCall := ⟨event.host, t.riskTier, t.id, d.now⟩
    match cfg.policy.consult s.hits call with
    | none => (s, .finished)
    | some (r, hits) =>
      ({ s with hits := hits }, match r.decision with
        | .forbid => .finished
        | .approve => .insertCheck proposal (faultSignature event)
        | .auto => .prepareRecord t proposal (faultSignature event) call)

/-- Where `approve` goes on after its UPDATE: the key is evicted if one was read and a row found. -/
def afterApprove (id : Uuid) (env : CommandEnvelope) : Bool → Option DedupKey → Task
  | true, some key => .approveEvict id env key
  | found, _ => .approved id env found

def afterReject : Bool → Option DedupKey → Task
  | true, some key => .rejectEvict key
  | _, _ => .finished

/-- One access of a task; a task that has ended makes none. A proposal is never drawn an id that was
drawn before. -/
def step (s : AppState) (task : Task) (d : Draw) : Option (AppState × Task) :=
  match task with
  | .approveSelect id role =>
    let proposal := if d.reply.ok then s.store.rows.pendingProposal id else none
    some (s, match proposal.bind fun p => approveProposal P cfg.templates cfg.signer
        (.human role.user d.now) cfg.ttlSecs p d.fresh with
      | some env => .approveEnqueue id role env
      | none => .finished)
  | .approveEnqueue id role env => some (s.enqueue id env, .approveKey id role env)
  | .approveKey id role env =>
    some (s, .approveUpdate id (.human role.user d.now) env (s.store.pendingKey id d.reply.ok))
  | .approveUpdate id «by» env key =>
    if d.reply.ok then
      let (found, rows) := s.store.rows.approveRemediation id (.approved «by») env.commandId env.sig
        d.reply.now
      some (s.setRows rows, afterApprove id env found key)
    else some (s, .approved id env false)
  | .approveEvict id env key =>
    some (s.setKeys (s.store.pendingKeys.erase key), .approved id env true)
  | .rejectKey id role =>
    some (s, .rejectUpdate id role d.now (s.store.pendingKey id d.reply.ok))
  | .rejectUpdate id role «at» key =>
    if d.reply.ok then
      let (found, rows) := s.store.rows.rejectRemediation id (.rejected role.user «at» none)
        d.reply.now
      some (s.setRows rows, afterReject found key)
    else some (s, .finished)
  | .rejectEvict key => some (s.setKeys (s.store.pendingKeys.erase key), .finished)
  | .prepare event =>
    if d.proposalId ∈ s.drawn then none else some (prepareStep cfg s event d)
  | .prepareRecord t proposal faultSignature call =>
    some ({ s with hits := PolicyEngine.record s.hits call },
      match buildCommand P proposal t cfg.signer .policyAuto cfg.ttlSecs d.fresh with
      | some (.ok env) => .autoCheck proposal env faultSignature
      | _ => .finished)
  | .insertCheck proposal faultSignature =>
    some (s, if DedupKey.fromProposal proposal ∈ s.store.pendingKeys then .finished
      else .insertRow proposal faultSignature)
  | .insertRow proposal faultSignature =>
    if d.reply.ok then
      some (s.setRows (s.store.rows.insertRemediation proposal faultSignature d.reply.now),
        .insertKey (.fromProposal proposal))
    else some (s, .finished)
  | .insertKey key => some (s.setKeys (insert key s.store.pendingKeys), .finished)
  | .autoCheck proposal env faultSignature =>
    some (s, if DedupKey.fromProposal proposal ∈ s.store.pendingKeys then .finished
      else .autoInsert proposal env faultSignature)
  | .autoInsert proposal env faultSignature =>
    if d.reply.ok then
      some (s.setRows (s.store.rows.insertAutoApproved proposal (.approved .policyAuto)
        env.commandId env.sig faultSignature d.reply.now), .autoEnqueue proposal.id env)
    else some (s, .finished)
  | .autoEnqueue id env => some (s.enqueue id env, .finished)
  | .resultUpdate result =>
    some (if d.reply.ok then s.setRows (s.store.rows.recordResult result d.reply.now).2 else s,
      .resultPush result)
  | .resultPush result => some ({ s with queue := s.queue.recordResult result }, .finished)
  | .approved .. | .finished => none

/-! Left alone, a handler's accesses amount to the store's operation. -/

section

variable (s : AppState) (d₁ d₂ d₃ : Draw)

theorem alone_approveKey (id : Uuid) (role : Role) (env : CommandEnvelope) :
    let r := s.store.approve id (.human role.user d₁.now) env.commandId env.sig d₁.reply.ok d₂.reply
    Pool.alone (step cfg) s (.approveKey id role env) [d₁, d₂, d₃] =
      ({ s with store := r.2 }, .approved id env r.1) := by
  simp only [Pool.alone, step, RemediationStore.approve]
  cases d₂.reply.ok with
  | false => rfl
  | true =>
    simp only [if_true, RemediationStore.decided]
    cases (s.store.rows.approveRemediation ..).1 <;> cases s.store.pendingKey id d₁.reply.ok <;> rfl

theorem alone_rejectKey (id : Uuid) (role : Role) :
    Pool.alone (step cfg) s (.rejectKey id role) [d₁, d₂, d₃] =
      ({ s with store := (s.store.reject id role.user d₁.now none d₁.reply.ok d₂.reply).2 },
        .finished) := by
  simp only [Pool.alone, step, RemediationStore.reject]
  cases d₂.reply.ok with
  | false => rfl
  | true =>
    simp only [if_true, RemediationStore.decided]
    cases (s.store.rows.rejectRemediation ..).1 <;> cases s.store.pendingKey id d₁.reply.ok <;> rfl

theorem alone_insertCheck (proposal : RemediationProposal) (sig : String) :
    Pool.alone (step cfg) s (.insertCheck proposal sig) [d₁, d₂, d₃] =
      ({ s with store := (s.store.insert proposal sig d₂.reply).2 }, .finished) := by
  unfold RemediationStore.insert
  by_cases hkey : DedupKey.fromProposal proposal ∈ s.store.pendingKeys
  · simp only [Pool.alone, step, hkey, if_true]
  · simp only [Pool.alone, step, hkey, if_false]
    cases d₂.reply.ok <;> rfl

theorem alone_autoCheck (proposal : RemediationProposal) (env : CommandEnvelope) (sig : String) :
    let r := s.store.insertAutoApproved proposal env.commandId env.sig sig d₂.reply
    Pool.alone (step cfg) s (.autoCheck proposal env sig) [d₁, d₂, d₃] =
      (r.1.elim { s with store := r.2 } fun id => { s with store := r.2 }.enqueue id env,
        .finished) := by
  unfold RemediationStore.insertAutoApproved
  by_cases hkey : DedupKey.fromProposal proposal ∈ s.store.pendingKeys
  · simp only [Pool.alone, step, hkey, if_true, Option.elim_none]
  · simp only [Pool.alone, step, hkey, if_false]
    cases d₂.reply.ok <;> rfl

end

variable {cfg}

/-- What one access can do: the task before it, and the state and the task after it. -/
inductive Access (cfg : AppConfig P) (s : AppState) (d : Draw) : Task → AppState → Task → Prop where
  | approveSelected (id : Uuid) (role : Role) (p : RemediationProposal) (env : CommandEnvelope)
    (hp : s.store.rows.pendingProposal id = some p)
    (henv : approveProposal P cfg.templates cfg.signer (.human role.user d.now) cfg.ttlSecs p d.fresh =
      some env) : Access cfg s d (.approveSelect id role) s (.approveEnqueue id role env)
  | approveRefused (id : Uuid) (role : Role) : Access cfg s d (.approveSelect id role) s .finished
  | approveEnqueued (id : Uuid) (role : Role) (env : CommandEnvelope) :
    Access cfg s d (.approveEnqueue id role env) (s.enqueue id env) (.approveKey id role env)
  | approveKeyRead (id : Uuid) (role : Role) (env : CommandEnvelope) :
    Access cfg s d (.approveKey id role env) s
      (.approveUpdate id (.human role.user d.now) env (s.store.pendingKey id d.reply.ok))
  | approveUpdated (id : Uuid) («by» : ApprovalRef) (env : CommandEnvelope) (key : Option DedupKey)
    (hok : d.reply.ok = true) :
    Access cfg s d (.approveUpdate id «by» env key)
      (s.setRows (s.store.rows.approveRemediation id (.approved «by») env.commandId env.sig
        d.reply.now).2)
      (afterApprove id env (s.store.rows.approveRemediation id (.approved «by») env.commandId env.sig
        d.reply.now).1 key)
  | approveFailed (id : Uuid) («by» : ApprovalRef) (env : CommandEnvelope) (key : Option DedupKey)
    (hok : d.reply.ok = false) :
    Access cfg s d (.approveUpdate id «by» env key) s (.approved id env false)
  | approveEvicted (id : Uuid) (env : CommandEnvelope) (key : DedupKey) :
    Access cfg s d (.approveEvict id env key) (s.setKeys (s.store.pendingKeys.erase key))
      (.approved id env true)
  | rejectKeyRead (id : Uuid) (role : Role) :
    Access cfg s d (.rejectKey id role) s
      (.rejectUpdate id role d.now (s.store.pendingKey id d.reply.ok))
  | rejectUpdated (id : Uuid) (role : Role) («at» : DateTime) (key : Option DedupKey)
    (hok : d.reply.ok = true) :
    Access cfg s d (.rejectUpdate id role «at» key)
      (s.setRows (s.store.rows.rejectRemediation id (.rejected role.user «at» none) d.reply.now).2)
      (afterReject (s.store.rows.rejectRemediation id (.rejected role.user «at» none)
        d.reply.now).1 key)
  | rejectFailed (id : Uuid) (role : Role) («at» : DateTime) (key : Option DedupKey)
    (hok : d.reply.ok = false) : Access cfg s d (.rejectUpdate id role «at» key) s .finished
  | rejectEvicted (key : DedupKey) :
    Access cfg s d (.rejectEvict key) (s.setKeys (s.store.pendingKeys.erase key)) .finished
  | prepared (event : Event) (hfresh : d.proposalId ∉ s.drawn)
    (hprepare : prepareStep cfg s event d = (s', task')) : Access cfg s d (.prepare event) s' task'
  | recorded (t : Template) (p : RemediationProposal) (sig : String) (call : PolicyCall)
    (env : CommandEnvelope)
    (henv : buildCommand P p t cfg.signer .policyAuto cfg.ttlSecs d.fresh = some (.ok env)) :
    Access cfg s d (.prepareRecord t p sig call) { s with hits := PolicyEngine.record s.hits call }
      (.autoCheck p env sig)
  | recordedOnly (t : Template) (p : RemediationProposal) (sig : String) (call : PolicyCall) :
    Access cfg s d (.prepareRecord t p sig call) { s with hits := PolicyEngine.record s.hits call }
      .finished
  | insertTaken (p : RemediationProposal) (sig : String) :
    Access cfg s d (.insertCheck p sig) s .finished
  | insertFree (p : RemediationProposal) (sig : String) :
    Access cfg s d (.insertCheck p sig) s (.insertRow p sig)
  | inserted (p : RemediationProposal) (sig : String) (hok : d.reply.ok = true) :
    Access cfg s d (.insertRow p sig) (s.setRows (s.store.rows.insertRemediation p sig d.reply.now))
      (.insertKey (.fromProposal p))
  | insertFailed (p : RemediationProposal) (sig : String) (hok : d.reply.ok = false) :
    Access cfg s d (.insertRow p sig) s .finished
  | keyInserted (key : DedupKey) :
    Access cfg s d (.insertKey key) (s.setKeys (insert key s.store.pendingKeys)) .finished
  | autoTaken (p : RemediationProposal) (env : CommandEnvelope) (sig : String) :
    Access cfg s d (.autoCheck p env sig) s .finished
  | autoFree (p : RemediationProposal) (env : CommandEnvelope) (sig : String) :
    Access cfg s d (.autoCheck p env sig) s (.autoInsert p env sig)
  | autoInserted (p : RemediationProposal) (env : CommandEnvelope) (sig : String)
    (hok : d.reply.ok = true) :
    Access cfg s d (.autoInsert p env sig)
      (s.setRows (s.store.rows.insertAutoApproved p (.approved .policyAuto) env.commandId env.sig sig
        d.reply.now)) (.autoEnqueue p.id env)
  | autoFailed (p : RemediationProposal) (env : CommandEnvelope) (sig : String)
    (hok : d.reply.ok = false) : Access cfg s d (.autoInsert p env sig) s .finished
  | autoEnqueued (id : Uuid) (env : CommandEnvelope) :
    Access cfg s d (.autoEnqueue id env) (s.enqueue id env) .finished
  | resultUpdated (result : ActionResult) (hok : d.reply.ok = true) :
    Access cfg s d (.resultUpdate result)
      (s.setRows (s.store.rows.recordResult result d.reply.now).2) (.resultPush result)
  | resultFailed (result : ActionResult) (hok : d.reply.ok = false) :
    Access cfg s d (.resultUpdate result) s (.resultPush result)
  | resultPushed (result : ActionResult) :
    Access cfg s d (.resultPush result) { s with queue := s.queue.recordResult result } .finished

/-- Every step is one of the accesses. -/
theorem step_access (h : step cfg s task d = some (s', task')) : Access cfg s d task s' task' := by
  cases task with
  | approveSelect id role =>
    cases h
    split
    · rename_i env henv
      obtain ⟨p, hp, hbuild⟩ := Option.bind_eq_some_iff.mp henv
      split at hp
      · exact .approveSelected id role p env hp hbuild
      · cases hp
    · exact .approveRefused id role
  | approveEnqueue id role env => cases h; exact .approveEnqueued id role env
  | approveKey id role env => cases h; exact .approveKeyRead id role env
  | approveUpdate id «by» env key =>
    obtain ⟨hok, h⟩ | ⟨hok, h⟩ := of_ite_eq h
    · cases h
      exact .approveUpdated id «by» env key hok
    · cases h
      exact .approveFailed id «by» env key hok
  | approveEvict id env key => cases h; exact .approveEvicted id env key
  | rejectKey id role => cases h; exact .rejectKeyRead id role
  | rejectUpdate id role «at» key =>
    obtain ⟨hok, h⟩ | ⟨hok, h⟩ := of_ite_eq h
    · cases h
      exact .rejectUpdated id role «at» key hok
    · cases h
      exact .rejectFailed id role «at» key hok
  | rejectEvict key => cases h; exact .rejectEvicted key
  | prepare event =>
    simp only [step] at h
    split at h
    · cases h
    · rename_i hfresh
      exact .prepared event hfresh (Option.some.inj h)
  | prepareRecord t p sig call =>
    cases h
    split
    · rename_i env henv
      exact .recorded t p sig call env henv
    · exact .recordedOnly t p sig call
  | insertCheck p sig =>
    cases h
    split
    · exact .insertTaken p sig
    · exact .insertFree p sig
  | insertRow p sig =>
    obtain ⟨hok, h⟩ | ⟨hok, h⟩ := of_ite_eq h
    · cases h
      exact .inserted p sig hok
    · cases h
      exact .insertFailed p sig hok
  | insertKey key => cases h; exact .keyInserted key
  | autoCheck p env sig =>
    cases h
    split
    · exact .autoTaken p env sig
    · exact .autoFree p env sig
  | autoInsert p env sig =>
    obtain ⟨hok, h⟩ | ⟨hok, h⟩ := of_ite_eq h
    · cases h
      exact .autoInserted p env sig hok
    · cases h
      exact .autoFailed p env sig hok
  | autoEnqueue id env => cases h; exact .autoEnqueued id env
  | resultUpdate result =>
    cases h
    split
    · rename_i hok
      exact .resultUpdated result hok
    · rename_i hok
      exact .resultFailed result (Bool.eq_false_of_not_eq_true hok)
  | resultPush result => cases h; exact .resultPushed result
  | approved id env found => cases h
  | finished => cases h

/-- The proposal and the command of a handler that has enqueued the command while its own decision
is not recorded: it has not come to its UPDATE yet, or the UPDATE failed or found no pending row. -/
def outstanding : Task → Option (Uuid × CommandEnvelope)
  | approveKey id _ env | approveUpdate id _ env _ | approved id env false => some (id, env)
  | _ => none

theorem afterApprove_outstanding (id : Uuid) (env : CommandEnvelope) (found : Bool)
    (key : Option DedupKey) :
    (afterApprove id env found key).outstanding = if found then none else some (id, env) := by
  cases found <;> cases key <;> rfl

/-- A task that has ended, or that carries a proposal with the id that was drawn. -/
def Prepared (id : Uuid) (task : Task) : Prop :=
  task = .finished ∨ ∃ p sig, p.id = id ∧
    (task = .insertCheck p sig ∨ ∃ t call, task = .prepareRecord t p sig call)

theorem prepareStep_cases (h : prepareStep cfg s event d = (s', task')) :
    (s' = s ∧ task' = .finished) ∨
    ∃ hits, s' = { s with drawn := s.drawn ++ [d.proposalId], hits := hits } ∧
      Prepared d.proposalId task' := by
  unfold prepareStep at h
  split at h
  · cases h
    exact .inl ⟨rfl, rfl⟩
  rename_i t proposal hproposal
  obtain ⟨-, params, -, rfl⟩ := prepareProposal_eq_some hproposal
  have hid : ((buildProposal t event params d.proposalId d.createdAt).withNote d.note).id =
      d.proposalId := by simp
  simp only [hid] at h
  right
  split at h
  · cases h
    exact ⟨s.hits, rfl, .inl rfl⟩
  · rename_i r hits _
    cases h
    refine ⟨hits, rfl, ?_⟩
    split
    · exact .inl rfl
    · exact .inr ⟨_, _, hid, .inl rfl⟩
    · exact .inr ⟨_, _, hid, .inr ⟨_, _, rfl⟩⟩

end Task

abbrev ControlPlane := Pool AppState Task

abbrev ControlLabel := PoolLabel Request Uuid Draw

/-- A request arrives, an agent pulls, or a handler makes its next access. -/
def ControlPlane.step {P : Platform} (cfg : AppConfig P) :
    ControlPlane → ControlLabel → Option ControlPlane :=
  Pool.step Request.start AppState.pull (Task.step cfg)

/-- A server that starts over a table, with no request in flight. -/
def ControlPlane.start (rows : Table) : ControlPlane := ⟨.start rows, []⟩

/-! ## A small server -/

namespace ControlPlane

open Platform RemediationStore

/-- One template, and a policy that lets the safe tier run by itself. -/
def sampleConfig : AppConfig sample where
  templates :=
    ⟨[TemplateRegistry.sampleTemplate 2 "exit-code" (.resetFailed "\x7b\x7bunit\x7d\x7d")]⟩
  signer := (7 : UInt8)
  ttlSecs := 300
  policy := ⟨⟨[⟨none, .safe, .auto⟩]⟩, true, 3, 600000000000⟩

/-- The server over a table with one pending proposal. -/
def samplePending : ControlPlane :=
  start [⟨sampleProposal, .pending, none, none, none, "FailedUnit:nginx.service:exit-code", noon⟩]

/-- Statements succeed, it is noon, and every id drawn is the given one. -/
def sampleDraw (id : Uuid) : Draw where
  reply := ⟨true, noon⟩
  now := noon
  fresh := ⟨noon, id, id⟩
  proposalId := id
  createdAt := noon
  note := none

/-- An approval and an event that policy acts on by itself, each carried to its end, and a pull. -/
def sampleIssued : List ControlLabel :=
  [.spawn (.approve ⟨5⟩ .admin), .spawn (.ingest TemplateRegistry.sampleEvent),
    .advance 0 (sampleDraw ⟨21⟩), .advance 1 (sampleDraw ⟨31⟩), .advance 0 (sampleDraw ⟨22⟩),
    .advance 1 (sampleDraw ⟨32⟩), .advance 0 (sampleDraw ⟨23⟩), .advance 0 (sampleDraw ⟨24⟩),
    .advance 0 (sampleDraw ⟨25⟩), .advance 1 (sampleDraw ⟨33⟩), .advance 1 (sampleDraw ⟨34⟩),
    .advance 1 (sampleDraw ⟨35⟩), .access ⟨2⟩]

end ControlPlane

end Ravn
