import Ravn.Actuator.Connection
import Ravn.Agent.AtMostOnce
import Ravn.K8s.CommandLoop
import Ravn.Server.CommandQueue

/-! Which agent a command runs on. Neither `process_command` nor the actuator nor the in-cluster loop
compares the envelope's `agent_id` with its own: what keeps a command on its target is the routing,
the queue that an agent pulls and the subject that an executor subscribes to. -/

namespace Ravn

open Theory

/-- The circumstances under which an envelope is processed: the agent's keyring, times and append, the
answer it gets from the actuator, and the executor's keyring and world. -/
structure Circumstances (P : Platform) (σ : Type u) where
  ring : Keyring P
  now : DateTime
  append : Append
  reply : Except String ActionResult
  finishedAt : DateTime
  executorRing : Keyring P
  host : Host σ
  state : σ
  fuel : Nat

/-- A command that an executor handled, with the agent that the executor belongs to. -/
structure Handled where
  agent : AgentId
  env : CommandEnvelope
  trace : Trace

/-- The control plane's queue, each host agent's batch in hand and ledger, each in-cluster executor's
ids, and everything that executors have handled. -/
structure Fleet where
  queue : CommandQueue
  batch : AgentId → List CommandEnvelope
  ledger : AgentId → Ledger
  executed : AgentId → List Uuid
  handled : List Handled

def Fleet.start : Fleet := ⟨.empty, fun _ => [], fun _ => .load [], fun _ => [], []⟩

inductive FleetLabel (P : Platform) (σ : Type u) where
  | enqueue (env : CommandEnvelope)
  /-- A host agent pulls, under an id that the request names. -/
  | pull (agent : AgentId) (requested : Uuid)
  /-- An envelope reaches a host agent by any other way. -/
  | hand (agent : AgentId) (env : CommandEnvelope)
  /-- A host agent processes the next envelope it holds, and its actuator what it sends. -/
  | process (agent : AgentId) (c : Circumstances P σ)
  /-- A message arrives on an in-cluster executor's subject. -/
  | message (agent : AgentId) (payload : Option CommandEnvelope) (c : Circumstances P σ)

section

variable (P : Platform) {σ : Type u}

/-- The agent's side and, if it sends, the actuator's. -/
def processOnHost (agent : AgentId) (ledger : Ledger) (env : CommandEnvelope)
    (c : Circumstances P σ) : Ledger × List Handled :=
  let (_, tr, _) := handleEnvelope P c.host c.executorRing env c.fuel c.state
  let r := processCommand P env c.ring ledger c.now c.append (fun _ => c.reply) c.finishedAt
  (r.ledger, if r.sent then [⟨agent, env, tr⟩] else [])

def fleetStep (s : Fleet) : FleetLabel P σ → Option Fleet
  | .enqueue env => some { s with queue := s.queue.enqueue env }
  | .pull agent requested =>
    let (envs, queue) := s.queue.takeFor requested
    some { s with
      queue := queue
      batch := fun a => if a = agent then s.batch a ++ envs else s.batch a }
  | .hand agent env =>
    some { s with batch := fun a => if a = agent then s.batch a ++ [env] else s.batch a }
  | .process agent c =>
    match s.batch agent with
    | [] => none
    | env :: rest =>
      let (ledger, handled) := processOnHost P agent (s.ledger agent) env c
      some { s with
        batch := fun a => if a = agent then rest else s.batch a
        ledger := fun a => if a = agent then ledger else s.ledger a
        handled := s.handled ++ handled }
  | .message agent payload c =>
    let (result, executed) :=
      onCommandMessage P c.host c.executorRing (s.executed agent) payload c.fuel c.state
    let handled := match payload, result with
      | some env, some (_, tr) => [⟨agent, env, tr⟩]
      | _, _ => []
    some { s with
      executed := fun a => if a = agent then executed else s.executed a
      handled := s.handled ++ handled }

/-- The routing that the deployment relies on: an agent pulls under its own id, and what else reaches
an agent or an executor's subject is addressed to it. -/
def ProperlyRouted (_ : Fleet) : FleetLabel P σ → Prop
  | .enqueue _ => True
  | .pull agent requested => requested = agent.uuid
  | .hand agent env => env.agentId = agent
  | .process _ _ => True
  | .message agent payload _ => ∀ env ∈ payload, env.agentId = agent

end

/-- Envelopes are only where their own agent takes them from. -/
structure FleetInv (s : Fleet) : Prop where
  queue : s.queue.Routed
  batch : ∀ a, ∀ env ∈ s.batch a, env.agentId = a
  handled : ∀ h ∈ s.handled, h.env.agentId = h.agent

theorem fleetInv_start : FleetInv .start :=
  ⟨by simp [Fleet.start, CommandQueue.Routed, CommandQueue.empty], by simp [Fleet.start],
    by simp [Fleet.start]⟩

variable {P : Platform} {σ : Type u}

theorem processOnHost_handled {c : Circumstances P σ}
    (h : x ∈ (processOnHost P agent ledger env c).2) : x.agent = agent ∧ x.env = env := by
  simp only [processOnHost] at h
  split at h
  · rw [List.mem_singleton.mp h]
    exact ⟨rfl, rfl⟩
  · cases h

theorem FleetInv.process {s : Fleet} {c : Circumstances P σ} (h : FleetInv s)
    (hbatch : s.batch agent = env :: rest) (ledger : AgentId → Ledger) :
    FleetInv { s with
      batch := fun a => if a = agent then rest else s.batch a
      ledger := ledger
      handled := s.handled ++ (processOnHost P agent (s.ledger agent) env c).2 } := by
  refine ⟨h.queue, ?_, ?_⟩
  · intro a e he
    dsimp only at he
    split at he
    · rename_i ha
      subst ha
      exact h.batch a e (hbatch ▸ List.mem_cons_of_mem _ he)
    · exact h.batch a e he
  · intro x hx
    rcases List.mem_append.mp hx with hx | hx
    · exact h.handled x hx
    · obtain ⟨hagent, henv⟩ := processOnHost_handled hx
      rw [hagent, henv]
      exact h.batch agent env (hbatch ▸ List.mem_cons_self)

/-- More envelopes for an agent, all of them its own. -/
theorem FleetInv.received {s : Fleet} (h : FleetInv s) {queue : CommandQueue}
    (hqueue : queue.Routed) (henvs : ∀ env ∈ envs, env.agentId = agent) :
    FleetInv { s with
      queue := queue
      batch := fun a => if a = agent then s.batch a ++ envs else s.batch a } := by
  refine ⟨hqueue, ?_, h.handled⟩
  intro a e he
  dsimp only at he
  split at he
  · rename_i ha
    rcases List.mem_append.mp he with he | he
    · exact h.batch a e he
    · rw [ha]
      exact henvs e he
  · exact h.batch a e he

theorem fleetStep_inv {s : Fleet} {l : FleetLabel P σ} (h : FleetInv s)
    (hrouted : ProperlyRouted P s l) (hstep : fleetStep P s l = some s') : FleetInv s' := by
  cases l with
  | enqueue env =>
    cases hstep
    exact ⟨h.queue.enqueue env, h.batch, h.handled⟩
  | pull agent requested =>
    cases hstep
    obtain ⟨htaken, hqueue⟩ := h.queue.takeFor requested
    refine h.received hqueue ?_
    intro env henv
    have huuid : env.agentId.uuid = agent.uuid := (htaken env henv).trans hrouted
    cases hid : env.agentId
    rw [hid] at huuid
    cases huuid
    rfl
  | hand agent env =>
    cases hstep
    refine h.received h.queue ?_
    intro e he
    rw [List.mem_singleton.mp he]
    exact hrouted
  | process agent c =>
    simp only [fleetStep] at hstep
    split at hstep
    · cases hstep
    · rename_i env rest hbatch
      cases hstep
      exact h.process hbatch _
  | message agent payload c =>
    cases hstep
    refine ⟨h.queue, h.batch, ?_⟩
    intro x hx
    rcases List.mem_append.mp hx with hx | hx
    · exact h.handled x hx
    · split at hx
      · rw [List.mem_singleton.mp hx]
        exact hrouted _ rfl
      · cases hx

/-- As long as agents pull under their own ids and subjects carry their own executor's envelopes,
whatever an executor handles, and so every capability it runs, is addressed to its agent. -/
theorem command_runs_on_target (P : Platform) {σ : Type u} (ls : List (FleetLabel P σ)) (t : Fleet)
    (hrouted : Along (fleetStep P) (ProperlyRouted P) .start ls)
    (hrun : run (fleetStep P) .start ls = some t) :
    ∀ x ∈ t.handled, x.trace.calls ≠ [] → x.env.agentId = x.agent := by
  intro x hx _
  exact (hrouted.invariant fleetStep_inv hrun fleetInv_start).handled x hx

/-! ## A command on the wrong host -/

namespace Circumstances

open Platform

/-- Noon on a host whose unit has failed, with the control plane's key pinned on both sides. -/
def sample : Circumstances Platform.sample Bool where
  ring := .single (7 : UInt8)
  now := noon
  append := .complete
  reply := .ok ⟨⟨1⟩, .succeeded, none, some "active", noon⟩
  finishedAt := noon
  executorRing := .single (7 : UInt8)
  host := sampleHost
  state := false
  fuel := 61

end Circumstances

/-- The parts of a handled command that the routing is about. -/
def Handled.target (x : Handled) : AgentId × AgentId × Nat :=
  (x.agent, x.env.agentId, x.trace.calls.length)

open AgentLabel in
theorem command_runs_on_target_sample :
    ∃ t, run (fleetStep Platform.sample) .start
        [.enqueue (sampleCommand ⟨1⟩), .pull ⟨⟨2⟩⟩ ⟨2⟩, .process ⟨⟨2⟩⟩ Circumstances.sample] = some t ∧
      t.handled.map Handled.target = [(⟨⟨2⟩⟩, ⟨⟨2⟩⟩, 4)] ∧
      ∀ x ∈ t.handled, x.trace.calls ≠ [] → x.env.agentId = x.agent := by
  have hrun : (run (fleetStep Platform.sample) .start
      [.enqueue (sampleCommand ⟨1⟩), .pull ⟨⟨2⟩⟩ ⟨2⟩, .process ⟨⟨2⟩⟩ Circumstances.sample]).map
      (fun t => t.handled.map Handled.target) = some [(⟨⟨2⟩⟩, ⟨⟨2⟩⟩, 4)] := by decide +kernel
  obtain ⟨t, hrun, htargets⟩ := Option.map_eq_some_iff.mp hrun
  refine ⟨t, hrun, htargets, command_runs_on_target Platform.sample _ t ?_ hrun⟩
  exact ⟨trivial, fun _ _ => ⟨rfl, fun _ _ => ⟨trivial, fun _ _ => trivial⟩⟩⟩

open AgentLabel in
/-- A validly signed command for agent 2 that reaches agent 9 runs there. -/
theorem command_runs_off_target :
    ∃ t, run (fleetStep Platform.sample) .start
        [.hand ⟨⟨9⟩⟩ (sampleCommand ⟨1⟩), .process ⟨⟨9⟩⟩ Circumstances.sample] = some t ∧
      ∃ x ∈ t.handled, x.trace.calls ≠ [] ∧ x.env.agentId ≠ x.agent := by
  have hrun : (run (fleetStep Platform.sample) .start
      [.hand ⟨⟨9⟩⟩ (sampleCommand ⟨1⟩), .process ⟨⟨9⟩⟩ Circumstances.sample]).map
      (fun t => t.handled.map Handled.target) = some [(⟨⟨9⟩⟩, ⟨⟨2⟩⟩, 4)] := by decide +kernel
  obtain ⟨t, hrun, htargets⟩ := Option.map_eq_some_iff.mp hrun
  obtain ⟨x, hx, htarget⟩ := List.mem_map.mp (htargets ▸ List.mem_singleton_self _)
  cases hcalls : x.trace.calls with
  | nil => simp [Handled.target, hcalls] at htarget
  | cons call calls =>
    simp only [Handled.target, Prod.mk.injEq] at htarget
    refine ⟨t, hrun, x, hx, by simp [hcalls], ?_⟩
    rw [htarget.1, htarget.2.1]
    decide

end Ravn
