import Ravn.Core.Remediation

/-! The control plane's in-memory queue of signed commands, one list per agent, and the results that
agents have reported. -/

namespace Ravn

/-- An agent without an entry and an agent with an empty one answer a pull alike, so the map is a
function. -/
structure CommandQueue where
  pending : Uuid → List CommandEnvelope
  results : List ActionResult

namespace CommandQueue

def empty : CommandQueue := ⟨fun _ => [], []⟩

/-- Appends to the queue of the envelope's own agent. -/
def enqueue (q : CommandQueue) (env : CommandEnvelope) : CommandQueue :=
  { q with pending := fun a =>
      if a = env.agentId.uuid then q.pending a ++ [env] else q.pending a }

/-- Takes all pending commands of an agent. -/
def takeFor (q : CommandQueue) (agent : Uuid) : List CommandEnvelope × CommandQueue :=
  (q.pending agent, { q with pending := fun a => if a = agent then [] else q.pending a })

def recordResult (q : CommandQueue) (result : ActionResult) : CommandQueue :=
  { q with results := q.results ++ [result] }

/-- Every queued envelope is in the queue of its own agent. -/
def Routed (q : CommandQueue) : Prop := ∀ a, ∀ env ∈ q.pending a, env.agentId.uuid = a

theorem Routed.enqueue {q : CommandQueue} (h : q.Routed) (env : CommandEnvelope) :
    (q.enqueue env).Routed := by
  intro a e he
  simp only [CommandQueue.enqueue] at he
  split at he
  · rename_i ha
    rcases List.mem_append.mp he with he | he
    · exact h a e he
    · rw [List.mem_singleton.mp he, ha]
  · exact h a e he

theorem Routed.takeFor {q : CommandQueue} (h : q.Routed) (agent : Uuid) :
    (∀ env ∈ (q.takeFor agent).1, env.agentId.uuid = agent) ∧ (q.takeFor agent).2.Routed := by
  refine ⟨h agent, ?_⟩
  intro a e he
  simp only [CommandQueue.takeFor] at he
  split at he
  · cases he
  · exact h a e he

end CommandQueue

/-! ## Conservation

A producer's and a puller's call is one section under the lock each, so any interleaving of calls is a
sequence of them. -/

inductive QueueCall where
  | enqueue (env : CommandEnvelope)
  | takeFor (agent : Uuid)

/-- The queue after some calls, and the answers to the pulls among them in call order. -/
structure QueueRun where
  queue : CommandQueue
  answers : List (Uuid × List CommandEnvelope)

namespace QueueRun

def start : QueueRun := ⟨.empty, []⟩

def call (r : QueueRun) : QueueCall → QueueRun
  | .enqueue env => { r with queue := r.queue.enqueue env }
  | .takeFor agent =>
    let (envs, queue) := r.queue.takeFor agent
    ⟨queue, r.answers ++ [(agent, envs)]⟩

def calls (r : QueueRun) (cs : List QueueCall) : QueueRun := cs.foldl call r

/-- All that pulls of an agent have returned, in call order. -/
def returned (r : QueueRun) (agent : Uuid) : List CommandEnvelope :=
  (r.answers.filter (·.1 = agent)).flatMap Prod.snd

end QueueRun

/-- The envelopes enqueued for an agent, in call order. -/
def enqueuedFor (agent : Uuid) (cs : List QueueCall) : List CommandEnvelope :=
  cs.filterMap fun
    | .enqueue env => if env.agentId.uuid = agent then some env else none
    | .takeFor _ => none

namespace QueueRun

/-- A call moves what it takes from the queue to the answers and adds what it enqueues at the end. -/
theorem returned_append_pending_call (r : QueueRun) (c : QueueCall) (agent : Uuid) :
    (r.call c).returned agent ++ (r.call c).queue.pending agent =
      r.returned agent ++ r.queue.pending agent ++ enqueuedFor agent [c] := by
  cases c with
  | enqueue env =>
    by_cases h : env.agentId.uuid = agent
    · simp [call, returned, CommandQueue.enqueue, enqueuedFor, h]
    · simp [call, returned, CommandQueue.enqueue, enqueuedFor, h, Ne.symm h]
  | takeFor other =>
    by_cases h : other = agent
    · simp [call, returned, CommandQueue.takeFor, enqueuedFor, h]
    · simp [call, returned, CommandQueue.takeFor, enqueuedFor, h, Ne.symm h]

theorem returned_append_pending (r : QueueRun) (cs : List QueueCall) (agent : Uuid) :
    (r.calls cs).returned agent ++ (r.calls cs).queue.pending agent =
      r.returned agent ++ r.queue.pending agent ++ enqueuedFor agent cs := by
  induction cs generalizing r with
  | nil => simp [calls, enqueuedFor]
  | cons c cs ih =>
    have hcons : enqueuedFor agent (c :: cs) = enqueuedFor agent [c] ++ enqueuedFor agent cs :=
      List.filterMap_append (l := [c])
    rw [hcons, ← List.append_assoc, ← returned_append_pending_call]
    exact ih (r.call c)

/-- For each agent, what its pulls have returned and what is still pending is what was enqueued for
it, in order; and an answer holds envelopes of the pulling agent only. -/
theorem queue_conserved (cs : List QueueCall) :
    (∀ agent, (start.calls cs).returned agent ++ (start.calls cs).queue.pending agent =
      enqueuedFor agent cs) ∧
    ∀ agent envs, (agent, envs) ∈ (start.calls cs).answers →
      ∀ env ∈ envs, env.agentId.uuid = agent := by
  have hconserved : ∀ agent, (start.calls cs).returned agent ++
      (start.calls cs).queue.pending agent = enqueuedFor agent cs :=
    fun agent => returned_append_pending start cs agent
  refine ⟨hconserved, ?_⟩
  intro agent envs hmem env henv
  have hreturned : env ∈ (start.calls cs).returned agent :=
    List.mem_flatMap.mpr ⟨(agent, envs), List.mem_filter.mpr ⟨hmem, decide_eq_true rfl⟩, henv⟩
  have henqueued : env ∈ enqueuedFor agent cs :=
    hconserved agent ▸ List.mem_append_left _ hreturned
  obtain ⟨c, -, hc⟩ := List.mem_filterMap.mp henqueued
  cases c with
  | enqueue e =>
    simp only [Option.ite_none_right_eq_some, Option.some.injEq] at hc
    rw [← hc.2]
    exact hc.1
  | takeFor other => cases hc

end QueueRun

end Ravn
