import Ravn.Agent.Delivery
import Ravn.Server.Ingest

/-! Events from the agents to the events table. What an agent puts on the wire reaches the control
plane late, in any order, more than once or never, while the control plane goes about its other work.
Every event that is stored was taken by an agent and is stored once; it is stored exactly if a copy of
it arrived and was inserted, and of an agent at rest whose messages arrived exactly if its every step
was spared (`events_stored_once`). -/

namespace Ravn

open Theory

variable {P : Platform}

/-- The key of a row of the `events` table. -/
def Event.key (e : Event) : Uuid × Int := (e.id, timestamptz e.occurredAt)

/-! ## The events table -/

namespace EventTable

theorem hasKey_iff {t : EventTable} : t.hasKey e = true ↔ ∃ m ∈ t, m.event.key = e.key := by
  simp [hasKey, Event.key]

theorem hasKey_insertMessage (t : EventTable) (m : Message) :
    (t.insertMessage m).hasKey m.event = true := by
  rw [insertMessage]
  split
  · assumption
  · exact hasKey_iff.mpr ⟨m, List.mem_append_right t List.mem_cons_self, rfl⟩

theorem insertMessage_prefix (t : EventTable) (m : Message) : t <+: t.insertMessage m := by
  rw [insertMessage]
  split
  · exact List.prefix_rfl
  · exact List.prefix_append _ _

theorem mem_insertMessage {t : EventTable} (h : row ∈ t.insertMessage m) : row ∈ t ∨ row = m := by
  rw [insertMessage] at h
  split at h
  · exact .inl h
  · exact (List.mem_append.mp h).imp_right List.mem_singleton.mp

theorem nodup_insertMessage {t : EventTable} (h : (t.map fun m => m.event.key).Nodup) (m : Message) :
    ((t.insertMessage m).map fun m => m.event.key).Nodup := by
  rw [insertMessage]
  split
  · exact h
  · rename_i hkey
    rw [List.map_append, List.nodup_append]
    refine ⟨h, List.nodup_singleton _, fun k hk k' hk' heq => hkey ?_⟩
    obtain ⟨row, hrow, rfl⟩ := List.mem_map.mp hk
    exact hasKey_iff.mpr ⟨row, hrow, heq.trans (List.mem_singleton.mp hk')⟩

/-- An explanation is all that an update changes. -/
theorem updateExplanation_events (t : EventTable) (e : Event) (explanation : Explanation) :
    (t.updateExplanation e explanation).map Message.event = t.map Message.event := by
  rw [updateExplanation, List.map_map]
  refine List.map_congr_left fun m _ => ?_
  rw [Function.comp_apply]
  split <;> rfl

end EventTable

namespace IngestState

variable {cfg : IngestConfig P} {s s' : IngestState}

theorem controlStep_events (h : s.controlStep cfg l written = some s') : s'.events = s.events := by
  cases l with
  | spawn request =>
    cases request with
    | ingest event => cases h
    | _ =>
      simp only [controlStep] at h
      obtain ⟨plane, -, rfl⟩ := Option.map_eq_some_iff.mp h
      rfl
  | access e =>
    simp only [controlStep] at h
    obtain ⟨plane, -, rfl⟩ := Option.map_eq_some_iff.mp h
    rfl
  | advance i d =>
    obtain ⟨task, -, h⟩ := Option.bind_eq_some_iff.mp h
    obtain ⟨plane, -, rfl⟩ := Option.map_eq_some_iff.mp h
    rfl

/-- Only a delivery adds to the events, and no step takes one away. -/
theorem step_events (h : s.step cfg l = some s') :
    s'.events.map Message.event = s.events.map Message.event ∨
      ∃ msg, l = .deliver msg true ∧ s'.events = s.events.insertMessage msg := by
  cases l with
  | deliver msg ok =>
    cases h
    cases ok with
    | false => exact .inl rfl
    | true => exact .inr ⟨msg, rfl, rfl⟩
  | explained i explanation ok =>
    obtain ⟨event, -, rfl⟩ := Option.map_eq_some_iff.mp h
    refine .inl ?_
    cases explanation with
    | none => rfl
    | some e =>
      cases ok with
      | false => rfl
      | true => exact EventTable.updateExplanation_events _ _ _
  | plane l written => exact .inl (congrArg _ (controlStep_events h))

end IngestState

/-! ## The fleet -/

/-- The agents and the control plane. -/
structure FleetDelivery where
  agents : List AgentDelivery
  server : IngestState

inductive FleetDeliveryLabel where
  | agent (i : Nat) (l : DeliveryLabel)
  /-- One of the messages that left an agent arrives; the flag is the outcome of the insert. -/
  | deliver (i k : Nat) (ok : Bool)
  /-- Anything else that the control plane does. -/
  | server (l : IngestLabel)

namespace FleetDelivery

variable (cfg : IngestConfig P) (parseTime : String → Option DateTime)

/-- An event id is new to the whole fleet. -/
def Fresh (s : FleetDelivery) : DeliveryLabel → Prop
  | .take _ m _ => ∀ d ∈ s.agents, ∀ x ∈ d.taken, x.event.id ≠ m.event.id
  | _ => True

instance (s : FleetDelivery) : ∀ l, Decidable (s.Fresh l)
  | .take .. => inferInstanceAs (Decidable (∀ _ ∈ _, ∀ _ ∈ _, _))
  | .publish .. | .enqueue .. | .drain .. | .flush _ | .delete _ | .restart .. => .isTrue trivial

/-- A message that an agent put on the wire, by its place there. -/
def sent (s : FleetDelivery) (i k : Nat) : Option Message := s.agents[i]?.bind fun d => d.wire[k]?

/-- A copy of a message that an agent put on the wire has been inserted. -/
def Arrived (ls : List FleetDeliveryLabel) (s : FleetDelivery) (i : Nat) (m : Message) : Prop :=
  ∃ k, .deliver i k true ∈ ls ∧ s.sent i k = some m

/-- `ingest`: a text that is no message is dropped. -/
def deliver (server : IngestState) (text : List Char) (ok : Bool) : Option IngestState :=
  match Message.fromText parseTime text with
  | some msg => server.step cfg (.deliver msg ok)
  | none => some server

def step (s : FleetDelivery) : FleetDeliveryLabel → Option FleetDelivery
  | .agent i l =>
    if s.Fresh l then
      s.agents[i]?.bind fun d =>
        (d.step P parseTime l).map fun d' => { s with agents := s.agents.set i d' }
    else none
  | .deliver i k ok =>
    (s.sent i k).bind fun m =>
      (deliver cfg parseTime s.server (m.toText P) ok).map fun server => { s with server := server }
  | .server (.deliver ..) => none
  | .server l => (s.server.step cfg l).map fun server => { s with server := server }

/-- So many agents and a control plane, none of which has run before. -/
def start (agents : List (UInt64 × Bool)) (rows : Table) (kb : KnowledgeBase) : FleetDelivery :=
  ⟨agents.map fun a => .start a.1 a.2, .start [] rows kb⟩

/-- The step of an agent that a step of the fleet is. -/
def agentLabel (i : Nat) : FleetDeliveryLabel → Option DeliveryLabel
  | .agent j l => if j = i then some l else none
  | _ => none

variable {cfg parseTime} {s s' : FleetDelivery} {i : Nat} {d : AgentDelivery}

/-! ## Steps -/

theorem step_cases (h : s.step cfg parseTime l = some s') :
    (∃ i dl d d', l = .agent i dl ∧ s.Fresh dl ∧ s.agents[i]? = some d ∧
      d.step P parseTime dl = some d' ∧ s' = ⟨s.agents.set i d', s.server⟩) ∨
    (∃ i k ok m server, l = .deliver i k ok ∧ s.sent i k = some m ∧
      deliver cfg parseTime s.server (m.toText P) ok = some server ∧ s' = ⟨s.agents, server⟩) ∨
    ∃ il server, l = .server il ∧ (∀ msg ok, il ≠ .deliver msg ok) ∧
      s.server.step cfg il = some server ∧ s' = ⟨s.agents, server⟩ := by
  cases l with
  | agent i dl =>
    simp only [step] at h
    split at h
    · obtain ⟨d, hd, h⟩ := Option.bind_eq_some_iff.mp h
      obtain ⟨d', hd', rfl⟩ := Option.map_eq_some_iff.mp h
      exact .inl ⟨i, dl, d, d', rfl, ‹_›, hd, hd', rfl⟩
    · cases h
  | deliver i k ok =>
    obtain ⟨m, hm, h⟩ := Option.bind_eq_some_iff.mp h
    obtain ⟨server, hserver, rfl⟩ := Option.map_eq_some_iff.mp h
    exact .inr (.inl ⟨i, k, ok, m, server, rfl, hm, hserver, rfl⟩)
  | server il =>
    cases il with
    | deliver msg ok => cases h
    | explained i explanation ok =>
      obtain ⟨server, hserver, rfl⟩ := Option.map_eq_some_iff.mp h
      exact .inr (.inr ⟨_, server, rfl, (fun _ _ heq => by cases heq), hserver, rfl⟩)
    | plane l written =>
      obtain ⟨server, hserver, rfl⟩ := Option.map_eq_some_iff.mp h
      exact .inr (.inr ⟨_, server, rfl, (fun _ _ heq => by cases heq), hserver, rfl⟩)

/-! ## The invariant -/

/-- What holds of a fleet in every run. -/
structure Valid (P : Platform) (parseTime : String → Option DateTime) (s : FleetDelivery) : Prop where
  agents : ∀ {i : Nat} {d : AgentDelivery}, s.agents[i]? = some d → d.Valid P parseTime
  apart : ∀ {i j : Nat} {d e : AgentDelivery} {m x : Message}, s.agents[i]? = some d →
    s.agents[j]? = some e → m ∈ d.taken → x ∈ e.taken → m.event.id = x.event.id → i = j
  keys : (s.server.events.map fun m => m.event.key).Nodup

theorem valid_start (agents : List (UInt64 × Bool)) (rows : Table) (kb : KnowledgeBase) :
    (start agents rows kb).Valid P parseTime where
  agents := by
    intro i d hd
    obtain ⟨a, -, rfl⟩ := List.mem_map.mp (List.mem_of_getElem? hd)
    exact AgentDelivery.valid_start a.1 a.2
  apart := by
    intro i j d e m x hd _ hm
    obtain ⟨a, -, rfl⟩ := List.mem_map.mp (List.mem_of_getElem? hd)
    cases hm
  keys := List.nodup_nil

/-- The agents after one of them made a step. -/
theorem getElem?_set_some {d d' : AgentDelivery} (hd : s.agents[i]? = some d)
    (h : (s.agents.set i d')[j]? = some e) : j = i ∧ e = d' ∨ j ≠ i ∧ s.agents[j]? = some e := by
  rcases eq_or_ne j i with rfl | hne
  · rw [List.getElem?_set_self (List.getElem?_eq_some_iff.mp hd).1] at h
    exact .inl ⟨rfl, (Option.some.inj h).symm⟩
  · rw [List.getElem?_set_ne hne.symm] at h
    exact .inr ⟨hne, h⟩

theorem Valid.agent (htime : ∀ t, parseTime (P.rfc3339 t) = some t) (h : s.Valid P parseTime)
    (hfresh : s.Fresh l) (hd : s.agents[i]? = some d) (hstep : d.step P parseTime l = some d') :
    Valid P parseTime ⟨s.agents.set i d', s.server⟩ := by
  obtain ⟨-, -, hnew⟩ := AgentDelivery.step_grows hstep
  have hset : ∀ {j e}, (s.agents.set i d')[j]? = some e →
      j = i ∧ e = d' ∨ j ≠ i ∧ s.agents[j]? = some e := getElem?_set_some hd
  -- A message that is new to the agent has an id that is new to the fleet.
  have hother : ∀ {j e m x}, j ≠ i → s.agents[j]? = some e → m ∈ d'.taken → x ∈ e.taken →
      m.event.id ≠ x.event.id := by
    intro j e m x hne he hm hx heq
    rcases hnew m hm with hm | ⟨p, portable, rfl⟩
    · exact hne (h.apart he hd hx hm heq.symm)
    · exact hfresh e (List.mem_of_getElem? he) x hx heq.symm
  constructor
  case agents =>
    intro j e he
    rcases hset he with ⟨-, rfl⟩ | ⟨-, he⟩
    · exact (h.agents hd).step htime hstep
    · exact h.agents he
  case apart =>
    intro j k e f m x he hf hm hx heq
    rcases hset he with ⟨hj, rfl⟩ | ⟨hj, he'⟩
    · rcases hset hf with ⟨hk, -⟩ | ⟨hk, hf'⟩
      · exact hj.trans hk.symm
      · exact absurd heq (hother hk hf' hm hx)
    · rcases hset hf with ⟨-, rfl⟩ | ⟨-, hf'⟩
      · exact absurd heq.symm (hother hj he' hx hm)
      · exact h.apart he' hf' hm hx heq
  case keys => exact h.keys

/-- A message that arrives is read as the one that left. -/
theorem deliver_eq (htime : ∀ t, parseTime (P.rfc3339 t) = some t) (h : s.Valid P parseTime)
    (hm : s.sent i k = some m) (ok : Bool) :
    deliver cfg parseTime s.server (m.toText P) ok = s.server.step cfg (.deliver m ok) := by
  obtain ⟨d, hd, hm⟩ := Option.bind_eq_some_iff.mp hm
  have hvalid := h.agents hd
  have hread := AgentDelivery.fromText_toText htime
    (hvalid.portable m (hvalid.wire m (List.mem_of_getElem? hm)))
  rw [deliver, hread]

/-- What a step does to the events: a message that arrives may be inserted, and otherwise an explanation
is all that changes. -/
theorem step_events (htime : ∀ t, parseTime (P.rfc3339 t) = some t) (h : s.Valid P parseTime)
    (hstep : s.step cfg parseTime l = some s') :
    s'.server.events.map Message.event = s.server.events.map Message.event ∧
        (∀ i k, l ≠ .deliver i k true) ∨
      ∃ i k m, l = .deliver i k true ∧ s.sent i k = some m ∧
        s'.server.events = s.server.events.insertMessage m := by
  rcases step_cases hstep with ⟨i, dl, d, d', rfl, -, -, -, rfl⟩ |
    ⟨i, k, ok, m, server, rfl, hm, hserver, rfl⟩ | ⟨il, server, rfl, hil, hserver, rfl⟩
  · exact .inl ⟨rfl, fun _ _ heq => by cases heq⟩
  · rw [deliver_eq htime h hm] at hserver
    cases hserver
    cases ok with
    | false => exact .inl ⟨rfl, fun _ _ heq => by cases heq⟩
    | true => exact .inr ⟨i, k, m, rfl, hm, rfl⟩
  · rcases IngestState.step_events hserver with heq | ⟨msg, heq, -⟩
    · exact .inl ⟨heq, fun _ _ heq => by cases heq⟩
    · exact absurd heq (hil msg true)

theorem Valid.step (htime : ∀ t, parseTime (P.rfc3339 t) = some t) (h : s.Valid P parseTime)
    (hstep : s.step cfg parseTime l = some s') : s'.Valid P parseTime := by
  have hkeys : (s'.server.events.map fun m => m.event.key).Nodup := by
    rcases step_events htime h hstep with ⟨heq, -⟩ | ⟨i, k, m, -, -, heq⟩
    · have hmap := congrArg (List.map Event.key) heq
      rw [List.map_map, List.map_map] at hmap
      exact (congrArg List.Nodup hmap).mpr h.keys
    · rw [heq]
      exact EventTable.nodup_insertMessage h.keys m
  rcases step_cases hstep with ⟨i, dl, d, d', -, hfresh, hd, hd', rfl⟩ |
    ⟨i, k, ok, m, server, -, -, -, rfl⟩ | ⟨il, server, -, -, -, rfl⟩
  · exact h.agent htime hfresh hd hd'
  · exact ⟨h.agents, h.apart, hkeys⟩
  · exact ⟨h.agents, h.apart, hkeys⟩

/-! ## Runs -/

/-- What an agent put on the wire keeps its place. -/
theorem sent_step (h : s.sent i k = some m) (hstep : s.step cfg parseTime l = some s') :
    s'.sent i k = some m := by
  obtain ⟨d, hd, hm⟩ := Option.bind_eq_some_iff.mp h
  rcases step_cases hstep with ⟨j, dl, e, e', -, -, he, he', rfl⟩ |
    ⟨j, k, ok, x, server, -, -, -, rfl⟩ | ⟨il, server, -, -, -, rfl⟩
  · refine Option.bind_eq_some_iff.mpr ?_
    rcases eq_or_ne i j with rfl | hne
    · cases hd.symm.trans he
      obtain ⟨-, ⟨new, hwire⟩, -⟩ := AgentDelivery.step_grows he'
      refine ⟨e', List.getElem?_set_self (List.getElem?_eq_some_iff.mp hd).1, ?_⟩
      rw [← hwire, List.getElem?_append_left (List.getElem?_eq_some_iff.mp hm).1, hm]
    · exact ⟨d, (List.getElem?_set_ne hne.symm).trans hd, hm⟩
  · exact h
  · exact h

/-- The events table is what arrived. -/
structure Accounts (ls : List FleetDeliveryLabel) (s : FleetDelivery) : Prop where
  stored : ∀ row ∈ s.server.events, ∃ i m, Arrived ls s i m ∧ row.event = m.event
  inserted : ∀ {i k}, .deliver i k true ∈ ls →
    ∃ m, s.sent i k = some m ∧ s.server.events.hasKey m.event = true

theorem Accounts.step (htime : ∀ t, parseTime (P.rfc3339 t) = some t) (hvalid : s.Valid P parseTime)
    (h : Accounts ls s) (hstep : s.step cfg parseTime l = some s') : Accounts (ls ++ [l]) s' := by
  have harrived : ∀ {i m}, Arrived ls s i m → Arrived (ls ++ [l]) s' i m :=
    fun ⟨k, hl, hm⟩ => ⟨k, List.mem_append_left _ hl, sent_step hm hstep⟩
  have hinserted : ∀ {e}, s.server.events.hasKey e = true → s'.server.events.hasKey e = true := by
    intro e he
    obtain ⟨row, hrow, hkey⟩ := EventTable.hasKey_iff.mp he
    rcases step_events htime hvalid hstep with ⟨heq, -⟩ | ⟨i, k, m, -, -, heq⟩
    · obtain ⟨row', hrow', heq'⟩ := List.mem_map.mp (heq ▸ List.mem_map_of_mem hrow)
      exact EventTable.hasKey_iff.mpr ⟨row', hrow', (congrArg Event.key heq').trans hkey⟩
    · rw [heq]
      exact EventTable.hasKey_iff.mpr ⟨row, (EventTable.insertMessage_prefix _ m).subset hrow, hkey⟩
  constructor
  case stored =>
    intro row hrow
    rcases step_events htime hvalid hstep with ⟨heq, -⟩ | ⟨i, k, m, rfl, hm, heq⟩
    · obtain ⟨row', hrow', heq'⟩ := List.mem_map.mp (heq ▸ List.mem_map_of_mem hrow)
      obtain ⟨i, m, hm, hevent⟩ := h.stored row' hrow'
      exact ⟨i, m, harrived hm, heq'.symm.trans hevent⟩
    · rw [heq] at hrow
      rcases EventTable.mem_insertMessage hrow with hrow | rfl
      · obtain ⟨i, m, hm, hevent⟩ := h.stored row hrow
        exact ⟨i, m, harrived hm, hevent⟩
      · exact ⟨i, row, ⟨k, List.mem_append_right _ List.mem_cons_self, sent_step hm hstep⟩, rfl⟩
  case inserted =>
    intro i k hl
    rcases List.mem_append.mp hl with hl | hl
    · obtain ⟨m, hm, hkey⟩ := h.inserted hl
      exact ⟨m, sent_step hm hstep, hinserted hkey⟩
    · rcases step_events htime hvalid hstep with ⟨-, hnot⟩ | ⟨i', k', m, rfl, hm, heq⟩
      · exact absurd (List.mem_singleton.mp hl).symm (hnot i k)
      · cases List.mem_singleton.mp hl
        exact ⟨m, sent_step hm hstep, heq ▸ EventTable.hasKey_insertMessage _ m⟩

/-- What an agent does in a run of the fleet is a run of its own. -/
theorem run_agent {t : FleetDelivery} (hrun : run (step cfg parseTime) s ls = some t)
    (hd : s.agents[i]? = some d) :
    ∃ d', run (AgentDelivery.step P parseTime) d (ls.filterMap (agentLabel i)) = some d' ∧
      t.agents[i]? = some d' := by
  refine run_part (R := fun s d => s.agents[i]? = some d) ?_ ?_ hrun hd
  · intro s l s' d k hd hstep hown
    rcases step_cases hstep with ⟨j, dl, e, e', rfl, -, he, he', rfl⟩ |
      ⟨j, k, ok, m, server, rfl, -⟩ | ⟨il, server, rfl, -⟩
    · change (if j = i then some dl else none) = _ at hown
      split at hown
      · cases hown
        subst j
        cases hd.symm.trans he
        exact ⟨e', he', List.getElem?_set_self (List.getElem?_eq_some_iff.mp he).1⟩
      · cases hown
    · cases hown
    · cases hown
  · intro s l s' d hd hstep hown
    rcases step_cases hstep with ⟨j, dl, e, e', rfl, -, he, he', rfl⟩ |
      ⟨j, k, ok, m, server, -, -, -, rfl⟩ | ⟨il, server, -, -, -, rfl⟩
    · change (if j = i then some dl else none) = _ at hown
      split at hown
      · cases hown
      · exact (List.getElem?_set_ne ‹_›).trans hd
    · exact hd
    · exact hd

/-- In every run of the fleet an event has one row at most, and one that an agent took. An event that an
agent took has a row exactly if a copy of it arrived and was inserted, and of an agent at rest whose
messages on the wire arrived, exactly if every step of the agent since it took it spared it. -/
theorem events_stored_once (cfg : IngestConfig P) (parseTime : String → Option DateTime)
    (htime : ∀ t, parseTime (P.rfc3339 t) = some t) (agents : List (UInt64 × Bool)) (rows : Table)
    (kb : KnowledgeBase) (ls : List FleetDeliveryLabel) (t : FleetDelivery)
    (hrun : run (step cfg parseTime) (start agents rows kb) ls = some t) :
    (t.server.events.map fun m => m.event.key).Nodup ∧
      (∀ row ∈ t.server.events, ∃ d ∈ t.agents, ∃ m ∈ d.taken, row.event = m.event) ∧
      ∀ (i : Nat) (d : AgentDelivery), t.agents[i]? = some d →
        (∀ m ∈ d.taken, (∃ row ∈ t.server.events, row.event = m.event) ↔ Arrived ls t i m) ∧
        ∀ (a : UInt64 × Bool) (s : AgentDelivery) (pre post : List DeliveryLabel) (p : Publisher)
          (m : Message) (portable : m.Portable),
          agents[i]? = some a → ls.filterMap (agentLabel i) = pre ++ .take p m portable :: post →
          run (AgentDelivery.step P parseTime) (.start a.1 a.2) (pre ++ [.take p m portable]) = some s →
          d.AtRest → (m ∈ d.wire → Arrived ls t i m) →
          ((∃ row ∈ t.server.events, row.event = m.event) ↔
            Along (AgentDelivery.step P parseTime) (AgentDelivery.Spares P m) s post) := by
  have hvalid : t.Valid P parseTime :=
    run_invariant (fun h hstep => h.step htime hstep) hrun (valid_start agents rows kb)
  have hstart : Accounts [] (start agents rows kb) :=
    ⟨fun row hrow => absurd hrow List.not_mem_nil, fun hl => absurd hl List.not_mem_nil⟩
  have haccounts : Accounts ls t := run_history (fun hm h hstep =>
    h.step htime (run_invariant (fun h hstep => h.step htime hstep) hm (valid_start agents rows kb))
      hstep) hrun hstart
  have hwire : ∀ {i m}, Arrived ls t i m → ∃ d, t.agents[i]? = some d ∧ m ∈ d.wire := by
    intro i m h
    obtain ⟨k, -, hm⟩ := h
    obtain ⟨d, hd, hm⟩ := Option.bind_eq_some_iff.mp hm
    exact ⟨d, hd, List.mem_of_getElem? hm⟩
  refine ⟨hvalid.keys, fun row hrow => ?_, fun i d hd => ?_⟩
  · obtain ⟨i, m, hm, heq⟩ := haccounts.stored row hrow
    obtain ⟨d, hd, hm⟩ := hwire hm
    exact ⟨d, List.mem_of_getElem? hd, m, (hvalid.agents hd).wire m hm, heq⟩
  -- A row with the event's id comes from the agent that took the event, and from this event.
  have hsame : ∀ m ∈ d.taken, ∀ row ∈ t.server.events, row.event.id = m.event.id →
      Arrived ls t i m ∧ row.event = m.event := by
    intro m hm row hrow hid
    obtain ⟨j, x, hx, heq⟩ := haccounts.stored row hrow
    have hxid : x.event.id = m.event.id := (congrArg Event.id heq).symm.trans hid
    obtain ⟨e, he, hxw⟩ := hwire hx
    have hxt := (hvalid.agents he).wire x hxw
    obtain rfl := hvalid.apart he hd hxt hm hxid
    cases hd.symm.trans he
    obtain rfl : x = m := List.inj_on_of_nodup_map (hvalid.agents hd).ids hxt hm hxid
    exact ⟨hx, heq⟩
  have hrow : ∀ m ∈ d.taken,
      ((∃ row ∈ t.server.events, row.event = m.event) ↔ Arrived ls t i m) := by
    intro m hm
    constructor
    · intro ⟨row, hrow, heq⟩
      exact (hsame m hm row hrow (congrArg Event.id heq)).1
    · intro ⟨k, hl, hk⟩
      obtain ⟨x, hx, hkey⟩ := haccounts.inserted hl
      cases hk.symm.trans hx
      obtain ⟨row, hrow, hkey⟩ := EventTable.hasKey_iff.mp hkey
      exact ⟨row, hrow, (hsame m hm row hrow (congrArg Prod.fst hkey)).2⟩
  refine ⟨hrow, fun a s pre post p m portable ha hls hpre hrest harrived => ?_⟩
  have hstart : (start agents rows kb).agents[i]? = some (.start a.1 a.2) := by
    rw [start, List.getElem?_map, ha]
    rfl
  obtain ⟨d', hown, hd'⟩ := run_agent hrun hstart
  cases hd.symm.trans hd'
  rw [hls, List.append_cons] at hown
  obtain ⟨s', hs', hpost⟩ := run_append_eq_some.mp hown
  cases hpre.symm.trans hs'
  have hmem : m ∈ d.taken := by
    obtain ⟨s₀, -, hlast⟩ := run_append_eq_some.mp hpre
    obtain ⟨s₁, htake, hnil⟩ := run_cons_eq_some.mp hlast
    cases hnil
    refine run_invariant (I := fun s => m ∈ s.taken) (fun h hstep =>
      (AgentDelivery.step_grows hstep).1 m h) hpost ?_
    obtain ⟨-, -, rfl⟩ := AgentDelivery.take_eq_some htake
    exact List.mem_append_right _ List.mem_cons_self
  rw [(AgentDelivery.message_kept_iff P parseTime htime a.1 a.2 pre post p m portable s d hpre
    hpost).2.1 hrest, hrow m hmem]
  refine ⟨fun h => ?_, harrived⟩
  obtain ⟨e, he, hm⟩ := hwire h
  cases hd.symm.trans he
  exact hm

/-- The startup message of an agent goes out, is not inserted when it first arrives, arrives twice more,
and is stored once. -/
theorem events_stored_once_sample :
    let cfg : IngestConfig Platform.sample := ⟨ControlPlane.sampleConfig, ⟨fun _ => "", fun _ => none⟩, false⟩
    let m := Message.carrying .null
    ∃ t, run (step cfg Platform.sampleParseTime) (start [(100, true), (5, false)] [] ⟨none⟩)
        [.agent 0 (.take .main m Message.portable_carrying_null), .agent 1 (.restart 7 true),
          .agent 0 (.publish .main .sent), .deliver 0 0 false, .deliver 0 0 true, .deliver 0 0 true] =
            some t ∧
      t.server.events.length = 1 ∧ ∃ row ∈ t.server.events, row.event = m.event := by
  intro cfg m
  have htime : ∀ t, Platform.sampleParseTime (Platform.sample.rfc3339 t) = some t :=
    Platform.sampleParseTime_sampleRfc3339
  have hdeliver : ∀ (s : FleetDelivery) (ok : Bool), s.sent 0 0 = some m →
      s.step cfg Platform.sampleParseTime (.deliver 0 0 ok) =
        some ⟨s.agents, if ok then s.server.persistMessage cfg m else s.server⟩ := by
    intro s ok hm
    have hread := AgentDelivery.fromText_toText htime Message.portable_carrying_null
    rw [step, hm, Option.bind_some, deliver, hread]
    rfl
  let d : AgentDelivery := { AgentDelivery.start 100 true with
    senders := Function.update (Function.update (fun _ => .idle) .main (.publishing m)) .main .idle
    taken := [m]
    wire := [m] }
  let e := (AgentDelivery.start 5 false).restart 7 true
  let server := ((IngestState.start [] [] ⟨none⟩).persistMessage cfg m).persistMessage cfg m
  have hrun : run (step cfg Platform.sampleParseTime) (start [(100, true), (5, false)] [] ⟨none⟩)
      ([.agent 0 (.take .main m Message.portable_carrying_null), .agent 1 (.restart 7 true),
        .agent 0 (.publish .main .sent)] ++
          [.deliver 0 0 false, .deliver 0 0 true, .deliver 0 0 true]) = some ⟨[d, e], server⟩ := by
    have hagents : run (step cfg Platform.sampleParseTime) (start [(100, true), (5, false)] [] ⟨none⟩)
        [.agent 0 (.take .main m Message.portable_carrying_null), .agent 1 (.restart 7 true),
          .agent 0 (.publish .main .sent)] = some ⟨[d, e], .start [] [] ⟨none⟩⟩ := rfl
    refine run_append_eq_some.mpr ⟨_, hagents, run_cons_eq_some.mpr ⟨_, hdeliver _ false rfl, ?_⟩⟩
    refine run_cons_eq_some.mpr ⟨_, hdeliver _ true rfl, ?_⟩
    exact run_cons_eq_some.mpr ⟨_, hdeliver _ true rfl, rfl⟩
  have hevents : server.events = [m] := by
    simp [server, IngestState.persistMessage, EventTable.insertMessage, EventTable.hasKey,
      IngestState.start]
  have hrest : d.AtRest := by
    refine ⟨fun p => ?_, rfl, rfl⟩
    cases p <;> rfl
  refine ⟨_, hrun, congrArg List.length hevents, ?_⟩
  refine (((events_stored_once cfg _ htime _ _ _ _ _ hrun).2.2 0 d rfl).2 (100, true) _ [] _ .main m
    Message.portable_carrying_null rfl rfl rfl hrest fun _ => ?_).mpr ⟨trivial, fun _ _ => trivial⟩
  exact ⟨0, List.mem_append_right _ (List.mem_cons_of_mem _ List.mem_cons_self), rfl⟩

end FleetDelivery

end Ravn
