import Ravn.Core.Message
import Ravn.Server.ControlPlane
import Ravn.Server.Knowledge

/-! Ingestion. A message is stored once, however often it is delivered, but it is prepared at every
delivery. What a redelivered message does beyond the events table is held against a control plane that
prepares a message only when it stores it. -/

namespace Ravn

open Theory

variable {P : Platform}

/-! ## Messages -/

/-- The `events` table; its rows are messages. -/
abbrev EventTable := List Message

namespace EventTable

/-- The primary key of an event is taken. -/
def hasKey (t : EventTable) (e : Event) : Bool :=
  t.any fun m => m.event.id = e.id ∧ timestamptz m.event.occurredAt = timestamptz e.occurredAt

def hasId (t : EventTable) (id : Uuid) : Bool := t.any fun m => m.event.id = id

/-- `insert_message`. -/
def insertMessage (t : EventTable) (msg : Message) : EventTable :=
  if t.hasKey msg.event then t else t ++ [msg]

/-- `update_explanation`. -/
def updateExplanation (t : EventTable) (e : Event) (explanation : Explanation) : EventTable :=
  t.map fun m =>
    if m.event.id = e.id ∧ timestamptz m.event.occurredAt = timestamptz e.occurredAt then
      { m with explanation := some explanation }
    else m

end EventTable

structure IngestConfig (P : Platform) where
  app : AppConfig P
  times : Rfc3339
  /-- Whether the control plane explains bare Kubernetes events itself. -/
  inference : Bool

/-- What ingestion works on: the events, the control plane, the knowledge base and the explanations in
progress. The handlers of messages that had been stored before are remembered. -/
structure IngestState where
  events : EventTable
  plane : ControlPlane
  kb : KnowledgeBase
  explaining : List Event
  redelivered : List Nat

/-- `maybe_explain`: whether an explanation is started for a message. -/
def Message.explains (inference : Bool) (msg : Message) : Bool :=
  inference && msg.explanation.isNone &&
    (msg.event.source = .kubeWorkload || msg.event.source = .kubeNode)

inductive IngestLabel where
  /-- A message is delivered; the flag is the outcome of the insert. -/
  | deliver (msg : Message) (ok : Bool)
  /-- An explanation in progress ends, with the outcome of the update. -/
  | explained (i : Nat) (explanation : Option Explanation) (ok : Bool)
  /-- Anything else that the control plane does; the flag is the outcome of writing an entry of the
  knowledge base. -/
  | plane (l : ControlLabel) (written : Bool)

namespace IngestState

variable (cfg : IngestConfig P)

/-- The user that an outcome is recorded under. -/
def approver : Decision → String
  | .approved (.human user _) => user
  | .approved .policyAuto => "policy:auto"
  | _ => "unknown"

/-- What an access of a handler does to the knowledge base: a fault without a template is a gap, and
the result of a command is an outcome. -/
def reflect (s : IngestState) (task : Task) (d : Draw) (written : Bool) : KnowledgeBase :=
  match task with
  | .prepare event =>
    if (cfg.app.templates.matchEvent event).isNone then
      s.kb.recordGap cfg.times event d.now written
    else s.kb
  | .resultUpdate result =>
    if d.reply.ok then
      match (s.plane.shared.store.rows.recordResult result d.reply.now).1 with
      | some (record, signature) =>
        if s.kb.isEnabled && !signature.isEmpty then
          s.kb.recordOutcome cfg.times signature record.proposal result.status
            (record.result.map fun r =>
              (r.finishedAt.nanos - record.proposal.createdAt.nanos).tdiv 1000000000)
            (approver record.decision) d.now written
        else s.kb
      | none => s.kb
    else s.kb
  | _ => s.kb

/-- `persist_message`, once the insert has succeeded. -/
def persistMessage (s : IngestState) (msg : Message) : IngestState where
  events := s.events.insertMessage msg
  plane := ⟨s.plane.shared, s.plane.tasks ++ [.prepare msg.event]⟩
  kb := s.kb
  explaining := s.explaining ++ if msg.explains cfg.inference then [msg.event] else []
  redelivered :=
    if s.events.hasKey msg.event then s.redelivered ++ [s.plane.tasks.length] else s.redelivered

/-- The end of an explanation. -/
def finishExplanation (s : IngestState) (i : Nat) (explanation : Option Explanation) (ok : Bool) :
    Option IngestState :=
  s.explaining[i]?.map fun event =>
    { s with
      events := match explanation with
        | some e => if ok then s.events.updateExplanation event e else s.events
        | none => s.events
      explaining := s.explaining.eraseIdx i }

/-- A step of the control plane. Events come in by `persist_message` only. -/
def controlStep (s : IngestState) (l : ControlLabel) (written : Bool) : Option IngestState :=
  match l with
  | .spawn (.ingest _) => none
  | .advance i d =>
    s.plane.tasks[i]?.bind fun task =>
      (ControlPlane.step cfg.app s.plane l).map fun plane =>
        { s with plane := plane, kb := s.reflect cfg task d written }
  | l => (ControlPlane.step cfg.app s.plane l).map fun plane => { s with plane := plane }

def step (s : IngestState) : IngestLabel → Option IngestState
  | .deliver msg ok => some (if ok then s.persistMessage cfg msg else s)
  | .explained i explanation ok => s.finishExplanation i explanation ok
  | .plane l written => s.controlStep cfg l written

/-- Ingestion as it would be if a message were prepared only when it is stored: the handler of a
redelivered message has nothing to do. -/
def stepOnce (s : IngestState) : IngestLabel → Option IngestState
  | .deliver msg ok =>
    some (if ok then
        if s.events.hasKey msg.event then
          { s with
            plane := ⟨s.plane.shared, s.plane.tasks ++ [.finished]⟩
            redelivered := s.redelivered ++ [s.plane.tasks.length] }
        else s.persistMessage cfg msg
      else s)
  | .explained i explanation ok => s.finishExplanation i explanation ok
  | .plane (.advance i d) written =>
    if i ∈ s.redelivered then some s else s.controlStep cfg (.advance i d) written
  | .plane l written => s.controlStep cfg l written

def start (events : EventTable) (rows : Table) (kb : KnowledgeBase) : IngestState :=
  ⟨events, .start rows, kb, [], []⟩

end IngestState

end Ravn
