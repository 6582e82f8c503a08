import Ravn.Agent.BufferOrder
import Mathlib.Logic.Function.Basic

/-! How a message leaves the agent. The main task and the digest task publish what they are given and
store in the offline buffer what they cannot publish; the flush task drains the buffer. The tasks take
their steps in any order and the agent may stop at any of them, with the file as all that is left. A
message that a task took is on the wire or still held exactly if every step since spared it
(`message_kept_iff`). -/

namespace Ravn

open Theory

/-! ## The tasks -/

/-- The tasks that publish what they are given: the main task, which has the startup message and then
the events of the taps, and the digest task. -/
inductive Publisher where
  | main
  | digest
deriving DecidableEq

/-- Where a publisher stands. -/
inductive Sender where
  | idle
  | publishing (m : Message)
  | buffering (m : Message)

/-- The message that a publisher has in hand. -/
def Sender.hand : Sender → Option Message
  | .idle => none
  | .publishing m => some m
  | .buffering m => some m

/-- What comes of `publish`. It can fail with the message gone out nevertheless. -/
inductive Published where
  | sent
  | failed (left : Bool)

def Published.left : Published → Bool
  | .sent => true
  | .failed left => left

/-- Where the flush task stands in its batch. With nothing left of it, it waits for the next tick. -/
inductive Flush where
  | sending (batch : List (String × Message))
  | deleting (eventId : String) (batch : List (String × Message))

def Flush.batch : Flush → List (String × Message)
  | .sending batch => batch
  | .deleting _ batch => batch

/-- The agent, and what left it. -/
structure AgentDelivery where
  buffer : Buffer (List Char)
  /-- Whether `Buffer::open` succeeded at the start. -/
  opened : Bool
  senders : Publisher → Sender
  flush : Flush
  /-- The messages that the publishers were given. -/
  taken : List Message
  /-- The messages that left the process, as often as they did. -/
  wire : List Message

inductive DeliveryLabel where
  /-- A publisher is given a message, which is one that the wire carries. -/
  | take (p : Publisher) (m : Message) (portable : m.Portable)
  | publish (p : Publisher) (outcome : Published)
  | enqueue (p : Publisher) (now : Int) (inserted pruned : Bool)
  /-- The tick of the flush task. -/
  | drain (read : Bool) (deleted : String → Bool)
  | flush (outcome : Published)
  | delete (deleted : Bool)
  /-- The agent stops, wherever its tasks stand, and starts again. -/
  | restart (max : UInt64) (opened : Bool)

namespace AgentDelivery

variable (P : Platform) (parseTime : String → Option DateTime)

/-- `publish` puts the message on the wire, or fails. -/
def put (s : AgentDelivery) (m : Message) (outcome : Published) : List Message :=
  if outcome.left then s.wire ++ [m] else s.wire

/-- An event id is new: `Uuid::now_v7`. -/
def take (s : AgentDelivery) (p : Publisher) (m : Message) : Option AgentDelivery :=
  match s.senders p with
  | .idle =>
    if m.event.id ∈ s.taken.map fun x => x.event.id then none
    else some { s with
      senders := Function.update s.senders p (.publishing m)
      taken := s.taken ++ [m] }
  | _ => none

def publish (s : AgentDelivery) (p : Publisher) (outcome : Published) : Option AgentDelivery :=
  match s.senders p with
  | .publishing m =>
    some { s with
      wire := s.put m outcome
      senders := Function.update s.senders p
        (match outcome with
        | .sent => .idle
        | .failed _ => .buffering m) }
  | _ => none

/-- Without a buffer the message is dropped. -/
def enqueue (s : AgentDelivery) (p : Publisher) (now : Int) (inserted pruned : Bool) :
    Option AgentDelivery :=
  match s.senders p with
  | .buffering m =>
    some { s with
      buffer := if s.opened then s.buffer.enqueue P m now inserted pruned else s.buffer
      senders := Function.update s.senders p .idle }
  | _ => none

/-- The flush task runs only with a buffer. -/
def drain (s : AgentDelivery) (read : Bool) (deleted : String → Bool) : Option AgentDelivery :=
  match s.flush with
  | .sending [] =>
    if s.opened then
      let (batch, buffer) := s.buffer.drainBatch parseTime 100 read deleted
      some { s with buffer := buffer, flush := .sending (batch.getD []) }
    else none
  | _ => none

/-- At the first message that cannot be published the rest of the batch waits for the next tick. -/
def flushNext (s : AgentDelivery) (outcome : Published) : Option AgentDelivery :=
  match s.flush with
  | .sending ((eventId, m) :: batch) =>
    some { s with
      wire := s.put m outcome
      flush := match outcome with
        | .sent => .deleting eventId batch
        | .failed _ => .sending [] }
  | _ => none

def deleteNext (s : AgentDelivery) (deleted : Bool) : Option AgentDelivery :=
  match s.flush with
  | .deleting eventId batch =>
    some { s with buffer := s.buffer.delete eventId deleted, flush := .sending batch }
  | _ => none

def restart (s : AgentDelivery) (max : UInt64) (opened : Bool) : AgentDelivery :=
  { s with
    buffer := .openAt s.buffer.outbox max
    opened := opened
    senders := fun _ => .idle
    flush := .sending [] }

def step (s : AgentDelivery) : DeliveryLabel → Option AgentDelivery
  | .take p m _ => s.take p m
  | .publish p outcome => s.publish p outcome
  | .enqueue p now inserted pruned => s.enqueue P p now inserted pruned
  | .drain read deleted => s.drain parseTime read deleted
  | .flush outcome => s.flushNext outcome
  | .delete deleted => s.deleteNext deleted
  | .restart max opened => some (s.restart max opened)

/-- An agent that has not run before. -/
def start (max : UInt64) (opened : Bool) : AgentDelivery :=
  ⟨.open max, opened, fun _ => .idle, .sending [], [], []⟩

/-! ## Where a message is -/

def InHand (s : AgentDelivery) (m : Message) : Prop := ∃ p, (s.senders p).hand = some m

/-- The offline buffer has a row with the message. -/
def Buffered (s : AgentDelivery) (m : Message) : Prop :=
  ∃ r ∈ s.buffer.outbox, r.eventId = m.event.id.toString ∧ r.message = m.toText P

/-- The flush task has read the message and not got to it yet. -/
def Batched (s : AgentDelivery) (m : Message) : Prop := ∃ e ∈ s.flush.batch, e.2 = m

/-- The message left, or the agent has it. -/
def Kept (s : AgentDelivery) (m : Message) : Prop :=
  m ∈ s.wire ∨ s.Buffered P m ∨ s.Batched m ∨ s.InHand m

/-- The row ids that `enqueue` prunes. -/
def excess (s : AgentDelivery) (r : OutboxRow (List Char)) : List String :=
  let t := s.buffer.outbox.insertOrIgnore r
  (t.oldestFirst.limit (Max.max 0 (t.length - s.buffer.max.toInt64.toInt))).map OutboxRow.eventId

/-- The step leaves a message that is not on the wire where it is, or takes it further. It is lost if
it cannot be stored, if its row is pruned, if the agent stops with the message in memory only, or if
the flush task gives up a batch with the message in it and its row is gone. -/
def Spares (m : Message) (s : AgentDelivery) : DeliveryLabel → Prop
  | .enqueue p now inserted pruned =>
    m ∈ s.wire ∨ s.Batched m ∨
      ∀ x, s.senders p = .buffering x →
        (x = m → s.opened = true ∧ inserted = true) ∧
          (s.opened = true → inserted = true → pruned = true →
            m.event.id.toString ∉ s.excess ⟨x.event.id.toString, x.toText P, now⟩)
  | .flush (.failed left) =>
    m ∈ s.wire ∨ s.Buffered P m ∨ s.InHand m ∨
      left = true ∧ ∃ id batch, s.flush = .sending ((id, m) :: batch)
  | .restart .. => m ∈ s.wire ∨ s.Buffered P m
  | _ => True

/-! ## Steps -/

variable {P parseTime} {s s' : AgentDelivery}

theorem take_eq_some (h : s.take p m = some s') :
    s.senders p = .idle ∧ (∀ x ∈ s.taken, x.event.id ≠ m.event.id) ∧
      s' = { s with
        senders := Function.update s.senders p (.publishing m)
        taken := s.taken ++ [m] } := by
  unfold take at h
  cases hp : s.senders p with
  | idle =>
    simp only [hp] at h
    split at h
    · cases h
    · rename_i hnew
      exact ⟨rfl, fun x hx heq => hnew (List.mem_map.mpr ⟨x, hx, heq⟩), (Option.some.inj h).symm⟩
  | publishing x => simp [hp] at h
  | buffering x => simp [hp] at h

theorem publish_eq_some (h : s.publish p outcome = some s') :
    ∃ m next, s.senders p = .publishing m ∧ (next = .idle ∧ outcome.left = true ∨ next = .buffering m) ∧
      s' = { s with wire := s.put m outcome, senders := Function.update s.senders p next } := by
  unfold publish at h
  cases hp : s.senders p with
  | idle => simp [hp] at h
  | buffering x => simp [hp] at h
  | publishing m =>
    simp only [hp, Option.some.injEq] at h
    cases outcome with
    | sent => exact ⟨m, .idle, rfl, .inl ⟨rfl, rfl⟩, h.symm⟩
    | failed left => exact ⟨m, .buffering m, rfl, .inr rfl, h.symm⟩

theorem enqueue_eq_some (h : s.enqueue P p now inserted pruned = some s') :
    ∃ m, s.senders p = .buffering m ∧
      s' = { s with
        buffer := if s.opened then s.buffer.enqueue P m now inserted pruned else s.buffer
        senders := Function.update s.senders p .idle } := by
  unfold enqueue at h
  cases hp : s.senders p with
  | idle => simp [hp] at h
  | publishing x => simp [hp] at h
  | buffering m =>
    simp only [hp, Option.some.injEq] at h
    exact ⟨m, rfl, h.symm⟩

theorem drain_eq_some {read : Bool} (h : s.drain parseTime read deleted = some s') :
    s.flush = .sending [] ∧ s.opened = true ∧
      s' = { s with
        buffer := (s.buffer.drainBatch parseTime 100 read deleted).2
        flush := .sending ((s.buffer.drainBatch parseTime 100 read deleted).1.getD []) } := by
  unfold drain at h
  split at h
  · rename_i hf
    cases hopened : s.opened with
    | false => simp [hopened] at h
    | true =>
      simp only [hopened, if_true, Option.some.injEq] at h
      exact ⟨hf, rfl, h.symm⟩
  · cases h

theorem flushNext_eq_some (h : s.flushNext outcome = some s') :
    ∃ eventId m batch next, s.flush = .sending ((eventId, m) :: batch) ∧
      (outcome = .sent ∧ next = .deleting eventId batch ∨
        (∃ left, outcome = .failed left) ∧ next = .sending []) ∧
      s' = { s with wire := s.put m outcome, flush := next } := by
  unfold flushNext at h
  split at h
  · rename_i eventId m batch hf
    simp only [Option.some.injEq] at h
    cases outcome with
    | sent => exact ⟨eventId, m, batch, _, hf, .inl ⟨rfl, rfl⟩, h.symm⟩
    | failed left => exact ⟨eventId, m, batch, _, hf, .inr ⟨⟨left, rfl⟩, rfl⟩, h.symm⟩
  · cases h

theorem deleteNext_eq_some (h : s.deleteNext deleted = some s') :
    ∃ eventId batch, s.flush = .deleting eventId batch ∧
      s' = { s with buffer := s.buffer.delete eventId deleted, flush := .sending batch } := by
  unfold deleteNext at h
  split at h
  · rename_i eventId batch hf
    exact ⟨eventId, batch, hf, (Option.some.inj h).symm⟩
  · cases h

theorem mem_put : x ∈ s.put m outcome ↔ x ∈ s.wire ∨ outcome.left = true ∧ x = m := by
  unfold put
  split <;> simp_all

/-- What a publisher has in hand after it moved on. -/
theorem hand_update (senders : Publisher → Sender) (p : Publisher) (next : Sender) (q : Publisher) :
    (Function.update senders p next q).hand = if q = p then next.hand else (senders q).hand := by
  rw [Function.update_apply]
  split <;> rfl

/-- The rows after `enqueue`, and those that it prunes. -/
theorem mem_enqueue (s : AgentDelivery) (m : Message) :
    r ∈ (s.buffer.enqueue P m now inserted pruned).outbox ↔
      if inserted then
        r ∈ s.buffer.outbox.insertOrIgnore ⟨m.event.id.toString, m.toText P, now⟩ ∧
          (pruned = true → r.eventId ∉ s.excess ⟨m.event.id.toString, m.toText P, now⟩)
      else r ∈ s.buffer.outbox := by
  cases inserted with
  | false => exact Iff.rfl
  | true =>
    cases pruned with
    | false => simp [Buffer.enqueue, Buffer.store]
    | true => simp [Buffer.enqueue, Buffer.store, Outbox.prune, Outbox.deleteIn, excess]

/-- The messages of a batch are read from rows of the table. -/
theorem mem_drainRows {deleted : String → Bool} {rows : Outbox (List Char)} {b : Buffer (List Char)}
    (h : e ∈ (Buffer.drainRows parseTime deleted rows b).1.getD []) :
    ∃ r ∈ rows, r.eventId = e.1 ∧ Message.fromText parseTime r.message = some e.2 := by
  induction rows generalizing b with
  | nil => simp [Buffer.drainRows] at h
  | cons r rows ih =>
    unfold Buffer.drainRows at h
    cases hread : Message.fromText parseTime r.message with
    | some m =>
      simp only [hread] at h
      cases hrest : (Buffer.drainRows parseTime deleted rows b).1 with
      | none => simp [hrest] at h
      | some out =>
        simp only [hrest, Option.map_some, Option.getD_some, List.mem_cons] at h
        rcases h with rfl | h
        · exact ⟨r, List.mem_cons_self, rfl, hread⟩
        · obtain ⟨r', hr', heq⟩ := ih (b := b) (by rw [hrest]; exact h)
          exact ⟨r', List.mem_cons_of_mem _ hr', heq⟩
    | none =>
      simp only [hread] at h
      split at h
      · obtain ⟨r', hr', heq⟩ := ih h
        exact ⟨r', List.mem_cons_of_mem _ hr', heq⟩
      · simp at h

theorem mem_drainBatch {read : Bool} {b : Buffer (List Char)}
    (h : e ∈ (b.drainBatch parseTime n read deleted).1.getD []) :
    ∃ r ∈ b.outbox, r.eventId = e.1 ∧ Message.fromText parseTime r.message = some e.2 := by
  cases read with
  | false => simp [Buffer.drainBatch] at h
  | true =>
    obtain ⟨r, hr, heq⟩ := mem_drainRows h
    exact ⟨r, Buffer.mem_batch hr, heq⟩

/-- A row that can be read stays in the table. -/
theorem mem_outbox_drainBatch {read : Bool} {b : Buffer (List Char)}
    (hread : ∀ r ∈ b.outbox, (Message.fromText parseTime r.message).isSome) :
    r ∈ (b.drainBatch parseTime n read deleted).2.outbox ↔ r ∈ b.outbox := by
  cases read with
  | false => exact Iff.rfl
  | true =>
    obtain ⟨-, hsub, -, hgone⟩ : (Buffer.drainRows parseTime deleted (b.batch n) b).2.max = b.max ∧ _ :=
      Buffer.drainRows_spec deleted (b.batch n)
    refine ⟨fun h => hsub.subset h, fun h => Classical.byContradiction fun hnot => ?_⟩
    obtain ⟨r', hr', -, hnone⟩ := hgone r h hnot
    have hsome := hread r' (Buffer.mem_batch hr')
    rw [hnone] at hsome
    cases hsome

/-! ## The invariant -/

/-- What holds of an agent however its tasks are interleaved. -/
structure Valid (P : Platform) (parseTime : String → Option DateTime) (s : AgentDelivery) : Prop where
  ids : (s.taken.map fun m => m.event.id).Nodup
  portable : ∀ m ∈ s.taken, m.Portable
  hands : ∀ {p m}, (s.senders p).hand = some m → m ∈ s.taken
  apart : ∀ {p q m}, (s.senders p).hand = some m → (s.senders q).hand = some m → p = q
  rows : ∀ r ∈ s.buffer.outbox, ∃ m ∈ s.taken,
    r.eventId = m.event.id.toString ∧ r.message = m.toText P
  /-- What a publisher has in hand is not stored yet. -/
  unstored : ∀ {p m}, (s.senders p).hand = some m → ¬s.Buffered P m
  batch : ∀ e ∈ s.flush.batch, e.2 ∈ s.taken ∧ e.1 = e.2.event.id.toString
  deleting : ∀ {id batch}, s.flush = .deleting id batch →
    ∃ m ∈ s.wire, id = m.event.id.toString
  wire : ∀ m ∈ s.wire, m ∈ s.taken

theorem valid_start (max : UInt64) (opened : Bool) : (start max opened).Valid P parseTime where
  ids := List.nodup_nil
  portable := by simp [start]
  hands := by simp [start, Sender.hand]
  apart := by simp [start, Sender.hand]
  rows := by simp [start, Buffer.open, Buffer.openAt]
  unstored := by simp [start, Sender.hand]
  batch := by simp [start, Flush.batch]
  deleting := by simp [start]
  wire := by simp [start]

/-- Messages that were taken are told apart by their ids. -/
theorem Valid.same (h : s.Valid P parseTime) (hx : x ∈ s.taken) (hm : m ∈ s.taken)
    (hid : x.event.id.toString = m.event.id.toString) : x = m :=
  List.inj_on_of_nodup_map h.ids hx hm (Uuid.toString_injective hid)

theorem Valid.buffered_of (h : s.Valid P parseTime) (hm : m ∈ s.taken) (hr : r ∈ s.buffer.outbox)
    (hid : r.eventId = m.event.id.toString) : s.Buffered P m := by
  obtain ⟨x, hx, hxid, htext⟩ := h.rows r hr
  obtain rfl := h.same hx hm (hxid.symm.trans hid)
  exact ⟨r, hr, hid, htext⟩

theorem Valid.take (h : s.Valid P parseTime) (hm : m.Portable) (hstep : s.take p m = some s') :
    s'.Valid P parseTime := by
  obtain ⟨hidle, hnew, rfl⟩ := take_eq_some hstep
  have hsub : ∀ {x}, x ∈ s.taken → x ∈ s.taken ++ [m] := List.mem_append_left _
  have hnone : (s.senders p).hand = none := by rw [hidle]; rfl
  have hfresh : m ∉ s.taken := fun hmem => hnew m hmem rfl
  constructor
  case ids =>
    rw [List.map_append, List.nodup_append]
    refine ⟨h.ids, List.nodup_singleton _, ?_⟩
    intro i hi j hj heq
    obtain ⟨x, hx, rfl⟩ := List.mem_map.mp hi
    exact hnew x hx (heq.trans (List.mem_singleton.mp hj))
  case portable =>
    intro x hx
    rcases List.mem_append.mp hx with hx | hx
    · exact h.portable x hx
    · exact List.mem_singleton.mp hx ▸ hm
  case hands =>
    intro q x hx
    simp only [hand_update] at hx
    split at hx
    · cases hx
      exact List.mem_append_right _ List.mem_cons_self
    · exact hsub (h.hands hx)
  case apart =>
    intro q q' x hq hq'
    simp only [hand_update] at hq hq'
    split at hq <;> split at hq'
    · simp_all
    · cases hq
      exact absurd (h.hands hq') hfresh
    · cases hq'
      exact absurd (h.hands hq) hfresh
    · exact h.apart hq hq'
  case rows =>
    intro r hr
    obtain ⟨x, hx, heq⟩ := h.rows r hr
    exact ⟨x, hsub hx, heq⟩
  case unstored =>
    intro q x hx
    simp only [hand_update] at hx
    split at hx
    · cases hx
      intro ⟨r, hr, hid, _⟩
      obtain ⟨y, hy, hyid, -⟩ := h.rows r hr
      exact hnew y hy (Uuid.toString_injective (hyid.symm.trans hid))
    · exact h.unstored hx
  case batch => exact fun e he => ⟨hsub (h.batch e he).1, (h.batch e he).2⟩
  case deleting => exact h.deleting
  case wire => exact fun x hx => hsub (h.wire x hx)

theorem Valid.publish (h : s.Valid P parseTime) (hstep : s.publish p outcome = some s') :
    s'.Valid P parseTime := by
  obtain ⟨m, next, hp, hnext, rfl⟩ := publish_eq_some hstep
  have hm : (s.senders p).hand = some m := by rw [hp]; rfl
  -- A publisher has after the step what it had before, or nothing.
  have hback : ∀ {q x}, (Function.update s.senders p next q).hand = some x →
      (s.senders q).hand = some x := by
    intro q x hx
    rw [hand_update] at hx
    split at hx
    · subst q
      rcases hnext with ⟨rfl, -⟩ | rfl
      · cases hx
      · exact hm.trans hx
    · exact hx
  constructor
  case ids => exact h.ids
  case portable => exact h.portable
  case hands => exact fun hx => h.hands (hback hx)
  case apart => exact fun hq hq' => h.apart (hback hq) (hback hq')
  case rows => exact h.rows
  case unstored => exact fun hx => h.unstored (hback hx)
  case batch => exact h.batch
  case deleting =>
    intro id batch hf
    obtain ⟨x, hx, hid⟩ := h.deleting hf
    exact ⟨x, mem_put.mpr (.inl hx), hid⟩
  case wire =>
    intro x hx
    rcases mem_put.mp hx with hx | ⟨-, rfl⟩
    · exact h.wire x hx
    · exact h.hands hm

theorem Valid.enqueue (h : s.Valid P parseTime)
    (hstep : s.enqueue P p now inserted pruned = some s') : s'.Valid P parseTime := by
  obtain ⟨m, hp, rfl⟩ := enqueue_eq_some hstep
  have hm : (s.senders p).hand = some m := by rw [hp]; rfl
  have hback : ∀ {q x}, (Function.update s.senders p Sender.idle q).hand = some x →
      q ≠ p ∧ (s.senders q).hand = some x := by
    intro q x hx
    rw [hand_update] at hx
    split at hx
    · cases hx
    · exact ⟨‹_›, hx⟩
  have hrow : ∀ r ∈ (if s.opened then s.buffer.enqueue P m now inserted pruned else s.buffer).outbox,
      r ∈ s.buffer.outbox ∨ r = ⟨m.event.id.toString, m.toText P, now⟩ := by
    intro r hr
    split at hr
    · exact Buffer.mem_store hr
    · exact .inl hr
  constructor
  case ids => exact h.ids
  case portable => exact h.portable
  case hands => exact fun hx => h.hands (hback hx).2
  case apart => exact fun hq hq' => h.apart (hback hq).2 (hback hq').2
  case rows =>
    intro r hr
    rcases hrow r hr with hr | rfl
    · exact h.rows r hr
    · exact ⟨m, h.hands hm, rfl, rfl⟩
  case unstored =>
    intro q x hx ⟨r, hr, hid, htext⟩
    obtain ⟨hq, hx⟩ := hback hx
    rcases hrow r hr with hr | rfl
    · exact h.unstored hx ⟨r, hr, hid, htext⟩
    · obtain rfl := h.same (h.hands hm) (h.hands hx) hid
      exact hq (h.apart hx hm)
  case batch => exact h.batch
  case deleting => exact h.deleting
  case wire => exact h.wire

section

variable (htime : ∀ t, parseTime (P.rfc3339 t) = some t)

include htime

theorem fromText_toText (hm : m.Portable) : Message.fromText parseTime (m.toText P) = some m :=
  Message.fromText_toText htime hm.disjoint hm.valued hm.within

/-- Every row can be read, so no drain drops one. -/
theorem Valid.mem_drain (h : s.Valid P parseTime) {read : Bool} :
    r ∈ (s.buffer.drainBatch parseTime n read deleted).2.outbox ↔ r ∈ s.buffer.outbox := by
  refine mem_outbox_drainBatch fun r hr => ?_
  obtain ⟨m, hm, -, htext⟩ := h.rows r hr
  rw [htext, fromText_toText htime (h.portable m hm)]
  rfl

/-- What is read from a row is the message that was stored. -/
theorem Valid.mem_read (h : s.Valid P parseTime) {read : Bool}
    (he : e ∈ (s.buffer.drainBatch parseTime n read deleted).1.getD []) :
    e.2 ∈ s.taken ∧ e.1 = e.2.event.id.toString ∧ s.Buffered P e.2 := by
  obtain ⟨r, hr, hid, hread⟩ := mem_drainBatch he
  obtain ⟨m, hm, hmid, htext⟩ := h.rows r hr
  rw [htext, fromText_toText htime (h.portable m hm), Option.some.injEq] at hread
  subst hread
  exact ⟨hm, hid.symm.trans hmid, r, hr, hmid, htext⟩

theorem Valid.drain (h : s.Valid P parseTime) {read : Bool}
    (hstep : s.drain parseTime read deleted = some s') : s'.Valid P parseTime := by
  obtain ⟨hf, -, rfl⟩ := drain_eq_some hstep
  constructor
  case ids => exact h.ids
  case portable => exact h.portable
  case hands => exact h.hands
  case apart => exact h.apart
  case rows => exact fun r hr => h.rows r ((h.mem_drain htime).mp hr)
  case unstored =>
    intro p x hx ⟨r, hr, heq⟩
    exact h.unstored hx ⟨r, (h.mem_drain htime).mp hr, heq⟩
  case batch =>
    intro e he
    obtain ⟨hmem, hid, -⟩ := h.mem_read htime he
    exact ⟨hmem, hid⟩
  case deleting => nofun
  case wire => exact h.wire

end

theorem Valid.flush (h : s.Valid P parseTime) (hstep : s.flushNext outcome = some s') :
    s'.Valid P parseTime := by
  obtain ⟨id, m, batch, next, hf, hnext, rfl⟩ := flushNext_eq_some hstep
  have hbatch := h.batch
  rw [hf] at hbatch
  obtain ⟨hm, hid⟩ := hbatch (id, m) List.mem_cons_self
  constructor
  case ids => exact h.ids
  case portable => exact h.portable
  case hands => exact h.hands
  case apart => exact h.apart
  case rows => exact h.rows
  case unstored => exact h.unstored
  case batch =>
    intro e he
    rcases hnext with ⟨-, rfl⟩ | ⟨-, rfl⟩
    · exact hbatch e (List.mem_cons_of_mem _ he)
    · cases he
  case deleting =>
    intro id' batch' hf'
    rcases hnext with ⟨rfl, rfl⟩ | ⟨-, rfl⟩
    · cases hf'
      exact ⟨m, (mem_put : m ∈ s.put m .sent ↔ _).mpr (.inr ⟨rfl, rfl⟩), hid⟩
    · cases hf'
  case wire =>
    intro x hx
    rcases mem_put.mp hx with hx | ⟨-, rfl⟩
    · exact h.wire x hx
    · exact hm

theorem Valid.delete (h : s.Valid P parseTime) (hstep : s.deleteNext deleted = some s') :
    s'.Valid P parseTime := by
  obtain ⟨id, batch, hf, rfl⟩ := deleteNext_eq_some hstep
  have hbatch := h.batch
  rw [hf] at hbatch
  have hrow : ∀ r ∈ (s.buffer.delete id deleted).outbox, r ∈ s.buffer.outbox := by
    intro r hr
    cases deleted with
    | false => exact hr
    | true => exact Buffer.mem_deleteIn hr
  constructor
  case ids => exact h.ids
  case portable => exact h.portable
  case hands => exact h.hands
  case apart => exact h.apart
  case rows => exact fun r hr => h.rows r (hrow r hr)
  case unstored =>
    intro p x hx ⟨r, hr, heq⟩
    exact h.unstored hx ⟨r, hrow r hr, heq⟩
  case batch => exact hbatch
  case deleting => nofun
  case wire => exact h.wire

theorem Valid.restart (h : s.Valid P parseTime) (max : UInt64) (opened : Bool) :
    (s.restart max opened).Valid P parseTime := by
  have hnone : ∀ {p m}, ((s.restart max opened).senders p).hand ≠ some m := nofun
  constructor
  case ids => exact h.ids
  case portable => exact h.portable
  case hands => exact fun hx => absurd hx hnone
  case apart => exact fun hx => absurd hx hnone
  case rows => exact h.rows
  case unstored => exact fun hx => absurd hx hnone
  case batch => exact fun e he => absurd he List.not_mem_nil
  case deleting => nofun
  case wire => exact h.wire

/-! ## What a step does to a message -/

/-- A message is stored by an insert if it is the one that is inserted. -/
theorem buffered_insert (h : s.Valid P parseTime) (hm : m ∈ s.taken) (hx : x ∈ s.taken)
    (row : OutboxRow (List Char)) (hid : row.eventId = x.event.id.toString)
    (htext : row.message = x.toText P) :
    (∃ r ∈ s.buffer.outbox.insertOrIgnore row,
        r.eventId = m.event.id.toString ∧ r.message = m.toText P) ↔ s.Buffered P m ∨ x = m := by
  cases hhas : s.buffer.outbox.hasId row.eventId with
  | true =>
    rw [Outbox.insertOrIgnore_of_hasId hhas]
    refine ⟨.inl, fun hmem => hmem.elim id fun heq => ?_⟩
    subst heq
    obtain ⟨r, hr, hrid⟩ := List.any_eq_true.mp hhas
    exact h.buffered_of hm hr ((of_decide_eq_true hrid).trans hid)
  | false =>
    rw [Outbox.insertOrIgnore_of_not hhas]
    constructor
    · intro ⟨r, hr, hrid, hrtext⟩
      rcases List.mem_append.mp hr with hr | hr
      · exact .inl ⟨r, hr, hrid, hrtext⟩
      · cases List.mem_singleton.mp hr
        exact .inr (h.same hx hm (hid.symm.trans hrid))
    · intro hmem
      rcases hmem with ⟨r, hr, heq⟩ | heq
      · exact ⟨r, List.mem_append_left _ hr, heq⟩
      · subst heq
        exact ⟨row, List.mem_append_right _ List.mem_cons_self, hid, htext⟩

/-- After `enqueue` a message has a row if it had one or is the one that was stored, and if its row
is not pruned. -/
theorem buffered_enqueue (h : s.Valid P parseTime) (hm : m ∈ s.taken) (hx : x ∈ s.taken) :
    (∃ r ∈ (s.buffer.enqueue P x now inserted pruned).outbox,
        r.eventId = m.event.id.toString ∧ r.message = m.toText P) ↔
      if inserted then
        (s.Buffered P m ∨ x = m) ∧
          (pruned = true → m.event.id.toString ∉ s.excess ⟨x.event.id.toString, x.toText P, now⟩)
      else s.Buffered P m := by
  cases inserted with
  | false => exact Iff.rfl
  | true =>
    have hinsert := buffered_insert h hm hx ⟨x.event.id.toString, x.toText P, now⟩ rfl rfl
    simp only [if_true, ← hinsert, mem_enqueue]
    constructor
    · intro ⟨r, ⟨hr, hpruned⟩, hid, htext⟩
      rw [hid] at hpruned
      exact ⟨⟨r, hr, hid, htext⟩, hpruned⟩
    · intro ⟨⟨r, hr, hid, htext⟩, hpruned⟩
      rw [← hid] at hpruned
      exact ⟨r, ⟨hr, hpruned⟩, hid, htext⟩

/-- What the publishers have in hand after one of them moved on. -/
theorem inHand_update {p : Publisher} {next : Sender} :
    (∃ q, (Function.update s.senders p next q).hand = some m) ↔
      next.hand = some m ∨ ∃ q, q ≠ p ∧ (s.senders q).hand = some m := by
  simp only [hand_update]
  constructor
  · intro ⟨q, hq⟩
    split at hq
    · exact .inl hq
    · exact .inr ⟨q, ‹_›, hq⟩
  · intro h
    rcases h with h | ⟨q, hne, hq⟩
    · exact ⟨p, by rw [if_pos rfl]; exact h⟩
    · exact ⟨q, by rw [if_neg hne]; exact hq⟩

theorem kept_take (hm : m ∈ s.taken) (hstep : s.take p x = some s') :
    s'.Kept P m ↔ s.Kept P m := by
  obtain ⟨hidle, hnew, rfl⟩ := take_eq_some hstep
  have hne : x ≠ m := fun heq => hnew m hm (heq ▸ rfl)
  have hhand : (∃ q, (Function.update s.senders p (.publishing x) q).hand = some m) ↔ s.InHand m := by
    rw [inHand_update]
    constructor
    · intro h
      rcases h with h | ⟨q, -, hq⟩
      · exact absurd (Option.some.inj h) hne
      · exact ⟨q, hq⟩
    · intro ⟨q, hq⟩
      refine .inr ⟨q, ?_, hq⟩
      rintro rfl
      rw [hidle] at hq
      cases hq
  exact or_congr_right (or_congr_right (or_congr_right hhand))

theorem kept_publish (hstep : s.publish p outcome = some s') : s'.Kept P m ↔ s.Kept P m := by
  obtain ⟨x, next, hp, hnext, rfl⟩ := publish_eq_some hstep
  have hx : (s.senders p).hand = some x := by rw [hp]; rfl
  constructor
  · intro hkept
    rcases hkept with hwire | hrow | hbatch | hhand
    · rcases mem_put.mp hwire with hwire | ⟨-, rfl⟩
      · exact .inl hwire
      · exact .inr (.inr (.inr ⟨p, hx⟩))
    · exact .inr (.inl hrow)
    · exact .inr (.inr (.inl hbatch))
    · refine .inr (.inr (.inr ?_))
      rcases inHand_update.mp hhand with hnow | ⟨q, -, hq⟩
      · rcases hnext with ⟨rfl, -⟩ | rfl
        · cases hnow
        · exact ⟨p, hx.trans hnow⟩
      · exact ⟨q, hq⟩
  · intro hkept
    rcases hkept with hwire | hrow | hbatch | ⟨q, hq⟩
    · exact .inl (mem_put.mpr (.inl hwire))
    · exact .inr (.inl hrow)
    · exact .inr (.inr (.inl hbatch))
    · rcases eq_or_ne q p with rfl | hne
      · cases hx.symm.trans hq
        rcases hnext with ⟨-, hleft⟩ | rfl
        · exact .inl (mem_put.mpr (.inr ⟨hleft, rfl⟩))
        · exact .inr (.inr (.inr (inHand_update.mpr (.inl rfl))))
      · exact .inr (.inr (.inr (inHand_update.mpr (.inr ⟨q, hne, hq⟩))))

/-- Only rows of the table are pruned. -/
theorem mem_excess {row : OutboxRow (List Char)} (h : i ∈ s.excess row) :
    ∃ r ∈ s.buffer.outbox.insertOrIgnore row, r.eventId = i := by
  obtain ⟨r, hr, hid⟩ := List.mem_map.mp h
  refine ⟨r, ?_, hid⟩
  unfold Outbox.limit at hr
  split at hr
  · exact List.mem_mergeSort.mp hr
  · exact List.mem_mergeSort.mp (List.mem_of_mem_take hr)

/-- A message in hand is not pruned by the storing of another. -/
theorem not_excess_of_inHand (h : s.Valid P parseTime) (hhand : s.InHand m) (hx : x ∈ s.taken)
    (hne : x ≠ m) {row : OutboxRow (List Char)} (hid : row.eventId = x.event.id.toString) :
    m.event.id.toString ∉ s.excess row := by
  intro hmem
  obtain ⟨q, hq⟩ := hhand
  have hm := h.hands hq
  obtain ⟨r, hr, hrid⟩ := mem_excess hmem
  unfold Outbox.insertOrIgnore at hr
  split at hr
  · exact h.unstored hq (h.buffered_of hm hr hrid)
  · rcases List.mem_append.mp hr with hr | hr
    · exact h.unstored hq (h.buffered_of hm hr hrid)
    · have hrow : r = row := List.mem_singleton.mp hr
      subst hrow
      exact hne (h.same hx hm (hid.symm.trans hrid))

theorem kept_enqueue (h : s.Valid P parseTime) (hm : m ∈ s.taken)
    (hstep : s.enqueue P p now inserted pruned = some s') :
    s'.Kept P m ↔ s.Kept P m ∧ s.Spares P m (.enqueue p now inserted pruned) := by
  obtain ⟨x, hp, hs'⟩ := enqueue_eq_some hstep
  have hx : (s.senders p).hand = some x := by rw [hp]; rfl
  have hspares : s.Spares P m (.enqueue p now inserted pruned) ↔ m ∈ s.wire ∨ s.Batched m ∨
      (x = m → s.opened = true ∧ inserted = true) ∧
        (s.opened = true → inserted = true → pruned = true →
          m.event.id.toString ∉ s.excess ⟨x.event.id.toString, x.toText P, now⟩) := by
    simp only [Spares, hp, Sender.buffering.injEq, forall_eq']
  have hhand : s'.InHand m ↔ s.InHand m ∧ x ≠ m := by
    subst hs'
    refine inHand_update.trans ⟨fun hback => ?_, fun ⟨⟨q, hq⟩, hne⟩ => ?_⟩
    · rcases hback with hback | ⟨q, hne, hq⟩
      · cases hback
      · exact ⟨⟨q, hq⟩, fun heq => hne (h.apart hq (heq ▸ hx))⟩
    · exact .inr ⟨q, fun heq => hne (Option.some.inj (hx.symm.trans (heq ▸ hq))), hq⟩
  have hrow : s'.Buffered P m ↔ if s.opened = true ∧ inserted = true then
      (s.Buffered P m ∨ x = m) ∧ (pruned = true →
        m.event.id.toString ∉ s.excess ⟨x.event.id.toString, x.toText P, now⟩)
      else s.Buffered P m := by
    subst hs'
    unfold Buffered
    cases s.opened with
    | false => simp
    | true =>
      simp only [if_true, true_and]
      exact buffered_enqueue h hm (h.hands hx)
  have hkept : s'.Kept P m ↔ m ∈ s.wire ∨ s'.Buffered P m ∨ s.Batched m ∨ s'.InHand m := by
    subst hs'
    exact Iff.rfl
  -- A message in hand has no row, and only the rows can be pruned.
  have hunstored : x = m → ¬s.Buffered P m := fun heq => h.unstored (heq ▸ hx)
  have hown : x = m → s.InHand m := fun heq => ⟨p, heq ▸ hx⟩
  have hother : s.InHand m → x ≠ m →
      m.event.id.toString ∉ s.excess ⟨x.event.id.toString, x.toText P, now⟩ :=
    fun hq hne => not_excess_of_inHand h hq (h.hands hx) hne rfl
  rw [hkept, hspares, hrow, hhand, Kept]
  clear hkept hspares hrow hhand hs' hstep
  split
  · grind
  · grind

theorem kept_drain (htime : ∀ t, parseTime (P.rfc3339 t) = some t) (h : s.Valid P parseTime)
    {read : Bool} (hstep : s.drain parseTime read deleted = some s') :
    s'.Kept P m ↔ s.Kept P m := by
  obtain ⟨hf, -, rfl⟩ := drain_eq_some hstep
  have hnone : ¬s.Batched m := by
    intro ⟨e, he, _⟩
    rw [hf] at he
    cases he
  constructor
  · intro hkept
    rcases hkept with hwire | ⟨r, hr, heq⟩ | ⟨e, he, rfl⟩ | hhand
    · exact .inl hwire
    · exact .inr (.inl ⟨r, (h.mem_drain htime).mp hr, heq⟩)
    · exact .inr (.inl (h.mem_read htime he).2.2)
    · exact .inr (.inr (.inr hhand))
  · intro hkept
    rcases hkept with hwire | ⟨r, hr, heq⟩ | hbatch | hhand
    · exact .inl hwire
    · exact .inr (.inl ⟨r, (h.mem_drain htime).mpr hr, heq⟩)
    · exact absurd hbatch hnone
    · exact .inr (.inr (.inr hhand))

theorem kept_flush (hstep : s.flushNext outcome = some s') :
    s'.Kept P m ↔ s.Kept P m ∧ s.Spares P m (.flush outcome) := by
  obtain ⟨id, x, batch, next, hf, hnext, rfl⟩ := flushNext_eq_some hstep
  have hbatched : s.Batched m ↔ x = m ∨ ∃ e ∈ batch, e.2 = m := by
    simp [Batched, hf, Flush.batch]
  unfold Kept
  change (m ∈ s.put x outcome ∨ s.Buffered P m ∨ (∃ e ∈ next.batch, e.2 = m) ∨ s.InHand m) ↔ _
  rw [mem_put, hbatched]
  rcases hnext with ⟨rfl, rfl⟩ | ⟨⟨left, rfl⟩, rfl⟩
  · simp only [Published.left, Flush.batch, Spares]
    grind
  · simp only [Published.left, Flush.batch, Spares, hf, Flush.sending.injEq, List.cons.injEq,
      Prod.mk.injEq]
    grind

/-- The row of a message goes once it is on the wire. -/
theorem kept_delete (h : s.Valid P parseTime) (hm : m ∈ s.taken)
    (hstep : s.deleteNext deleted = some s') : s'.Kept P m ↔ s.Kept P m := by
  obtain ⟨id, batch, hf, rfl⟩ := deleteNext_eq_some hstep
  have hbatched : s.Batched m ↔ ∃ e ∈ batch, e.2 = m := by simp [Batched, hf, Flush.batch]
  unfold Kept
  change (m ∈ s.wire ∨ _ ∨ (∃ e ∈ batch, e.2 = m) ∨ s.InHand m) ↔ _
  rw [hbatched]
  cases deleted with
  | false => exact Iff.rfl
  | true =>
    have hrow : (∃ r ∈ (s.buffer.delete id true).outbox,
        r.eventId = m.event.id.toString ∧ r.message = m.toText P) → s.Buffered P m :=
      fun ⟨r, hr, heq⟩ => ⟨r, Buffer.mem_deleteIn hr, heq⟩
    constructor
    · exact fun hkept => hkept.imp_right fun hkept => hkept.imp_left hrow
    · intro hkept
      rcases hkept with hwire | ⟨r, hr, hid, htext⟩ | hrest
      · exact .inl hwire
      · rcases eq_or_ne r.eventId id with heq | hne
        · obtain ⟨x, hx, hxid⟩ := h.deleting hf
          exact .inl (h.same (h.wire x hx) hm (hxid.symm.trans (heq.symm.trans hid)) ▸ hx)
        · refine .inr (.inl ⟨r, List.mem_filter.mpr ⟨hr, ?_⟩, hid, htext⟩)
          simpa using hne
      · exact .inr (.inr hrest)

theorem kept_restart (max : UInt64) (opened : Bool) :
    (s.restart max opened).Kept P m ↔ s.Kept P m ∧ s.Spares P m (.restart max opened) := by
  have hnone : ¬(s.restart max opened).Batched m ∧ ¬(s.restart max opened).InHand m := by
    simp [Batched, InHand, restart, Flush.batch, Sender.hand]
  have hrow : (s.restart max opened).Buffered P m ↔ s.Buffered P m := Iff.rfl
  have hwire : (s.restart max opened).wire = s.wire := rfl
  simp only [Kept, hnone, hrow, hwire, Spares, or_false]
  grind

/-- A message is kept by a step exactly if it was and the step spares it. -/
theorem kept_step_iff (htime : ∀ t, parseTime (P.rfc3339 t) = some t) (h : s.Valid P parseTime)
    (hm : m ∈ s.taken) (hstep : s.step P parseTime l = some s') :
    s'.Kept P m ↔ s.Kept P m ∧ s.Spares P m l := by
  cases l with
  | take p x portable => exact (kept_take hm hstep).trans (and_iff_left trivial).symm
  | publish p outcome => exact (kept_publish hstep).trans (and_iff_left trivial).symm
  | enqueue p now inserted pruned => exact kept_enqueue h hm hstep
  | drain read deleted => exact (kept_drain htime h hstep).trans (and_iff_left trivial).symm
  | flush outcome => exact kept_flush hstep
  | delete deleted => exact (kept_delete h hm hstep).trans (and_iff_left trivial).symm
  | restart max opened =>
    cases hstep
    exact kept_restart max opened

theorem Valid.step (htime : ∀ t, parseTime (P.rfc3339 t) = some t) (h : s.Valid P parseTime)
    (hstep : s.step P parseTime l = some s') : s'.Valid P parseTime := by
  cases l with
  | take p x portable => exact h.take portable hstep
  | publish p outcome => exact h.publish hstep
  | enqueue p now inserted pruned => exact h.enqueue hstep
  | drain read deleted => exact h.drain htime hstep
  | flush outcome => exact h.flush hstep
  | delete deleted => exact h.delete hstep
  | restart max opened =>
    cases hstep
    exact h.restart max opened

/-- What was taken or went on the wire stays there, and what is new was taken by the step or had been
taken before. -/
theorem step_grows (hstep : s.step P parseTime l = some s') :
    (∀ m ∈ s.taken, m ∈ s'.taken) ∧ s.wire <+: s'.wire ∧
      ∀ m ∈ s'.taken, m ∈ s.taken ∨ ∃ p portable, l = .take p m portable := by
  have hput : ∀ {x outcome}, s.wire <+: s.put x outcome := fun {x outcome} => by
    rw [put]
    split
    · exact List.prefix_append _ _
    · exact List.prefix_rfl
  cases l with
  | take p x portable =>
    obtain ⟨-, -, rfl⟩ := take_eq_some hstep
    refine ⟨fun m hm => List.mem_append_left _ hm, List.prefix_rfl, fun m hm => ?_⟩
    rcases List.mem_append.mp hm with hm | hm
    · exact .inl hm
    · obtain rfl := List.mem_singleton.mp hm
      exact .inr ⟨p, portable, rfl⟩
  | publish p outcome =>
    obtain ⟨x, next, -, -, rfl⟩ := publish_eq_some hstep
    exact ⟨fun m hm => hm, hput, fun m hm => .inl hm⟩
  | enqueue p now inserted pruned =>
    obtain ⟨x, -, rfl⟩ := enqueue_eq_some hstep
    exact ⟨fun m hm => hm, List.prefix_rfl, fun m hm => .inl hm⟩
  | drain read deleted =>
    obtain ⟨-, -, rfl⟩ := drain_eq_some hstep
    exact ⟨fun m hm => hm, List.prefix_rfl, fun m hm => .inl hm⟩
  | flush outcome =>
    obtain ⟨id, x, batch, next, -, -, rfl⟩ := flushNext_eq_some hstep
    exact ⟨fun m hm => hm, hput, fun m hm => .inl hm⟩
  | delete deleted =>
    obtain ⟨id, batch, -, rfl⟩ := deleteNext_eq_some hstep
    exact ⟨fun m hm => hm, List.prefix_rfl, fun m hm => .inl hm⟩
  | restart max opened =>
    cases hstep
    exact ⟨fun m hm => hm, List.prefix_rfl, fun m hm => .inl hm⟩

/-! ## Runs -/

theorem valid_run {max : UInt64} {opened : Bool} (htime : ∀ t, parseTime (P.rfc3339 t) = some t)
    (hrun : run (step P parseTime) (start max opened) ls = some t) : t.Valid P parseTime :=
  run_invariant (fun h hstep => h.step htime hstep) hrun (valid_start max opened)

/-- Nothing is on its way in the agent. -/
structure AtRest (s : AgentDelivery) : Prop where
  hands : ∀ p, (s.senders p).hand = none
  batch : s.flush.batch = []
  outbox : s.buffer.outbox = []

/-- A message that was taken is neither on the wire nor in the agent any more. -/
def Lost (P : Platform) (parseTime : String → Option DateTime) (m : Message) (s : AgentDelivery) : Prop :=
  s.Valid P parseTime ∧ m ∈ s.taken ∧ ¬s.Kept P m

/-- A message that was given to a publisher is on the wire, stored, in a batch or in hand exactly if
every step since spared it, however the tasks were interleaved and the agent restarted. Of an agent at
rest it is on the wire exactly then. Nothing goes on the wire that was not given to a publisher. -/
theorem message_kept_iff (P : Platform) (parseTime : String → Option DateTime)
    (htime : ∀ t, parseTime (P.rfc3339 t) = some t) (max : UInt64) (opened : Bool)
    (pre post : List DeliveryLabel) (p : Publisher) (m : Message) (portable : m.Portable)
    (s t : AgentDelivery)
    (hpre : run (step P parseTime) (start max opened) (pre ++ [.take p m portable]) = some s)
    (hpost : run (step P parseTime) s post = some t) :
    (Along (step P parseTime) (Spares P m) s post ↔ t.Kept P m) ∧
      (t.AtRest → (Along (step P parseTime) (Spares P m) s post ↔ m ∈ t.wire)) ∧
      ∀ x ∈ t.wire, x ∈ t.taken := by
  have hs := valid_run htime hpre
  obtain ⟨s₀, -, hlast⟩ := run_append_eq_some.mp hpre
  obtain ⟨s₁, htake, hnil⟩ := run_cons_eq_some.mp hlast
  cases hnil
  have hstart : m ∈ s.taken ∧ s.Kept P m := by
    obtain ⟨-, -, rfl⟩ := take_eq_some htake
    refine ⟨List.mem_append_right _ List.mem_cons_self, .inr (.inr (.inr ?_))⟩
    exact inHand_update.mpr (.inl rfl)
  have hiff : Along (step P parseTime) (Spares P m) s post ↔ ¬Lost P parseTime m t := by
    refine @along_iff_of_absorbing _ _ (step P parseTime) _ _ _ (Spares P m)
      (fun s => s.Valid P parseTime ∧ m ∈ s.taken ∧ s.Kept P m) (Lost P parseTime m)
      ?_ ?_ ?_ ?_ hpost ⟨hs, hstart⟩
    · intro s l s' ⟨hv, hm, hk⟩ hspares hstep
      exact ⟨hv.step htime hstep, (step_grows hstep).1 m hm,
        (kept_step_iff htime hv hm hstep).mpr ⟨hk, hspares⟩⟩
    · intro s l s' ⟨hv, hm, _⟩ hspares hstep
      exact ⟨hv.step htime hstep, (step_grows hstep).1 m hm,
        fun hk => hspares ((kept_step_iff htime hv hm hstep).mp hk).2⟩
    · intro s l s' ⟨hv, hm, hk⟩ hstep
      exact ⟨hv.step htime hstep, (step_grows hstep).1 m hm,
        fun hk' => hk ((kept_step_iff htime hv hm hstep).mp hk').1⟩
    · intro s ⟨_, _, hk⟩ ⟨_, _, hnot⟩
      exact hnot hk
  have ht : t.Valid P parseTime := run_invariant (fun h hstep => h.step htime hstep) hpost hs
  have hmem : m ∈ t.taken :=
    run_invariant (I := fun s => m ∈ s.taken) (fun h hstep => (step_grows hstep).1 m h) hpost hstart.1
  have hkept : Along (step P parseTime) (Spares P m) s post ↔ t.Kept P m := by
    rw [hiff]
    exact ⟨fun h => Classical.byContradiction fun hk => h ⟨ht, hmem, hk⟩, fun hk h => h.2.2 hk⟩
  refine ⟨hkept, fun hrest => hkept.trans ?_, ht.wire⟩
  constructor
  · intro hk
    rcases hk with hwire | ⟨r, hr, -⟩ | ⟨e, he, -⟩ | ⟨q, hq⟩
    · exact hwire
    · rw [hrest.outbox] at hr
      cases hr
    · rw [hrest.batch] at he
      cases he
    · rw [hrest.hands q] at hq
      cases hq
  · exact .inl

/-! ## The control plane is reachable again -/

/-- A step that keeps the rows in the order in which they were stored: the clock is not stepped back
behind a row when one is stored, and a restart has room for what the file holds. -/
def Steady (s : AgentDelivery) : DeliveryLabel → Prop
  | .enqueue p now inserted pruned => ∀ m, s.senders p = .buffering m → s.opened = true →
      s.buffer.Steady (.enqueue m now inserted pruned)
  | .restart max _ => s.buffer.Steady (.reopen max)
  | _ => True

theorem ordered_step (hordered : s.buffer.Ordered) (hsteady : s.Steady l)
    (hstep : s.step P parseTime l = some s') : s'.buffer.Ordered := by
  have hcall : ∀ c, s.buffer.Steady c → (s.buffer.perform P parseTime c).Ordered := fun c hc =>
    (Buffer.ordered_perform hordered hc).1
  cases l with
  | take p m =>
    obtain ⟨-, -, rfl⟩ := take_eq_some hstep
    exact hordered
  | publish p outcome =>
    obtain ⟨m, next, -, -, rfl⟩ := publish_eq_some hstep
    exact hordered
  | enqueue p now inserted pruned =>
    obtain ⟨m, hp, rfl⟩ := enqueue_eq_some hstep
    cases hopened : s.opened with
    | false => exact hordered
    | true => exact hcall (.enqueue m now inserted pruned) (hsteady m hp hopened)
  | drain read deleted =>
    obtain ⟨-, -, rfl⟩ := drain_eq_some hstep
    exact hcall (.drainBatch 100 read deleted) trivial
  | flush outcome =>
    obtain ⟨eventId, m, batch, next, -, -, rfl⟩ := flushNext_eq_some hstep
    exact hordered
  | delete deleted =>
    obtain ⟨eventId, batch, -, rfl⟩ := deleteNext_eq_some hstep
    exact hcall (.delete eventId deleted) trivial
  | restart max opened =>
    cases hstep
    exact hcall (.reopen max) hsteady

/-- The messages that the rows of the buffer hold, in their order. -/
def storedMessages (parseTime : String → Option DateTime) (t : Outbox (List Char)) : List Message :=
  t.filterMap fun r => Message.fromText parseTime r.message

/-- The steps of a tick whose batch has so many messages, all of which are published and deleted. -/
def tickLabels (n : Nat) : List DeliveryLabel :=
  .drain true (fun _ => true) :: (List.replicate n [.flush .sent, .delete true]).flatten

/-- So many ticks over a buffer with so many rows. -/
def ticks : Nat → Nat → List DeliveryLabel
  | 0, _ => []
  | k + 1, rows => tickLabels (min 100 rows) ++ ticks k (rows - 100)

/-- Rows that can be read make up the batch. -/
theorem drainRows_readable (deleted : String → Bool) {rows : Outbox (List Char)}
    {b : Buffer (List Char)} (h : ∀ r ∈ rows, (Message.fromText parseTime r.message).isSome) :
    ∃ batch, Buffer.drainRows parseTime deleted rows b = (some batch, b) ∧
      batch.map Prod.fst = rows.map OutboxRow.eventId ∧
      batch.map Prod.snd = storedMessages parseTime rows := by
  induction rows with
  | nil => exact ⟨[], rfl, rfl, rfl⟩
  | cons r rows ih =>
    obtain ⟨m, hread⟩ := Option.isSome_iff_exists.mp (h r List.mem_cons_self)
    obtain ⟨batch, hrest, hids, hms⟩ := ih fun r hr => h r (List.mem_cons_of_mem _ hr)
    refine ⟨(r.eventId, m) :: batch, ?_, ?_, ?_⟩
    · simp only [Buffer.drainRows, hread, hrest, Option.map_some]
    · rw [List.map_cons, List.map_cons, hids]
    · rw [List.map_cons, storedMessages, List.filterMap_cons, hread, hms, storedMessages]

/-- The loop over a batch that is the front of the table. -/
theorem run_batch {batch : List (String × Message)} {rows rest : Outbox (List Char)}
    (hf : s.flush = .sending batch) (ht : s.buffer.outbox = rows ++ rest)
    (hd : s.buffer.outbox.Distinct) (hids : batch.map Prod.fst = rows.map OutboxRow.eventId) :
    run (step P parseTime) s (List.replicate batch.length [.flush .sent, .delete true]).flatten =
      some { s with
        buffer := ⟨rest, s.buffer.max⟩
        flush := .sending []
        wire := s.wire ++ batch.map Prod.snd } := by
  induction batch generalizing s rows with
  | nil =>
    obtain rfl : rows = [] := List.map_eq_nil_iff.mp hids.symm
    rw [List.map_nil, List.append_nil, ← List.nil_append rest, ← ht, ← hf]
    rfl
  | cons e batch ih =>
    obtain ⟨id, m⟩ := e
    cases rows with
    | nil => cases hids
    | cons r rows =>
      obtain ⟨hid, hids⟩ := List.cons.inj hids
      have hdelete : s.buffer.outbox.deleteIn [id] = rows ++ rest := by
        have hfirst := Outbox.deleteIn_take hd 1
        rw [ht] at hfirst ⊢
        rw [show id = r.eventId from hid]
        exact hfirst
      let s₁ : AgentDelivery := { s with
        buffer := ⟨rows ++ rest, s.buffer.max⟩
        flush := .sending batch
        wire := s.wire ++ [m] }
      have hsteps : ∀ ls, run (step P parseTime) s (.flush .sent :: .delete true :: ls) =
          run (step P parseTime) s₁ ls := by
        intro ls
        have hsent : s.step P parseTime (.flush .sent) =
            some { s with wire := s.wire ++ [m], flush := .deleting id batch } := by
          simp only [step, flushNext, hf, put, Published.left, if_true]
        rw [run, hsent]
        simp only [Option.bind_some, run, step, deleteNext, Buffer.delete, if_true, hdelete, s₁]
      have hd₁ : s₁.buffer.outbox.Distinct :=
        hd.sublist (ht ▸ (List.sublist_cons_self r (rows ++ rest)).map _)
      have hrest := ih (s := s₁) rfl (rfl : s₁.buffer.outbox = rows ++ rest) hd₁ hids
      rw [List.length_cons, List.replicate_succ, List.flatten_cons]
      refine (hsteps _).trans (hrest.trans ?_)
      simp [s₁]

theorem Valid.readable (htime : ∀ t, parseTime (P.rfc3339 t) = some t) (h : s.Valid P parseTime)
    (hr : r ∈ s.buffer.outbox) : ∃ m ∈ s.taken, r.eventId = m.event.id.toString ∧
      Message.fromText parseTime r.message = some m := by
  obtain ⟨m, hm, hid, htext⟩ := h.rows r hr
  exact ⟨m, hm, hid, htext ▸ fromText_toText htime (h.portable m hm)⟩

theorem storedMessages_singleton (h : Message.fromText parseTime r.message = some m) :
    storedMessages parseTime [r] = [m] := by
  rw [storedMessages, List.filterMap_cons, h]
  rfl

theorem storedMessages_ids {t : Outbox (List Char)}
    (h : ∀ r ∈ t, ∃ m, r.eventId = m.event.id.toString ∧
      Message.fromText parseTime r.message = some m) :
    (storedMessages parseTime t).map (fun m => m.event.id.toString) = t.map OutboxRow.eventId := by
  induction t with
  | nil => rfl
  | cons r t ih =>
    obtain ⟨m, hid, hread⟩ := h r List.mem_cons_self
    rw [storedMessages, List.filterMap_cons, hread, List.map_cons, List.map_cons, hid]
    exact congrArg _ (ih fun r hr => h r (List.mem_cons_of_mem _ hr))

/-- One tick publishes and deletes the first hundred rows. -/
theorem run_tick (htime : ∀ t, parseTime (P.rfc3339 t) = some t) (h : s.Valid P parseTime)
    (hordered : s.buffer.Ordered) (hopened : s.opened = true) (hf : s.flush = .sending []) :
    run (step P parseTime) s (tickLabels (min 100 s.buffer.outbox.length)) =
      some { s with
        buffer := ⟨s.buffer.outbox.drop 100, s.buffer.max⟩
        flush := .sending []
        wire := s.wire ++ storedMessages parseTime (s.buffer.outbox.take 100) } := by
  have hbatch : s.buffer.batch 100 = s.buffer.outbox.take 100 := by
    have hcast : (100 : UInt64).toInt64.toInt = 100 := by decide
    rw [hordered.batch_eq, Outbox.limit, hcast]
    rfl
  have hread : ∀ r ∈ s.buffer.outbox.take 100, (Message.fromText parseTime r.message).isSome := by
    intro r hr
    obtain ⟨m, -, -, hm⟩ := h.readable htime (List.mem_of_mem_take hr)
    rw [hm]
    rfl
  obtain ⟨batch, hdrain, hids, hms⟩ := drainRows_readable (fun _ => true)
    (b := s.buffer) hread
  have hlength : batch.length = min 100 s.buffer.outbox.length := by
    rw [← List.length_map (f := Prod.fst), hids, List.length_map, List.length_take]
  have hstep : s.step P parseTime (.drain true fun _ => true) =
      some { s with flush := .sending batch } := by
    simp only [step, drain, hf, hopened, if_true, Buffer.drainBatch, hbatch, hdrain,
      Option.getD_some]
  have hloop : run (step P parseTime) { s with flush := .sending batch } _ = some _ :=
    run_batch rfl (List.take_append_drop 100 _).symm hordered.distinct hids
  rw [tickLabels, run, hstep, ← hlength, Option.bind_some, hloop, hms]

/-- When the control plane is reachable again, and nothing else happens, the flush task publishes the
stored messages in the order in which they were stored, a hundred each tick, every one of them once,
and empties the buffer: after any steps that keep that order, in an agent whose buffer is open and whose
flush task waits for the next tick. -/
theorem flush_drains (P : Platform) (parseTime : String → Option DateTime)
    (htime : ∀ t, parseTime (P.rfc3339 t) = some t) (max : UInt64) (opened : Bool)
    (ls : List DeliveryLabel) (s : AgentDelivery)
    (hrun : run (step P parseTime) (start max opened) ls = some s)
    (hsteady : Along (step P parseTime) Steady (start max opened) ls) (hopened : s.opened = true)
    (hf : s.flush = .sending []) :
    ((storedMessages parseTime s.buffer.outbox).map fun m => m.event.id.toString) =
        s.buffer.outbox.map OutboxRow.eventId ∧
      (∀ m ∈ storedMessages parseTime s.buffer.outbox, m ∈ s.taken) ∧
      (∀ k, run (step P parseTime) s (ticks k s.buffer.outbox.length) = some { s with
        buffer := ⟨s.buffer.outbox.drop (100 * k), s.buffer.max⟩
        wire := s.wire ++ storedMessages parseTime (s.buffer.outbox.take (100 * k)) }) ∧
      ∃ k, run (step P parseTime) s (ticks k s.buffer.outbox.length) = some { s with
        buffer := ⟨[], s.buffer.max⟩
        wire := s.wire ++ storedMessages parseTime s.buffer.outbox } := by
  have hvalid := valid_run htime hrun
  have hordered : s.buffer.Ordered :=
    hsteady.invariant (I := fun s => s.buffer.Ordered) ordered_step hrun (Buffer.ordered_open max)
  have hticks : ∀ k, run (step P parseTime) s (ticks k s.buffer.outbox.length) = some { s with
      buffer := ⟨s.buffer.outbox.drop (100 * k), s.buffer.max⟩
      wire := s.wire ++ storedMessages parseTime (s.buffer.outbox.take (100 * k)) } := by
    clear hrun hsteady
    intro k
    induction k generalizing s with
    | zero =>
      simp only [ticks, run_nil, Nat.mul_zero, List.drop_zero, List.take_zero, storedMessages,
        List.filterMap_nil, List.append_nil]
    | succ k ih =>
      have htick := run_tick htime hvalid hordered hopened hf
      have hvalid' := run_invariant (fun h hstep => h.step htime hstep) htick hvalid
      have hordered' : Buffer.Ordered ⟨s.buffer.outbox.drop 100, s.buffer.max⟩ :=
        hordered.of_sublist rfl (List.drop_sublist _ _)
      have hrest := ih { s with
        buffer := ⟨s.buffer.outbox.drop 100, s.buffer.max⟩
        flush := .sending []
        wire := s.wire ++ storedMessages parseTime (s.buffer.outbox.take 100) }
        hopened rfl hvalid' hordered'
      simp only [List.length_drop] at hrest
      refine run_append_eq_some.mpr ⟨_, htick, hrest.trans ?_⟩
      have hmul : 100 * (k + 1) = 100 + 100 * k := by omega
      rw [hmul, List.drop_drop, List.take_add, storedMessages, storedMessages, storedMessages,
        List.filterMap_append, List.append_assoc, hf]
  refine ⟨?_, ?_, hticks, s.buffer.outbox.length, ?_⟩
  · refine storedMessages_ids fun r hr => ?_
    obtain ⟨m, -, hm⟩ := hvalid.readable htime hr
    exact ⟨m, hm⟩
  · intro m hm
    obtain ⟨r, hr, hread⟩ := List.mem_filterMap.mp hm
    obtain ⟨x, hx, -, hx'⟩ := hvalid.readable htime hr
    cases hread.symm.trans hx'
    exact hx
  · have hlength : s.buffer.outbox.length ≤ 100 * s.buffer.outbox.length := by omega
    rw [hticks, List.drop_of_length_le hlength, List.take_of_length_le hlength]

end AgentDelivery

theorem Message.portable_carrying_null : (Message.carrying .null).Portable :=
  ⟨carrying_disjoint _, carrying_valued trivial, (carrying_withinLimit _).mpr (by decide)⟩

/-- A message that could not be published is lost at a restart that comes before it is stored, and is
not when it was stored. -/
theorem AgentDelivery.message_kept_sample :
    let m := Message.carrying .null
    let step := AgentDelivery.step Platform.sample Platform.sampleParseTime
    let stored : DeliveryLabel := .enqueue .main 7 true false
    ∃ s t t', run step (start 100 true) [.take .main m Message.portable_carrying_null,
        .publish .main (.failed false)] = some s ∧
      run step s [.restart 9 true] = some t ∧ ¬t.Kept Platform.sample m ∧
      run step s [stored, .restart 9 true] = some t' ∧ t'.Kept Platform.sample m := by
  intro m step stored
  have hiff := fun post t => message_kept_iff Platform.sample Platform.sampleParseTime
    Platform.sampleParseTime_sampleRfc3339 100 true [] (.publish .main (.failed false) :: post) .main m
    Message.portable_carrying_null _ t rfl
  refine ⟨_, _, _, rfl, rfl, fun hkept => ?_, rfl, ?_⟩
  · obtain ⟨-, halong⟩ := (hiff [.restart 9 true] _ rfl).1.mpr hkept
    obtain hwire | ⟨r, hr, -⟩ := (halong _ rfl).1
    · cases hwire
    · cases hr
  · refine (hiff [stored, .restart 9 true] _ rfl).1.mp ?_
    refine ⟨trivial, fun s hs => ?_⟩
    cases hs
    refine ⟨.inr (.inr fun x hx => ?_), fun s hs => ?_⟩
    · cases hx
      exact ⟨fun _ => ⟨rfl, rfl⟩, fun _ _ hpruned => absurd hpruned Bool.false_ne_true⟩
    · cases hs
      exact ⟨.inr ⟨_, List.mem_cons_self, rfl, rfl⟩, fun _ _ => trivial⟩

/-- A message that could not be published goes out with the next tick. -/
theorem AgentDelivery.flush_drains_sample :
    let m := Message.carrying .null
    let step := AgentDelivery.step Platform.sample Platform.sampleParseTime
    ∃ s t, run step (start 100 true) [.take .main m Message.portable_carrying_null,
        .publish .main (.failed false), .enqueue .main 7 true false] = some s ∧ s.wire = [] ∧
      run step s (ticks 1 1) = some t ∧ t.wire = [m] ∧ t.buffer.outbox = [] := by
  intro m step
  have htime : ∀ t, Platform.sampleParseTime (Platform.sample.rfc3339 t) = some t :=
    Platform.sampleParseTime_sampleRfc3339
  have hroom : (Buffer.open 100).Steady (.enqueue m 7 true false) := by
    refine fun _ => ⟨nofun, fun _ => ⟨fun r hr => absurd hr List.not_mem_nil, .inl ?_⟩⟩
    decide
  have hsteady : Along step Steady (start 100 true) [.take .main m Message.portable_carrying_null,
      .publish .main (.failed false), .enqueue .main 7 true false] := by
    refine ⟨trivial, fun s hs => ?_⟩
    cases hs
    refine ⟨trivial, fun s hs => ?_⟩
    cases hs
    refine ⟨fun x hx _ => ?_, fun _ _ => trivial⟩
    cases hx
    exact hroom
  obtain ⟨-, -, hticks, -⟩ := flush_drains Platform.sample Platform.sampleParseTime htime 100 true
    _ _ rfl hsteady rfl rfl
  refine ⟨_, _, rfl, rfl, hticks 1, ?_, rfl⟩
  have hread : Message.fromText Platform.sampleParseTime (m.toText Platform.sample) = some m :=
    fromText_toText htime Message.portable_carrying_null
  refine (List.nil_append _).trans ?_
  exact storedMessages_singleton (r := ⟨m.event.id.toString, m.toText Platform.sample, 7⟩) hread

end Ravn
