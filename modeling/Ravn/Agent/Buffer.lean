import Ravn.Core.Message
import Ravn.Crypto.Envelope

/-! The agent's offline buffer, an sqlite table of message texts. It is compared with a buffer that
holds the messages themselves and reads no text: over every run the two agree row by row, a drain
returns what was stored, and no row is dropped as unreadable (`messages_survive`). The messages it
holds for are those that the reader's recursion limit lets through; a deeper one is dropped at the
first drain (`deep_message_dropped`). -/

namespace Ravn

open Theory

/-! ## The table -/

/-- A row of the `outbox` table, whatever its column `message` holds. -/
structure OutboxRow (α : Type) where
  eventId : String
  message : α
  enqueuedAt : Int

def OutboxRow.map (f : α → β) (r : OutboxRow α) : OutboxRow β :=
  ⟨r.eventId, f r.message, r.enqueuedAt⟩

/-- The table in the order of the row ids: a new row has the highest one. -/
abbrev Outbox (α : Type) := List (OutboxRow α)

namespace Outbox

/-- `ORDER BY enqueued_at ASC, rowid ASC`. -/
def oldestFirst (t : Outbox α) : Outbox α := t.mergeSort fun a b => a.enqueuedAt ≤ b.enqueuedAt

/-- `LIMIT`. A negative one is none. -/
def limit (n : Int) (t : Outbox α) : Outbox α := if n < 0 then t else t.take n.toNat

def hasId (t : Outbox α) (eventId : String) : Bool := t.any fun r => r.eventId = eventId

/-- `INSERT OR IGNORE`: the event id is the primary key. -/
def insertOrIgnore (t : Outbox α) (r : OutboxRow α) : Outbox α :=
  if t.hasId r.eventId then t else t ++ [r]

/-- `DELETE … WHERE event_id IN …`. -/
def deleteIn (t : Outbox α) (eventIds : List String) : Outbox α :=
  t.filter fun r => r.eventId ∉ eventIds

/-- The rows beyond the cap, the oldest ones. -/
def prune (t : Outbox α) (cap : Int) : Outbox α :=
  t.deleteIn ((t.oldestFirst.limit (max 0 (t.length - cap))).map OutboxRow.eventId)

/-- Nothing is pruned up to the cap. -/
theorem prune_of_le {t : Outbox α} (h : (t.length : Int) ≤ cap) : t.prune cap = t := by
  have hexcess : max 0 ((t.length : Int) - cap) = 0 := by omega
  rw [prune, hexcess]
  exact List.filter_eq_self.mpr fun _ _ => rfl

end Outbox

/-! ## The buffer -/

structure Buffer (α : Type) where
  outbox : Outbox α
  max : UInt64

namespace Buffer

def map (f : α → β) (b : Buffer α) : Buffer β := ⟨b.outbox.map (OutboxRow.map f), b.max⟩

/-- `Buffer::open` on the table that the file holds. -/
def openAt (outbox : Outbox α) (max : UInt64) : Buffer α := ⟨outbox, Max.max max 1⟩

/-- `Buffer::open` where there is no file yet. -/
def «open» (max : UInt64) : Buffer α := openAt [] max

/-- The statements of `enqueue`, with the outcome of each; a `usize` is cast to an `i64`. -/
def store (b : Buffer α) (r : OutboxRow α) (inserted pruned : Bool) : Buffer α :=
  if inserted then
    let outbox := b.outbox.insertOrIgnore r
    { b with outbox := if pruned then outbox.prune b.max.toInt64.toInt else outbox }
  else b

/-- The rows that `drain_batch` selects. -/
def batch (b : Buffer α) (n : UInt64) : Outbox α := b.outbox.oldestFirst.limit n.toInt64.toInt

/-- `delete`, with the outcome of the statement. -/
def delete (b : Buffer α) (eventId : String) (deleted : Bool) : Buffer α :=
  if deleted then { b with outbox := b.outbox.deleteIn [eventId] } else b

end Buffer

/-- A call of the buffer, with the clock and the outcomes of its statements. -/
inductive BufferCall where
  | enqueue (msg : Message) (now : Int) (inserted pruned : Bool)
  | drainBatch (n : UInt64) (read : Bool) (deleted : String → Bool)
  | delete (eventId : String) (deleted : Bool)
  /-- The agent starts again. -/
  | reopen (max : UInt64)

section

variable (P : Platform) (parseTime : String → Option DateTime)

namespace Buffer

/-- `enqueue`. -/
def enqueue (b : Buffer (List Char)) (msg : Message) (now : Int) (inserted pruned : Bool) :
    Buffer (List Char) :=
  b.store ⟨msg.event.id.toString, msg.toText P, now⟩ inserted pruned

/-- The loop of `drain_batch` over the rows it selected. A row that cannot be parsed is deleted, and
if that fails the call does. -/
def drainRows (deleted : String → Bool) :
    Outbox (List Char) → Buffer (List Char) → Option (List (String × Message)) × Buffer (List Char)
  | [], b => (some [], b)
  | r :: rs, b =>
    match Message.fromText parseTime r.message with
    | some m =>
      let (out, b) := drainRows deleted rs b
      (out.map ((r.eventId, m) :: ·), b)
    | none =>
      if deleted r.eventId then drainRows deleted rs (b.delete r.eventId true) else (none, b)

/-- `drain_batch`. -/
def drainBatch (b : Buffer (List Char)) (n : UInt64) (read : Bool) (deleted : String → Bool) :
    Option (List (String × Message)) × Buffer (List Char) :=
  if read then drainRows parseTime deleted (b.batch n) b else (none, b)

def perform (b : Buffer (List Char)) : BufferCall → Buffer (List Char)
  | .enqueue msg now inserted pruned => b.enqueue P msg now inserted pruned
  | .drainBatch n read deleted => (b.drainBatch parseTime n read deleted).2
  | .delete eventId deleted => b.delete eventId deleted
  | .reopen max => openAt b.outbox max

def exec (calls : List BufferCall) (b : Buffer (List Char)) : Buffer (List Char) :=
  calls.foldl (perform P parseTime) b

end Buffer

end

/-! ## A buffer of messages -/

namespace Buffer

/-- What a call does to a buffer that keeps the messages themselves. It has nothing to drop. -/
def keep (b : Buffer Message) : BufferCall → Buffer Message
  | .enqueue msg now inserted pruned => b.store ⟨msg.event.id.toString, msg, now⟩ inserted pruned
  | .drainBatch .. => b
  | .delete eventId deleted => b.delete eventId deleted
  | .reopen max => openAt b.outbox max

/-- The messages that are stored after the calls. -/
def stored (calls : List BufferCall) (max : UInt64) : Buffer Message := calls.foldl keep («open» max)

end Buffer

/-! ## What is in a column makes no difference to the table -/

namespace Outbox

variable (f : α → β) (t : Outbox α)

theorem oldestFirst_map :
    oldestFirst (t.map (OutboxRow.map f)) = t.oldestFirst.map (OutboxRow.map f) := by
  unfold oldestFirst
  rw [List.map_mergeSort]
  exact fun _ _ _ _ => rfl

theorem limit_map (n : Int) :
    limit n (t.map (OutboxRow.map f)) = (t.limit n).map (OutboxRow.map f) := by
  unfold limit
  split
  · rfl
  · exact List.map_take.symm

theorem insertOrIgnore_map (r : OutboxRow α) :
    insertOrIgnore (t.map (OutboxRow.map f)) (r.map f) =
      (t.insertOrIgnore r).map (OutboxRow.map f) := by
  have hhas : hasId (t.map (OutboxRow.map f)) r.eventId = t.hasId r.eventId := List.any_map
  unfold insertOrIgnore
  rw [OutboxRow.map, hhas]
  split
  · rfl
  · rw [List.map_append]
    rfl

theorem deleteIn_map (eventIds : List String) :
    deleteIn (t.map (OutboxRow.map f)) eventIds = (t.deleteIn eventIds).map (OutboxRow.map f) :=
  List.filter_map

theorem prune_map (cap : Int) :
    prune (t.map (OutboxRow.map f)) cap = (t.prune cap).map (OutboxRow.map f) := by
  have hids : ∀ u : Outbox α, (u.map (OutboxRow.map f)).map OutboxRow.eventId =
      u.map OutboxRow.eventId := fun u => List.map_map
  rw [prune, oldestFirst_map, limit_map, hids, deleteIn_map, List.length_map, prune]

end Outbox

namespace Buffer

variable (f : α → β) (b : Buffer α)

theorem store_map (r : OutboxRow α) (inserted pruned : Bool) :
    (b.map f).store (r.map f) inserted pruned = (b.store r inserted pruned).map f := by
  cases inserted with
  | false => rfl
  | true =>
    cases pruned with
    | false => simp only [store, map, Outbox.insertOrIgnore_map, if_true, Bool.false_eq_true, if_false]
    | true => simp only [store, map, Outbox.insertOrIgnore_map, Outbox.prune_map, if_true]

theorem delete_map (eventId : String) (deleted : Bool) :
    (b.map f).delete eventId deleted = (b.delete eventId deleted).map f := by
  cases deleted with
  | false => rfl
  | true => simp only [delete, map, Outbox.deleteIn_map, if_true]

theorem batch_map (n : UInt64) : (b.map f).batch n = (b.batch n).map (OutboxRow.map f) := by
  rw [batch, map, Outbox.oldestFirst_map, Outbox.limit_map, batch]

end Buffer

/-! ## Agreement -/

/-- A message that the wire carries: its flattened map keeps clear of the declared names, holds what
serde_json can hold, and is not nested too deep. -/
structure Message.Portable (m : Message) : Prop where
  disjoint : m.event.payload.Disjoint
  valued : m.event.payload.ValuedExtra
  within : m.WithinLimit

def BufferCall.Portable : BufferCall → Prop
  | .enqueue msg .. => msg.Portable
  | _ => True

namespace Buffer

/-- Every message in the buffer is one that the wire carries. -/
def Holds (b : Buffer Message) : Prop := ∀ r ∈ b.outbox, r.message.Portable

theorem mem_deleteIn {t : Outbox α} (h : r ∈ t.deleteIn eventIds) : r ∈ t := (List.mem_filter.mp h).1

theorem mem_store {b : Buffer α} (h : r ∈ (b.store s inserted pruned).outbox) :
    r ∈ b.outbox ∨ r = s := by
  have hinsert : r ∈ b.outbox.insertOrIgnore s → r ∈ b.outbox ∨ r = s := by
    intro h
    unfold Outbox.insertOrIgnore at h
    split at h
    · exact .inl h
    · simpa using h
  cases inserted with
  | false => exact .inl h
  | true =>
    cases pruned with
    | false => exact hinsert h
    | true => exact hinsert (mem_deleteIn h)

theorem mem_batch {b : Buffer α} (h : r ∈ b.batch n) : r ∈ b.outbox := by
  unfold batch Outbox.limit at h
  split at h
  · exact List.mem_mergeSort.mp h
  · exact List.mem_mergeSort.mp (List.mem_of_mem_take h)

theorem keep_holds {b : Buffer Message} {c : BufferCall} (h : b.Holds) (hc : c.Portable) :
    (b.keep c).Holds := by
  intro r hr
  cases c with
  | enqueue msg now inserted pruned =>
    rcases mem_store hr with hr | rfl
    · exact h r hr
    · exact hc
  | drainBatch n read deleted => exact h r hr
  | delete eventId deleted =>
    cases deleted with
    | false => exact h r hr
    | true => exact h r (mem_deleteIn hr)
  | reopen max => exact h r hr

section

variable {P : Platform} {parseTime : String → Option DateTime}
  (htime : ∀ t, parseTime (P.rfc3339 t) = some t)

include htime

/-- Rows that hold the texts of messages are read, and none is deleted. -/
theorem drainRows_map (deleted : String → Bool) {rows : Outbox Message} (b : Buffer (List Char))
    (h : ∀ r ∈ rows, r.message.Portable) :
    drainRows parseTime deleted (rows.map (OutboxRow.map (Message.toText P))) b =
      (some (rows.map fun r => (r.eventId, r.message)), b) := by
  induction rows with
  | nil => rfl
  | cons r rows ih =>
    have hr := h r List.mem_cons_self
    have hread := Message.fromText_toText htime hr.disjoint hr.valued hr.within
    have hrest := ih fun r hr => h r (List.mem_cons_of_mem _ hr)
    simp only [List.map_cons, drainRows, OutboxRow.map, hread]
    rw [hrest]
    rfl

theorem drainBatch_map {b : Buffer Message} (h : b.Holds) (n : UInt64) (deleted : String → Bool) :
    (b.map (Message.toText P)).drainBatch parseTime n true deleted =
      (some ((b.batch n).map fun r => (r.eventId, r.message)), b.map (Message.toText P)) := by
  rw [drainBatch, if_pos rfl, batch_map]
  exact drainRows_map htime deleted _ fun r hr => h r (mem_batch hr)

theorem perform_map {b : Buffer Message} (h : b.Holds) (c : BufferCall) :
    (b.map (Message.toText P)).perform P parseTime c = (b.keep c).map (Message.toText P) := by
  cases c with
  | enqueue msg now inserted pruned => exact store_map (Message.toText P) b ⟨_, msg, now⟩ _ _
  | drainBatch n read deleted =>
    cases read with
    | false => rfl
    | true => exact congrArg Prod.snd (drainBatch_map htime h n deleted)
  | delete eventId deleted => exact delete_map (Message.toText P) b eventId deleted
  | reopen max => rfl

/-- Over a run the buffer holds the texts of the messages that were stored. -/
theorem exec_map {calls : List BufferCall} (hcalls : ∀ c ∈ calls, c.Portable) {b : Buffer Message}
    (h : b.Holds) :
    exec P parseTime calls (b.map (Message.toText P)) =
        (calls.foldl keep b).map (Message.toText P) ∧
      (calls.foldl keep b).Holds := by
  induction calls generalizing b with
  | nil => exact ⟨rfl, h⟩
  | cons c calls ih =>
    have hnext := keep_holds h (hcalls c List.mem_cons_self)
    have hstep := perform_map htime h c
    obtain ⟨hexec, hholds⟩ := ih (fun c hc => hcalls c (List.mem_cons_of_mem _ hc)) hnext
    refine ⟨?_, hholds⟩
    rw [exec, List.foldl_cons, hstep]
    exact hexec

end

/-- With room in the buffer and in the batch, what is stored is in the next batch. -/
theorem mem_batch_store {b : Buffer α} {r : OutboxRow α} (hnew : b.outbox.hasId r.eventId = false)
    (hroom : (b.outbox.length : Int) < b.max.toInt64.toInt)
    (hbatch : (b.outbox.length : Int) < n.toInt64.toInt) :
    r ∈ (b.store r true true).batch n := by
  have hinsert : b.outbox.insertOrIgnore r = b.outbox ++ [r] := by
    rw [Outbox.insertOrIgnore, hnew]
    rfl
  have hprune : (b.outbox ++ [r]).prune b.max.toInt64.toInt = b.outbox ++ [r] := by
    apply Outbox.prune_of_le
    rw [List.length_append, List.length_singleton]
    omega
  have hlimit : (b.store r true true).batch n = Outbox.oldestFirst (b.outbox ++ [r]) := by
    simp only [batch, store, hinsert, hprune, if_true]
    unfold Outbox.limit
    rw [if_neg (by omega)]
    refine List.take_of_length_le ?_
    rw [Outbox.oldestFirst, List.length_mergeSort, List.length_append, List.length_singleton]
    omega
  rw [hlimit]
  exact List.mem_mergeSort.mpr (List.mem_append_right _ List.mem_cons_self)

end Buffer

/-! ## Event messages survive the wire and the buffer -/

section

variable (P : Platform) {parseTime : String → Option DateTime}

/-- A message whose flattened map keeps clear of the declared names is read back from its text exactly
if it is within the recursion limit, as is every message that was read. A buffer of such messages is
drained of exactly what was stored, and no row of it is dropped. -/
theorem messages_survive (htime : ∀ t, parseTime (P.rfc3339 t) = some t) :
    (∀ m : Message, m.event.payload.Disjoint → m.event.payload.ValuedExtra →
      (Message.fromText parseTime (m.toText P) = some m ↔ m.WithinLimit)) ∧
    (∀ text (m : Message), Message.fromText parseTime text = some m →
      m.event.payload.Disjoint ∧ m.WithinLimit) ∧
    ∀ (max : UInt64) (calls : List BufferCall), (∀ c ∈ calls, c.Portable) →
      let b := Buffer.exec P parseTime calls (.open max)
      let kept := Buffer.stored calls max
      b = kept.map (Message.toText P) ∧
      (∀ n deleted, b.drainBatch parseTime n true deleted =
        (some ((kept.batch n).map fun r => (r.eventId, r.message)), b)) ∧
      ∀ (msg : Message) now n deleted, msg.Portable →
        kept.outbox.hasId msg.event.id.toString = false →
        (kept.outbox.length : Int) < kept.max.toInt64.toInt →
        (kept.outbox.length : Int) < n.toInt64.toInt →
        (msg.event.id.toString, msg) ∈
          ((b.enqueue P msg now true true).drainBatch parseTime n true deleted).1.getD [] := by
  refine ⟨fun m hdisjoint hvalued => Message.fromText_toText_iff htime hdisjoint hvalued,
    fun text m h => Message.of_fromText h, fun max calls hcalls => ?_⟩
  have hempty : (Buffer.open max : Buffer Message).Holds := fun r hr => absurd hr List.not_mem_nil
  obtain ⟨hexec, hholds⟩ := Buffer.exec_map htime hcalls hempty
  change Buffer.exec P parseTime calls (.open max) = (Buffer.stored calls max).map _ at hexec
  change (Buffer.stored calls max).Holds at hholds
  rw [hexec]
  refine ⟨rfl, fun n deleted => Buffer.drainBatch_map htime hholds n deleted, ?_⟩
  intro msg now n deleted hmsg hnew hroom hbatch
  -- One more call stores the message, so the drain after it is a drain of a run.
  have hnext := Buffer.keep_holds (c := .enqueue msg now true true) hholds hmsg
  have hstep := Buffer.perform_map htime hholds (.enqueue msg now true true)
  have hdrain := Buffer.drainBatch_map htime hnext n deleted
  rw [← hstep] at hdrain
  change (Buffer.drainBatch parseTime (Buffer.enqueue P _ msg now true true) n true deleted) = _
    at hdrain
  rw [hdrain, Option.getD_some]
  exact List.mem_map.mpr ⟨_, Buffer.mem_batch_store hnew hroom hbatch, rfl⟩

end

/-- A journal entry that carries one value along. -/
def Message.carrying (v : Json) : Message where
  event := {
    id := ⟨11⟩
    occurredAt := Platform.noon
    observedAt := Platform.noon
    agentId := ⟨⟨2⟩⟩
    host := "web-1"
    severity := .error
    title := "nginx.service failed"
    categoryHints := []
    payload := .journald ⟨none, none, "failed", BTreeMap.empty.insert "trace" v⟩ }
  explanation := none

theorem Message.carrying_disjoint (v : Json) : (carrying v).event.payload.Disjoint := by
  intro e he
  obtain rfl := List.mem_singleton.mp he
  exact of_decide_eq_true rfl

theorem Message.carrying_valued {v : Json} (h : v.IsValue) :
    (carrying v).event.payload.ValuedExtra := by
  intro e he
  obtain rfl := List.mem_singleton.mp he
  exact h

theorem Message.carrying_withinLimit (v : Json) :
    (carrying v).WithinLimit ↔ 3 + v.depth < Doc.recursionLimit :=
  List.forall_mem_singleton

/-- The first message is alone in the buffer and in its batch. -/
theorem Buffer.store_open (r : OutboxRow α) : (Buffer.open 100).store r true true = ⟨[r], 100⟩ := by
  have hmax : (Buffer.open 100 : Buffer α) = ⟨[], 100⟩ := congrArg (Buffer.mk []) (by decide)
  have hprune : Outbox.prune [r] (100 : UInt64).toInt64.toInt = [r] :=
    Outbox.prune_of_le (by rw [List.length_singleton]; decide)
  rw [hmax]
  exact congrArg (Buffer.mk · 100) hprune

theorem Buffer.batch_singleton (r : OutboxRow α) (max : UInt64) :
    (Buffer.mk [r] max).batch 10 = [r] := by
  simp [batch, Outbox.oldestFirst, Outbox.limit]

theorem messages_survive_sample :
    let m := Message.carrying (.arr [.num (-1), .null])
    let b := Buffer.exec Platform.sample Platform.sampleParseTime [.enqueue m 7 true true] (.open 100)
    Message.fromText Platform.sampleParseTime (m.toText Platform.sample) = some m ∧
      b.drainBatch Platform.sampleParseTime 10 true (fun _ => true) =
        (some [(m.event.id.toString, m)], b) := by
  have hvalue : (Json.arr [.num (-1), .null]).IsValue := by simp [Json.IsValue, Json.AreValues]
  have hportable : (Message.carrying (.arr [.num (-1), .null])).Portable :=
    ⟨Message.carrying_disjoint _, Message.carrying_valued hvalue,
      (Message.carrying_withinLimit _).mpr (by decide)⟩
  obtain ⟨hread, -, hrun⟩ := messages_survive Platform.sample Platform.sampleParseTime_sampleRfc3339
  have hdrain := (hrun 100 [.enqueue _ 7 true true]
    (List.forall_mem_singleton.mpr hportable)).2.1 10 fun _ => true
  have hstored : Buffer.stored [.enqueue (Message.carrying (.arr [.num (-1), .null])) 7 true true]
      100 = ⟨[⟨_, _, 7⟩], 100⟩ := Buffer.store_open _
  refine ⟨(hread _ hportable.disjoint hportable.valued).mpr hportable.within, ?_⟩
  rw [hstored, Buffer.batch_singleton] at hdrain
  exact hdrain

/-- Lists in lists. -/
def nestedLists : Nat → Json
  | 0 => .null
  | n + 1 => .arr [nestedLists n]

theorem depth_nestedLists (n : Nat) : (nestedLists n).depth = n := by
  induction n with
  | zero => rfl
  | succ n ih =>
    change max (nestedLists n).depth 0 + 1 = n + 1
    rw [ih, Nat.max_zero]

theorem isValue_nestedLists (n : Nat) : (nestedLists n).IsValue := by
  induction n with
  | zero => trivial
  | succ n ih => exact ⟨ih, trivial⟩

/-- The row of a message that is not read back is dropped. -/
theorem Buffer.drainBatch_unreadable {P : Platform} {parseTime : String → Option DateTime}
    {m : Message} (h : Message.fromText parseTime (m.toText P) = none) (now : Int) :
    ((Buffer.open 100).enqueue P m now true true).drainBatch parseTime 10 true (fun _ => true) =
      (some [], ⟨[], 100⟩) := by
  rw [enqueue, store_open, drainBatch, if_pos rfl, batch_singleton]
  simp [drainRows, h, delete, Outbox.deleteIn]

/-- A list nested too deep is neither read back nor kept. -/
theorem deep_message_dropped :
    let m := Message.carrying (nestedLists 125)
    let b := (Buffer.open 100).enqueue Platform.sample m 7 true true
    m.event.payload.Disjoint ∧ m.event.payload.ValuedExtra ∧
      Message.fromText Platform.sampleParseTime (m.toText Platform.sample) ≠ some m ∧
      b.outbox.length = 1 ∧
      b.drainBatch Platform.sampleParseTime 10 true (fun _ => true) = (some [], ⟨[], 100⟩) := by
  have hvalued := Message.carrying_valued (isValue_nestedLists 125)
  have hdisjoint := Message.carrying_disjoint (nestedLists 125)
  have hdeep : ¬(Message.carrying (nestedLists 125)).WithinLimit := by
    rw [Message.carrying_withinLimit, depth_nestedLists]
    decide
  generalize Message.carrying (nestedLists 125) = m at *
  have hread := Message.fromText_toText_of_not (P := Platform.sample)
    Platform.sampleParseTime_sampleRfc3339 hdisjoint hvalued hdeep
  have hlength : ((Buffer.open 100).enqueue Platform.sample m 7 true true).outbox.length = 1 := by
    rw [Buffer.enqueue, Buffer.store_open, List.length_singleton]
  refine ⟨hdisjoint, hvalued, fun hsome => ?_, hlength, Buffer.drainBatch_unreadable hread 7⟩
  rw [hread] at hsome
  cases hsome

end Ravn
