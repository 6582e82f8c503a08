import Mathlib.Data.List.Nodup
import Mathlib.Data.String.Basic
import Mathlib.Logic.Function.Basic
import Ravn.Core.Basic
import Ravn.Theory.BTreeMap

/-! The agent registry: the tables `agents` and `agent_labels`, the statements that write them and the two
reads. A heartbeat, an event and an enrollment each register an agent or refresh it. Over every run of
these the tables hold what a map from identifiers to agents would (`registry_reads`). -/

namespace Ravn

open Theory

instance : LinearOrder Uuid :=
  LinearOrder.lift' (fun u : Uuid => u.bits.toNat) fun a b h => by
    cases a
    cases b
    exact congrArg Uuid.mk (BitVec.eq_of_toNat_eq h)

/-- A total order that the database sorts texts by. -/
structure Collation where
  le : String → String → Bool
  trans : ∀ a b c, le a b → le b c → le a c
  total : ∀ a b, le a b || le b a
  antisymm : ∀ a b, le a b → le b a → a = b

/-- The collation `C`, by code points. -/
def Collation.codePoint : Collation where
  le a b := a ≤ b
  trans a b c hab hbc := decide_eq_true ((of_decide_eq_true hab).trans (of_decide_eq_true hbc))
  total a b := by simpa using le_total a b
  antisymm a b hab hba := le_antisymm (of_decide_eq_true hab) (of_decide_eq_true hba)

/-! ## Tables -/

/-- A row of `agents`. -/
structure AgentRow where
  agentId : Uuid
  host : String
  firstSeen : DateTime
  lastSeen : DateTime
  lastHeartbeat : Option DateTime
  uptimeSecs : Option Int
  inferenceEnabled : Option Bool
  eventsPublished : Option Int
  enrolledAt : Option DateTime
  certNotAfter : Option DateTime
deriving DecidableEq

/-- A row of `agent_labels`. -/
structure LabelRow where
  agentId : Uuid
  key : String
  value : String
deriving DecidableEq

structure RegistryDb where
  agents : List AgentRow
  labels : List LabelRow

structure Heartbeat where
  agentId : Uuid
  host : String
  uptimeSecs : UInt64
  inferenceEnabled : Bool
  eventsPublished : UInt64

/-- `as i64`. -/
def asI64 (n : UInt64) : Int := (n.toNat : Int).bmod (2 ^ 64)

/-- The row that an agent is registered with; its defaults are those of the columns. -/
def AgentRow.register (id : Uuid) (host : String) (now : DateTime) : AgentRow where
  agentId := id
  host := host
  firstSeen := now
  lastSeen := now
  lastHeartbeat := none
  uptimeSecs := none
  inferenceEnabled := none
  eventsPublished := none
  enrolledAt := none
  certNotAfter := none

/-- The health columns of a heartbeat. -/
def AgentRow.withHealth (r : AgentRow) (hb : Heartbeat) (now : DateTime) : AgentRow :=
  { r with
    lastHeartbeat := some now
    uptimeSecs := some (asI64 hb.uptimeSecs)
    inferenceEnabled := some hb.inferenceEnabled
    eventsPublished := some (asI64 hb.eventsPublished) }

/-- The enrollment columns. -/
def AgentRow.enrolled (r : AgentRow) (now notAfter : DateTime) : AgentRow :=
  { r with enrolledAt := some now, certNotAfter := some notAfter }

namespace RegistryDb

/-- `INSERT … ON CONFLICT (agent_id) DO UPDATE`. -/
def upsert (db : RegistryDb) (new : AgentRow) (update : AgentRow → AgentRow) : RegistryDb :=
  if db.agents.any fun r => r.agentId = new.agentId then
    { db with agents := db.agents.map fun r => if r.agentId = new.agentId then update r else r }
  else { db with agents := db.agents ++ [new] }

def touchAgent (db : RegistryDb) (id : Uuid) (host : String) (now : DateTime) : RegistryDb :=
  db.upsert (.register id host now) fun r => { r with host := host, lastSeen := now }

def recordHeartbeat (db : RegistryDb) (hb : Heartbeat) (now : DateTime) : RegistryDb :=
  db.upsert ((AgentRow.register hb.agentId hb.host now).withHealth hb now) fun r =>
    { r with host := hb.host, lastSeen := now }.withHealth hb now

/-- `record_enrollment`; an agent that is known is not seen by it. -/
def recordEnrollment (db : RegistryDb) (id : Uuid) (host : String) (notAfter now : DateTime) :
    RegistryDb :=
  db.upsert ((AgentRow.register id host now).enrolled now notAfter) fun r =>
    { r with host := host }.enrolled now notAfter

/-- The rows that an agent's labels are written as. -/
def labelRows (id : Uuid) (labels : BTreeMap String String) : List LabelRow :=
  labels.entries.map fun e => ⟨id, e.1, e.2⟩

/-- `replace_labels`, one transaction: it takes effect as a whole if all of its statements do. -/
def replaceLabels (db : RegistryDb) (id : Uuid) (labels : BTreeMap String String) (ok : Bool) :
    RegistryDb :=
  if (db.agents.any fun r => r.agentId = id) ∧ ok then
    { db with labels := (db.labels.filter fun l => l.agentId ≠ id) ++ labelRows id labels }
  else db

/-- `delete_agent`; the foreign key takes the labels with it. -/
def deleteAgent (db : RegistryDb) (id : Uuid) : RegistryDb where
  agents := db.agents.filter fun r => r.agentId ≠ id
  labels := db.labels.filter fun l => l.agentId ≠ id

end RegistryDb

/-- A write that the control plane makes, at the time of the database. -/
inductive RegistryWrite where
  | touch (id : Uuid) (host : String) (now : DateTime)
  | heartbeat (hb : Heartbeat) (now : DateTime)
  | enrollment (id : Uuid) (host : String) (notAfter now : DateTime)
  | labels (id : Uuid) (labels : BTreeMap String String) (ok : Bool)
  | delete (id : Uuid)

def RegistryDb.write (db : RegistryDb) : RegistryWrite → RegistryDb
  | .touch id host now => db.touchAgent id host now
  | .heartbeat hb now => db.recordHeartbeat hb now
  | .enrollment id host notAfter now => db.recordEnrollment id host notAfter now
  | .labels id labels ok => db.replaceLabels id labels ok
  | .delete id => db.deleteAgent id

/-! ## Reads -/

/-- `agent_status`, from the age of the last sign of life. -/
def agentStatus (lastSeen now : DateTime) : String :=
  let age := now.nanos - lastSeen.nanos
  if age < 60 * 1000000000 then "online"
  else if age < 300 * 1000000000 then "stale"
  else "offline"

/-- `Agent`. -/
structure AgentView where
  agentId : Uuid
  host : String
  firstSeen : DateTime
  lastSeen : DateTime
  status : String
  labels : BTreeMap String String
  lastHeartbeat : Option DateTime
  uptimeSecs : Option Int
  inferenceEnabled : Option Bool
  eventsPublished : Option Int

def AgentRow.view (now : DateTime) (labels : BTreeMap String String) (r : AgentRow) : AgentView where
  agentId := r.agentId
  host := r.host
  firstSeen := r.firstSeen
  lastSeen := r.lastSeen
  status := agentStatus r.lastSeen now
  labels := labels
  lastHeartbeat := r.lastHeartbeat
  uptimeSecs := r.uptimeSecs
  inferenceEnabled := r.inferenceEnabled
  eventsPublished := r.eventsPublished

namespace RegistryDb

/-- `get_agent`. -/
def getAgent (db : RegistryDb) (now : DateTime) (id : Uuid) : Option AgentView :=
  (db.agents.find? fun r => r.agentId = id).map fun r =>
    r.view now (.ofList ((db.labels.filter fun l => l.agentId = id).map fun l => (l.key, l.value)))

/-- The labels by agent, as they are collected from the rows. -/
def byAgent (labels : List LabelRow) : BTreeMap Uuid (BTreeMap String String) :=
  labels.foldl (fun m l => m.insert l.agentId (((m.get l.agentId).getD .empty).insert l.key l.value))
    .empty

/-- The agents of the rows, each taking its labels out of the map. -/
def withLabels (now : DateTime) :
    BTreeMap Uuid (BTreeMap String String) → List AgentRow → List AgentView
  | _, [] => []
  | m, r :: rows =>
    r.view now ((m.get r.agentId).getD .empty) :: withLabels now (m.remove r.agentId) rows

/-- `list_agents`, by host. -/
def listAgents (collation : Collation) (db : RegistryDb) (now : DateTime) : List AgentView :=
  withLabels now (byAgent db.labels)
    (db.agents.mergeSort fun a b => collation.le a.host b.host)

end RegistryDb

/-! ## What the registry is for -/

/-- An agent as it is remembered. -/
structure AgentInfo where
  row : AgentRow
  labels : BTreeMap String String

/-- The agents that are known, by identifier. -/
abbrev Known := Uuid → Option AgentInfo

namespace Known

/-- An agent is registered, or what is known of it is changed. -/
def upsert (m : Known) (new : AgentRow) (update : AgentRow → AgentRow) : Known :=
  Function.update m new.agentId (some (match m new.agentId with
    | none => ⟨new, .empty⟩
    | some a => ⟨update a.row, a.labels⟩))

def write (m : Known) : RegistryWrite → Known
  | .touch id host now =>
    m.upsert (.register id host now) fun r => { r with host := host, lastSeen := now }
  | .heartbeat hb now =>
    m.upsert ((AgentRow.register hb.agentId hb.host now).withHealth hb now) fun r =>
      { r with host := hb.host, lastSeen := now }.withHealth hb now
  | .enrollment id host notAfter now =>
    m.upsert ((AgentRow.register id host now).enrolled now notAfter) fun r =>
      { r with host := host }.enrolled now notAfter
  | .labels id labels ok =>
    if ok then Function.update m id ((m id).map fun a => { a with labels := labels }) else m
  | .delete id => Function.update m id none

end Known

def AgentInfo.view (now : DateTime) (a : AgentInfo) : AgentView := a.row.view now a.labels

/-! ## Validity -/

namespace RegistryDb

/-- What the keys of the tables ensure. -/
structure Valid (db : RegistryDb) : Prop where
  agentIds : (db.agents.map AgentRow.agentId).Nodup
  labelKeys : (db.labels.map fun l => (l.agentId, l.key)).Nodup
  labelled : ∀ l ∈ db.labels, l.agentId ∈ db.agents.map AgentRow.agentId

/-- What the tables hold of an agent. -/
def known (db : RegistryDb) : Known := fun id =>
  (db.agents.find? fun r => r.agentId = id).map fun r =>
    ⟨r, .ofList ((db.labels.filter fun l => l.agentId = id).map fun l => (l.key, l.value))⟩

theorem getAgent_eq (db : RegistryDb) (now : DateTime) (id : Uuid) :
    db.getAgent now id = (db.known id).map (AgentInfo.view now) := by
  rw [getAgent, known, Option.map_map]
  rfl

/-- An update that keeps the identifiers. -/
theorem map_agentId_map (agents : List AgentRow) {f : AgentRow → AgentRow}
    (hf : ∀ r, (f r).agentId = r.agentId) :
    (agents.map f).map AgentRow.agentId = agents.map AgentRow.agentId := by
  rw [List.map_map]
  exact List.map_congr_left fun r _ => hf r

section

variable {db : RegistryDb} {new : AgentRow} {update : AgentRow → AgentRow}

theorem valid_upsert (hdb : db.Valid) (hupdate : ∀ r, (update r).agentId = r.agentId) :
    (db.upsert new update).Valid := by
  unfold upsert
  split
  · have hids := map_agentId_map db.agents
      (f := fun r => if r.agentId = new.agentId then update r else r) fun r => by
        split
        · exact hupdate r
        · rfl
    exact ⟨hids ▸ hdb.agentIds, hdb.labelKeys, hids ▸ hdb.labelled⟩
  · rename_i hnew
    have hfresh : new.agentId ∉ db.agents.map AgentRow.agentId := by
      intro hmem
      obtain ⟨r, hr, hid⟩ := List.mem_map.mp hmem
      exact hnew (List.any_eq_true.mpr ⟨r, hr, by simpa using hid⟩)
    refine ⟨?_, hdb.labelKeys, fun l hl => ?_⟩
    · rw [List.map_append, List.map_singleton]
      exact List.nodup_append.mpr ⟨hdb.agentIds, List.nodup_singleton _, fun a ha b hb => by
        cases List.mem_singleton.mp hb
        exact fun heq => hfresh (heq ▸ ha)⟩
    · rw [List.map_append]
      exact List.mem_append_left _ (hdb.labelled l hl)

theorem valid_replaceLabels (hdb : db.Valid) (id : Uuid) (labels : BTreeMap String String)
    (ok : Bool) : (db.replaceLabels id labels ok).Valid := by
  unfold replaceLabels
  split
  · rename_i hknown
    obtain ⟨r, hr, hid⟩ := List.any_eq_true.mp hknown.1
    refine ⟨hdb.agentIds, ?_, fun l hl => ?_⟩
    · rw [List.map_append, List.nodup_append]
      refine ⟨(hdb.labelKeys.sublist (List.filter_sublist.map _)), ?_, ?_⟩
      · rw [labelRows, List.map_map]
        have hkeys : (labels.entries.map fun e => (id, e.1)).Nodup :=
          List.pairwise_map.mpr (labels.sorted.imp fun h heq =>
            absurd (Prod.mk.inj heq).2 (ne_of_lt h))
        exact hkeys
      · intro a ha b hb heq
        obtain ⟨l, hl, rfl⟩ := List.mem_map.mp ha
        obtain ⟨l', hl', rfl⟩ := List.mem_map.mp hb
        obtain ⟨e, -, rfl⟩ := List.mem_map.mp hl'
        have hne : l.agentId ≠ id := by simpa using (List.mem_filter.mp hl).2
        exact hne (Prod.mk.inj heq).1
    · rcases List.mem_append.mp hl with hl | hl
      · exact hdb.labelled l (List.mem_of_mem_filter hl)
      · obtain ⟨e, -, rfl⟩ := List.mem_map.mp hl
        exact List.mem_map.mpr ⟨r, hr, by simpa using hid⟩
  · exact hdb

theorem valid_deleteAgent (hdb : db.Valid) (id : Uuid) : (db.deleteAgent id).Valid := by
  refine ⟨hdb.agentIds.sublist (List.filter_sublist.map _),
    hdb.labelKeys.sublist (List.filter_sublist.map _), fun l hl => ?_⟩
  obtain ⟨hl, hne⟩ := List.mem_filter.mp hl
  obtain ⟨r, hr, hid⟩ := List.mem_map.mp (hdb.labelled l hl)
  refine List.mem_map.mpr ⟨r, List.mem_filter.mpr ⟨hr, ?_⟩, hid⟩
  rwa [hid]

theorem valid_write (hdb : db.Valid) (w : RegistryWrite) : (db.write w).Valid := by
  cases w with
  | touch id host now => exact valid_upsert hdb fun r => rfl
  | heartbeat hb now => exact valid_upsert hdb fun r => rfl
  | enrollment id host notAfter now => exact valid_upsert hdb fun r => rfl
  | labels id labels ok => exact valid_replaceLabels hdb id labels ok
  | delete id => exact valid_deleteAgent hdb id

/-! ## The tables hold the map -/

theorem known_eq_none {id : Uuid} :
    db.known id = none ↔ ¬(db.agents.any fun r => r.agentId = id) = true := by
  simp [known]

theorem labels_of_unknown (hdb : db.Valid) {id : Uuid}
    (h : ¬(db.agents.any fun r => r.agentId = id) = true) :
    db.labels.filter (fun l => l.agentId = id) = [] := by
  rw [List.filter_eq_nil_iff]
  intro l hl hid
  obtain ⟨r, hr, heq⟩ := List.mem_map.mp (hdb.labelled l hl)
  exact h (List.any_eq_true.mpr ⟨r, hr, by simpa [heq] using hid⟩)

theorem known_upsert (hdb : db.Valid) (hupdate : ∀ r, (update r).agentId = r.agentId) :
    (db.upsert new update).known = db.known.upsert new update := by
  funext id
  unfold upsert
  split
  · rename_i hknown
    have hkeep : ∀ r : AgentRow,
        (if r.agentId = new.agentId then update r else r).agentId = r.agentId := by
      intro r
      split
      · exact hupdate r
      · rfl
    simp only [known, List.find?_map, Function.comp_def, hkeep, Option.map_map]
    unfold Known.upsert Function.update
    split
    · rename_i hid
      subst hid
      cases hfind : db.agents.find? fun r => r.agentId = new.agentId with
      | none => exact absurd hknown (by simpa using hfind)
      | some r =>
        have hr : r.agentId = new.agentId := by simpa using List.find?_some hfind
        simp [known, hfind, hr]
    · rename_i hid
      cases hfind : db.agents.find? fun r => r.agentId = id with
      | none => simp [known, hfind]
      | some r =>
        have hr : r.agentId = id := by simpa using List.find?_some hfind
        simp [known, hfind, hr, hid]
  · rename_i hnew
    unfold Known.upsert Function.update
    split
    · rename_i hid
      subst hid
      have hnone := known_eq_none.mpr hnew
      have hfind : db.agents.find? (fun r => r.agentId = new.agentId) = none := by
        simpa [known] using hnone
      simp only [known, List.find?_append, hfind, labels_of_unknown hdb hnew]
      simp [BTreeMap.ofList]
    · rename_i hid
      simp only [known, List.find?_append]
      simp [Ne.symm hid]

theorem filter_labelRows (id id' : Uuid) (labels : BTreeMap String String) :
    (labelRows id labels).filter (fun l => l.agentId = id') =
      if id' = id then labelRows id labels else [] := by
  unfold labelRows
  rw [List.filter_map]
  split
  · rename_i heq
    subst heq
    rw [List.filter_eq_self.mpr]
    simp
  · rename_i hne
    rw [List.filter_eq_nil_iff.mpr, List.map_nil]
    simpa using fun _ _ _ => Ne.symm hne

/-- The labels that are left of the others. -/
theorem filter_filter_ne (labels : List LabelRow) (id id' : Uuid) :
    (labels.filter fun l => l.agentId ≠ id).filter (fun l => l.agentId = id') =
      if id' = id then [] else labels.filter fun l => l.agentId = id' := by
  rw [List.filter_filter]
  split
  · rename_i heq
    subst heq
    simp
  · rename_i hne
    refine List.filter_congr fun l _ => ?_
    by_cases hl : l.agentId = id'
    · simp [hl, hne]
    · simp [hl]

theorem known_replaceLabels (id : Uuid) (labels : BTreeMap String String) (ok : Bool) :
    (db.replaceLabels id labels ok).known =
      if ok then Function.update db.known id ((db.known id).map fun a => { a with labels := labels })
      else db.known := by
  unfold replaceLabels
  split
  · rename_i hknown
    rw [if_pos hknown.2]
    funext id'
    have hrows : (labelRows id labels).map (fun l => (l.key, l.value)) = labels.entries := by
      rw [labelRows, List.map_map]
      exact List.map_id _
    simp only [known, List.filter_append, filter_filter_ne, filter_labelRows]
    by_cases hid : id' = id
    · subst hid
      simp only [if_pos, List.nil_append, hrows, BTreeMap.ofList_entries, Function.update_self,
        Option.map_map]
      rfl
    · simp [hid, known]
  · rename_i hknown
    split
    · rename_i hok
      have hnone : db.known id = none := known_eq_none.mpr fun h => hknown ⟨h, hok⟩
      rw [hnone, Option.map_none, ← hnone, Function.update_eq_self]
    · rfl

theorem find?_filter_ne (rows : List AgentRow) (id id' : Uuid) :
    (rows.filter fun r => r.agentId ≠ id).find? (fun r => r.agentId = id') =
      if id' = id then none else rows.find? fun r => r.agentId = id' := by
  split
  · rename_i heq
    subst heq
    rw [List.find?_eq_none]
    intro r hr
    simpa using (List.mem_filter.mp hr).2
  · rename_i hne
    induction rows with
    | nil => rfl
    | cons r rows ih =>
      by_cases hr : r.agentId = id
      · rw [List.filter_cons_of_neg (by simpa using hr), ih, List.find?_cons_of_neg]
        simpa [hr] using Ne.symm hne
      · rw [List.filter_cons_of_pos (by simpa using hr), List.find?_cons, List.find?_cons, ih]

theorem known_deleteAgent (id : Uuid) :
    (db.deleteAgent id).known = Function.update db.known id none := by
  funext id'
  simp only [known, deleteAgent, filter_filter_ne, find?_filter_ne]
  by_cases hid : id' = id
  · simp [hid]
  · simp [hid, known]

theorem known_write (hdb : db.Valid) (w : RegistryWrite) :
    (db.write w).known = db.known.write w := by
  cases w with
  | touch id host now => exact known_upsert hdb fun r => rfl
  | heartbeat hb now => exact known_upsert hdb fun r => rfl
  | enrollment id host notAfter now => exact known_upsert hdb fun r => rfl
  | labels id labels ok => exact known_replaceLabels id labels ok
  | delete id => exact known_deleteAgent id

/-! ## Listing -/

/-- The labels collected under an agent are those of its rows. -/
theorem getD_get_byAgent (labels : List LabelRow) (id : Uuid) :
    ((byAgent labels).get id).getD .empty =
      .ofList ((labels.filter fun l => l.agentId = id).map fun l => (l.key, l.value)) := by
  have hfold : ∀ (labels : List LabelRow) (m : BTreeMap Uuid (BTreeMap String String)),
      ((labels.foldl (fun m l => m.insert l.agentId
        (((m.get l.agentId).getD .empty).insert l.key l.value)) m).get id).getD .empty =
      ((labels.filter fun l => l.agentId = id).map fun l => (l.key, l.value)).foldl
        (fun m e => m.insert e.1 e.2) ((m.get id).getD .empty) := by
    intro labels
    induction labels with
    | nil => exact fun m => rfl
    | cons l labels ih =>
      intro m
      rw [List.foldl_cons, ih, BTreeMap.get_insert]
      by_cases hl : l.agentId = id
      · subst hl
        simp
      · rw [if_neg (Ne.symm hl), List.filter_cons_of_neg (by simpa using hl)]
  exact hfold labels .empty

/-- What one agent takes is not what another one is missing. -/
theorem withLabels_eq_map (now : DateTime) {rows : List AgentRow}
    (hrows : (rows.map AgentRow.agentId).Nodup) (m : BTreeMap Uuid (BTreeMap String String)) :
    withLabels now m rows = rows.map fun r => r.view now ((m.get r.agentId).getD .empty) := by
  induction rows generalizing m with
  | nil => rfl
  | cons r rows ih =>
    obtain ⟨hr, hrows⟩ := List.nodup_cons.mp hrows
    rw [withLabels, ih hrows, List.map_cons]
    congr 1
    refine List.map_congr_left fun r' hr' => ?_
    have hne : r'.agentId ≠ r.agentId := fun heq => hr (heq ▸ List.mem_map_of_mem hr')
    rw [BTreeMap.get_remove, if_neg hne]

/-- The agents of the list, each with what the tables hold of it. -/
theorem listAgents_eq (collation : Collation) (hdb : db.Valid) (now : DateTime) :
    db.listAgents collation now =
      (db.agents.mergeSort fun a b => collation.le a.host b.host).map fun r =>
        r.view now (.ofList ((db.labels.filter fun l => l.agentId = r.agentId).map
          fun l => (l.key, l.value))) := by
  have hperm := List.mergeSort_perm db.agents fun a b => collation.le a.host b.host
  have hrows : ((db.agents.mergeSort fun a b => collation.le a.host b.host).map
      AgentRow.agentId).Nodup := (hperm.map _).nodup_iff.mpr hdb.agentIds
  rw [listAgents, withLabels_eq_map now hrows]
  exact List.map_congr_left fun r _ => by rw [getD_get_byAgent]

/-- A row is the one that is found under its identifier. -/
theorem find?_of_mem (hdb : db.Valid) {r : AgentRow} (hr : r ∈ db.agents) :
    db.agents.find? (fun r' => r'.agentId = r.agentId) = some r := by
  have hids := hdb.agentIds
  generalize db.agents = rows at hr hids
  induction rows with
  | nil => cases hr
  | cons r' rows ih =>
    obtain ⟨hr', hids⟩ := List.nodup_cons.mp hids
    rcases List.mem_cons.mp hr with rfl | hr
    · simp
    · have hne : r'.agentId ≠ r.agentId := fun heq => hr' (heq ▸ List.mem_map_of_mem hr)
      rw [List.find?_cons_of_neg (by simpa using hne)]
      exact ih hr hids

theorem known_of_mem (hdb : db.Valid) {r : AgentRow} (hr : r ∈ db.agents) :
    db.known r.agentId = some ⟨r, .ofList ((db.labels.filter fun l => l.agentId = r.agentId).map
      fun l => (l.key, l.value))⟩ := by
  rw [known, find?_of_mem hdb hr]
  rfl

theorem mem_listAgents (collation : Collation) (hdb : db.Valid) (now : DateTime) {a : AgentView} :
    a ∈ db.listAgents collation now ↔
      ∃ info, db.known a.agentId = some info ∧ a = info.view now := by
  rw [listAgents_eq collation hdb, List.mem_map]
  constructor
  · rintro ⟨r, hr, rfl⟩
    exact ⟨_, known_of_mem hdb (List.mem_mergeSort.mp hr), rfl⟩
  · rintro ⟨info, hinfo, ha⟩
    obtain ⟨r, hr, rfl⟩ := Option.map_eq_some_iff.mp hinfo
    have hid : r.agentId = a.agentId := by simpa using List.find?_some hr
    refine ⟨r, List.mem_mergeSort.mpr (List.mem_of_find?_eq_some hr), ?_⟩
    rw [ha, hid]
    rfl

end

/-- Every run of writes keeps the tables valid, and they follow the map. -/
theorem known_run (ws : List RegistryWrite) {db : RegistryDb} (hdb : db.Valid) :
    (ws.foldl write db).Valid ∧ (ws.foldl write db).known = ws.foldl Known.write db.known := by
  induction ws generalizing db with
  | nil => exact ⟨hdb, rfl⟩
  | cons w ws ih =>
    have hstep := ih (valid_write hdb w)
    rw [known_write hdb] at hstep
    exact hstep

theorem valid_empty : (⟨[], []⟩ : RegistryDb).Valid := ⟨List.nodup_nil, List.nodup_nil, nofun⟩

theorem nodup_listAgents (collation : Collation) {db : RegistryDb} (hdb : db.Valid) (now : DateTime) :
    ((db.listAgents collation now).map AgentView.agentId).Nodup := by
  rw [listAgents_eq collation hdb, List.map_map]
  have hperm := List.mergeSort_perm db.agents fun a b => collation.le a.host b.host
  exact (hperm.map _).nodup_iff.mpr hdb.agentIds

theorem pairwise_listAgents (collation : Collation) {db : RegistryDb} (hdb : db.Valid)
    (now : DateTime) :
    (db.listAgents collation now).Pairwise fun a b => collation.le a.host b.host := by
  rw [listAgents_eq collation hdb, List.pairwise_map]
  exact @List.pairwise_mergeSort _ (fun a b : AgentRow => collation.le a.host b.host)
    (fun _ _ _ => collation.trans _ _ _) (fun _ _ => collation.total _ _) db.agents

/-- Over every run of writes from empty tables, the tables hold what the map of the agents would: a read of
one agent finds what is known of it, and the list has every agent that is known once, by host. -/
theorem registry_reads (collation : Collation) (ws : List RegistryWrite) (now : DateTime) :
    let db := ws.foldl write ⟨[], []⟩
    let known := ws.foldl Known.write fun _ => none
    (∀ id, db.getAgent now id = (known id).map (AgentInfo.view now)) ∧
      (∀ a, a ∈ db.listAgents collation now ↔ ∃ info, known a.agentId = some info ∧ a = info.view now) ∧
      ((db.listAgents collation now).map AgentView.agentId).Nodup ∧
      (db.listAgents collation now).Pairwise fun a b => collation.le a.host b.host := by
  intro db known
  obtain ⟨hdb, hknown⟩ := known_run ws valid_empty
  have hknown : db.known = known := hknown
  refine ⟨fun id => ?_, fun a => ?_, nodup_listAgents collation hdb now,
    pairwise_listAgents collation hdb now⟩
  · rw [getAgent_eq, hknown]
  · rw [mem_listAgents collation hdb, hknown]

/-! ### Three agents -/

def sampleRole (role : String) : BTreeMap String String := BTreeMap.empty.insert "role" role

/-- Agents 2 and 3 are of the role `web`, which a failed transaction does not change. Agent 4 is deleted
and seen again, without its label. -/
def sampleWrites : List RegistryWrite :=
  [.touch ⟨2⟩ "web-1" ⟨0⟩, .enrollment ⟨4⟩ "db-1" ⟨3600 * 1000000000⟩ ⟨0⟩,
    .labels ⟨4⟩ (sampleRole "db") true, .labels ⟨2⟩ (sampleRole "web") true,
    .heartbeat ⟨⟨3⟩, "web-2", 60, true, 4⟩ ⟨60 * 1000000000⟩, .labels ⟨3⟩ (sampleRole "web") true,
    .labels ⟨2⟩ (sampleRole "db") false, .delete ⟨4⟩, .touch ⟨4⟩ "db-2" ⟨90 * 1000000000⟩]

def sampleInfo (id : Uuid) : Option AgentInfo :=
  if id = ⟨4⟩ then some ⟨.register ⟨4⟩ "db-2" ⟨90 * 1000000000⟩, .empty⟩
  else if id = ⟨3⟩ then some ⟨(AgentRow.register ⟨3⟩ "web-2" ⟨60 * 1000000000⟩).withHealth
    ⟨⟨3⟩, "web-2", 60, true, 4⟩ ⟨60 * 1000000000⟩, sampleRole "web"⟩
  else if id = ⟨2⟩ then some ⟨.register ⟨2⟩ "web-1" ⟨0⟩, sampleRole "web"⟩
  else none

theorem known_sampleWrites : (sampleWrites.foldl Known.write fun _ => none) = sampleInfo := by
  funext id
  by_cases h4 : id = ⟨4⟩
  · subst h4
    rfl
  by_cases h3 : id = ⟨3⟩
  · subst h3
    rfl
  by_cases h2 : id = ⟨2⟩
  · subst h2
    rfl
  · have hframe {m : Known} {a : Uuid} (hne : id ≠ a) (hm : m id = none) (o : Option AgentInfo) :
        Function.update m a o id = none := (Function.update_of_ne hne ..).trans hm
    rw [sampleInfo, if_neg h4, if_neg h3, if_neg h2]
    refine hframe h4 (hframe h4 (hframe h3 (hframe h3 (hframe h2 (hframe h4 (hframe h4 ?_ _) _) _) _) _)
      _) _
    exact hframe (m := fun _ => none) h2 rfl _

/-- Each of the agents is listed once, by host, as it was last written. -/
theorem registry_reads_sample :
    let db := sampleWrites.foldl write ⟨[], []⟩
    let listed := db.listAgents .codePoint ⟨90 * 1000000000⟩
    (∀ id, db.getAgent ⟨90 * 1000000000⟩ id = (sampleInfo id).map (AgentInfo.view ⟨90 * 1000000000⟩)) ∧
      (∀ id, id ∈ listed.map AgentView.agentId ↔ id = ⟨2⟩ ∨ id = ⟨3⟩ ∨ id = ⟨4⟩) ∧
      (listed.map AgentView.agentId).Nodup ∧
      listed.Pairwise fun a b => Collation.codePoint.le a.host b.host := by
  intro db listed
  obtain ⟨hget, hmem, hnodup, hhosts⟩ := registry_reads .codePoint sampleWrites ⟨90 * 1000000000⟩
  rw [known_sampleWrites] at hget hmem
  refine ⟨hget, fun id => ?_, hnodup, hhosts⟩
  rw [List.mem_map]
  constructor
  · rintro ⟨a, ha, rfl⟩
    obtain ⟨info, hinfo, -⟩ := (hmem a).mp ha
    unfold sampleInfo at hinfo
    split_ifs at hinfo with h4 h3 h2
    · exact .inr (.inr h4)
    · exact .inr (.inl h3)
    · exact .inl h2
  · intro h
    have hinfo : ∃ info, sampleInfo id = some info ∧ info.row.agentId = id := by
      rcases h with rfl | rfl | rfl <;> exact ⟨_, rfl, rfl⟩
    obtain ⟨info, hinfo, hid⟩ := hinfo
    rw [← hid] at hinfo
    exact ⟨info.view _, (hmem _).mpr ⟨info, hinfo, rfl⟩, hid⟩

end RegistryDb

end Ravn
