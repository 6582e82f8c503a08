import Ravn.Server.Ingest
import Ravn.Server.Registry
import Ravn.Theory.Grouping
import Ravn.Theory.MemberOrder

/-! The two views of the registry that the portal draws: the label dimensions with their counts, and the
fleet in groups. The groups are the agents of the list, each once, with the worst of what it reported in
a day (`topology_shows`); a count of the dimensions is the size of a group (`count_eq_group_size`). -/

namespace Ravn

open Theory

/-! ## Dimensions -/

structure CategoryValue where
  value : String
  agentCount : Nat
deriving DecidableEq

structure CategoryDimension where
  key : String
  values : List CategoryValue

namespace RegistryDb

/-- The order of `ORDER BY key, value`. -/
def pairLe (collation : Collation) (a b : String × String) : Bool :=
  if a.1 = b.1 then collation.le a.2 b.2 else collation.le a.1 b.1

/-- The rows of the grouped query: each label with the number of agents that have it. -/
def categoryRows (collation : Collation) (db : RegistryDb) : List (String × String × Nat) :=
  let pairs := db.labels.map fun l => (l.key, l.value)
  (pairs.dedup.mergeSort (pairLe collation)).map fun p => (p.1, p.2, pairs.count p)

/-- The loop of `list_categories`: a row goes with the last dimension, or begins one. -/
def addCategory (dims : List CategoryDimension) (row : String × String × Nat) :
    List CategoryDimension :=
  let value : CategoryValue := ⟨row.2.1, row.2.2⟩
  match dims.getLast? with
  | some d =>
    if d.key = row.1 then dims.dropLast ++ [{ d with values := d.values ++ [value] }]
    else dims ++ [⟨row.1, [value]⟩]
  | none => dims ++ [⟨row.1, [value]⟩]

def listCategories (collation : Collation) (db : RegistryDb) : List CategoryDimension :=
  (db.categoryRows collation).foldl addCategory []

end RegistryDb

/-! ## Groups -/

structure TopologyNode where
  agentId : Uuid
  host : String
  status : String
  severity : Option String
  labels : BTreeMap String String

structure TopologyGroup where
  key : String
  nodes : List TopologyNode

structure Topology where
  groupBy : Option String
  dimensions : List String
  groups : List TopologyGroup

def severityFromRank : Nat → String
  | 5 => "critical"
  | 4 => "error"
  | 3 => "warning"
  | 2 => "notice"
  | _ => "info"

/-- The `CASE` of the query, on the column. -/
def severityCase : String → Nat
  | "critical" => 5
  | "error" => 4
  | "warning" => 3
  | "notice" => 2
  | _ => 1

/-- The events of the last 24 hours. -/
def EventTable.recent (events : EventTable) (now : DateTime) : EventTable :=
  events.filter fun m => timestamptz now - 24 * 3600 * 1000000 < timestamptz m.event.occurredAt

/-- The worst severity by agent. -/
def worstSeverity (events : EventTable) (now : DateTime) : BTreeMap Uuid String :=
  (BTreeMap.groupInto (fun m : Message => m.event.agentId.uuid)
    (fun m => severityCase m.event.severity.toText) (events.recent now)).mapValues
      fun ranks => severityFromRank (ranks.foldl max 0)

/-- The group that an agent is shown in. -/
def groupKey (groupBy : Option String) (a : AgentView) : String :=
  match groupBy with
  | some k => (a.labels.get k).getD "ungrouped"
  | none => "all"

def AgentView.node (worst : BTreeMap Uuid String) (a : AgentView) : TopologyNode where
  agentId := a.agentId
  host := a.host
  status := a.status
  severity := worst.get a.agentId
  labels := a.labels

/-- `topology`. The agents' status is by the clock of the control plane, the day of their events by that
of the database. -/
def RegistryDb.topology (collation : Collation) (db : RegistryDb) (events : EventTable)
    (now dbNow : DateTime) (groupBy : Option String) : Topology :=
  let agents := db.listAgents collation now
  let worst := worstSeverity events dbNow
  let keys := agents.flatMap fun a => a.labels.keys
  { groupBy := groupBy
    dimensions := (BTreeMap.ofList (keys.map fun k => (k, ()))).keys
    groups := (BTreeMap.groupInto (groupKey groupBy) (AgentView.node worst) agents).entries.map
      fun e => ⟨e.1, e.2⟩ }

/-! ## What the groups show -/

theorem severityFromRank_severityCase (s : Severity) :
    severityFromRank (severityCase s.toText) = s.toText := by
  cases s <;> rfl

theorem severityCase_toText (s : Severity) : severityCase s.toText = s.rank + 1 := by
  cases s <;> rfl

theorem le_foldl_max (ns : List Nat) (m : Nat) : m ≤ ns.foldl max m ∧ ∀ n ∈ ns, n ≤ ns.foldl max m := by
  induction ns generalizing m with
  | nil => exact ⟨Nat.le_refl m, nofun⟩
  | cons n ns ih =>
    obtain ⟨hmax, hrest⟩ := ih (max m n)
    refine ⟨Nat.le_trans (Nat.le_max_left m n) hmax, fun n' hn' => ?_⟩
    rcases List.mem_cons.mp hn' with rfl | hn'
    · exact Nat.le_trans (Nat.le_max_right m n') hmax
    · exact hrest n' hn'

theorem foldl_max_mem (ns : List Nat) (m : Nat) : ns.foldl max m = m ∨ ns.foldl max m ∈ ns := by
  induction ns generalizing m with
  | nil => exact .inl rfl
  | cons n ns ih =>
    rw [List.foldl_cons]
    rcases ih (max m n) with h | h
    · rw [h]
      rcases Nat.le_total m n with hle | hle
      · rw [Nat.max_eq_right hle]
        exact .inr List.mem_cons_self
      · rw [Nat.max_eq_left hle]
        exact .inl rfl
    · exact .inr (List.mem_cons_of_mem _ h)

/-- What an agent is shown with: the worst severity that it reported in the last day, and none if it
reported nothing. -/
def IsWorst (events : EventTable) (now : DateTime) (id : Uuid) : Option String → Prop
  | none => ∀ m ∈ events.recent now, m.event.agentId.uuid ≠ id
  | some text => ∃ m ∈ events.recent now, m.event.agentId.uuid = id ∧
      text = m.event.severity.toText ∧ ∀ m' ∈ events.recent now,
        m'.event.agentId.uuid = id → m'.event.severity.rank ≤ m.event.severity.rank

theorem Severity.rank_injective {s t : Severity} (h : s.rank = t.rank) : s = t := by
  cases s <;> cases t <;> first | rfl | cases h

theorem IsWorst.unique {id : Uuid} {o o' : Option String} (h : IsWorst events now id o)
    (h' : IsWorst events now id o') : o = o' := by
  cases o with
  | none =>
    cases o' with
    | none => rfl
    | some text =>
      obtain ⟨m, hm, hid, -⟩ := h'
      exact absurd hid (h m hm)
  | some text =>
    obtain ⟨m, hm, hid, rfl, hworst⟩ := h
    cases o' with
    | none => exact absurd hid (h' m hm)
    | some text' =>
      obtain ⟨m', hm', hid', rfl, hworst'⟩ := h'
      have hrank := Nat.le_antisymm (hworst' m hm hid) (hworst m' hm' hid')
      rw [Severity.rank_injective hrank]

/-- The greatest rank of some messages is that of one of them. -/
theorem exists_foldl_max {ms : EventTable} (hms : ms ≠ []) :
    ∃ m ∈ ms, (ms.map fun m => severityCase m.event.severity.toText).foldl max 0 =
      m.event.severity.rank + 1 ∧ ∀ m' ∈ ms, m'.event.severity.rank ≤ m.event.severity.rank := by
  simp only [severityCase_toText]
  generalize hranks : ms.map (fun m => m.event.severity.rank + 1) = ranks
  have hle : ∀ m ∈ ms, m.event.severity.rank + 1 ≤ ranks.foldl max 0 := fun m hm =>
    (le_foldl_max ranks 0).2 _ (hranks ▸ List.mem_map_of_mem hm)
  obtain ⟨m, hm⟩ := List.exists_mem_of_ne_nil ms hms
  rcases foldl_max_mem ranks 0 with hzero | hmem
  · have hpos := hle m hm
    rw [hzero] at hpos
    exact absurd hpos (Nat.not_succ_le_zero _)
  · obtain ⟨m', hm', heq⟩ : ∃ m ∈ ms, m.event.severity.rank + 1 = ranks.foldl max 0 := by
      simpa only [← hranks, List.mem_map] using hmem
    refine ⟨m', hm', heq.symm, fun m'' hm'' => ?_⟩
    have hle := hle m'' hm''
    rw [← heq] at hle
    exact Nat.le_of_succ_le_succ hle

theorem isWorst_get (events : EventTable) (now : DateTime) (id : Uuid) :
    IsWorst events now id ((worstSeverity events now).get id) := by
  rw [worstSeverity, BTreeMap.get_mapValues, BTreeMap.get_groupInto]
  split
  · rename_i hnil
    exact fun m hm => by simpa using List.filter_eq_nil_iff.mp hnil m hm
  · rename_i hne
    obtain ⟨m, hm, hmax, hworst⟩ := exists_foldl_max hne
    obtain ⟨hrecent, hid⟩ := List.mem_filter.mp hm
    refine ⟨m, hrecent, by simpa using hid, ?_, fun m' hm' hid' => ?_⟩
    · show severityFromRank (List.foldl max 0 _) = _
      rw [hmax, ← severityCase_toText, severityFromRank_severityCase]
    · exact hworst m' (List.mem_filter.mpr ⟨hm', by simpa using hid'⟩)

theorem get_worstSeverity {id : Uuid} {o : Option String} :
    (worstSeverity events now).get id = o ↔ IsWorst events now id o :=
  ⟨fun h => h ▸ isWorst_get events now id, (isWorst_get events now id).unique⟩

/-- A view of the agents that are known: in groups by a label, every one in one group and once. -/
structure Topology.Shows (t : Topology) (collation : Collation) (known : Known) (events : EventTable)
    (now dbNow : DateTime) (groupBy : Option String) : Prop where
  dimensions_sorted : t.dimensions.Pairwise (· < ·)
  mem_dimensions : ∀ k, k ∈ t.dimensions ↔
    ∃ id info, known id = some info ∧ (info.labels.get k).isSome
  groups_sorted : (t.groups.map TopologyGroup.key).Pairwise (· < ·)
  nonempty : ∀ g ∈ t.groups, g.nodes ≠ []
  nodup : ∀ g ∈ t.groups, (g.nodes.map TopologyNode.agentId).Nodup
  byHost : ∀ g ∈ t.groups, g.nodes.Pairwise fun n n' => collation.le n.host n'.host
  mem_nodes : ∀ k n, (∃ g ∈ t.groups, g.key = k ∧ n ∈ g.nodes) ↔
    ∃ info, known n.agentId = some info ∧ k = groupKey groupBy (info.view now) ∧
      n.host = info.row.host ∧ n.status = agentStatus info.row.lastSeen now ∧
      n.labels = info.labels ∧ IsWorst events dbNow n.agentId n.severity

namespace RegistryDb

theorem known_agentId {db : RegistryDb} {id : Uuid} (h : db.known id = some info) :
    info.row.agentId = id := by
  obtain ⟨r, hr, rfl⟩ := Option.map_eq_some_iff.mp h
  simpa using List.find?_some hr

section

variable (collation : Collation) {db : RegistryDb} (events : EventTable)
  (now dbNow : DateTime) (groupBy : Option String)

theorem mem_groups {g : TopologyGroup} :
    g ∈ (db.topology collation events now dbNow groupBy).groups ↔
      g.nodes = ((db.listAgents collation now).filter fun a => groupKey groupBy a = g.key).map
        (AgentView.node (worstSeverity events dbNow)) ∧ g.nodes ≠ [] := by
  rw [← BTreeMap.mem_entries_groupInto, topology, List.mem_map]
  constructor
  · rintro ⟨e, he, rfl⟩
    exact he
  · exact fun h => ⟨(g.key, g.nodes), h, rfl⟩

theorem mem_dimensions (hdb : db.Valid) (k : String) :
    k ∈ (db.topology collation events now dbNow groupBy).dimensions ↔
      ∃ id info, db.known id = some info ∧ (info.labels.get k).isSome := by
  rw [topology, BTreeMap.mem_keys_ofList, List.map_map]
  show k ∈ List.map id _ ↔ _
  rw [List.map_id, List.mem_flatMap]
  constructor
  · rintro ⟨a, ha, hk⟩
    obtain ⟨info, hinfo, ha⟩ := (mem_listAgents collation hdb now).mp ha
    refine ⟨_, info, hinfo, BTreeMap.containsKey_iff.mpr ?_⟩
    rwa [ha] at hk
  · rintro ⟨id, info, hinfo, hk⟩
    have hid : (info.view now).agentId = id := known_agentId hinfo
    exact ⟨info.view now, (mem_listAgents collation hdb now).mpr ⟨info, by rwa [hid], rfl⟩,
      BTreeMap.containsKey_iff.mp hk⟩

theorem mem_nodes (hdb : db.Valid) (k : String) (n : TopologyNode) :
    (∃ g ∈ (db.topology collation events now dbNow groupBy).groups, g.key = k ∧ n ∈ g.nodes) ↔
      ∃ info, db.known n.agentId = some info ∧ k = groupKey groupBy (info.view now) ∧
        n.host = info.row.host ∧ n.status = agentStatus info.row.lastSeen now ∧
        n.labels = info.labels ∧ IsWorst events dbNow n.agentId n.severity := by
  simp only [mem_groups]
  constructor
  · rintro ⟨g, ⟨hnodes, -⟩, rfl, hn⟩
    rw [hnodes] at hn
    obtain ⟨a, ha, rfl⟩ := List.mem_map.mp hn
    obtain ⟨ha, hkey⟩ := List.mem_filter.mp ha
    obtain ⟨info, hinfo, heq⟩ := (mem_listAgents collation hdb now).mp ha
    subst heq
    exact ⟨info, hinfo, (of_decide_eq_true hkey).symm, rfl, rfl, rfl, isWorst_get events dbNow _⟩
  · rintro ⟨info, hinfo, rfl, hhost, hstatus, hlabels, hworst⟩
    have hid := known_agentId hinfo
    have hn : n = (info.view now).node (worstSeverity events dbNow) := by
      obtain ⟨agentId, host, status, severity, labels⟩ := n
      show TopologyNode.mk agentId host status severity labels = ⟨info.row.agentId, info.row.host,
        agentStatus info.row.lastSeen now, (worstSeverity events dbNow).get info.row.agentId, info.labels⟩
      rw [hid, ← hhost, ← hstatus, ← hlabels, get_worstSeverity.mpr hworst]
    have hlisted : info.view now ∈ db.listAgents collation now :=
      (mem_listAgents collation hdb now).mpr ⟨info, by rwa [← hid] at hinfo, rfl⟩
    have hmem : n ∈ ((db.listAgents collation now).filter fun a =>
        groupKey groupBy a = groupKey groupBy (info.view now)).map
          (AgentView.node (worstSeverity events dbNow)) := by
      rw [hn]
      exact List.mem_map_of_mem (List.mem_filter.mpr ⟨hlisted, by simp⟩)
    exact ⟨⟨_, _⟩, ⟨rfl, List.ne_nil_of_mem hmem⟩, rfl, hmem⟩

end

/-- Over every run of writes from empty tables, the topology shows the agents that are known: every one in
the group of its label and once, with the worst severity of its events. -/
theorem topology_shows (collation : Collation) (ws : List RegistryWrite) (events : EventTable)
    (now dbNow : DateTime) (groupBy : Option String) :
    ((ws.foldl write ⟨[], []⟩).topology collation events now dbNow groupBy).Shows collation
      (ws.foldl Known.write fun _ => none) events now dbNow groupBy := by
  obtain ⟨hdb, hknown⟩ := known_run ws valid_empty
  rw [← show (⟨[], []⟩ : RegistryDb).known = fun _ => none from rfl, ← hknown]
  generalize ws.foldl write ⟨[], []⟩ = db at hdb
  exact {
    dimensions_sorted := BTreeMap.pairwise_keys _
    mem_dimensions := mem_dimensions collation events now dbNow groupBy hdb
    groups_sorted := by
      rw [topology, List.map_map]
      exact BTreeMap.pairwise_keys _
    nonempty := fun g hg => ((mem_groups collation events now dbNow groupBy).mp hg).2
    nodup := fun g hg => by
      rw [((mem_groups collation events now dbNow groupBy).mp hg).1, List.map_map]
      exact (nodup_listAgents collation hdb now).sublist (List.filter_sublist.map _)
    byHost := fun g hg => by
      rw [((mem_groups collation events now dbNow groupBy).mp hg).1, List.pairwise_map]
      exact (pairwise_listAgents collation hdb now).sublist List.filter_sublist
    mem_nodes := mem_nodes collation events now dbNow groupBy hdb }

/-- A message of agent 2. -/
def sampleSeen (secs : Int) (severity : Severity) : Message where
  event := { TemplateRegistry.sampleEvent with occurredAt := ⟨secs * 1000000000⟩, severity := severity }
  explanation := none

/-- The worst message is more than a day old. -/
def sampleEvents : EventTable :=
  [sampleSeen 0 .error, sampleSeen 30 .warning, sampleSeen (-86400) .critical]

/-- The topology of three agents, by a label that one of them does not have. -/
theorem topology_shows_sample :
    let t := (sampleWrites.foldl write ⟨[], []⟩).topology .codePoint sampleEvents ⟨90 * 1000000000⟩
      ⟨91 * 1000000000⟩ (some "role")
    (∃ g ∈ t.groups, g.key = "web" ∧
        ⟨⟨2⟩, "web-1", "stale", some "error", sampleRole "web"⟩ ∈ g.nodes) ∧
      (∃ g ∈ t.groups, g.key = "web" ∧ ⟨⟨3⟩, "web-2", "online", none, sampleRole "web"⟩ ∈ g.nodes) ∧
      ∃ g ∈ t.groups, g.key = "ungrouped" ∧ ⟨⟨4⟩, "db-2", "online", none, .empty⟩ ∈ g.nodes := by
  intro t
  have hshows := topology_shows .codePoint sampleWrites sampleEvents ⟨90 * 1000000000⟩
    ⟨91 * 1000000000⟩ (some "role")
  rw [known_sampleWrites] at hshows
  have hrecent : sampleEvents.recent ⟨91 * 1000000000⟩ = [sampleSeen 0 .error, sampleSeen 30 .warning] := by
    rfl
  have hsilent : ∀ id : Uuid, id ≠ ⟨2⟩ → IsWorst sampleEvents ⟨91 * 1000000000⟩ id none := by
    intro id hid m hm
    rw [hrecent] at hm
    simp only [List.mem_cons, List.not_mem_nil, or_false] at hm
    rcases hm with rfl | rfl <;> exact Ne.symm hid
  have hworst : IsWorst sampleEvents ⟨91 * 1000000000⟩ ⟨2⟩ (some "error") := by
    refine ⟨sampleSeen 0 .error, ?_, rfl, rfl, fun m hm _ => ?_⟩
    · rw [hrecent]
      exact List.mem_cons_self
    · rw [hrecent] at hm
      simp only [List.mem_cons, List.not_mem_nil, or_false] at hm
      rcases hm with rfl | rfl <;> decide
  refine ⟨(hshows.mem_nodes _ _).mpr ⟨_, rfl, rfl, rfl, rfl, rfl, hworst⟩, ?_, ?_⟩
  · exact (hshows.mem_nodes _ _).mpr ⟨_, rfl, rfl, rfl, rfl, rfl, hsilent _ (by decide)⟩
  · exact (hshows.mem_nodes _ _).mpr ⟨_, rfl, rfl, rfl, rfl, rfl, hsilent _ (by decide)⟩

/-! ## The counts -/

end RegistryDb

/-- The rows that a dimension was built from. -/
def CategoryDimension.rows (d : CategoryDimension) : List (String × String × Nat) :=
  d.values.map fun v => (d.key, v.value, v.agentCount)

namespace RegistryDb

theorem addCategory_nil (row : String × String × Nat) :
    addCategory [] row = [⟨row.1, [⟨row.2.1, row.2.2⟩]⟩] := rfl

theorem addCategory_append (dims : List CategoryDimension) (d : CategoryDimension)
    (row : String × String × Nat) :
    addCategory (dims ++ [d]) row =
      if d.key = row.1 then dims ++ [{ d with values := d.values ++ [⟨row.2.1, row.2.2⟩] }]
      else dims ++ [d] ++ [⟨row.1, [⟨row.2.1, row.2.2⟩]⟩] := by
  simp only [addCategory, List.getLast?_concat, List.dropLast_concat]

/-- Every row goes into a dimension. -/
theorem flatMap_rows_addCategory (dims : List CategoryDimension) (row : String × String × Nat) :
    (addCategory dims row).flatMap CategoryDimension.rows =
      dims.flatMap CategoryDimension.rows ++ [row] := by
  rcases List.eq_nil_or_concat' dims with rfl | ⟨dims, d, rfl⟩
  · rfl
  · rw [addCategory_append]
    split
    · rename_i hkey
      rw [List.flatMap_append, List.flatMap_append, List.append_assoc, List.flatMap_singleton,
        List.flatMap_singleton, CategoryDimension.rows, CategoryDimension.rows, List.map_append,
        List.map_singleton, hkey]
    · rw [List.flatMap_append, List.flatMap_singleton]
      rfl

end RegistryDb

theorem Collation.refl (collation : Collation) (k : String) : collation.le k k := by
  simpa using collation.total k k

namespace RegistryDb

/-- The keys of the dimensions are in order and none is there twice. -/
def KeysInOrder (collation : Collation) (dims : List CategoryDimension) : Prop :=
  dims.Pairwise fun d d' => collation.le d.key d'.key ∧ d.key ≠ d'.key

/-- A row at or after every dimension keeps their order: one that is not of the last dimension is of none. -/
theorem keysInOrder_addCategory {collation : Collation} {dims : List CategoryDimension}
    (hdims : KeysInOrder collation dims) {row : String × String × Nat}
    (hrow : ∀ d ∈ dims, collation.le d.key row.1) :
    KeysInOrder collation (addCategory dims row) ∧
      ∀ d ∈ addCategory dims row, collation.le d.key row.1 := by
  have hrefl := collation.refl row.1
  rcases List.eq_nil_or_concat' dims with rfl | ⟨dims, d, rfl⟩
  · rw [addCategory_nil]
    exact ⟨List.pairwise_singleton _ _, fun d hd => by cases List.mem_singleton.mp hd; exact hrefl⟩
  · obtain ⟨hinit, -, hlast⟩ := List.pairwise_append.mp hdims
    rw [addCategory_append]
    split
    · rename_i hkey
      refine ⟨List.pairwise_append.mpr ⟨hinit, List.pairwise_singleton _ _, fun d' hd' d'' hd'' => ?_⟩,
        fun d' hd' => ?_⟩
      · cases List.mem_singleton.mp hd''
        exact hlast d' hd' d List.mem_cons_self
      · rcases List.mem_append.mp hd' with hd' | hd'
        · exact hrow d' (List.mem_append_left _ hd')
        · cases List.mem_singleton.mp hd'
          exact hrow d (List.mem_append_right _ List.mem_cons_self)
    · rename_i hkey
      refine ⟨List.pairwise_append.mpr ⟨hdims, List.pairwise_singleton _ _, fun d' hd' d'' hd'' => ?_⟩,
        fun d' hd' => ?_⟩
      · cases List.mem_singleton.mp hd''
        refine ⟨hrow d' hd', fun heq => ?_⟩
        rcases List.mem_append.mp hd' with hd' | hd'
        · -- an earlier dimension of that key has the last one between it and the row
          have hle := (hlast d' hd' d List.mem_cons_self).1
          rw [show d'.key = row.1 from heq] at hle
          exact hkey (collation.antisymm _ _ (hrow d (List.mem_append_right _ List.mem_cons_self)) hle)
        · cases List.mem_singleton.mp hd'
          exact hkey heq
      · rcases List.mem_append.mp hd' with hd' | hd'
        · exact hrow d' hd'
        · cases List.mem_singleton.mp hd'
          exact hrefl

/-- The dimensions of ordered rows hold the rows, and their keys are in order. -/
theorem foldl_addCategory {collation : Collation} {rows : List (String × String × Nat)}
    (hrows : rows.Pairwise fun a b => collation.le a.1 b.1) {dims : List CategoryDimension}
    (hdims : KeysInOrder collation dims) (hle : ∀ d ∈ dims, ∀ row ∈ rows, collation.le d.key row.1) :
    KeysInOrder collation (rows.foldl addCategory dims) ∧
      (rows.foldl addCategory dims).flatMap CategoryDimension.rows =
        dims.flatMap CategoryDimension.rows ++ rows := by
  induction rows generalizing dims with
  | nil => exact ⟨hdims, (List.append_nil _).symm⟩
  | cons row rows ih =>
    obtain ⟨hrow, hrows⟩ := List.pairwise_cons.mp hrows
    obtain ⟨hkeys, hlast⟩ := keysInOrder_addCategory hdims fun d hd => hle d hd row List.mem_cons_self
    obtain ⟨hkeys, hflat⟩ := ih hrows hkeys fun d hd row' hrow' =>
      collation.trans _ _ _ (hlast d hd) (hrow row' hrow')
    refine ⟨hkeys, ?_⟩
    rw [List.foldl_cons, hflat, flatMap_rows_addCategory, List.append_assoc, List.singleton_append]

theorem pairLe_iff {collation : Collation} {a b : String × String} :
    pairLe collation a b ↔ collation.le a.1 b.1 ∧ (a.1 = b.1 → collation.le a.2 b.2) := by
  unfold pairLe
  split
  · rename_i heq
    rw [heq]
    exact ⟨fun h => ⟨collation.refl _, fun _ => h⟩, fun h => h.2 rfl⟩
  · rename_i hne
    exact ⟨fun h => ⟨h, fun heq => absurd heq hne⟩, And.left⟩

theorem pairLe_trans (collation : Collation) (a b c : String × String)
    (hab : pairLe collation a b) (hbc : pairLe collation b c) : pairLe collation a c := by
  obtain ⟨hab, hab'⟩ := pairLe_iff.mp hab
  obtain ⟨hbc, hbc'⟩ := pairLe_iff.mp hbc
  refine pairLe_iff.mpr ⟨collation.trans _ _ _ hab hbc, fun heq => ?_⟩
  have hmid : a.1 = b.1 := collation.antisymm _ _ hab (heq ▸ hbc)
  exact collation.trans _ _ _ (hab' hmid) (hbc' (hmid ▸ heq))

theorem pairLe_total (collation : Collation) (a b : String × String) :
    pairLe collation a b || pairLe collation b a := by
  unfold pairLe
  split
  · rename_i heq
    rw [if_pos heq.symm]
    exact collation.total _ _
  · rename_i hne
    rw [if_neg (Ne.symm hne)]
    exact collation.total _ _

/-- The rows are in order and no two are of one key and value. -/
theorem pairwise_categoryRows (collation : Collation) (db : RegistryDb) :
    (db.categoryRows collation).Pairwise fun a b =>
      pairLe collation (a.1, a.2.1) (b.1, b.2.1) ∧ (a.1, a.2.1) ≠ (b.1, b.2.1) := by
  have hsorted := List.pairwise_mergeSort (pairLe_trans collation) (pairLe_total collation)
    (db.labels.map fun l => (l.key, l.value)).dedup
  have hnodup := (List.mergeSort_perm (db.labels.map fun l => (l.key, l.value)).dedup
    (pairLe collation)).nodup_iff.mpr (List.nodup_dedup _)
  exact List.pairwise_map.mpr (hsorted.and hnodup)

theorem mem_categoryRows (collation : Collation) {db : RegistryDb} {k v : String} {n : Nat} :
    (k, v, n) ∈ db.categoryRows collation ↔
      0 < n ∧ n = (db.labels.map fun l => (l.key, l.value)).count (k, v) := by
  rw [categoryRows, List.mem_map]
  constructor
  · rintro ⟨p, hp, heq⟩
    cases heq
    exact ⟨List.count_pos_iff.mpr (List.mem_dedup.mp (List.mem_mergeSort.mp hp)), rfl⟩
  · rintro ⟨hpos, rfl⟩
    exact ⟨(k, v), List.mem_mergeSort.mpr (List.mem_dedup.mpr (List.count_pos_iff.mp hpos)), rfl⟩

theorem values_ne_nil_addCategory {dims : List CategoryDimension}
    (hdims : ∀ d ∈ dims, d.values ≠ []) (row : String × String × Nat) :
    ∀ d ∈ addCategory dims row, d.values ≠ [] := by
  rcases List.eq_nil_or_concat' dims with rfl | ⟨dims, d, rfl⟩
  · exact fun d hd => by cases List.mem_singleton.mp hd; exact List.cons_ne_nil _ _
  · rw [addCategory_append]
    intro d' hd'
    split at hd'
    · rcases List.mem_append.mp hd' with hd' | hd'
      · exact hdims d' (List.mem_append_left _ hd')
      · cases List.mem_singleton.mp hd'
        exact List.append_ne_nil_of_right_ne_nil _ (List.cons_ne_nil _ _)
    · rcases List.mem_append.mp hd' with hd' | hd'
      · exact hdims d' hd'
      · cases List.mem_singleton.mp hd'
        exact List.cons_ne_nil _ _

/-- The dimensions that the rows are collected in. -/
structure Categories (collation : Collation) (db : RegistryDb) (dims : List CategoryDimension) :
    Prop where
  keys : KeysInOrder collation dims
  values_ne_nil : ∀ d ∈ dims, d.values ≠ []
  values : ∀ d ∈ dims, d.values.Pairwise fun v v' =>
    collation.le v.value v'.value ∧ v.value ≠ v'.value
  count : ∀ k v n, (∃ d ∈ dims, d.key = k ∧ ⟨v, n⟩ ∈ d.values) ↔
    0 < n ∧ n = (db.labels.map fun l => (l.key, l.value)).count (k, v)

theorem categories_listCategories (collation : Collation) (db : RegistryDb) :
    Categories collation db (db.listCategories collation) := by
  have hrows := pairwise_categoryRows collation db
  obtain ⟨hkeys, hflat⟩ := foldl_addCategory (hrows.imp fun h => (pairLe_iff.mp h.1).1)
    (.nil : KeysInOrder collation []) nofun
  rw [List.flatMap_nil, List.nil_append] at hflat
  refine ⟨hkeys, ?_, fun d hd => ?_, fun k v n => ?_⟩
  · rw [listCategories]
    generalize db.categoryRows collation = rows
    have hfold : ∀ (rows : List (String × String × Nat)) (dims : List CategoryDimension),
        (∀ d ∈ dims, d.values ≠ []) → ∀ d ∈ rows.foldl addCategory dims, d.values ≠ [] := by
      intro rows
      induction rows with
      | nil => exact fun dims hdims => hdims
      | cons row rows ih => exact fun dims hdims => ih _ (values_ne_nil_addCategory hdims row)
    exact hfold rows [] nofun
  · rw [← hflat] at hrows
    have hvalues := List.pairwise_map.mp ((List.pairwise_flatMap.mp hrows).1 d hd)
    refine hvalues.imp fun {v v'} h => ⟨(pairLe_iff.mp h.1).2 rfl, fun heq => h.2 ?_⟩
    exact Prod.ext rfl heq
  · rw [← mem_categoryRows collation, ← hflat, List.mem_flatMap]
    constructor
    · rintro ⟨d, hd, rfl, hvalue⟩
      exact ⟨d, hd, List.mem_map_of_mem hvalue⟩
    · rintro ⟨d, hd, hrow⟩
      obtain ⟨value, hvalue, heq⟩ := List.mem_map.mp hrow
      cases heq
      exact ⟨d, hd, rfl, hvalue⟩

/-- The labels of an agent have different keys. -/
theorem nodup_labels {db : RegistryDb} (hdb : db.Valid) (id : Uuid) :
    (((db.labels.filter fun l => l.agentId = id).map fun l => (l.key, l.value)).map Prod.fst).Nodup := by
  rw [List.map_map]
  have hkeys := List.pairwise_map.mp hdb.labelKeys
  refine List.pairwise_map.mpr (List.Pairwise.imp_of_mem ?_ (hkeys.sublist List.filter_sublist))
  intro l l' hl hl' hne heq
  have hid : l.agentId = id := by simpa using (List.mem_filter.mp hl).2
  have hid' : l'.agentId = id := by simpa using (List.mem_filter.mp hl').2
  exact hne (Prod.ext (hid.trans hid'.symm) heq)

/-- The rows of the labels and what is known of the agents. -/
theorem mem_labels_iff {db : RegistryDb} (hdb : db.Valid) {id : Uuid} {k v : String} :
    ⟨id, k, v⟩ ∈ db.labels ↔ ∃ info, db.known id = some info ∧ info.labels.get k = some v := by
  constructor
  · intro hl
    obtain ⟨r, hr, hid⟩ := List.mem_map.mp (hdb.labelled _ hl)
    obtain rfl : r.agentId = id := hid
    refine ⟨_, known_of_mem hdb hr, ?_⟩
    rw [BTreeMap.get_ofList (nodup_labels hdb _)]
    exact lookup_of_mem (nodup_labels hdb _)
      (List.mem_map_of_mem (List.mem_filter.mpr ⟨hl, by simp⟩))
  · rintro ⟨info, hinfo, hlabel⟩
    obtain ⟨r, -, rfl⟩ := Option.map_eq_some_iff.mp hinfo
    rw [BTreeMap.get_ofList (nodup_labels hdb _)] at hlabel
    obtain ⟨l, hl, heq⟩ := List.mem_map.mp (mem_of_lookup hlabel)
    obtain ⟨hmem, hid⟩ := List.mem_filter.mp hl
    obtain ⟨id', k', v'⟩ := l
    cases heq
    cases of_decide_eq_true hid
    exact hmem

theorem mem_listAgents_iff (collation : Collation) {db : RegistryDb} (hdb : db.Valid) (now : DateTime)
    (id : Uuid) (k v : String) :
    id ∈ ((db.listAgents collation now).filter fun a => a.labels.get k = some v).map
      AgentView.agentId ↔ ⟨id, k, v⟩ ∈ db.labels := by
  rw [mem_labels_iff hdb, List.mem_map]
  constructor
  · rintro ⟨a, ha, rfl⟩
    obtain ⟨ha, hlabel⟩ := List.mem_filter.mp ha
    obtain ⟨info, hinfo, heq⟩ := (mem_listAgents collation hdb now).mp ha
    rw [heq] at hlabel
    exact ⟨info, hinfo, of_decide_eq_true hlabel⟩
  · rintro ⟨info, hinfo, hlabel⟩
    have hid : (info.view now).agentId = id := known_agentId hinfo
    exact ⟨info.view now, List.mem_filter.mpr ⟨(mem_listAgents collation hdb now).mpr
      ⟨info, by rwa [hid], rfl⟩, decide_eq_true hlabel⟩, hid⟩

/-- The agents with a label, as the database counts them and as the list has them. -/
theorem count_labels (collation : Collation) {db : RegistryDb} (hdb : db.Valid) (now : DateTime)
    (k v : String) :
    (db.labels.map fun l => (l.key, l.value)).count (k, v) =
      ((db.listAgents collation now).filter fun a => a.labels.get k = some v).length := by
  have hrows : (((db.labels.filter fun l => (l.key, l.value) == (k, v)).map
      LabelRow.agentId)).Nodup := by
    have hkeys := List.pairwise_map.mp hdb.labelKeys
    refine List.pairwise_map.mpr (List.Pairwise.imp_of_mem ?_ (hkeys.sublist List.filter_sublist))
    intro l l' hl hl' hne heq
    have hk := (Prod.mk.inj (eq_of_beq (List.mem_filter.mp hl).2)).1
    have hk' := (Prod.mk.inj (eq_of_beq (List.mem_filter.mp hl').2)).1
    exact hne (Prod.ext heq (hk.trans hk'.symm))
  have hagents : ((((db.listAgents collation now).filter fun a => a.labels.get k = some v)).map
      AgentView.agentId).Nodup :=
    (nodup_listAgents collation hdb now).sublist (List.filter_sublist.map _)
  have hperm := (List.perm_ext_iff_of_nodup hrows hagents).mpr fun id => by
    rw [mem_listAgents_iff collation hdb, List.mem_map]
    constructor
    · rintro ⟨l, hl, rfl⟩
      obtain ⟨hmem, heq⟩ := List.mem_filter.mp hl
      obtain ⟨id, k', v'⟩ := l
      cases eq_of_beq heq
      exact hmem
    · exact fun hl => ⟨_, List.mem_filter.mpr ⟨hl, by simp⟩, rfl⟩
  rw [List.count_eq_countP, List.countP_map, List.countP_eq_length_filter]
  simpa only [List.length_map, Function.comp_def] using hperm.length_eq

/-- The agents that a group other than that of the unlabelled shows. -/
theorem filter_groupKey {k v : String} (hv : v ≠ "ungrouped") (as : List AgentView) :
    (as.filter fun a => groupKey (some k) a = v) = as.filter fun a => a.labels.get k = some v := by
  refine List.filter_congr fun a _ => decide_eq_decide.mpr ?_
  show (a.labels.get k).getD "ungrouped" = v ↔ _
  cases a.labels.get k with
  | none => exact ⟨fun h => absurd h.symm hv, nofun⟩
  | some v' => exact Option.some_inj.symm

/-- The two views of the labels agree: the dimensions of the one are those of the other, and the values of
a dimension are the groups of the topology by it, with their sizes. -/
structure CountsGroups (collation : Collation) (dims : List CategoryDimension)
    (topology : Option String → Topology) (agents : List AgentView) : Prop where
  keys : KeysInOrder collation dims
  values : ∀ d ∈ dims, d.values.Pairwise fun v v' =>
    collation.le v.value v'.value ∧ v.value ≠ v'.value
  dimensions : ∀ groupBy k, k ∈ (topology groupBy).dimensions ↔ ∃ d ∈ dims, d.key = k
  agents : ∀ k v n, (∃ d ∈ dims, d.key = k ∧ ⟨v, n⟩ ∈ d.values) ↔
    0 < n ∧ n = (agents.filter fun a => a.labels.get k = some v).length
  groups : ∀ k v n, v ≠ "ungrouped" → ((∃ d ∈ dims, d.key = k ∧ ⟨v, n⟩ ∈ d.values) ↔
    ∃ g ∈ (topology (some k)).groups, g.key = v ∧ g.nodes.length = n)

/-- Over every run of writes from empty tables, a count of the dimensions is the size of a group; the group
of the unlabelled agents is the one that the counts do not tell. -/
theorem count_eq_group_size (collation : Collation) (ws : List RegistryWrite) (events : EventTable)
    (now dbNow : DateTime) :
    let db := ws.foldl write ⟨[], []⟩
    CountsGroups collation (db.listCategories collation) (db.topology collation events now dbNow)
      (db.listAgents collation now) := by
  intro db
  have hdb : db.Valid := (known_run ws valid_empty).1
  obtain ⟨hkeys, hne, hvalues, hcount⟩ := categories_listCategories collation db
  simp only [count_labels collation hdb now] at hcount
  refine ⟨hkeys, hvalues, fun groupBy k => ?_, hcount, fun k v n hv => ?_⟩
  · rw [mem_dimensions collation events now dbNow groupBy hdb]
    constructor
    · rintro ⟨id, info, hinfo, hk⟩
      obtain ⟨v, hv⟩ := Option.isSome_iff_exists.mp hk
      have hl := (mem_labels_iff hdb).mpr ⟨info, hinfo, hv⟩
      have hpos := List.length_pos_of_mem ((mem_listAgents_iff collation hdb now id k v).mpr hl)
      rw [List.length_map] at hpos
      obtain ⟨d, hd, hkey, -⟩ := (hcount k v _).mpr ⟨hpos, rfl⟩
      exact ⟨d, hd, hkey⟩
    · rintro ⟨d, hd, rfl⟩
      obtain ⟨⟨v, n⟩, hvalue⟩ := List.exists_mem_of_ne_nil _ (hne d hd)
      obtain ⟨hpos, hn⟩ := (hcount d.key v n).mp ⟨d, hd, rfl, hvalue⟩
      obtain ⟨a, ha⟩ := List.exists_mem_of_length_pos (hn ▸ hpos)
      obtain ⟨ha, hlabel⟩ := List.mem_filter.mp ha
      obtain ⟨info, hinfo, heq⟩ := (mem_listAgents collation hdb now).mp ha
      refine ⟨_, info, hinfo, ?_⟩
      rw [heq] at hlabel
      exact Option.isSome_of_eq_some (of_decide_eq_true hlabel)
  · rw [hcount]
    simp only [mem_groups]
    constructor
    · rintro ⟨hpos, rfl⟩
      have hfilter := filter_groupKey (k := k) hv (db.listAgents collation now)
      refine ⟨⟨v, ((db.listAgents collation now).filter fun a => groupKey (some k) a = v).map
        (AgentView.node (worstSeverity events dbNow))⟩, ⟨rfl, ?_⟩, rfl, ?_⟩
      · rw [hfilter, ne_eq, List.map_eq_nil_iff]
        exact List.ne_nil_of_length_pos hpos
      · rw [List.length_map, hfilter]
    · rintro ⟨g, ⟨hnodes, hg⟩, rfl, rfl⟩
      refine ⟨List.length_pos_of_ne_nil hg, ?_⟩
      rw [hnodes, List.length_map, filter_groupKey hv]

/-- Two agents have the role `web`, in the counts and in the topology. -/
theorem count_eq_group_size_sample :
    let db := sampleWrites.foldl write ⟨[], []⟩
    (∃ d ∈ db.listCategories .codePoint, d.key = "role" ∧ ⟨"web", 2⟩ ∈ d.values) ∧
      ∃ g ∈ (db.topology .codePoint sampleEvents ⟨90 * 1000000000⟩ ⟨91 * 1000000000⟩
        (some "role")).groups, g.key = "web" ∧ g.nodes.length = 2 := by
  intro db
  have hcounts := count_eq_group_size .codePoint sampleWrites sampleEvents ⟨90 * 1000000000⟩
    ⟨91 * 1000000000⟩
  have hdb : db.Valid := (known_run sampleWrites valid_empty).1
  have hrows : (db.labels.map fun l => (l.key, l.value)).count ("role", "web") = 2 := by decide +kernel
  rw [count_labels .codePoint hdb ⟨90 * 1000000000⟩] at hrows
  have hvalue := (hcounts.agents "role" "web" 2).mpr ⟨Nat.two_pos, hrows.symm⟩
  exact ⟨hvalue, (hcounts.groups "role" "web" 2 (by decide)).mp hvalue⟩

end RegistryDb

end Ravn
