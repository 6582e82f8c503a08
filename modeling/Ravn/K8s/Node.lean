import Ravn.K8s.Mapping
import Ravn.Theory.Lines
import Ravn.Theory.FirstMatch
import Mathlib.Data.Finset.Filter
import Mathlib.Data.Finset.Dedup
import Mathlib.Data.Finset.Insert

/-! The conditions of the cluster's nodes. One set of texts `node/condition` holds what is active on
every node; an observation of a node drops what is no longer active there and reports what is new. As
long as no node's name has a slash, a condition is reported at exactly those observations at which it is
active and was not at the previous one of that node. -/

namespace Ravn

open Theory

/-- An observation of a node, with what is drawn for its messages. -/
structure NodeObservation where
  node : Node
  draws : Nat → MessageDraw

def conditionOf (m : Message) : String :=
  match m.event.payload with
  | .kubeNode p => p.condition
  | _ => ""

def nodeKey (nodeName condition : String) : String := nodeName ++ "/" ++ condition

/-- The loop over the messages of `reconcile`: each key is inserted, and a message is kept if its key
is new. -/
def insertFresh (nodeName : String) (emit : Bool) :
    Finset String → List Message → Finset String × List Message
  | active, [] => (active, [])
  | active, m :: ms =>
    let k := nodeKey nodeName (conditionOf m)
    let rest := insertFresh nodeName emit (insert k active) ms
    (rest.1, if k ∉ active ∧ emit then m :: rest.2 else rest.2)

section

variable (agentId : AgentId) (host : String)

def reconcile (active : Finset String) (o : NodeObservation) (emit : Bool) :
    Finset String × List Message :=
  let nodeName := o.node.nodeName host
  let messages := nodeToMessages o.node agentId host o.draws
  let current := (messages.map fun m => nodeKey nodeName (conditionOf m)).toFinset
  let retained := active.filter fun k => ¬(nodeName ++ "/").toList <+: k.toList ∨ k ∈ current
  insertFresh nodeName emit retained messages

/-- What is active after observations that were all made with `emit`. -/
def activeAfter (obs : List NodeObservation) : Finset String :=
  obs.foldl (fun active o => (reconcile agentId host active o true).1) ∅

/-- The last observation of a node. -/
def lastOfNode (nodeName : String) (obs : List NodeObservation) : Option NodeObservation :=
  lastWhere (fun o => o.node.nodeName host == nodeName) obs

/-- A condition is active, and was not at the previous observation of the node, if there was one. -/
def NewlyActive (before : List NodeObservation) (o : NodeObservation) (c : String) : Prop :=
  c ∈ o.node.activeConditions ∧
    ∀ p, lastOfNode host (o.node.nodeName host) before = some p → c ∉ p.node.activeConditions

instance (before : List NodeObservation) (o : NodeObservation) (c : String) :
    Decidable (NewlyActive host before o c) := inferInstanceAs (Decidable (_ ∧ _))

end

/-! ## Keys -/

theorem toList_nodeKey (nodeName condition : String) :
    (nodeKey nodeName condition).toList = nodeName.toList ++ '/' :: condition.toList := by
  simp [nodeKey]

theorem nodeKey_right_inj (h : nodeKey n c = nodeKey n c') : c = c' := by
  have hlist := congrArg String.toList h
  rw [toList_nodeKey, toList_nodeKey, List.append_cancel_left_eq, List.cons.injEq] at hlist
  exact String.toList_inj.mp hlist.2

/-- No condition that is reported has a slash, so the last slash of a key ends the node's name. -/
theorem nodeKey_inj (hc : '/' ∉ c.toList) (hc' : '/' ∉ c'.toList) (h : nodeKey n c = nodeKey n' c') :
    n = n' ∧ c = c' := by
  have hlist := congrArg (fun k => k.toList.reverse) h
  simp only [toList_nodeKey, List.reverse_append, List.reverse_cons, List.append_assoc,
    List.singleton_append] at hlist
  obtain ⟨hcond, hname⟩ := append_cons_inj (by simpa using hc) (by simpa using hc') hlist
  exact ⟨String.toList_inj.mp (List.reverse_injective hname),
    String.toList_inj.mp (List.reverse_injective hcond)⟩

theorem isPrefix_nodeKey (n c : String) : (n ++ "/").toList <+: (nodeKey n c).toList :=
  ⟨c.toList, by simp [nodeKey]⟩

/-- Without slashes in the names only the keys of a node begin with its name and a slash. -/
theorem eq_of_isPrefix_nodeKey (hn : '/' ∉ n.toList) (hn' : '/' ∉ n'.toList)
    (h : (n ++ "/").toList <+: (nodeKey n' c).toList) : n = n' := by
  obtain ⟨t, ht⟩ := h
  rw [String.toList_append, List.append_assoc, toList_nodeKey] at ht
  exact String.toList_inj.mp (append_cons_inj hn hn' ht).1

theorem slash_notMem_of_active {node : Node} (h : c ∈ node.activeConditions) : '/' ∉ c.toList := by
  have hall : ∀ c ∈ "NodeNotReady" :: pressureConditions, '/' ∉ c.toList := by decide
  exact hall c (mem_activeConditions_cases h)

/-! ## One observation -/

section

variable {agentId : AgentId} {host : String} {active : Finset String} {o : NodeObservation}

theorem conditionOf_eq (h : m.nodeSignal = some (n, c)) : conditionOf m = c := by
  unfold Message.nodeSignal at h
  split at h
  · rename_i p hp
    cases h
    simp only [conditionOf, hp]
  · cases h

theorem nodeSignal_of_mem (h : m ∈ nodeToMessages o.node agentId host o.draws) :
    ∃ c ∈ o.node.activeConditions, m.nodeSignal = some (o.node.nodeName host, c) := by
  have hm := List.mem_map_of_mem (f := Message.nodeSignal) h
  rw [map_nodeSignal_nodeToMessages] at hm
  obtain ⟨c, hc, heq⟩ := List.mem_map.mp hm
  exact ⟨c, hc, heq.symm⟩

theorem exists_message_of_active (agentId : AgentId) (h : c ∈ o.node.activeConditions) :
    ∃ m ∈ nodeToMessages o.node agentId host o.draws,
      m.nodeSignal = some (o.node.nodeName host, c) := by
  have hc := List.mem_map_of_mem (f := fun c => some (o.node.nodeName host, c)) h
  rw [← map_nodeSignal_nodeToMessages o.node agentId host o.draws] at hc
  exact List.mem_map.mp hc

theorem mem_insertFresh {ms : List Message} :
    k ∈ (insertFresh n emit active ms).1 ↔ k ∈ active ∨ ∃ m ∈ ms, k = nodeKey n (conditionOf m) := by
  induction ms generalizing active with
  | nil => simp [insertFresh]
  | cons m ms ih =>
    simp only [insertFresh, ih, Finset.mem_insert, List.mem_cons, exists_eq_or_imp]
    tauto

theorem insertFresh_sublist (ms : List Message) : (insertFresh n emit active ms).2.Sublist ms := by
  induction ms generalizing active with
  | nil => exact List.Sublist.refl _
  | cons m ms ih =>
    unfold insertFresh
    dsimp only
    split
    · exact ih.cons_cons m
    · exact ih.cons m

/-- Of the messages with a key exactly one is kept, and only if the key is new. -/
theorem countP_insertFresh {ms : List Message} (hms : ∀ m ∈ ms, ∃ c, m.nodeSignal = some (n, c))
    (c : String) :
    (insertFresh n true active ms).2.countP (·.nodeSignal = some (n, c)) =
      if (∃ m ∈ ms, m.nodeSignal = some (n, c)) ∧ nodeKey n c ∉ active then 1 else 0 := by
  induction ms generalizing active with
  | nil => simp [insertFresh]
  | cons m ms ih =>
    obtain ⟨c', hc'⟩ := hms m List.mem_cons_self
    have ih := fun active => @ih active fun m hm => hms m (List.mem_cons_of_mem _ hm)
    specialize ih (insert (nodeKey n c') active)
    simp only [insertFresh, conditionOf_eq hc']
    by_cases heq : c' = c
    · subst heq
      by_cases hk : nodeKey n c' ∈ active
      · rw [Finset.insert_eq_of_mem hk] at ih ⊢
        simp [hk, ih]
      · simp [hk, ih, hc']
    · have hkey : nodeKey n c ≠ nodeKey n c' := fun h => heq (nodeKey_right_inj h).symm
      by_cases hk : nodeKey n c' ∈ active
      · rw [Finset.insert_eq_of_mem hk] at ih ⊢
        simp [hk, ih, hc', heq]
      · simp [hk, ih, hc', heq, hkey]

theorem mem_reconcile :
    k ∈ (reconcile agentId host active o emit).1 ↔
      (k ∈ active ∧ ¬(o.node.nodeName host ++ "/").toList <+: k.toList) ∨
        ∃ c ∈ o.node.activeConditions, k = nodeKey (o.node.nodeName host) c := by
  have hcurrent : (∃ m ∈ nodeToMessages o.node agentId host o.draws,
      k = nodeKey (o.node.nodeName host) (conditionOf m)) ↔
        ∃ c ∈ o.node.activeConditions, k = nodeKey (o.node.nodeName host) c := by
    constructor
    · rintro ⟨m, hm, rfl⟩
      obtain ⟨c, hc, hsignal⟩ := nodeSignal_of_mem hm
      exact ⟨c, hc, by rw [conditionOf_eq hsignal]⟩
    · rintro ⟨c, hc, rfl⟩
      obtain ⟨m, hm, hsignal⟩ := exists_message_of_active agentId hc
      exact ⟨m, hm, by rw [conditionOf_eq hsignal]⟩
  unfold reconcile
  dsimp only
  rw [mem_insertFresh, hcurrent, Finset.mem_filter, List.mem_toFinset, List.mem_map]
  simp only [eq_comm (a := nodeKey _ _), hcurrent]
  tauto

/-- A condition is reported once if it is active and its key was not, and not at all otherwise. -/
theorem countP_reconcile (c : String) :
    (reconcile agentId host active o true).2.countP
        (·.nodeSignal = some (o.node.nodeName host, c)) =
      if c ∈ o.node.activeConditions ∧ nodeKey (o.node.nodeName host) c ∉ active then 1 else 0 := by
  have hms : ∀ m ∈ nodeToMessages o.node agentId host o.draws,
      ∃ c, m.nodeSignal = some (o.node.nodeName host, c) := fun m hm => by
    obtain ⟨c, -, hsignal⟩ := nodeSignal_of_mem hm
    exact ⟨c, hsignal⟩
  have hexists : (∃ m ∈ nodeToMessages o.node agentId host o.draws,
      m.nodeSignal = some (o.node.nodeName host, c)) ↔ c ∈ o.node.activeConditions := by
    constructor
    · rintro ⟨m, hm, hsignal⟩
      obtain ⟨c', hc', hsignal'⟩ := nodeSignal_of_mem hm
      cases hsignal.symm.trans hsignal'
      exact hc'
    · exact exists_message_of_active agentId
  unfold reconcile
  dsimp only
  rw [countP_insertFresh hms]
  refine if_congr (and_congr hexists (Iff.refl _) |>.trans (and_congr_right fun hc => not_congr ?_))
    rfl rfl
  -- An active condition is current, so what was retained of its key is what there was.
  rw [Finset.mem_filter, List.mem_toFinset, List.mem_map, and_iff_left_iff_imp]
  obtain ⟨m, hm, hsignal⟩ := exists_message_of_active agentId hc
  exact fun _ => .inr ⟨m, hm, by rw [conditionOf_eq hsignal]⟩

/-- Which messages are kept depends on their own keys only. -/
theorem insertFresh_congr {active' : Finset String} {ms : List Message}
    (h : ∀ m ∈ ms, nodeKey n (conditionOf m) ∈ active ↔ nodeKey n (conditionOf m) ∈ active') :
    (insertFresh n emit active ms).2 = (insertFresh n emit active' ms).2 := by
  induction ms generalizing active active' with
  | nil => rfl
  | cons m ms ih =>
    have htail : (insertFresh n emit (insert (nodeKey n (conditionOf m)) active) ms).2 =
        (insertFresh n emit (insert (nodeKey n (conditionOf m)) active') ms).2 := by
      refine ih fun m' hm' => ?_
      rw [Finset.mem_insert, Finset.mem_insert, h m' (List.mem_cons_of_mem _ hm')]
    simp only [insertFresh, htail, h m List.mem_cons_self]

theorem reconcile_congr {active' : Finset String}
    (h : ∀ c, nodeKey (o.node.nodeName host) c ∈ active ↔
      nodeKey (o.node.nodeName host) c ∈ active') :
    (reconcile agentId host active o emit).2 = (reconcile agentId host active' o emit).2 := by
  unfold reconcile
  refine insertFresh_congr fun m _ => ?_
  rw [Finset.mem_filter, Finset.mem_filter, h]

/-- Every message returned at an observation is one of that node's, for an active condition. -/
theorem mem_reconcile_messages (h : m ∈ (reconcile agentId host active o emit).2) :
    m ∈ nodeToMessages o.node agentId host o.draws :=
  (insertFresh_sublist _).subset h

/-! ## Keys over observations -/

/-- A key that is there after an observation: its condition is active at it, or it was there before and
belongs to another node. -/
theorem of_nodeKey_mem_reconcile (hc : '/' ∉ c.toList)
    (h : nodeKey n c ∈ (reconcile agentId host active o emit).1) :
    (o.node.nodeName host = n ∧ c ∈ o.node.activeConditions) ∨
      (o.node.nodeName host ≠ n ∧ nodeKey n c ∈ active) := by
  obtain ⟨hmem, hpre⟩ | ⟨c', hc', heq⟩ := mem_reconcile.mp h
  · refine .inr ⟨fun hn => hpre ?_, hmem⟩
    rw [hn]
    exact isPrefix_nodeKey n c
  · obtain ⟨rfl, rfl⟩ := nodeKey_inj hc (slash_notMem_of_active hc') heq
    exact .inl ⟨rfl, hc'⟩

theorem nodeKey_mem_reconcile (ho : '/' ∉ (o.node.nodeName host).toList) (hn : '/' ∉ n.toList) :
    nodeKey n c ∈ (reconcile agentId host active o emit).1 ↔
      if o.node.nodeName host = n then c ∈ o.node.activeConditions else nodeKey n c ∈ active := by
  rw [mem_reconcile]
  by_cases heq : o.node.nodeName host = n
  · subst heq
    rw [if_pos rfl]
    constructor
    · rintro (⟨-, hpre⟩ | ⟨c', hc', hkey⟩)
      · exact absurd (isPrefix_nodeKey _ c) hpre
      · rw [nodeKey_right_inj hkey]
        exact hc'
    · exact fun hc => .inr ⟨c, hc, rfl⟩
  · rw [if_neg heq]
    have hpre : ∀ k, (o.node.nodeName host ++ "/").toList <+: (nodeKey n k).toList → False :=
      fun k h => heq (eq_of_isPrefix_nodeKey ho hn h)
    constructor
    · rintro (⟨hmem, -⟩ | ⟨c', -, hkey⟩)
      · exact hmem
      · exact absurd (hkey ▸ isPrefix_nodeKey _ c') (hpre c)
    · exact fun hmem => .inl ⟨hmem, hpre c⟩

theorem activeAfter_snoc (obs : List NodeObservation) (o : NodeObservation) :
    activeAfter agentId host (obs ++ [o]) =
      (reconcile agentId host (activeAfter agentId host obs) o true).1 := by
  simp [activeAfter]

/-- The keys of a node are the conditions that were active at its last observation. -/
theorem nodeKey_mem_activeAfter {obs : List NodeObservation}
    (hobs : ∀ o ∈ obs, '/' ∉ (o.node.nodeName host).toList) (hn : '/' ∉ n.toList) (c : String) :
    nodeKey n c ∈ activeAfter agentId host obs ↔
      ∃ p, lastOfNode host n obs = some p ∧ c ∈ p.node.activeConditions := by
  induction obs using List.reverseRecOn with
  | nil => simp [activeAfter, lastOfNode]
  | append_singleton obs o ih =>
    have ih := ih fun p hp => hobs p (List.mem_append_left _ hp)
    rw [activeAfter_snoc,
      nodeKey_mem_reconcile (hobs o (List.mem_append_right _ List.mem_cons_self)) hn, lastOfNode,
      lastWhere_snoc]
    by_cases heq : o.node.nodeName host = n
    · simp [heq]
    · rw [if_neg heq, if_neg (by simpa using heq)]
      exact ih

theorem lastOfNode_filter (obs : List NodeObservation) (n : String) :
    lastOfNode host n (obs.filter fun o => o.node.nodeName host == n) = lastOfNode host n obs := by
  simp [lastOfNode, lastWhere]

end

/-- At an observation of a node, after observations that were all made with `emit`, every message is
for one of its conditions; a condition gets one message if it is active and was not at the node's
previous observation, and none otherwise; and without the observations of other nodes the messages are
the same. -/
theorem node_alarms_edge_triggered (agentId : AgentId) (host : String) (obs : List NodeObservation)
    (o : NodeObservation) (hnames : ∀ p ∈ obs ++ [o], '/' ∉ (p.node.nodeName host).toList) :
    let nodeName := o.node.nodeName host
    let messages := (reconcile agentId host (activeAfter agentId host obs) o true).2
    (∀ m ∈ messages, ∃ c, m.nodeSignal = some (nodeName, c)) ∧
      (∀ c, messages.countP (·.nodeSignal = some (nodeName, c)) =
        if NewlyActive host obs o c then 1 else 0) ∧
      messages = (reconcile agentId host
        (activeAfter agentId host (obs.filter fun p => p.node.nodeName host == nodeName)) o true).2 := by
  intro nodeName messages
  have hobs : ∀ p ∈ obs, '/' ∉ (p.node.nodeName host).toList := fun p hp =>
    hnames p (List.mem_append_left _ hp)
  have hname : '/' ∉ nodeName.toList := hnames o (List.mem_append_right _ List.mem_cons_self)
  refine ⟨fun m hm => ?_, fun c => ?_, ?_⟩
  · obtain ⟨c, -, hsignal⟩ := nodeSignal_of_mem (mem_reconcile_messages hm)
    exact ⟨c, hsignal⟩
  · rw [countP_reconcile]
    refine if_congr (and_congr_right fun _ => ?_) rfl rfl
    rw [nodeKey_mem_activeAfter hobs hname, not_exists]
    exact forall_congr' fun p => not_and
  · refine reconcile_congr fun c => ?_
    rw [nodeKey_mem_activeAfter hobs hname,
      nodeKey_mem_activeAfter (fun p hp => hobs p (List.mem_of_mem_filter hp)) hname,
      lastOfNode_filter]

/-- A node under pressure, with a name that another node's name begins with. -/
def samplePressure (name : String) : NodeObservation :=
  ⟨⟨some name, some [⟨"MemoryPressure", "True", none, none⟩]⟩, fun _ => ⟨⟨1⟩, ⟨0⟩, ⟨0⟩⟩⟩

/-- The pressure of `node-a` is reported once though `node-a1` was seen under pressure before it. -/
theorem node_alarms_edge_triggered_sample :
    (reconcile ⟨⟨1⟩⟩ "host" (activeAfter ⟨⟨1⟩⟩ "host" [samplePressure "node-a1"])
      (samplePressure "node-a") true).2.countP
        (·.nodeSignal = some ("node-a", "MemoryPressure")) = 1 := by
  have h := node_alarms_edge_triggered ⟨⟨1⟩⟩ "host" [samplePressure "node-a1"]
    (samplePressure "node-a") (by decide)
  refine (h.2.1 "MemoryPressure").trans ?_
  decide

end Ravn
