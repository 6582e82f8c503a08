import Ravn.K8s.Node
import Ravn.Theory.Watch

/-! The two watch loops of the cluster agents, over nodes and over core/v1 Events. Both take every
`InitApply` for part of the list at start-up, which is only remembered, and take no notice of a
`Delete`. An error of the stream comes before every further list and ends the loop, and with it the
process, which the cluster starts again. So what changed in the gap is remembered by the next process
and never reported, nor is the condition of a node that is deleted and made again. -/

namespace Ravn

open Theory

/-! ## Nodes -/

section

variable (agentId : AgentId) (host : String)

/-- One item of the stream in `node::run`, with what is published; an error ends the loop. -/
def nodeStep (active : Finset String) :
    WatchItem NodeObservation → Option (Finset String × List Message)
  | .error => none
  | .event (.initApply o) => some ((reconcile agentId host active o false).1, [])
  | .event (.apply o) => some (reconcile agentId host active o true)
  | .event _ => some (active, [])

/-- A message tells that a condition of the node is active. -/
def tellsNode (m : Message) (o : NodeObservation) (c : String) : Prop :=
  m.nodeSignal = some (o.node.nodeName host, c)

def isNode (nodeName : String) (p : NodeObservation) : Bool := p.node.nodeName host == nodeName

def sameNode (o : NodeObservation) : NodeObservation → Bool := isNode host (o.node.nodeName host)

/-- No node's name has a slash. -/
def PlainNames (items : List (WatchItem NodeObservation)) : Prop :=
  ∀ o ∈ items.filterMap WatchItem.sighting, '/' ∉ (o.node.nodeName host).toList

instance (items : List (WatchItem NodeObservation)) : Decidable (PlainNames host items) :=
  inferInstanceAs (Decidable (∀ o ∈ _, _))

end

/-- A condition is active, and was not in the last state of the node, if there is one. -/
def BecomesActive (last : Option NodeObservation) (o : NodeObservation) (c : String) : Prop :=
  c ∈ o.node.activeConditions ∧ ∀ p, last = some p → c ∉ p.node.activeConditions

/-- A state of a node in which the condition is active already. -/
def HidesCondition (p _o : NodeObservation) (c : String) : Prop := c ∈ p.node.activeConditions

section

variable {agentId : AgentId} {host : String}

theorem isNode_iff : isNode host n o = true ↔ o.node.nodeName host = n := beq_iff_eq

/-- A key that is there was active when its node was last seen. -/
theorem of_nodeKey_mem_watchState {items : List (WatchItem NodeObservation)} (hc : '/' ∉ c.toList)
    (h : nodeKey n c ∈ watchState (nodeStep agentId host) ∅ items) :
    ∃ p, recalled (isNode host n) items = some p ∧ c ∈ p.node.activeConditions := by
  induction items using List.reverseRecOn with
  | nil => exact absurd h (Finset.notMem_empty _)
  | append_singleton items i ih =>
    rw [watchState_snoc] at h
    rw [recalled_snoc]
    have hseen : ∀ o emit, nodeKey n c ∈ (reconcile agentId host
        (watchState (nodeStep agentId host) ∅ items) o emit).1 →
        ∃ p, (if isNode host n o then some o else recalled (isNode host n) items) = some p ∧
          c ∈ p.node.activeConditions := by
      intro o emit ho
      obtain ⟨hname, hactive⟩ | ⟨hname, hmem⟩ := of_nodeKey_mem_reconcile hc ho
      · exact ⟨o, if_pos (isNode_iff.mpr hname), hactive⟩
      · rw [if_neg (mt isNode_iff.mp hname)]
        exact ih hmem
    cases i with
    | error => exact absurd h (Finset.notMem_empty _)
    | event e =>
      cases e with
      | apply o => exact hseen o true h
      | initApply o => exact hseen o false h
      | delete | init | initDone => exact ih h

theorem PlainNames.of_append (h : PlainNames host (items ++ later)) : PlainNames host items :=
  fun o ho => h o (by rw [List.filterMap_append]; exact List.mem_append_left _ ho)

theorem PlainNames.of_mem (h : PlainNames host items) (hi : i ∈ items) (ho : i.sighting = some o) :
    '/' ∉ (o.node.nodeName host).toList :=
  h o (List.mem_filterMap.mpr ⟨i, hi, ho⟩)

/-- A condition that was active when its node was last seen has its key. -/
theorem nodeKey_mem_watchState {items : List (WatchItem NodeObservation)}
    (hnames : PlainNames host items) (hn : '/' ∉ n.toList)
    (h : recalled (isNode host n) items = some p) (hc : c ∈ p.node.activeConditions) :
    nodeKey n c ∈ watchState (nodeStep agentId host) ∅ items := by
  induction items using List.reverseRecOn with
  | nil => cases h
  | append_singleton items i ih =>
    rw [recalled_snoc] at h
    rw [watchState_snoc]
    have ih := ih hnames.of_append
    have hseen : ∀ o emit, '/' ∉ (o.node.nodeName host).toList →
        (if isNode host n o then some o else recalled (isNode host n) items) = some p →
        nodeKey n c ∈ (reconcile agentId host
          (watchState (nodeStep agentId host) ∅ items) o emit).1 := by
      intro o emit ho hp
      rw [nodeKey_mem_reconcile ho hn]
      by_cases hname : o.node.nodeName host = n
      · rw [if_pos (isNode_iff.mpr hname)] at hp
        cases hp
        rwa [if_pos hname]
      · rw [if_neg (mt isNode_iff.mp hname)] at hp
        rw [if_neg hname]
        exact ih hp
    cases i with
    | error => cases h
    | event e =>
      have hmem : .event e ∈ items ++ [WatchItem.event e] := List.mem_append_right _ List.mem_cons_self
      cases e with
      | apply o => exact hseen o true (hnames.of_mem hmem rfl) h
      | initApply o => exact hseen o false (hnames.of_mem hmem rfl) h
      | delete | init | initDone => exact ih h

variable (agentId host) in
/-- A condition that an `apply` shows is published once if its key was not there, and not otherwise. -/
theorem nodeStep_apply_count (active : Finset String) (o : NodeObservation) (c : String) :
    (restarting (nodeStep agentId host) ∅ active (.event (.apply o))).2.countP
        (·.nodeSignal = some (o.node.nodeName host, c)) =
      if c ∈ o.node.activeConditions ∧ nodeKey (o.node.nodeName host) c ∉ active then 1 else 0 :=
  countP_reconcile c

theorem node_losesNone {items : List (WatchItem NodeObservation)}
    (h : NoneHidden (sameNode host) BecomesActive HidesCondition items) :
    LosesNone (sameNode host) BecomesActive (nodeStep agentId host) ∅ (tellsNode host) items := by
  apply h.losesNone
  · exact fun p o c hraises => ⟨⟨hraises.1, nofun⟩, hraises.2 p rfl⟩
  · intro pre o c hraises hrecalled
    have hkey : nodeKey (o.node.nodeName host) c ∉ watchState (nodeStep agentId host) ∅ pre := by
      intro hmem
      obtain ⟨p, hp, hc⟩ := of_nodeKey_mem_watchState (slash_notMem_of_active hraises.1) hmem
      exact hrecalled p hp hc
    have hcount := nodeStep_apply_count agentId host
      (watchState (nodeStep agentId host) ∅ pre) o c
    rw [if_pos ⟨hraises.1, hkey⟩] at hcount
    obtain ⟨m, hm, htells⟩ := List.countP_pos_iff.mp (hcount ▸ Nat.one_pos)
    have htells : m.nodeSignal = some (o.node.nodeName host, c) := by simpa using htells
    exact ⟨m, hm, htells⟩

theorem node_noneHidden {items : List (WatchItem NodeObservation)} (hnames : PlainNames host items)
    (h : LosesNone (sameNode host) BecomesActive (nodeStep agentId host) ∅ (tellsNode host) items) :
    NoneHidden (sameNode host) BecomesActive HidesCondition items := by
  refine h.noneHidden (fun _ _ => rfl) ?_
  intro pre o post p c hitems hrecalled hactive m hm htells
  subst hitems
  have ho : '/' ∉ (o.node.nodeName host).toList :=
    hnames.of_mem (List.mem_append_right pre List.mem_cons_self) rfl
  have hmem : nodeKey (o.node.nodeName host) c ∈ watchState (nodeStep agentId host) ∅ pre :=
    nodeKey_mem_watchState hnames.of_append ho hrecalled hactive
  have hcount := nodeStep_apply_count agentId host
    (watchState (nodeStep agentId host) ∅ pre) o c
  rw [if_neg fun hnew => hnew.2 hmem, List.countP_eq_zero] at hcount
  exact hcount m hm (decide_eq_true htells)

end

/-! ## Events -/

/-- An Event of core/v1 as it is seen, with what is drawn for its message. -/
structure KubeSighting where
  ev : KubeEvent
  draw : MessageDraw

/-- The last count seen of each uid. -/
abbrev SeenCounts := String → Option Int32

def KubeEvent.countOrZero (ev : KubeEvent) : Int32 := ev.count.getD 0

def SeenCounts.insert (seen : SeenCounts) (uid : String) (count : Int32) : SeenCounts :=
  fun k => if k = uid then some count else seen k

def remember (seen : SeenCounts) (ev : KubeEvent) : SeenCounts :=
  match ev.uid with
  | some k => seen.insert k ev.countOrZero
  | none => seen

def isNewOrChanged (seen : SeenCounts) (ev : KubeEvent) : Bool × SeenCounts :=
  match ev.uid with
  | none => (true, seen)
  | some k =>
    (match seen k with
      | some prev => prev != ev.countOrZero
      | none => true, seen.insert k ev.countOrZero)

/-- Nothing seen yet. -/
def SeenCounts.new : SeenCounts := fun _ => none

section

variable (agentId : AgentId) (host : String)

/-- One item of the stream in `watcher::run`, with what is published; an error ends the loop. -/
def kubeEventStep (seen : SeenCounts) :
    WatchItem KubeSighting → Option (SeenCounts × List Message)
  | .error => none
  | .event (.initApply s) => some (remember seen s.ev, [])
  | .event (.apply s) =>
    let r := isNewOrChanged seen s.ev
    some (r.2, if r.1 then (eventToMessage s.ev agentId host s.draw).toList else [])
  | .event _ => some (seen, [])

/-- An Event that is worth a message is new, or its count advanced since its last state. -/
def NewOrAdvanced (last : Option KubeSighting) (s : KubeSighting) (_ : Unit) : Prop :=
  (eventToMessage s.ev agentId host s.draw).isSome ∧
    ∀ p, last = some p → p.ev.countOrZero < s.ev.countOrZero

def tellsKubeEvent (m : Message) (s : KubeSighting) (_ : Unit) : Prop :=
  eventToMessage s.ev agentId host s.draw = some m

end

def hasUid (k : String) (p : KubeSighting) : Bool := p.ev.uid == some k

/-- Events without a uid are never the same. -/
def sameKubeEvent (s : KubeSighting) : KubeSighting → Bool :=
  match s.ev.uid with
  | some k => hasUid k
  | none => fun _ => false

/-- A state of an Event with the same count. -/
def HidesCount (p s : KubeSighting) (_ : Unit) : Prop := p.ev.countOrZero = s.ev.countOrZero

section

variable {agentId : AgentId} {host : String}

theorem remember_eq (seen : SeenCounts) (ev : KubeEvent) :
    remember seen ev = (isNewOrChanged seen ev).2 := by
  unfold remember isNewOrChanged
  cases ev.uid with
  | none => rfl
  | some k => rfl

/-- The counts are those at which the Events were last seen. -/
theorem watchState_kubeEventStep (items : List (WatchItem KubeSighting)) (k : String) :
    watchState (kubeEventStep agentId host) .new items k =
      (recalled (hasUid k) items).map (·.ev.countOrZero) := by
  induction items using List.reverseRecOn with
  | nil => rfl
  | append_singleton items i ih =>
    have hseen : ∀ s : KubeSighting,
        (isNewOrChanged (watchState (kubeEventStep agentId host) .new items) s.ev).2 k =
          (if hasUid k s then some s else recalled (hasUid k) items).map (·.ev.countOrZero) := by
      intro s
      unfold isNewOrChanged
      cases huid : s.ev.uid with
      | none => simpa [hasUid, huid] using ih
      | some k' =>
        by_cases hk : k = k'
        · simp [SeenCounts.insert, hasUid, huid, hk]
        · simpa [SeenCounts.insert, hasUid, huid, hk, Ne.symm hk] using ih
    rw [watchState_snoc, recalled_snoc]
    cases i with
    | error => rfl
    | event e =>
      cases e with
      | apply s => exact hseen s
      | initApply s => exact (congrFun (remember_eq _ s.ev) k).trans (hseen s)
      | delete | init | initDone => exact ih

variable (agentId host) in
/-- An Event counts as new unless it was last seen with the same count. -/
theorem isNewOrChanged_watchState (items : List (WatchItem KubeSighting)) (s : KubeSighting) :
    (isNewOrChanged (watchState (kubeEventStep agentId host) .new items) s.ev).1 = true ↔
      ∀ p, recalled (sameKubeEvent s) items = some p → ¬HidesCount p s () := by
  unfold isNewOrChanged sameKubeEvent HidesCount
  cases s.ev.uid with
  | none =>
    have hnever : recalled (fun _ => false) items = none := by
      induction items using List.reverseRecOn with
      | nil => rfl
      | append_singleton items i ih =>
        rw [recalled_snoc]
        cases i with
        | error => rfl
        | event e => cases e <;> exact ih
    simp [hnever]
  | some k =>
    simp only [watchState_kubeEventStep]
    cases recalled (hasUid k) items with
    | none => simp
    | some p => simp

theorem kubeEvent_losesNone_iff {items : List (WatchItem KubeSighting)} :
    LosesNone sameKubeEvent (NewOrAdvanced agentId host) (kubeEventStep agentId host) .new
        (tellsKubeEvent agentId host) items ↔
      NoneHidden sameKubeEvent (NewOrAdvanced agentId host) HidesCount items := by
  constructor
  · intro h
    refine h.noneHidden (fun _ _ => rfl) ?_
    intro pre s post p _ _ hrecalled hcount m hm _
    have hold := mt (isNewOrChanged_watchState agentId host pre s).mp
      fun hnew => hnew p hrecalled hcount
    simp [restarting, kubeEventStep, hold] at hm
  · intro h
    apply h.losesNone
    · intro p s u hraises
      have hlt : p.ev.countOrZero < s.ev.countOrZero := hraises.2 p rfl
      refine ⟨⟨hraises.1, fun q hq => absurd hq nofun⟩, fun hcount => ?_⟩
      have hcount : p.ev.countOrZero = s.ev.countOrZero := hcount
      rw [hcount] at hlt
      exact Int32.lt_irrefl hlt
    · intro pre s u hraises hrecalled
      obtain ⟨m, hm⟩ := Option.isSome_iff_exists.mp hraises.1
      have hnew := (isNewOrChanged_watchState agentId host pre s).mpr hrecalled
      exact ⟨m, by simp [restarting, kubeEventStep, hnew, hm], hm⟩

end

/-- Over any streams and restarts, each watch loop publishes every change that follows the first complete
list, if no later list is the first to show one and no object that was deleted is made again with the
alarm that the process last saw of it. For the Events, and for nodes whose names have no slash, the
condition is exact. -/
theorem reconnect_loses_none_iff (agentId : AgentId) (host : String)
    (nodeItems : List (WatchItem NodeObservation)) (kubeItems : List (WatchItem KubeSighting)) :
    (NoneHidden (sameNode host) BecomesActive HidesCondition nodeItems →
      LosesNone (sameNode host) BecomesActive (nodeStep agentId host) ∅ (tellsNode host) nodeItems) ∧
    (PlainNames host nodeItems →
      (LosesNone (sameNode host) BecomesActive (nodeStep agentId host) ∅ (tellsNode host) nodeItems ↔
        NoneHidden (sameNode host) BecomesActive HidesCondition nodeItems)) ∧
    (LosesNone sameKubeEvent (NewOrAdvanced agentId host) (kubeEventStep agentId host) .new
        (tellsKubeEvent agentId host) kubeItems ↔
      NoneHidden sameKubeEvent (NewOrAdvanced agentId host) HidesCount kubeItems) :=
  ⟨node_losesNone, fun hnames => ⟨node_noneHidden hnames, node_losesNone⟩, kubeEvent_losesNone_iff⟩

/-! ## Sample streams -/

/-- A node without conditions that are active. -/
def sampleHealthy (name : String) : NodeObservation :=
  ⟨⟨some name, some [⟨"MemoryPressure", "False", none, none⟩]⟩, fun _ => ⟨⟨1⟩, ⟨0⟩, ⟨0⟩⟩⟩

/-- A node is deleted under pressure and registers again under pressure. -/
def sampleRemade : List (WatchItem NodeObservation) :=
  [.event .init, .event (.initApply (sampleHealthy "node-a")), .event .initDone,
    .event (.apply (samplePressure "node-a")), .event (.delete (samplePressure "node-a")),
    .event (.apply (samplePressure "node-a"))]

/-- A node comes under pressure while the connection is down, and then another one. -/
def sampleNodeGap : List (WatchItem NodeObservation) :=
  [.event .init, .event (.initApply (sampleHealthy "node-a")), .event .initDone, .error,
    .event .init, .event (.initApply (samplePressure "node-a")), .event .initDone,
    .event (.apply (samplePressure "node-b"))]

/-- A back-off of a pod, recorded so many times. -/
def sampleBackOff (count : Int32) : KubeSighting :=
  ⟨⟨some "uid-1", some "BackOff", some "Warning", none, some count,
    ⟨some "web", some "Pod", some "api-0", none⟩, none, none⟩, ⟨⟨1⟩, ⟨0⟩, ⟨0⟩⟩⟩

/-- The count advances from 1 to 5 while the connection is down. -/
def sampleEventGap : List (WatchItem KubeSighting) :=
  [.event .init, .event (.initApply (sampleBackOff 1)), .event .initDone, .error,
    .event .init, .event (.initApply (sampleBackOff 5)), .event .initDone]

/-- A node is deleted while it is healthy, and registers again under pressure. -/
def sampleRegistered : List (WatchItem NodeObservation) :=
  [.event .init, .event (.initApply (sampleHealthy "node-a")), .event .initDone,
    .event (.delete (sampleHealthy "node-a")), .event (.apply (samplePressure "node-a"))]

theorem noneHidden_sampleRegistered :
    NoneHidden (sameNode "host") BecomesActive HidesCondition sampleRegistered where
  lists pre a post hitems hlisted := by
    unfold sampleRegistered at hitems
    match pre with
    | [] | [_] | [_, _] | [_, _, _] | [_, _, _, _] | [_, _, _, _, _] | _ :: _ :: _ :: _ :: _ :: _ :: _ =>
      cases hitems <;> simp [Listed] at hlisted
  remade pre a post p hitems hlisted hlast hrecalled c hraises hactive := by
    have hhealthy : (sampleHealthy "node-a").node.activeConditions = [] := by decide
    unfold sampleRegistered at hitems
    match pre with
    | [] | [_] | [_, _] | [_, _, _] | [_, _, _, _, _] | _ :: _ :: _ :: _ :: _ :: _ :: _ => cases hitems
    | [_, _, _, _] =>
      cases hitems
      cases hrecalled
      rw [HidesCondition, hhealthy] at hactive
      exact absurd hactive List.not_mem_nil

/-- Its pressure is published though the node is a known one. -/
theorem reconnect_loses_none_iff_sample :
    ∃ m ∈ (restarting (nodeStep ⟨⟨1⟩⟩ "host") ∅
        (watchState (nodeStep ⟨⟨1⟩⟩ "host") ∅ (sampleRegistered.take 4))
        (.event (.apply (samplePressure "node-a")))).2,
      tellsNode "host" m (samplePressure "node-a") "MemoryPressure" :=
  ((reconnect_loses_none_iff ⟨⟨1⟩⟩ "host" sampleRegistered []).2.1 (by decide)).mpr
    noneHidden_sampleRegistered (sampleRegistered.take 4) _ [] rfl
    (by simp [Listed, sampleRegistered]) _ _ rfl ⟨by decide, nofun⟩

/-- The second pressure of the remade node, and both changes in a gap, are remembered and never
published. -/
theorem reconnect_swallows :
    Delivered sampleRemade ∧
      ¬LosesNone (sameNode "host") BecomesActive (nodeStep ⟨⟨1⟩⟩ "host") ∅ (tellsNode "host")
        sampleRemade ∧
      Delivered sampleNodeGap ∧
      ¬LosesNone (sameNode "host") BecomesActive (nodeStep ⟨⟨1⟩⟩ "host") ∅ (tellsNode "host")
        sampleNodeGap ∧
      Delivered sampleEventGap ∧
      ¬LosesNone sameKubeEvent (NewOrAdvanced ⟨⟨1⟩⟩ "host") (kubeEventStep ⟨⟨1⟩⟩ "host") .new
        (tellsKubeEvent ⟨⟨1⟩⟩ "host") sampleEventGap := by
  have hpressure : "MemoryPressure" ∈ (samplePressure "node-a").node.activeConditions := by decide
  have hhealthy : "MemoryPressure" ∉ (sampleHealthy "node-a").node.activeConditions := by decide
  refine ⟨rfl, ?_, rfl, ?_, rfl, ?_⟩
  · intro h
    exact (node_noneHidden (by decide) h).remade (sampleRemade.take 5) (samplePressure "node-a") []
      (samplePressure "node-a") rfl (by simp [Listed, sampleRemade]) rfl rfl "MemoryPressure"
      ⟨hpressure, nofun⟩ hpressure
  · intro h
    refine (node_noneHidden (by decide) h).lists (sampleNodeGap.take 5) (samplePressure "node-a") _
      rfl (by simp [Listed, sampleNodeGap]) "MemoryPressure" ⟨hpressure, ?_⟩
    rintro p ⟨⟩
    exact hhealthy
  · intro h
    refine (kubeEvent_losesNone_iff.mp h).lists (sampleEventGap.take 5) (sampleBackOff 5) _ rfl
      (by simp [Listed, sampleEventGap]) () ⟨rfl, ?_⟩
    rintro p ⟨⟩
    decide

end Ravn
