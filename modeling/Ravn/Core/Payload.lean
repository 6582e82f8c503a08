import Ravn.Core.Event
import Ravn.Theory.Value

/-! The wire form of a payload: the tag `kind`, then the fields of the variant, the absent and the
empty ones left out, and after them the entries of its flattened map. A payload whose map keeps clear
of the other names is read back, as long as the reader's recursion limit allows its nesting
(`Payload.ofDoc_toJson`). -/

namespace Ravn

open Theory Doc

/-! ## The variants -/

namespace JournaldPayload

def fieldNames : List String := ["unit", "priority", "message"]

/-- The fields as they are written. -/
def members (p : JournaldPayload) : List (String × Json) :=
  (p.unit.toList.map fun unit => ("unit", Json.str unit)) ++
    (p.priority.toList.map fun priority => ("priority", Json.num priority.toNat)) ++
    [("message", Json.str p.message)]

def ofFields (fs : List (String × Doc)) (extra : Extra) : Option JournaldPayload := do
  some {
    unit := ← withDefault fs "unit" (asOption asStr) none
    priority := ← withDefault fs "priority" (asOption asU8) none
    message := ← required fs "message" asStr
    extra := extra }

theorem flattens : Flattens fieldNames members extra ofFields where
  nodup := by decide
  sublist p := by
    have hunit := map_fst_optional "unit" p.unit Json.str
    have hpriority := map_fst_optional "priority" p.priority fun n => .num n.toNat
    simp only [members, List.map_append]
    exact (hunit.append hpriority).append (.refl _)
  depth p := by
    have hunit := depth_optional "unit" p.unit (f := .str) fun _ => Nat.zero_le 1
    have hpriority := depth_optional "priority" p.priority (f := fun n => .num n.toNat) (n := 1)
      fun _ => by simp
    simp only [members, List.forall_mem_append]
    exact ⟨⟨hunit, hpriority⟩, by simp⟩
  inRange p := by simp [members, or_imp, forall_and]
  reads p := by
    rw [ofFields, withDefault_optional rfl asStr_str (o := p.unit) (by simp [members]),
      withDefault_optional rfl asU8_num (o := p.priority) (by simp [members])]
    simp [required, members]
  keeps h := by
    simp only [ofFields, Option.bind_eq_bind, Option.bind_eq_some_iff] at h
    obtain ⟨_, -, _, -, _, -, h⟩ := h
    cases h
    rfl

end JournaldPayload

namespace FailedUnitPayload

def fieldNames : List String := ["unit", "result", "recent_log"]

def members (p : FailedUnitPayload) : List (String × Json) :=
  [("unit", Json.str p.unit), ("result", Json.str p.result)] ++
    (if p.recentLog = [] then [] else [("recent_log", Json.arr (p.recentLog.map Json.str))])

def ofFields (fs : List (String × Doc)) (extra : Extra) : Option FailedUnitPayload := do
  some {
    unit := ← required fs "unit" asStr
    result := ← required fs "result" asStr
    recentLog := ← withDefault fs "recent_log" (asList asStr) []
    extra := extra }

theorem flattens : Flattens fieldNames members extra ofFields where
  nodup := by decide
  sublist p := by
    have hlog := map_fst_unless_nil "recent_log" p.recentLog Json.str
    simp only [members, List.map_append]
    exact List.Sublist.append (.refl _) hlog
  depth p := by
    have hlog := depth_unless_nil "recent_log" p.recentLog (g := .str) fun _ => Nat.le_refl 0
    simp only [members, List.forall_mem_append]
    exact ⟨by simp, hlog⟩
  inRange p := by simp [members, or_imp, forall_and]
  reads p := by
    rw [ofFields, withDefault_list asStr_str (l := p.recentLog) (by simp [members])]
    simp [required, members]
  keeps h := by
    simp only [ofFields, Option.bind_eq_bind, Option.bind_eq_some_iff] at h
    obtain ⟨_, -, _, -, _, -, h⟩ := h
    cases h
    rfl

end FailedUnitPayload

namespace ConfigDriftPayload

def fieldNames : List String := ["path", "old_hash", "new_hash", "diff"]

def members (p : ConfigDriftPayload) : List (String × Json) :=
  [("path", Json.str p.path)] ++ (p.oldHash.toList.map fun hash => ("old_hash", Json.str hash)) ++
    [("new_hash", Json.str p.newHash)] ++ (p.diff.toList.map fun diff => ("diff", Json.str diff))

def ofFields (fs : List (String × Doc)) (extra : Extra) : Option ConfigDriftPayload := do
  some {
    path := ← required fs "path" asStr
    oldHash := ← withDefault fs "old_hash" (asOption asStr) none
    newHash := ← required fs "new_hash" asStr
    diff := ← withDefault fs "diff" (asOption asStr) none
    extra := extra }

theorem flattens : Flattens fieldNames members extra ofFields where
  nodup := by decide
  sublist p := by
    have hhash := map_fst_optional "old_hash" p.oldHash Json.str
    have hdiff := map_fst_optional "diff" p.diff Json.str
    simp only [members, List.map_append]
    exact ((List.Sublist.append (.refl _) hhash).append (.refl _)).append hdiff
  depth p := by
    have hhash := depth_optional "old_hash" p.oldHash (f := .str) fun _ => Nat.zero_le 1
    have hdiff := depth_optional "diff" p.diff (f := .str) fun _ => Nat.zero_le 1
    simp only [members, List.forall_mem_append]
    exact ⟨⟨⟨by simp, hhash⟩, by simp⟩, hdiff⟩
  inRange p := by simp [members, or_imp, forall_and]
  reads p := by
    rw [ofFields, withDefault_optional rfl asStr_str (o := p.oldHash) (by simp [members]),
      withDefault_optional rfl asStr_str (o := p.diff) (by simp [members])]
    simp [required, members]
  keeps h := by
    simp only [ofFields, Option.bind_eq_bind, Option.bind_eq_some_iff] at h
    obtain ⟨_, -, _, -, _, -, _, -, h⟩ := h
    cases h
    rfl

end ConfigDriftPayload

namespace AuthPayload

def fieldNames : List String := ["action", "user", "remote_addr", "succeeded"]

def members (p : AuthPayload) : List (String × Json) :=
  [("action", Json.str p.action)] ++ (p.user.toList.map fun user => ("user", Json.str user)) ++
    (p.remoteAddr.toList.map fun addr => ("remote_addr", Json.str addr)) ++
    [("succeeded", Json.bool p.succeeded)]

def ofFields (fs : List (String × Doc)) (extra : Extra) : Option AuthPayload := do
  some {
    action := ← required fs "action" asStr
    user := ← withDefault fs "user" (asOption asStr) none
    remoteAddr := ← withDefault fs "remote_addr" (asOption asStr) none
    succeeded := ← required fs "succeeded" asBool
    extra := extra }

theorem flattens : Flattens fieldNames members extra ofFields where
  nodup := by decide
  sublist p := by
    have huser := map_fst_optional "user" p.user Json.str
    have haddr := map_fst_optional "remote_addr" p.remoteAddr Json.str
    simp only [members, List.map_append]
    exact ((List.Sublist.append (.refl _) huser).append haddr).append (.refl _)
  depth p := by
    have huser := depth_optional "user" p.user (f := .str) fun _ => Nat.zero_le 1
    have haddr := depth_optional "remote_addr" p.remoteAddr (f := .str) fun _ => Nat.zero_le 1
    simp only [members, List.forall_mem_append]
    exact ⟨⟨⟨by simp, huser⟩, haddr⟩, by simp⟩
  inRange p := by simp [members, or_imp, forall_and]
  reads p := by
    rw [ofFields, withDefault_optional rfl asStr_str (o := p.user) (by simp [members]),
      withDefault_optional rfl asStr_str (o := p.remoteAddr) (by simp [members])]
    simp [required, members]
  keeps h := by
    simp only [ofFields, Option.bind_eq_bind, Option.bind_eq_some_iff] at h
    obtain ⟨_, -, _, -, _, -, _, -, h⟩ := h
    cases h
    rfl

end AuthPayload

namespace UpdatePayload

def fieldNames : List String := ["mechanism", "from", "to", "changes"]

def members (p : UpdatePayload) : List (String × Json) :=
  [("mechanism", Json.str p.mechanism)] ++
    (p.from_.toList.map fun version => ("from", Json.str version)) ++
    (p.to_.toList.map fun version => ("to", Json.str version)) ++
    (if p.changes = [] then [] else [("changes", Json.arr (p.changes.map Json.str))])

def ofFields (fs : List (String × Doc)) (extra : Extra) : Option UpdatePayload := do
  some {
    mechanism := ← required fs "mechanism" asStr
    from_ := ← withDefault fs "from" (asOption asStr) none
    to_ := ← withDefault fs "to" (asOption asStr) none
    changes := ← withDefault fs "changes" (asList asStr) []
    extra := extra }

theorem flattens : Flattens fieldNames members extra ofFields where
  nodup := by decide
  sublist p := by
    have hfrom := map_fst_optional "from" p.from_ Json.str
    have hto := map_fst_optional "to" p.to_ Json.str
    have hchanges := map_fst_unless_nil "changes" p.changes Json.str
    simp only [members, List.map_append]
    exact ((List.Sublist.append (.refl _) hfrom).append hto).append hchanges
  depth p := by
    have hfrom := depth_optional "from" p.from_ (f := .str) fun _ => Nat.zero_le 1
    have hto := depth_optional "to" p.to_ (f := .str) fun _ => Nat.zero_le 1
    have hchanges := depth_unless_nil "changes" p.changes (g := .str) fun _ => Nat.le_refl 0
    simp only [members, List.forall_mem_append]
    exact ⟨⟨⟨by simp, hfrom⟩, hto⟩, hchanges⟩
  inRange p := by simp [members, or_imp, forall_and]
  reads p := by
    rw [ofFields, withDefault_optional rfl asStr_str (o := p.from_) (by simp [members]),
      withDefault_optional rfl asStr_str (o := p.to_) (by simp [members]),
      withDefault_list asStr_str (l := p.changes) (by simp [members])]
    simp [required, members]
  keeps h := by
    simp only [ofFields, Option.bind_eq_bind, Option.bind_eq_some_iff] at h
    obtain ⟨_, -, _, -, _, -, _, -, h⟩ := h
    cases h
    rfl

end UpdatePayload

namespace KubeWorkloadPayload

def fieldNames : List String :=
  ["namespace", "object_kind", "name", "reason", "message", "count", "container"]

def members (p : KubeWorkloadPayload) : List (String × Json) :=
  [("namespace", Json.str p.namespace)] ++
    (if p.objectKind = "" then [] else [("object_kind", Json.str p.objectKind)]) ++
    [("name", Json.str p.name), ("reason", Json.str p.reason)] ++
    (p.message.toList.map fun message => ("message", Json.str message)) ++
    (p.count.toList.map fun count => ("count", Json.num count.toNat)) ++
    (p.container.toList.map fun container => ("container", Json.str container))

def ofFields (fs : List (String × Doc)) (extra : Extra) : Option KubeWorkloadPayload := do
  some {
    «namespace» := ← required fs "namespace" asStr
    objectKind := ← withDefault fs "object_kind" asStr ""
    name := ← required fs "name" asStr
    reason := ← required fs "reason" asStr
    message := ← withDefault fs "message" (asOption asStr) none
    count := ← withDefault fs "count" (asOption asU32) none
    container := ← withDefault fs "container" (asOption asStr) none
    extra := extra }

theorem flattens : Flattens fieldNames members extra ofFields where
  nodup := by decide
  sublist p := by
    have hkind := map_fst_unless_empty "object_kind" p.objectKind
    have hmessage := map_fst_optional "message" p.message Json.str
    have hcount := map_fst_optional "count" p.count fun n => .num n.toNat
    have hcontainer := map_fst_optional "container" p.container Json.str
    simp only [members, List.map_append]
    exact (((((List.Sublist.refl _).append hkind).append (.refl _)).append hmessage).append
      hcount).append hcontainer
  depth p := by
    have hkind := depth_unless_empty "object_kind" p.objectKind (n := 1)
    have hmessage := depth_optional "message" p.message (f := .str) fun _ => Nat.zero_le 1
    have hcount := depth_optional "count" p.count (f := fun n => .num n.toNat) (n := 1)
      fun _ => by simp
    have hcontainer := depth_optional "container" p.container (f := .str) fun _ => Nat.zero_le 1
    simp only [members, List.forall_mem_append]
    exact ⟨⟨⟨⟨⟨by simp, hkind⟩, by simp⟩, hmessage⟩, hcount⟩, hcontainer⟩
  inRange p := by simp [members, or_imp, forall_and]
  reads p := by
    rw [ofFields, withDefault_str (s := p.objectKind) (by simp [members]),
      withDefault_optional rfl asStr_str (o := p.message) (by simp [members]),
      withDefault_optional rfl asU32_num (o := p.count) (by simp [members]),
      withDefault_optional rfl asStr_str (o := p.container) (by simp [members])]
    simp [required, members]
  keeps h := by
    simp only [ofFields, Option.bind_eq_bind, Option.bind_eq_some_iff] at h
    obtain ⟨_, -, _, -, _, -, _, -, _, -, _, -, _, -, h⟩ := h
    cases h
    rfl

end KubeWorkloadPayload

namespace KubeNodePayload

def fieldNames : List String := ["node", "condition", "message"]

def members (p : KubeNodePayload) : List (String × Json) :=
  [("node", Json.str p.node), ("condition", Json.str p.condition)] ++
    (p.message.toList.map fun message => ("message", Json.str message))

def ofFields (fs : List (String × Doc)) (extra : Extra) : Option KubeNodePayload := do
  some {
    node := ← required fs "node" asStr
    condition := ← required fs "condition" asStr
    message := ← withDefault fs "message" (asOption asStr) none
    extra := extra }

theorem flattens : Flattens fieldNames members extra ofFields where
  nodup := by decide
  sublist p := by
    have hmessage := map_fst_optional "message" p.message Json.str
    simp only [members, List.map_append]
    exact List.Sublist.append (.refl _) hmessage
  depth p := by
    have hmessage := depth_optional "message" p.message (f := .str) fun _ => Nat.zero_le 1
    simp only [members, List.forall_mem_append]
    exact ⟨by simp, hmessage⟩
  inRange p := by simp [members, or_imp, forall_and]
  reads p := by
    rw [ofFields, withDefault_optional rfl asStr_str (o := p.message) (by simp [members])]
    simp [required, members]
  keeps h := by
    simp only [ofFields, Option.bind_eq_bind, Option.bind_eq_some_iff] at h
    obtain ⟨_, -, _, -, _, -, h⟩ := h
    cases h
    rfl

end KubeNodePayload

namespace CircuitBreakerTripPayload

def fieldNames : List String := ["host", "template_id"]

def members (p : CircuitBreakerTripPayload) : List (String × Json) :=
  [("host", Json.str p.host), ("template_id", Json.str p.templateId)]

def ofFields (fs : List (String × Doc)) : Option CircuitBreakerTripPayload := do
  some ⟨← required fs "host" asStr, ← required fs "template_id" asStr⟩

end CircuitBreakerTripPayload

/-! ## The enum -/

namespace Payload

def fieldNames : Payload → List String
  | journald _ => JournaldPayload.fieldNames
  | failedUnit _ => FailedUnitPayload.fieldNames
  | configDrift _ => ConfigDriftPayload.fieldNames
  | auth _ => AuthPayload.fieldNames
  | update _ => UpdatePayload.fieldNames
  | kubeWorkload _ => KubeWorkloadPayload.fieldNames
  | kubeNode _ => KubeNodePayload.fieldNames
  | circuitBreakerTrip _ => CircuitBreakerTripPayload.fieldNames

def members : Payload → List (String × Json)
  | journald p => p.members
  | failedUnit p => p.members
  | configDrift p => p.members
  | auth p => p.members
  | update p => p.members
  | kubeWorkload p => p.members
  | kubeNode p => p.members
  | circuitBreakerTrip p => p.members

def extra : Payload → Extra
  | journald p => p.extra
  | failedUnit p => p.extra
  | configDrift p => p.extra
  | auth p => p.extra
  | update p => p.extra
  | kubeWorkload p => p.extra
  | kubeNode p => p.extra
  | circuitBreakerTrip _ => .empty

def toJson (p : Payload) : Json :=
  .obj (("kind", .str p.kindText) :: (p.members ++ p.extra.entries))

def ofVariant (variant : String) (content : Doc) : Option Payload :=
  match variant with
  | "journald" =>
    (content.ofFlattened JournaldPayload.fieldNames JournaldPayload.ofFields).map journald
  | "failed_unit" =>
    (content.ofFlattened FailedUnitPayload.fieldNames FailedUnitPayload.ofFields).map failedUnit
  | "config_drift" =>
    (content.ofFlattened ConfigDriftPayload.fieldNames ConfigDriftPayload.ofFields).map configDrift
  | "auth" => (content.ofFlattened AuthPayload.fieldNames AuthPayload.ofFields).map auth
  | "update" => (content.ofFlattened UpdatePayload.fieldNames UpdatePayload.ofFields).map update
  | "kube_workload" =>
    (content.ofFlattened KubeWorkloadPayload.fieldNames KubeWorkloadPayload.ofFields).map kubeWorkload
  | "kube_node" =>
    (content.ofFlattened KubeNodePayload.fieldNames KubeNodePayload.ofFields).map kubeNode
  | "circuit_breaker_trip" =>
    ((content.fields CircuitBreakerTripPayload.fieldNames).bind
      CircuitBreakerTripPayload.ofFields).map circuitBreakerTrip
  | _ => none

/-- Reads a payload inside so many open objects. The tag may stand anywhere, so all of the object is
kept, and its nesting counts. -/
def ofDoc (opened : Nat) (d : Doc) : Option Payload :=
  if opened + d.depth < recursionLimit then
    (d.tagged "kind").bind fun (variant, content) => ofVariant variant content
  else none

/-! ### Round trip -/

/-- No entry of the flattened map has the name of a declared field or of the tag. -/
def Disjoint (p : Payload) : Prop := ∀ e ∈ p.extra.entries, e.1 ∉ p.fieldNames ∧ e.1 ≠ "kind"

/-- The values of the flattened map are ones that serde_json can hold. -/
def ValuedExtra (p : Payload) : Prop := ∀ e ∈ p.extra.entries, e.2.IsValue

theorem members_sublist (p : Payload) : (p.members.map Prod.fst).Sublist p.fieldNames := by
  cases p with
  | journald p => exact JournaldPayload.flattens.sublist p
  | failedUnit p => exact FailedUnitPayload.flattens.sublist p
  | configDrift p => exact ConfigDriftPayload.flattens.sublist p
  | auth p => exact AuthPayload.flattens.sublist p
  | update p => exact UpdatePayload.flattens.sublist p
  | kubeWorkload p => exact KubeWorkloadPayload.flattens.sublist p
  | kubeNode p => exact KubeNodePayload.flattens.sublist p
  | circuitBreakerTrip p => exact .refl _

theorem members_depth (p : Payload) : ∀ m ∈ p.members, m.2.depth ≤ 1 := by
  cases p with
  | journald p => exact JournaldPayload.flattens.depth p
  | failedUnit p => exact FailedUnitPayload.flattens.depth p
  | configDrift p => exact ConfigDriftPayload.flattens.depth p
  | auth p => exact AuthPayload.flattens.depth p
  | update p => exact UpdatePayload.flattens.depth p
  | kubeWorkload p => exact KubeWorkloadPayload.flattens.depth p
  | kubeNode p => exact KubeNodePayload.flattens.depth p
  | circuitBreakerTrip p => simp [members, CircuitBreakerTripPayload.members]

theorem members_inRange (p : Payload) : ∀ m ∈ p.members, m.2.toDoc.inRange := by
  cases p with
  | journald p => exact JournaldPayload.flattens.inRange p
  | failedUnit p => exact FailedUnitPayload.flattens.inRange p
  | configDrift p => exact ConfigDriftPayload.flattens.inRange p
  | auth p => exact AuthPayload.flattens.inRange p
  | update p => exact UpdatePayload.flattens.inRange p
  | kubeWorkload p => exact KubeWorkloadPayload.flattens.inRange p
  | kubeNode p => exact KubeNodePayload.flattens.inRange p
  | circuitBreakerTrip p => simp [members, CircuitBreakerTripPayload.members]

theorem kind_not_mem_fieldNames (p : Payload) : "kind" ∉ p.fieldNames := by
  cases p <;> exact of_decide_eq_true rfl

theorem ofVariant_toDoc (p : Payload) (hapart : ∀ e ∈ p.extra.entries, e.1 ∉ p.fieldNames)
    (hvalues : Json.AreMembers p.extra.entries) :
    ofVariant p.kindText (Json.toDoc (.obj (p.members ++ p.extra.entries))) = some p := by
  cases p with
  | journald p =>
    have hread := JournaldPayload.flattens.ofFlattened_toDoc p hapart hvalues
    exact congrArg (Option.map journald) hread
  | failedUnit p =>
    have hread := FailedUnitPayload.flattens.ofFlattened_toDoc p hapart hvalues
    exact congrArg (Option.map failedUnit) hread
  | configDrift p =>
    have hread := ConfigDriftPayload.flattens.ofFlattened_toDoc p hapart hvalues
    exact congrArg (Option.map configDrift) hread
  | auth p =>
    have hread := AuthPayload.flattens.ofFlattened_toDoc p hapart hvalues
    exact congrArg (Option.map auth) hread
  | update p =>
    have hread := UpdatePayload.flattens.ofFlattened_toDoc p hapart hvalues
    exact congrArg (Option.map update) hread
  | kubeWorkload p =>
    have hread := KubeWorkloadPayload.flattens.ofFlattened_toDoc p hapart hvalues
    exact congrArg (Option.map kubeWorkload) hread
  | kubeNode p =>
    have hread := KubeNodePayload.flattens.ofFlattened_toDoc p hapart hvalues
    exact congrArg (Option.map kubeNode) hread
  | circuitBreakerTrip p =>
    have hfields : fields CircuitBreakerTripPayload.fieldNames (Json.toDoc (.obj p.members)) =
        some (Json.toMembers p.members) := fields_of_sublist (by decide) (.refl _)
    have hread : (fields CircuitBreakerTripPayload.fieldNames (Json.toDoc (.obj p.members))).bind
        CircuitBreakerTripPayload.ofFields = some p := by
      rw [hfields, Option.bind_some]
      simp [CircuitBreakerTripPayload.ofFields, CircuitBreakerTripPayload.members, required]
    exact congrArg (Option.map circuitBreakerTrip) hread

/-- A payload whose flattened map keeps clear of the other names is read back, unless it is nested
too deep. -/
theorem ofDoc_toJson (p : Payload) (hdisjoint : p.Disjoint) (hvalues : p.ValuedExtra) (opened : Nat) :
    ofDoc opened p.toJson.toDoc =
      if opened + p.toJson.depth < recursionLimit then some p else none := by
  have hkind : ∀ m ∈ p.members ++ p.extra.entries, m.1 ≠ "kind" := by
    intro m hm
    rcases List.mem_append.mp hm with hm | hm
    · rintro heq
      exact p.kind_not_mem_fieldNames (heq ▸ p.members_sublist.subset (List.mem_map_of_mem hm))
    · exact (hdisjoint m hm).2
  have hread := p.ofVariant_toDoc (fun e he => (hdisjoint e he).1) (Json.areMembers_iff.mpr hvalues)
  have hrange : ∀ m ∈ p.members ++ p.extra.entries, m.2.toDoc.inRange :=
    List.forall_mem_append.mpr ⟨p.members_inRange, fun e he => inRange_toDoc e.2 (hvalues e he)⟩
  rw [ofDoc, Json.depth]
  split
  · rw [toJson, tagged_cons hkind hrange, Option.bind_some]
    exact hread
  · rfl

/-- How deep a payload is nested is a matter of its flattened map. -/
theorem depth_toJson_le (p : Payload) :
    p.toJson.depth ≤ n + 2 ↔ ∀ e ∈ p.extra.entries, e.2.depth ≤ n + 1 := by
  have hmembers : ∀ m ∈ p.members, m.2.depth ≤ n + 1 :=
    fun m hm => (p.members_depth m hm).trans (Nat.le_add_left 1 n)
  have hall : p.toJson.depth ≤ n + 2 ↔
      ∀ m ∈ ("kind", Json.str p.kindText) :: (p.members ++ p.extra.entries), m.2.depth ≤ n + 1 := by
    rw [toJson, Json.depth, Json.toDoc, toMembers_eq_map]
    refine depth_obj_le.trans ?_
    rw [List.forall_mem_map]
    rfl
  rw [hall, List.forall_mem_cons, List.forall_mem_append]
  exact ⟨fun h => h.2.2, fun h => ⟨Nat.zero_le _, hmembers, h⟩⟩

theorem ofVariant_cases {p : Payload} (h : ofVariant variant content = some p) :
    p.extra.entries = [] ∨ ∃ ms, content = .obj ms ∧ ∀ e ∈ p.extra.entries,
      e.1 ∉ p.fieldNames ∧ ∃ m ∈ ms, m.1 = e.1 ∧ e.2.depth ≤ m.2.depth := by
  unfold ofVariant at h
  split at h
  · obtain ⟨p, hp, rfl⟩ := Option.map_eq_some_iff.mp h
    exact .inr (JournaldPayload.flattens.of_ofFlattened hp)
  · obtain ⟨p, hp, rfl⟩ := Option.map_eq_some_iff.mp h
    exact .inr (FailedUnitPayload.flattens.of_ofFlattened hp)
  · obtain ⟨p, hp, rfl⟩ := Option.map_eq_some_iff.mp h
    exact .inr (ConfigDriftPayload.flattens.of_ofFlattened hp)
  · obtain ⟨p, hp, rfl⟩ := Option.map_eq_some_iff.mp h
    exact .inr (AuthPayload.flattens.of_ofFlattened hp)
  · obtain ⟨p, hp, rfl⟩ := Option.map_eq_some_iff.mp h
    exact .inr (UpdatePayload.flattens.of_ofFlattened hp)
  · obtain ⟨p, hp, rfl⟩ := Option.map_eq_some_iff.mp h
    exact .inr (KubeWorkloadPayload.flattens.of_ofFlattened hp)
  · obtain ⟨p, hp, rfl⟩ := Option.map_eq_some_iff.mp h
    exact .inr (KubeNodePayload.flattens.of_ofFlattened hp)
  · obtain ⟨p, -, rfl⟩ := Option.map_eq_some_iff.mp h
    exact .inl rfl
  · cases h

/-- A payload that was read keeps its flattened map clear of the other names, and nested so little
that it is read again. -/
theorem of_ofDoc {p : Payload} (h : ofDoc opened d = some p) :
    p.Disjoint ∧ ∀ e ∈ p.extra.entries, opened + 1 + e.2.depth < recursionLimit := by
  unfold ofDoc at h
  split at h
  · rename_i hdepth
    obtain ⟨⟨variant, content⟩, htag, hp⟩ := Option.bind_eq_some_iff.mp h
    rcases ofVariant_cases hp with hempty | ⟨ms, rfl, hentries⟩
    · rw [Disjoint, hempty]
      exact ⟨fun e he => absurd he (List.not_mem_nil), fun e he => absurd he (List.not_mem_nil)⟩
    obtain ⟨ns, rfl, hns⟩ := of_tagged htag
    refine ⟨fun e he => ?_, fun e he => ?_⟩
    · obtain ⟨hname, m, hm, hkey, -⟩ := hentries e he
      exact ⟨hname, hkey ▸ (hns m hm).2⟩
    · obtain ⟨-, m, hm, -, hle⟩ := hentries e he
      have hin := depthOfMembers_le.mp (Nat.le_refl _) m (hns m hm).1
      rw [depth] at hdepth
      omega
  · cases h

end Payload

end Ravn
