import Ravn.Core.Message
import Ravn.Crypto.Envelope
import Ravn.Server.EventField
import Ravn.Theory.JsonPath

/-! The typed accessor beside the document that it spares. On every recognised path the two have the
same string, unless a workload does not name the kind of its object: the document then leaves the
field out, and the accessor has the empty string for it (`event_field_agrees_iff`). -/

namespace Ravn

open Theory

/-- No entry of the flattened map has the last name of a recognised path. -/
def Payload.ClearOfPaths (p : Payload) : Prop :=
  ∀ e ∈ p.extra.entries, ∀ path ∈ eventPaths, (pathNames path).getLast? ≠ some e.1

/-- The accessor has the string that the document has at a path, and none where the document has
none. -/
def Event.FieldAgrees (P : Platform) (event : Event) (path : String) : Prop :=
  ∀ value, eventField event path = some value ↔
    (event.toJson P).textAt (pathNames path) = some value

/-- A workload that does not name the kind of its object. -/
def Payload.Kindless : Payload → Prop
  | .kubeWorkload p => p.objectKind = ""
  | _ => False

/-! ## The document -/

section

variable (P : Platform) (event : Event)

theorem Event.textAt_field {name value : String}
    (h : lastUnder name (event.members P) = some (.str value)) :
    (event.toJson P).textAt [name] = some value := by
  rw [Json.textAt, Json.walk, toJson, Json.member, h]
  rfl

theorem Event.textAt_payload (name : String) :
    (event.toJson P).textAt ["payload", name] =
      (event.payload.toJson.member name).bind Json.asText := by
  have hpayload : (event.toJson P).member "payload" = some event.payload.toJson := by
    simp [toJson, Json.member, members]
  rw [Json.textAt, Json.walk, hpayload, Option.bind_some, Json.walk]
  cases event.payload.toJson.member name <;> rfl

end

theorem Payload.member_toJson (p : Payload) (name : String) :
    p.toJson.member name = ((lastUnder name p.extra.entries).or (lastUnder name p.members)).or
      (if name = "kind" then some (.str p.kindText) else none) := by
  rw [toJson, Json.member, lastUnder_cons, lastUnder_append]

/-! ## The accessor -/

/-- The last names of the recognised paths into the payload. -/
def payloadNames : List String :=
  ["kind", "unit", "result", "message", "path", "new_hash", "old_hash", "diff", "action", "user",
    "remote_addr", "mechanism", "from", "to", "namespace", "name", "object_kind", "reason",
    "container", "node", "condition"]

theorem eventPaths_eq :
    eventPaths = ["host", "title", "severity"] ++ payloadNames.map ("payload." ++ ·) := by
  decide

theorem pathNames_outer : ∀ name ∈ ["host", "title", "severity"], pathNames name = [name] := by
  have hdot : ∀ name ∈ ["host", "title", "severity"], '.' ∉ name.toList := by decide
  exact fun name hname => pathNames_name (hdot name hname)

theorem pathNames_payload :
    ∀ name ∈ payloadNames, pathNames ("payload." ++ name) = ["payload", name] := by
  have hdot : ∀ name ∈ payloadNames, '.' ∉ name.toList := by decide
  intro name hname
  have hpayload : "payload." = "payload" ++ "." := rfl
  rw [hpayload, pathNames_dot (by decide), pathNames_name (hdot name hname)]

/-- What the document has under a name, if the flattened map has nothing there. -/
def Payload.declared (p : Payload) (name : String) : Option Json :=
  (lastUnder name p.members).or (if name = "kind" then some (.str p.kindText) else none)

/-- On a recognised path into the payload the accessor has what the field is written as. -/
theorem eventField_payload (event : Event) : ∀ name ∈ payloadNames,
    (event.payload.Kindless → name ≠ "object_kind") →
      eventField event ("payload." ++ name) = (event.payload.declared name).bind Json.asText := by
  simp only [payloadNames, List.forall_mem_cons, String.reduceAppend, eventField]
  cases hpayload : event.payload with
  | journald p =>
    simp [Payload.declared, Payload.members, JournaldPayload.members, Payload.kindText]
  | failedUnit p =>
    simp [Payload.declared, Payload.members, FailedUnitPayload.members, Payload.kindText]
  | configDrift p =>
    simp [Payload.declared, Payload.members, ConfigDriftPayload.members, Payload.kindText]
  | auth p => simp [Payload.declared, Payload.members, AuthPayload.members, Payload.kindText]
  | update p => simp [Payload.declared, Payload.members, UpdatePayload.members, Payload.kindText]
  | kubeWorkload p =>
    simp +contextual [Payload.declared, Payload.members, KubeWorkloadPayload.members,
      Payload.kindText, Payload.Kindless]
  | kubeNode p =>
    simp [Payload.declared, Payload.members, KubeNodePayload.members, Payload.kindText]
  | circuitBreakerTrip p =>
    simp [Payload.declared, Payload.members, CircuitBreakerTripPayload.members, Payload.kindText]

/-! ## Agreement -/

section

variable {P : Platform} {event : Event}

/-- A flattened map that keeps clear of the recognised paths plays no part on them. -/
theorem Payload.ClearOfPaths.textAt (h : event.payload.ClearOfPaths) (hname : name ∈ payloadNames) :
    (event.toJson P).textAt (pathNames ("payload." ++ name)) =
      (event.payload.declared name).bind Json.asText := by
  have hnames := pathNames_payload name hname
  have hpath : "payload." ++ name ∈ eventPaths := by
    rw [eventPaths_eq]
    exact List.mem_append_right _ (List.mem_map_of_mem hname)
  have hextra : lastUnder name event.payload.extra.entries = none := by
    refine lastUnder_eq_none fun e he heq => h e he _ hpath ?_
    rw [hnames, ← heq]
    rfl
  rw [hnames, Event.textAt_payload, member_toJson, hextra, Option.none_or]
  rfl

theorem Event.eventField_eq_textAt (hclear : event.payload.ClearOfPaths) (hpath : path ∈ eventPaths)
    (h : ¬(event.payload.Kindless ∧ path = "payload.object_kind")) :
    eventField event path = (event.toJson P).textAt (pathNames path) := by
  rw [eventPaths_eq, List.mem_append] at hpath
  rcases hpath with hpath | hpath
  · rw [pathNames_outer path hpath]
    simp only [List.mem_cons, List.not_mem_nil, or_false] at hpath
    rcases hpath with rfl | rfl | rfl
    · have hhost : lastUnder "host" (event.members P) = some (.str event.host) := by simp [members]
      exact (event.textAt_field P hhost).symm
    · have htitle : lastUnder "title" (event.members P) = some (.str event.title) := by
        simp [members]
      exact (event.textAt_field P htitle).symm
    · have hseverity : lastUnder "severity" (event.members P) =
          some (.str event.severity.toText) := by simp [members]
      exact (event.textAt_field P hseverity).symm
  · obtain ⟨name, hname, rfl⟩ := List.mem_map.mp hpath
    rw [hclear.textAt hname]
    exact eventField_payload event name hname fun hkind heq => h ⟨hkind, heq ▸ rfl⟩

/-- A workload without a kind has the empty string where its document has nothing. -/
theorem Event.not_fieldAgrees (hclear : event.payload.ClearOfPaths) (h : event.payload.Kindless) :
    ¬event.FieldAgrees P "payload.object_kind" := by
  intro hagrees
  cases hpayload : event.payload with
  | kubeWorkload p =>
    rw [hpayload] at h
    have hkind : p.objectKind = "" := h
    have hfield : eventField event "payload.object_kind" = some "" := by
      -- The path is a literal, so the accessor's branch on it is known.
      change (match event.payload with | .kubeWorkload p => some p.objectKind | _ => none) = some ""
      rw [hpayload, ← hkind]
    have hdeclared : event.payload.declared "object_kind" = none := by
      simp [hpayload, Payload.declared, Payload.members, KubeWorkloadPayload.members, hkind]
    have hwalk := hclear.textAt (P := P) (show "object_kind" ∈ payloadNames by decide)
    rw [hdeclared] at hwalk
    cases hwalk.symm.trans ((hagrees "").mp hfield)
  | _ => rw [hpayload] at h; exact h

/-- On a recognised path the accessor agrees with the document unless the path is the kind of an
object and a workload does not name it; on any other path the accessor has nothing. -/
theorem event_field_agrees_iff (P : Platform) :
    (∀ event : Event, event.payload.ClearOfPaths → ∀ path, validateEventPath path = true →
      (event.FieldAgrees P path ↔ ¬(event.payload.Kindless ∧ path = "payload.object_kind"))) ∧
    ∀ path, validateEventPath path = false → ∀ event, eventField event path = none := by
  refine ⟨fun event hclear path hpath => ⟨?_, fun h value => ?_⟩, fun path hpath event => ?_⟩
  · rintro hagrees ⟨hkind, rfl⟩
    exact event.not_fieldAgrees hclear hkind hagrees
  · rw [event.eventField_eq_textAt hclear (List.contains_iff_mem.mp hpath) h]
  · cases hfield : eventField event path with
    | none => rfl
    | some value => cases hpath.symm.trans (validateEventPath_of_eventField hfield)

end

namespace Platform

/-- A workload event, of an object of the given kind. -/
def sampleWorkload (objectKind : String) : Event where
  id := ⟨11⟩
  occurredAt := noon
  observedAt := noon
  agentId := ⟨⟨2⟩⟩
  host := "node-1"
  severity := .warning
  title := "BackOff: web/front"
  categoryHints := []
  payload := .kubeWorkload
    ⟨"web", objectKind, "front", "BackOff", none, some 3, none, .empty⟩

theorem sampleWorkload_clear (objectKind : String) :
    (sampleWorkload objectKind).payload.ClearOfPaths := fun _ he => absurd he List.not_mem_nil

theorem event_field_agrees_iff_sample :
    (sampleWorkload "Pod").FieldAgrees sample "payload.object_kind" ∧
      (sampleWorkload "").FieldAgrees sample "payload.reason" ∧
      eventField (sampleWorkload "Pod") "payload" = none :=
  have hagrees (objectKind : String) :=
    (event_field_agrees_iff sample).1 (sampleWorkload objectKind) (sampleWorkload_clear objectKind)
  ⟨(hagrees "Pod" _ (by decide)).mpr (by simp [sampleWorkload, Payload.Kindless]),
    (hagrees "" _ (by decide)).mpr fun h => absurd h.2 (by decide),
    (event_field_agrees_iff sample).2 "payload" (by decide) _⟩

/-- The document of an object whose kind is not known has nothing under `object_kind`. -/
theorem object_kind_not_in_document :
    ¬∀ event : Event, event.payload.ClearOfPaths →
      ∀ path, validateEventPath path = true → event.FieldAgrees sample path := by
  intro h
  have hwalk := (h (sampleWorkload "") (sampleWorkload_clear "") "payload.object_kind" (by decide)
    "").mp (by decide)
  exact absurd hwalk (by decide)

end Platform

end Ravn
