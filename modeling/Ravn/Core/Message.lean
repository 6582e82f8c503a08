import Ravn.Core.Decode
import Ravn.Core.Payload

/-! The transport envelope of an event, and how it is written and read. A message survives the wire
exactly if the reader's recursion limit allows what its payload carries along
(`Message.fromText_toText_iff`), and every message that was read does. -/

namespace Ravn

open Theory Doc

structure Explanation where
  text : String
  suggestedCheck : Option String
  model : String
  generatedAt : DateTime
deriving DecidableEq

structure Message where
  event : Event
  explanation : Option Explanation

/-- `Message::new`. -/
def Message.new (event : Event) : Message := ⟨event, none⟩

/-! ## Writers -/

section

variable (P : Platform)

/-- The fields as they are written. -/
def Event.members (e : Event) : List (String × Json) :=
  [("id", e.id.toJson),
    ("occurred_at", e.occurredAt.toJson P),
    ("observed_at", e.observedAt.toJson P),
    ("agent_id", e.agentId.toJson),
    ("host", Json.str e.host),
    ("severity", Json.str e.severity.toText),
    ("title", Json.str e.title)] ++
    (if e.categoryHints = [] then [] else [("category_hints", Json.arr (e.categoryHints.map Json.str))]) ++
    [("payload", e.payload.toJson)]

def Event.toJson (e : Event) : Json := .obj (e.members P)

def Explanation.members (e : Explanation) : List (String × Json) :=
  [("text", Json.str e.text)] ++
    (e.suggestedCheck.toList.map fun check => ("suggested_check", Json.str check)) ++
    [("model", Json.str e.model), ("generated_at", e.generatedAt.toJson P)]

def Explanation.toJson (e : Explanation) : Json := .obj (e.members P)

namespace Message

def members (m : Message) : List (String × Json) :=
  [("event", m.event.toJson P)] ++ (m.explanation.toList.map fun e => ("explanation", e.toJson P))

def toJson (m : Message) : Json := .obj (m.members P)

/-- `serde_json::to_string` at this type. -/
def toText (m : Message) : List Char := (m.toJson P).print

end Message

end

/-! ## Readers -/

def Severity.ofText : String → Option Severity
  | "info" => some info
  | "notice" => some notice
  | "warning" => some warning
  | "error" => some error
  | "critical" => some critical
  | _ => none

def Severity.ofDoc (d : Doc) : Option Severity := d.unitVariant.bind ofText

section

variable (parseTime : String → Option DateTime)

namespace Event

def fieldNames : List String :=
  ["id", "occurred_at", "observed_at", "agent_id", "host", "severity", "title", "category_hints",
    "payload"]

/-- Reads an event inside so many open objects. -/
def ofDoc (opened : Nat) (d : Doc) : Option Event := do
  let fs ← d.fields fieldNames
  some {
    id := ← required fs "id" Uuid.ofDoc
    occurredAt := ← required fs "occurred_at" (DateTime.ofDoc parseTime)
    observedAt := ← required fs "observed_at" (DateTime.ofDoc parseTime)
    agentId := ← required fs "agent_id" AgentId.ofDoc
    host := ← required fs "host" asStr
    severity := ← required fs "severity" Severity.ofDoc
    title := ← required fs "title" asStr
    categoryHints := ← withDefault fs "category_hints" (asList asStr) []
    payload := ← required fs "payload" (Payload.ofDoc (opened + 1)) }

end Event

def Explanation.fieldNames : List String := ["text", "suggested_check", "model", "generated_at"]

def Explanation.ofDoc (d : Doc) : Option Explanation := do
  let fs ← d.fields fieldNames
  some {
    text := ← required fs "text" asStr
    suggestedCheck := ← withDefault fs "suggested_check" (asOption asStr) none
    model := ← required fs "model" asStr
    generatedAt := ← required fs "generated_at" (DateTime.ofDoc parseTime) }

namespace Message

def fieldNames : List String := ["event", "explanation"]

def ofDoc (d : Doc) : Option Message := do
  let fs ← d.fields fieldNames
  some ⟨← required fs "event" (Event.ofDoc parseTime 1),
    ← withDefault fs "explanation" (asOption (Explanation.ofDoc parseTime)) none⟩

/-- `serde_json::from_str` at this type. -/
def fromText (text : List Char) : Option Message := (Json.parse text).bind (ofDoc parseTime)

end Message

end

/-! ## Round trip -/

theorem Severity.ofDoc_toText (s : Severity) :
    Severity.ofDoc (Json.toDoc (.str s.toText)) = some s := by
  cases s <;> rfl

/-- What a payload carries along is nested so little that it is read inside the three objects around
it: the payload, the event and the message. -/
def Message.WithinLimit (m : Message) : Prop :=
  ∀ e ∈ m.event.payload.extra.entries, 3 + e.2.depth < recursionLimit

theorem Message.withinLimit_iff (m : Message) :
    m.WithinLimit ↔ 2 + m.event.payload.toJson.depth < recursionLimit := by
  have hdepth := m.event.payload.depth_toJson_le (n := 123)
  have hlimit : 2 + m.event.payload.toJson.depth < recursionLimit ↔
      m.event.payload.toJson.depth ≤ 123 + 2 := by
    rw [recursionLimit]
    omega
  rw [hlimit, hdepth, WithinLimit, recursionLimit]
  exact forall₂_congr fun e _ => by omega

section

variable {P : Platform} {parseTime : String → Option DateTime}
  (htime : ∀ t, parseTime (P.rfc3339 t) = some t)

include htime

omit htime in
theorem Explanation.fields_toJson (e : Explanation) :
    fields fieldNames (e.toJson P).toDoc = some (Json.toMembers (e.members P)) := by
  refine fields_of_sublist (by decide) ?_
  have hcheck := map_fst_optional "suggested_check" e.suggestedCheck Json.str
  simp only [members, List.map_append]
  exact (List.Sublist.append (.refl _) hcheck).append (.refl _)

theorem Explanation.ofDoc_toJson (e : Explanation) :
    Explanation.ofDoc parseTime (e.toJson P).toDoc = some e := by
  rw [ofDoc, fields_toJson, Option.bind_eq_bind, Option.bind_some,
    withDefault_optional rfl asStr_str (o := e.suggestedCheck) (by simp [members])]
  simp [members, required, DateTime.ofDoc_toJson htime]

omit htime in
theorem Event.fields_toJson (e : Event) :
    fields fieldNames (e.toJson P).toDoc = some (Json.toMembers (e.members P)) := by
  refine fields_of_sublist (by decide) ?_
  have hhints := map_fst_unless_nil "category_hints" e.categoryHints Json.str
  simp only [members, List.map_append]
  exact (List.Sublist.append (.refl _) hhints).append (.refl _)

/-- Whether an event is read back is decided by its payload. -/
theorem Event.ofDoc_toJson (e : Event) (opened : Nat) :
    Event.ofDoc parseTime opened (e.toJson P).toDoc =
      (Payload.ofDoc (opened + 1) e.payload.toJson.toDoc).bind fun payload =>
        some { e with payload } := by
  rw [ofDoc, fields_toJson, Option.bind_eq_bind, Option.bind_some,
    withDefault_list asStr_str (l := e.categoryHints) (by simp [members])]
  simp [members, required, Uuid.ofDoc_toJson, AgentId.ofDoc_toJson, Severity.ofDoc_toText,
    DateTime.ofDoc_toJson htime]

namespace Message

omit htime in
theorem fields_toJson (m : Message) :
    fields fieldNames (m.toJson P).toDoc = some (Json.toMembers (m.members P)) := by
  refine fields_of_sublist (by decide) ?_
  have hexplanation := map_fst_optional "explanation" m.explanation (Explanation.toJson P)
  simp only [members, List.map_append]
  exact List.Sublist.append (.refl _) hexplanation

theorem ofDoc_toJson (m : Message) :
    ofDoc parseTime (m.toJson P).toDoc =
      (Payload.ofDoc 2 m.event.payload.toJson.toDoc).bind fun payload =>
        some { m with event := { m.event with payload } } := by
  rw [ofDoc, fields_toJson, Option.bind_eq_bind, Option.bind_some,
    withDefault_optional rfl (Explanation.ofDoc_toJson htime) (o := m.explanation)
      (by simp [members])]
  simp [members, required, Event.ofDoc_toJson htime, Option.bind_assoc]

variable {m : Message} (hdisjoint : m.event.payload.Disjoint)
  (hvalues : m.event.payload.ValuedExtra)

include hdisjoint hvalues

/-- What was written is read back. -/
theorem fromText_toText (h : m.WithinLimit) : fromText parseTime (m.toText P) = some m := by
  rw [fromText, toText, Json.parse_print, Option.bind_some, ofDoc_toJson htime,
    m.event.payload.ofDoc_toJson hdisjoint hvalues, if_pos (m.withinLimit_iff.mp h)]
  rfl

/-- A message that is nested deeper is not read at all. -/
theorem fromText_toText_of_not (h : ¬m.WithinLimit) : fromText parseTime (m.toText P) = none := by
  rw [fromText, toText, Json.parse_print, Option.bind_some, ofDoc_toJson htime,
    m.event.payload.ofDoc_toJson hdisjoint hvalues, if_neg (mt m.withinLimit_iff.mpr h)]
  rfl

theorem fromText_toText_iff : fromText parseTime (m.toText P) = some m ↔ m.WithinLimit := by
  refine ⟨fun h => ?_, fromText_toText htime hdisjoint hvalues⟩
  by_contra hdeep
  rw [fromText_toText_of_not htime hdisjoint hvalues hdeep] at h
  cases h

end Message

end

/-- A message that was read keeps clear of the declared names, and is nested so little that it is read
again. -/
theorem Message.of_fromText {parseTime : String → Option DateTime} {text : List Char} {m : Message}
    (h : fromText parseTime text = some m) : m.event.payload.Disjoint ∧ m.WithinLimit := by
  obtain ⟨d, -, hd⟩ := Option.bind_eq_some_iff.mp h
  simp only [ofDoc, Option.bind_eq_bind, Option.bind_eq_some_iff] at hd
  obtain ⟨fs, -, event, hevent, explanation, -, heq⟩ := hd
  obtain ⟨d, -, hd⟩ := Option.bind_eq_some_iff.mp hevent
  simp only [Event.ofDoc, Option.bind_eq_bind, Option.bind_eq_some_iff] at hd
  obtain ⟨_, -, _, -, _, -, _, -, _, -, _, -, _, -, _, -, _, -, payload, hpayload, heq'⟩ := hd
  cases heq
  cases heq'
  obtain ⟨d, -, hd⟩ := Option.bind_eq_some_iff.mp hpayload
  exact Payload.of_ofDoc hd

end Ravn
