import Ravn.Crypto.Envelope
import Ravn.Core.Message
import Ravn.Theory.Utf8

/-! The prompt that an event is explained with, and the detection loop that builds it before it
publishes the event. The prompt holds at most the first 1500 bytes of a diff, cut at that offset whether
or not a character begins there; where none does, the loop ends and the event is not published. -/

namespace Ravn

open Theory

def Severity.debug : Severity → String
  | info => "Info"
  | notice => "Notice"
  | warning => "Warning"
  | error => "Error"
  | critical => "Critical"

def Source.debug : Source → String
  | journald => "Journald"
  | failedUnit => "FailedUnit"
  | configDrift => "ConfigDrift"
  | auth => "Auth"
  | update => "Update"
  | kubeWorkload => "KubeWorkload"
  | kubeNode => "KubeNode"
  | ravnInternal => "RavnInternal"

/-- `truncate`; `none` where it panics. -/
def truncate (s : String) (max : Nat) : Option String := cutAt max "…" s

/-- A line for a field that may be missing. -/
def optionLine (label : String) (field : Option String) : String :=
  (field.map fun s => label ++ s ++ "\n").getD ""

/-- The first lines of a list under a heading, if there are any. -/
def headedLines (heading : String) (lines : List String) (max : Nat) : String :=
  if lines = [] then ""
  else heading ++ "\n" ++ String.join ((lines.take max).map fun line => "  " ++ line ++ "\n")

section

variable (P : Platform)

/-- The `{:?}` form of an optional string. -/
def debugOption : Option String → String
  | none => "None"
  | some s => "Some(" ++ P.debugStr s ++ ")"

/-- What `build_user_prompt` says of the payload; `none` where it panics. -/
def payloadPrompt : Payload → Option String
  | .journald p => some (optionLine "Unit: " p.unit ++ "Message: " ++ p.message ++ "\n")
  | .failedUnit p =>
    some ("Failed unit: " ++ p.unit ++ " (result: " ++ p.result ++ ")\n" ++
      headedLines "Recent log:" p.recentLog 10)
  | .configDrift p =>
    match p.diff with
    | none => some ("Changed file: " ++ p.path ++ "\n")
    | some diff => (truncate diff 1500).map fun cut =>
      "Changed file: " ++ p.path ++ "\n" ++ "Diff:\n" ++ cut ++ "\n"
  | .auth p =>
    some ("Action: " ++ p.action ++ " (succeeded: " ++ (if p.succeeded then "true" else "false") ++
      ")\n" ++ optionLine "User: " p.user ++ optionLine "Remote: " p.remoteAddr)
  | .update p =>
    some ("Update via " ++ p.mechanism ++ ": " ++ debugOption P p.from_ ++ " -> " ++
      debugOption P p.to_ ++ "\n" ++ headedLines "Changes:" p.changes 20)
  | .kubeWorkload p =>
    let obj := if p.objectKind = "" then "" else p.objectKind ++ "/"
    some ("K8s workload: " ++ p.namespace ++ "/" ++ obj ++ p.name ++ " reason=" ++ p.reason ++ "\n" ++
      optionLine "Container: " p.container ++
      optionLine "Count: " (p.count.map fun count => toString count.toNat) ++
      optionLine "Message: " p.message)
  | .kubeNode p =>
    some ("K8s node: " ++ p.node ++ " condition=" ++ p.condition ++ "\n" ++
      optionLine "Message: " p.message)
  | .circuitBreakerTrip p =>
    some ("Ravn circuit breaker tripped for template " ++ p.templateId ++ " on " ++ p.host ++ "\n")

def promptHead (e : Event) : String :=
  "Severity: " ++ e.severity.debug ++ "\nSource: " ++ e.source.debug ++ "\nHost: " ++ e.host ++
    "\nTitle: " ++ e.title ++ "\n"

/-- `build_user_prompt`; `none` where it panics. -/
def buildUserPrompt (e : Event) : Option String :=
  (payloadPrompt P e.payload).map (promptHead e ++ ·)

end

/-! ## The detection loop -/

/-- The settings that the loop reads. -/
structure DetectionConfig where
  inferenceEnable : Bool
  digestEnable : Bool
  digestMinSeverity : Severity
  digestMaxEvents : Nat

/-- What the loop takes part in: a message arrives from a tap, or the digest task takes the events
collected so far. -/
inductive DetectionStep where
  | message (m : Message)
  | digestTick

section

variable (P : Platform) (chat : String → Option Explanation) (cfg : DetectionConfig)

/-- `InferenceClient::explain`, given what the model makes of a prompt. -/
def explain (e : Event) : Option (Option Explanation) := (buildUserPrompt P e).map chat

/-- What happens to a message before it is published, with the events collected for the digest; `none`
where it panics. -/
def prepare (digest : List Event) (m : Message) : Option (Message × List Event) :=
  if cfg.inferenceEnable && cfg.digestEnable then
    if cfg.digestMinSeverity.rank ≤ m.event.severity.rank ∧ digest.length < cfg.digestMaxEvents then
      some (m, digest ++ [m.event])
    else some (m, digest)
  else if cfg.inferenceEnable && m.explanation.isNone then
    (explain P chat m.event).map fun explanation => ({ m with explanation := explanation }, digest)
  else some (m, digest)

/-- The messages that the loop hands to `publish`, until it ends. -/
def detectionLoop : List Event → List DetectionStep → List Message
  | _, [] => []
  | _, .digestTick :: steps => detectionLoop [] steps
  | digest, .message m :: steps =>
    match prepare P chat cfg digest m with
    | some (m, digest) => m :: detectionLoop digest steps
    | none => []

/-- The messages that arrive. -/
def DetectionStep.messages (steps : List DetectionStep) : List Message :=
  steps.filterMap fun
    | .message m => some m
    | .digestTick => none

end

/-- The diff that an event carries. -/
def Event.diff (e : Event) : Option String :=
  match e.payload with
  | .configDrift p => p.diff
  | _ => none

/-- A diff that the event carries can be cut for the prompt. -/
def Event.DiffCuttable (e : Event) : Prop := ∀ diff, e.diff = some diff → Cuttable 1500 diff

/-- The prompt is built, and holds the diff, if there is one, up to 1500 bytes of it. -/
def PromptBuilt (P : Platform) (e : Event) : Prop :=
  ∃ prompt, buildUserPrompt P e = some prompt ∧
    ∀ diff, e.diff = some diff →
      ∃ head cut, prompt = head ++ "Diff:\n" ++ cut ++ "\n" ∧ IsCut 1500 "…" diff cut

/-- The message is explained on its way. -/
def DetectionConfig.Explains (cfg : DetectionConfig) (m : Message) : Prop :=
  cfg.inferenceEnable = true ∧ cfg.digestEnable = false ∧ m.explanation = none

/-! ## When the prompt is built -/

section

variable {P : Platform} {chat : String → Option Explanation} {cfg : DetectionConfig}

theorem buildUserPrompt_ne_none_iff {e : Event} : buildUserPrompt P e ≠ none ↔ e.DiffCuttable := by
  rw [buildUserPrompt, ne_eq, Option.map_eq_none_iff, Event.DiffCuttable, Event.diff]
  cases e.payload with
  | configDrift p =>
    dsimp only [payloadPrompt]
    cases p.diff with
    | none => exact ⟨fun _ _ h => (nomatch h), fun _ => Option.some_ne_none _⟩
    | some diff =>
      dsimp only
      rw [Option.map_eq_none_iff, truncate, ← ne_eq, cutAt_ne_none_iff]
      exact ⟨fun h _ heq => Option.some.inj heq ▸ h, fun h => h diff rfl⟩
  | journald p => exact ⟨fun _ _ h => (nomatch h), fun _ => Option.some_ne_none _⟩
  | failedUnit p => exact ⟨fun _ _ h => (nomatch h), fun _ => Option.some_ne_none _⟩
  | auth p => exact ⟨fun _ _ h => (nomatch h), fun _ => Option.some_ne_none _⟩
  | update p => exact ⟨fun _ _ h => (nomatch h), fun _ => Option.some_ne_none _⟩
  | kubeWorkload p => exact ⟨fun _ _ h => (nomatch h), fun _ => Option.some_ne_none _⟩
  | kubeNode p => exact ⟨fun _ _ h => (nomatch h), fun _ => Option.some_ne_none _⟩
  | circuitBreakerTrip p => exact ⟨fun _ _ h => (nomatch h), fun _ => Option.some_ne_none _⟩

/-- Where the prompt is built it holds the diff as it should. -/
theorem promptBuilt_iff {e : Event} : PromptBuilt P e ↔ e.DiffCuttable := by
  rw [← buildUserPrompt_ne_none_iff (P := P), Option.ne_none_iff_exists']
  refine exists_congr fun prompt => and_iff_left_of_imp fun hprompt diff hdiff => ?_
  unfold Event.diff at hdiff
  split at hdiff
  · rename_i p hp
    unfold buildUserPrompt at hprompt
    rw [hp, payloadPrompt, hdiff] at hprompt
    obtain ⟨text, htext, rfl⟩ := Option.map_eq_some_iff.mp hprompt
    obtain ⟨cut, hcut, rfl⟩ := Option.map_eq_some_iff.mp htext
    refine ⟨promptHead e ++ ("Changed file: " ++ p.path ++ "\n"), cut, ?_, isCut_of_cutAt hcut⟩
    simp only [String.append_assoc]
  · cases hdiff

/-! ## When the loop goes on -/

theorem prepare_ne_none_iff {digest : List Event} {m : Message} :
    prepare P chat cfg digest m ≠ none ↔ (cfg.Explains m → m.event.DiffCuttable) := by
  unfold prepare DetectionConfig.Explains
  cases cfg.inferenceEnable with
  | false => simp
  | true =>
    cases cfg.digestEnable with
    | true =>
      simp only [Bool.and_self, if_true]
      split
      · simp
      · simp
    | false =>
      cases m.explanation with
      | some explanation => simp
      | none => simp [explain, ← buildUserPrompt_ne_none_iff (P := P)]

theorem event_of_prepare {digest : List Event} {m : Message}
    (h : prepare P chat cfg digest m = some (m', digest')) : m'.event = m.event := by
  unfold prepare at h
  split at h
  · split at h
    · cases h
      rfl
    · cases h
      rfl
  · split at h
    · obtain ⟨explanation, -, heq⟩ := Option.map_eq_some_iff.mp h
      cases heq
      rfl
    · cases h
      rfl

theorem detectionLoop_events_iff (digest : List Event) (steps : List DetectionStep) :
    (detectionLoop P chat cfg digest steps).map Message.event =
        (DetectionStep.messages steps).map Message.event ↔
      ∀ m ∈ DetectionStep.messages steps, cfg.Explains m → m.event.DiffCuttable := by
  induction steps generalizing digest with
  | nil => simp [detectionLoop, DetectionStep.messages]
  | cons step steps ih =>
    cases step with
    | digestTick => exact ih []
    | message m =>
      have hmessages : DetectionStep.messages (.message m :: steps) =
          m :: DetectionStep.messages steps := rfl
      rw [hmessages, List.forall_mem_cons, detectionLoop]
      cases hprepare : prepare P chat cfg digest m with
      | none =>
        have hblocked : ¬prepare P chat cfg digest m ≠ none ↔ _ := not_congr prepare_ne_none_iff
        refine ⟨fun h => (nomatch h), fun h => absurd h.1 (hblocked.mp fun hne => hne hprepare)⟩
      | some r =>
        obtain ⟨m', digest'⟩ := r
        have hgoes := prepare_ne_none_iff.mp (hprepare ▸ Option.some_ne_none _)
        rw [and_iff_right hgoes, ← ih digest']
        simp [event_of_prepare hprepare]

end

/-- For every event the prompt is built, with the diff in it up to 1500 bytes, exactly if the event
carries no diff that cannot be cut; and the detection loop hands every message that arrives to
`publish` exactly if that holds of each one it explains. -/
theorem explaining_never_blocks_iff (P : Platform) (chat : String → Option Explanation) :
    (∀ e, PromptBuilt P e ↔ e.DiffCuttable) ∧
      ∀ cfg digest steps,
        ((detectionLoop P chat cfg digest steps).map Message.event =
            (DetectionStep.messages steps).map Message.event ↔
          ∀ m ∈ DetectionStep.messages steps, cfg.Explains m → m.event.DiffCuttable) :=
  ⟨fun _ => promptBuilt_iff, fun _ => detectionLoop_events_iff⟩

/-- A change of a file whose diff has 1499 letters of one byte, then one of two. -/
def sampleDriftEvent : Event where
  id := ⟨1⟩
  occurredAt := ⟨0⟩
  observedAt := ⟨0⟩
  agentId := ⟨⟨1⟩⟩
  host := "host"
  severity := .warning
  title := "config drift: /etc/x"
  categoryHints := []
  payload := .configDrift ⟨"/etc/x", none, "",
    some (String.ofList (List.replicate 1499 'a' ++ (List.replicate 1 'é' ++ []))), .empty⟩

theorem not_diffCuttable_sampleDriftEvent : ¬sampleDriftEvent.DiffCuttable := by
  have hone : 'a'.utf8Size = 1 := by decide
  have htwo : 'é'.utf8Size = 2 := by decide
  intro h
  obtain hfits | hboundary := h _ rfl
  · rw [utf8ByteSize_ofList, utf8Len_append, utf8Len_append, utf8Len_replicate, utf8Len_replicate,
      hone, htwo] at hfits
    omega
  · refine not_isCharBoundary_replicate ?_ ?_ ?_ hboundary
    · rw [utf8Len_replicate, hone]
      omega
    · rw [utf8Len_replicate, hone, htwo]
      omega
    · rw [utf8Len_replicate, hone, htwo]
      omega

/-- The event has no prompt, and the loop that explains it ends without publishing it. -/
theorem explaining_blocks_sampleDriftEvent :
    ¬PromptBuilt Platform.sample sampleDriftEvent ∧
      detectionLoop Platform.sample (fun _ => none) ⟨true, false, .info, 0⟩ []
        [.message (.new sampleDriftEvent)] = [] := by
  refine ⟨fun h => not_diffCuttable_sampleDriftEvent (promptBuilt_iff.mp h), ?_⟩
  have hnone : prepare Platform.sample (fun _ => none) ⟨true, false, .info, 0⟩ []
      (.new sampleDriftEvent) = none := by
    by_contra hne
    exact not_diffCuttable_sampleDriftEvent (prepare_ne_none_iff.mp hne ⟨rfl, rfl, rfl⟩)
  rw [detectionLoop, hnone]

end Ravn
