import Ravn.Agent.Prompt
import Ravn.Theory.Grouping
import Ravn.Theory.Transition

/-! Digest mode. The detection loop collects the events of a window while it publishes them bare; the
digest task takes what was collected and publishes one message about it. Over every interleaving of the
two each digest is of one window: of the events that are severe enough, as many as are collected
(`digests_of_windows`). -/

namespace Ravn

open Theory

/-! ## The message -/

/-- One line for each event. -/
def buildDigestPrompt (events : List Event) : String :=
  toString events.length ++ " events in this window:\n" ++
    String.join (events.map fun e => "- [" ++ e.severity.debug ++ "] " ++ e.source.debug ++ " " ++
      e.host ++ ": " ++ e.title ++ "\n")

/-- `Iterator::max`. -/
def maxSeverity : List Severity → Option Severity
  | [] => none
  | s :: ss =>
    match maxSeverity ss with
    | none => some s
    | some t => if t.rank < s.rank then some s else some t

def sourceCounts (events : List Event) : BTreeMap String Nat :=
  BTreeMap.tally (fun e : Event => e.source.debug) events

/-- The counts in words. -/
def countsSummary (counts : BTreeMap String Nat) : String :=
  String.intercalate ", " (counts.entries.map fun e => e.1 ++ "=" ++ toString e.2)

/-- What is drawn for a message. -/
structure DigestDraw where
  id : Uuid
  now : DateTime

def buildDigestMessage (agentId : AgentId) (host : String) (events : List Event)
    (explanation : Option Explanation) (draw : DigestDraw) : Message :=
  let summary := countsSummary (sourceCounts events)
  { event :=
      { id := draw.id
        occurredAt := draw.now
        observedAt := draw.now
        agentId := agentId
        host := host
        severity := (maxSeverity (events.map Event.severity)).getD .notice
        title := "Digest: " ++ toString events.length ++ " events (" ++ summary ++ ")"
        categoryHints := ["digest"]
        payload := .journald
          { unit := some "ravn-digest"
            priority := none
            message := "Periodic digest of " ++ toString events.length ++ " events — " ++ summary
            extra := .empty } }
    explanation := explanation }

/-- `InferenceClient::digest`, given what the model makes of a prompt. -/
def explainDigest (chat : String → Option Explanation) (events : List Event) : Option Explanation :=
  if events = [] then none else chat (buildDigestPrompt events)

/-! ## The two tasks -/

/-- The accumulator that the tasks share, and what each has handed to `publish`. -/
structure DigestTasks where
  collected : List Event
  published : List Message
  digests : List Message

inductive DigestStep where
  | message (m : Message)
  /-- The digest task takes what was collected. -/
  | tick (draw : DigestDraw)

section

variable (P : Platform) (chat : String → Option Explanation) (cfg : DetectionConfig)
  (agentId : AgentId) (host : String)

/-- `none` where the detection loop panics. -/
def DigestTasks.step (s : DigestTasks) : DigestStep → Option DigestTasks
  | .message m =>
    (prepare P chat cfg s.collected m).map fun r =>
      { s with collected := r.2, published := s.published ++ [r.1] }
  | .tick draw =>
    if s.collected = [] then some s
    else
      some { s with
        collected := []
        digests := s.digests ++
          [buildDigestMessage agentId host s.collected (explainDigest chat s.collected) draw] }

end

/-! ## Windows -/

/-- The events that arrived between two ticks, for each tick. -/
def windowsFrom : List Event → List DigestStep → List (List Event × DigestDraw)
  | _, [] => []
  | window, .message m :: steps => windowsFrom (window ++ [m.event]) steps
  | window, .tick draw :: steps => (window, draw) :: windowsFrom [] steps

def DigestStep.arrived : DigestStep → Option Message
  | .message m => some m
  | .tick _ => none

/-- What is collected of a window. -/
def DetectionConfig.batch (cfg : DetectionConfig) (window : List Event) : List Event :=
  (window.filter fun e => cfg.digestMinSeverity.rank ≤ e.severity.rank).take cfg.digestMaxEvents

/-- A digest of some events: as severe as the worst of them, and with their numbers by source, which are
those of all the events together. -/
structure DigestOf (events : List Event) (m : Message) : Prop where
  severity : ∃ e ∈ events, e.severity = m.event.severity
  worst : ∀ e ∈ events, e.severity.rank ≤ m.event.severity.rank
  counts : ∃ counts : BTreeMap String Nat,
    m.event.title = "Digest: " ++ toString events.length ++ " events (" ++ countsSummary counts ++ ")" ∧
    (∀ source n, counts.get source = some n ↔
      0 < n ∧ n = events.countP fun e => e.source.debug = source) ∧
    counts.values.sum = events.length

theorem maxSeverity_spec {ss : List Severity} (hss : ss ≠ []) :
    ∃ s ∈ ss, maxSeverity ss = some s ∧ ∀ t ∈ ss, t.rank ≤ s.rank := by
  induction ss with
  | nil => exact absurd rfl hss
  | cons s ss ih =>
    cases ss with
    | nil =>
      refine ⟨s, List.mem_cons_self, rfl, fun t ht => ?_⟩
      cases List.mem_singleton.mp ht
      exact Nat.le_refl _
    | cons s' ss =>
      obtain ⟨t, ht, hmax, hle⟩ := ih (List.cons_ne_nil _ _)
      rw [maxSeverity, hmax]
      by_cases hlt : t.rank < s.rank
      · refine ⟨s, List.mem_cons_self, if_pos hlt, fun t' ht' => ?_⟩
        rcases List.mem_cons.mp ht' with rfl | ht'
        · exact Nat.le_refl _
        · exact Nat.le_trans (hle t' ht') (Nat.le_of_lt hlt)
      · refine ⟨t, List.mem_cons_of_mem _ ht, if_neg hlt, fun t' ht' => ?_⟩
        rcases List.mem_cons.mp ht' with rfl | ht'
        · exact Nat.le_of_not_lt hlt
        · exact hle t' ht'

theorem digestOf_buildDigestMessage {events : List Event} (hevents : events ≠ []) (agentId : AgentId)
    (host : String) (explanation : Option Explanation) (draw : DigestDraw) :
    DigestOf events (buildDigestMessage agentId host events explanation draw) := by
  have hne : events.map Event.severity ≠ [] := fun h => hevents (List.map_eq_nil_iff.mp h)
  obtain ⟨s, hs, hmax, hle⟩ := maxSeverity_spec hne
  obtain ⟨e, he, rfl⟩ := List.mem_map.mp hs
  have hseverity : (buildDigestMessage agentId host events explanation draw).event.severity =
      e.severity := by
    show (maxSeverity (events.map Event.severity)).getD .notice = e.severity
    rw [hmax]
    rfl
  refine ⟨⟨e, he, hseverity.symm⟩, fun e' he' => ?_, sourceCounts events, rfl, fun source n => ?_,
    BTreeMap.sum_values_tally _ _⟩
  · rw [hseverity]
    exact hle _ (List.mem_map_of_mem he')
  · rw [sourceCounts, BTreeMap.get_tally]
    split
    · rename_i hzero
      refine ⟨nofun, fun h => ?_⟩
      rw [h.2, hzero] at h
      exact absurd h.1 (Nat.lt_irrefl 0)
    · rename_i hpos
      rw [Option.some.injEq]
      exact ⟨fun h => ⟨h ▸ Nat.pos_of_ne_zero hpos, h.symm⟩, fun h => h.2.symm⟩

/-! ## Runs -/

section

variable {P : Platform} {chat : String → Option Explanation} {cfg : DetectionConfig}
  {agentId : AgentId} {host : String}

/-- An event is collected if it is severe enough and there is room for it. -/
theorem batch_snoc (cfg : DetectionConfig) (window : List Event) (e : Event) :
    cfg.batch (window ++ [e]) =
      if cfg.digestMinSeverity.rank ≤ e.severity.rank ∧
          (cfg.batch window).length < cfg.digestMaxEvents
        then cfg.batch window ++ [e] else cfg.batch window := by
  unfold DetectionConfig.batch
  rw [List.filter_append]
  generalize window.filter (fun e => cfg.digestMinSeverity.rank ≤ e.severity.rank) = severe
  by_cases he : cfg.digestMinSeverity.rank ≤ e.severity.rank
  · rw [List.filter_cons_of_pos (by simpa using he), List.filter_nil, List.take_append,
      List.length_take]
    by_cases hroom : severe.length < cfg.digestMaxEvents
    · have hpos := Nat.sub_pos_of_lt hroom
      rw [if_pos ⟨he, Nat.lt_of_le_of_lt (Nat.min_le_right _ _) hroom⟩,
        List.take_of_length_le (Nat.le_of_lt hroom), List.take_of_length_le hpos]
    · have hfull := Nat.le_of_not_lt hroom
      rw [if_neg fun h => Nat.lt_irrefl _ (Nat.min_eq_left hfull ▸ h.2), Nat.sub_eq_zero_of_le hfull,
        List.take_zero, List.append_nil]
  · rw [List.filter_cons_of_neg (by simpa using he), List.filter_nil, List.append_nil,
      if_neg fun h => he h.1]

/-- In digest mode a message is passed on as it is. -/
theorem prepare_digest (hmode : cfg.inferenceEnable && cfg.digestEnable) (window : List Event)
    (m : Message) : prepare P chat cfg (cfg.batch window) m =
      some (m, cfg.batch (window ++ [m.event])) := by
  rw [prepare, if_pos hmode, batch_snoc]
  split <;> rfl

/-- The digests of some windows; a window with nothing in it has none. -/
def digestsOf (chat : String → Option Explanation) (cfg : DetectionConfig) (agentId : AgentId)
    (host : String) (windows : List (List Event × DigestDraw)) : List Message :=
  windows.filterMap fun w =>
    if cfg.batch w.1 = [] then none
    else some (buildDigestMessage agentId host (cfg.batch w.1) (explainDigest chat (cfg.batch w.1)) w.2)

theorem digestsOf_cons (w : List Event × DigestDraw) (windows : List (List Event × DigestDraw)) :
    digestsOf chat cfg agentId host (w :: windows) =
      if cfg.batch w.1 = [] then digestsOf chat cfg agentId host windows
      else buildDigestMessage agentId host (cfg.batch w.1) (explainDigest chat (cfg.batch w.1)) w.2 ::
        digestsOf chat cfg agentId host windows := by
  unfold digestsOf
  split
  · rename_i hnone
    exact List.filterMap_cons_none (if_pos hnone)
  · rename_i hsome
    exact List.filterMap_cons_some (if_neg hsome)

/-- The tasks from within a window. -/
theorem run_windowsFrom (hmode : cfg.inferenceEnable && cfg.digestEnable) (steps : List DigestStep)
    (window : List Event) (published digests : List Message) :
    ∃ collected, run (DigestTasks.step P chat cfg agentId host) ⟨cfg.batch window, published, digests⟩
      steps = some ⟨collected, published ++ steps.filterMap DigestStep.arrived,
        digests ++ digestsOf chat cfg agentId host (windowsFrom window steps)⟩ := by
  induction steps generalizing window published digests with
  | nil =>
    refine ⟨cfg.batch window, ?_⟩
    rw [List.filterMap_nil, List.append_nil, windowsFrom, digestsOf, List.filterMap_nil,
      List.append_nil]
    rfl
  | cons l steps ih =>
    cases l with
    | message m =>
      obtain ⟨collected, hrun⟩ := ih (window ++ [m.event]) (published ++ [m]) digests
      refine ⟨collected, ?_⟩
      rw [run, DigestTasks.step, prepare_digest hmode, Option.map_some, Option.bind_some, hrun,
        windowsFrom, List.filterMap_cons_some (show DigestStep.arrived (.message m) = some m from rfl),
        List.append_assoc, List.singleton_append]
    | tick draw =>
      rw [run, DigestTasks.step, windowsFrom,
        List.filterMap_cons_none (show DigestStep.arrived (.tick draw) = none from rfl)]
      have hempty : cfg.batch [] = [] := by simp [DetectionConfig.batch]
      split
      · rename_i hnone
        obtain ⟨collected, hrun⟩ := ih [] published digests
        refine ⟨collected, ?_⟩
        dsimp only at hnone
        rw [hempty] at hrun
        rw [hnone, Option.bind_some, hrun, digestsOf_cons, if_pos hnone]
      · rename_i hsome
        obtain ⟨collected, hrun⟩ := ih [] published (digests ++
          [buildDigestMessage agentId host (cfg.batch window) (explainDigest chat (cfg.batch window)) draw])
        refine ⟨collected, ?_⟩
        rw [hempty] at hrun
        rw [Option.bind_some, hrun, digestsOf_cons, if_neg hsome, List.append_assoc,
          List.singleton_append]

end

/-- Over every interleaving of the loop and the digest task the loop publishes what arrives, bare and in
order, and the digests are those of the windows that have events to collect, one each and in order. -/
theorem digests_of_windows (P : Platform) (chat : String → Option Explanation) (cfg : DetectionConfig)
    (hmode : cfg.inferenceEnable && cfg.digestEnable) (agentId : AgentId) (host : String)
    (steps : List DigestStep) :
    ∃ s, run (DigestTasks.step P chat cfg agentId host) ⟨[], [], []⟩ steps = some s ∧
      s.published = steps.filterMap DigestStep.arrived ∧
      List.Forall₂ DigestOf
        (((windowsFrom [] steps).map fun w => cfg.batch w.1).filter fun batch => batch ≠ []) s.digests := by
  obtain ⟨collected, hrun⟩ := run_windowsFrom (P := P) hmode steps [] [] []
  have hempty : cfg.batch [] = [] := by simp [DetectionConfig.batch]
  rw [hempty] at hrun
  refine ⟨_, hrun, List.nil_append _, ?_⟩
  rw [List.nil_append]
  generalize windowsFrom [] steps = windows
  induction windows with
  | nil => exact .nil
  | cons w windows ih =>
    rw [List.map_cons, digestsOf_cons]
    by_cases hnone : cfg.batch w.1 = []
    · rw [List.filter_cons_of_neg (by simpa using hnone), if_pos hnone]
      exact ih
    · rw [List.filter_cons_of_pos (by simpa using hnone), if_neg hnone]
      exact .cons (digestOf_buildDigestMessage hnone _ _ _ _) ih

theorem digests_of_windows_sample :
    ∃ s, run (DigestTasks.step Platform.sample (fun _ => none) ⟨true, true, .info, 50⟩ ⟨⟨2⟩⟩ "web-01")
        ⟨[], [], []⟩ [.message (.new sampleDriftEvent), .tick ⟨⟨9⟩, Platform.noon⟩] = some s ∧
      s.published = [.new sampleDriftEvent] ∧ List.Forall₂ DigestOf [[sampleDriftEvent]] s.digests :=
  digests_of_windows Platform.sample (fun _ => none) ⟨true, true, .info, 50⟩ rfl ⟨⟨2⟩⟩ "web-01"
    [.message (.new sampleDriftEvent), .tick ⟨⟨9⟩, Platform.noon⟩]

end Ravn
