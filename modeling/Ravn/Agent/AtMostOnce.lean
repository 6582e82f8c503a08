import Ravn.Agent.Ledger
import Ravn.Theory.Transition

/-! Dispatch across crashes. The agent takes deliveries, may die at any point, and reads its ledger
back on restart. An id that has a line of its own in the file survives every restart; an append that
starts in the middle of a torn line does not give its id one. -/

namespace Ravn

open Theory

/-! ## The agent over its lifetimes -/

/-- The ledger file, the ids in memory while the agent is up, and all that was sent so far. -/
structure AgentState where
  file : List Char
  memory : Option (List Uuid)
  sent : List CommandEnvelope
deriving DecidableEq

def AgentState.start (file : List Char) : AgentState := ⟨file, some (Ledger.parseIds file), []⟩

inductive AgentLabel (P : Platform) where
  /-- `process_command` runs to its end. -/
  | deliver (env : CommandEnvelope) (ring : Keyring P) (now : DateTime) (append : Append)
    (reply : Except String ActionResult) (finishedAt : DateTime)
  /-- The agent dies in the append of `process_command`, after some characters of the line. -/
  | crashInRecord (env : CommandEnvelope) (ring : Keyring P) (now : DateTime) (written : Nat)
  /-- The agent dies elsewhere. -/
  | crash
  | restart

section

variable (P : Platform)

instance (env : CommandEnvelope) (ring : Keyring P) (ledger : Ledger) (now : DateTime) :
    Decidable (ReachesAppend P env ring ledger now) :=
  inferInstanceAs (Decidable (_ ∧ _))

def agentStep (s : AgentState) : AgentLabel P → Option AgentState
  | .deliver env ring now append reply finishedAt =>
    s.memory.map fun seen =>
      let r := processCommand P env ring ⟨s.file, seen⟩ now append (fun _ => reply) finishedAt
      ⟨r.ledger.file, some r.ledger.seen, if r.sent then s.sent ++ [env] else s.sent⟩
  | .crashInRecord env ring now written =>
    s.memory.bind fun seen =>
      if ReachesAppend P env ring ⟨s.file, seen⟩ now then
        some ⟨s.file ++ (Ledger.line env.commandId).take written, none, s.sent⟩
      else none
  | .crash => s.memory.map fun _ => { s with memory := none }
  | .restart => some { s with memory := some (Ledger.load s.file).seen }

/-- An append that succeeds starts at the start of a line: the file is empty or ends in a newline. -/
def CleanAppend (s : AgentState) : AgentLabel P → Prop
  | .deliver env ring now .complete _ _ =>
    ∀ seen ∈ s.memory, ReachesAppend P env ring ⟨s.file, seen⟩ now → AtLineStart s.file
  | _ => True

instance : ∀ s l, Decidable (CleanAppend P s l)
  | s, .deliver _ _ _ .complete _ _ => inferInstanceAs (Decidable (∀ seen ∈ s.memory, _ → _))
  | _, .deliver _ _ _ (.failed _) _ _ => .isTrue trivial
  | _, .crashInRecord _ _ _ _ => .isTrue trivial
  | _, .crash => .isTrue trivial
  | _, .restart => .isTrue trivial

end

/-! ## Lines of the ledger -/

/-- The file holds the id on a complete line of its own. -/
def OwnLine (file : List Char) (id : Uuid) : Prop :=
  ∃ before after, file = before ++ (id.toText ++ '\n' :: after) ∧ AtLineStart before

theorem OwnLine.append {id : Uuid} (h : OwnLine file id) (cs : List Char) : OwnLine (file ++ cs) id := by
  obtain ⟨before, after, rfl, hstart⟩ := h
  exact ⟨before, after ++ cs, by simp, hstart⟩

theorem ownLine_append_line (h : AtLineStart file) (id : Uuid) :
    OwnLine (file ++ Ledger.line id) id := ⟨file, [], rfl, h⟩

/-- What has a line of its own is read back. -/
theorem OwnLine.mem_parseIds {id : Uuid} (h : OwnLine file id) : id ∈ Ledger.parseIds file := by
  obtain ⟨before, after, rfl, hstart⟩ := h
  have hws : ∀ c ∈ id.toText, isWhitespace c = false :=
    fun c hc => Uuid.not_isWhitespace_of_mem_toText hc
  have hn : '\n' ∉ id.toText := fun hmem => absurd (hws _ hmem) (by decide)
  have hr : id.toText.getLast? ≠ some '\r' :=
    fun hlast => absurd (hws _ (List.mem_of_getLast? hlast)) (by decide)
  have hparse : Uuid.parse (trim id.toText) = some id := by
    rw [trim_eq_self hws, Uuid.parse_toText]
  rw [Ledger.parseIds, lines_append hstart, lines_line hn hr]
  refine List.mem_filterMap.mpr ⟨id.toText, ?_, hparse⟩
  exact List.mem_append_right _ List.mem_cons_self

/-! ## The invariant -/

/-- Whatever was sent is on disk and in memory, and nothing was sent twice. -/
structure AgentInv (s : AgentState) : Prop where
  onDisk : ∀ env ∈ s.sent, OwnLine s.file env.commandId
  inMemory : ∀ seen ∈ s.memory, ∀ env ∈ s.sent, env.commandId ∈ seen
  nodup : (s.sent.map CommandEnvelope.commandId).Nodup

theorem agentInv_start (file : List Char) : AgentInv (.start file) :=
  ⟨by simp [AgentState.start], by simp [AgentState.start], by simp [AgentState.start]⟩

/-- The file only grows, and losing the memory loses nothing that was sent. -/
theorem AgentInv.down (h : AgentInv s) (cs : List Char) :
    AgentInv { s with file := s.file ++ cs, memory := none } :=
  ⟨fun env henv => (h.onDisk env henv).append cs, by simp, h.nodup⟩

theorem AgentInv.restart (h : AgentInv s) :
    AgentInv { s with memory := some (Ledger.load s.file).seen } := by
  refine ⟨h.onDisk, ?_, h.nodup⟩
  intro seen hseen env henv
  cases hseen
  exact (h.onDisk env henv).mem_parseIds

/-- A command whose append failed is remembered but not sent. -/
theorem AgentInv.recorded (h : AgentInv s) (hseen : s.memory = some seen) (id : Uuid)
    (cs : List Char) :
    AgentInv { s with file := s.file ++ cs, memory := some (id :: seen) } := by
  refine ⟨fun env henv => (h.onDisk env henv).append cs, ?_, h.nodup⟩
  intro seen' hseen' env henv
  cases hseen'
  exact List.mem_cons_of_mem _ (h.inMemory seen hseen env henv)

theorem AgentInv.sent (h : AgentInv s) (hseen : s.memory = some seen)
    (hnew : env.commandId ∉ seen) (hstart : AtLineStart s.file) :
    AgentInv ⟨s.file ++ Ledger.line env.commandId, some (env.commandId :: seen),
      s.sent ++ [env]⟩ := by
  have hfresh : ∀ e ∈ s.sent, e.commandId ≠ env.commandId := by
    intro e he heq
    exact hnew (heq ▸ h.inMemory seen hseen e he)
  refine ⟨?_, ?_, ?_⟩
  · intro e he
    rcases List.mem_append.mp he with he | he
    · exact (h.onDisk e he).append _
    · rw [List.mem_singleton.mp he]
      exact ownLine_append_line hstart env.commandId
  · intro seen' hseen' e he
    cases hseen'
    rcases List.mem_append.mp he with he | he
    · exact List.mem_cons_of_mem _ (h.inMemory seen hseen e he)
    · rw [List.mem_singleton.mp he]
      exact List.mem_cons_self
  · rw [List.map_append, List.map_singleton, List.nodup_append]
    refine ⟨h.nodup, by simp, ?_⟩
    intro a ha b hb
    obtain ⟨e, he, rfl⟩ := List.mem_map.mp ha
    rw [List.mem_singleton.mp hb]
    exact hfresh e he

variable {P : Platform}

theorem AgentInv.deliver (h : AgentInv s) (hseen : s.memory = some seen)
    (hclean : CleanAppend P s (.deliver env ring now append reply finishedAt)) :
    let r := processCommand P env ring ⟨s.file, seen⟩ now append (fun _ => reply) finishedAt
    AgentInv ⟨r.ledger.file, some r.ledger.seen, if r.sent then s.sent ++ [env] else s.sent⟩ := by
  intro r
  obtain ⟨-, hledger, hsent⟩ | ⟨hreach, hledger, hsent⟩ :=
    processCommand_cases env ring ⟨s.file, seen⟩ now append (fun _ => reply) finishedAt
  · have hsame : AgentInv ⟨s.file, some seen, s.sent⟩ := hseen ▸ h
    simpa [r, hledger, hsent] using hsame
  · have hcontains : (⟨s.file, seen⟩ : Ledger).contains env.commandId = false := hreach.1
    have hnew : env.commandId ∉ seen := by simpa [Ledger.contains] using hcontains
    cases append with
    | complete =>
      have hstart : AtLineStart s.file := hclean seen hseen hreach
      simpa [r, hledger, hsent, Ledger.record, hcontains] using h.sent hseen hnew hstart
    | failed written =>
      have hsame := h.recorded hseen env.commandId ((Ledger.line env.commandId).take written)
      simpa [r, hledger, hsent, Ledger.record, hcontains] using hsame

theorem agentStep_inv (h : AgentInv s) (hclean : CleanAppend P s l)
    (hstep : agentStep P s l = some s') : AgentInv s' := by
  cases l with
  | deliver env ring now append reply finishedAt =>
    obtain ⟨seen, hseen, rfl⟩ := Option.map_eq_some_iff.mp hstep
    exact h.deliver hseen hclean
  | crashInRecord env ring now written =>
    obtain ⟨seen, hseen, hif⟩ := Option.bind_eq_some_iff.mp hstep
    split at hif
    · cases hif
      exact h.down _
    · cases hif
  | crash =>
    obtain ⟨seen, hseen, rfl⟩ := Option.map_eq_some_iff.mp hstep
    simpa using h.down []
  | restart =>
    cases hstep
    exact h.restart

/-- In a run in which every completed append starts at a line start, whatever else is torn, crashes
or is delivered again, no command id is sent twice. -/
theorem dispatch_at_most_once (file : List Char) (ls : List (AgentLabel P)) (t : AgentState)
    (hclean : Along (agentStep P) (CleanAppend P) (.start file) ls)
    (hrun : run (agentStep P) (.start file) ls = some t) :
    (t.sent.map CommandEnvelope.commandId).Nodup :=
  (hclean.invariant agentStep_inv hrun (agentInv_start file)).nodup

/-! ## A torn line -/

namespace AgentLabel

open Platform

/-- The sample command under another id. -/
def sampleCommand (id : Uuid) : CommandEnvelope :=
  signEnvelope sample (7 : UInt8) { sampleEnvelope with commandId := id }

/-- A delivery of it at noon whose append ends as given. -/
def sampleDelivery (id : Uuid) (append : Append) : AgentLabel sample :=
  .deliver (sampleCommand id) (.single (7 : UInt8)) noon append
    (.ok ⟨id, .succeeded, none, some "active", noon⟩) noon

end AgentLabel

open AgentLabel in
theorem dispatch_at_most_once_sample :
    ∃ t, run (agentStep Platform.sample) (.start [])
        [sampleDelivery ⟨1⟩ (.failed 0), sampleDelivery ⟨3⟩ .complete, .crash, .restart,
          sampleDelivery ⟨3⟩ .complete, sampleDelivery ⟨4⟩ .complete] = some t ∧
      t.sent.map CommandEnvelope.commandId = [⟨3⟩, ⟨4⟩] ∧
      (t.sent.map CommandEnvelope.commandId).Nodup := by
  have hrun : (run (agentStep Platform.sample) (.start [])
      [sampleDelivery ⟨1⟩ (.failed 0), sampleDelivery ⟨3⟩ .complete, .crash, .restart,
        sampleDelivery ⟨3⟩ .complete, sampleDelivery ⟨4⟩ .complete]).map
      (fun t => t.sent.map CommandEnvelope.commandId) = some [⟨3⟩, ⟨4⟩] := by decide +kernel
  obtain ⟨t, hrun, hsent⟩ := Option.map_eq_some_iff.mp hrun
  exact ⟨t, hrun, hsent, dispatch_at_most_once [] _ t (by decide +kernel) hrun⟩

open AgentLabel in
/-- A write error leaves five characters of an id in the file; the next command's id is appended to
them, is not read back, and the command is sent again. -/
theorem torn_line_dispatches_twice :
    ∃ t, run (agentStep Platform.sample) (.start [])
        [sampleDelivery ⟨1⟩ (.failed 5), sampleDelivery ⟨3⟩ .complete, .restart,
          sampleDelivery ⟨3⟩ .complete] = some t ∧
      ¬(t.sent.map CommandEnvelope.commandId).Nodup := by
  have hrun : (run (agentStep Platform.sample) (.start [])
      [sampleDelivery ⟨1⟩ (.failed 5), sampleDelivery ⟨3⟩ .complete, .restart,
        sampleDelivery ⟨3⟩ .complete]).map
      (fun t => t.sent.map CommandEnvelope.commandId) = some [⟨3⟩, ⟨3⟩] := by decide +kernel
  obtain ⟨t, hrun, hsent⟩ := Option.map_eq_some_iff.mp hrun
  exact ⟨t, hrun, by simp [hsent]⟩

end Ravn
