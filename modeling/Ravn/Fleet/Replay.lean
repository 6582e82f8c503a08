import Ravn.Actuator.Connection
import Ravn.Agent.AtMostOnce
import Ravn.Core.Decode

/-! Replay. The actuator keeps no record of the commands it has run: an envelope runs again on every
connection that presents it. The defence is on the agent's side, whose ledger lets `process_command`
present a command id once. -/

namespace Ravn

open Theory

variable {P : Platform} {σ : Type u} {decode : List Char → Option CommandEnvelope}

theorem serve_commandLaw (allowedUid : Option Nat) (reloads : Bool) (ring : Keyring P)
    (conns : List (Connection P σ)) :
    ∀ e ∈ serve P decode allowedUid reloads ring conns, CommandLaw e.1 e.2.1 e.2.2 := by
  induction conns generalizing ring with
  | nil => simp [serve]
  | cons conn conns ih =>
    intro e he
    unfold serve at he
    split at he
    · rcases List.mem_append.mp he with he | he
      · obtain ⟨env, -, rfl⟩ := Option.map_eq_some_iff.mp (Option.mem_toList.mp he)
        exact handleEnvelope_commandLaw P conn.host _ env conn.fuel conn.state
      · exact ih _ e he
    · exact ih ring e he

theorem countP_le_one_of_nodup {envs : List CommandEnvelope}
    (h : (envs.map CommandEnvelope.commandId).Nodup) (id : Uuid) :
    envs.countP (fun env => env.commandId = id) ≤ 1 := by
  have hcount : envs.countP (fun env => env.commandId = id) =
      (envs.map CommandEnvelope.commandId).count id := by
    rw [List.count, List.countP_map]
    apply List.countP_congr
    intro env _
    simp
  rw [hcount]
  exact List.nodup_iff_count.mp h id

/-- However often an envelope is presented, a connection runs it once, in order, as `CommandLaw`
says; so a step of a command is run at most as often as the command is presented. It is run at most
once when the connections are those that `process_command` made in a run over an intact ledger. -/
theorem replay_bounded_by_presentations (P : Platform) {σ : Type u}
    (decode : List Char → Option CommandEnvelope) (allowedUid : Option Nat) (reloads : Bool)
    (ring : Keyring P) (conns : List (Connection P σ)) :
    (∀ e ∈ serve P decode allowedUid reloads ring conns, CommandLaw e.1 e.2.1 e.2.2) ∧
    (∀ id i, timesStepRun (serve P decode allowedUid reloads ring conns) id i ≤
      (conns.filterMap (Connection.envelope P decode)).countP fun env => env.commandId = id) ∧
    ∀ file ls t, Along (agentStep P) (CleanAppend P) (.start file) ls →
      run (agentStep P) (.start file) ls = some t →
      (conns.filterMap (Connection.envelope P decode)).Sublist t.sent →
      ∀ id i, timesStepRun (serve P decode allowedUid reloads ring conns) id i ≤ 1 := by
  refine ⟨serve_commandLaw allowedUid reloads ring conns,
    timesStepRun_le allowedUid reloads ring conns, ?_⟩
  intro file ls t hclean hrun hsent id i
  have hinv := hclean.invariant agentStep_inv hrun (agentInv_start file)
  calc timesStepRun (serve P decode allowedUid reloads ring conns) id i
      ≤ (conns.filterMap (Connection.envelope P decode)).countP fun env => env.commandId = id :=
        timesStepRun_le allowedUid reloads ring conns id i
    _ ≤ t.sent.countP fun env => env.commandId = id := hsent.countP_le
    _ ≤ 1 := countP_le_one_of_nodup hinv.nodup id

/-! ## A replay -/

namespace Connection

open Platform

def sampleLine : List Char := (AgentLabel.sampleCommand ⟨1⟩).wireLine sample

/-- Reads the sample line back. -/
def sampleDecode (text : List Char) : Option CommandEnvelope :=
  if text = trim sampleLine then some (AgentLabel.sampleCommand ⟨1⟩) else none

/-- A connection that presents it while the unit has failed. -/
def sampleConnection : Connection sample Bool where
  peerUid := some 990
  keyringFile := none
  line := some sampleLine
  host := sampleHost
  state := false
  fuel := 61

theorem sampleConnection_envelope :
    sampleConnection.envelope sample sampleDecode = some (AgentLabel.sampleCommand ⟨1⟩) := by
  have hline : sampleConnection.line = some sampleLine := rfl
  rw [Connection.envelope, hline, Option.bind_some, sampleDecode, if_pos rfl]

/-- The log of any number of such connections. -/
theorem sampleConnection_serve (n : Nat) :
    serve sample sampleDecode (some 990) false (.single (7 : UInt8))
        (List.replicate n sampleConnection) =
      List.replicate n (AgentLabel.sampleCommand ⟨1⟩,
        (handleEnvelope sample sampleHost (.single (7 : UInt8)) (AgentLabel.sampleCommand ⟨1⟩) 61
          false).1,
        (handleEnvelope sample sampleHost (.single (7 : UInt8)) (AgentLabel.sampleCommand ⟨1⟩) 61
          false).2.1) := by
  induction n with
  | zero => rfl
  | succ n ih =>
    rw [List.replicate_succ, List.replicate_succ, serve, if_pos (by decide), ← ih]
    simp only [handleConnection, sampleConnection_envelope, Option.map_some, Option.toList_some,
      List.singleton_append]
    rfl

theorem sampleConnection_steps :
    (handleEnvelope sample sampleHost (.single (7 : UInt8)) (AgentLabel.sampleCommand ⟨1⟩) 61
      false).2.1.steps.length = 2 := by decide +kernel

end Connection

open Connection Platform in
/-- The same line on two connections, both before the envelope expires, runs the steps twice. -/
theorem replay_runs_steps_twice :
    ¬∀ i, timesStepRun (serve sample sampleDecode (some 990) false (.single (7 : UInt8))
      [sampleConnection, sampleConnection]) ⟨1⟩ i ≤ 1 := by
  intro h
  have h0 := h 0
  rw [show [sampleConnection, sampleConnection] = List.replicate 2 sampleConnection from rfl,
    sampleConnection_serve, timesStepRun, List.countP_replicate, sampleConnection_steps] at h0
  exact absurd h0 (by decide)

namespace Connection

open Platform AgentLabel

/-- A connection that presents the command of an id, and one that says nothing. -/
def samplePresenting (id : Uuid) : Connection sample Bool :=
  { sampleConnection with line := some (readLine ((sampleCommand id).wireLine sample)) }

def sampleSilent : Connection sample Bool := { sampleConnection with line := none }

theorem samplePresenting_envelope (id : Uuid) : (samplePresenting id).envelope sample
    (CommandEnvelope.fromText sampleParseTime) = some (sampleCommand id) := by
  have hline : (samplePresenting id).line = some (readLine ((sampleCommand id).wireLine sample)) := rfl
  rw [Connection.envelope, hline, Option.bind_some,
    CommandEnvelope.fromText_trim_readLine sampleParseTime_sampleRfc3339]

end Connection

open Connection Platform AgentLabel in
/-- The agent sends two commands; a connection that says nothing and one for each of them are served. -/
theorem replay_bounded_by_presentations_sample :
    ∀ id i, timesStepRun (serve sample (CommandEnvelope.fromText sampleParseTime) (some 990) false
      (.single (7 : UInt8)) [sampleSilent, samplePresenting ⟨2⟩, samplePresenting ⟨1⟩]) id i ≤ 1 := by
  have hrun : (run (agentStep sample) (.start []) [sampleDelivery ⟨2⟩ .complete,
      sampleDelivery ⟨1⟩ .complete]).map AgentState.sent = some [sampleCommand ⟨2⟩, sampleCommand ⟨1⟩] := by
    decide +kernel
  have hclean : Along (agentStep sample) (CleanAppend sample) (.start []) [sampleDelivery ⟨2⟩ .complete,
      sampleDelivery ⟨1⟩ .complete] := by
    decide +kernel
  obtain ⟨t, hrun, hsent⟩ := Option.map_eq_some_iff.mp hrun
  have hpresented : [sampleSilent, samplePresenting ⟨2⟩, samplePresenting ⟨1⟩].filterMap
      (Connection.envelope sample (CommandEnvelope.fromText sampleParseTime)) = t.sent := by
    rw [List.filterMap_cons_none rfl, List.filterMap_cons_some (samplePresenting_envelope ⟨2⟩),
      List.filterMap_cons_some (samplePresenting_envelope ⟨1⟩), List.filterMap_nil, hsent]
  exact (replay_bounded_by_presentations sample _ (some 990) false (.single (7 : UInt8))
    _).2.2 [] _ t hclean hrun (hpresented ▸ List.Sublist.refl _)

end Ravn
