import Ravn.Agent.AtMostOnce

/-! Forged commands on the host. The agent verifies a command before it records the id, so an envelope
that does not verify leaves no trace in the ledger, whatever id it carries: two sequences of calls that
differ by such envelopes only send the same commands and end with the same ledger. -/

namespace Ravn

open Theory

/-- A sequence with elements of a kind inserted anywhere. -/
inductive Inserted (kind : α → Prop) : List α → List α → Prop where
  | nil : Inserted kind [] []
  | keep (a : α) : Inserted kind as bs → Inserted kind (a :: as) (a :: bs)
  | insert : kind a → Inserted kind as bs → Inserted kind as (a :: bs)

/-- A call of `process_command`: the envelope and the time, and what the disk and the actuator answer
should it come to them. -/
structure ProcessCall where
  env : CommandEnvelope
  now : DateTime
  append : Append
  reply : Except String ActionResult
  finishedAt : DateTime

section

variable (P : Platform) (ring : Keyring P)

/-- The envelopes passed to `send` in a sequence of calls, and the ledger at its end. -/
def processCommands : Ledger → List ProcessCall → List CommandEnvelope × Ledger
  | ledger, [] => ([], ledger)
  | ledger, c :: cs =>
    let r := processCommand P c.env ring ledger c.now c.append (fun _ => c.reply) c.finishedAt
    let (sent, ledger) := processCommands r.ledger cs
    (if r.sent then c.env :: sent else sent, ledger)

/-- The envelope fails verification at the time of the call. -/
def ProcessCall.Forged (c : ProcessCall) : Prop := verifyEnvelopeWith P ring c.env c.now ≠ .ok ()

end

variable {P : Platform} {ring : Keyring P}

theorem processCommands_forged {c : ProcessCall} (hforged : c.Forged P ring) (ledger : Ledger)
    (cs : List ProcessCall) :
    processCommands P ring ledger (c :: cs) = processCommands P ring ledger cs := by
  obtain ⟨-, hledger, hsent⟩ | ⟨hreach, -, -⟩ :=
    processCommand_cases c.env ring ledger c.now c.append (fun _ => c.reply) c.finishedAt
  · simp [processCommands, hledger, hsent]
  · exact absurd hreach.2 hforged

/-- Forged envelopes inserted anywhere, also under the id of a genuine command, change neither what is
sent nor the ledger. -/
theorem forged_commands_inert (P : Platform) (ring : Keyring P) (ledger : Ledger)
    {cs cs' : List ProcessCall} (h : Inserted (ProcessCall.Forged P ring) cs cs') :
    processCommands P ring ledger cs' = processCommands P ring ledger cs := by
  induction h generalizing ledger with
  | nil => rfl
  | keep c _ ih => simp only [processCommands, ih]
  | insert hforged _ ih => rw [processCommands_forged hforged, ih]

namespace ProcessCall

open Platform

/-- The sample command at noon, as it was signed or with its signature removed. -/
def sample (signed : Bool) : ProcessCall where
  env := if signed then AgentLabel.sampleCommand ⟨1⟩
    else { AgentLabel.sampleCommand ⟨1⟩ with sig := none }
  now := noon
  append := .complete
  reply := .ok ⟨⟨1⟩, .succeeded, none, some "active", noon⟩
  finishedAt := noon

theorem sample_forged : (sample false).Forged Platform.sample (.single (7 : UInt8)) := by
  intro h
  cases h

end ProcessCall

open ProcessCall in
/-- An unsigned envelope with the id of the genuine command comes before and after it; the command is
sent. -/
theorem forged_commands_inert_sample :
    processCommands Platform.sample (.single (7 : UInt8)) ⟨[], []⟩
        [sample false, sample true, sample false] =
      processCommands Platform.sample (.single (7 : UInt8)) ⟨[], []⟩ [sample true] ∧
    (processCommands Platform.sample (.single (7 : UInt8)) ⟨[], []⟩ [sample true]).1 =
      [AgentLabel.sampleCommand ⟨1⟩] := by
  refine ⟨?_, by decide +kernel⟩
  exact forged_commands_inert Platform.sample (.single (7 : UInt8)) ⟨[], []⟩
    (.insert sample_forged (.keep _ (.insert sample_forged .nil)))

end Ravn
