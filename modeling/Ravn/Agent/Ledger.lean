import Ravn.Crypto.Envelope

/-! The unprivileged agent's side of a command: the on-disk ledger of executed command ids, and
`process_command`, which records an id before it hands the command to the actuator. -/

namespace Ravn

open Theory

/-- The idempotency ledger: the text of the file and the ids held in memory. -/
structure Ledger where
  file : List Char
  seen : List Uuid
deriving DecidableEq

/-- What became of an append to the file. -/
inductive Append where
  | complete
  /-- A write error after some characters of the line. -/
  | failed (written : Nat)
deriving DecidableEq

namespace Ledger

/-- The line that `record` appends. -/
def line (id : Uuid) : List Char := id.toText ++ ['\n']

/-- The ids of the lines that parse as one. -/
def parseIds (file : List Char) : List Uuid :=
  (lines file).filterMap fun line => Uuid.parse (trim line)

/-- `Ledger::load`. -/
def load (file : List Char) : Ledger := ⟨file, parseIds file⟩

def contains (ledger : Ledger) (id : Uuid) : Bool := ledger.seen.contains id

/-- `Ledger::record`, with the outcome of the append. The id enters the memory either way. -/
def record (ledger : Ledger) (id : Uuid) (append : Append) : Bool × Ledger :=
  if ledger.contains id then (true, ledger)
  else
    match append with
    | .complete => (true, ⟨ledger.file ++ line id, id :: ledger.seen⟩)
    | .failed written => (false, ⟨ledger.file ++ (line id).take written, id :: ledger.seen⟩)

end Ledger

variable (P : Platform)

/-- What `process_command` reports, the ledger it leaves, and whether it invoked `send`. -/
structure Processed where
  report : Option ActionResult
  ledger : Ledger
  sent : Bool

/-- `process_command`; `finishedAt` is the time at which the agent makes a result of its own. -/
def processCommand (env : CommandEnvelope) (ring : Keyring P) (ledger : Ledger) (now : DateTime)
    (append : Append) (send : CommandEnvelope → Except String ActionResult)
    (finishedAt : DateTime) : Processed :=
  let result := fun (status : ActionStatus) (detail : String) =>
    (⟨env.commandId, status, some detail, none, finishedAt⟩ : ActionResult)
  if ledger.contains env.commandId then ⟨none, ledger, false⟩
  else
    match verifyEnvelopeWith P ring env now with
    | .error e => ⟨some (result .rejected e.display), ledger, false⟩
    | .ok () =>
      match ledger.record env.commandId append with
      | (false, ledger) => ⟨none, ledger, false⟩
      | (true, ledger) =>
        match send env with
        | .ok r => ⟨some r, ledger, true⟩
        | .error e =>
          ⟨some (result .failed ("actuator dispatch failed: " ++ e)), ledger, true⟩

/-- The command is new to the ledger and verifies, so its id is about to be appended. -/
def ReachesAppend (env : CommandEnvelope) (ring : Keyring P) (ledger : Ledger) (now : DateTime) :
    Prop :=
  ledger.contains env.commandId = false ∧ verifyEnvelopeWith P ring env now = .ok ()

variable {P}

/-- What `process_command` does to the ledger, and when it sends. -/
theorem processCommand_cases (env : CommandEnvelope) (ring : Keyring P) (ledger : Ledger)
    (now : DateTime) (append : Append) (send : CommandEnvelope → Except String ActionResult)
    (finishedAt : DateTime) :
    let r := processCommand P env ring ledger now append send finishedAt
    (¬ReachesAppend P env ring ledger now ∧ r.ledger = ledger ∧ r.sent = false) ∨
    (ReachesAppend P env ring ledger now ∧
      r.ledger = (ledger.record env.commandId append).2 ∧ (r.sent = true ↔ append = .complete)) := by
  unfold processCommand ReachesAppend
  cases hseen : ledger.contains env.commandId with
  | true => simp
  | false =>
    cases hverify : verifyEnvelopeWith P ring env now with
    | error e => simp
    | ok _ =>
      cases append with
      | complete =>
        simp only [Ledger.record, hseen, Bool.false_eq_true, if_false]
        cases send env <;> simp
      | failed written => simp [Ledger.record, hseen]

end Ravn
