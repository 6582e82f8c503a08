import Ravn.Core.Template
import Ravn.Crypto.Envelope

/-! The privileged actuator's `handle_command`: verify the envelope, validate its identifiers, check
the preconditions, run the steps, poll the post-condition and, if that fails, roll back.

The executor and the clocks are an arbitrary `Host` over an arbitrary state. Each phase returns the
calls that it made of the executor, with the answers. -/

namespace Ravn

/-- The world that `handle_command` runs in: a stateful `CapabilityExecutor`, the UTC clock, and the
monotonic clock with `tokio::time::sleep`. Instants and durations are in nanoseconds. -/
structure Host (σ : Type u) where
  run : Capability → σ → Except String (Option String) × σ
  utcNow : σ → DateTime × σ
  instantNow : σ → Nat × σ
  sleep : Nat → σ → σ

/-- One call of the executor and its answer; an error carries the text of the `ExecError`. -/
structure Call where
  cap : Capability
  answer : Except String (Option String)

/-- The value that a call observed, `Ok(None)` read as the empty string. -/
def Call.observed (c : Call) : Option String :=
  match c.answer with
  | .ok v => some (v.getD "")
  | .error _ => none

/-! ## Identifiers -/

def isUnitChar (c : Char) : Bool :=
  c.isAlphanum || c == '.' || c == '_' || c == '-' || c == '@' || c == ':' || c == '\\'

/-- `is_valid_unit`. -/
def isValidUnit (unit : String) : Bool :=
  !unit.isEmpty && unit.utf8ByteSize ≤ 256 && unit.toList.all isUnitChar

def capabilityUnit : Capability → Option String
  | .resetFailed unit | .restartUnit unit | .unitState unit => some unit
  | .nixRollback | .deletePod _ _ | .restartDeployment _ _ | .podState _ _ => none

/-- The Kubernetes identifiers of a capability with their field names. -/
def capabilityKubeIds : Capability → List (String × String)
  | .deletePod ns pod => [("namespace", ns), ("pod", pod)]
  | .restartDeployment ns deployment => [("namespace", ns), ("deployment", deployment)]
  | .podState ns podPrefix => [("namespace", ns), ("pod_prefix", podPrefix)]
  | _ => []

namespace CommandEnvelope

/-- Whether a check or a step is for the in-cluster executor. -/
def containsKubeCapability (env : CommandEnvelope) : Bool :=
  let isKube : Capability → Bool
    | .deletePod _ _ | .restartDeployment _ _ | .podState _ _ => true
    | _ => false
  env.preconditions.any (fun c => isKube c.check) || env.steps.any isKube ||
    env.verify.any fun v => isKube v.check

/-- All that `handle_command` may run, the rollback apart. -/
def capabilities (env : CommandEnvelope) : List Capability :=
  env.preconditions.map Condition.check ++ env.steps ++ env.verify.toList.map Verify.check

end CommandEnvelope

section

variable (P : Platform)

/-- The reason to reject a capability's identifiers, if there is one. -/
def capabilityFault (cap : Capability) : Option String :=
  match (capabilityUnit cap).filter fun unit => !isValidUnit unit with
  | some unit => some ("invalid unit name: " ++ P.debugStr unit)
  | none =>
    ((capabilityKubeIds cap).find? fun id => !isValidK8sLabel id.2).map fun id =>
      "invalid Kubernetes identifier for " ++ id.1 ++ ": " ++ P.debugStr id.2

/-- Signature, expiry and identifiers; the error is the detail of the rejection. -/
def admission (ring : Keyring P) (env : CommandEnvelope) (now : DateTime) : Except String Unit :=
  match verifyEnvelopeWith P ring env now with
  | .error e => .error e.display
  | .ok () =>
    match env.capabilities.findSome? (capabilityFault P) with
    | some detail => .error detail
    | none => .ok ()

end

/-! ## The phases -/

/-- How a phase ended: the result's status, detail and observed state. -/
structure Verdict where
  status : ActionStatus
  detail : Option String
  observed : Option String

section

variable (P : Platform) {σ : Type u} (H : Host σ)

/-- Checks the preconditions in order, up to the first that does not hold. -/
def checkPreconditions : List Condition → σ → Option Verdict × List Call × σ
  | [], s => (none, [], s)
  | cond :: conds, s =>
    match H.run cond.check s with
    | (.error e, s) =>
      (some ⟨.failed, some ("precondition check errored: " ++ e), none⟩,
        [⟨cond.check, .error e⟩], s)
    | (.ok v, s) =>
      let observed := v.getD ""
      if observed ≠ cond.equals then
        (some ⟨.preconditionFailed, some ("precondition failed: expected " ++
          P.debugStr cond.equals ++ ", observed " ++ P.debugStr observed), some observed⟩,
          [⟨cond.check, .ok v⟩], s)
      else
        let (verdict, calls, s) := checkPreconditions conds s
        (verdict, ⟨cond.check, .ok v⟩ :: calls, s)

/-- Runs the steps in order, up to the first that fails. -/
def runSteps : List Capability → σ → Option Verdict × List Call × σ
  | [], s => (none, [], s)
  | step :: steps, s =>
    match H.run step s with
    | (.error e, s) =>
      (some ⟨.failed, some ("step failed: " ++ e), none⟩, [⟨step, .error e⟩], s)
    | (.ok v, s) =>
      let (verdict, calls, s) := runSteps steps s
      (verdict, ⟨step, .ok v⟩ :: calls, s)

/-- `perform_rollback`. -/
def performRollback (env : CommandEnvelope) (verifyDetail observed : String) (s : σ) :
    Verdict × Option Call × σ :=
  let observed := if observed.isEmpty then none else some observed
  match env.rollback with
  | .none => (⟨.failed, some verifyDetail, observed⟩, none, s)
  | .nixGeneration =>
    match H.run .nixRollback s with
    | (.ok v, s) =>
      (⟨.failed, some (verifyDetail ++ "; rolled back to the previous NixOS generation"),
        observed⟩, some ⟨.nixRollback, .ok v⟩, s)
    | (.error e, s) =>
      (⟨.frozen, some (verifyDetail ++ "; rollback FAILED (" ++ e ++
        ") — target frozen, escalate to a human"), observed⟩, some ⟨.nixRollback, .error e⟩, s)

/-- `VERIFY_POLL_INTERVAL`, 500 ms. -/
def verifyPollInterval : Nat := 500000000

/-- How the poll of the post-condition ended. -/
inductive PollEnd where
  | held (observed : String)
  /-- The detail and the observed state for the rollback. -/
  | notHeld (detail observed : String)
  /-- The given number of rounds did not end the poll. -/
  | polling

/-- The poll loop, for at most `fuel` rounds. -/
def pollVerify (verify : Verify) (deadline : Nat) : Nat → σ → PollEnd × List Call × σ
  | 0, s => (.polling, [], s)
  | fuel + 1, s =>
    match H.run verify.check s with
    | (.error e, s) =>
      (.notHeld ("verify check errored: " ++ e) "", [⟨verify.check, .error e⟩], s)
    | (.ok v, s) =>
      let observed := v.getD ""
      if observed = verify.equals then (.held observed, [⟨verify.check, .ok v⟩], s)
      else
        let (instant, s) := H.instantNow s
        if deadline ≤ instant then
          (.notHeld ("verify failed: expected " ++ P.debugStr verify.equals ++ ", observed " ++
            P.debugStr observed) observed, [⟨verify.check, .ok v⟩], s)
        else
          let (pollEnd, calls, s) := pollVerify verify deadline fuel (H.sleep verifyPollInterval s)
          (pollEnd, ⟨verify.check, .ok v⟩ :: calls, s)

end

/-! ## The command -/

/-- The calls of one command, by the call site in the source; each phase runs after those before
it. -/
structure Trace where
  preconditions : List Call
  steps : List Call
  verify : List Call
  rollback : Option Call

namespace Trace

def empty : Trace := ⟨[], [], [], none⟩

/-- Everything that was run, in order. -/
def calls (tr : Trace) : List Call :=
  tr.preconditions ++ tr.steps ++ tr.verify ++ tr.rollback.toList

end Trace

/-- What became of a command. -/
inductive Outcome where
  | returned (result : ActionResult)
  /-- The deadline of the poll does not fit an `Instant`. -/
  | panicked
  | polling

/-- `Instant + Duration::from_secs`: the seconds of an `Instant` are an `i64`. -/
def instantCheckedAdd (instant secs : Nat) : Option Nat :=
  if instant / 1000000000 + secs < 2 ^ 63 then some (instant + secs * 1000000000) else none

section

variable (P : Platform) {σ : Type u} (H : Host σ)

/-- The result is stamped with the time at which it is made. -/
def finish (env : CommandEnvelope) (verdict : Verdict) (tr : Trace) (s : σ) :
    Outcome × Trace × σ :=
  let (now, s) := H.utcNow s
  (.returned ⟨env.commandId, verdict.status, verdict.detail, verdict.observed, now⟩, tr, s)

/-- From the verify phase on. -/
def verifyAndRollback (env : CommandEnvelope) (pre steps : List Call) (fuel : Nat) (s : σ) :
    Outcome × Trace × σ :=
  match env.verify with
  | none => finish H env ⟨.succeeded, none, none⟩ ⟨pre, steps, [], none⟩ s
  | some verify =>
    let (instant, s) := H.instantNow s
    match instantCheckedAdd instant verify.timeoutS.toNat with
    | none => (.panicked, ⟨pre, steps, [], none⟩, s)
    | some deadline =>
      match pollVerify P H verify deadline fuel s with
      | (.polling, polls, s) => (.polling, ⟨pre, steps, polls, none⟩, s)
      | (.held observed, polls, s) =>
        finish H env ⟨.succeeded, none, some observed⟩ ⟨pre, steps, polls, none⟩ s
      | (.notHeld detail observed, polls, s) =>
        let (verdict, rollback, s) := performRollback H env detail observed s
        finish H env verdict ⟨pre, steps, polls, rollback⟩ s

/-- `handle_command`, with `fuel` bounding the rounds of the verify poll. -/
def handleCommand (ring : Keyring P) (env : CommandEnvelope) (fuel : Nat) (s : σ) :
    Outcome × Trace × σ :=
  let (now, s) := H.utcNow s
  match admission P ring env now with
  | .error detail => finish H env ⟨.rejected, some detail, none⟩ .empty s
  | .ok () =>
    match checkPreconditions P H env.preconditions s with
    | (some verdict, pre, s) => finish H env verdict ⟨pre, [], [], none⟩ s
    | (none, pre, s) =>
      match runSteps H env.steps s with
      | (some verdict, steps, s) => finish H env verdict ⟨pre, steps, [], none⟩ s
      | (none, steps, s) => verifyAndRollback P H env pre steps fuel s

end

end Ravn
