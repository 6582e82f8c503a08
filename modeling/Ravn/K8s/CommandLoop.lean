import Ravn.Actuator.CommandLaw
import Ravn.Core.Decode

/-! The in-cluster executor's command loop. Messages on the executor's subject are handled one after
another; a command id is remembered, in memory only, before its envelope is verified. -/

namespace Ravn

variable (P : Platform) {σ : Type u} (H : Host σ)

/-- One message: its envelope, if the payload parses as one, under the ids seen so far. The result is
what `handle_command` did, if it was called, and the ids afterwards. -/
def onCommandMessage (ring : Keyring P) (executed : List Uuid) (payload : Option CommandEnvelope)
    (fuel : Nat) (s : σ) : Option (Outcome × Trace) × List Uuid :=
  match payload with
  | none => (none, executed)
  | some env =>
    if executed.contains env.commandId then (none, executed)
    else
      let (outcome, tr, _) := handleCommand P H ring env fuel s
      (some (outcome, tr), env.commandId :: executed)

/-! ## The loop -/

/-- One message on the executor's subject, and the world in which the loop comes to it. -/
structure Delivery (σ : Type u) where
  payload : List Char
  host : Host σ
  state : σ
  fuel : Nat

/-- The time at which `handle_command` verifies the message. -/
def Delivery.now (d : Delivery σ) : DateTime := (d.host.utcNow d.state).1

/-- A command that the loop has handed to `handle_command`. -/
structure CommandRun where
  env : CommandEnvelope
  now : DateTime
  outcome : Outcome
  trace : Trace

def Outcome.isReturned : Outcome → Bool
  | .returned _ => true
  | _ => false

variable (parseTime : String → Option DateTime)

def Delivery.envelope (d : Delivery σ) : Option CommandEnvelope :=
  CommandEnvelope.fromText parseTime d.payload

/-- `run_command_loop`: a message after the other. A command that does not return takes the loop with
it. -/
def runCommandLoop (ring : Keyring P) : List Uuid → List (Delivery σ) → List CommandRun
  | _, [] => []
  | executed, d :: ds =>
    match d.envelope parseTime with
    | none => runCommandLoop ring executed ds
    | some env =>
      match onCommandMessage P d.host ring executed (some env) d.fuel d.state with
      | (none, executed) => runCommandLoop ring executed ds
      | (some (outcome, tr), executed) =>
        ⟨env, d.now, outcome, tr⟩ ::
          if outcome.isReturned then runCommandLoop ring executed ds else []

/-- Whether an envelope verifies at the time it is handled. -/
def verifies (ring : Keyring P) (env : CommandEnvelope) (now : DateTime) : Bool :=
  (verifyEnvelopeWith P ring env now).isOk

/-- The commands that were verified, with all that was executed for them. -/
def executedCommands (ring : Keyring P) (ds : List (Delivery σ)) : List CommandRun :=
  (runCommandLoop P parseTime ring [] ds).filter fun r => verifies P ring r.env r.now

section

variable {P : Platform} {parseTime : String → Option DateTime} {ring : Keyring P}

theorem handleCommand_not_verified {H : Host σ} {s : σ}
    (h : verifies P ring env (H.utcNow s).1 = false) (fuel : Nat) :
    (handleCommand P H ring env fuel s).1.isReturned = true ∧
      (handleCommand P H ring env fuel s).2.1 = .empty := by
  have hadmission : ∃ detail, admission P ring env (H.utcNow s).1 = .error detail := by
    rw [verifies] at h
    cases hverify : verifyEnvelopeWith P ring env (H.utcNow s).1 with
    | ok u => simp [hverify, Except.isOk, Except.toBool] at h
    | error e => exact ⟨e.display, by simp [admission, hverify]⟩
  obtain ⟨detail, hdetail⟩ := hadmission
  simp [handleCommand, hdetail, finish, Outcome.isReturned]

/-- What the loop does with the first message. -/
theorem runCommandLoop_unparsed {d : Delivery σ} (h : d.envelope parseTime = none)
    (seen : List Uuid) (ds : List (Delivery σ)) :
    runCommandLoop P parseTime ring seen (d :: ds) = runCommandLoop P parseTime ring seen ds := by
  rw [runCommandLoop, h]

theorem runCommandLoop_seen {d : Delivery σ} (h : d.envelope parseTime = some env)
    (hseen : env.commandId ∈ seen) (ds : List (Delivery σ)) :
    runCommandLoop P parseTime ring seen (d :: ds) = runCommandLoop P parseTime ring seen ds := by
  have hcontains : seen.contains env.commandId = true := List.contains_iff_mem.mpr hseen
  simp only [runCommandLoop, h, onCommandMessage, hcontains, if_true]

theorem runCommandLoop_new {d : Delivery σ} (h : d.envelope parseTime = some env)
    (hseen : env.commandId ∉ seen) (ds : List (Delivery σ)) :
    runCommandLoop P parseTime ring seen (d :: ds) =
      ⟨env, d.now, (handleCommand P d.host ring env d.fuel d.state).1,
        (handleCommand P d.host ring env d.fuel d.state).2.1⟩ ::
      if (handleCommand P d.host ring env d.fuel d.state).1.isReturned then
        runCommandLoop P parseTime ring (env.commandId :: seen) ds else [] := by
  have hcontains : ¬seen.contains env.commandId = true := fun hc => hseen (List.contains_iff_mem.mp hc)
  simp only [runCommandLoop, h, onCommandMessage, if_neg hcontains]

/-- Induction along the loop: a message is skipped, or it is the first with its id and is handled. -/
theorem runCommandLoop_induction {motive : List Uuid → List (Delivery σ) → List CommandRun → Prop}
    (nil : ∀ seen, motive seen [] [])
    (skip : ∀ seen d ds runs, motive seen ds runs → motive seen (d :: ds) runs)
    (new : ∀ seen d ds env runs, d.envelope parseTime = some env → env.commandId ∉ seen →
      motive (env.commandId :: seen) ds runs →
      motive seen (d :: ds)
        (⟨env, d.now, (handleCommand P d.host ring env d.fuel d.state).1,
          (handleCommand P d.host ring env d.fuel d.state).2.1⟩ ::
        if (handleCommand P d.host ring env d.fuel d.state).1.isReturned then runs else []))
    (seen : List Uuid) (ds : List (Delivery σ)) :
    motive seen ds (runCommandLoop P parseTime ring seen ds) := by
  induction ds generalizing seen with
  | nil => exact nil seen
  | cons d ds ih =>
    cases henv : d.envelope parseTime with
    | none =>
      rw [runCommandLoop_unparsed henv]
      exact skip seen d ds _ (ih seen)
    | some env =>
      by_cases hseen : env.commandId ∈ seen
      · rw [runCommandLoop_seen henv hseen]
        exact skip seen d ds _ (ih seen)
      · rw [runCommandLoop_new henv hseen]
        exact new seen d ds env _ henv hseen (ih (env.commandId :: seen))

/-- What follows a command is there only if the command returned. -/
theorem mem_of_mem_ite {b : Bool} {runs : List CommandRun} (h : r ∈ if b then runs else []) :
    r ∈ runs := by
  cases b with
  | true => exact h
  | false => cases h

/-- No command is handled under an id that was seen before, and no two under the same id. -/
theorem runCommandLoop_distinct (seen : List Uuid) (ds : List (Delivery σ)) :
    (∀ r ∈ runCommandLoop P parseTime ring seen ds, r.env.commandId ∉ seen) ∧
      (runCommandLoop P parseTime ring seen ds).Pairwise
        fun a b => a.env.commandId ≠ b.env.commandId := by
  refine runCommandLoop_induction
    (motive := fun seen _ runs => (∀ r ∈ runs, r.env.commandId ∉ seen) ∧
      runs.Pairwise fun a b => a.env.commandId ≠ b.env.commandId) ?_ ?_ ?_ seen ds
  · exact fun _ => ⟨fun r hr => (nomatch hr), .nil⟩
  · exact fun _ _ _ _ ih => ih
  · intro seen d ds env runs henv hseen ⟨ihseen, ihpairwise⟩
    refine ⟨fun r hr => ?_, List.pairwise_cons.mpr ⟨fun b hb heq => ?_, ?_⟩⟩
    · obtain rfl | hr := List.mem_cons.mp hr
      · exact hseen
      · exact fun hmem => ihseen r (mem_of_mem_ite hr) (List.mem_cons_of_mem _ hmem)
    · exact ihseen b (mem_of_mem_ite hb) (heq ▸ List.mem_cons_self)
    · split
      · exact ihpairwise
      · exact .nil

end

end Ravn
