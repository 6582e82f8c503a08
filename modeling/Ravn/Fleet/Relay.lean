import Ravn.Core.Decode
import Ravn.Actuator.Connection

/-! The way of a command from the control plane to the actuator: the agent pulls its commands as one
JSON list, and hands each to the actuator as one line. The envelope that arrives is the one that was
sent, over any number of such hops. -/

namespace Ravn

open Theory CommandEnvelope

/-- A hop that an envelope takes. -/
inductive Hop (P : Platform) (σ : Type u) where
  /-- The answer to a pull, with the commands before and after this one. -/
  | pull (before after : List CommandEnvelope)
  /-- The actuator's socket; of the connection, the line is the one that is written for the envelope. -/
  | socket (conn : Connection P σ)

section

variable (P : Platform) (parseTime : String → Option DateTime) {σ : Type u}

/-- What arrives at the other end of a hop. -/
def Hop.carry (env : CommandEnvelope) : Hop P σ → Option CommandEnvelope
  | pull before after => do
    let envelopes ← listFromText parseTime (listToText P (before ++ env :: after))
    envelopes[before.length]?
  | socket conn =>
    Connection.envelope P (fromText parseTime)
      { conn with line := some (readLine (env.wireLine P)) }

/-- What arrives at the end of a way. -/
def relay (env : CommandEnvelope) (hops : List (Hop P σ)) : Option CommandEnvelope :=
  hops.foldlM (Hop.carry P parseTime) env

end

section

variable {P : Platform} {parseTime : String → Option DateTime} {σ : Type u}
  (htime : ∀ t, parseTime (P.rfc3339 t) = some t)

include htime

theorem Hop.carry_eq (env : CommandEnvelope) (hop : Hop P σ) :
    hop.carry P parseTime env = some env := by
  cases hop with
  | pull before after => simp [carry, listFromText_listToText htime]
  | socket conn => simp [carry, Connection.envelope, fromText_trim_readLine htime]

theorem relay_eq (env : CommandEnvelope) (hops : List (Hop P σ)) :
    relay P parseTime env hops = some env := by
  induction hops with
  | nil => rfl
  | cons hop hops ih =>
    rw [relay, List.foldlM_cons, Hop.carry_eq htime]
    exact ih

end

/-- An envelope is what its text decodes to, also if it was itself decoded from another text, and no
way of relaying it changes the signed bytes or the verdict on it. -/
theorem envelope_survives_relay (P : Platform) (parseTime : String → Option DateTime)
    (htime : ∀ t, parseTime (P.rfc3339 t) = some t) :
    (∀ env, fromText parseTime (env.toText P) = some env) ∧
      (∀ text env, fromText parseTime text = some env →
        fromText parseTime (env.toText P) = some env) ∧
      ∀ (σ : Type u) (hops : List (Hop P σ)) (env : CommandEnvelope),
        ∃ arrived, relay P parseTime env hops = some arrived ∧
          arrived.signingPayload P = env.signingPayload P ∧
          ∀ ring now, verifyEnvelopeWith P ring arrived now = verifyEnvelopeWith P ring env now := by
  refine ⟨fromText_toText htime, fun _ env _ => fromText_toText htime env, ?_⟩
  intro σ hops env
  exact ⟨env, relay_eq htime env hops, rfl, fun _ _ => rfl⟩

/-- A signed restart on its way through a pull and the socket. -/
theorem envelope_survives_relay_sample :
    ∃ arrived, relay Platform.sample Platform.sampleParseTime
        (signEnvelope Platform.sample (7 : UInt8) Platform.sampleEnvelope)
        [.pull [] [Platform.sampleEnvelope],
          .socket ⟨some 0, none, none, Platform.sampleHost, false, 0⟩] = some arrived ∧
      arrived.signingPayload Platform.sample =
        (signEnvelope Platform.sample (7 : UInt8) Platform.sampleEnvelope).signingPayload
          Platform.sample ∧
      ∀ ring now, verifyEnvelopeWith Platform.sample ring arrived now =
        verifyEnvelopeWith Platform.sample ring
          (signEnvelope Platform.sample (7 : UInt8) Platform.sampleEnvelope) now :=
  (envelope_survives_relay Platform.sample Platform.sampleParseTime
    Platform.sampleParseTime_sampleRfc3339).2.2 Bool _ _

end Ravn
