import Ravn.Crypto.Envelope

/-! What a valid signature says about the envelope that carries it. The signed bytes determine every
field but `sig`, so under a scheme that cannot be forged an accepted envelope is one that was
signed. -/

namespace Ravn

open Theory

/-- With respect to a history of `sign_envelope` calls, a signature verifies under a key only if the
message was signed in one of the calls with the matching private key. -/
def Unforgeable (P : Platform) (calls : List (P.SigningKey × CommandEnvelope)) : Prop :=
  ∀ key msg sig, P.verify key msg sig = true →
    ∃ c ∈ calls, P.verifyingKey c.1 = key ∧ (stamp P c.1 c.2).signingPayload P = msg

variable {P : Platform}

/-- Signing changes `kid` and `sig` only. -/
theorem signEnvelope_unsigned (key : P.SigningKey) (env : CommandEnvelope) :
    (signEnvelope P key env).unsigned = (stamp P key env).unsigned := rfl

theorem exists_call_of_verifyEnvelopeWith (hP : Function.Injective P.rfc3339)
    {ring : Keyring P} (hideal : Unforgeable P calls)
    (h : verifyEnvelopeWith P ring env now = .ok ()) :
    ∃ key, ring.select env.kid = some key ∧ ∃ c ∈ calls, P.verifyingKey c.1 = key ∧
      env.unsigned = (signEnvelope P c.1 c.2).unsigned := by
  obtain ⟨key, hkey, hsig, -⟩ := verifyEnvelopeWith_eq_ok.mp h
  obtain ⟨sig, bytes, -, -, -, hver⟩ := verifySignature_eq_ok.mp hsig
  obtain ⟨c, hc, hck, hmsg⟩ := hideal _ _ _ hver
  refine ⟨key, hkey, c, hc, hck, ?_⟩
  rw [signEnvelope_unsigned]
  exact CommandEnvelope.unsigned_eq_of_signingPayload hP hmsg.symm

/-- The signed bytes determine and are determined by everything of an envelope but `sig`, and an
envelope that verifies under an unforgeable scheme agrees in all of that with one that
`sign_envelope` signed with the selected key. -/
theorem signature_covers_command (P : Platform) (hP : Function.Injective P.rfc3339) :
    (∀ a b : CommandEnvelope, a.signingPayload P = b.signingPayload P → a.unsigned = b.unsigned) ∧
    (∀ (env : CommandEnvelope) (sig : Option String),
      { env with sig := sig }.signingPayload P = env.signingPayload P) ∧
    (∀ calls : List (P.SigningKey × CommandEnvelope), Unforgeable P calls →
      ∀ ring env now, verifyEnvelopeWith P ring env now = .ok () →
        ∃ key, ring.select env.kid = some key ∧ ∃ c ∈ calls, P.verifyingKey c.1 = key ∧
          env.unsigned = (signEnvelope P c.1 c.2).unsigned) := by
  refine ⟨fun a b => CommandEnvelope.unsigned_eq_of_signingPayload hP, fun env sig => rfl, ?_⟩
  intro calls hideal ring env now h
  exact exists_call_of_verifyEnvelopeWith hP hideal h

/-! ## A scheme that verifies exactly what was signed -/

namespace Platform

/-- The sample platform with the log of what was signed as the verifier. -/
abbrev sampleWithLog (calls : List (UInt8 × CommandEnvelope)) : Platform :=
  { sample with
    verify := fun (key : UInt8) msg sig =>
      calls.any (fun c => c.1 = key ∧ (stamp sample c.1 c.2).signingPayload sample = msg) ∧
        sig = List.replicate 64 key }

theorem sampleWithLog_unforgeable (calls : List (UInt8 × CommandEnvelope)) :
    Unforgeable (sampleWithLog calls) calls := by
  intro key msg sig h
  obtain ⟨c, hc, hcond⟩ := List.any_eq_true.mp (of_decide_eq_true h).1
  have hc' : c.1 = key ∧ (stamp sample c.1 c.2).signingPayload sample = msg :=
    of_decide_eq_true hcond
  exact ⟨c, hc, hc'⟩

theorem sampleWithLog_verifySignature {calls : List (UInt8 × CommandEnvelope)}
    (h : (key, env) ∈ calls) :
    verifySignature (sampleWithLog calls) key (signEnvelope (sampleWithLog calls) key env) =
      .ok () := by
  have hany : calls.any (fun c => c.1 = key ∧ (stamp sample c.1 c.2).signingPayload sample =
      (stamp sample key env).signingPayload sample) = true :=
    List.any_eq_true.mpr ⟨_, h, decide_eq_true ⟨rfl, rfl⟩⟩
  refine verifySignature_signEnvelope (P := sampleWithLog calls) ?_ ?_
  · exact List.length_replicate
  · exact decide_eq_true ⟨hany, rfl⟩

end Platform

open Platform in
theorem signature_covers_command_sample :
    verifyEnvelopeWith (sampleWithLog [(7, sampleEnvelope)]) (Keyring.single (7 : UInt8))
        (signEnvelope (sampleWithLog [(7, sampleEnvelope)]) (7 : UInt8) sampleEnvelope) noon =
      .ok () ∧
    ∃ key, (Keyring.single (P := sampleWithLog [(7, sampleEnvelope)]) (7 : UInt8)).select
        (some "BwcHBwcHBwcHBwcH") = some key ∧
      ∃ c ∈ [((7 : UInt8), sampleEnvelope)], c.1 = key := by
  have hok : verifyEnvelopeWith (sampleWithLog [(7, sampleEnvelope)]) (Keyring.single (7 : UInt8))
      (signEnvelope (sampleWithLog [(7, sampleEnvelope)]) (7 : UInt8) sampleEnvelope) noon =
      .ok () := by
    refine verifyEnvelopeWith_eq_ok.mpr ⟨(7 : UInt8), by decide +kernel, ?_, by decide⟩
    exact sampleWithLog_verifySignature (List.mem_singleton_self _)
  have h := (signature_covers_command (sampleWithLog [(7, sampleEnvelope)])
    sampleRfc3339_injective).2.2 _ (sampleWithLog_unforgeable _) _ _ _ hok
  obtain ⟨key, hkey, c, hc, hck, -⟩ := h
  exact ⟨hok, key, hkey, c, hc, hck⟩

end Ravn
