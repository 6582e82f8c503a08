import Ravn.Crypto.Envelope

/-! What the development relies on of Ed25519. A private key's signature verifies under its public key
and under no other; as an ideal scheme it also cannot be forged. Nothing is said of what verifies under
a public key that no private key belongs to. -/

namespace Ravn

open Theory

section

variable (P : Platform)

/-- The octets of a public key are 32, and give the key back. -/
structure KeyBytes : Prop where
  length_toBytes : ∀ key, (P.toBytes key).length = 32
  fromBytes_toBytes : ∀ key, P.fromBytes (P.toBytes key) = some key

/-- A signature verifies under the public key of its private key, and under no other. -/
structure KeysTold : Prop where
  length_sign : ∀ k msg, (P.sign k msg).length = 64
  verify_sign : ∀ k msg, P.verify (P.verifyingKey k) msg (P.sign k msg) = true
  verify_other : ∀ k key msg, P.verifyingKey k ≠ key → P.verify key msg (P.sign k msg) = false

/-- The ideal scheme: what verifies under the public key of a private key was made with one. -/
structure Ed25519 : Prop extends KeyBytes P, KeysTold P where
  sign_of_verify : ∀ k msg sig, P.verify (P.verifyingKey k) msg sig = true →
    ∃ k', P.verifyingKey k' = P.verifyingKey k ∧ P.sign k' msg = sig

/-- An envelope carries a signature over its own signed bytes that the key made. -/
def SignedBy (key : P.SigningKey) (env : CommandEnvelope) : Prop :=
  ∃ sig, env.sig = some sig ∧
    Base64.decode (trim sig.toList) = some (P.sign key (env.signingPayload P))

/-- An envelope with an id of the signer's choice. -/
def signAs (key : P.SigningKey) (kid : Option String) (env : CommandEnvelope) : CommandEnvelope :=
  let env := { env with kid := kid }
  { env with sig := some (String.ofList (Base64.encode (P.sign key (env.signingPayload P)))) }

end

variable {P : Platform}

theorem signedBy_signAs (key : P.SigningKey) (kid : Option String) (env : CommandEnvelope) :
    SignedBy P key (signAs P key kid env) := by
  refine ⟨_, rfl, ?_⟩
  rw [String.toList_ofList, trim_encode, Base64.decode_encode]
  rfl

theorem signedBy_signEnvelope (key : P.SigningKey) (env : CommandEnvelope) :
    SignedBy P key (signEnvelope P key env) :=
  signedBy_signAs key _ env

theorem verifySignature_of_signedBy (hkeys : KeysTold P) (hsigned : SignedBy P key env) :
    verifySignature P (P.verifyingKey key) env = .ok () := by
  obtain ⟨sig, hsig, hbytes⟩ := hsigned
  exact verifySignature_eq_ok.mpr ⟨sig, _, hsig, hbytes, hkeys.length_sign _ _,
    hkeys.verify_sign _ _⟩

/-- Under another key than the signer's the signature is a bad one. -/
theorem verifySignature_other (hkeys : KeysTold P) (hsigned : SignedBy P key env)
    (hother : P.verifyingKey key ≠ k) : verifySignature P k env = .error .badSignature := by
  obtain ⟨sig, hsig, hbytes⟩ := hsigned
  simp [verifySignature, hsig, hbytes, hkeys.length_sign, hkeys.verify_other _ _ _ hother]

theorem signedBy_of_verifySignature (hscheme : Ed25519 P)
    (h : verifySignature P (P.verifyingKey key) env = .ok ()) :
    ∃ k, P.verifyingKey k = P.verifyingKey key ∧ SignedBy P k env := by
  obtain ⟨sig, bytes, hsig, hbytes, -, hver⟩ := verifySignature_eq_ok.mp h
  obtain ⟨k, hk, rfl⟩ := hscheme.sign_of_verify _ _ _ hver
  exact ⟨k, hk, sig, hsig, hbytes⟩

namespace Platform

theorem sample_ed25519 : Ed25519 sample where
  length_toBytes _ := List.length_replicate
  fromBytes_toBytes _ := rfl
  length_sign _ _ := List.length_replicate
  verify_sign _ _ := decide_eq_true rfl
  verify_other k key msg hne := by
    apply decide_eq_false
    intro h
    exact hne (Option.some.inj (congrArg List.head? h))
  sign_of_verify k msg sig h := ⟨k, rfl, (of_decide_eq_true h).symm⟩

end Platform

end Ravn
