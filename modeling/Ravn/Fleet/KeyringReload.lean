import Ravn.Actuator.Connection
import Ravn.Agent.PinnedKeyring

/-! Reloading the keyring, in the agent from the control plane and in the actuator from the agent's
file. Both compare the ids and the default of the new ring with those of the current one, not the keys
themselves, so a document that puts another key under a known id is taken for the ring that is there
already. -/

namespace Ravn

open Theory

/-- `reload_keyring` on the contents of the keyring file, if it can be read. -/
def reloadKeyringFile (P : Platform) (current : Keyring P) (file : Option (List Char)) : Keyring P :=
  reloadKeyring current (file.bind fun json => (Keyring.fromJson P json).toOption)

variable {P : Platform}

/-! ## Rings that verify alike -/

namespace Keyring

/-- Under an id that both rings know they hold the same key. -/
def SameKeys (current fresh : Keyring P) : Prop :=
  ∀ kid a b, current.get kid = some a → fresh.get kid = some b → a = b

/-- Every envelope gets the same verdict under both rings, at every time. -/
def SameVerdicts (current fresh : Keyring P) : Prop :=
  ∀ env now, verifyEnvelopeWith P current env now = verifyEnvelopeWith P fresh env now

/-- Every key of the ring is the public key of a private key. -/
def Owned (ring : Keyring P) : Prop :=
  ∀ kid key, ring.get kid = some key → ∃ k, P.verifyingKey k = key

/-- Rings with the same ids and the same keys hold the same key under every id. -/
theorem get_eq_of_sameKeys {current fresh : Keyring P} (hkids : current.kids = fresh.kids)
    (hkeys : current.SameKeys fresh) (kid : String) : current.get kid = fresh.get kid := by
  have hmem : kid ∈ current.kids ↔ kid ∈ fresh.kids := by rw [hkids]
  simp only [kids, BTreeMap.mem_keys] at hmem
  cases hc : current.get kid with
  | none =>
    cases hf : fresh.get kid with
    | none => rfl
    | some b =>
      obtain ⟨a, ha⟩ := hmem.mpr ⟨b, hf⟩
      exact absurd (hc.symm.trans ha) nofun
  | some a =>
    obtain ⟨b, hf⟩ := hmem.mp ⟨a, hc⟩
    exact (congrArg some (hkeys kid a b hc hf)).trans hf.symm

/-- Rings with the same ids, the same default and the same keys give the same verdicts. -/
theorem sameVerdicts_of_sameKeys {current fresh : Keyring P} (hids : ¬Changed current fresh)
    (hkeys : current.SameKeys fresh) : current.SameVerdicts fresh := by
  obtain ⟨hkids, hdefault⟩ := not_or.mp hids
  have hget := get_eq_of_sameKeys (not_not.mp hkids) hkeys
  have hselect : ∀ kid, current.select kid = fresh.select kid := by
    intro kid
    cases kid with
    | some kid => exact hget kid
    | none =>
      simp only [select, defaultKey, not_not.mp hdefault]
      exact congrArg _ (funext hget)
  intro env now
  rw [verifyEnvelopeWith, hselect, verifyEnvelopeWith]

/-- Another key under a known id is told apart by what its private key signs. -/
theorem verdict_ne (htold : KeysTold P) {current fresh : Keyring P}
    (hc : current.get kid = some a) (hf : fresh.get kid = some b) (hne : a ≠ b)
    (hk : P.verifyingKey k = a) :
    verifyEnvelopeWith P current (signAs P k (some kid) Platform.sampleEnvelope) Platform.noon ≠
      verifyEnvelopeWith P fresh (signAs P k (some kid) Platform.sampleEnvelope) Platform.noon := by
  have hsigned := signedBy_signAs k (some kid) Platform.sampleEnvelope
  have hnow : Platform.noon ≤ Platform.sampleEnvelope.expiresAt := by decide
  have hok : verifyEnvelopeWith P current (signAs P k (some kid) Platform.sampleEnvelope)
      Platform.noon = .ok () :=
    verifyEnvelopeWith_eq_ok.mpr ⟨a, hc, hk ▸ verifySignature_of_signedBy htold hsigned, hnow⟩
  rw [hok, ne_comm, Ne, verifyEnvelopeWith_eq_ok]
  rintro ⟨key, hkey, hsig, -⟩
  cases hf.symm.trans hkey
  rw [verifySignature_other htold hsigned (hk ▸ hne)] at hsig
  cases hsig

/-- One of two different keys having a private key is enough to tell the rings apart. -/
theorem sameKeys_of_sameVerdicts (htold : KeysTold P) {current fresh : Keyring P}
    (howned : current.Owned ∨ fresh.Owned) (h : current.SameVerdicts fresh) :
    current.SameKeys fresh := by
  intro kid a b hc hf
  by_contra hne
  obtain howned | howned := howned
  · obtain ⟨k, hk⟩ := howned kid a hc
    exact verdict_ne htold hc hf hne hk (h _ _)
  · obtain ⟨k, hk⟩ := howned kid b hf
    exact verdict_ne htold hf hc (Ne.symm hne) hk (h _ _).symm

/-- A ring that takes the new one's place if the change test sees a difference. -/
theorem sameVerdicts_swap {current fresh : Keyring P}
    (h : Changed current fresh ∨ current.SameKeys fresh) :
    (if Changed current fresh then fresh else current).SameVerdicts fresh := by
  by_cases hids : Changed current fresh
  · rw [if_pos hids]
    exact fun _ _ => rfl
  · rw [if_neg hids]
    exact sameVerdicts_of_sameKeys hids (h.resolve_left hids)

theorem sameVerdicts_swap_iff (htold : KeysTold P) {current fresh : Keyring P}
    (howned : current.Owned ∨ fresh.Owned) :
    (if Changed current fresh then fresh else current).SameVerdicts fresh ↔
      Changed current fresh ∨ current.SameKeys fresh := by
  refine ⟨fun h => ?_, sameVerdicts_swap⟩
  by_cases hids : Changed current fresh
  · exact .inl hids
  · rw [if_neg hids] at h
    exact .inr (sameKeys_of_sameVerdicts htold howned h)

end Keyring

/-! ## The two loaders -/

theorem refreshKeyring_ring (s : AgentKeyring P) (writable : Bool)
    (hparse : Keyring.fromJson P json = .ok fresh) (hkeys : fresh.isEmpty = false) :
    (refreshKeyring P s ⟨some json, writable⟩).ring =
      if Keyring.Changed s.ring fresh then fresh else s.ring := by
  have hread : Keyring.readNonempty P json = some fresh := by
    simp [Keyring.readNonempty, hparse, hkeys]
  simp only [refreshKeyring, hread]
  split <;> rfl

theorem reloadKeyringFile_eq (current : Keyring P) (hparse : Keyring.fromJson P json = .ok fresh)
    (hkeys : fresh.isEmpty = false) :
    reloadKeyringFile P current (some json) =
      if Keyring.Changed current fresh then fresh else current := by
  have hempty : ¬fresh.keys.isEmpty = true := by simpa [Keyring.isEmpty] using hkeys
  simp only [reloadKeyringFile, hparse, Option.bind_some, Except.toOption, reloadKeyring,
    if_neg hempty]
  rfl

/-- A document that parses to a ring with keys takes effect, in the agent and in the actuator, if its
ids or its default differ from the current ones, or it has the same keys. Where the keys of one of the
two rings have private keys it takes effect in no other case. Every other document, and none at all,
changes nothing. -/
theorem keyring_reload_effect (P : Platform) :
    (∀ (s : AgentKeyring P) json fresh writable, Keyring.fromJson P json = .ok fresh →
      fresh.isEmpty = false →
      (Keyring.Changed s.ring fresh ∨ s.ring.SameKeys fresh →
        (refreshKeyring P s ⟨some json, writable⟩).ring.SameVerdicts fresh) ∧
      (KeysTold P → s.ring.Owned ∨ fresh.Owned →
        ((refreshKeyring P s ⟨some json, writable⟩).ring.SameVerdicts fresh ↔
          Keyring.Changed s.ring fresh ∨ s.ring.SameKeys fresh))) ∧
    (∀ (current : Keyring P) json fresh, Keyring.fromJson P json = .ok fresh →
      fresh.isEmpty = false →
      (Keyring.Changed current fresh ∨ current.SameKeys fresh →
        (reloadKeyringFile P current (some json)).SameVerdicts fresh) ∧
      (KeysTold P → current.Owned ∨ fresh.Owned →
        ((reloadKeyringFile P current (some json)).SameVerdicts fresh ↔
          Keyring.Changed current fresh ∨ current.SameKeys fresh))) ∧
    (∀ text : Option (List Char),
      (∀ json ∈ text, ∀ fresh, Keyring.fromJson P json = .ok fresh → fresh.isEmpty = true) →
      (∀ (s : AgentKeyring P) writable, (refreshKeyring P s ⟨text, writable⟩).ring = s.ring) ∧
        ∀ current : Keyring P, reloadKeyringFile P current text = current) := by
  refine ⟨?_, ?_, ?_⟩
  · intro s json fresh writable hparse hkeys
    rw [refreshKeyring_ring s writable hparse hkeys]
    exact ⟨Keyring.sameVerdicts_swap, fun htold => Keyring.sameVerdicts_swap_iff htold⟩
  · intro current json fresh hparse hkeys
    rw [reloadKeyringFile_eq current hparse hkeys]
    exact ⟨Keyring.sameVerdicts_swap, fun htold => Keyring.sameVerdicts_swap_iff htold⟩
  · intro text htext
    cases text with
    | none => exact ⟨fun s _ => rfl, fun current => rfl⟩
    | some json =>
      cases hparse : Keyring.fromJson P json with
      | error e =>
        refine ⟨fun s writable => ?_, fun current => ?_⟩
        · simp [refreshKeyring, Keyring.readNonempty, hparse]
        · simp [reloadKeyringFile, hparse, Except.toOption, reloadKeyring]
      | ok fresh =>
        have hkeys : fresh.keys.isEmpty = true := htext json rfl fresh hparse
        refine ⟨fun s writable => ?_, fun current => ?_⟩
        · simp [refreshKeyring, Keyring.readNonempty, hparse, Keyring.isEmpty, hkeys]
        · simp [reloadKeyringFile, hparse, Except.toOption, reloadKeyring, hkeys]

namespace Platform

/-- A ring with one key under an id that does not come from the key. -/
def sampleFleetRing (key : UInt8) : Keyring sample := ⟨BTreeMap.empty.insert "fleet" key, some "fleet"⟩

theorem fromJson_sampleFleetRing (key : UInt8) :
    Keyring.fromJson sample (Keyring.toJson sample (sampleFleetRing key)) =
      .ok (sampleFleetRing key) := by
  apply Keyring.fromJson_toJson sample_ed25519.toKeyBytes
  rintro kid ⟨⟩
  simp [sampleFleetRing, BTreeMap.containsKey]

theorem not_changed_sampleFleetRing (key key' : UInt8) :
    ¬Keyring.Changed (sampleFleetRing key) (sampleFleetRing key') := by
  simp [Keyring.Changed, Keyring.kids, sampleFleetRing, BTreeMap.keys, BTreeMap.insert,
    BTreeMap.insertList, BTreeMap.empty]

end Platform

open Platform in
/-- A rotation to a key with another id takes effect in the actuator; the one to another key under the
id that is there does not take effect in the agent. -/
theorem keyring_reload_effect_sample :
    (reloadKeyringFile sample (Keyring.single (7 : UInt8))
        (some (Keyring.toJson sample (sampleFleetRing 8)))).SameVerdicts (sampleFleetRing 8) ∧
      ¬(refreshKeyring sample ⟨sampleFleetRing 7, none, none⟩
        ⟨some (Keyring.toJson sample (sampleFleetRing 8)), true⟩).ring.SameVerdicts
          (sampleFleetRing 8) := by
  obtain ⟨hagent, hactuator, -⟩ := keyring_reload_effect sample
  constructor
  · exact (hactuator (Keyring.single (7 : UInt8)) _ _ (fromJson_sampleFleetRing 8) rfl).1
      (.inl (.inl (by decide +kernel)))
  · intro h
    have howned : (sampleFleetRing 8).Owned := fun _ key _ => ⟨key, rfl⟩
    obtain hchanged | hsame := ((hagent ⟨sampleFleetRing 7, none, none⟩ _ _ true
      (fromJson_sampleFleetRing 8) rfl).2 sample_ed25519.toKeysTold (.inr howned)).mp h
    · exact not_changed_sampleFleetRing 7 8 hchanged
    · have heq := hsame "fleet" (7 : UInt8) (8 : UInt8) (by simp [Keyring.get, sampleFleetRing])
        (by simp [Keyring.get, sampleFleetRing])
      exact absurd heq (by decide)

open Platform in
/-- The document that puts the key 8 in place of the key 7 changes neither the agent nor the actuator:
both reject what the key 8 has signed, and the ring of the document accepts it. -/
theorem keyring_reload_keeps_old_key :
    Keyring.fromJson sample (Keyring.toJson sample (sampleFleetRing 8)) = .ok (sampleFleetRing 8) ∧
      (sampleFleetRing 8).isEmpty = false ∧
      verifyEnvelopeWith sample
          (refreshKeyring sample ⟨sampleFleetRing 7, none, none⟩
            ⟨some (Keyring.toJson sample (sampleFleetRing 8)), true⟩).ring
          (signAs sample (8 : UInt8) (some "fleet") sampleEnvelope) noon ≠
        verifyEnvelopeWith sample (sampleFleetRing 8)
          (signAs sample (8 : UInt8) (some "fleet") sampleEnvelope) noon ∧
      verifyEnvelopeWith sample
          (reloadKeyringFile sample (sampleFleetRing 7)
            (some (Keyring.toJson sample (sampleFleetRing 8))))
          (signAs sample (8 : UInt8) (some "fleet") sampleEnvelope) noon ≠
        verifyEnvelopeWith sample (sampleFleetRing 8)
          (signAs sample (8 : UInt8) (some "fleet") sampleEnvelope) noon := by
  have hne : verifyEnvelopeWith sample (sampleFleetRing 8)
        (signAs sample (8 : UInt8) (some "fleet") sampleEnvelope) noon ≠
      verifyEnvelopeWith sample (sampleFleetRing 7)
        (signAs sample (8 : UInt8) (some "fleet") sampleEnvelope) noon :=
    Keyring.verdict_ne sample_ed25519.toKeysTold (a := (8 : UInt8)) (b := (7 : UInt8))
      (by simp [Keyring.get, sampleFleetRing]) (by simp [Keyring.get, sampleFleetRing]) (by decide) rfl
  refine ⟨fromJson_sampleFleetRing 8, rfl, ?_, ?_⟩
  · rw [refreshKeyring_ring _ _ (fromJson_sampleFleetRing 8) rfl,
      if_neg (not_changed_sampleFleetRing 7 8)]
    exact hne.symm
  · rw [reloadKeyringFile_eq _ (fromJson_sampleFleetRing 8) rfl,
      if_neg (not_changed_sampleFleetRing 7 8)]
    exact hne.symm

end Ravn
