import Ravn.Crypto.KeyringJson

/-! The control plane's signing key and the keyring it publishes: the active key as the default, and
the previous keys that are still trusted. Over the whole overlap of a rotation the published ring
accepts what any of these keys signed, and nothing else (`CommandSigner.rotation_overlap`). -/

namespace Ravn

open Theory

/-! ## The published ring -/

structure CommandSigner (P : Platform) where
  key : P.SigningKey
  pubkeyB64 : String
  keyringJson : List Char

section

variable (P : Platform)

/-- One file of the directory of previous keys is added to the ring. -/
def CommandSigner.addPrevious (ring : Keyring P) (previous : String × String) :
    Except String (Keyring P) :=
  match verifyingKeyFromB64 P previous.2 with
  | .ok prev => .ok (ring.insert prev).2
  | .error e => .error ("invalid previous command key in " ++ previous.1 ++ ": " ++ e.display)

/-- `load_or_generate_with_previous`, from the point where the active key has been read or generated.
The files of the directory come in any order, as names and contents. -/
def CommandSigner.loadOrGenerateWithPrevious (key : P.SigningKey)
    (previousKeysDir : List (String × String)) : Except String (CommandSigner P) := do
  let active := P.verifyingKey key
  let ring ← previousKeysDir.foldlM (CommandSigner.addPrevious P) (Keyring.single active)
  let (_, ring) := ring.setDefault (keyId P active)
  return ⟨key, verifyingKeyToB64 P active, ring.toJson P⟩

end

variable {P : Platform}

/-! ## What a ring trusts -/

namespace Keyring

/-- A ring holds exactly the given keys, each under its own id. -/
def Trusts (ring : Keyring P) (keys : List P.VerifyingKey) : Prop :=
  ∀ kid key, ring.get kid = some key ↔ key ∈ keys ∧ keyId P key = kid

theorem single_trusts (key : P.VerifyingKey) : (single key).Trusts [key] := by
  intro kid k
  by_cases hkid : kid = keyId P key
  · simp only [single, get, BTreeMap.get_insert, if_pos hkid, Option.some.injEq, List.mem_singleton]
    constructor
    · rintro rfl
      exact ⟨rfl, hkid.symm⟩
    · exact fun h => h.1.symm
  · simp only [single, get, BTreeMap.get_insert, if_neg hkid, BTreeMap.get_empty, List.mem_singleton]
    constructor
    · intro hnone
      cases hnone
    · rintro ⟨rfl, rfl⟩
      exact absurd rfl hkid

theorem Trusts.insert {ring : Keyring P} {trusted : List P.VerifyingKey} (h : ring.Trusts trusted)
    {key : P.VerifyingKey} (hnew : keyId P key ∉ trusted.map (keyId P)) :
    (ring.insert key).2.Trusts (trusted ++ [key]) := by
  intro kid k
  have hother : k ∈ trusted → keyId P k ≠ keyId P key :=
    fun hk heq => hnew (heq ▸ List.mem_map_of_mem hk)
  by_cases hkid : kid = keyId P key
  · simp only [Keyring.insert, get, BTreeMap.get_insert, if_pos hkid, Option.some.injEq,
      List.mem_append, List.mem_singleton]
    constructor
    · rintro rfl
      exact ⟨.inr rfl, hkid.symm⟩
    · rintro ⟨hk | rfl, rfl⟩
      · exact absurd hkid (hother hk)
      · rfl
  · have hget := h kid k
    simp only [get] at hget
    simp only [Keyring.insert, get, BTreeMap.get_insert, if_neg hkid, hget, List.mem_append,
      List.mem_singleton]
    constructor
    · exact fun ⟨hk, hid⟩ => ⟨.inl hk, hid⟩
    · rintro ⟨hk | rfl, rfl⟩
      · exact ⟨hk, rfl⟩
      · exact absurd rfl hkid

theorem Trusts.containsKey {ring : Keyring P} {trusted : List P.VerifyingKey}
    (h : ring.Trusts trusted) (hkey : key ∈ trusted) :
    ring.keys.containsKey (keyId P key) = true := by
  have hget : ring.keys.get (keyId P key) = some key := (h _ _).mpr ⟨hkey, rfl⟩
  exact BTreeMap.containsKey_iff.mpr (BTreeMap.mem_keys.mpr ⟨key, hget⟩)

/-- The ring that the files of the directory make. -/
theorem foldlM_addPrevious {files : List (String × String)} {previous : List P.VerifyingKey}
    (hfiles : files.map (fun f => verifyingKeyFromB64 P f.2) = previous.map .ok)
    {ring : Keyring P} {trusted : List P.VerifyingKey} (h : ring.Trusts trusted)
    (hkids : ((trusted ++ previous).map (keyId P)).Nodup) :
    ∃ ring', files.foldlM (CommandSigner.addPrevious P) ring = .ok ring' ∧
      ring'.Trusts (trusted ++ previous) ∧ ring'.defaultKid = ring.defaultKid := by
  induction files generalizing ring trusted previous with
  | nil =>
    cases previous with
    | nil => exact ⟨ring, rfl, by rwa [List.append_nil], rfl⟩
    | cons key previous => simp at hfiles
  | cons file files ih =>
    cases previous with
    | nil => simp at hfiles
    | cons key previous =>
      obtain ⟨hkey, hfiles⟩ := List.cons.inj hfiles
      rw [List.append_cons] at hkids ⊢
      have hnew : keyId P key ∉ trusted.map (keyId P) := by
        intro hmem
        have hdup := (List.nodup_append.mp (List.map_append ▸ hkids)).1
        rw [List.map_append, List.nodup_append] at hdup
        exact hdup.2.2 _ hmem _ (by simp) rfl
      obtain ⟨ring', hfold, htrusts, hdefault⟩ := ih hfiles (h.insert hnew) hkids
      refine ⟨ring', ?_, htrusts, hdefault⟩
      have hread : verifyingKeyFromB64 P file.2 = .ok key := hkey
      rw [List.foldlM_cons, CommandSigner.addPrevious, hread]
      exact hfold

/-- The key that an envelope's `kid` selects is a trusted one. -/
theorem Trusts.select_mem {ring : Keyring P} {trusted : List P.VerifyingKey}
    (h : ring.Trusts trusted) (hkey : ring.select kid = some key) : key ∈ trusted := by
  cases kid with
  | some kid => exact ((h kid key).mp hkey).1
  | none =>
    obtain ⟨kid, -, hget⟩ := Option.bind_eq_some_iff.mp hkey
    exact ((h kid key).mp hget).1

end Keyring

/-! ## Verdicts under an ideal scheme -/

/-- A trusted key's signature is accepted until the envelope expires. -/
theorem verifyEnvelopeWith_signEnvelope (hscheme : Ed25519 P) {ring : Keyring P}
    {trusted : List P.VerifyingKey} (h : ring.Trusts trusted) (hkey : P.verifyingKey key ∈ trusted)
    (env : CommandEnvelope) (now : DateTime) :
    verifyEnvelopeWith P ring (signEnvelope P key env) now = .ok () ↔ now ≤ env.expiresAt := by
  have hselect : ring.select (signEnvelope P key env).kid = some (P.verifyingKey key) :=
    (h _ _).mpr ⟨hkey, rfl⟩
  have hsig : verifySignature P (P.verifyingKey key) (signEnvelope P key env) = .ok () :=
    verifySignature_of_signedBy hscheme.toKeysTold (signedBy_signEnvelope key env)
  rw [verifyEnvelopeWith_eq_ok]
  constructor
  · rintro ⟨_, -, -, hnow⟩
    exact hnow
  · exact fun hnow => ⟨_, hselect, hsig, hnow⟩

/-- What a key that is not trusted has signed is rejected. -/
theorem verifyEnvelopeWith_other (hscheme : Ed25519 P) {ring : Keyring P}
    {trusted : List P.VerifyingKey} (h : ring.Trusts trusted) (hsigned : SignedBy P key env)
    (hother : P.verifyingKey key ∉ trusted) (now : DateTime) :
    verifyEnvelopeWith P ring env now =
      .error (if ring.select env.kid = none then .unknownKey else .badSignature) := by
  cases hselect : ring.select env.kid with
  | none => simp [verifyEnvelopeWith, hselect]
  | some k =>
    have hne : P.verifyingKey key ≠ k := fun heq => hother (heq ▸ h.select_mem hselect)
    simp [verifyEnvelopeWith, hselect, verifySignature_other hscheme.toKeysTold hsigned hne]

/-! ## Rotation -/

namespace CommandSigner

/-- The published document is read as a ring that trusts the active and the previous keys, with the
active one as its default. -/
theorem fromJson_keyringJson (hscheme : Ed25519 P) (key : P.SigningKey)
    {previous : List P.VerifyingKey} {files : List (String × String)}
    (hfiles : files.map (fun f => verifyingKeyFromB64 P f.2) = previous.map .ok)
    (hkids : ((P.verifyingKey key :: previous).map (keyId P)).Nodup) :
    ∃ signer ring, loadOrGenerateWithPrevious P key files = .ok signer ∧
      Keyring.fromJson P signer.keyringJson = .ok ring ∧
      ring.Trusts (P.verifyingKey key :: previous) ∧
      ring.defaultKid = some (keyId P (P.verifyingKey key)) := by
  obtain ⟨ring, hfold, htrusts, -⟩ :=
    Keyring.foldlM_addPrevious hfiles (Keyring.single_trusts (P.verifyingKey key)) hkids
  have hactive : ring.keys.containsKey (keyId P (P.verifyingKey key)) = true :=
    htrusts.containsKey List.mem_cons_self
  have hload : loadOrGenerateWithPrevious P key files =
      .ok ⟨key, verifyingKeyToB64 P (P.verifyingKey key),
        Keyring.toJson P { ring with defaultKid := some (keyId P (P.verifyingKey key)) }⟩ := by
    simp only [loadOrGenerateWithPrevious, hfold, Keyring.setDefault, Except.bind, bind, hactive,
      if_true]
    rfl
  refine ⟨_, _, hload, Keyring.fromJson_toJson hscheme.toKeyBytes ?_, htrusts, rfl⟩
  rintro kid ⟨⟩
  exact hactive

/-- Zero-downtime rotation. The published ring accepts what the active key or a previous one has
signed, until it expires; it rejects what any other key has signed, whatever `kid` that carries; and
an envelope without `kid` is accepted only from the active key. -/
theorem rotation_overlap (P : Platform) (hscheme : Ed25519 P) (key : P.SigningKey)
    (previous : List P.VerifyingKey) (files : List (String × String))
    (hfiles : files.map (fun f => verifyingKeyFromB64 P f.2) = previous.map .ok)
    (hkids : ((P.verifyingKey key :: previous).map (keyId P)).Nodup) :
    ∃ signer ring, loadOrGenerateWithPrevious P key files = .ok signer ∧
      Keyring.fromJson P signer.keyringJson = .ok ring ∧
      (∀ k env now, P.verifyingKey k ∈ P.verifyingKey key :: previous →
        (verifyEnvelopeWith P ring (signEnvelope P k env) now = .ok () ↔ now ≤ env.expiresAt)) ∧
      (∀ k env now, SignedBy P k env → P.verifyingKey k ∉ P.verifyingKey key :: previous →
        (∀ kid, env.kid = some kid → kid ∉ ring.kids →
          verifyEnvelopeWith P ring env now = .error .unknownKey) ∧
        ((∀ kid, env.kid = some kid → kid ∈ ring.kids) →
          verifyEnvelopeWith P ring env now = .error .badSignature)) ∧
      (∀ env now, env.kid = none → verifyEnvelopeWith P ring env now = .ok () →
        ∃ k, P.verifyingKey k = P.verifyingKey key ∧ SignedBy P k env) := by
  obtain ⟨signer, ring, hload, hread, htrusts, hdefault⟩ :=
    fromJson_keyringJson hscheme key hfiles hkids
  have hselect : ring.select none = some (P.verifyingKey key) := by
    rw [Keyring.select, Keyring.defaultKey, hdefault]
    exact (htrusts _ _).mpr ⟨List.mem_cons_self, rfl⟩
  refine ⟨signer, ring, hload, hread, ?_, ?_, ?_⟩
  · intro k env now hk
    exact verifyEnvelopeWith_signEnvelope hscheme htrusts hk env now
  · intro k env now hsigned hk
    rw [verifyEnvelopeWith_other hscheme htrusts hsigned hk]
    constructor
    · intro kid hkid hnot
      have hnone : ring.select env.kid = none := by
        rw [hkid]
        exact Option.eq_none_iff_forall_ne_some.mpr fun k hget => hnot (BTreeMap.mem_keys.mpr ⟨k, hget⟩)
      rw [if_pos hnone]
    · intro hin
      have hsome : ring.select env.kid ≠ none := by
        cases hkid : env.kid with
        | none => simp [hselect]
        | some kid =>
          obtain ⟨k, hget⟩ := BTreeMap.mem_keys.mp (hin kid hkid)
          exact fun hnone => absurd (hget.symm.trans hnone) (by simp)
      rw [if_neg hsome]
  · intro env now hkid hok
    obtain ⟨k, hk, hsig, -⟩ := verifyEnvelopeWith_eq_ok.mp hok
    rw [hkid, hselect] at hk
    cases hk
    exact signedBy_of_verifySignature hscheme hsig

end CommandSigner

namespace Platform

/-- The directory of previous keys with one file, as an editor leaves it. -/
def samplePrevious : List (String × String) :=
  [("2026-05.pub", String.ofList (Base64.encode (List.replicate 32 8) ++ ['\n']))]

end Platform

open Platform in
/-- The key 7 took over from the key 8; the key 9 was never trusted. -/
theorem CommandSigner.rotation_overlap_sample :
    ∃ signer ring, loadOrGenerateWithPrevious sample (7 : UInt8) samplePrevious = .ok signer ∧
      Keyring.fromJson sample signer.keyringJson = .ok ring ∧
      verifyEnvelopeWith sample ring (signEnvelope sample (7 : UInt8) sampleEnvelope) noon = .ok () ∧
      verifyEnvelopeWith sample ring (signEnvelope sample (8 : UInt8) sampleEnvelope) noon = .ok () ∧
      verifyEnvelopeWith sample ring (signEnvelope sample (9 : UInt8) sampleEnvelope) noon ≠
        .ok () := by
  obtain ⟨signer, ring, hload, hread, htrusted, hother, -⟩ :=
    CommandSigner.rotation_overlap sample sample_ed25519 (7 : UInt8) [(8 : UInt8)] samplePrevious
      (by rfl) (by decide +kernel)
  have hkid : (signEnvelope sample (9 : UInt8) sampleEnvelope).kid = some "CQkJCQkJCQkJCQkJ" := by
    decide +kernel
  have hnine := hother (9 : UInt8) (signEnvelope sample (9 : UInt8) sampleEnvelope) noon
    (signedBy_signEnvelope _ _) (by decide)
  refine ⟨signer, ring, hload, hread, (htrusted (7 : UInt8) _ _ (by decide)).mpr (by decide),
    (htrusted (8 : UInt8) _ _ (by decide)).mpr (by decide), ?_⟩
  by_cases hmem : "CQkJCQkJCQkJCQkJ" ∈ ring.kids
  · rw [hnine.2 fun kid h => Option.some.inj (hkid.symm.trans h) ▸ hmem]
    nofun
  · rw [hnine.1 _ hkid hmem]
    nofun

end Ravn
