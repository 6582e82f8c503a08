import Ravn.Crypto.KeyringJson
import Ravn.Theory.Except

/-! The keyrings that can come about. Whatever made a ring, a default that is set is one of its keys,
and so its own document is read back as the ring (`keyring_representation`). A document with a key that
cannot be decoded, or with an active id that is none of its keys, is refused. -/

namespace Ravn

open Theory

variable {P : Platform}

namespace Keyring

/-- The rings that the constructors, the mutators and the reader make. -/
inductive Reachable : Keyring P → Prop where
  | new : Reachable new
  | single (key : P.VerifyingKey) : Reachable (single key)
  | insert (key : P.VerifyingKey) : Reachable ring → Reachable (ring.insert key).2
  | setDefault (kid : String) : Reachable ring → Reachable (ring.setDefault kid).2
  | fromJson (text : List Char) : fromJson P text = .ok ring → Reachable ring

/-! ## The default -/

theorem DefaultKnown.insert {ring : Keyring P} (h : ring.DefaultKnown) (key : P.VerifyingKey) :
    (ring.insert key).2.DefaultKnown := by
  intro kid hkid
  have hold : ring.keys.containsKey kid = true := h kid hkid
  rw [BTreeMap.containsKey] at hold
  rw [Keyring.insert, BTreeMap.containsKey, BTreeMap.get_insert]
  split
  · rfl
  · exact hold

theorem DefaultKnown.setDefault {ring : Keyring P} (h : ring.DefaultKnown) (kid : String) :
    (ring.setDefault kid).2.DefaultKnown := by
  rw [Keyring.setDefault]
  split
  · rename_i hkid
    rintro kid' ⟨⟩
    exact hkid
  · exact h

/-- The document that a text is read as. -/
def readDoc (text : List Char) : Option KeyringDoc := (Json.parse text).bind KeyringDoc.ofDoc

/-- A ring is read of a document whose keys can all be decoded and whose active id is one of them. -/
theorem fromJson_eq_ok {ring : Keyring P} (h : fromJson P text = .ok ring) :
    ∃ doc, readDoc text = some doc ∧ readKeys P doc.keys = .ok ring.keys ∧
      ring.defaultKid = doc.activeKid ∧ ring.DefaultKnown := by
  rw [fromJson] at h
  split at h
  · cases h
  · rename_i doc hdoc
    obtain ⟨keys, hkeys, h⟩ := bind_eq_ok h
    refine ⟨doc, hdoc, ?_⟩
    split at h
    · rename_i kid hactive
      split at h
      · rename_i hkid
        cases h
        refine ⟨hkeys, hactive.symm, ?_⟩
        rintro kid' ⟨⟩
        exact hkid
      · cases h
    · rename_i hactive
      cases h
      refine ⟨hkeys, hactive.symm, ?_⟩
      rintro kid' ⟨⟩

/-- A default that is set is one of the keys, whatever made the ring. -/
theorem Reachable.defaultKnown {ring : Keyring P} (h : ring.Reachable) : ring.DefaultKnown := by
  induction h with
  | new => exact fun kid hkid => nomatch hkid
  | single key => exact single_defaultKnown key
  | insert key _ ih => exact ih.insert key
  | setDefault kid _ ih => exact ih.setDefault kid
  | fromJson text h =>
    obtain ⟨-, -, -, -, hknown⟩ := fromJson_eq_ok h
    exact hknown

theorem DefaultKnown.defaultKey_eq_none {ring : Keyring P} (h : ring.DefaultKnown)
    (hkey : ring.defaultKey = none) : ring.defaultKid = none := by
  cases hkid : ring.defaultKid with
  | none => rfl
  | some kid =>
    have hknown := h kid hkid
    rw [defaultKey, hkid, Option.bind_some] at hkey
    rw [BTreeMap.containsKey, hkey] at hknown
    cases hknown

/-! ## Documents that are refused -/

/-- The keys that have been read stand under the ids of the document, each the one that its text there
decodes to. -/
theorem foldlM_insert_get {es : List (String × String)} (hs : es.Pairwise fun a b => a.1 < b.1)
    {keys out : BTreeMap String P.VerifyingKey}
    (h : es.foldlM (fun keys e => do return keys.insert e.1 (← verifyingKeyFromB64 P e.2)) keys =
      .ok out) (kid : String) :
    match BTreeMap.getList es kid with
    | some b64 => ∃ key, verifyingKeyFromB64 P b64 = .ok key ∧ out.get kid = some key
    | none => out.get kid = keys.get kid := by
  induction es generalizing keys with
  | nil =>
    cases h
    rfl
  | cons e es ih =>
    obtain ⟨j, b64⟩ := e
    obtain ⟨hj, hes⟩ := List.pairwise_cons.mp hs
    rw [List.foldlM_cons] at h
    obtain ⟨keys', hstep, h⟩ := bind_eq_ok h
    obtain ⟨key, hkey, hstep⟩ := bind_eq_ok hstep
    cases hstep
    have hrest := ih hes h
    rw [BTreeMap.getList]
    by_cases hkid : kid = j
    · subst hkid
      have hnone : BTreeMap.getList es kid = none := by
        cases hget : BTreeMap.getList es kid with
        | none => rfl
        | some w => exact absurd (hj _ (BTreeMap.mem_of_getList hget)) (lt_irrefl _)
      rw [hnone] at hrest
      rw [if_pos rfl]
      exact ⟨key, hkey, hrest.trans (by simp)⟩
    · rw [if_neg hkid]
      cases hget : BTreeMap.getList es kid with
      | none =>
        rw [hget] at hrest
        exact hrest.trans (by simp [hkid])
      | some w =>
        rw [hget] at hrest
        exact hrest

theorem readKeys_get {docKeys : BTreeMap String String} {keys : BTreeMap String P.VerifyingKey}
    (h : readKeys P docKeys = .ok keys) (kid : String) :
    match docKeys.get kid with
    | some b64 => ∃ key, verifyingKeyFromB64 P b64 = .ok key ∧ keys.get kid = some key
    | none => keys.get kid = none :=
  foldlM_insert_get docKeys.sorted h kid

/-- A text of the document that is not the one of a key. -/
def Undecodable (P : Platform) (doc : KeyringDoc) : Prop :=
  ∃ kid b64, doc.keys.get kid = some b64 ∧ ∀ key, verifyingKeyFromB64 P b64 ≠ .ok key

/-- An active id that is none of the document's keys. -/
def Dangling (doc : KeyringDoc) : Prop := ∃ kid ∈ doc.activeKid, doc.keys.containsKey kid = false

theorem not_undecodable_of_fromJson {ring : Keyring P} (h : fromJson P text = .ok ring)
    (hdoc : readDoc text = some doc) : ¬Undecodable P doc := by
  rintro ⟨kid, b64, hget, hbad⟩
  obtain ⟨doc', hdoc', hkeys, -, -⟩ := fromJson_eq_ok h
  cases hdoc.symm.trans hdoc'
  have hread := readKeys_get hkeys kid
  rw [hget] at hread
  obtain ⟨key, hkey, -⟩ := hread
  exact hbad key hkey

theorem not_dangling_of_fromJson {ring : Keyring P} (h : fromJson P text = .ok ring)
    (hdoc : readDoc text = some doc) : ¬Dangling doc := by
  rintro ⟨kid, hactive, hmissing⟩
  obtain ⟨doc', hdoc', hkeys, hdefault, hknown⟩ := fromJson_eq_ok h
  cases hdoc.symm.trans hdoc'
  have hread := readKeys_get hkeys kid
  have hin := hknown kid (hdefault ▸ hactive)
  rw [BTreeMap.containsKey, Option.isSome_eq_false_iff, Option.isNone_iff_eq_none] at hmissing
  rw [hmissing] at hread
  rw [BTreeMap.containsKey, hread] at hin
  cases hin

/-- A ring that can come about has a default only among its keys and is read back from its own
document, and a text is refused that is no document or one with an undecodable key or a dangling
active id. -/
theorem keyring_representation (hbytes : KeyBytes P) :
    (∀ ring : Keyring P, ring.Reachable → ring.DefaultKnown ∧
      (ring.defaultKey = none → ring.defaultKid = none) ∧
      fromJson P (toJson P ring) = .ok ring) ∧
    ∀ text, (∀ doc, readDoc text = some doc → Undecodable P doc ∨ Dangling doc) →
      ∃ e, fromJson P text = .error e := by
  refine ⟨fun ring hring => ?_, fun text hbad => ?_⟩
  · have hknown := hring.defaultKnown
    exact ⟨hknown, hknown.defaultKey_eq_none, fromJson_toJson hbytes hknown⟩
  · cases hread : fromJson P text with
    | error e => exact ⟨e, rfl⟩
    | ok ring =>
      obtain ⟨doc, hdoc, -, -, -⟩ := fromJson_eq_ok hread
      rcases hbad doc hdoc with hbad | hbad
      · exact absurd hbad (not_undecodable_of_fromJson hread hdoc)
      · exact absurd hbad (not_dangling_of_fromJson hread hdoc)

end Keyring

namespace Platform

/-- A ring after a rotation: the new key is the default, and the old one is still there. -/
def sampleRotated : Keyring sample :=
  (((Keyring.single (7 : UInt8)).insert (9 : UInt8)).2.setDefault (keyId sample (9 : UInt8))).2

/-- A document whose active id is none of its keys. -/
def sampleDanglingDoc : List Char :=
  (Json.obj [("active_kid", .str "deadbeef"), ("keys", .obj [])]).print

theorem readDoc_sampleDanglingDoc :
    Keyring.readDoc sampleDanglingDoc = some ⟨some "deadbeef", .empty⟩ := by
  rw [Keyring.readDoc, sampleDanglingDoc, Json.parse_print]
  exact KeyringDoc.ofDoc_toJson (some "deadbeef") .empty

theorem keyring_representation_sample :
    sampleRotated.DefaultKnown ∧
      Keyring.fromJson sample (Keyring.toJson sample sampleRotated) = .ok sampleRotated ∧
      ∃ e, Keyring.fromJson sample sampleDanglingDoc = .error e := by
  obtain ⟨hring, hrefused⟩ := Keyring.keyring_representation sample_ed25519.toKeyBytes
  obtain ⟨hknown, -, hread⟩ := hring sampleRotated (.setDefault _ (.insert _ (.single _)))
  refine ⟨hknown, hread, hrefused _ fun doc hdoc => .inr ?_⟩
  rw [← Option.some.inj (readDoc_sampleDanglingDoc.symm.trans hdoc)]
  exact ⟨"deadbeef", rfl, rfl⟩

end Platform

end Ravn
