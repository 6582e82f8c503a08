import Ravn.Crypto.Ed25519
import Ravn.Theory.Serde

/-! The keyring as a document: what the control plane publishes, agents pin on disk and the actuator
reloads. A ring whose default is one of its keys is read back from its own document
(`Keyring.fromJson_toJson`). -/

namespace Ravn

open Theory Doc

/-- Failure to decode a key or a keyring. -/
inductive KeyError where
  | badEncoding
  | badLength
  | badKey
deriving DecidableEq

def KeyError.display : KeyError → String
  | badEncoding => "key is not valid base64"
  | badLength => "key has the wrong length"
  | badKey => "key bytes are not a valid Ed25519 key"

/-- The document of a keyring as its reader sees it. -/
structure KeyringDoc where
  activeKid : Option String
  keys : BTreeMap String String

def KeyringDoc.ofDoc (d : Doc) : Option KeyringDoc := do
  let fs ← d.fields ["active_kid", "keys"]
  some ⟨← withDefault fs "active_kid" (asOption asStr) none, ← required fs "keys" (asMap asStr)⟩

section

variable (P : Platform)

def verifyingKeyToB64 (key : P.VerifyingKey) : String := String.ofList (Base64.encode (P.toBytes key))

def verifyingKeyFromB64 (s : String) : Except KeyError P.VerifyingKey :=
  match Base64.decode (trim s.toList) with
  | none => .error .badEncoding
  | some bytes =>
    if bytes.length ≠ 32 then .error .badLength
    else
      match P.fromBytes bytes with
      | none => .error .badKey
      | some key => .ok key

namespace Keyring

/-- All ids in the ring, sorted. -/
def kids {P : Platform} (ring : Keyring P) : List String := ring.keys.keys

def isEmpty {P : Platform} (ring : Keyring P) : Bool := ring.keys.isEmpty

def toJson (ring : Keyring P) : List Char :=
  let keys := ring.keys.mapValues (verifyingKeyToB64 P)
  (Json.obj [("active_kid", optionJson Json.str ring.defaultKid),
    ("keys", .obj (keys.entries.map fun e => (e.1, .str e.2)))]).print

/-- The keys of a document, in the order of their ids. -/
def readKeys (keys : BTreeMap String String) : Except KeyError (BTreeMap String P.VerifyingKey) :=
  keys.entries.foldlM (fun keys e => do return keys.insert e.1 (← verifyingKeyFromB64 P e.2)) .empty

/-- Rejects malformed keys, and an `active_kid` that is not among them. Which id a key stands under
is not checked against the key. -/
def fromJson (text : List Char) : Except KeyError (Keyring P) :=
  match (Json.parse text).bind KeyringDoc.ofDoc with
  | none => .error .badEncoding
  | some doc => do
    let keys ← readKeys P doc.keys
    match doc.activeKid with
    | some kid => if keys.containsKey kid then .ok ⟨keys, some kid⟩ else .error .badKey
    | none => .ok ⟨keys, none⟩

end Keyring

end

variable {P : Platform}

/-! ## Round trip -/

theorem KeyringDoc.ofDoc_toJson (active : Option String) (keys : BTreeMap String String) :
    KeyringDoc.ofDoc (Json.toDoc (.obj [("active_kid", optionJson Json.str active),
      ("keys", .obj (keys.entries.map fun e => (e.1, .str e.2)))])) = some ⟨active, keys⟩ := by
  rw [ofDoc, fields_of_sublist (by decide) (by simp)]
  have hactive : asOption asStr (optionJson Json.str active).toDoc = some active := by
    cases active with
    | none => rfl
    | some kid => rfl
  simp [required, withDefault, hactive, asMap_entries asStr_str]

theorem verifyingKeyFromB64_toB64 (h : KeyBytes P) (key : P.VerifyingKey) :
    verifyingKeyFromB64 P (verifyingKeyToB64 P key) = .ok key := by
  simp [verifyingKeyFromB64, verifyingKeyToB64, trim_encode, Base64.decode_encode,
    h.length_toBytes, h.fromBytes_toBytes]

namespace Keyring

theorem readKeys_mapValues (h : KeyBytes P) (keys : BTreeMap String P.VerifyingKey) :
    readKeys P (keys.mapValues (verifyingKeyToB64 P)) = .ok keys := by
  rw [readKeys, BTreeMap.mapValues, List.foldlM_map]
  simp only [verifyingKeyFromB64_toB64 h]
  exact (List.foldlM_pure).trans (congrArg Except.ok keys.ofList_entries)

/-- A default that is set is one of the keys. -/
def DefaultKnown (ring : Keyring P) : Prop := ∀ kid ∈ ring.defaultKid, ring.keys.containsKey kid = true

theorem fromJson_toJson (h : KeyBytes P) {ring : Keyring P} (hring : ring.DefaultKnown) :
    fromJson P (toJson P ring) = .ok ring := by
  obtain ⟨keys, default⟩ := ring
  rw [fromJson, toJson, Json.parse_print, Option.bind_some, KeyringDoc.ofDoc_toJson]
  simp only [readKeys_mapValues h]
  cases default with
  | none => rfl
  | some kid =>
    have hkid : keys.containsKey kid = true := hring kid rfl
    change (if keys.containsKey kid then _ else _) = _
    rw [if_pos hkid]

theorem single_defaultKnown (key : P.VerifyingKey) : (single key).DefaultKnown := by
  rintro kid ⟨⟩
  simp [single, BTreeMap.containsKey]

end Keyring

end Ravn
