import Ravn.Core.SigningPayload
import Ravn.Theory.Base64

/-! Signing and verifying command envelopes. The control plane signs with an Ed25519 key; agents and
the actuator verify against a keyring, in which the envelope's `kid` selects the key. -/

namespace Ravn

open Theory

/-! ## Keys -/

section

variable (P : Platform)

/-- `key_id`: the first 16 base64 characters of the public key. -/
def keyId (key : P.VerifyingKey) : String :=
  String.ofList ((Base64.encode (P.toBytes key)).take 16)

/-- A set of trusted public keys indexed by `kid`, one of which may be the default. -/
structure Keyring where
  keys : BTreeMap String P.VerifyingKey
  defaultKid : Option String

end

namespace Keyring

variable {P : Platform}

def new : Keyring P := ⟨.empty, none⟩

def single (key : P.VerifyingKey) : Keyring P :=
  ⟨BTreeMap.empty.insert (keyId P key) key, some (keyId P key)⟩

/-- Adds or replaces a key and leaves the default alone; also returns the key's id. -/
def insert (ring : Keyring P) (key : P.VerifyingKey) : String × Keyring P :=
  (keyId P key, { ring with keys := ring.keys.insert (keyId P key) key })

def setDefault (ring : Keyring P) (kid : String) : Bool × Keyring P :=
  if ring.keys.containsKey kid then (true, { ring with defaultKid := some kid })
  else (false, ring)

def get (ring : Keyring P) (kid : String) : Option P.VerifyingKey := ring.keys.get kid

def defaultKey (ring : Keyring P) : Option P.VerifyingKey := ring.defaultKid.bind ring.keys.get

/-- The key that an envelope's `kid` selects; an envelope without one selects the default key. -/
def select (ring : Keyring P) : Option String → Option P.VerifyingKey
  | some kid => ring.get kid
  | none => ring.defaultKey

end Keyring

/-! ## Signing and verifying -/

/-- Why an envelope failed verification. -/
inductive VerifyError where
  | missingSignature
  | badEncoding
  | badSignature
  | expired
  | unknownKey
deriving DecidableEq

def VerifyError.display : VerifyError → String
  | missingSignature => "command envelope has no signature"
  | badEncoding => "command signature is malformed"
  | badSignature => "command signature does not verify"
  | expired => "command envelope has expired"
  | unknownKey => "command signed by an untrusted or retired key"

section

variable (P : Platform)

/-- The envelope that `sign_envelope` computes the signature over: `kid` is stamped first. -/
def stamp (key : P.SigningKey) (env : CommandEnvelope) : CommandEnvelope :=
  { env with kid := some (keyId P (P.verifyingKey key)) }

def signEnvelope (key : P.SigningKey) (env : CommandEnvelope) : CommandEnvelope :=
  let env := stamp P key env
  { env with sig := some (String.ofList (Base64.encode (P.sign key (env.signingPayload P)))) }

/-- The signature alone, without the expiry. -/
def verifySignature (key : P.VerifyingKey) (env : CommandEnvelope) : Except VerifyError Unit :=
  match env.sig with
  | none => .error .missingSignature
  | some sig =>
    match Base64.decode (trim sig.toList) with
    | none => .error .badEncoding
    | some bytes =>
      if bytes.length ≠ 64 then .error .badEncoding
      else if P.verify key (env.signingPayload P) bytes then .ok ()
      else .error .badSignature

def verifyEnvelopeWith (ring : Keyring P) (env : CommandEnvelope) (now : DateTime) :
    Except VerifyError Unit :=
  match ring.select env.kid with
  | none => .error .unknownKey
  | some key =>
    match verifySignature P key env with
    | .error e => .error e
    | .ok () => if now > env.expiresAt then .error .expired else .ok ()

end

variable {P : Platform}

theorem verifySignature_eq_ok {key : P.VerifyingKey} :
    verifySignature P key env = .ok () ↔ ∃ sig bytes, env.sig = some sig ∧
      Base64.decode (trim sig.toList) = some bytes ∧ bytes.length = 64 ∧
      P.verify key (env.signingPayload P) bytes = true := by
  cases hsig : env.sig with
  | none => simp [verifySignature, hsig]
  | some sig =>
    cases hdec : Base64.decode (trim sig.toList) with
    | none => simp [verifySignature, hsig, hdec]
    | some bytes =>
      by_cases hlen : bytes.length = 64
      · by_cases hver : P.verify key (env.signingPayload P) bytes = true
        · simp [verifySignature, hsig, hdec, hlen, hver]
        · simp [verifySignature, hsig, hdec, hlen, hver]
      · simp [verifySignature, hsig, hdec, hlen]

/-- What an accepted envelope has passed. -/
theorem verifyEnvelopeWith_eq_ok {ring : Keyring P} :
    verifyEnvelopeWith P ring env now = .ok () ↔
      ∃ key, ring.select env.kid = some key ∧ verifySignature P key env = .ok () ∧
        now ≤ env.expiresAt := by
  cases hkey : ring.select env.kid with
  | none => simp [verifyEnvelopeWith, hkey]
  | some key =>
    cases hsig : verifySignature P key env with
    | error e => simp [verifyEnvelopeWith, hkey, hsig]
    | ok u => simp [verifyEnvelopeWith, hkey, hsig]

theorem trim_encode (bs : List UInt8) : trim (Base64.encode bs) = Base64.encode bs := by
  have hdigit : ∀ n ≤ 64, isWhitespace (Base64.digit n) = false := by decide +kernel
  apply trim_eq_self
  intro c hc
  obtain ⟨n, hn, rfl⟩ := Base64.mem_encode hc
  exact hdigit n hn

/-- What `sign_envelope` signs passes the signature check whenever the scheme verifies its own
signatures. -/
theorem verifySignature_signEnvelope {key : P.SigningKey}
    (hlen : (P.sign key ((stamp P key env).signingPayload P)).length = 64)
    (hver : P.verify (P.verifyingKey key) ((stamp P key env).signingPayload P)
      (P.sign key ((stamp P key env).signingPayload P)) = true) :
    verifySignature P (P.verifyingKey key) (signEnvelope P key env) = .ok () := by
  refine verifySignature_eq_ok.mpr ⟨_, _, rfl, ?_, hlen, hver⟩
  rw [String.toList_ofList, trim_encode, Base64.decode_encode]

/-! ## A sample platform

The concrete runs of later modules happen at noon of one day, with keys of one octet. -/

namespace Platform

def noon : DateTime := ⟨1780660800 * 1000000000⟩

def fivePastNoon : DateTime := ⟨1780661100 * 1000000000⟩

/-- The RFC 3339 text of the two times that occur in runs, and an injective text for the others. -/
def sampleRfc3339 (t : DateTime) : String :=
  if t = noon then "2026-06-05T12:00:00Z"
  else if t = fivePastNoon then "2026-06-05T12:05:00Z"
  else String.ofList ('@' :: (Json.num t.nanos).print)

abbrev sample : Platform where
  rfc3339 := sampleRfc3339
  debugStr s := "\"" ++ s ++ "\""
  SigningKey := UInt8
  VerifyingKey := UInt8
  verifyingKey := id
  toBytes key := List.replicate 32 key
  fromBytes bytes := bytes.head?
  sign key _ := List.replicate 64 key
  verify key _ sig := sig = List.replicate 64 key

/-- A restart of one unit, checked before and after. -/
def sampleEnvelope : CommandEnvelope where
  commandId := ⟨1⟩
  agentId := ⟨⟨2⟩⟩
  templateId := "failed-unit-restart"
  templateVersion := 3
  riskTier := .safe
  preconditions := [⟨.unitState "nginx.service", "failed"⟩]
  steps := [.resetFailed "nginx.service", .restartUnit "nginx.service"]
  verify := some ⟨.unitState "nginx.service", "active", 30⟩
  rollback := .nixGeneration
  approvalRef := .human "admin" noon
  nonce := "nonce-1"
  issuedAt := noon
  expiresAt := fivePastNoon
  kid := none
  sig := none

theorem sampleRfc3339_cases (t : DateTime) :
    t = noon ∧ sampleRfc3339 t = "2026-06-05T12:00:00Z" ∨
      t = fivePastNoon ∧ sampleRfc3339 t = "2026-06-05T12:05:00Z" ∨
      sampleRfc3339 t = String.ofList ('@' :: (Json.num t.nanos).print) := by
  unfold sampleRfc3339
  split
  · exact .inl ⟨‹_›, rfl⟩
  · split
    · exact .inr (.inl ⟨‹_›, rfl⟩)
    · exact .inr (.inr rfl)

theorem ofList_at_ne {s : String} (hs : s.toList.head? ≠ some '@') (cs : List Char) :
    String.ofList ('@' :: cs) ≠ s := by
  rintro rfl
  rw [String.toList_ofList] at hs
  exact hs rfl

theorem sampleRfc3339_injective : Function.Injective sampleRfc3339 := by
  have hnoon := ofList_at_ne (s := "2026-06-05T12:00:00Z") (by decide)
  have hfive := ofList_at_ne (s := "2026-06-05T12:05:00Z") (by decide)
  intro a b h
  obtain ⟨rfl, ha⟩ | ⟨rfl, ha⟩ | ha := sampleRfc3339_cases a
  · obtain ⟨rfl, hb⟩ | ⟨rfl, hb⟩ | hb := sampleRfc3339_cases b
    · rfl
    · exact absurd h (by decide)
    · exact absurd (hb.symm.trans (h.symm.trans ha)) (hnoon _)
  · obtain ⟨rfl, hb⟩ | ⟨rfl, hb⟩ | hb := sampleRfc3339_cases b
    · exact absurd h (by decide)
    · rfl
    · exact absurd (hb.symm.trans (h.symm.trans ha)) (hfive _)
  · obtain ⟨rfl, hb⟩ | ⟨rfl, hb⟩ | hb := sampleRfc3339_cases b
    · exact absurd (ha.symm.trans (h.trans hb)) (hnoon _)
    · exact absurd (ha.symm.trans (h.trans hb)) (hfive _)
    · have hchars := String.ofList_injective (ha.symm.trans (h.trans hb))
      have hnum := Json.print_injective (List.tail_eq_of_cons_eq hchars)
      cases a
      cases b
      exact congrArg DateTime.mk (Json.num.inj hnum)

/-- Reads the texts of `sampleRfc3339`. -/
def sampleParseTime (s : String) : Option DateTime :=
  if s = "2026-06-05T12:00:00Z" then some noon
  else if s = "2026-06-05T12:05:00Z" then some fivePastNoon
  else
    match s.toList with
    | '@' :: '-' :: ds => some ⟨-Nat.ofDigitChars 10 ds 0⟩
    | '@' :: ds => some ⟨Nat.ofDigitChars 10 ds 0⟩
    | _ => none

theorem sampleParseTime_sampleRfc3339 (t : DateTime) :
    sampleParseTime (sampleRfc3339 t) = some t := by
  obtain ⟨rfl, h⟩ | ⟨rfl, h⟩ | h := sampleRfc3339_cases t
  · rw [h]
    rfl
  · rw [h]
    rfl
  · rw [h, sampleParseTime, if_neg (ofList_at_ne (by decide) _), if_neg (ofList_at_ne (by decide) _),
      String.toList_ofList]
    obtain ⟨n | n⟩ := t
    · obtain ⟨c, cs, hc, hd⟩ := Json.printNat_head n
      have hvalue : Nat.ofDigitChars 10 (c :: cs) 0 = n := hc ▸ Nat.ofDigitChars_ten_toDigits
      change (match '@' :: Json.printNat n with
        | '@' :: '-' :: ds => some (⟨-Nat.ofDigitChars 10 ds 0⟩ : DateTime)
        | '@' :: ds => some ⟨Nat.ofDigitChars 10 ds 0⟩
        | _ => none) = some ⟨n⟩
      rw [hc]
      split
      · rename_i heq
        rw [(List.cons.inj (List.cons.inj heq).2).1] at hd
        exact absurd hd (by decide)
      · rename_i heq
        rw [← (List.cons.inj heq).2, hvalue]
      · rename_i hnot
        exact absurd rfl (hnot _)
    · have hvalue : Nat.ofDigitChars 10 (Json.printNat (n + 1)) 0 = n + 1 :=
        Nat.ofDigitChars_ten_toDigits
      change some (⟨-Nat.ofDigitChars 10 (Json.printNat (n + 1)) 0⟩ : DateTime) = _
      rw [hvalue]
      rfl

end Platform

end Ravn
