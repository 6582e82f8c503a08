import Ravn.Core.Basic

/-! What the program takes from packages outside the repository, as one record of functions. A result
that relies on how such a function behaves names that behaviour as a hypothesis. -/

namespace Ravn

structure Platform where
  /-- The text that chrono's serde implementation writes for a time. -/
  rfc3339 : DateTime → String
  /-- The `{:?}` form of a string. -/
  debugStr : String → String
  /-- `ed25519_dalek`: keys, the octets of a public key, signing and verifying. -/
  SigningKey : Type
  VerifyingKey : Type
  verifyingKey : SigningKey → VerifyingKey
  toBytes : VerifyingKey → List UInt8
  fromBytes : List UInt8 → Option VerifyingKey
  sign : SigningKey → List UInt8 → List UInt8
  verify : VerifyingKey → List UInt8 → List UInt8 → Bool

end Ravn
