import Ravn.Theory.Text
import Mathlib.Order.Lattice
import Mathlib.Algebra.Ring.Int.Defs
import Mathlib.Data.Int.Order.Basic

/-! The scalar types that the crates share: `uuid::Uuid` with its text forms, `AgentId`, and the
chrono and std notions of time. Times are counted in nanoseconds. -/

namespace Ravn

open Theory

/-! ## Identifiers -/

/-- A `uuid::Uuid`. -/
structure Uuid where
  bits : BitVec 128
deriving DecidableEq

namespace Uuid

/-- The form that `Display` and serde write: lower case, hyphenated. -/
def toText (u : Uuid) : List Char :=
  let d := hexDigits 32 u.bits.toNat
  d.take 8 ++ '-' :: ((d.drop 8).take 4 ++ '-' :: ((d.drop 12).take 4 ++ '-' ::
    ((d.drop 16).take 4 ++ '-' :: d.drop 20)))

def toString (u : Uuid) : String := String.ofList u.toText

/-- 32 hexadecimal digits. -/
def parseSimple (cs : List Char) : Option Uuid :=
  if cs.length = 32 then (ofHex cs).map fun n => ⟨BitVec.ofNat 128 n⟩ else none

/-- 36 characters with hyphens after the 8th, 12th, 16th and 20th digit. -/
def parseHyphenated (cs : List Char) : Option Uuid :=
  if cs.length = 36 ∧ cs[8]? = some '-' ∧ cs[13]? = some '-' ∧ cs[18]? = some '-' ∧
      cs[23]? = some '-' then
    parseSimple (cs.take 8 ++ ((cs.drop 9).take 4 ++ ((cs.drop 14).take 4 ++
      ((cs.drop 19).take 4 ++ cs.drop 24))))
  else none

/-- `Uuid::parse_str`: the simple form, or the hyphenated one, bare, braced or as a URN. -/
def parse (cs : List Char) : Option Uuid :=
  if cs.length = 32 then parseSimple cs
  else if cs.length = 36 then parseHyphenated cs
  else if cs.length = 38 ∧ cs.head? = some '{' ∧ cs.getLast? = some '}' then
    parseHyphenated (cs.drop 1).dropLast
  else if cs.length = 45 ∧ cs.take 9 = "urn:uuid:".toList then parseHyphenated (cs.drop 9)
  else none

theorem length_toText (u : Uuid) : u.toText.length = 36 := by
  simp [toText]

theorem mem_toText {u : Uuid} (h : c ∈ u.toText) : c = '-' ∨ ∃ d < 16, c = Nat.digitChar d := by
  have hd : ∀ {l : List Char}, (∀ x ∈ l, x ∈ hexDigits 32 u.bits.toNat) → c ∈ l →
      c = '-' ∨ ∃ d < 16, c = Nat.digitChar d := fun hl hc => .inr (mem_hexDigits (hl c hc))
  simp only [toText, List.mem_append, List.mem_cons] at h
  rcases h with h | h | h | h | h | h | h | h | h
  · exact hd (fun x => List.mem_of_mem_take) h
  · exact .inl h
  · exact hd (fun x hx => List.mem_of_mem_drop (List.mem_of_mem_take hx)) h
  · exact .inl h
  · exact hd (fun x hx => List.mem_of_mem_drop (List.mem_of_mem_take hx)) h
  · exact .inl h
  · exact hd (fun x hx => List.mem_of_mem_drop (List.mem_of_mem_take hx)) h
  · exact .inl h
  · exact hd (fun x => List.mem_of_mem_drop) h

/-- No character of an identifier's text is white space or ends a line. -/
theorem not_isWhitespace_of_mem_toText {u : Uuid} (h : c ∈ u.toText) : isWhitespace c = false := by
  have hdigit : ∀ d < 16, isWhitespace (Nat.digitChar d) = false := by decide
  rcases mem_toText h with rfl | ⟨d, hlt, rfl⟩
  · decide
  · exact hdigit d hlt

theorem parseSimple_hexDigits (u : Uuid) :
    parseSimple (hexDigits 32 u.bits.toNat) = some u := by
  have hlt : u.bits.toNat < 16 ^ 32 := u.bits.isLt
  simp [parseSimple, ofHex_hexDigits hlt]

/-- The digits between the hyphens, put together again. -/
theorem parseHyphenated_groups {a b c d e : List Char} (ha : a.length = 8) (hb : b.length = 4)
    (hc : c.length = 4) (hd : d.length = 4) (he : e.length = 12) :
    parseHyphenated (a ++ '-' :: (b ++ '-' :: (c ++ '-' :: (d ++ '-' :: e)))) =
      parseSimple (a ++ (b ++ (c ++ (d ++ e)))) := by
  simp [parseHyphenated, List.drop_append, ha, hb, hc, hd, he,
    List.drop_of_length_le]

theorem parse_toText (u : Uuid) : parse u.toText = some u := by
  rw [parse, if_neg (by simp [length_toText]), if_pos (length_toText u), toText,
    parseHyphenated_groups (by simp) (by simp) (by simp) (by simp) (by simp)]
  rw [show (hexDigits 32 u.bits.toNat).drop 20 =
      ((hexDigits 32 u.bits.toNat).drop 16).drop 4 by simp, List.take_append_drop,
    show (hexDigits 32 u.bits.toNat).drop 16 =
      ((hexDigits 32 u.bits.toNat).drop 12).drop 4 by simp, List.take_append_drop,
    show (hexDigits 32 u.bits.toNat).drop 12 =
      ((hexDigits 32 u.bits.toNat).drop 8).drop 4 by simp, List.take_append_drop,
    List.take_append_drop, parseSimple_hexDigits]

theorem toText_injective {u v : Uuid} (h : u.toText = v.toText) : u = v := by
  simpa [parse_toText] using congrArg parse h

theorem toString_injective {u v : Uuid} (h : u.toString = v.toString) : u = v :=
  toText_injective (String.ofList_injective h)

end Uuid

/-- Stable identity of an agent, assigned at enrollment. -/
structure AgentId where
  uuid : Uuid
deriving DecidableEq

/-! ## Time -/

/-- A `chrono::DateTime<Utc>`, as nanoseconds since the Unix epoch. -/
structure DateTime where
  nanos : Int
deriving DecidableEq

namespace DateTime

instance : LinearOrder DateTime :=
  LinearOrder.lift' nanos fun a b h => by cases a; cases b; cases h; rfl

theorem le_def {a b : DateTime} : a ≤ b ↔ a.nanos ≤ b.nanos := Iff.rfl

theorem lt_def {a b : DateTime} : a < b ↔ a.nanos < b.nanos := Iff.rfl

/-- `DateTime::<Utc>::MIN_UTC` and `MAX_UTC`: the years -262143 to 262142. -/
def minUtc : DateTime := ⟨-8334601228800 * 1000000000⟩

def maxUtc : DateTime := ⟨8210266876800 * 1000000000 - 1⟩

/-- Addition of a `TimeDelta`; `none` where the operator panics. -/
def checkedAdd (t : DateTime) (delta : Int) : Option DateTime :=
  let r : DateTime := ⟨t.nanos + delta⟩
  if minUtc ≤ r ∧ r ≤ maxUtc then some r else none

end DateTime

/-- `chrono::Duration::from_std` on a std duration in nanoseconds: a `TimeDelta` holds at most
`i64::MAX` milliseconds. -/
def TimeDelta.fromStd (nanos : Nat) : Option Int :=
  if nanos ≤ (2 ^ 63 - 1) * 1000000 then some nanos else none

end Ravn
