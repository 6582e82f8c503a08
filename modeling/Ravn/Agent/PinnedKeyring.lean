import Ravn.Crypto.KeyringJson

/-! The keyring that the agent pins, in memory and on disk. Every poll refreshes it: a published ring
whose ids or default differ from those in memory is written to disk and swapped in. A ring that could
not be written is swapped in all the same, and is not written by a later poll that fetches it again;
the disk agrees with memory as long as that does not happen (`AgentKeyring.pinned_converges`). -/

namespace Ravn

open Theory

/-! ## Loading and refreshing -/

/-- The credential directory: the contents of `command_keyring.json` and of the older
`command_pubkey.b64`, as far as they can be read. -/
structure CredDir where
  keyring : Option (List Char)
  pubkey : Option String

/-- The agent's trust: what it verifies against, and what it finds when it starts again. -/
structure AgentKeyring (P : Platform) where
  ring : Keyring P
  dir : CredDir

/-- One call of `refresh_keyring`: the answer of the endpoint, if there is one, and whether
`persist_keyring` succeeds. -/
structure Refresh where
  fetched : Option (List Char)
  writable : Bool

namespace Keyring

variable {P : Platform}

/-- The change test of the agent and of the actuator. -/
def Changed (current fresh : Keyring P) : Prop :=
  current.kids ≠ fresh.kids ∨ current.defaultKid ≠ fresh.defaultKid

instance (current fresh : Keyring P) : Decidable (Changed current fresh) :=
  inferInstanceAs (Decidable (_ ∨ _))

theorem not_changed_self (ring : Keyring P) : ¬Changed ring ring := by
  simp [Changed]

/-- A document that parses to a ring with keys in it. -/
def readNonempty (P : Platform) (json : List Char) : Option (Keyring P) :=
  match fromJson P json with
  | .ok ring => if ring.isEmpty then none else some ring
  | .error _ => none

end Keyring

section

variable (P : Platform)

/-- Prefers the keyring and falls back to the single key of an agent that enrolled before there were
keyrings. -/
def loadPinnedKeyring (dir : CredDir) : Option (Keyring P) :=
  match dir.keyring.bind (Keyring.readNonempty P) with
  | some ring => some ring
  | none => dir.pubkey.bind fun b64 => (verifyingKeyFromB64 P b64).toOption.map Keyring.single

/-- The file is replaced as a whole or not at all. -/
def persistKeyring (dir : CredDir) (json : List Char) (writable : Bool) : CredDir :=
  if writable then { dir with keyring := some json } else dir

def refreshKeyring (s : AgentKeyring P) (call : Refresh) : AgentKeyring P :=
  match call.fetched with
  | none => s
  | some json =>
    match Keyring.readNonempty P json with
    | none => s
    | some fetched =>
      if Keyring.Changed s.ring fetched then
        ⟨fetched, persistKeyring s.dir json call.writable⟩
      else s

/-- The ring that a call fetches. -/
def Refresh.ring (call : Refresh) : Option (Keyring P) :=
  call.fetched.bind (Keyring.readNonempty P)

end

/-! ## Runs -/

namespace AgentKeyring

variable {P : Platform}

def refreshes (s : AgentKeyring P) (calls : List Refresh) : AgentKeyring P :=
  calls.foldl (refreshKeyring P) s

/-- Whether a call swaps another ring in. -/
def swaps (s : AgentKeyring P) (call : Refresh) : Bool :=
  (call.ring P).any fun fetched => Keyring.Changed s.ring fetched

/-- No call fetches the ring that is in memory already, with the disk writable, while the ring in
memory is one that could not be written; `behind` says whether that is so at the start. -/
def WrittenBeforeRepeat : Bool → AgentKeyring P → List Refresh → Prop
  | _, _, [] => True
  | behind, s, call :: calls =>
    ((call.ring P).isSome → s.swaps call = false → call.writable = true → behind = false) ∧
      WrittenBeforeRepeat (if s.swaps call then !call.writable else behind)
        (refreshKeyring P s call) calls

instance decidableWrittenBeforeRepeat : ∀ (behind : Bool) (s : AgentKeyring P)
    (calls : List Refresh), Decidable (WrittenBeforeRepeat behind s calls)
  | _, _, [] => isTrue trivial
  | behind, s, call :: calls =>
    have := decidableWrittenBeforeRepeat (if s.swaps call then !call.writable else behind)
      (refreshKeyring P s call) calls
    inferInstanceAs (Decidable (_ ∧ _))

/-- The disk holds the ring that is in memory. -/
def Pinned (s : AgentKeyring P) : Prop := loadPinnedKeyring P s.dir = some s.ring

/-- What the actuator reads from the keyring file is then the agent's ring, too. -/
theorem Pinned.reloaded {s : AgentKeyring P} (h : s.Pinned)
    (hfile : s.dir.keyring.bind (Keyring.readNonempty P) = some fresh) : fresh = s.ring := by
  rw [Pinned, loadPinnedKeyring, hfile] at h
  exact Option.some.inj h

/-- What one call does. -/
theorem refreshKeyring_cases (s : AgentKeyring P) (call : Refresh) :
    s.swaps call = false ∧ refreshKeyring P s call = s ∨
      s.swaps call = true ∧ ∃ json fetched, Keyring.readNonempty P json = some fetched ∧
        refreshKeyring P s call = ⟨fetched, persistKeyring s.dir json call.writable⟩ := by
  obtain ⟨_ | json, writable⟩ := call
  · exact .inl ⟨rfl, rfl⟩
  · cases hread : Keyring.readNonempty P json with
    | none => simp [swaps, Refresh.ring, refreshKeyring, hread]
    | some fetched =>
      by_cases hchanged : Keyring.Changed s.ring fetched
      · exact .inr ⟨by simp [swaps, Refresh.ring, hread, hchanged], json, fetched, hread,
          by simp [refreshKeyring, hread, hchanged]⟩
      · exact .inl ⟨by simp [swaps, Refresh.ring, hread, hchanged],
          by simp [refreshKeyring, hread, hchanged]⟩

/-- A ring that is swapped in with the disk writable is pinned. -/
theorem pinned_of_swaps {s : AgentKeyring P} (h : s.swaps call = true)
    (hwritable : call.writable = true) : (refreshKeyring P s call).Pinned := by
  obtain ⟨hnot, -⟩ | ⟨-, json, fetched, hread, heq⟩ := refreshKeyring_cases s call
  · exact absurd (hnot.symm.trans h) (by decide)
  · simp [Pinned, heq, hwritable, persistKeyring, loadPinnedKeyring, hread]

/-- One call keeps the disk as current as the flag says. -/
theorem refreshKeyring_pinned {s : AgentKeyring P} (h : behind = false → s.Pinned)
    (hbehind : (if s.swaps call then !call.writable else behind) = false) :
    (refreshKeyring P s call).Pinned := by
  obtain ⟨hnot, heq⟩ | ⟨hswaps, -⟩ := refreshKeyring_cases s call
  · rw [hnot] at hbehind
    rw [heq]
    exact h hbehind
  · rw [hswaps] at hbehind
    exact pinned_of_swaps hswaps (by simpa using hbehind)

theorem pinned_after_call {s : AgentKeyring P} (h : behind = false → s.Pinned) {calls : List Refresh}
    (hcalls : WrittenBeforeRepeat behind s calls) (hsplit : calls = before ++ call :: after)
    (hring : (call.ring P).isSome = true) (hwritable : call.writable = true) :
    (s.refreshes (before ++ [call])).Pinned := by
  induction before generalizing behind s calls with
  | nil =>
    subst hsplit
    refine refreshKeyring_pinned h ?_
    cases hswaps : s.swaps call with
    | true => simp [hwritable]
    | false => simpa using hcalls.1 hring hswaps hwritable
  | cons c before ih =>
    subst hsplit
    exact ih (fun hbehind => refreshKeyring_pinned h hbehind) hcalls.2 rfl

end AgentKeyring

/-- From a start at which the agent has loaded its ring from disk, through calls that may fail to
fetch or to write: after every call that fetched a ring with the disk writable, the disk holds the
ring that is in memory, and so does the file that the actuator reloads. -/
theorem AgentKeyring.pinned_converges (P : Platform) (start : AgentKeyring P)
    (hstart : loadPinnedKeyring P start.dir = some start.ring) (calls : List Refresh)
    (hcalls : WrittenBeforeRepeat false start calls) (before : List Refresh) (call : Refresh)
    (after : List Refresh) (hsplit : calls = before ++ call :: after) (fetched : Keyring P)
    (hfetched : call.ring P = some fetched) (hwritable : call.writable = true) :
    loadPinnedKeyring P (start.refreshes (before ++ [call])).dir =
        some (start.refreshes (before ++ [call])).ring ∧
      ∀ fresh, (start.refreshes (before ++ [call])).dir.keyring.bind (Keyring.readNonempty P) =
        some fresh → fresh = (start.refreshes (before ++ [call])).ring := by
  have hpinned : (start.refreshes (before ++ [call])).Pinned :=
    pinned_after_call (fun _ => hstart) hcalls hsplit (by simp [hfetched]) hwritable
  exact ⟨hpinned, fun fresh hfile => hpinned.reloaded hfile⟩

namespace Platform

/-- The published document of a ring with one key. -/
def sampleDocument (key : UInt8) : List Char := Keyring.toJson sample (Keyring.single key)

theorem readNonempty_sampleDocument (key : UInt8) :
    Keyring.readNonempty sample (sampleDocument key) = some (Keyring.single key) := by
  have hsome : (Keyring.single (P := sample) key).isEmpty = false := by
    simp [Keyring.isEmpty, Keyring.single, BTreeMap.isEmpty, BTreeMap.insert, BTreeMap.empty,
      BTreeMap.insertList]
  simp only [Keyring.readNonempty, sampleDocument,
    Keyring.fromJson_toJson sample_ed25519.toKeyBytes (Keyring.single_defaultKnown _), hsome]
  simp

theorem ring_sampleDocument (key : UInt8) (writable : Bool) :
    Refresh.ring sample ⟨some (sampleDocument key), writable⟩ = some (Keyring.single key) := by
  simp only [Refresh.ring, Option.bind_some, readNonempty_sampleDocument]

/-- An agent that has pinned the key 7. -/
def samplePinned : AgentKeyring sample := ⟨Keyring.single (7 : UInt8), some (sampleDocument 7), none⟩

theorem keyId_sample_ne : keyId sample (7 : UInt8) ≠ keyId sample (8 : UInt8) := by
  decide +kernel

theorem changed_sample : Keyring.Changed (P := sample) (Keyring.single (7 : UInt8))
    (Keyring.single (8 : UInt8)) :=
  .inr fun h => keyId_sample_ne (Option.some.inj h)

theorem loadPinnedKeyring_samplePinned :
    loadPinnedKeyring sample samplePinned.dir = some samplePinned.ring := by
  have hread : samplePinned.dir.keyring.bind (Keyring.readNonempty sample) =
      some samplePinned.ring := by
    rw [samplePinned, Option.bind_some, readNonempty_sampleDocument]
  rw [loadPinnedKeyring, hread]

end Platform

open Platform in
/-- The key 8 is published and written, a fetch fails, and the key 8 is fetched again. -/
theorem AgentKeyring.pinned_converges_sample :
    loadPinnedKeyring sample (samplePinned.refreshes
        [⟨some (sampleDocument 8), true⟩, ⟨none, true⟩, ⟨some (sampleDocument 8), true⟩]).dir =
      some (samplePinned.refreshes
        [⟨some (sampleDocument 8), true⟩, ⟨none, true⟩, ⟨some (sampleDocument 8), true⟩]).ring := by
  have hcalls : WrittenBeforeRepeat false samplePinned
      [⟨some (sampleDocument 8), true⟩, ⟨none, true⟩, ⟨some (sampleDocument 8), true⟩] := by
    simp [WrittenBeforeRepeat, swaps, Refresh.ring, refreshKeyring, readNonempty_sampleDocument,
      samplePinned, changed_sample]
  exact (AgentKeyring.pinned_converges sample samplePinned loadPinnedKeyring_samplePinned _ hcalls
    [⟨some (sampleDocument 8), true⟩, ⟨none, true⟩] _ [] rfl (Keyring.single (8 : UInt8))
    (ring_sampleDocument 8 true) rfl).1

open Platform in
/-- The key 8 is published while the disk cannot be written, and fetched again when it can: memory
holds the key 8, the disk still the key 7. -/
theorem AgentKeyring.failed_write_not_repeated :
    loadPinnedKeyring sample samplePinned.dir = some samplePinned.ring ∧
      Refresh.ring sample ⟨some (sampleDocument 8), true⟩ = some (Keyring.single (8 : UInt8)) ∧
      loadPinnedKeyring sample (samplePinned.refreshes
          [⟨some (sampleDocument 8), false⟩, ⟨some (sampleDocument 8), true⟩]).dir ≠
        some (samplePinned.refreshes
          [⟨some (sampleDocument 8), false⟩, ⟨some (sampleDocument 8), true⟩]).ring := by
  refine ⟨loadPinnedKeyring_samplePinned, ring_sampleDocument 8 true, fun heq => ?_⟩
  have hring : samplePinned.refreshes
      [⟨some (sampleDocument 8), false⟩, ⟨some (sampleDocument 8), true⟩] =
      ⟨Keyring.single (8 : UInt8), samplePinned.dir⟩ := by
    simp [refreshes, refreshKeyring, readNonempty_sampleDocument, samplePinned, changed_sample,
      Keyring.not_changed_self, persistKeyring]
  rw [hring, loadPinnedKeyring_samplePinned] at heq
  exact changed_sample.elim (fun h => h (congrArg Keyring.kids (Option.some.inj heq)))
    (fun h => h (congrArg Keyring.defaultKid (Option.some.inj heq)))

end Ravn
