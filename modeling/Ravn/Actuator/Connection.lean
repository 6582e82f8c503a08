import Ravn.Actuator.CommandLaw

/-! The actuator's socket: one envelope per connection, each connection on a task of its own. The
only state that outlives a connection is the keyring. -/

namespace Ravn

open Theory

/-! ## One connection -/

section

variable (P : Platform) {σ : Type u} (H : Host σ)

/-- The host actuator rejects Kubernetes commands at its boundary and handles the others. -/
def handleEnvelope (ring : Keyring P) (env : CommandEnvelope) (fuel : Nat) (s : σ) :
    Outcome × Trace × σ :=
  if env.containsKubeCapability then
    finish H env ⟨.rejected, some ("command contains Kubernetes capabilities; route to the " ++
      "in-cluster K8s executor (#146)"), none⟩ .empty s
  else handleCommand P H ring env fuel s

theorem handleEnvelope_commandLaw (ring : Keyring P) (env : CommandEnvelope) (fuel : Nat) (s : σ) :
    CommandLaw env (handleEnvelope P H ring env fuel s).1
      (handleEnvelope P H ring env fuel s).2.1 := by
  unfold handleEnvelope
  split
  · refine ⟨finish_law (traceLaw_empty env) (statusLaw_rejected env) _, ?_⟩
    simp [finish, Trace.empty, Trace.calls]
  · exact handleCommand_commandLaw ring env fuel s

end

/-- What one accepted connection brings: the peer's uid if it can be read, the keyring file as it
parses at that time, the line that was sent, and the world as the connection's task meets it. Tasks
run concurrently, so each meets a world of its own. -/
structure Connection (P : Platform) (σ : Type u) where
  peerUid : Option Nat
  keyringFile : Option (Keyring P)
  line : Option (List Char)
  host : Host σ
  state : σ
  fuel : Nat

/-- `reload_keyring`: a ring that parses and is not empty replaces the current one if its ids or its
default differ. -/
def reloadKeyring {P : Platform} (current : Keyring P) : Option (Keyring P) → Keyring P
  | none => current
  | some fresh =>
    if fresh.keys.isEmpty then current
    else if current.keys.keys ≠ fresh.keys.keys ∨ current.defaultKid ≠ fresh.defaultKid then fresh
    else current

section

/-! The text of a line is read by `serde_json` as an envelope; `decode` stands for that. -/

variable (P : Platform) {σ : Type u} (decode : List Char → Option CommandEnvelope)

/-- The envelope that a connection presents, if its line is one. -/
def Connection.envelope (conn : Connection P σ) : Option CommandEnvelope :=
  conn.line.bind fun line => decode (trim line)

/-- `handle_connection`: the envelope that was handled, what became of it, and the calls made. -/
def handleConnection (ring : Keyring P) (conn : Connection P σ) :
    Option (CommandEnvelope × Outcome × Trace) :=
  (conn.envelope P decode).map fun env =>
    let (outcome, tr, _) := handleEnvelope P conn.host ring env conn.fuel conn.state
    (env, outcome, tr)

/-- `serve`: the peer is checked, the keyring reloaded, and the connection handled under a snapshot
of it. The result lists the commands that were handled. -/
def serve (allowedUid : Option Nat) (reloads : Bool) :
    Keyring P → List (Connection P σ) → List (CommandEnvelope × Outcome × Trace)
  | _, [] => []
  | ring, conn :: conns =>
    if conn.peerUid.any fun uid => allowedUid.all fun allowed => allowed == uid then
      let ring := if reloads then reloadKeyring ring conn.keyringFile else ring
      (handleConnection P decode ring conn).toList ++ serve allowedUid reloads ring conns
    else serve allowedUid reloads ring conns

end

/-! ## How often a step is run -/

section

variable {P : Platform} {σ : Type u} {decode : List Char → Option CommandEnvelope}

/-- In how many of the handled commands the `i`-th step of the command `id` was run. -/
def timesStepRun (log : List (CommandEnvelope × Outcome × Trace)) (id : Uuid) (i : Nat) : Nat :=
  log.countP fun e => e.1.commandId = id ∧ i < e.2.2.steps.length

/-- Each connection contributes the envelope it presents at most once. -/
theorem serve_sublist (allowedUid : Option Nat) (reloads : Bool) (ring : Keyring P)
    (conns : List (Connection P σ)) :
    ((serve P decode allowedUid reloads ring conns).map Prod.fst).Sublist
      (conns.filterMap (Connection.envelope P decode)) := by
  induction conns generalizing ring with
  | nil => exact List.Sublist.refl _
  | cons conn conns ih =>
    have hcons : ∀ l, l.Sublist (conns.filterMap (Connection.envelope P decode)) →
        ((conn.envelope P decode).toList ++ l).Sublist
          ((conn :: conns).filterMap (Connection.envelope P decode)) := by
      intro l hl
      cases henv : conn.envelope P decode with
      | none => simpa [henv] using hl
      | some env => simpa [henv] using hl
    have hskip : ((conns.filterMap (Connection.envelope P decode))).Sublist
        ((conn :: conns).filterMap (Connection.envelope P decode)) := by
      simpa using List.Sublist.filterMap (Connection.envelope P decode)
        (List.sublist_cons_self conn conns)
    unfold serve
    split
    · have hfst : ∀ ring, (handleConnection P decode ring conn).toList.map Prod.fst =
          (conn.envelope P decode).toList := by
        intro ring
        unfold handleConnection
        cases conn.envelope P decode <;> rfl
      rw [List.map_append, hfst]
      exact hcons _ (ih _)
    · exact (ih ring).trans hskip

theorem timesStepRun_le (allowedUid : Option Nat) (reloads : Bool) (ring : Keyring P)
    (conns : List (Connection P σ)) (id : Uuid) (i : Nat) :
    timesStepRun (serve P decode allowedUid reloads ring conns) id i ≤
      (conns.filterMap (Connection.envelope P decode)).countP fun env => env.commandId = id := by
  have hle : timesStepRun (serve P decode allowedUid reloads ring conns) id i ≤
      ((serve P decode allowedUid reloads ring conns).map Prod.fst).countP
        fun env => env.commandId = id := by
    rw [List.countP_map]
    apply List.countP_mono_left
    intro e _ he
    simp only [decide_eq_true_eq] at he
    simpa using he.1
  exact hle.trans (serve_sublist allowedUid reloads ring conns).countP_le

end

namespace Platform

/-- A unit that has failed and comes up when it is restarted. -/
def sampleHost : Host Bool where
  run
    | .unitState _, up => (.ok (some (if up then "active" else "failed")), up)
    | .restartUnit _, _ => (.ok none, true)
    | _, up => (.ok none, up)
  utcNow s := (noon, s)
  instantNow s := (0, s)
  sleep _ s := s

end Platform

end Ravn
