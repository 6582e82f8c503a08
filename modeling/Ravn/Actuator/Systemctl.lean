import Ravn.Actuator.Connection
import Ravn.Theory.Lines

/-! `SystemctlExecutor`, the executor of the host actuator, and the arguments that it passes to the
processes it spawns. -/

namespace Ravn

open Theory

/-- A process to spawn, without a shell. -/
structure Argv where
  program : String
  args : List String
deriving DecidableEq

/-- What a process that has exited leaves behind; the octets it wrote are decoded lossily. -/
structure ProcessOutput where
  success : Bool
  /-- The text of the exit status. -/
  status : String
  stdout : String
  stderr : String

/-- The machine that processes are spawned on and whose clocks are read. Where a process cannot be
spawned, the error carries the text of the io error. -/
structure Machine (σ : Type u) where
  output : Argv → σ → Except String ProcessOutput × σ
  utcNow : σ → DateTime × σ
  instantNow : σ → Nat × σ
  sleep : Nat → σ → σ

section

variable (P : Platform) {σ : Type u} (M : Machine σ)

/-- The `{:?}` form of a `Command`. -/
def Argv.debug (argv : Argv) : String :=
  " ".intercalate ((argv.program :: argv.args).map P.debugStr)

/-- Spawns a process and waits for it, with a record of all that has been spawned. -/
def spawn (argv : Argv) (s : σ × List Argv) : Except String ProcessOutput × σ × List Argv :=
  let (out, s') := M.output argv s.1
  (out, s', s.2 ++ [argv])

/-- `run_ok`. -/
def runOk (argv : Argv) (s : σ × List Argv) : Except String Unit × σ × List Argv :=
  match spawn M argv s with
  | (.error e, s) => (.error ("spawning " ++ argv.debug P ++ ": " ++ e), s)
  | (.ok out, s) =>
    if out.success then (.ok (), s)
    else (.error (argv.debug P ++ " exited " ++ out.status ++ ": " ++
      String.ofList (trim out.stderr.toList)), s)

def systemctl (verb unit : String) : Argv := ⟨"systemctl", [verb, unit]⟩

def nixEnvRollback : Argv := ⟨"nix-env", ["--rollback", "-p", "/nix/var/nix/profiles/system"]⟩

def switchToConfiguration : Argv :=
  ⟨"/nix/var/nix/profiles/system/bin/switch-to-configuration", ["switch"]⟩

/-- The error for a capability that only the in-cluster executor has. -/
def reachedSystemctl (variant «namespace» name : String) : String :=
  variant ++ " (" ++ «namespace» ++ "/" ++ name ++ ") reached systemctl executor — K8s " ++
    "capabilities require an in-cluster executor"

/-- `run_systemctl_sync`. -/
def runSystemctlSync (cap : Capability) (s : σ × List Argv) :
    Except String (Option String) × σ × List Argv :=
  match cap with
  | .resetFailed unit =>
    let (r, s) := runOk P M (systemctl "reset-failed" unit) s
    (r.map fun _ => none, s)
  | .restartUnit unit =>
    let (r, s) := runOk P M (systemctl "restart" unit) s
    (r.map fun _ => none, s)
  | .unitState unit =>
    match spawn M (systemctl "is-active" unit) s with
    | (.error e, s) => (.error ("spawning systemctl: " ++ e), s)
    | (.ok out, s) => (.ok (some (String.ofList (trim out.stdout.toList))), s)
  | .nixRollback =>
    match runOk P M nixEnvRollback s with
    | (.error e, s) => (.error e, s)
    | (.ok _, s) =>
      let (r, s) := runOk P M switchToConfiguration s
      (r.map fun _ => none, s)
  | .deletePod ns pod => (.error (reachedSystemctl "DeletePod" ns pod), s)
  | .restartDeployment ns deployment =>
    (.error (reachedSystemctl "RestartDeployment" ns deployment), s)
  | .podState ns podPrefix => (.error (reachedSystemctl "PodState" ns podPrefix), s)

/-- `SystemctlExecutor` on a machine. -/
def systemctlHost : Host (σ × List Argv) where
  run := runSystemctlSync P M
  utcNow s := let (now, s') := M.utcNow s.1; (now, s', s.2)
  instantNow s := let (instant, s') := M.instantNow s.1; (instant, s', s.2)
  sleep d s := (M.sleep d s.1, s.2)

end

/-- `systemctl` takes an argument that begins with a hyphen for an option. -/
def isOption (arg : String) : Bool := arg.toList.head? = some '-'

/-- No process that was spawned is a `systemctl` with an option. -/
def NoOption (spawned : List Argv) : Prop :=
  ∀ argv ∈ spawned, argv.program = "systemctl" → ∀ arg ∈ argv.args, isOption arg = false

/-! ## What the executor spawns -/

/-- The processes of a capability; the second one is spawned if the first succeeds. -/
def commandLines : Capability → List Argv
  | .resetFailed unit => [systemctl "reset-failed" unit]
  | .restartUnit unit => [systemctl "restart" unit]
  | .unitState unit => [systemctl "is-active" unit]
  | .nixRollback => [nixEnvRollback, switchToConfiguration]
  | .deletePod _ _ | .restartDeployment _ _ | .podState _ _ => []

section

variable {P : Platform} {σ : Type u} {M : Machine σ}

theorem runOk_spawned (argv : Argv) (s : σ × List Argv) :
    (runOk P M argv s).2.2 = s.2 ++ [argv] := by
  unfold runOk spawn
  rcases M.output argv s.1 with ⟨e | out, s'⟩
  · rfl
  · dsimp only
    split <;> rfl

theorem runSystemctlSync_spawned (cap : Capability) (s : σ × List Argv) :
    ∃ spawned, spawned <+: commandLines cap ∧
      (runSystemctlSync P M cap s).2.2 = s.2 ++ spawned := by
  cases cap with
  | resetFailed unit | restartUnit unit => exact ⟨_, List.prefix_rfl, runOk_spawned _ s⟩
  | unitState unit =>
    refine ⟨_, List.prefix_rfl, ?_⟩
    simp only [runSystemctlSync, spawn]
    cases (M.output (systemctl "is-active" unit) s.1).1 <;> rfl
  | nixRollback =>
    have hfirst := runOk_spawned (P := P) (M := M) nixEnvRollback s
    rcases hrun : runOk P M nixEnvRollback s with ⟨e | _, s'⟩
    · rw [hrun] at hfirst
      exact ⟨[nixEnvRollback], ⟨_, rfl⟩, by simpa [runSystemctlSync, hrun] using hfirst⟩
    · rw [hrun] at hfirst
      refine ⟨_, List.prefix_rfl, ?_⟩
      have hsecond := runOk_spawned (P := P) (M := M) switchToConfiguration s'
      rw [show s'.2 = _ from hfirst, List.append_assoc, List.singleton_append] at hsecond
      simpa [runSystemctlSync, hrun, commandLines] using hsecond
  | deletePod | restartDeployment | podState =>
    exact ⟨[], List.nil_prefix, by simp [runSystemctlSync]⟩

theorem eq_none_of_map {r : Except String Unit} {v : Option String}
    (h : (r.map fun _ => (none : Option String)) = .ok v) : v = none := by
  cases r <;> cases h
  rfl

/-- Only `is-active` answers a text, and it is trimmed. -/
theorem runSystemctlSync_answer {cap : Capability} {s : σ × List Argv}
    (h : (runSystemctlSync P M cap s).1 = .ok v) :
    (∃ unit text, cap = .unitState unit ∧ v = some (String.ofList (trim text))) ∨
      (∀ unit, cap ≠ .unitState unit) ∧ v = none := by
  cases cap with
  | resetFailed unit | restartUnit unit => exact .inr ⟨nofun, eq_none_of_map h⟩
  | unitState unit =>
    simp only [runSystemctlSync, spawn] at h
    cases hout : (M.output (systemctl "is-active" unit) s.1).1 with
    | error e => simp [hout] at h
    | ok out =>
      simp only [hout, Except.ok.injEq] at h
      exact .inl ⟨unit, _, rfl, h.symm⟩
  | nixRollback =>
    refine .inr ⟨nofun, ?_⟩
    simp only [runSystemctlSync] at h
    split at h
    · cases h
    · exact eq_none_of_map h
  | deletePod | restartDeployment | podState => cases h

theorem noOption_commandLines (h : ∀ unit, capabilityUnit cap = some unit → isOption unit = false) :
    NoOption (commandLines cap) := by
  intro argv hargv hprogram
  cases cap with
  | resetFailed unit | restartUnit unit | unitState unit =>
    cases List.mem_singleton.mp hargv
    simpa [systemctl] using ⟨by decide, h unit rfl⟩
  | nixRollback =>
    simp only [commandLines, List.mem_cons, List.not_mem_nil, or_false] at hargv
    rcases hargv with rfl | rfl <;> exact absurd hprogram (by decide)
  | deletePod | restartDeployment | podState => cases hargv

end

end Ravn
