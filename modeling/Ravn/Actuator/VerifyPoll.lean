import Ravn.Actuator.Connection

/-! The poll of the post-condition within a command: from which state it starts and how it ends, and
whether a command that has run its steps is reported. -/

namespace Ravn

/-! ## Where the poll starts -/

section

variable (P : Platform) {σ : Type u} (H : Host σ)

/-- The command gets to the verification that it declares: it is admitted, its preconditions hold and
its steps succeed. -/
structure ReachesVerify (ring : Keyring P) (env : CommandEnvelope) (s : σ) (verify : Verify) : Prop where
  admitted : admission P ring env (H.utcNow s).1 = .ok ()
  preconditions : (checkPreconditions P H env.preconditions (H.utcNow s).2).1 = none
  steps : (runSteps H env.steps
    (checkPreconditions P H env.preconditions (H.utcNow s).2).2.2).1 = none
  verify : env.verify = some verify

/-- The state after the steps, in which the deadline is computed. -/
def stepsDone (env : CommandEnvelope) (s : σ) : σ :=
  (runSteps H env.steps (checkPreconditions P H env.preconditions (H.utcNow s).2).2.2).2.2

/-- When the verification starts, by the clock. -/
def pollStart (env : CommandEnvelope) (s : σ) : Nat := (H.instantNow (stepsDone P H env s)).1

/-- The state before the first check. -/
def pollEntry (env : CommandEnvelope) (s : σ) : σ := (H.instantNow (stepsDone P H env s)).2

/-- The deadline of the poll fits an instant, if the command gets to it. -/
def DeadlineFits (ring : Keyring P) (env : CommandEnvelope) (s : σ) : Prop :=
  ∀ verify, ReachesVerify P H ring env s verify →
    pollStart P H env s / 1000000000 + verify.timeoutS.toNat < 2 ^ 63

end

section

variable {P : Platform} {σ : Type u} {H : Host σ} {ring : Keyring P} {env : CommandEnvelope} {s : σ}

theorem ReachesVerify.handleCommand {verify : Verify} (h : ReachesVerify P H ring env s verify)
    (fuel : Nat) :
    handleCommand P H ring env fuel s =
      verifyAndRollback P H env (checkPreconditions P H env.preconditions (H.utcNow s).2).2.1
        (runSteps H env.steps
          (checkPreconditions P H env.preconditions (H.utcNow s).2).2.2).2.1 fuel
        (stepsDone P H env s) := by
  have hpre := h.preconditions
  have hsteps := h.steps
  unfold Ravn.handleCommand stepsDone
  simp only [h.admitted]
  rcases hcalls : checkPreconditions P H env.preconditions (H.utcNow s).2 with ⟨verdict, pre, s'⟩
  rw [hcalls] at hpre hsteps
  cases hpre
  rcases hrun : runSteps H env.steps s' with ⟨verdict, steps, s''⟩
  rw [hrun] at hsteps
  cases hsteps
  simp only [hrun]

/-- A command that does not get to a verification is reported. -/
theorem handleCommand_returned (h : ∀ verify, ¬ReachesVerify P H ring env s verify) (fuel : Nat) :
    (∃ result, (handleCommand P H ring env fuel s).1 = .returned result) ∧
      (handleCommand P H ring env fuel s).2.1.verify = [] := by
  unfold handleCommand
  simp only
  cases hadmission : admission P ring env (H.utcNow s).1 with
  | error detail => exact ⟨⟨_, rfl⟩, rfl⟩
  | ok _ =>
    rcases hpre : checkPreconditions P H env.preconditions (H.utcNow s).2 with ⟨verdict, pre, s'⟩
    cases verdict with
    | some verdict => exact ⟨⟨_, rfl⟩, rfl⟩
    | none =>
      rcases hsteps : runSteps H env.steps s' with ⟨verdict, steps, s''⟩
      cases verdict with
      | some verdict => simp [hsteps, finish]
      | none =>
        have hverify : env.verify = none := by
          refine Option.eq_none_iff_forall_not_mem.mpr fun verify hverify => h verify ?_
          exact ⟨hadmission, by rw [hpre], by rw [hpre, hsteps], hverify⟩
        simp [hsteps, verifyAndRollback, hverify, finish]

/-- The deadline does not fit: the command ends after its steps, without a result. -/
theorem ReachesVerify.panicked {verify : Verify} (h : ReachesVerify P H ring env s verify)
    (hfits : ¬pollStart P H env s / 1000000000 + verify.timeoutS.toNat < 2 ^ 63) (fuel : Nat) :
    (Ravn.handleCommand P H ring env fuel s).1 = .panicked ∧
      StepsHeld env.steps (Ravn.handleCommand P H ring env fuel s).2.1.steps ∧
      (Ravn.handleCommand P H ring env fuel s).2.1.verify = [] ∧
      (Ravn.handleCommand P H ring env fuel s).2.1.rollback = none := by
  have hdeadline : instantCheckedAdd (H.instantNow (stepsDone P H env s)).1
      verify.timeoutS.toNat = none := if_neg hfits
  have hsteps := runSteps_spec (H := H) env.steps
    (checkPreconditions P H env.preconditions (H.utcNow s).2).2.2
  rw [h.handleCommand]
  simp only [verifyAndRollback, h.verify, hdeadline]
  exact ⟨trivial, hsteps.held.mp h.steps, trivial, trivial⟩

/-! ## How the poll ends -/

/-- The poll that starts at `start` in the state `entry` makes the checks up to the `N`-th: all but the
last observed another value before the time was up, and the last one decides. -/
structure PollLaw (H : Host σ) (verify : Verify) (start : Nat) (entry : σ) (polls : List Call)
    (status : ActionStatus) (N : Nat) : Prop where
  bound : N ≤ 2 * verify.timeoutS.toNat
  checks : polls = (List.range (N + 1)).map (checkAt H verify entry)
  goesOn : ∀ n < N, Wrong verify (checkAt H verify entry n) ∧
    clockAt H verify entry n < start + verify.timeoutS.toNat * 1000000000
  ends : (checkAt H verify entry N).observed = some verify.equals ∧ status = .succeeded ∨
    ((checkAt H verify entry N).observed = none ∨
        Wrong verify (checkAt H verify entry N) ∧
          start + verify.timeoutS.toNat * 1000000000 ≤ clockAt H verify entry N) ∧
      (status = .failed ∨ status = .frozen)

theorem ReachesVerify.pollLaw {verify : Verify} {time : σ → Nat} (hclock : PollClock H time)
    (h : ReachesVerify P H ring env s verify)
    (hfits : pollStart P H env s / 1000000000 + verify.timeoutS.toNat < 2 ^ 63)
    (hfuel : 2 * verify.timeoutS.toNat < fuel) :
    ∃ result N, (Ravn.handleCommand P H ring env fuel s).1 = .returned result ∧
      PollLaw H verify (pollStart P H env s) (pollEntry P H env s)
        (Ravn.handleCommand P H ring env fuel s).2.1.verify result.status N := by
  have hdeadline : instantCheckedAdd (H.instantNow (stepsDone P H env s)).1
      verify.timeoutS.toNat =
        some (pollStart P H env s + verify.timeoutS.toNat * 1000000000) := if_pos hfits
  have hle : pollStart P H env s + verify.timeoutS.toNat * 1000000000 ≤
      time (pollEntry P H env s) + verify.timeoutS.toNat * 1000000000 :=
    Nat.add_le_add_right (hclock.now_le (stepsDone P H env s)) _
  obtain ⟨N, hN, hgoes, hstops⟩ := hclock.exists_last verify _ _ hle
  obtain ⟨rest, rfl⟩ : ∃ rest, fuel = N + (rest + 1) := ⟨fuel - N - 1, by omega⟩
  obtain ⟨hlast, hend⟩ := pollVerify_stops (P := P)
    (s := pollState H verify (pollEntry P H env s) N) hstops rest
  have hpoll := pollVerify_goesOn_all (P := P) hgoes (rest + 1)
  rw [hlast] at hpoll
  have hchecks : (List.range N).map (checkAt H verify (pollEntry P H env s)) ++
      [checkAt H verify (pollState H verify (pollEntry P H env s) N) 0] =
        (List.range (N + 1)).map (checkAt H verify (pollEntry P H env s)) := by
    rw [List.range_succ, List.map_append]
    rfl
  rw [hchecks] at hpoll
  rw [h.handleCommand]
  simp only [verifyAndRollback, h.verify, hdeadline]
  rw [show (H.instantNow (stepsDone P H env s)).2 = pollEntry P H env s from rfl, hpoll]
  rcases hend with ⟨⟨observed, hend⟩, hobs⟩ | ⟨⟨detail, observed, hend⟩, hobs⟩
  · rw [hend]
    exact ⟨_, N, rfl, hN, rfl, hgoes, .inl ⟨hobs, rfl⟩⟩
  · rw [hend]
    refine ⟨_, N, rfl, hN, rfl, hgoes, .inr ⟨hobs, ?_⟩⟩
    rcases (performRollback_spec (H := H) env detail observed _).status with hstatus | hstatus
    · exact .inr hstatus.1
    · exact .inl hstatus.1

/-- The deadline fits: the poll is followed for at most as many checks as there are rounds. -/
theorem ReachesVerify.polls {verify : Verify} (h : ReachesVerify P H ring env s verify)
    (hfits : pollStart P H env s / 1000000000 + verify.timeoutS.toNat < 2 ^ 63) (fuel : Nat) :
    (Ravn.handleCommand P H ring env fuel s).1 ≠ .panicked ∧
      (Ravn.handleCommand P H ring env fuel s).2.1.verify.length ≤ fuel := by
  have hdeadline : instantCheckedAdd (H.instantNow (stepsDone P H env s)).1
      verify.timeoutS.toNat =
        some (pollStart P H env s + verify.timeoutS.toNat * 1000000000) := if_pos hfits
  have hlength : (pollVerify P H verify (pollStart P H env s + verify.timeoutS.toNat * 1000000000)
      fuel (H.instantNow (stepsDone P H env s)).2).2.1.length ≤ fuel := pollVerify_length fuel _
  rw [h.handleCommand]
  simp only [verifyAndRollback, h.verify, hdeadline]
  rcases hpoll : pollVerify P H verify
    (pollStart P H env s + verify.timeoutS.toNat * 1000000000) fuel
    (H.instantNow (stepsDone P H env s)).2 with ⟨pollEnd, polls, s'⟩
  rw [hpoll] at hlength
  cases pollEnd <;> exact ⟨nofun, hlength⟩

end

/-! ## Every command is reported -/

/-- For every executor and envelope `handle_command` does not panic exactly if the deadline of the
verification that it gets to fits an instant, and then, as the clock goes on, it reaches a result. Where
it panics, the steps have been run and neither the verification nor the rollback has. -/
theorem command_reported_iff (P : Platform) {σ : Type u} (H : Host σ) (ring : Keyring P)
    (env : CommandEnvelope) (s : σ) :
    ((∀ fuel, (handleCommand P H ring env fuel s).1 ≠ .panicked) ↔ DeadlineFits P H ring env s) ∧
    (∀ time, PollClock H time →
      ((∃ fuel result, (handleCommand P H ring env fuel s).1 = .returned result) ↔
        DeadlineFits P H ring env s)) ∧
    ∀ fuel, (handleCommand P H ring env fuel s).1 = .panicked →
      StepsHeld env.steps (handleCommand P H ring env fuel s).2.1.steps ∧
      (handleCommand P H ring env fuel s).2.1.verify = [] ∧
      (handleCommand P H ring env fuel s).2.1.rollback = none := by
  have hfits_of : ∀ fuel, (handleCommand P H ring env fuel s).1 ≠ .panicked →
      DeadlineFits P H ring env s := by
    intro fuel hne verify hreach
    by_contra hfits
    exact hne (hreach.panicked hfits fuel).1
  refine ⟨⟨fun h => hfits_of 0 (h 0), fun h fuel => ?_⟩, fun time hclock => ⟨?_, fun h => ?_⟩, ?_⟩
  · by_cases hreach : ∃ verify, ReachesVerify P H ring env s verify
    · obtain ⟨verify, hreach⟩ := hreach
      exact (hreach.polls (h verify hreach) fuel).1
    · obtain ⟨result, hresult⟩ := (handleCommand_returned (not_exists.mp hreach) fuel).1
      rw [hresult]
      exact nofun
  · rintro ⟨fuel, result, hresult⟩
    exact hfits_of fuel (by rw [hresult]; exact nofun)
  · by_cases hreach : ∃ verify, ReachesVerify P H ring env s verify
    · obtain ⟨verify, hreach⟩ := hreach
      obtain ⟨result, -, hresult, -⟩ :=
        hreach.pollLaw hclock (h verify hreach) (Nat.lt_succ_self _)
      exact ⟨_, result, hresult⟩
    · exact ⟨0, (handleCommand_returned (not_exists.mp hreach) 0).1⟩
  · intro fuel hpanicked
    by_cases hreach : ∃ verify, ReachesVerify P H ring env s verify
    · obtain ⟨verify, hreach⟩ := hreach
      by_cases hfits : pollStart P H env s / 1000000000 + verify.timeoutS.toNat < 2 ^ 63
      · exact absurd hpanicked (hreach.polls hfits fuel).1
      · exact (hreach.panicked hfits fuel).2
    · obtain ⟨result, hresult⟩ := (handleCommand_returned (not_exists.mp hreach) fuel).1
      rw [hresult] at hpanicked
      cases hpanicked

namespace Platform

/-- A restart that may take as long as a `u64` of seconds. -/
def samplePatient : CommandEnvelope :=
  signEnvelope sample (7 : UInt8)
    { sampleEnvelope with verify := some ⟨.unitState "nginx.service", "active", 18446744073709551615⟩ }

theorem samplePatient_reachesVerify :
    ReachesVerify sample sampleHost (.single (7 : UInt8)) samplePatient false
      ⟨.unitState "nginx.service", "active", 18446744073709551615⟩ where
  admitted := by decide +kernel
  preconditions := by decide +kernel
  steps := by decide +kernel
  verify := rfl

/-- The unit is restarted and the command ends there: it is neither verified nor reported. -/
theorem patient_command_unreported :
    (¬∃ fuel result, (handleCommand sample sampleHost (.single (7 : UInt8)) samplePatient fuel false).1 =
        .returned result) ∧
      StepsHeld [.resetFailed "nginx.service", .restartUnit "nginx.service"]
        (handleCommand sample sampleHost (.single (7 : UInt8)) samplePatient 1 false).2.1.steps := by
  have hpanicked := samplePatient_reachesVerify.panicked (by decide +kernel)
  refine ⟨?_, (hpanicked 1).2.1⟩
  rintro ⟨fuel, result, hresult⟩
  cases (hpanicked fuel).1.symm.trans hresult

end Platform

/-! ## The law of the poll -/

/-- A command that gets to its verification, with `T` seconds that fit an instant, makes at most
`2 * T + 1` checks, and as long as the clock goes on it reaches a result by the law of the poll. -/
theorem verify_poll_law (P : Platform) {σ : Type u} (H : Host σ) (time : σ → Nat)
    (hclock : PollClock H time) (ring : Keyring P) (env : CommandEnvelope) (s : σ) (verify : Verify)
    (h : ReachesVerify P H ring env s verify)
    (hfits : pollStart P H env s / 1000000000 + verify.timeoutS.toNat < 2 ^ 63) :
    (∀ fuel, (handleCommand P H ring env fuel s).2.1.verify.length ≤ 2 * verify.timeoutS.toNat + 1) ∧
    ∀ fuel, 2 * verify.timeoutS.toNat < fuel →
      ∃ result N, (handleCommand P H ring env fuel s).1 = .returned result ∧
        PollLaw H verify (pollStart P H env s) (pollEntry P H env s)
          (handleCommand P H ring env fuel s).2.1.verify result.status N := by
  refine ⟨fun fuel => ?_, fun fuel hfuel => h.pollLaw hclock hfits hfuel⟩
  rcases Nat.lt_or_ge (2 * verify.timeoutS.toNat) fuel with hfuel | hfuel
  · obtain ⟨result, N, -, hlaw⟩ := h.pollLaw hclock hfits hfuel
    rw [hlaw.checks, List.length_map, List.length_range]
    exact Nat.succ_le_succ hlaw.bound
  · exact ((h.polls hfits fuel).2.trans hfuel).trans (Nat.le_succ _)

namespace Platform

/-- A unit that comes up two seconds after the start of the clock; the state is the time. -/
def sampleClockHost : Host Nat where
  run
    | .unitState _, time => (.ok (some (if 2000000000 ≤ time then "active" else "failed")), time)
    | _, time => (.ok none, time)
  utcNow time := (noon, time)
  instantNow time := (time, time)
  sleep d time := time + d

theorem sampleClockHost_clock : PollClock sampleClockHost id where
  shows _ := le_rfl
  now_le _ := le_rfl
  run_le cap time := by cases cap <;> exact le_rfl
  sleep_le _ := by simp [sampleClockHost]

def sampleRestart : CommandEnvelope := signEnvelope sample (7 : UInt8) sampleEnvelope

theorem sampleRestart_reachesVerify :
    ReachesVerify sample sampleClockHost (.single (7 : UInt8)) sampleRestart 0
      ⟨.unitState "nginx.service", "active", 30⟩ where
  admitted := by decide +kernel
  preconditions := by decide +kernel
  steps := by decide +kernel
  verify := rfl

theorem pollStart_sampleRestart : pollStart sample sampleClockHost sampleRestart 0 = 0 := by
  decide +kernel

end Platform

open Platform in
theorem verify_poll_law_sample :
    ∃ result N, (handleCommand sample sampleClockHost (.single (7 : UInt8)) sampleRestart 61 0).1 =
        .returned result ∧
      PollLaw sampleClockHost ⟨.unitState "nginx.service", "active", 30⟩
        (pollStart sample sampleClockHost sampleRestart 0)
        (pollEntry sample sampleClockHost sampleRestart 0)
        (handleCommand sample sampleClockHost (.single (7 : UInt8)) sampleRestart 61 0).2.1.verify
        result.status N :=
  (verify_poll_law sample sampleClockHost id sampleClockHost_clock (.single (7 : UInt8)) sampleRestart 0
    ⟨.unitState "nginx.service", "active", 30⟩ sampleRestart_reachesVerify
    (by rw [pollStart_sampleRestart]; decide)).2 61 (by decide)

end Ravn
