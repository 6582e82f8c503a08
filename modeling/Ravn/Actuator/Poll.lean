import Mathlib.Data.Nat.Find
import Ravn.Actuator.HandleCommand

/-! The loop that polls the post-condition: the checks that it makes, and how long it takes on a clock
that goes on. -/

namespace Ravn

/-! ## The checks of the poll -/

section

variable {σ : Type u} (H : Host σ) (verify : Verify)

/-- The state before the `n`-th check, if none before it ends the poll that starts in `s`. -/
def pollState (s : σ) : Nat → σ
  | 0 => s
  | n + 1 =>
    pollState (H.sleep verifyPollInterval (H.instantNow (H.run verify.check s).2).2) n

/-- The `n`-th check. -/
def checkAt (s : σ) (n : Nat) : Call :=
  ⟨verify.check, (H.run verify.check (pollState H verify s n)).1⟩

/-- What the clock shows after the `n`-th check. -/
def clockAt (s : σ) (n : Nat) : Nat :=
  (H.instantNow (H.run verify.check (pollState H verify s n)).2).1

/-- The check observed another value than the expected one. -/
def Wrong (call : Call) : Prop := ∃ v, call.observed = some v ∧ v ≠ verify.equals

/-- The `n`-th check does not end the poll. -/
def GoesOn (deadline : Nat) (s : σ) (n : Nat) : Prop :=
  Wrong verify (checkAt H verify s n) ∧ clockAt H verify s n < deadline

end

section

variable {P : Platform} {σ : Type u} {H : Host σ} {verify : Verify} {deadline : Nat}

/-- A round that does not end the poll. -/
theorem pollVerify_goesOn {s : σ} (h : GoesOn H verify deadline s 0) (fuel : Nat) :
    pollVerify P H verify deadline (fuel + 1) s =
      ((pollVerify P H verify deadline fuel (pollState H verify s 1)).1,
        checkAt H verify s 0 ::
          (pollVerify P H verify deadline fuel (pollState H verify s 1)).2.1,
        (pollVerify P H verify deadline fuel (pollState H verify s 1)).2.2) := by
  obtain ⟨⟨v, hobs, hne⟩, hclock⟩ := h
  rcases hrun : H.run verify.check s with ⟨e | w, s'⟩
  · simp [checkAt, pollState, hrun, Call.observed] at hobs
  · simp only [checkAt, clockAt, pollState, hrun, Call.observed, Option.some.injEq] at hobs hclock
    subst hobs
    simp [pollVerify, hrun, hne, Nat.not_le.mpr hclock, checkAt, pollState]

theorem pollVerify_goesOn_all {s : σ} {N : Nat} (h : ∀ n < N, GoesOn H verify deadline s n)
    (fuel : Nat) :
    pollVerify P H verify deadline (N + fuel) s =
      ((pollVerify P H verify deadline fuel (pollState H verify s N)).1,
        (List.range N).map (checkAt H verify s) ++
          (pollVerify P H verify deadline fuel (pollState H verify s N)).2.1,
        (pollVerify P H verify deadline fuel (pollState H verify s N)).2.2) := by
  induction N generalizing s with
  | zero => simp [pollState]
  | succ N ih =>
    have hnext : ∀ n < N, GoesOn H verify deadline (pollState H verify s 1) n :=
      fun n hn => h (n + 1) (Nat.succ_lt_succ hn)
    rw [Nat.add_right_comm, pollVerify_goesOn (h 0 (Nat.succ_pos N)), ih hnext,
      List.range_succ_eq_map, List.map_cons, List.map_map]
    rfl

/-- A round that ends the poll. -/
theorem pollVerify_stops {s : σ} (h : ¬GoesOn H verify deadline s 0) (fuel : Nat) :
    (pollVerify P H verify deadline (fuel + 1) s).2.1 = [checkAt H verify s 0] ∧
    ((∃ observed, (pollVerify P H verify deadline (fuel + 1) s).1 = .held observed) ∧
        (checkAt H verify s 0).observed = some verify.equals ∨
      (∃ detail observed,
          (pollVerify P H verify deadline (fuel + 1) s).1 = .notHeld detail observed) ∧
        ((checkAt H verify s 0).observed = none ∨
          Wrong verify (checkAt H verify s 0) ∧ deadline ≤ clockAt H verify s 0)) := by
  rcases hrun : H.run verify.check s with ⟨e | w, s'⟩
  · simp [pollVerify, hrun, checkAt, pollState, Call.observed]
  · by_cases hobs : w.getD "" = verify.equals
    · simp [pollVerify, hrun, hobs, checkAt, pollState, Call.observed]
    · have hclock : deadline ≤ (H.instantNow s').1 := by
        refine Nat.not_lt.mp fun hlt => h ⟨⟨w.getD "", ?_, hobs⟩, ?_⟩
        · simp [checkAt, pollState, hrun, Call.observed]
        · simpa [clockAt, pollState, hrun] using hlt
      simp [pollVerify, hrun, hobs, hclock, checkAt, clockAt, pollState, Call.observed, Wrong]

theorem pollVerify_length (fuel : Nat) (s : σ) :
    (pollVerify P H verify deadline fuel s).2.1.length ≤ fuel := by
  induction fuel generalizing s with
  | zero => exact Nat.le_refl 0
  | succ fuel ih =>
    by_cases hgoes : GoesOn H verify deadline s 0
    · rw [pollVerify_goesOn hgoes]
      exact Nat.succ_le_succ (ih _)
    · rw [(pollVerify_stops hgoes fuel).1]
      exact Nat.succ_le_succ (Nat.zero_le _)

/-! ## The clock of the poll -/

/-- A clock that never goes back, also while a capability runs, and on which the pause between two
checks takes at least as long as asked for. What it shows lies between the times before and after. -/
structure PollClock (H : Host σ) (time : σ → Nat) : Prop where
  shows : ∀ s, time s ≤ (H.instantNow s).1
  now_le : ∀ s, (H.instantNow s).1 ≤ time (H.instantNow s).2
  run_le : ∀ cap s, time s ≤ time (H.run cap s).2
  sleep_le : ∀ s, time s + verifyPollInterval ≤ time (H.sleep verifyPollInterval s)

theorem PollClock.le_pollState {time : σ → Nat} (h : PollClock H time) (verify : Verify) (s : σ)
    (n : Nat) :
    time s + n * verifyPollInterval ≤ time (pollState H verify s n) := by
  induction n generalizing s with
  | zero => simp [pollState]
  | succ n ih =>
    have hrun := h.run_le verify.check s
    have hshows := h.shows (H.run verify.check s).2
    have hnow := h.now_le (H.run verify.check s).2
    have hsleep := h.sleep_le (H.instantNow (H.run verify.check s).2).2
    have hrest := ih (H.sleep verifyPollInterval (H.instantNow (H.run verify.check s).2).2)
    rw [pollState, Nat.succ_mul]
    omega

theorem PollClock.le_clockAt {time : σ → Nat} (h : PollClock H time) (verify : Verify) (s : σ)
    (n : Nat) :
    time s + n * verifyPollInterval ≤ clockAt H verify s n :=
  ((h.le_pollState verify s n).trans (h.run_le verify.check _)).trans (h.shows _)

/-- Some check among the first `2 * T + 1` ends a poll with `T` seconds; the first such is the last one
that is made. -/
theorem PollClock.exists_last {time : σ → Nat} (h : PollClock H time) (verify : Verify) (s : σ)
    (T : Nat) (hdeadline : deadline ≤ time s + T * 1000000000) :
    ∃ N ≤ 2 * T, (∀ n < N, GoesOn H verify deadline s n) ∧ ¬GoesOn H verify deadline s N := by
  classical
  have hend : ¬GoesOn H verify deadline s (2 * T) := by
    rintro ⟨-, hlt⟩
    have hclock := h.le_clockAt verify s (2 * T)
    rw [verifyPollInterval] at hclock
    omega
  have hexists : ∃ n, ¬GoesOn H verify deadline s n := ⟨_, hend⟩
  exact ⟨Nat.find hexists, Nat.find_min' hexists hend,
    fun n hn => not_not.mp (Nat.find_min hexists hn), Nat.find_spec hexists⟩

/-- Twice the seconds and one more rounds end the poll. -/
theorem PollClock.pollVerify_ne_polling {time : σ → Nat} (h : PollClock H time) (verify : Verify)
    (s : σ) (T : Nat) (hdeadline : deadline ≤ time s + T * 1000000000) (hfuel : 2 * T < fuel) :
    (pollVerify P H verify deadline fuel s).1 ≠ .polling := by
  obtain ⟨N, hN, hgoes, hstops⟩ := h.exists_last verify s T hdeadline
  obtain ⟨rest, rfl⟩ : ∃ rest, fuel = N + (rest + 1) := ⟨fuel - N - 1, by omega⟩
  rw [pollVerify_goesOn_all hgoes]
  obtain ⟨-, ⟨⟨observed, hend⟩, -⟩ | ⟨⟨detail, observed, hend⟩, -⟩⟩ :=
    pollVerify_stops (P := P) hstops rest
  · rw [hend]
    exact nofun
  · rw [hend]
    exact nofun

end

end Ravn
