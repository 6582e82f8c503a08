import Mathlib.Algebra.Group.Nat.Defs
import Mathlib.Order.Bounds.Defs
import Mathlib.Order.Interval.Set.Defs
import Mathlib.Order.Monotone.Basic
import Ravn.Theory.Streak

/-! The pauses of the loop that pulls commands. After an error it backs off by up to twice as long as
after the error before, and after five in a row the circuit opens and it pauses for a fixed time. With
most intervals that time is shorter than the pauses before it, so the longest pause falls as the
errors go on. -/

namespace Ravn

open Theory

def minPollSecs : UInt64 := 5

def backoffMultiplier : Nat := 2

def maxBackoffSecs : UInt64 := 300

def circuitOpenThreshold : UInt32 := 5

def circuitOpenSecs : UInt64 := 60

/-- `u64::saturating_mul`. -/
def saturatingMul (a b : UInt64) : UInt64 :=
  if a.toNat * b.toNat < 2 ^ 64 then a * b else 18446744073709551615

structure PollState where
  consecutiveErrors : UInt32
  backoffSecs : UInt64
  basePollSecs : UInt64

/-- What a round of the loop comes to, with the jitter that is drawn after an error. -/
inductive PollOutcome where
  | success
  | error (jitter : UInt64)

def PollOutcome.isError : PollOutcome → Bool
  | success => false
  | error _ => true

/-- The cap of the delay: an `exponent` of at most 31 keeps the power within a `u32`. -/
def rawBackoff (basePollSecs : UInt64) (consecutiveErrors : UInt32) : UInt64 :=
  let exponent := min (consecutiveErrors - 1) 31
  min (saturatingMul basePollSecs (.ofNat (backoffMultiplier ^ exponent.toNat))) maxBackoffSecs

namespace PollState

def new (pollSecs : UInt64) : PollState := ⟨0, pollSecs, pollSecs⟩

def recordSuccess (s : PollState) : PollState :=
  { s with consecutiveErrors := 0, backoffSecs := s.basePollSecs }

/-- `record_error`: the delay, and whether the circuit just opened. With overflow checks the counter
panics at its end, and without them it starts over. A jitter above the cap is not drawn. -/
def recordError (checks : Bool) (jitter : UInt64) (s : PollState) :
    Option ((UInt64 × Bool) × PollState) :=
  if checks = true ∧ s.consecutiveErrors = 4294967295 then none else
    let errors := s.consecutiveErrors + 1
    if jitter ≤ rawBackoff s.basePollSecs errors then
      let backoff := max jitter 1
      some ((backoff, errors = circuitOpenThreshold),
        { s with consecutiveErrors := errors, backoffSecs := backoff })
    else none

def circuitIsOpen (s : PollState) : Bool := circuitOpenThreshold ≤ s.consecutiveErrors

/-- How long `run` sleeps before its next attempt. -/
def pauseSecs (s : PollState) : UInt64 :=
  if s.circuitIsOpen then circuitOpenSecs else s.backoffSecs

/-- What `run` records of a round. -/
def record (checks : Bool) (s : PollState) : PollOutcome → Option PollState
  | .success => some s.recordSuccess
  | .error jitter => (s.recordError checks jitter).map Prod.snd

end PollState

/-- The interval that `run` enforces. -/
def clampedPoll (pollSecs : UInt64) : UInt64 := max pollSecs minPollSecs

/-- The pauses that may come after `n` errors in a row, whatever came before them. -/
def pauses (checks : Bool) (pollSecs : UInt64) (n : Nat) : Set UInt64 :=
  {p | ∃ s, AfterStreak (PollState.record checks) PollOutcome.isError
    (PollState.new (clampedPoll pollSecs)) n s ∧ s.pauseSecs = p}

/-- As the errors in a row go on, among the numbers of them in `S`, the longest pause does not get
shorter, and is no shorter than a pause after a success. -/
def PausesRise (checks : Bool) (pollSecs : UInt64) (S : Set Nat) : Prop :=
  ∀ n ∈ S, ∀ m ∈ S, n ≤ m → ∀ p q, IsGreatest (pauses checks pollSecs n) p →
    IsGreatest (pauses checks pollSecs m) q → p ≤ q ∧ ∀ r ∈ pauses checks pollSecs 0, r ≤ q

/-- The longest pause after `n` errors in a row. -/
def longestPause (basePollSecs : UInt64) (n : Nat) : UInt64 :=
  if circuitOpenThreshold ≤ UInt32.ofNat n then circuitOpenSecs
  else if n = 0 then basePollSecs
  else rawBackoff basePollSecs (.ofNat n)

/-! ## Arithmetic -/

theorem toNat_saturatingMul (a b : UInt64) :
    (saturatingMul a b).toNat = min (a.toNat * b.toNat) (2 ^ 64 - 1) := by
  unfold saturatingMul
  split
  · rw [UInt64.toNat_mul, Nat.mod_eq_of_lt ‹_›]
    omega
  · have hmax : (18446744073709551615 : UInt64).toNat = 2 ^ 64 - 1 := rfl
    rw [hmax]
    omega

theorem toNat_min (a b : UInt64) : (min a b).toNat = min a.toNat b.toNat := by
  change (if a ≤ b then a else b).toNat = _
  split
  · exact (min_eq_left (UInt64.le_iff_toNat_le.mp ‹_›)).symm
  · exact (min_eq_right (UInt64.le_iff_toNat_le.mp (UInt64.le_of_lt (UInt64.not_le.mp ‹_›)))).symm

theorem max_le_of_le {a b c : UInt64} (ha : a ≤ c) (hb : b ≤ c) : max a b ≤ c := by
  change (if a ≤ b then b else a) ≤ c
  split <;> assumption

theorem max_eq_of_le {a b : UInt64} (h : b ≤ a) : max a b = a := by
  change (if a ≤ b then b else a) = a
  split
  · exact UInt64.le_antisymm h ‹_›
  · rfl

theorem toNat_ofNat_errors (h : n < 2 ^ 32) : (UInt32.ofNat n).toNat = n :=
  UInt32.toNat_ofNat_of_lt' h

theorem toNat_rawBackoff (b : UInt64) (errors : UInt32) :
    (rawBackoff b errors).toNat = min (b.toNat * 2 ^ min (errors - 1).toNat 31) 300 := by
  have hexp : (min (errors - 1) 31).toNat = min (errors - 1).toNat 31 := by
    change (if errors - 1 ≤ 31 then errors - 1 else 31).toNat = _
    split
    · exact (min_eq_left (UInt32.le_iff_toNat_le.mp ‹_›)).symm
    · exact (min_eq_right (UInt32.lt_iff_toNat_lt.mp (UInt32.not_le.mp ‹_›)).le).symm
  have hpow : 2 ^ min (errors - 1).toNat 31 < 2 ^ 64 :=
    Nat.pow_lt_pow_right (by decide) (by omega)
  have hmax : maxBackoffSecs.toNat = 300 := rfl
  rw [rawBackoff, toNat_min, toNat_saturatingMul, hexp, backoffMultiplier, UInt64.toNat_ofNat_of_lt' hpow,
    hmax]
  omega

/-- Before the circuit opens. -/
theorem toNat_rawBackoff_ofNat (b : UInt64) (h : n + 1 < 2 ^ 32) :
    (rawBackoff b (.ofNat (n + 1))).toNat = min (b.toNat * 2 ^ min n 31) 300 := by
  have hpred : UInt32.ofNat (n + 1) - 1 = UInt32.ofNat n := by
    rw [UInt32.ofNat_add]
    exact UInt32.add_sub_cancel _ _
  rw [toNat_rawBackoff, hpred, toNat_ofNat_errors (Nat.lt_of_succ_lt h)]

theorem one_le_rawBackoff {b : UInt64} (hb : 5 ≤ b.toNat) (errors : UInt32) :
    1 ≤ rawBackoff b errors := by
  rw [UInt64.le_iff_toNat_le, toNat_rawBackoff]
  change 1 ≤ _
  have hpow : 1 ≤ 2 ^ min (errors - 1).toNat 31 := Nat.one_le_two_pow
  have hmul : 5 * 1 ≤ b.toNat * 2 ^ min (errors - 1).toNat 31 := Nat.mul_le_mul hb hpow
  omega

theorem five_le_clampedPoll (pollSecs : UInt64) : 5 ≤ (clampedPoll pollSecs).toNat := by
  change 5 ≤ (if pollSecs ≤ 5 then (5 : UInt64) else pollSecs).toNat
  split
  · exact Nat.le_refl _
  · exact (UInt64.lt_iff_toNat_lt.mp (UInt64.not_le.mp ‹_›)).le

/-! ## The states after a streak of errors -/

section

variable {checks : Bool} {b : UInt64} {n : Nat} {s : PollState}

/-- With overflow checks no streak is longer than the counter can hold. -/
def Counted (checks : Bool) (n : Nat) : Prop := checks = true → n < 2 ^ 32

theorem counted_false (n : Nat) : Counted false n := fun h => absurd h Bool.false_ne_true

/-- The delay that a streak of `n` errors is capped at. -/
def capAfter (b : UInt64) (n : Nat) : UInt64 := if n = 0 then b else rawBackoff b (.ofNat n)

/-- A state after a streak of `n` errors. -/
structure Backed (checks : Bool) (b : UInt64) (n : Nat) (s : PollState) : Prop where
  base : s.basePollSecs = b
  errors : s.consecutiveErrors = UInt32.ofNat n
  counted : Counted checks n
  backoff_le : s.backoffSecs ≤ capAfter b n

theorem Backed.success (h : Backed checks b n s) : Backed checks b 0 s.recordSuccess where
  base := h.base
  errors := rfl
  counted _ := by decide
  backoff_le := h.base ▸ UInt64.le_refl _

/-- An error goes through if the counter does not panic and the jitter is one that is drawn. -/
theorem record_error_eq_some (h : Backed checks b n s) :
    s.record checks (.error jitter) = some s' ↔
      Counted checks (n + 1) ∧ jitter ≤ rawBackoff b (.ofNat (n + 1)) ∧
        s' = ⟨UInt32.ofNat (n + 1), max jitter 1, b⟩ := by
  have hlast : checks = true ∧ s.consecutiveErrors = 4294967295 ↔ ¬Counted checks (n + 1) := by
    unfold Counted
    have hcounted := h.counted
    rw [h.errors, ← UInt32.toNat_inj]
    by_cases hc : checks = true
    · rw [toNat_ofNat_errors (hcounted hc)]
      change checks = true ∧ n = 4294967295 ↔ _
      have hlt := hcounted hc
      simp only [hc, true_and, forall_const]
      omega
    · simp [hc]
  have hnext : s.consecutiveErrors + 1 = UInt32.ofNat (n + 1) := by
    rw [h.errors, UInt32.ofNat_add]
    rfl
  have hrecord : s.record checks (.error jitter) =
      if checks = true ∧ s.consecutiveErrors = 4294967295 then none
      else if jitter ≤ rawBackoff s.basePollSecs (s.consecutiveErrors + 1) then
        some ⟨s.consecutiveErrors + 1, max jitter 1, s.basePollSecs⟩
      else none := by
    change (s.recordError checks jitter).map Prod.snd = _
    unfold PollState.recordError
    split
    · rfl
    · dsimp only
      split <;> rfl
  rw [hrecord, hnext, h.base]
  generalize UInt32.ofNat (n + 1) = errors
  by_cases hc : Counted checks (n + 1) <;> by_cases hj : jitter ≤ rawBackoff b errors <;>
    simp [hlast, hc, hj, eq_comm]

theorem Backed.error (hb : 5 ≤ b.toNat) (h : Backed checks b n s)
    (hstep : s.record checks (.error jitter) = some s') : Backed checks b (n + 1) s' := by
  obtain ⟨hcounted, hj, rfl⟩ := (record_error_eq_some h).mp hstep
  exact ⟨rfl, rfl, hcounted, max_le_of_le hj (one_le_rawBackoff hb _)⟩

theorem backed_of_afterStreak (hb : 5 ≤ b.toNat)
    (h : AfterStreak (PollState.record checks) PollOutcome.isError (PollState.new b) n s) :
    Backed checks b n s := by
  refine h.invariant ⟨rfl, rfl, fun _ => by decide, UInt64.le_refl _⟩ ?_ ?_
  · intro n s l s' h hl hstep
    cases l with
    | success =>
      cases hstep
      exact h.success
    | error jitter => cases hl
  · intro n s l s' h hl hstep
    cases l with
    | success => cases hl
    | error jitter => exact h.error hb hstep

/-- The whole cap may be drawn at every error of a streak. -/
theorem exists_capped (hb : 5 ≤ b.toNat) (hn : Counted checks n) :
    ∃ s, AfterStreak (PollState.record checks) PollOutcome.isError (PollState.new b) n s ∧
      Backed checks b n s ∧ s.backoffSecs = capAfter b n := by
  refine exists_afterStreak (J := fun n s => Backed checks b n s ∧ s.backoffSecs = capAfter b n)
    ⟨⟨rfl, rfl, fun _ => by decide, UInt64.le_refl _⟩, rfl⟩ ?_ n (Nat.le_refl n)
  rintro m s hm ⟨h, -⟩
  have hcounted : Counted checks (m + 1) := fun hc => Nat.lt_of_le_of_lt hm (hn hc)
  have hstep := (record_error_eq_some h).mpr ⟨hcounted, UInt64.le_refl _, rfl⟩
  have hbacked := h.error hb hstep
  exact ⟨_, _, rfl, hstep, hbacked, max_eq_of_le (one_le_rawBackoff hb _)⟩

/-- The longest pause after a streak. -/
theorem isGreatest_pauses (hn : Counted checks n) (pollSecs : UInt64) :
    IsGreatest (pauses checks pollSecs n) (longestPause (clampedPoll pollSecs) n) := by
  have hb := five_le_clampedPoll pollSecs
  have hpause : ∀ {s}, Backed checks (clampedPoll pollSecs) n s →
      s.pauseSecs = if circuitOpenThreshold ≤ UInt32.ofNat n then circuitOpenSecs
        else s.backoffSecs := by
    intro s h
    simp only [PollState.pauseSecs, PollState.circuitIsOpen, h.errors, decide_eq_true_iff]
  constructor
  · obtain ⟨s, hs, hbacked, hcap⟩ := exists_capped hb hn
    refine ⟨s, hs, ?_⟩
    rw [hpause hbacked, hcap]
    rfl
  · rintro _ ⟨s, hs, rfl⟩
    have hbacked := backed_of_afterStreak hb hs
    rw [hpause hbacked, longestPause]
    split
    · exact UInt64.le_refl _
    · exact hbacked.backoff_le

/-- With overflow checks there is no pause after a longer streak. -/
theorem counted_of_mem_pauses (h : p ∈ pauses checks pollSecs n) : Counted checks n := by
  obtain ⟨s, hs, -⟩ := h
  exact (backed_of_afterStreak (five_le_clampedPoll pollSecs) hs).counted

end

/-! ## The longest pauses, streak by streak -/

/-- The longest pause in seconds, as long as the counter does not start over. -/
def secsAfter (b n : Nat) : Nat :=
  if 5 ≤ n then 60 else if n = 0 then b else min (b * 2 ^ (n - 1)) 300

theorem toNat_longestPause (b : UInt64) (hn : n < 2 ^ 32) :
    (longestPause b n).toNat = secsAfter b.toNat n := by
  have hopen : circuitOpenThreshold ≤ UInt32.ofNat n ↔ 5 ≤ n := by
    rw [UInt32.le_iff_toNat_le, toNat_ofNat_errors hn]
    rfl
  simp only [longestPause, hopen, secsAfter]
  split
  · rfl
  · cases n with
    | zero => rfl
    | succ m =>
      have hm : min m 31 = m := Nat.min_eq_left (by omega)
      rw [if_neg (Nat.succ_ne_zero m), if_neg (Nat.succ_ne_zero m), toNat_rawBackoff_ofNat b hn, hm,
        Nat.add_sub_cancel]

theorem monotone_secsAfter (hb : b ≤ 7) : Monotone (secsAfter b) := by
  refine monotone_nat_of_le_succ fun n => ?_
  by_cases hopen : 5 ≤ n
  · rw [secsAfter, secsAfter, if_pos hopen, if_pos (Nat.le_succ_of_le hopen)]
  · have hn : n = 0 ∨ n = 1 ∨ n = 2 ∨ n = 3 ∨ n = 4 := by omega
    rcases hn with rfl | rfl | rfl | rfl | rfl <;> simp [secsAfter] <;> omega

theorem clampedPoll_le (pollSecs : UInt64) : (clampedPoll pollSecs).toNat ≤ 7 ↔ pollSecs ≤ 7 := by
  rw [UInt64.le_iff_toNat_le]
  change (if pollSecs ≤ 5 then (5 : UInt64) else pollSecs).toNat ≤ 7 ↔ pollSecs.toNat ≤ 7
  split
  · rename_i h
    have hle : pollSecs.toNat ≤ 5 := UInt64.le_iff_toNat_le.mp h
    have h5 : (5 : UInt64).toNat = 5 := rfl
    omega
  · rfl

theorem greatest_unique {A : Set UInt64} {p q : UInt64} (hp : IsGreatest A p) (hq : IsGreatest A q) :
    p = q := UInt64.le_antisymm (hq.2 hp.1) (hp.2 hq.1)

section

variable {checks : Bool} {pollSecs : UInt64} {S : Set Nat}

/-- The longest pause before the circuit opens is eight times the interval. -/
theorem PausesRise.le_seven (h : PausesRise checks pollSecs S) (h4 : 4 ∈ S) (h5 : 5 ∈ S) :
    pollSecs ≤ 7 := by
  have hle := (h 4 h4 5 h5 (by decide) _ _ (isGreatest_pauses (fun _ => by decide) pollSecs)
    (isGreatest_pauses (fun _ => by decide) pollSecs)).1
  rw [UInt64.le_iff_toNat_le, toNat_longestPause _ (by decide), toNat_longestPause _ (by decide)] at hle
  rw [← clampedPoll_le]
  change min ((clampedPoll pollSecs).toNat * 2 ^ 3) 300 ≤ 60 at hle
  omega

theorem pausesRise_of_le (hpoll : pollSecs ≤ 7) (hS : ∀ n ∈ S, Counted checks n → n < 2 ^ 32) :
    PausesRise checks pollSecs S := by
  have hmono := monotone_secsAfter ((clampedPoll_le pollSecs).mpr hpoll)
  have hlongest : ∀ {n m : Nat} {q}, n ≤ m → m ∈ S → IsGreatest (pauses checks pollSecs m) q →
      longestPause (clampedPoll pollSecs) n ≤ q := by
    intro n m q hnm hm hq
    have hcounted := counted_of_mem_pauses hq.1
    have hlt := hS m hm hcounted
    obtain rfl := greatest_unique hq (isGreatest_pauses hcounted pollSecs)
    rw [UInt64.le_iff_toNat_le, toNat_longestPause _ hlt, toNat_longestPause _ (Nat.lt_of_le_of_lt hnm hlt)]
    exact hmono hnm
  intro n hn m hm hnm p q hp hq
  obtain rfl := greatest_unique hp (isGreatest_pauses (counted_of_mem_pauses hp.1) pollSecs)
  refine ⟨hlongest hnm hm hq, fun r hr => ?_⟩
  exact UInt64.le_trans ((isGreatest_pauses (fun _ => by decide) pollSecs).2 hr)
    (hlongest (Nat.zero_le m) hm hq)

/-- Where the counter starts over, the longest pause falls from the cap to the interval. -/
theorem not_pausesRise_univ (hpoll : pollSecs ≤ 7) : ¬PausesRise false pollSecs Set.univ := by
  intro h
  have hle := (h (2 ^ 32) trivial (2 ^ 32 + 1) trivial (Nat.le_succ _) _ _
    (isGreatest_pauses (counted_false _) pollSecs) (isGreatest_pauses (counted_false _) pollSecs)).1
  have hzero : UInt32.ofNat (2 ^ 32) = 0 := rfl
  have hone : UInt32.ofNat (2 ^ 32 + 1) = 1 := rfl
  have hpos := five_le_clampedPoll pollSecs
  have hseven := (clampedPoll_le pollSecs).mpr hpoll
  rw [longestPause, longestPause, hzero, hone, if_neg (by decide), if_neg (by decide),
    if_neg (by decide), if_neg (by decide), UInt64.le_iff_toNat_le, toNat_rawBackoff,
    toNat_rawBackoff] at hle
  change min ((clampedPoll pollSecs).toNat * 2147483648) 300 ≤ min ((clampedPoll pollSecs).toNat * 1) 300
    at hle
  omega

end

/-- Up to the end of the counter the longest pause rises exactly for intervals of up to seven seconds;
beyond it, only if the counter panics there. -/
theorem pausesRise_iff (checks : Bool) (pollSecs : UInt64) :
    (PausesRise checks pollSecs (Set.Iio (2 ^ 32)) ↔ pollSecs ≤ 7) ∧
      (PausesRise checks pollSecs Set.univ ↔ pollSecs ≤ 7 ∧ checks = true) := by
  refine ⟨⟨fun h => ?_, fun h => ?_⟩, ⟨fun h => ?_, fun h => ?_⟩⟩
  · exact h.le_seven (Set.mem_Iio.mpr (by decide)) (Set.mem_Iio.mpr (by decide))
  · exact pausesRise_of_le h fun n hn _ => hn
  · have hseven := h.le_seven trivial trivial
    cases checks with
    | true => exact ⟨hseven, rfl⟩
    | false => exact absurd h (not_pausesRise_univ hseven)
  · exact pausesRise_of_le h.1 fun n _ hn => hn h.2

/-- With an interval of ten seconds the agent waits up to 80 s after four errors and 60 s after five;
with one of two minutes it asks more often the worse the errors are. -/
theorem pauses_fall :
    IsGreatest (pauses false 10 4) 80 ∧ IsGreatest (pauses false 10 5) 60 ∧
      IsGreatest (pauses false 120 0) 120 ∧ IsGreatest (pauses false 120 5) 60 ∧
      ¬PausesRise false 10 (Set.Iio (2 ^ 32)) := by
  have h4 : IsGreatest (pauses false 10 4) 80 := isGreatest_pauses (counted_false _) 10
  have h5 : IsGreatest (pauses false 10 5) 60 := isGreatest_pauses (counted_false _) 10
  have hcalm : IsGreatest (pauses false 120 0) 120 := isGreatest_pauses (counted_false _) 120
  have hopen : IsGreatest (pauses false 120 5) 60 := isGreatest_pauses (counted_false _) 120
  refine ⟨h4, h5, hcalm, hopen, fun h => ?_⟩
  have hle := (h 4 (Set.mem_Iio.mpr (by decide)) 5 (Set.mem_Iio.mpr (by decide)) (by decide)
    _ _ h4 h5).1
  exact absurd hle (by decide)

end Ravn
