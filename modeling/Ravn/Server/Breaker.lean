import Ravn.Server.PolicyHistory
import Ravn.Theory.Interleaving

/-! The circuit breaker under concurrent calls of `evaluate`. A call that a rule lets run by itself
takes the breaker's lock twice, to check and to record, and calls of other tasks may come in between.
The cap holds as long as every check that passes leaves room for the calls that have passed theirs
and are not recorded yet. -/

namespace Ravn

open Theory

/-! ## Calls in progress -/

/-- A call of `evaluate`, by the section it comes to next. -/
inductive Evaluation where
  | check (call : PolicyCall)
  | reserve (call : PolicyCall)
  | answered (call : PolicyCall) (result : EvaluateResult)
  /-- The cutoff is out of range. No lock is held then, so nothing is poisoned. -/
  | panicked (call : PolicyCall)

/-- The breaker's log, and all that was ever recorded in it. -/
structure BreakerState where
  hits : HitLog
  recorded : HitLog

namespace Evaluation

def step (eng : PolicyEngine) (s : BreakerState) :
    Evaluation → Unit → Option (BreakerState × Evaluation)
  | check c, _ =>
    match eng.consult s.hits c with
    | none => some (s, panicked c)
    | some (r, hits) =>
      some ({ s with hits := hits }, if r.decision = .auto then reserve c else answered c r)
  | reserve c, _ =>
    some (⟨PolicyEngine.record s.hits c, PolicyEngine.record s.recorded c⟩,
      answered c ⟨.auto, false⟩)
  | answered .., _ | panicked _, _ => none

/-- Left alone, a call is `evaluate`. -/
theorem alone_check (eng : PolicyEngine) (s : BreakerState) (c : PolicyCall)
    (h : eng.evaluate s.hits c = some (r, hits)) :
    (Pool.alone (step eng) s (check c) [(), ()]).1.hits = hits ∧
      (Pool.alone (step eng) s (check c) [(), ()]).2 = answered c r := by
  rw [PolicyEngine.evaluate_eq_consult, Option.map_eq_some_iff] at h
  obtain ⟨⟨r', hits'⟩, hconsult, h⟩ := h
  simp only [Prod.mk.injEq] at h
  obtain ⟨rfl, rfl⟩ := h
  by_cases hauto : r'.decision = .auto
  · obtain ⟨rfl, -⟩ := PolicyEngine.consult_auto hconsult hauto
    simp [Pool.alone, step, hconsult]
  · simp [Pool.alone, step, hconsult, hauto]

/-- What a section can do: a check passes, panics or is answered at once; a call that has passed is
recorded and answered. -/
theorem step_cases (h : step eng s task u = some (s', task')) :
    (∃ c, task = check c ∧ s'.recorded = s.recorded ∧
      ((task' = reserve c ∧ ((eng.consult s.hits c).any fun r => r.1.decision = .auto)) ∨
        task' = panicked c ∨ ∃ r, r.decision ≠ .auto ∧ task' = answered c r)) ∨
    ∃ c, task = reserve c ∧ task' = answered c ⟨.auto, false⟩ ∧
      s' = ⟨PolicyEngine.record s.hits c, PolicyEngine.record s.recorded c⟩ := by
  cases task with
  | check c =>
    left
    simp only [step] at h
    split at h
    · cases h
      exact ⟨c, rfl, rfl, .inr (.inl rfl)⟩
    · rename_i r hits hconsult
      cases h
      refine ⟨c, rfl, rfl, ?_⟩
      split
      · rename_i hauto
        exact .inl ⟨rfl, by simpa [hconsult] using hauto⟩
      · rename_i hauto
        exact .inr (.inr ⟨r, hauto, rfl⟩)
  | reserve c =>
    cases h
    exact .inr ⟨c, rfl, rfl, rfl⟩
  | answered => cases h
  | panicked => cases h

/-- The time of a call on the pair that has passed its check and is not recorded yet. -/
def passed (key : String × String) : Evaluation → List DateTime
  | reserve c => if c.key = key then [c.now] else []
  | _ => []

/-- The time of a call on the pair that was answered `Auto`. -/
def auto (key : String × String) : Evaluation → List DateTime
  | answered c r => if c.key = key ∧ r.decision = .auto then [c.now] else []
  | _ => []

end Evaluation

abbrev Breaker := Pool BreakerState Evaluation

abbrev BreakerLabel := PoolLabel PolicyCall Empty Unit

namespace Breaker

/-- A call starts, or one that is in progress runs its next section. -/
def step (eng : PolicyEngine) : Breaker → BreakerLabel → Option Breaker :=
  Pool.step Evaluation.check (fun _ e => nomatch e) (Evaluation.step eng)

def start : Breaker := ⟨⟨fun _ => [], fun _ => []⟩, []⟩

/-- When calls on the pair were answered `Auto`. -/
def autoTimes (s : Breaker) (key : String × String) : List DateTime :=
  s.tasks.flatMap (Evaluation.auto key)

/-- The times of the calls on the pair that stand between their two sections. -/
def passedTimes (s : Breaker) (key : String × String) : List DateTime :=
  s.tasks.flatMap (Evaluation.passed key)

/-! ## The cap -/

/-- A check that passes leaves room. What the log holds of the pair within the window, with the calls
that stand between their sections, is below the cap, and nothing of that window was pruned: no
earlier check had a later cutoff. -/
structure Room (eng : PolicyEngine) (s : Breaker) (c : PolicyCall) : Prop where
  room : (s.shared.hits c.key ++ s.passedTimes c.key).countP (eng.notAged c.now) <
    eng.maxAuto.toNat
  kept : (s.shared.recorded c.key).filter (eng.notAged c.now) =
    (s.shared.hits c.key).filter (eng.notAged c.now)

/-- The condition on a step: if it is a check that passes, it leaves room. -/
def LeavesRoom (eng : PolicyEngine) (s : Breaker) : BreakerLabel → Prop
  | .advance i _ => ∀ c, s.tasks[i]? = some (.check c) →
      ((eng.consult s.shared.hits c).any fun r => r.1.decision = .auto) → Room eng s c
  | _ => True

/-- All calls that have passed their check on a pair, in the order of the checks, were admitted by a
rate limiter; those of them that are recorded are the ones answered `Auto`. -/
structure Capped (eng : PolicyEngine) (s : Breaker) : Prop where
  answered : ∀ key, (s.autoTimes key).Perm (s.shared.recorded key)
  limited : ∀ key, ∃ admitted, Limited eng.notAged eng.maxAuto.toNat admitted ∧
    admitted.Perm (s.shared.recorded key ++ s.passedTimes key)

variable {eng : PolicyEngine}

theorem Capped.start : Capped eng start where
  answered _ := .nil
  limited _ := ⟨[], .nil, .nil⟩

/-- A task that is replaced by one that counts for nothing, as it did before. -/
theorem Capped.idle {pre post : List Evaluation}
    (h : Capped eng ⟨shared, pre ++ task :: post⟩) (hrecorded : shared'.recorded = shared.recorded)
    (hpassed : ∀ key, task'.passed key = task.passed key)
    (hauto : ∀ key, task'.auto key = task.auto key) :
    Capped eng ⟨shared', pre ++ task' :: post⟩ := by
  constructor
  · intro key
    have := h.answered key
    simp only [autoTimes, List.flatMap_append, List.flatMap_cons] at this ⊢
    rwa [hauto, hrecorded]
  · intro key
    have := h.limited key
    simp only [passedTimes, List.flatMap_append, List.flatMap_cons] at this ⊢
    rwa [hpassed, hrecorded]

/-- A check that passes and leaves room admits its call. -/
theorem Capped.pass {pre post : List Evaluation}
    (h : Capped eng ⟨shared, pre ++ .check c :: post⟩)
    (hroom : Room eng ⟨shared, pre ++ .check c :: post⟩ c)
    (hrecorded : shared'.recorded = shared.recorded) :
    Capped eng ⟨shared', pre ++ .reserve c :: post⟩ := by
  constructor
  · intro key
    have := h.answered key
    simp only [autoTimes, List.flatMap_append, List.flatMap_cons] at this ⊢
    rwa [hrecorded]
  · intro key
    obtain ⟨admitted, hlimited, hperm⟩ := h.limited key
    simp only [passedTimes, List.flatMap_append, List.flatMap_cons, Evaluation.passed, hrecorded,
      List.nil_append] at hperm ⊢
    by_cases hkey : c.key = key
    · subst hkey
      refine ⟨admitted ++ [c.now], hlimited.snoc ?_, ?_⟩
      · have hcount := hroom.room
        rw [List.countP_append, List.countP_eq_length_filter, ← hroom.kept,
          ← List.countP_eq_length_filter, ← List.countP_append] at hcount
        simp only [passedTimes, List.flatMap_append, List.flatMap_cons, Evaluation.passed,
          List.nil_append] at hcount
        rwa [hperm.countP_eq]
      · rw [if_pos rfl]
        refine (hperm.append_right [c.now]).trans ?_
        rw [List.append_assoc, List.append_assoc]
        exact (List.perm_append_comm.append_left _).append_left _
    · rw [if_neg hkey]
      exact ⟨admitted, hlimited, hperm⟩

/-- Recording a call that has passed answers it. -/
theorem Capped.record {pre post : List Evaluation}
    (h : Capped eng ⟨shared, pre ++ .reserve c :: post⟩) :
    Capped eng ⟨⟨hits, PolicyEngine.record shared.recorded c⟩,
      pre ++ .answered c ⟨.auto, false⟩ :: post⟩ := by
  constructor
  · intro key
    have hperm := h.answered key
    simp only [autoTimes, List.flatMap_append, List.flatMap_cons, Evaluation.auto,
      PolicyEngine.record, List.nil_append] at hperm ⊢
    by_cases hkey : c.key = key
    · rw [if_pos ⟨hkey, trivial⟩, if_pos hkey.symm]
      refine .trans ?_ (hperm.append_right [c.now])
      rw [List.append_assoc]
      exact List.perm_append_comm.append_left _
    · rw [if_neg (fun hc => hkey hc.1), if_neg (Ne.symm hkey)]
      exact hperm
  · intro key
    obtain ⟨admitted, hlimited, hperm⟩ := h.limited key
    refine ⟨admitted, hlimited, hperm.trans ?_⟩
    simp only [passedTimes, List.flatMap_append, List.flatMap_cons, Evaluation.passed,
      PolicyEngine.record, List.nil_append]
    by_cases hkey : c.key = key
    · rw [if_pos hkey, if_pos hkey.symm, List.append_assoc]
      refine .append_left _ ?_
      rw [← List.append_assoc, ← List.append_assoc]
      exact List.perm_append_comm.append_right _
    · rw [if_neg hkey, if_neg (Ne.symm hkey), List.nil_append]

/-- A step keeps the cap as long as a check that passes leaves room. -/
theorem Capped.step (h : Capped eng s) (hroom : LeavesRoom eng s l)
    (hstep : step eng s l = some s') : Capped eng s' := by
  obtain ⟨shared, tasks⟩ := s
  obtain ⟨c, rfl, rfl⟩ | ⟨e, -, -⟩ | ⟨i, u, pre, task, post, shared', task', rfl, htask, htasks,
    hadvance, rfl⟩ := Pool.step_cases hstep
  · -- A call that has only started counts for nothing yet.
    constructor
    · intro key
      have := h.answered key
      simp only [autoTimes, List.flatMap_append] at this ⊢
      simpa [Evaluation.auto] using this
    · intro key
      have := h.limited key
      simp only [passedTimes, List.flatMap_append] at this ⊢
      simpa [Evaluation.passed] using this
  · cases e
  dsimp only at htask htasks
  subst htasks
  obtain ⟨c, rfl, hrecorded, ⟨rfl, hpass⟩ | rfl | ⟨r, hr, rfl⟩⟩ | ⟨c, rfl, rfl, rfl⟩ :=
    Evaluation.step_cases hadvance
  · exact h.pass (hroom c htask hpass) hrecorded
  · exact h.idle hrecorded (fun _ => rfl) fun _ => rfl
  · exact h.idle hrecorded (fun _ => rfl) fun key => if_neg fun hc => hr hc.2
  · exact h.record

/-- What the rate limiter admits is capped in every set of times that count for one another. -/
theorem Capped.countP_le (h : Capped eng s) {S : DateTime → Bool}
    (hS : ∀ x y, S x → S y → eng.notAged x y) (key : String × String) :
    (s.autoTimes key).countP S ≤ eng.maxAuto.toNat := by
  obtain ⟨admitted, hlimited, hperm⟩ := h.limited key
  calc (s.autoTimes key).countP S
      = (s.shared.recorded key).countP S := (h.answered key).countP_eq _
    _ ≤ (s.shared.recorded key ++ s.passedTimes key).countP S := by
        rw [List.countP_append]
        exact Nat.le_add_right ..
    _ = admitted.countP S := (hperm.countP_eq _).symm
    _ ≤ eng.maxAuto.toNat := hlimited.countP_le hS

/-- The calls on one pair that are answered `Auto` within any half-open window, open at either end,
are at most the cap. -/
def CapHolds (eng : PolicyEngine) (s : Breaker) : Prop :=
  ∀ key (start : Int),
    (s.autoTimes key).countP (fun t => start < t.nanos ∧ t.nanos ≤ start + eng.window) ≤
      eng.maxAuto.toNat ∧
    (s.autoTimes key).countP (fun t => start ≤ t.nanos ∧ t.nanos < start + eng.window) ≤
      eng.maxAuto.toNat

/-- In every interleaving of calls in which each check that passes leaves room, the cap holds in
every state. -/
theorem cap_holds_of_leavesRoom (eng : PolicyEngine) (labels : List BreakerLabel) (s : Breaker)
    (hrun : run (step eng) start labels = some s)
    (hroom : Along (step eng) (LeavesRoom eng) start labels) : CapHolds eng s := by
  have h : Capped eng s := hroom.invariant Capped.step hrun .start
  intro key start
  exact ⟨h.countP_le notAged_of_leftOpen key, h.countP_le notAged_of_rightOpen key⟩

/-! ## Small runs -/

instance (eng : PolicyEngine) (s : Breaker) (c : PolicyCall) : Decidable (Room eng s c) :=
  decidable_of_iff (_ ∧ _) ⟨fun h => ⟨h.1, h.2⟩, fun h => ⟨h.1, h.2⟩⟩

instance (eng : PolicyEngine) (s : Breaker) : ∀ l, Decidable (LeavesRoom eng s l)
  | .spawn _ => .isTrue trivial
  | .advance i _ =>
    match h : s.tasks[i]? with
    | some (.check c) => decidable_of_iff
        (((eng.consult s.shared.hits c).any fun r => r.1.decision = .auto) → Room eng s c)
        (by simp [LeavesRoom, h])
    | some (.reserve _) | some (.answered ..) | some (.panicked _) | none =>
      .isTrue (by simp [LeavesRoom, h])

open PolicyEngine

/-- Two calls on one pair, at one time. -/
def sampleRace : List BreakerLabel :=
  [.spawn (sampleCall "web-1" .safe 0), .spawn (sampleCall "web-1" .safe 0),
    .advance 0 (), .advance 1 (), .advance 0 (), .advance 1 ()]

/-- Both calls check before either records, so both are answered `Auto` where one is allowed. -/
theorem cap_exceeded :
    ¬∀ (eng : PolicyEngine) (labels : List BreakerLabel) (s : Breaker),
      run (step eng) start labels = some s → CapHolds eng s := by
  intro h
  have htwo : (run (step sample) start sampleRace).map (fun s =>
      (s.autoTimes ("web-1", "failed-unit-restart")).countP fun t =>
        1780660800000000000 ≤ t.nanos ∧ t.nanos < 1780660800000000000 + (sample.window : Int)) =
      some 2 := by
    decide +kernel
  obtain ⟨s, hrun, hs⟩ := Option.map_eq_some_iff.mp htwo
  have hcap := (h sample sampleRace s hrun ("web-1", "failed-unit-restart") 1780660800000000000).2
  rw [hs] at hcap
  exact absurd hcap (by decide)

/-- Calls on two pairs side by side; then the breaker trips for the first, and a minute after the
first call it does not. -/
def sampleSideBySide : List BreakerLabel :=
  [.spawn (sampleCall "web-1" .safe 0), .spawn (sampleCall "web-2" .safe 0),
    .advance 0 (), .advance 1 (), .advance 1 (), .advance 0 (),
    .spawn (sampleCall "web-1" .safe 30), .advance 2 (),
    .spawn (sampleCall "web-1" .safe 60), .advance 3 (), .advance 3 ()]

theorem cap_holds_of_leavesRoom_sample :
    ∃ s, run (step sample) start sampleSideBySide = some s ∧
      (s.autoTimes ("web-1", "failed-unit-restart")).length = 2 ∧ CapHolds sample s := by
  have htwo : (run (step sample) start sampleSideBySide).map (fun s =>
      (s.autoTimes ("web-1", "failed-unit-restart")).length) = some 2 := by
    decide +kernel
  obtain ⟨s, hrun, hs⟩ := Option.map_eq_some_iff.mp htwo
  exact ⟨s, hrun, hs, cap_holds_of_leavesRoom sample sampleSideBySide s hrun (by decide +kernel)⟩

end Breaker

end Ravn
