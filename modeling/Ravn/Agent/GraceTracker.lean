import Mathlib.Data.Finset.Basic
import Mathlib.Logic.Function.Basic
import Mathlib.Tactic.IntervalCases
import Ravn.Theory.Episode

/-! The tap for failed systemd units: its `GraceTracker`, which sees the set of failed units at every
poll. Two collections, the timers that run and the units reported, encode for each unit by itself
the phase of an alarm; a call moves all phases at once (`phase_observe`). So a unit that stays failed
is reported once, as soon as the grace period is over (`failed_unit_reported_once`).

Instants and durations are in nanoseconds. -/

namespace Ravn

open Theory

/-- What a call of `observe` is given: the failed units, in the order in which the set iterates, and
the clock. -/
structure Observation where
  currentFailed : List String
  nodup : currentFailed.Nodup
  now : Nat

/-- Tracks how long each unit has been failed. -/
structure GraceTracker where
  /-- Failed units within their grace period, and when each was first seen failed. -/
  pending : String → Option Nat
  /-- Units that were reported and are failed still. -/
  emitted : Finset String

namespace GraceTracker

def new : GraceTracker := ⟨fun _ => none, ∅⟩

/-- Units that have recovered are forgotten. -/
def retain (t : GraceTracker) (currentFailed : List String) : GraceTracker where
  pending name := if name ∈ currentFailed then t.pending name else none
  emitted := t.emitted.filter fun name => name ∈ currentFailed

/-- The body of the loop over the failed units, with the units to report so far. -/
def visit (grace now : Nat) (s : GraceTracker × List String) (name : String) :
    GraceTracker × List String :=
  let (t, toEmit) := s
  if name ∈ t.emitted then s
  else
    let firstSeen := (t.pending name).getD now
    let pending := Function.update t.pending name (some firstSeen)
    -- The subtraction saturates.
    if grace ≤ now - firstSeen then
      (⟨Function.update pending name none, insert name t.emitted⟩, toEmit ++ [name])
    else (⟨pending, t.emitted⟩, toEmit)

/-- `observe`: the units that have been failed for the grace period and are not reported yet. -/
def observe (grace : Nat) (t : GraceTracker) (o : Observation) : GraceTracker × List String :=
  o.currentFailed.foldl (visit grace o.now) (t.retain o.currentFailed, [])

/-- The tracker after a sequence of calls. -/
def after (grace : Nat) (t : GraceTracker) (os : List Observation) : GraceTracker :=
  os.foldl (fun t o => (t.observe grace o).1) t

/-- What each call of a sequence returns. -/
def calls (grace : Nat) : GraceTracker → List Observation → List (List String)
  | _, [] => []
  | t, o :: os => (t.observe grace o).2 :: calls grace (t.observe grace o).1 os

theorem getElem?_calls (grace : Nat) (t : GraceTracker) (os : List Observation) (k : Nat) :
    (calls grace t os)[k]? = os[k]?.map fun o => ((t.after grace (os.take k)).observe grace o).2 := by
  induction os generalizing t k with
  | nil => simp [calls]
  | cons o os ih =>
    cases k with
    | zero => rfl
    | succ k =>
      simp only [calls, List.getElem?_cons_succ, List.take_succ_cons]
      exact ih (t.observe grace o).1 k

/-! ## The phase of a unit -/

/-- The grace period is over. -/
def graceOver (grace since now : Nat) : Bool := grace ≤ now - since

/-- What the two collections say of a unit. -/
def phase (t : GraceTracker) (name : String) : Phase Nat :=
  if name ∈ t.emitted then .reported
  else match t.pending name with
    | some since => .waiting since
    | none => .clear

variable {grace now : Nat} {t : GraceTracker} {name : String}

theorem phase_retain (t : GraceTracker) (currentFailed : List String) (name : String) :
    (t.retain currentFailed).phase name =
      if name ∈ currentFailed then t.phase name else .clear := by
  by_cases hfailed : name ∈ currentFailed
  · simp [phase, retain, hfailed]
  · simp [phase, retain, hfailed]

/-- The timer of a unit that is not reported starts now if it does not run yet. -/
theorem observe_phase (h : name ∉ t.emitted) :
    (t.phase name).observe (graceOver grace) true now =
      Phase.wait (graceOver grace) ((t.pending name).getD now) now := by
  rw [phase, if_neg h]
  cases t.pending name with
  | none => rfl
  | some since => rfl

/-- A unit that is visited makes its step; it is added to the output if its alarm goes off. -/
theorem visit_self (grace now : Nat) (t : GraceTracker) (toEmit : List String) (name : String) :
    (visit grace now (t, toEmit) name).1.phase name =
        ((t.phase name).observe (graceOver grace) true now).1 ∧
      (visit grace now (t, toEmit) name).2 =
        toEmit ++ [name].filter fun n => ((t.phase n).observe (graceOver grace) true now).2 := by
  by_cases hemitted : name ∈ t.emitted
  · simp [visit, phase, hemitted]
  · rw [List.filter_singleton, observe_phase hemitted]
    by_cases hover : grace ≤ now - (t.pending name).getD now
    · simp [visit, phase, hemitted, hover, Phase.wait, graceOver]
    · simp [visit, phase, hemitted, hover, Phase.wait, graceOver]

/-- The other units stay as they are. -/
theorem visit_other (grace now : Nat) (t : GraceTracker) (toEmit : List String)
    (hne : name' ≠ name) :
    (visit grace now (t, toEmit) name).1.phase name' = t.phase name' := by
  by_cases hemitted : name ∈ t.emitted
  · simp [visit, hemitted]
  · by_cases hover : grace ≤ now - (t.pending name).getD now
    · simp [visit, phase, hemitted, hover, hne]
    · simp [visit, phase, hemitted, hover, hne]

/-- Of the loop over the failed units each one makes its step once, in the state the loop began with. -/
theorem foldl_visit {names : List String} (hnodup : names.Nodup) (grace now : Nat)
    (t : GraceTracker) (toEmit : List String) :
    (∀ name, (names.foldl (visit grace now) (t, toEmit)).1.phase name =
        if name ∈ names then ((t.phase name).observe (graceOver grace) true now).1
        else t.phase name) ∧
      (names.foldl (visit grace now) (t, toEmit)).2 =
        toEmit ++ names.filter fun n => ((t.phase n).observe (graceOver grace) true now).2 := by
  induction names generalizing t toEmit with
  | nil => simp
  | cons first rest ih =>
    obtain ⟨hfirst, hrest⟩ := List.nodup_cons.mp hnodup
    obtain ⟨hphase, hemit⟩ := visit_self grace now t toEmit first
    obtain ⟨ihphase, ihemit⟩ :=
      ih hrest (visit grace now (t, toEmit) first).1 (visit grace now (t, toEmit) first).2
    rw [List.foldl_cons]
    constructor
    · intro name
      rw [ihphase name]
      by_cases hname : name = first
      · subst hname
        rw [if_neg hfirst, if_pos List.mem_cons_self, hphase]
      · rw [visit_other grace now t toEmit hname]
        simp [List.mem_cons, hname]
    · have hsame : (rest.filter fun n => (((visit grace now (t, toEmit) first).1.phase n).observe
          (graceOver grace) true now).2) =
          rest.filter fun n => ((t.phase n).observe (graceOver grace) true now).2 := by
        apply List.filter_congr
        intro n hn
        rw [visit_other grace now t toEmit (ne_of_mem_of_not_mem hn hfirst)]
      rw [ihemit, hemit, List.append_assoc, hsame, ← List.filter_append]
      rfl

/-- A call moves the phase of every unit. -/
theorem phase_observe (grace : Nat) (t : GraceTracker) (o : Observation) (name : String) :
    (t.observe grace o).1.phase name =
      ((t.phase name).observe (graceOver grace) (decide (name ∈ o.currentFailed)) o.now).1 := by
  rw [observe, (foldl_visit o.nodup grace o.now _ []).1, phase_retain]
  by_cases hfailed : name ∈ o.currentFailed
  · simp [hfailed]
  · simp [hfailed]

/-- A call returns the failed units whose alarms go off, in the order of the set. -/
theorem observe_emitted (grace : Nat) (t : GraceTracker) (o : Observation) :
    (t.observe grace o).2 = o.currentFailed.filter fun n =>
      ((t.phase n).observe (graceOver grace) true o.now).2 := by
  rw [observe, (foldl_visit o.nodup grace o.now _ []).2, List.nil_append]
  apply List.filter_congr
  intro n hn
  rw [phase_retain, if_pos hn]

/-- No unit is returned twice by a call. -/
theorem observe_nodup (grace : Nat) (t : GraceTracker) (o : Observation) :
    (t.observe grace o).2.Nodup := by
  rw [observe_emitted]
  exact o.nodup.filter _

/-! ## Sequences of calls -/

/-- The unit is failed at the `k`-th call. -/
def failedAt (os : List Observation) (unit : String) (k : Nat) : Bool :=
  os[k]?.any fun o => unit ∈ o.currentFailed

/-- The time of the `k`-th call. -/
def timeAt (os : List Observation) (k : Nat) : Nat := (os[k]?.map Observation.now).getD 0

/-- The `k`-th call returns the unit. -/
def Returned (grace : Nat) (os : List Observation) (k : Nat) (unit : String) : Prop :=
  ∃ toEmit, (calls grace new os)[k]? = some toEmit ∧ unit ∈ toEmit

theorem phase_after (hk : k ≤ os.length) :
    (new.after grace (os.take k)).phase unit =
      phaseAt (graceOver grace) (failedAt os unit) (timeAt os) k := by
  induction k with
  | zero => rfl
  | succ k ih =>
    have hget : os[k]? = some os[k] := List.getElem?_eq_getElem hk
    rw [List.take_add_one, hget, after, List.foldl_append]
    change ((after grace new (os.take k)).observe grace os[k]).1.phase unit = _
    rw [phase_observe, ih (Nat.le_of_succ_le hk), phaseAt, failedAt, timeAt, hget]
    rfl

/-- Of every unit the calls return what its alarm says. -/
theorem returned_iff_firesAt :
    Returned grace os k unit ↔
      firesAt (graceOver grace) (failedAt os unit) (timeAt os) k = true := by
  unfold Returned
  rw [getElem?_calls]
  cases hget : os[k]? with
  | none => simp [firesAt, failedAt, hget]
  | some o =>
    have hk : k < os.length := (List.getElem?_eq_some_iff.mp hget).1
    have hphase : (new.after grace (os.take k)).phase unit =
        phaseAt (graceOver grace) (failedAt os unit) (timeAt os) k := phase_after hk.le
    by_cases hfailed : unit ∈ o.currentFailed
    · simp [observe_emitted, firesAt, failedAt, timeAt, hget, hphase, hfailed]
    · simp [observe_emitted, firesAt, failedAt, hget, hfailed]

/-- Clocks that never go back. -/
def Monotonic (os : List Observation) : Prop := os.Pairwise fun o o' => o.now ≤ o'.now

/-- Then the grace period is over when it has been added to the time. -/
theorem graceOver_iff (hmono : Monotonic os) (hik : i ≤ k) (hk : failedAt os unit k = true) :
    graceOver grace (timeAt os i) (timeAt os k) = true ↔
      timeAt os i + grace ≤ timeAt os k := by
  have hlen : k < os.length := by
    by_contra hlen
    rw [failedAt, List.getElem?_eq_none (Nat.le_of_not_lt hlen)] at hk
    cases hk
  have hle : timeAt os i ≤ timeAt os k := by
    rcases Nat.lt_or_eq_of_le hik with hlt | rfl
    · have := List.pairwise_iff_getElem.mp hmono i k (hlt.trans hlen) hlen hlt
      simpa [timeAt, hlen, hlt.trans hlen] using this
    · exact Nat.le_refl _
  rw [graceOver, decide_eq_true_iff]
  omega

end GraceTracker

open GraceTracker

/-- A unit is returned by a call exactly if it is failed since a call the grace period or more ago,
was not failed right before that one, and has not been returned since. No call returns it twice.
A run of calls at which it is failed returns it once if one of them comes the grace period after the
first, else never. -/
theorem failed_unit_reported_once (grace : Nat) (os : List Observation) (hmono : Monotonic os) :
    (∀ unit k, Returned grace os k unit ↔
      ∃ i, Episode (failedAt os unit) i k ∧ timeAt os i + grace ≤ timeAt os k ∧
        ∀ j, i ≤ j → j < k → ¬Returned grace os j unit) ∧
    (∀ toEmit ∈ calls grace new os, toEmit.Nodup) ∧
    ∀ unit i m, Episode (failedAt os unit) i m →
      ((∃ j, i ≤ j ∧ j ≤ m ∧ timeAt os i + grace ≤ timeAt os j) →
        ∃! k, i ≤ k ∧ k ≤ m ∧ Returned grace os k unit) ∧
      ((¬∃ j, i ≤ j ∧ j ≤ m ∧ timeAt os i + grace ≤ timeAt os j) →
        ∀ k, i ≤ k → k ≤ m → ¬Returned grace os k unit) := by
  refine ⟨?_, ?_, ?_⟩
  · intro unit k
    simp only [returned_iff_firesAt, Bool.not_eq_true]
    rw [firesAt_iff]
    constructor
    · rintro ⟨i, hepisode, hover, hquiet⟩
      have hk := hepisode.lasts k hepisode.le (Nat.le_refl k)
      exact ⟨i, hepisode, (graceOver_iff hmono hepisode.le hk).mp hover, hquiet⟩
    · rintro ⟨i, hepisode, hover, hquiet⟩
      have hk := hepisode.lasts k hepisode.le (Nat.le_refl k)
      exact ⟨i, hepisode, (graceOver_iff hmono hepisode.le hk).mpr hover, hquiet⟩
  · intro toEmit hmem
    obtain ⟨k, hget⟩ := List.mem_iff_getElem?.mp hmem
    rw [getElem?_calls, Option.map_eq_some_iff] at hget
    obtain ⟨o, -, rfl⟩ := hget
    exact observe_nodup grace _ o
  · intro unit i m hepisode
    have hover : (∃ j, i ≤ j ∧ j ≤ m ∧ graceOver grace (timeAt os i) (timeAt os j) = true) ↔
        ∃ j, i ≤ j ∧ j ≤ m ∧ timeAt os i + grace ≤ timeAt os j := by
      refine exists_congr fun j => and_congr_right fun hij => and_congr_right fun hjm => ?_
      exact graceOver_iff hmono hij (hepisode.lasts j hij hjm)
    simp only [returned_iff_firesAt, Bool.not_eq_true]
    rw [← hover]
    exact ⟨hepisode.existsUnique_fires, fun hnone k => hepisode.not_fires hnone⟩

/-- A unit that fails, recovers and fails again, with another one failing at the end. -/
def rearmed : List Observation :=
  [⟨["svc.service"], by decide, 0⟩, ⟨["svc.service"], by decide, 10⟩, ⟨[], by decide, 15⟩,
    ⟨["svc.service"], by decide, 20⟩, ⟨["db.service", "svc.service"], by decide, 30⟩]

example : calls 10 new rearmed = [[], ["svc.service"], [], [], ["svc.service"]] := by decide

theorem failed_unit_reported_once_rearmed :
    (∃! k, 0 ≤ k ∧ k ≤ 1 ∧ Returned 10 rearmed k "svc.service") ∧
      ∃! k, 3 ≤ k ∧ k ≤ 4 ∧ Returned 10 rearmed k "svc.service" := by
  have hmono : Monotonic rearmed := by unfold Monotonic; decide
  have hfirst : Episode (failedAt rearmed "svc.service") 0 1 := by
    refine ⟨by decide, fun j _ hj => ?_, fun j hj => nomatch hj⟩
    interval_cases j <;> decide
  have hsecond : Episode (failedAt rearmed "svc.service") 3 4 := by
    refine ⟨by decide, fun j hij hj => ?_, fun j hj => ?_⟩
    · interval_cases j <;> decide
    · cases hj
      decide
  obtain ⟨-, -, hruns⟩ := failed_unit_reported_once 10 rearmed hmono
  exact ⟨(hruns _ 0 1 hfirst).1 ⟨1, by decide⟩, (hruns _ 3 4 hsecond).1 ⟨4, by decide⟩⟩

end Ravn
