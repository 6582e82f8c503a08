import Ravn.K8s.Suppression
import Mathlib.Data.List.Nodup

/-! The in-cluster executor over restarts. Within one life of the process every command id is handled
at most once; the ids are forgotten when the process ends, so a signed command that is delivered again
to the next life is executed again. -/

namespace Ravn

/-- One life of the process: the keys that it was started with, the messages that reach it, and after how
many executed steps it was killed, if it was. -/
structure Life (P : Platform) (σ : Type u) where
  ring : Keyring P
  deliveries : List (Delivery σ)
  killedAfter : Option Nat

/-- The steps of a command that were executed, each as the command's id and the place of the step. -/
def CommandRun.stepsRun (r : CommandRun) : List (Uuid × Nat) :=
  (List.range r.trace.steps.length).map fun i => (r.env.commandId, i)

section

variable {P : Platform} (parseTime : String → Option DateTime) {σ : Type u}

/-- The steps that one life executes, in order. -/
def Life.stepsRun (life : Life P σ) : List (Uuid × Nat) :=
  let steps := (runCommandLoop P parseTime life.ring [] life.deliveries).flatMap CommandRun.stepsRun
  match life.killedAfter with
  | none => steps
  | some n => steps.take n

/-- A message with the id reaches the process, and its envelope verifies. -/
def Life.Presents (life : Life P σ) (id : Uuid) : Prop :=
  ∃ d ∈ life.deliveries, ∃ env, d.envelope parseTime = some env ∧ env.commandId = id ∧
    verifies P life.ring env d.now = true

/-- No signed, unexpired command is delivered to one life after it was delivered to an earlier one. -/
def NotRedelivered (lives : List (Life P σ)) : Prop :=
  lives.Pairwise fun earlier later =>
    ∀ id, earlier.Presents parseTime id → ¬later.Presents parseTime id

end

section

variable {P : Platform} {parseTime : String → Option DateTime} {σ : Type u} {ring : Keyring P}

/-! ## One life -/

theorem CommandRun.stepsRun_nodup (r : CommandRun) : r.stepsRun.Nodup :=
  List.nodup_range.map fun _ _ h => (Prod.mk.inj h).2

theorem CommandRun.mem_stepsRun {r : CommandRun} {id : Uuid} :
    (id, i) ∈ r.stepsRun ↔ r.env.commandId = id ∧ i < r.trace.steps.length := by
  simp [CommandRun.stepsRun, and_comm]

/-- A command whose steps were run came in a message that verified. -/
theorem runCommandLoop_presents {ds : List (Delivery σ)}
    (hr : r ∈ runCommandLoop P parseTime ring seen ds) (hsteps : r.trace.steps ≠ []) :
    ∃ d ∈ ds, ∃ env, d.envelope parseTime = some env ∧ env.commandId = r.env.commandId ∧
      verifies P ring env d.now = true := by
  refine runCommandLoop_induction
    (motive := fun _ ds runs => ∀ r ∈ runs, r.trace.steps ≠ [] →
      ∃ d ∈ ds, ∃ env, d.envelope parseTime = some env ∧ env.commandId = r.env.commandId ∧
        verifies P ring env d.now = true) ?_ ?_ ?_ seen ds r hr hsteps
  · exact fun _ r hr => nomatch hr
  · intro seen d ds runs ih r hr hsteps
    obtain ⟨d', hd', h⟩ := ih r hr hsteps
    exact ⟨d', List.mem_cons_of_mem _ hd', h⟩
  · intro seen d ds env runs henv hseen ih r hr hsteps
    obtain rfl | hr := List.mem_cons.mp hr
    · refine ⟨d, List.mem_cons_self, env, henv, rfl, ?_⟩
      cases hverifies : verifies P ring env d.now with
      | true => rfl
      | false =>
        obtain ⟨-, hempty⟩ := handleCommand_not_verified (H := d.host) hverifies d.fuel
        exact absurd (congrArg Trace.steps hempty) hsteps
    · obtain ⟨d', hd', h⟩ := ih r (mem_of_mem_ite hr) hsteps
      exact ⟨d', List.mem_cons_of_mem _ hd', h⟩

theorem Life.stepsRun_sublist (life : Life P σ) :
    (life.stepsRun parseTime).Sublist
      ((runCommandLoop P parseTime life.ring [] life.deliveries).flatMap CommandRun.stepsRun) := by
  unfold Life.stepsRun
  cases life.killedAfter with
  | none => exact List.Sublist.refl _
  | some n => exact List.take_sublist n _

theorem Life.stepsRun_nodup (life : Life P σ) : (life.stepsRun parseTime).Nodup := by
  refine List.Nodup.sublist life.stepsRun_sublist (List.nodup_flatMap.mpr ⟨?_, ?_⟩)
  · exact fun r _ => r.stepsRun_nodup
  · refine (runCommandLoop_distinct [] life.deliveries).2.imp fun hne => ?_
    rintro ⟨id, i⟩ ha hb
    exact hne ((CommandRun.mem_stepsRun.mp ha).1.trans (CommandRun.mem_stepsRun.mp hb).1.symm)

theorem Life.presents_of_mem {life : Life P σ} {id : Uuid}
    (h : (id, i) ∈ life.stepsRun parseTime) :
    life.Presents parseTime id := by
  obtain ⟨r, hr, hmem⟩ := List.mem_flatMap.mp (life.stepsRun_sublist.subset h)
  obtain ⟨rfl, hi⟩ := CommandRun.mem_stepsRun.mp hmem
  have hsteps : r.trace.steps ≠ [] := List.ne_nil_of_length_pos (Nat.zero_lt_of_lt hi)
  exact runCommandLoop_presents hr hsteps

end

/-- Over any lives of the process, each with keys of its own and ended at any step: if no signed,
unexpired command reaches two of them, every step of every command id is executed at most once. -/
theorem steps_at_most_once (P : Platform) (parseTime : String → Option DateTime) {σ : Type u}
    (lives : List (Life P σ)) (h : NotRedelivered parseTime lives) (id : Uuid) (i : Nat) :
    (lives.flatMap (Life.stepsRun parseTime)).count (id, i) ≤ 1 := by
  refine List.nodup_iff_count_le_one.mp (List.nodup_flatMap.mpr ⟨?_, ?_⟩) (id, i)
  · exact fun life _ => life.stepsRun_nodup
  · refine h.imp fun hdisjoint => ?_
    rintro ⟨id, i⟩ ha hb
    exact hdisjoint id (Life.presents_of_mem ha) (Life.presents_of_mem hb)

/-! ## The same command before and after a restart -/

namespace Platform

/-- What the executor does with the signed deletion. -/
theorem handleCommand_sampleGenuine :
    (handleCommand sample (sampleDelivery sampleGenuine).host (Keyring.single (7 : UInt8))
      sampleGenuine (sampleDelivery sampleGenuine).fuel
      (sampleDelivery sampleGenuine).state).2.1.steps =
        [⟨.deletePod "web" "api-0", .ok none⟩] := by
  have hfault : sampleGenuine.capabilities.findSome? (capabilityFault sample) = none := by decide
  have hadmission : admission sample (Keyring.single (7 : UInt8)) sampleGenuine noon = .ok () := by
    rw [admission, verifyEnvelopeWith_sampleGenuine]
    simp only [hfault]
  have hnow : (sampleDelivery sampleGenuine).host.utcNow (sampleDelivery sampleGenuine).state =
      (noon, ()) := rfl
  simp only [handleCommand, hnow, hadmission]
  rfl

/-- A life that receives the signed deletion once. -/
def sampleLife : Life sample Unit := ⟨.single (7 : UInt8), [sampleDelivery sampleGenuine], none⟩

theorem stepsRun_sampleLife : sampleLife.stepsRun sampleParseTime = [(⟨1⟩, 0)] := by
  change (runCommandLoop sample sampleParseTime (Keyring.single (7 : UInt8)) []
    [sampleDelivery sampleGenuine]).flatMap CommandRun.stepsRun = [(⟨1⟩, 0)]
  have hnil : ∀ b : Bool, (if b then runCommandLoop sample sampleParseTime
      (Keyring.single (7 : UInt8)) [sampleGenuine.commandId] ([] : List (Delivery Unit)) else []) = [] := by
    intro b
    cases b <;> rfl
  rw [runCommandLoop_new (envelope_sampleDelivery _) List.not_mem_nil, hnil, List.flatMap_singleton,
    CommandRun.stepsRun, handleCommand_sampleGenuine]
  rfl

end Platform

open Platform in
/-- The deletion is delivered to the first of two lives. The second, with another key, receives an unsigned
message under the same id and a deletion that is signed with its own key. -/
theorem steps_at_most_once_sample :
    let later : Life sample Unit := ⟨.single (8 : UInt8), [sampleDelivery (sampleDeletePod ⟨1⟩),
      sampleDelivery (signEnvelope sample (8 : UInt8) (sampleDeletePod ⟨2⟩))], none⟩
    ([sampleLife, later].flatMap (Life.stepsRun sampleParseTime)).count (⟨1⟩, 0) ≤ 1 := by
  intro later
  refine steps_at_most_once sample sampleParseTime [sampleLife, later] ?_ ⟨1⟩ 0
  refine List.pairwise_pair.mpr fun id hearlier hlater => ?_
  obtain ⟨d, hd, env, henv, rfl, -⟩ := hearlier
  cases List.mem_singleton.mp hd
  cases (envelope_sampleDelivery _).symm.trans henv
  obtain ⟨d, hd, env, henv, hid, hverifies⟩ := hlater
  rcases List.mem_pair.mp hd with rfl | rfl
  · cases (envelope_sampleDelivery _).symm.trans henv
    exact Bool.false_ne_true ((not_verifies_sampleDeletePod 8 ⟨1⟩).symm.trans hverifies)
  · cases (envelope_sampleDelivery _).symm.trans henv
    exact absurd hid (by decide)

open Platform in
/-- The deletion is delivered, the process restarts, and the same signed message is delivered again:
the pod is deleted twice. -/
theorem restart_runs_step_again :
    verifies sample (Keyring.single (7 : UInt8)) sampleGenuine noon = true ∧
      ([sampleLife, sampleLife].flatMap (Life.stepsRun sampleParseTime)).count (⟨1⟩, 0) = 2 := by
  refine ⟨verifies_sampleGenuine, ?_⟩
  simp only [List.flatMap_cons, List.flatMap_nil, stepsRun_sampleLife]
  rfl

end Ravn
