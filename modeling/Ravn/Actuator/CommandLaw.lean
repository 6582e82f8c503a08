import Ravn.Actuator.Poll
import Ravn.Core.Render
import Mathlib.Data.List.Forall2

/-! Which capabilities `handle_command` runs, in which order, and what its status says about the
answers. Each phase has one specification; the law of the command is assembled from them. -/

namespace Ravn

variable {P : Platform} {σ : Type u} {H : Host σ}

/-! ## Preconditions -/

/-- Every precondition was run, in order, and answered the value it must equal. -/
def PreconditionsHeld (conds : List Condition) (calls : List Call) : Prop :=
  List.Forall₂ (fun cond call => call.cap = cond.check ∧ call.observed = some cond.equals) conds calls

/-- Some precondition that was run answered a different value. -/
def SomePreconditionDiffers (conds : List Condition) (calls : List Call) : Prop :=
  ∃ p ∈ conds.zip calls, ∃ v, p.2.observed = some v ∧ v ≠ p.1.equals

theorem PreconditionsHeld.not_differs (h : PreconditionsHeld conds calls) :
    ¬SomePreconditionDiffers conds calls := by
  rintro ⟨p, hp, v, hv, hne⟩
  induction h with
  | nil => cases hp
  | cons hhead htail ih =>
    rcases List.mem_cons.mp hp with rfl | hp
    · exact hne (Option.some.inj (hv.symm.trans hhead.2))
    · exact ih hp

/-- The calls of the precondition phase and how it ended. -/
structure PreconditionsSpec (conds : List Condition) (verdict : Option Verdict)
    (calls : List Call) : Prop where
  order : calls.map Call.cap <+: conds.map Condition.check
  held : verdict = none ↔ PreconditionsHeld conds calls
  differs : ∀ v, verdict = some v →
    (v.status = .preconditionFailed ∧ SomePreconditionDiffers conds calls ∨
      v.status = .failed ∧ ¬SomePreconditionDiffers conds calls)

theorem PreconditionsSpec.cons {cond : Condition} {call : Call} (hcap : call.cap = cond.check)
    (hobs : call.observed = some cond.equals) (h : PreconditionsSpec conds verdict calls) :
    PreconditionsSpec (cond :: conds) verdict (call :: calls) := by
  have hdiff : SomePreconditionDiffers (cond :: conds) (call :: calls) ↔
      SomePreconditionDiffers conds calls := by
    simp [SomePreconditionDiffers, hobs]
  refine ⟨?_, ?_, ?_⟩
  · simpa [hcap] using h.order
  · rw [h.held]
    simp [PreconditionsHeld, hcap, hobs]
  · rw [hdiff]
    exact h.differs

theorem checkPreconditions_spec (conds : List Condition) (s : σ) :
    PreconditionsSpec conds (checkPreconditions P H conds s).1
      (checkPreconditions P H conds s).2.1 := by
  induction conds generalizing s with
  | nil => exact ⟨List.prefix_rfl, by simp [checkPreconditions, PreconditionsHeld], by simp [checkPreconditions]⟩
  | cons cond conds ih =>
    rcases hrun : H.run cond.check s with ⟨answer, s'⟩
    cases answer with
    | error e =>
      simp only [checkPreconditions, hrun]
      refine ⟨by simp, ?_, ?_⟩
      · simp [PreconditionsHeld, Call.observed]
      · rintro v ⟨rfl⟩
        exact .inr ⟨rfl, by simp [SomePreconditionDiffers, Call.observed]⟩
    | ok w =>
      by_cases hobs : w.getD "" = cond.equals
      · simp only [checkPreconditions, hrun, hobs, ne_eq, not_true, if_false]
        exact (ih s').cons rfl (by simp [Call.observed, hobs])
      · simp only [checkPreconditions, hrun, hobs, ne_eq, not_false_iff, if_true]
        refine ⟨by simp, ?_, ?_⟩
        · simp [PreconditionsHeld, Call.observed, hobs]
        · rintro v ⟨rfl⟩
          exact .inl ⟨rfl, by simp [SomePreconditionDiffers, Call.observed, hobs]⟩

/-! ## Steps -/

/-- Every step was run, in order, and answered `Ok`. -/
def StepsHeld (steps : List Capability) (calls : List Call) : Prop :=
  List.Forall₂ (fun step call => call.cap = step ∧ call.observed.isSome) steps calls

structure StepsSpec (steps : List Capability) (verdict : Option Verdict) (calls : List Call) :
    Prop where
  order : calls.map Call.cap <+: steps
  held : verdict = none ↔ StepsHeld steps calls
  failed : ∀ v, verdict = some v → v.status = .failed

theorem runSteps_spec (steps : List Capability) (s : σ) :
    StepsSpec steps (runSteps H steps s).1 (runSteps H steps s).2.1 := by
  induction steps generalizing s with
  | nil => exact ⟨List.prefix_rfl, by simp [runSteps, StepsHeld], by simp [runSteps]⟩
  | cons step steps ih =>
    rcases hrun : H.run step s with ⟨answer, s'⟩
    cases answer with
    | error e =>
      simp only [runSteps, hrun]
      refine ⟨by simp, by simp [StepsHeld, Call.observed], ?_⟩
      rintro v ⟨rfl⟩
      rfl
    | ok w =>
      obtain ⟨horder, hheld, hfailed⟩ := ih s'
      simp only [runSteps, hrun]
      refine ⟨by simpa using horder, ?_, hfailed⟩
      rw [hheld]
      simp [StepsHeld, Call.observed]

/-! ## Verification and rollback -/

/-- The last observation is the desired one. -/
def VerifyHeld (verify : Verify) (calls : List Call) : Prop :=
  ∃ last, calls.getLast? = some last ∧ last.observed = some verify.equals

/-- The last observation is another value or an error. -/
def VerifyFailed (verify : Verify) (calls : List Call) : Prop :=
  ∃ last, calls.getLast? = some last ∧ last.observed ≠ some verify.equals

theorem VerifyHeld.not_failed (h : VerifyHeld verify calls) : ¬VerifyFailed verify calls := by
  obtain ⟨last, hlast, hobs⟩ := h
  rintro ⟨last', hlast', hne⟩
  cases hlast.symm.trans hlast'
  exact hne hobs

structure PollSpec (verify : Verify) (pollEnd : PollEnd) (calls : List Call) : Prop where
  check : ∀ call ∈ calls, call.cap = verify.check
  held : ∀ observed, pollEnd = .held observed → VerifyHeld verify calls
  notHeld : ∀ detail observed, pollEnd = .notHeld detail observed → VerifyFailed verify calls

theorem getLast?_cons_of_getLast? {call last : Call} (h : calls.getLast? = some last) :
    (call :: calls).getLast? = some last := by
  simp [List.getLast?_cons, h]

theorem pollVerify_spec (verify : Verify) (deadline fuel : Nat) (s : σ) :
    PollSpec verify (pollVerify P H verify deadline fuel s).1
      (pollVerify P H verify deadline fuel s).2.1 := by
  induction fuel generalizing s with
  | zero => exact ⟨by simp [pollVerify], by simp [pollVerify], by simp [pollVerify]⟩
  | succ fuel ih =>
    by_cases hgoes : GoesOn H verify deadline s 0
    · -- Another round: its last observation is the last of all.
      obtain ⟨hcheck, hheld, hnot⟩ := ih (pollState H verify s 1)
      rw [pollVerify_goesOn hgoes]
      refine ⟨List.forall_mem_cons.mpr ⟨rfl, hcheck⟩, ?_, ?_⟩
      · intro observed h
        obtain ⟨last, hlast, hv⟩ := hheld observed h
        exact ⟨last, getLast?_cons_of_getLast? hlast, hv⟩
      · intro detail observed h
        obtain ⟨last, hlast, hv⟩ := hnot detail observed h
        exact ⟨last, getLast?_cons_of_getLast? hlast, hv⟩
    · obtain ⟨hcalls, hend⟩ := pollVerify_stops (P := P) hgoes fuel
      have hcheck : ∀ call ∈ [checkAt H verify s 0], call.cap = verify.check := by simp [checkAt]
      rw [hcalls]
      rcases hend with ⟨⟨observed, hend⟩, hobs⟩ | ⟨⟨detail, observed, hend⟩, hobs⟩
      · rw [hend]
        refine ⟨hcheck, fun _ _ => ⟨_, rfl, hobs⟩, ?_⟩
        rintro detail observed ⟨⟩
      · rw [hend]
        refine ⟨hcheck, ?_, fun _ _ _ => ⟨checkAt H verify s 0, rfl, ?_⟩⟩
        · rintro observed ⟨⟩
        rcases hobs with hnone | ⟨⟨v, hv, hne⟩, -⟩
        · rw [hnone]
          exact (Option.some_ne_none _).symm
        · rw [hv]
          exact fun h => hne (Option.some.inj h)

structure RollbackSpec (env : CommandEnvelope) (verdict : Verdict) (call : Option Call) :
    Prop where
  declared : ∀ c, call = some c → c.cap = .nixRollback ∧ env.rollback = .nixGeneration
  status : verdict.status = .frozen ∧ (∃ c, call = some c ∧ c.observed = none) ∨
    verdict.status = .failed ∧ ¬∃ c, call = some c ∧ c.observed = none

theorem performRollback_spec (env : CommandEnvelope) (detail observed : String) (s : σ) :
    RollbackSpec env (performRollback H env detail observed s).1
      (performRollback H env detail observed s).2.1 := by
  unfold performRollback
  cases hrb : env.rollback with
  | none => exact ⟨by simp, .inr ⟨rfl, by simp⟩⟩
  | nixGeneration =>
    rcases hrun : H.run .nixRollback s with ⟨answer, s'⟩
    cases answer with
    | error e =>
      refine ⟨?_, .inl ⟨rfl, _, rfl, rfl⟩⟩
      rintro c ⟨rfl⟩
      exact ⟨rfl, hrb⟩
    | ok v =>
      refine ⟨?_, .inr ⟨rfl, ?_⟩⟩
      · rintro c ⟨rfl⟩
        exact ⟨rfl, hrb⟩
      · rintro ⟨c, ⟨rfl⟩, hobs⟩
        cases hobs

/-! ## The law of a command -/

/-- All that was to be done has been done, and the post-condition was last seen to hold. -/
def Succeeds (env : CommandEnvelope) (tr : Trace) : Prop :=
  PreconditionsHeld env.preconditions tr.preconditions ∧ StepsHeld env.steps tr.steps ∧
    ∀ verify, env.verify = some verify → VerifyHeld verify tr.verify

/-- The rollback was run and errored. -/
def RollbackErrored (tr : Trace) : Prop := ∃ call, tr.rollback = some call ∧ call.observed = none

/-- Which calls are made, in which order and under which conditions. -/
structure TraceLaw (env : CommandEnvelope) (tr : Trace) : Prop where
  preconditions : tr.preconditions.map Call.cap <+: env.preconditions.map Condition.check
  steps : tr.steps.map Call.cap <+: env.steps
  stepsOnly : tr.steps ≠ [] → PreconditionsHeld env.preconditions tr.preconditions
  verify : ∀ call ∈ tr.verify, ∃ verify, env.verify = some verify ∧ call.cap = verify.check
  verifyOnly : tr.verify ≠ [] →
    PreconditionsHeld env.preconditions tr.preconditions ∧ StepsHeld env.steps tr.steps
  rollback : ∀ call, tr.rollback = some call →
    call.cap = .nixRollback ∧ env.rollback = .nixGeneration ∧
      ∃ verify, env.verify = some verify ∧ VerifyFailed verify tr.verify

/-- What the status of a result says about the calls. -/
structure StatusLaw (env : CommandEnvelope) (status : ActionStatus) (tr : Trace) : Prop where
  rejected : status = .rejected → tr.calls = []
  succeeded : status = .succeeded ↔ status ≠ .rejected ∧ Succeeds env tr
  preconditionFailed : status = .preconditionFailed ↔
    SomePreconditionDiffers env.preconditions tr.preconditions
  frozen : status = .frozen ↔ RollbackErrored tr

/-- The remaining executed cases. -/
theorem StatusLaw.failed_iff (h : StatusLaw env status tr) :
    status = .failed ↔ status ≠ .rejected ∧ ¬Succeeds env tr ∧
      ¬SomePreconditionDiffers env.preconditions tr.preconditions ∧ ¬RollbackErrored tr := by
  obtain ⟨-, hs, hp, hf⟩ := h
  rw [← hp, ← hf]
  cases status <;> simp_all

/-- Only identifiers that the two validators accept are passed to the executor. -/
def ValidIdentifiers (cap : Capability) : Prop :=
  (∀ unit, capabilityUnit cap = some unit → isValidUnit unit = true) ∧
    ∀ id ∈ capabilityKubeIds cap, isValidK8sLabel id.2 = true

theorem kubeIds_snd (cap : Capability) : (capabilityKubeIds cap).map Prod.snd = cap.kubeTexts := by
  cases cap <;> rfl

theorem ValidIdentifiers.kubeTexts (h : ValidIdentifiers cap) :
    ∀ text ∈ cap.kubeTexts, isValidK8sLabel text = true := by
  intro text htext
  rw [← kubeIds_snd] at htext
  obtain ⟨id, hid, rfl⟩ := List.mem_map.mp htext
  exact h.2 id hid

theorem validIdentifiers_of_capabilityFault (h : capabilityFault P cap = none) :
    ValidIdentifiers cap := by
  unfold capabilityFault at h
  split at h
  · cases h
  · rename_i hunit
    refine ⟨fun unit hu => ?_, fun id hid => ?_⟩
    · simpa [hu, Option.filter] using hunit
    · simpa using List.find?_eq_none.mp (Option.map_eq_none_iff.mp h) id hid

theorem validIdentifiers_of_admission {ring : Keyring P} (h : admission P ring env now = .ok ())
    (hcap : cap ∈ env.capabilities) : ValidIdentifiers cap := by
  unfold admission at h
  split at h
  · cases h
  · split at h
    · cases h
    · rename_i hfind
      exact validIdentifiers_of_capabilityFault (List.findSome?_eq_none_iff.mp hfind cap hcap)

/-- Nothing but the envelope's own capabilities and the rollback is run. -/
theorem TraceLaw.cap_mem (h : TraceLaw env tr) (hcall : call ∈ tr.calls) :
    call.cap = .nixRollback ∨ call.cap ∈ env.capabilities := by
  simp only [Trace.calls, List.mem_append, Option.mem_toList] at hcall
  simp only [CommandEnvelope.capabilities, List.mem_append]
  rcases hcall with ((hcall | hcall) | hcall) | hcall
  · exact .inr (.inl (.inl (h.preconditions.subset (List.mem_map_of_mem hcall))))
  · exact .inr (.inl (.inr (h.steps.subset (List.mem_map_of_mem hcall))))
  · obtain ⟨verify, hverify, hcap⟩ := h.verify call hcall
    exact .inr (.inr (by simp [hverify, hcap]))
  · exact .inl (h.rollback call hcall).1

/-- An outcome that is lawful for the calls that were made. -/
structure ExecutionLaw (env : CommandEnvelope) (outcome : Outcome) (tr : Trace) : Prop where
  trace : TraceLaw env tr
  status : ∀ result, outcome = .returned result → StatusLaw env result.status tr

/-- The law of `handle_command`, for an outcome and the calls that were made. -/
structure CommandLaw (env : CommandEnvelope) (outcome : Outcome) (tr : Trace) : Prop extends
    ExecutionLaw env outcome tr where
  identifiers : ∀ call ∈ tr.calls, call.cap ≠ .nixRollback → ValidIdentifiers call.cap

theorem finish_law (htrace : TraceLaw env tr) (hstatus : StatusLaw env verdict.status tr) (s : σ) :
    ExecutionLaw env (finish H env verdict tr s).1 (finish H env verdict tr s).2.1 := by
  refine ⟨htrace, ?_⟩
  rintro result ⟨rfl⟩
  exact hstatus

theorem PreconditionsHeld.map_cap (h : PreconditionsHeld conds calls) :
    calls.map Call.cap = conds.map Condition.check := by
  induction h with
  | nil => rfl
  | cons hhead _ ih => rw [List.map_cons, List.map_cons, hhead.1, ih]

theorem StepsHeld.map_cap (h : StepsHeld steps calls) : calls.map Call.cap = steps := by
  induction h with
  | nil => rfl
  | cons hhead _ ih => rw [List.map_cons, hhead.1, ih]

section Held

/-! The phases after all preconditions and steps have held. -/

variable {env : CommandEnvelope} (hpre : PreconditionsHeld env.preconditions pre)
  (hsteps : StepsHeld env.steps steps)

include hpre hsteps

theorem traceLaw_of_held {polls : List Call} {rollback : Option Call}
    (hverify : ∀ call ∈ polls, ∃ verify, env.verify = some verify ∧ call.cap = verify.check)
    (hrollback : ∀ call, rollback = some call →
      call.cap = .nixRollback ∧ env.rollback = .nixGeneration ∧
        ∃ verify, env.verify = some verify ∧ VerifyFailed verify polls) :
    TraceLaw env ⟨pre, steps, polls, rollback⟩ where
  preconditions := hpre.map_cap ▸ List.prefix_rfl
  steps := hsteps.map_cap ▸ List.prefix_rfl
  stepsOnly _ := hpre
  verify := hverify
  verifyOnly _ := ⟨hpre, hsteps⟩
  rollback := hrollback

theorem statusLaw_succeeded {polls : List Call}
    (hverify : ∀ verify, env.verify = some verify → VerifyHeld verify polls) :
    StatusLaw env .succeeded ⟨pre, steps, polls, none⟩ := by
  refine ⟨by simp, ?_, ?_, ?_⟩
  · exact iff_of_true rfl ⟨by simp, hpre, hsteps, hverify⟩
  · exact iff_of_false (by simp) hpre.not_differs
  · exact iff_of_false (by simp) (by simp [RollbackErrored])

theorem verifyAndRollback_law (fuel : Nat) (s : σ) :
    ExecutionLaw env (verifyAndRollback P H env pre steps fuel s).1
      (verifyAndRollback P H env pre steps fuel s).2.1 := by
  unfold verifyAndRollback
  cases hverify : env.verify with
  | none =>
    refine finish_law (traceLaw_of_held hpre hsteps (by simp) (by simp)) ?_ _
    exact statusLaw_succeeded hpre hsteps (by simp [hverify])
  | some verify =>
    cases hdeadline : instantCheckedAdd (H.instantNow s).1 verify.timeoutS.toNat with
    | none =>
      simp only [hdeadline]
      exact ⟨traceLaw_of_held hpre hsteps (by simp) (by simp), by simp⟩
    | some deadline =>
      simp only [hdeadline]
      have hspec := pollVerify_spec (P := P) (H := H) verify deadline fuel (H.instantNow s).2
      rcases hpoll : pollVerify P H verify deadline fuel (H.instantNow s).2 with ⟨pollEnd, polls, s'⟩
      rw [hpoll] at hspec
      have hcheck : ∀ call ∈ polls, ∃ v, env.verify = some v ∧ call.cap = v.check :=
        fun call hcall => ⟨verify, hverify, hspec.check call hcall⟩
      cases pollEnd with
      | polling => exact ⟨traceLaw_of_held hpre hsteps hcheck (by simp), by simp⟩
      | held observed =>
        refine finish_law (traceLaw_of_held hpre hsteps hcheck (by simp)) ?_ _
        refine statusLaw_succeeded hpre hsteps fun v hv => ?_
        cases hverify.symm.trans hv
        exact hspec.held observed rfl
      | notHeld detail observed =>
        have hfailed := hspec.notHeld detail observed rfl
        obtain ⟨hdeclared, hstatus⟩ := performRollback_spec (H := H) env detail observed s'
        refine finish_law (traceLaw_of_held hpre hsteps hcheck fun call hcall => ?_) ?_ _
        · exact ⟨(hdeclared call hcall).1, (hdeclared call hcall).2, verify, hverify, hfailed⟩
        · have hnot : ¬Succeeds env ⟨pre, steps, polls,
              (performRollback H env detail observed s').2.1⟩ :=
            fun h => (h.2.2 verify hverify).not_failed hfailed
          have hdiff := hpre.not_differs
          rcases hstatus with ⟨heq, herr⟩ | ⟨heq, herr⟩
          · rw [heq]
            exact ⟨by simp, iff_of_false (by simp) (fun h => hnot h.2),
              iff_of_false (by simp) hdiff, iff_of_true rfl herr⟩
          · rw [heq]
            exact ⟨by simp, iff_of_false (by simp) (fun h => hnot h.2),
              iff_of_false (by simp) hdiff, iff_of_false (by simp) herr⟩

end Held

theorem traceLaw_empty (env : CommandEnvelope) : TraceLaw env .empty := by
  refine ⟨by simp [Trace.empty], by simp [Trace.empty], by simp [Trace.empty], by simp [Trace.empty],
    by simp [Trace.empty], by simp [Trace.empty]⟩

theorem statusLaw_rejected (env : CommandEnvelope) : StatusLaw env .rejected .empty := by
  refine ⟨fun _ => rfl, by simp, ?_, ?_⟩
  · exact iff_of_false (by simp) (by simp [SomePreconditionDiffers, Trace.empty])
  · exact iff_of_false (by simp) (by simp [RollbackErrored, Trace.empty])

/-- A precondition that does not hold ends the command before any step. -/
theorem preconditions_stop_law (hspec : PreconditionsSpec env.preconditions (some verdict) pre)
    (s : σ) :
    ExecutionLaw env (finish H env verdict ⟨pre, [], [], none⟩ s).1
      (finish H env verdict ⟨pre, [], [], none⟩ s).2.1 := by
  have hnot : ¬PreconditionsHeld env.preconditions pre := fun h => by cases hspec.held.mpr h
  refine finish_law ⟨hspec.order, by simp, by simp, by simp, by simp, by simp⟩ ?_ _
  rcases hspec.differs verdict rfl with ⟨heq, hdiff⟩ | ⟨heq, hdiff⟩
  · rw [heq]
    exact ⟨by simp, iff_of_false (by simp) (fun h => hnot h.2.1), iff_of_true rfl hdiff,
      iff_of_false (by simp) (by simp [RollbackErrored])⟩
  · rw [heq]
    exact ⟨by simp, iff_of_false (by simp) (fun h => hnot h.2.1), iff_of_false (by simp) hdiff,
      iff_of_false (by simp) (by simp [RollbackErrored])⟩

/-- A step that fails ends the command before verification. -/
theorem steps_stop_law {env : CommandEnvelope} (hpre : PreconditionsHeld env.preconditions pre)
    (hspec : StepsSpec env.steps (some verdict) steps) (s : σ) :
    ExecutionLaw env (finish H env verdict ⟨pre, steps, [], none⟩ s).1
      (finish H env verdict ⟨pre, steps, [], none⟩ s).2.1 := by
  have hnot : ¬StepsHeld env.steps steps := fun h => by cases hspec.held.mpr h
  refine finish_law ⟨hpre.map_cap ▸ List.prefix_rfl, hspec.order, fun _ => hpre, by simp, by simp,
    by simp⟩ ?_ _
  rw [hspec.failed verdict rfl]
  exact ⟨by simp, iff_of_false (by simp) (fun h => hnot h.2.2.1),
    iff_of_false (by simp) hpre.not_differs, iff_of_false (by simp) (by simp [RollbackErrored])⟩

theorem handleCommand_commandLaw (ring : Keyring P) (env : CommandEnvelope) (fuel : Nat) (s : σ) :
    CommandLaw env (handleCommand P H ring env fuel s).1 (handleCommand P H ring env fuel s).2.1 := by
  unfold handleCommand
  cases hadmission : admission P ring env (H.utcNow s).1 with
  | error detail =>
    simp only [hadmission]
    refine ⟨finish_law (traceLaw_empty env) (statusLaw_rejected env) _, ?_⟩
    simp [finish, Trace.empty, Trace.calls]
  | ok _ =>
    simp only [hadmission]
    suffices h : ∀ x : Outcome × Trace × σ, ExecutionLaw env x.1 x.2.1 → CommandLaw env x.1 x.2.1 by
      have hpre := checkPreconditions_spec (P := P) (H := H) env.preconditions (H.utcNow s).2
      rcases hrun : checkPreconditions P H env.preconditions (H.utcNow s).2 with ⟨verdict, pre, s'⟩
      rw [hrun] at hpre
      cases verdict with
      | some verdict => exact h _ (preconditions_stop_law hpre s')
      | none =>
        have hheld := hpre.held.mp rfl
        have hsteps := runSteps_spec (H := H) env.steps s'
        rcases hrun' : runSteps H env.steps s' with ⟨verdict, steps, s''⟩
        rw [hrun'] at hsteps
        simp only [hrun']
        cases verdict with
        | some verdict => exact h _ (steps_stop_law hheld hsteps s'')
        | none => exact h _ (verifyAndRollback_law hheld (hsteps.held.mp rfl) fuel s'')
    -- Everything that is run has passed the validation of step 2.
    intro x hx
    refine ⟨hx, fun call hcall hne => ?_⟩
    exact validIdentifiers_of_admission hadmission ((hx.trace.cap_mem hcall).resolve_left hne)

/-! ## The end of the poll -/

/-- A monotonic clock on which sleeping takes at least as long as asked for. -/
structure MonotoneClock (H : Host σ) (time : σ → Nat) : Prop where
  reads : ∀ s, (H.instantNow s).1 = time s
  now_le : ∀ s, time s ≤ time (H.instantNow s).2
  run_le : ∀ cap s, time s ≤ time (H.run cap s).2
  sleep_le : ∀ d s, time s + d ≤ time (H.sleep d s)

theorem MonotoneClock.pollClock {time : σ → Nat} (h : MonotoneClock H time) : PollClock H time where
  shows s := (h.reads s).ge
  now_le s := (h.reads s).trans_le (h.now_le s)
  run_le := h.run_le
  sleep_le := h.sleep_le verifyPollInterval

theorem verifyAndRollback_ne_polling {time : σ → Nat} (hclock : MonotoneClock H time)
    (env : CommandEnvelope) (pre steps : List Call) (fuel : Nat) (s : σ)
    (hfuel : ∀ verify, env.verify = some verify → 2 * verify.timeoutS.toNat < fuel) :
    (verifyAndRollback P H env pre steps fuel s).1 ≠ .polling := by
  unfold verifyAndRollback
  cases hverify : env.verify with
  | none => simp [finish]
  | some verify =>
    cases hdeadline : instantCheckedAdd (H.instantNow s).1 verify.timeoutS.toNat with
    | none => simp [hdeadline]
    | some deadline =>
      have hsum : deadline = (H.instantNow s).1 + verify.timeoutS.toNat * 1000000000 := by
        unfold instantCheckedAdd at hdeadline
        split at hdeadline
        · exact (Option.some.inj hdeadline).symm
        · cases hdeadline
      have hle : deadline ≤ time (H.instantNow s).2 + verify.timeoutS.toNat * 1000000000 :=
        hsum ▸ Nat.add_le_add_right (hclock.pollClock.now_le s) _
      have hends := hclock.pollClock.pollVerify_ne_polling (P := P) verify _ _ hle
        (hfuel verify hverify)
      rcases hpoll : pollVerify P H verify deadline fuel (H.instantNow s).2 with
        ⟨pollEnd, polls, s'⟩
      rw [hpoll] at hends
      simp only [hdeadline, hpoll]
      cases pollEnd with
      | polling => exact absurd rfl hends
      | held observed => simp [finish]
      | notHeld detail observed => simp [finish]

/-- Twice the timeout's seconds and one more rounds end the poll. -/
theorem handleCommand_ne_polling {time : σ → Nat} (hclock : MonotoneClock H time)
    (ring : Keyring P) (env : CommandEnvelope) (fuel : Nat) (s : σ)
    (hfuel : ∀ verify, env.verify = some verify → 2 * verify.timeoutS.toNat < fuel) :
    (handleCommand P H ring env fuel s).1 ≠ .polling := by
  unfold handleCommand
  simp only
  split
  · simp [finish]
  · split
    · simp [finish]
    · split
      · simp [finish]
      · exact verifyAndRollback_ne_polling hclock env _ _ fuel _ hfuel

/-- For every executor, clock, keyring and envelope, and however long the poll is followed, the
calls and the result obey the law; on a monotone clock the command comes to an end. -/
theorem handleCommand_lawful (P : Platform) (H : Host σ) (ring : Keyring P)
    (env : CommandEnvelope) (s : σ) :
    (∀ fuel, CommandLaw env (handleCommand P H ring env fuel s).1
      (handleCommand P H ring env fuel s).2.1) ∧
    (∀ fuel result, (handleCommand P H ring env fuel s).1 = .returned result →
      (result.status = .failed ↔ result.status ≠ .rejected ∧
        ¬Succeeds env (handleCommand P H ring env fuel s).2.1 ∧
        ¬SomePreconditionDiffers env.preconditions
          (handleCommand P H ring env fuel s).2.1.preconditions ∧
        ¬RollbackErrored (handleCommand P H ring env fuel s).2.1)) ∧
    ∀ time, MonotoneClock H time → ∃ fuel, (handleCommand P H ring env fuel s).1 ≠ .polling := by
  refine ⟨fun fuel => handleCommand_commandLaw ring env fuel s, fun fuel result h => ?_, ?_⟩
  · exact ((handleCommand_commandLaw ring env fuel s).status result h).failed_iff
  · intro time hclock
    refine ⟨2 * (env.verify.elim 0 fun v => v.timeoutS.toNat) + 1, ?_⟩
    apply handleCommand_ne_polling hclock
    intro verify hverify
    simp [hverify]

end Ravn
