import Ravn.Actuator.Systemctl

/-! Which options the host actuator passes to `systemctl`: the units of an envelope that begin with a
hyphen, wherever the command can get to them. -/

namespace Ravn

open Theory

/-! ## Which capabilities a command can get to -/

/-- Whether the check can answer the expected value: `is-active` answers a trimmed text, and the other
capabilities of a host none. -/
def Condition.canHold (cond : Condition) : Bool :=
  match cond.check with
  | .unitState _ => String.ofList (trim cond.equals.toList) = cond.equals
  | _ => cond.equals = ""

/-- The checks up to the first that cannot hold. -/
def reachableChecks : List Condition → List Capability
  | [] => []
  | cond :: conds => cond.check :: if cond.canHold then reachableChecks conds else []

/-- What the command can get to on some machine: the steps if all preconditions can hold, and the
verify check if, besides, its deadline fits an instant. -/
def CommandEnvelope.reachable (env : CommandEnvelope) : List Capability :=
  reachableChecks env.preconditions ++
    if env.preconditions.all Condition.canHold then
      env.steps ++ (env.verify.toList.filter fun v => v.timeoutS.toNat < 2 ^ 63).map Verify.check
    else []

/-! ## What a command keeps -/

section

variable {P : Platform} {σ : Type u} {H : Host σ} {allowed : Capability → Prop} {I : σ → Prop}

/-- The clocks, and the capabilities that are allowed, keep the property. -/
structure Host.Keeps (H : Host σ) (allowed : Capability → Prop) (I : σ → Prop) : Prop where
  run : ∀ cap s, allowed cap → I s → I (H.run cap s).2
  utcNow : ∀ s, I s → I (H.utcNow s).2
  instantNow : ∀ s, I s → I (H.instantNow s).2
  sleep : ∀ d s, I s → I (H.sleep d s)

/-- A check answers its expected value only if it can. -/
def Host.Expects (H : Host σ) : Prop :=
  ∀ cond s v, (H.run cond.check s).1 = .ok v → v.getD "" = cond.equals → Condition.canHold cond

namespace Host.Keeps

theorem checkPreconditions (h : H.Keeps allowed I) (hexpects : H.Expects) {conds : List Condition}
    (hallowed : ∀ cap ∈ reachableChecks conds, allowed cap) (hs : I s) :
    I (Ravn.checkPreconditions P H conds s).2.2 ∧
      ((Ravn.checkPreconditions P H conds s).1 = none → conds.all Condition.canHold) := by
  induction conds generalizing s with
  | nil => exact ⟨hs, fun _ => rfl⟩
  | cons cond conds ih =>
    simp only [reachableChecks, List.forall_mem_cons] at hallowed
    have hkept := h.run cond.check s hallowed.1 hs
    have hcan := hexpects cond s
    rcases hrun : H.run cond.check s with ⟨answer, s'⟩
    rw [hrun] at hkept hcan
    cases answer with
    | error e => simpa [Ravn.checkPreconditions, hrun] using hkept
    | ok v =>
      by_cases hobs : v.getD "" = cond.equals
      · have hcan := hcan v rfl hobs
        simp only [hcan, if_true] at hallowed
        simp only [Ravn.checkPreconditions, hrun, hobs, ne_eq, not_true, if_false, List.all_cons,
          hcan, Bool.true_and]
        exact ih hallowed.2 hkept
      · simpa [Ravn.checkPreconditions, hrun, hobs] using hkept

theorem runSteps (h : H.Keeps allowed I) {steps : List Capability}
    (hallowed : ∀ cap ∈ steps, allowed cap) (hs : I s) : I (Ravn.runSteps H steps s).2.2 := by
  induction steps generalizing s with
  | nil => exact hs
  | cons step steps ih =>
    rw [List.forall_mem_cons] at hallowed
    have hkept := h.run step s hallowed.1 hs
    rcases hrun : H.run step s with ⟨answer, s'⟩
    rw [hrun] at hkept
    cases answer with
    | error e => simpa [Ravn.runSteps, hrun] using hkept
    | ok v => simpa [Ravn.runSteps, hrun] using ih hallowed.2 hkept

/-- One round of the poll, whose check has kept the invariant. -/
theorem pollVerify_round (h : H.Keeps allowed I) {verify : Verify} (deadline fuel : Nat)
    (hs : I (H.run verify.check s).2)
    (hnext : ∀ s, I s → I (Ravn.pollVerify P H verify deadline fuel s).2.2) :
    I (Ravn.pollVerify P H verify deadline (fuel + 1) s).2.2 := by
  rcases hrun : H.run verify.check s with ⟨e | v, s'⟩
  · rw [hrun] at hs
    simpa [Ravn.pollVerify, hrun] using hs
  · rw [hrun] at hs
    simp only [Ravn.pollVerify, hrun]
    split
    · exact hs
    · split
      · exact h.instantNow _ hs
      · exact hnext _ (h.sleep _ _ (h.instantNow _ hs))

theorem pollVerify (h : H.Keeps allowed I) {verify : Verify} (hallowed : allowed verify.check)
    (deadline fuel : Nat) (hs : I s) : I (Ravn.pollVerify P H verify deadline fuel s).2.2 := by
  induction fuel generalizing s with
  | zero => exact hs
  | succ fuel ih =>
    exact h.pollVerify_round deadline fuel (h.run verify.check s hallowed hs) fun _ hs => ih hs

/-- What the first round of the poll has brought about stays. -/
theorem pollVerify_first (h : H.Keeps (fun _ => True) I) {verify : Verify} (deadline fuel : Nat)
    (hs : I (H.run verify.check s).2) :
    I (Ravn.pollVerify P H verify deadline (fuel + 1) s).2.2 :=
  h.pollVerify_round deadline fuel hs fun _ hs => h.pollVerify trivial deadline fuel hs

theorem performRollback (h : H.Keeps allowed I) (hallowed : allowed .nixRollback)
    (env : CommandEnvelope) (detail observed : String) (hs : I s) :
    I (Ravn.performRollback H env detail observed s).2.2 := by
  unfold Ravn.performRollback
  cases env.rollback with
  | none => exact hs
  | nixGeneration =>
    have hkept := h.run .nixRollback s hallowed hs
    rcases hrun : H.run .nixRollback s with ⟨answer, s'⟩
    rw [hrun] at hkept
    cases answer <;> exact hkept

theorem finish (h : H.Keeps allowed I) (env : CommandEnvelope) (verdict : Verdict) (tr : Trace)
    (hs : I s) : I (Ravn.finish H env verdict tr s).2.2 := h.utcNow s hs

/-- What holds at the end of the poll holds after the rollback. -/
theorem afterPoll (h : H.Keeps allowed I) (hrollback : allowed .nixRollback) {env : CommandEnvelope}
    (hverify : env.verify = some verify) (pre steps : List Call)
    (hdeadline : instantCheckedAdd (H.instantNow s).1 verify.timeoutS.toNat = some deadline)
    (hpoll : I (Ravn.pollVerify P H verify deadline fuel (H.instantNow s).2).2.2) :
    I (Ravn.verifyAndRollback P H env pre steps fuel s).2.2 := by
  rcases hend : Ravn.pollVerify P H verify deadline fuel (H.instantNow s).2 with
    ⟨pollEnd, polls, s'⟩
  rw [hend] at hpoll
  simp only [Ravn.verifyAndRollback, hverify, hdeadline, hend]
  cases pollEnd with
  | polling => exact hpoll
  | held observed => exact h.finish env _ _ hpoll
  | notHeld detail observed =>
    exact h.finish env _ _ (h.performRollback hrollback env detail observed hpoll)

theorem verifyAndRollback (h : H.Keeps allowed I) (hrollback : allowed .nixRollback)
    {env : CommandEnvelope}
    (hallowed : ∀ v, env.verify = some v → v.timeoutS.toNat < 2 ^ 63 → allowed v.check)
    (pre steps : List Call) (fuel : Nat) (hs : I s) :
    I (Ravn.verifyAndRollback P H env pre steps fuel s).2.2 := by
  cases hverify : env.verify with
  | none =>
    simp only [Ravn.verifyAndRollback, hverify]
    exact h.finish env _ _ hs
  | some verify =>
    have hs := h.instantNow s hs
    cases hdeadline : instantCheckedAdd (H.instantNow s).1 verify.timeoutS.toNat with
    | none => simpa only [Ravn.verifyAndRollback, hverify, hdeadline] using hs
    | some deadline =>
      have hfits : verify.timeoutS.toNat < 2 ^ 63 := by
        unfold instantCheckedAdd at hdeadline
        split at hdeadline
        · omega
        · cases hdeadline
      exact h.afterPoll hrollback hverify pre steps hdeadline
        (h.pollVerify (hallowed verify hverify hfits) deadline fuel hs)

/-- Whatever the clock says, a command that is admitted runs only what it can get to. -/
theorem handleEnvelope (h : H.Keeps allowed I) (hexpects : H.Expects)
    (hrollback : allowed .nixRollback) {ring : Keyring P} {env : CommandEnvelope}
    (hallowed : ∀ now, admission P ring env now = .ok () → env.containsKubeCapability = false →
      ∀ cap ∈ env.reachable, allowed cap)
    (fuel : Nat) (hs : I s) : I (Ravn.handleEnvelope P H ring env fuel s).2.2 := by
  unfold Ravn.handleEnvelope
  split
  · exact h.finish env _ _ hs
  rename_i hkube
  have hs := h.utcNow s hs
  unfold handleCommand
  simp only
  cases hadmission : admission P ring env (H.utcNow s).1 with
  | error detail => exact h.finish env _ _ hs
  | ok _ =>
    have hallowed := hallowed _ hadmission (by simpa using hkube)
    simp only [CommandEnvelope.reachable, List.forall_mem_append] at hallowed
    obtain ⟨hs, hheld⟩ := h.checkPreconditions (P := P) hexpects hallowed.1 hs
    rcases hpre : Ravn.checkPreconditions P H env.preconditions (H.utcNow s).2 with
      ⟨verdict, pre, s'⟩
    rw [hpre] at hs hheld
    cases verdict with
    | some verdict => exact h.finish env _ _ hs
    | none =>
      have hrest := hallowed.2
      simp only [hheld rfl, if_true, List.forall_mem_append] at hrest
      have hs := h.runSteps hrest.1 hs
      rcases hsteps : Ravn.runSteps H env.steps s' with ⟨verdict, steps, s''⟩
      rw [hsteps] at hs
      simp only [hsteps]
      cases verdict with
      | some verdict => exact h.finish env _ _ hs
      | none =>
        refine h.verifyAndRollback hrollback (fun v hv hfits => hrest.2 v.check ?_) pre steps fuel hs
        simpa [hv] using hfits

end Host.Keeps

end

/-! ## The host executor -/

section

variable {P : Platform} {σ : Type u} {M : Machine σ}

theorem systemctlHost_expects : (systemctlHost P M).Expects := by
  intro cond s v hrun hobs
  unfold Condition.canHold
  obtain ⟨unit, text, hcheck, rfl⟩ | ⟨hcheck, rfl⟩ := runSystemctlSync_answer hrun
  · simp [hcheck, ← hobs, trim_trim]
  · split
    · exact absurd ‹_› (hcheck _)
    · simp [← hobs]

/-- Without a unit that is taken for an option no option is passed. -/
theorem systemctlHost_keeps_noOption :
    (systemctlHost P M).Keeps
      (fun cap => ∀ unit, capabilityUnit cap = some unit → isOption unit = false)
      (fun s => NoOption s.2) where
  run cap s hcap hs := by
    obtain ⟨spawned, hstart, hlog⟩ := runSystemctlSync_spawned (P := P) (M := M) cap s
    change NoOption (runSystemctlSync P M cap s).2.2
    rw [hlog]
    intro argv hargv
    rcases List.mem_append.mp hargv with hargv | hargv
    · exact hs argv hargv
    · exact noOption_commandLines hcap argv (hstart.subset hargv)
  utcNow s hs := hs
  instantNow s hs := hs
  sleep d s hs := hs

/-- What has been spawned stays on record. -/
theorem systemctlHost_keeps_mem (argv : Argv) :
    (systemctlHost P M).Keeps (fun _ => True) (fun s => argv ∈ s.2) where
  run cap s _ hs := by
    obtain ⟨spawned, -, hlog⟩ := runSystemctlSync_spawned (P := P) (M := M) cap s
    exact hlog ▸ List.mem_append_left spawned hs
  utcNow s hs := hs
  instantNow s hs := hs
  sleep d s hs := hs

end

/-! ## A machine on which a command gets as far as it can -/

/-- Every process succeeds and prints the next of the given texts. -/
def answering (now : DateTime) : Machine (List String) where
  output _ outs := (.ok ⟨true, "exit status: 0", outs.headD "", ""⟩, outs.tail)
  utcNow outs := (now, outs)
  instantNow outs := (0, outs)
  sleep _ outs := outs

/-- The texts with which a check answers the value it must equal. -/
def expectedOutputs (cond : Condition) : List String :=
  match cond.check with
  | .unitState _ => [cond.equals]
  | cap => (commandLines cap).map fun _ => ""

/-- What a capability answers there. -/
def answered (cap : Capability) (outs : List String) : Option String :=
  match cap with
  | .unitState _ => some (String.ofList (trim (outs.headD "").toList))
  | _ => none

section

variable {P : Platform} (now : DateTime)

theorem answering_run (hhost : capabilityKubeIds cap = []) (outs : List String) (log : List Argv) :
    (systemctlHost P (answering now)).run cap (outs, log) =
      (.ok (answered cap outs), outs.drop (commandLines cap).length, log ++ commandLines cap) := by
  cases cap with
  | resetFailed unit | restartUnit unit =>
    simp [systemctlHost, runSystemctlSync, runOk, spawn, answering, commandLines, answered, Except.map]
  | unitState unit =>
    simp [systemctlHost, runSystemctlSync, spawn, answering, commandLines, answered]
  | nixRollback =>
    have htail : outs.tail.tail = outs.drop 2 := by cases outs <;> simp
    simp [systemctlHost, runSystemctlSync, runOk, spawn, answering, commandLines, answered, Except.map,
      htail]
  | deletePod | restartDeployment | podState => cases hhost

theorem answering_check {cond : Condition} (hhost : capabilityKubeIds cond.check = [])
    (hcan : cond.canHold) (rest : List String) (log : List Argv) :
    ∃ v, (systemctlHost P (answering now)).run cond.check (expectedOutputs cond ++ rest, log) =
      (.ok v, rest, log ++ commandLines cond.check) ∧ v.getD "" = cond.equals := by
  have hlength : (expectedOutputs cond).length = (commandLines cond.check).length := by
    cases hcheck : cond.check <;> simp [expectedOutputs, hcheck, commandLines]
  refine ⟨_, by rw [answering_run now hhost, ← hlength, List.drop_left], ?_⟩
  cases hcheck : cond.check <;> simp_all [Condition.canHold, answered, expectedOutputs]

theorem answering_checkPreconditions {conds : List Condition}
    (hhost : ∀ cond ∈ conds, capabilityKubeIds cond.check = []) (log : List Argv) :
    (checkPreconditions P (systemctlHost P (answering now)) conds
        (conds.flatMap expectedOutputs, log)).2.2.2 =
      log ++ (reachableChecks conds).flatMap commandLines ∧
    (conds.all Condition.canHold → (checkPreconditions P (systemctlHost P (answering now)) conds
        (conds.flatMap expectedOutputs, log)).1 = none) := by
  induction conds generalizing log with
  | nil => simp [checkPreconditions, reachableChecks]
  | cons cond conds ih =>
    rw [List.forall_mem_cons] at hhost
    rw [List.flatMap_cons]
    by_cases hcan : cond.canHold
    · obtain ⟨v, hrun, hobs⟩ := answering_check (P := P) now hhost.1 hcan
        (conds.flatMap expectedOutputs) log
      obtain ⟨hlog, hnone⟩ := ih hhost.2 (log ++ commandLines cond.check)
      simp only [checkPreconditions, hrun, hobs, ne_eq, not_true, if_false, reachableChecks, hcan,
        if_true, List.flatMap_cons, List.all_cons, Bool.true_and]
      exact ⟨by rw [hlog, List.append_assoc], hnone⟩
    · have hrun := answering_run (P := P) now hhost.1
        (expectedOutputs cond ++ conds.flatMap expectedOutputs) log
      have hobs : (answered cond.check (expectedOutputs cond ++ conds.flatMap expectedOutputs)).getD
          "" ≠ cond.equals :=
        fun hobs => hcan (systemctlHost_expects cond _ _ (congrArg Prod.fst hrun) hobs)
      simp [checkPreconditions, hrun, hobs, reachableChecks, hcan]

theorem answering_runSteps {steps : List Capability}
    (hhost : ∀ cap ∈ steps, capabilityKubeIds cap = []) (s : List String × List Argv) :
    (runSteps (systemctlHost P (answering now)) steps s).1 = none ∧
      (runSteps (systemctlHost P (answering now)) steps s).2.2.2 =
        s.2 ++ steps.flatMap commandLines := by
  induction steps generalizing s with
  | nil => simp [runSteps]
  | cons step steps ih =>
    rw [List.forall_mem_cons] at hhost
    have hrun := answering_run (P := P) now hhost.1 s.1 s.2
    obtain ⟨hnone, hlog⟩ := ih hhost.2
      (s.1.drop (commandLines step).length, s.2 ++ commandLines step)
    simp [runSteps, hrun, hnone, hlog]

theorem answering_verify {env : CommandEnvelope} (hverify : env.verify = some verify)
    (hfits : verify.timeoutS.toNat < 2 ^ 63) (hhost : capabilityKubeIds verify.check = [])
    (hargv : argv ∈ commandLines verify.check) (pre steps : List Call)
    (s : List String × List Argv) :
    argv ∈ (verifyAndRollback P (systemctlHost P (answering now)) env pre steps 1 s).2.2.2 := by
  have hkeeps := systemctlHost_keeps_mem (P := P) (M := answering now) argv
  have hfirst : argv ∈ ((systemctlHost P (answering now)).run verify.check s).2.2 := by
    rw [answering_run now hhost s.1 s.2]
    exact List.mem_append_right _ hargv
  have hdeadline : instantCheckedAdd ((systemctlHost P (answering now)).instantNow s).1
      verify.timeoutS.toNat = some (verify.timeoutS.toNat * 1000000000) := by
    simpa [instantCheckedAdd, systemctlHost, answering] using hfits
  exact hkeeps.afterPoll trivial hverify pre steps hdeadline (hkeeps.pollVerify_first _ 0 hfirst)

theorem kubeIds_of_not_containsKube {env : CommandEnvelope}
    (h : env.containsKubeCapability = false) (hcap : cap ∈ env.capabilities) :
    capabilityKubeIds cap = [] := by
  simp only [CommandEnvelope.containsKubeCapability, Bool.or_eq_false_iff, List.any_eq_false,
    Option.any_eq_false] at h
  simp only [CommandEnvelope.capabilities, List.mem_append, List.mem_map, Option.mem_toList] at hcap
  obtain (⟨cond, hcond, rfl⟩ | hstep) | ⟨verify, hverify, rfl⟩ := hcap
  · have hcond := h.1.1 cond hcond
    cases hcheck : cond.check <;> simp_all [capabilityKubeIds]
  · have hstep := h.1.2 cap hstep
    cases cap <;> simp_all [capabilityKubeIds]
  · have hverify := h.2 verify hverify
    cases hcheck : verify.check <;> simp_all [capabilityKubeIds]

/-- A command that is admitted gets to all it can get to on such a machine. -/
theorem reachable_spawned {ring : Keyring P} (hadmission : admission P ring env now = .ok ())
    (hkube : env.containsKubeCapability = false) (hcap : cap ∈ env.reachable)
    (hargv : argv ∈ commandLines cap) :
    argv ∈ (handleEnvelope P (systemctlHost P (answering now)) ring env 1
      (env.preconditions.flatMap expectedOutputs, [])).2.2.2 := by
  have hkeeps := systemctlHost_keeps_mem (P := P) (M := answering now) argv
  have hhost := fun cap (hcap : cap ∈ env.capabilities) => kubeIds_of_not_containsKube hkube hcap
  simp only [CommandEnvelope.capabilities, List.forall_mem_append, List.forall_mem_map] at hhost
  obtain ⟨⟨hhostPre, hhostSteps⟩, hhostVerify⟩ := hhost
  obtain ⟨hlog, hnone⟩ := answering_checkPreconditions (P := P) now hhostPre []
  have hnow : (systemctlHost P (answering now)).utcNow
      (env.preconditions.flatMap expectedOutputs, []) =
    (now, env.preconditions.flatMap expectedOutputs, []) := rfl
  unfold handleEnvelope handleCommand
  simp only [hkube, Bool.false_eq_true, if_false, hnow, hadmission]
  rcases hpre : checkPreconditions P (systemctlHost P (answering now)) env.preconditions
    (env.preconditions.flatMap expectedOutputs, []) with ⟨verdict, pre, s⟩
  rw [hpre] at hlog hnone
  rw [CommandEnvelope.reachable, List.mem_append] at hcap
  have hchecks : cap ∈ reachableChecks env.preconditions → argv ∈ s.2 := by
    intro hcap
    rw [show s.2 = _ from hlog]
    exact List.mem_append_right _ (List.mem_flatMap_of_mem hcap hargv)
  cases verdict with
  | some verdict =>
    have hnotall : ¬ env.preconditions.all Condition.canHold := fun hall => by cases hnone hall
    rw [if_neg hnotall] at hcap
    exact hkeeps.finish env _ _ (hchecks (hcap.resolve_right List.not_mem_nil))
  | none =>
    obtain ⟨hnone, hlogSteps⟩ := answering_runSteps (P := P) now hhostSteps s
    rcases hsteps : runSteps (systemctlHost P (answering now)) env.steps s with ⟨verdict, steps, s'⟩
    rw [hsteps] at hnone hlogSteps
    cases hnone
    have hrest : argv ∈ s'.2 →
        argv ∈ (verifyAndRollback P (systemctlHost P (answering now)) env pre steps 1 s').2.2.2 :=
      fun hs => hkeeps.verifyAndRollback trivial (fun _ _ _ => trivial) pre steps 1 hs
    simp only [hsteps]
    rw [show s'.2 = _ from hlogSteps] at hrest
    rcases hcap with hcap | hcap
    · exact hrest (List.mem_append_left _ (hchecks hcap))
    split at hcap
    · rcases List.mem_append.mp hcap with hcap | hcap
      · exact hrest (List.mem_append_right _ (List.mem_flatMap_of_mem hcap hargv))
      · obtain ⟨verify, hverify, rfl⟩ := List.mem_map.mp hcap
        obtain ⟨hverify, hfits⟩ := List.mem_filter.mp hverify
        exact answering_verify now (Option.mem_toList.mp hverify) (of_decide_eq_true hfits)
          (hhostVerify verify hverify) hargv pre steps s'
    · cases hcap

end

/-! ## The law -/

/-- Whatever the executor meets, no option is passed to `systemctl` for an envelope exactly if, when it
is admitted, no unit that it can get to begins with a hyphen: `is_valid_unit` lets such units pass. -/
theorem no_option_injection_iff (P : Platform) (ring : Keyring P) (env : CommandEnvelope) :
    (∀ (σ : Type) (M : Machine σ) fuel s,
      NoOption (handleEnvelope P (systemctlHost P M) ring env fuel (s, [])).2.2.2) ↔
    ∀ now, admission P ring env now = .ok () → env.containsKubeCapability = false →
      ∀ cap ∈ env.reachable, ∀ unit, capabilityUnit cap = some unit → isOption unit = false := by
  constructor
  · intro h now hadmission hkube cap hcap unit hunit
    obtain ⟨verb, hargv⟩ : ∃ verb, systemctl verb unit ∈ commandLines cap := by
      cases cap <;> cases hunit <;> exact ⟨_, List.mem_singleton_self _⟩
    exact h _ (answering now) 1 _ _ (reachable_spawned now hadmission hkube hcap hargv) rfl unit
      (by simp [systemctl])
  · intro h σ M fuel s
    have hrollback : ∀ unit, capabilityUnit .nixRollback = some unit → isOption unit = false :=
      fun unit hunit => by cases hunit
    exact systemctlHost_keeps_noOption.handleEnvelope systemctlHost_expects hrollback h fuel
      fun argv hargv => absurd hargv List.not_mem_nil

namespace Platform

/-- A signed restart of a unit that is an option. -/
def sampleOption : CommandEnvelope :=
  signEnvelope sample (7 : UInt8)
    { sampleEnvelope with preconditions := [], steps := [.restartUnit "-Hroot@evil"], verify := none }

theorem option_reaches_systemctl :
    (handleEnvelope sample (systemctlHost sample (answering noon)) (.single (7 : UInt8)) sampleOption 0
      ([], [])).2.2.2 = [⟨"systemctl", ["restart", "-Hroot@evil"]⟩] ∧
    ¬NoOption [⟨"systemctl", ["restart", "-Hroot@evil"]⟩] := by
  refine ⟨by decide +kernel, fun h => ?_⟩
  have hoption := h _ (List.mem_singleton_self _) rfl "-Hroot@evil" (by simp)
  exact absurd hoption (by decide)

end Platform

end Ravn
