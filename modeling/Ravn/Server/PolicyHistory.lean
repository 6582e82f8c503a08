import Ravn.Server.Policy
import Ravn.Theory.SlidingWindow

/-! The policy engine against its specification, which decides each call from the whole history of
calls and answers. The breaker's pruned log and the history agree on everything that a later call can
still count. -/

namespace Ravn

open Theory

/-! ## The specification -/

/-- The calls so far with their answers, the earliest first. -/
abbrev PolicyHistory := List (PolicyCall × EvaluateResult)

namespace PolicyHistory

/-- When calls of this host and template were answered `Auto`. -/
def autoTimes (history : PolicyHistory) (key : String × String) : List DateTime :=
  (history.filter fun h => h.1.key = key ∧ h.2.decision = .auto).map fun h => h.1.now

end PolicyHistory

namespace PolicyEngine

variable (eng : PolicyEngine)

/-- The time `t` is in the half-open interval from `now - window`, excluded, to `now`. -/
def inWindow (now t : DateTime) : Bool :=
  now.nanos - eng.window < t.nanos ∧ t ≤ now

/-- What the answer to a call is to be, given all earlier calls and answers. -/
def specify (history : PolicyHistory) (c : PolicyCall) : EvaluateResult :=
  if eng.policy.decide c.host c.tier = .forbid then ⟨.forbid, false⟩
  else if eng.autoEnabled ∧ c.tier ≠ .dangerous ∧ eng.policy.decide c.host c.tier = .auto then
    if (history.autoTimes c.key).countP (eng.inWindow c.now) < eng.maxAuto.toNat then
      ⟨.auto, false⟩
    else ⟨.approve, true⟩
  else ⟨.approve, false⟩

/-- The answers to calls made one after another. -/
def specifyAll : PolicyHistory → List PolicyCall → List EvaluateResult
  | _, [] => []
  | history, c :: cs =>
    eng.specify history c :: specifyAll (history ++ [(c, eng.specify history c)]) cs

/-- The calls with the answers they are to get. -/
def history (calls : List PolicyCall) : PolicyHistory := calls.zip (eng.specifyAll [] calls)

end PolicyEngine

/-! ## The invariant -/

variable {eng : PolicyEngine}

theorem PolicyHistory.autoTimes_snoc (history : PolicyHistory) (c : PolicyCall)
    (r : EvaluateResult) (key : String × String) :
    autoTimes (history ++ [(c, r)]) key =
      autoTimes history key ++ if c.key = key ∧ r.decision = .auto then [c.now] else [] := by
  unfold autoTimes
  rw [List.filter_append, List.map_append]
  by_cases h : c.key = key ∧ r.decision = .auto
  · simp [h]
  · simp [h]

theorem PolicyHistory.autoTimes_le {history : PolicyHistory} (h : ∀ x ∈ history, x.1.now ≤ now) :
    ∀ t ∈ history.autoTimes key, t ≤ now := by
  intro t ht
  obtain ⟨x, hx, rfl⟩ := List.mem_map.mp ht
  exact h x (List.mem_of_mem_filter hx)

/-- What has not aged out at a time, whether it is past or not. -/
def PolicyEngine.notAged (eng : PolicyEngine) (now t : DateTime) : Bool :=
  now.nanos - eng.window < t.nanos

/-- Times in a window that is open at the left do not age out for one another. -/
theorem notAged_of_leftOpen {eng : PolicyEngine} {start : Int} (x y : DateTime)
    (hx : decide (start < x.nanos ∧ x.nanos ≤ start + eng.window) = true)
    (hy : decide (start < y.nanos ∧ y.nanos ≤ start + eng.window) = true) :
    eng.notAged x y = true := by
  simp only [decide_eq_true_eq, PolicyEngine.notAged] at hx hy ⊢
  omega

theorem notAged_of_rightOpen {eng : PolicyEngine} {start : Int} (x y : DateTime)
    (hx : decide (start ≤ x.nanos ∧ x.nanos < start + eng.window) = true)
    (hy : decide (start ≤ y.nanos ∧ y.nanos < start + eng.window) = true) :
    eng.notAged x y = true := by
  simp only [decide_eq_true_eq, PolicyEngine.notAged] at hx hy ⊢
  omega

/-- The log without what has aged out for a call's host and template. -/
def PolicyEngine.pruned (eng : PolicyEngine) (hits : HitLog) (c : PolicyCall) : HitLog :=
  fun k => if k = c.key then (hits c.key).filter (eng.notAged c.now) else hits k

/-- The breaker's log agrees with the history on what a call at `now` or later can count. -/
structure Tracks (eng : PolicyEngine) (history : PolicyHistory) (hits : HitLog) (now : DateTime) :
    Prop where
  past : ∀ h ∈ history, h.1.now ≤ now
  recent : ∀ key later, now ≤ later →
    (hits key).filter (eng.notAged later) = (history.autoTimes key).filter (eng.notAged later)
  capped : ∀ key, (hits key).length ≤ eng.maxAuto.toNat

namespace Tracks

theorem nil (eng : PolicyEngine) (now : DateTime) : Tracks eng [] (fun _ => []) now :=
  ⟨by simp, by simp [PolicyHistory.autoTimes], by simp⟩

theorem later (h : Tracks eng history hits now) (hle : now ≤ now') :
    Tracks eng history hits now' where
  past x hx := (h.past x hx).trans hle
  recent key t ht := h.recent key t (hle.trans ht)
  capped := h.capped

/-- The log that the breaker counts is the part of the history that is in the window. -/
theorem length_eq (h : Tracks eng history hits now) (key : String × String) :
    ((hits key).filter (eng.notAged now)).length =
      (history.autoTimes key).countP (eng.inWindow now) := by
  rw [h.recent key now le_rfl, ← List.countP_eq_length_filter]
  apply List.countP_congr
  intro t ht
  have hle := PolicyHistory.autoTimes_le h.past t ht
  simp [PolicyEngine.inWindow, PolicyEngine.notAged, hle]

/-- A call that is not answered `Auto` leaves the log as it is. -/
theorem snoc_of_ne_auto (h : Tracks eng history hits c.now) (hr : r.decision ≠ .auto) :
    Tracks eng (history ++ [(c, r)]) hits c.now := by
  refine ⟨?_, ?_, h.capped⟩
  · intro x hx
    rcases List.mem_append.mp hx with hx | hx
    · exact h.past x hx
    · rw [List.mem_singleton.mp hx]
  · intro key t ht
    rw [PolicyHistory.autoTimes_snoc, if_neg (fun hc => hr hc.2), List.append_nil]
    exact h.recent key t ht

/-- Pruning what has aged out by now. -/
theorem prune (h : Tracks eng history hits c.now) :
    Tracks eng history (eng.pruned hits c) c.now := by
  refine ⟨h.past, ?_, ?_⟩
  · intro k t ht
    unfold PolicyEngine.pruned
    split
    · rename_i hk
      rw [hk, filter_filter_of_imp, h.recent c.key t ht]
      intro a ha
      have hnanos := DateTime.le_def.mp ht
      simp only [PolicyEngine.notAged, decide_eq_true_eq] at ha ⊢
      omega
    · exact h.recent k t ht
  · intro k
    unfold PolicyEngine.pruned
    split
    · exact (List.length_filter_le _ _).trans (h.capped c.key)
    · exact h.capped k

/-- A call that is answered `Auto` is recorded. -/
theorem record (h : Tracks eng history hits c.now) (hr : r.decision = .auto)
    (hlt : (hits c.key).length < eng.maxAuto.toNat) :
    Tracks eng (history ++ [(c, r)]) (PolicyEngine.record hits c) c.now := by
  refine ⟨?_, ?_, ?_⟩
  · intro x hx
    rcases List.mem_append.mp hx with hx | hx
    · exact h.past x hx
    · rw [List.mem_singleton.mp hx]
  · intro key t ht
    rw [PolicyHistory.autoTimes_snoc, PolicyEngine.record]
    by_cases hk : key = c.key
    · rw [if_pos hk, if_pos ⟨hk.symm, hr⟩, List.filter_append, List.filter_append,
        h.recent key t ht]
    · rw [if_neg hk, if_neg (fun hc => hk hc.1.symm), List.append_nil]
      exact h.recent key t ht
  · intro key
    rw [PolicyEngine.record]
    split
    · rename_i hk
      rw [hk, List.length_append, List.length_singleton]
      omega
    · exact h.capped key

end Tracks

/-! ## Each call -/

/-- The window fits a chrono duration and no cutoff leaves the range of times. -/
structure InRange (eng : PolicyEngine) (calls : List PolicyCall) : Prop where
  window : (TimeDelta.fromStd eng.window).isSome
  cutoff : ∀ c ∈ calls, (eng.cutoff c.now).isSome

theorem windowDelta_eq (h : (TimeDelta.fromStd eng.window).isSome) :
    eng.windowDelta = eng.window := by
  unfold PolicyEngine.windowDelta
  unfold TimeDelta.fromStd at h ⊢
  split
  · rfl
  · rename_i hlarge
    rw [if_neg hlarge] at h
    cases h

/-- In range, the breaker keeps exactly what has not aged out. -/
theorem tripped_eq (hwindow : (TimeDelta.fromStd eng.window).isSome)
    (hcutoff : (eng.cutoff c.now).isSome) (hits : HitLog) :
    eng.tripped hits c =
      some (decide (eng.maxAuto ≤ UInt32.ofNat ((hits c.key).filter (eng.notAged c.now)).length),
        eng.pruned hits c) := by
  obtain ⟨cut, hcut⟩ := Option.isSome_iff_exists.mp hcutoff
  have hnanos : cut.nanos = c.now.nanos - eng.window := by
    unfold PolicyEngine.cutoff DateTime.checkedAdd at hcut
    rw [windowDelta_eq hwindow] at hcut
    dsimp only at hcut
    split at hcut
    · cases hcut
      dsimp only
      omega
    · cases hcut
  have hfilter : (fun t => decide (cut < t)) = eng.notAged c.now := by
    funext t
    simp only [PolicyEngine.notAged, DateTime.lt_def, hnanos]
  unfold PolicyEngine.tripped
  rw [hcut, Option.map_some, hfilter]
  rfl

/-- The truncation of the count to 32 bits changes nothing below the cap. -/
theorem le_ofNat_iff {cap : UInt32} (h : n ≤ cap.toNat) : cap ≤ UInt32.ofNat n ↔ cap.toNat ≤ n := by
  have hlt : n < UInt32.size := Nat.lt_of_le_of_lt h cap.toNat_lt_size
  rw [UInt32.le_iff_toNat_le, UInt32.toNat_ofNat_of_lt' hlt]

/-- One call answers as specified and keeps the log in step with the history. -/
theorem evaluate_eq_specify (hwindow : (TimeDelta.fromStd eng.window).isSome)
    (hcutoff : (eng.cutoff c.now).isSome) (h : Tracks eng history hits c.now) :
    ∃ hits', eng.evaluate hits c = some (eng.specify history c, hits') ∧
      Tracks eng (history ++ [(c, eng.specify history c)]) hits' c.now := by
  unfold PolicyEngine.evaluate PolicyEngine.specify PolicyEngine.ruleDecision
  cases henabled : eng.autoEnabled with
  | false =>
    cases hdecide : eng.policy.decide c.host c.tier with
    | forbid => exact ⟨hits, by simp, by simpa using h.snoc_of_ne_auto (by simp)⟩
    | auto => exact ⟨hits, by simp, by simpa using h.snoc_of_ne_auto (by simp)⟩
    | approve => exact ⟨hits, by simp, by simpa using h.snoc_of_ne_auto (by simp)⟩
  | true =>
    cases hdecide : eng.policy.decide c.host c.tier with
    | forbid => exact ⟨hits, by simp, by simpa using h.snoc_of_ne_auto (by simp)⟩
    | approve => exact ⟨hits, by simp, by simpa using h.snoc_of_ne_auto (by simp)⟩
    | auto =>
      by_cases htier : c.tier = .dangerous
      · refine ⟨hits, by simp [htier], ?_⟩
        simpa [htier] using h.snoc_of_ne_auto (by simp)
      · -- Only here the breaker is asked.
        have hcapped : ((hits c.key).filter (eng.notAged c.now)).length ≤ eng.maxAuto.toNat :=
          (List.length_filter_le _ _).trans (h.capped c.key)
        have hpruned := h.prune
        have hkey : (eng.pruned hits c) c.key = (hits c.key).filter (eng.notAged c.now) := if_pos rfl
        by_cases hlt : (history.autoTimes c.key).countP (eng.inWindow c.now) < eng.maxAuto.toNat
        · have hopen : ¬eng.maxAuto ≤
              UInt32.ofNat ((hits c.key).filter (eng.notAged c.now)).length := by
            rw [le_ofNat_iff hcapped, h.length_eq]
            omega
          refine ⟨PolicyEngine.record (eng.pruned hits c) c, ?_, ?_⟩
          · simp [htier, hlt, tripped_eq hwindow hcutoff, hopen]
          · have hroom : (eng.pruned hits c c.key).length < eng.maxAuto.toNat := by
              rw [hkey, h.length_eq]
              exact hlt
            simpa [htier, hlt] using hpruned.record rfl hroom
        · have hclosed : eng.maxAuto ≤
              UInt32.ofNat ((hits c.key).filter (eng.notAged c.now)).length := by
            rw [le_ofNat_iff hcapped, h.length_eq]
            omega
          refine ⟨eng.pruned hits c, ?_, ?_⟩
          · simp [htier, hlt, tripped_eq hwindow hcutoff, hclosed]
          · simpa [htier, hlt] using hpruned.snoc_of_ne_auto (by simp)

/-! ## Whole sequences of calls -/

theorem evaluateAll_eq (hwindow : (TimeDelta.fromStd eng.window).isSome) (calls : List PolicyCall)
    (hcutoff : ∀ c ∈ calls, (eng.cutoff c.now).isSome)
    (hsorted : calls.Pairwise fun a b => a.now ≤ b.now)
    (h : ∀ c ∈ calls, Tracks eng history hits c.now) :
    eng.evaluateAll hits calls = some (eng.specifyAll history calls) := by
  induction calls generalizing history hits with
  | nil => rfl
  | cons c cs ih =>
    obtain ⟨hlater, hrest⟩ := List.pairwise_cons.mp hsorted
    obtain ⟨hits', heval, htracks⟩ := evaluate_eq_specify hwindow
      (hcutoff c List.mem_cons_self) (h c List.mem_cons_self)
    have hcs := ih (fun d hd => hcutoff d (List.mem_cons_of_mem _ hd)) hrest
      fun d hd => htracks.later (hlater d hd)
    simp only [PolicyEngine.evaluateAll, heval, Option.bind_some, hcs, Option.map_some]
    rfl

theorem countP_of_specify_auto (h : (eng.specify history c).decision = .auto) :
    (history.autoTimes c.key).countP (eng.inWindow c.now) < eng.maxAuto.toNat := by
  unfold PolicyEngine.specify at h
  split at h
  · cases h
  · split at h
    · split at h
      · assumption
      · cases h
    · cases h

theorem countP_notAged_eq {history : PolicyHistory} (h : ∀ x ∈ history, x.1.now ≤ now) :
    (history.autoTimes key).countP (eng.notAged now) =
      (history.autoTimes key).countP (eng.inWindow now) := by
  apply List.countP_congr
  intro t ht
  have hle := PolicyHistory.autoTimes_le h t ht
  simp [PolicyEngine.inWindow, PolicyEngine.notAged, hle]

/-- At every `Auto` answer fewer than the cap of the earlier ones had not aged out. -/
theorem limited_autoTimes (calls : List PolicyCall) (key : String × String)
    (hsorted : calls.Pairwise fun a b => a.now ≤ b.now)
    (hpast : ∀ c ∈ calls, ∀ x ∈ history, x.1.now ≤ c.now)
    (h : Limited eng.notAged eng.maxAuto.toNat (PolicyHistory.autoTimes history key)) :
    Limited eng.notAged eng.maxAuto.toNat
      (PolicyHistory.autoTimes (history ++ calls.zip (eng.specifyAll history calls)) key) := by
  induction calls generalizing history with
  | nil => simpa using h
  | cons c cs ih =>
    obtain ⟨hlater, hrest⟩ := List.pairwise_cons.mp hsorted
    have hpast' := hpast c List.mem_cons_self
    rw [PolicyEngine.specifyAll, List.zip_cons_cons, List.append_cons]
    refine ih hrest ?_ ?_
    · intro d hd x hx
      rcases List.mem_append.mp hx with hx | hx
      · exact hpast d (List.mem_cons_of_mem _ hd) x hx
      · rw [List.mem_singleton.mp hx]
        exact hlater d hd
    · rw [PolicyHistory.autoTimes_snoc]
      split
      · rename_i hauto
        refine h.snoc ?_
        rw [← hauto.1, countP_notAged_eq hpast']
        exact countP_of_specify_auto hauto.2
      · simpa using h

/-- An answer depends on the history of its own host and template only. -/
theorem specify_congr {history' : PolicyHistory}
    (h : PolicyHistory.autoTimes history c.key = PolicyHistory.autoTimes history' c.key) :
    eng.specify history c = eng.specify history' c := by
  unfold PolicyEngine.specify
  rw [h]

theorem specifyAll_filter (calls : List PolicyCall) (key : String × String)
    {history history' : PolicyHistory} (h : history.autoTimes key = history'.autoTimes key) :
    (calls.zip (eng.specifyAll history calls)).filter (fun x => x.1.key = key) =
      (calls.filter fun c => c.key = key).zip
        (eng.specifyAll history' (calls.filter fun c => c.key = key)) := by
  induction calls generalizing history history' with
  | nil => rfl
  | cons c cs ih =>
    rw [PolicyEngine.specifyAll, List.zip_cons_cons]
    by_cases hk : c.key = key
    · have hspec : eng.specify history c = eng.specify history' c :=
        specify_congr (by rw [hk]; exact h)
      rw [List.filter_cons_of_pos (by simpa using hk), List.filter_cons_of_pos (by simpa using hk),
        PolicyEngine.specifyAll, List.zip_cons_cons, hspec]
      refine congrArg _ (ih ?_)
      rw [PolicyHistory.autoTimes_snoc, PolicyHistory.autoTimes_snoc, h]
    · rw [List.filter_cons_of_neg (by simpa using hk), List.filter_cons_of_neg (by simpa using hk)]
      apply ih
      rw [PolicyHistory.autoTimes_snoc, if_neg (fun hc => hk hc.1), List.append_nil, h]

/-- Calls made one at a time with nondecreasing times are answered as specified. Hence no half-open
window, open at either end, holds more `Auto` answers for a host and template than the cap, and the
answers for one pair are the same as if no other pair had been asked about. -/
theorem evaluateAll_meets_specification (eng : PolicyEngine) (calls : List PolicyCall)
    (hsorted : calls.Pairwise fun a b => a.now ≤ b.now) (hrange : InRange eng calls) :
    eng.evaluateAll (fun _ => []) calls = some (eng.specifyAll [] calls) ∧
    (∀ key (start : Int),
      ((eng.history calls).autoTimes key).countP
        (fun t => start < t.nanos ∧ t.nanos ≤ start + eng.window) ≤ eng.maxAuto.toNat ∧
      ((eng.history calls).autoTimes key).countP
        (fun t => start ≤ t.nanos ∧ t.nanos < start + eng.window) ≤ eng.maxAuto.toNat) ∧
    ∀ key, (eng.history calls).filter (fun x => x.1.key = key) =
      eng.history (calls.filter fun c => c.key = key) := by
  refine ⟨?_, ?_, fun key => specifyAll_filter calls key rfl⟩
  · exact evaluateAll_eq hrange.window calls hrange.cutoff hsorted fun c _ => Tracks.nil eng c.now
  · intro key start
    have hlimited : Limited eng.notAged eng.maxAuto.toNat
        (PolicyHistory.autoTimes ([] ++ eng.history calls) key) :=
      limited_autoTimes calls key hsorted (by simp) .nil
    rw [List.nil_append] at hlimited
    exact ⟨hlimited.countP_le notAged_of_leftOpen, hlimited.countP_le notAged_of_rightOpen⟩

/-! ## A sample policy -/

namespace PolicyEngine

/-- Safe remediations are automatic, one per minute and pair. -/
def sample : PolicyEngine where
  policy := ⟨[⟨none, .safe, .auto⟩]⟩
  autoEnabled := true
  maxAuto := 1
  window := 60000000000

def sampleCall (host : String) (tier : RiskTier) (secs : Nat) : PolicyCall :=
  ⟨host, tier, "failed-unit-restart", ⟨(1780660800 + secs) * 1000000000⟩⟩

/-- Thirty seconds after the first call the breaker trips; exactly a minute after it, it does not. -/
def sampleCalls : List PolicyCall :=
  [sampleCall "web-1" .safe 0, sampleCall "web-1" .safe 30, sampleCall "web-2" .safe 30,
    sampleCall "web-1" .guarded 40, sampleCall "web-1" .safe 60]

end PolicyEngine

open PolicyEngine in
theorem evaluateAll_meets_specification_sample :
    sample.evaluateAll (fun _ => []) sampleCalls =
      some [⟨.auto, false⟩, ⟨.approve, true⟩, ⟨.auto, false⟩, ⟨.approve, false⟩, ⟨.auto, false⟩] ∧
    (sample.history sampleCalls).filter (fun x => x.1.key = ("web-2", "failed-unit-restart")) =
      sample.history [sampleCall "web-2" .safe 30] := by
  have h := evaluateAll_meets_specification sample sampleCalls (by decide +kernel)
    ⟨by decide, by decide +kernel⟩
  exact ⟨h.1.trans (by decide +kernel), h.2.2 _⟩

end Ravn
