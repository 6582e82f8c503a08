import Ravn.Core.Remediation

/-! The policy engine: declarative rules, the fleet-wide kill switch, and a circuit breaker per host
and template that caps automatic executions within a sliding window. -/

namespace Ravn

/-- What policy decides should happen to a matched remediation. -/
inductive PolicyDecision where
  | auto
  | approve
  | forbid
deriving DecidableEq

/-! ## Rules -/

section

variable (p t : List UInt8)

/-- The first loop of `glob_match`, from pattern index `pi` and text index `ti`, with the last `*`
seen and the text index it is currently taken to end at. It yields the pattern index at the end of
the text, or `none` where the source returns `false`. -/
def globLoop (pi ti : Nat) (star : Option Nat) (starTi : Nat) : Option Nat :=
  if ti < t.length then
    if pi < p.length ∧ (p[pi]? = some 63 ∨ p[pi]? = t[ti]?) then
      globLoop (pi + 1) (ti + 1) star starTi
    else if pi < p.length ∧ p[pi]? = some 42 then
      globLoop (pi + 1) ti (some pi) ti
    else
      match star with
      | some s => globLoop (s + 1) (starTi + 1) star (starTi + 1)
      | none => none
  else some pi
-- A step back to a `*` moves its end forward; every other step moves along the pattern.
termination_by (t.length + 1 - min starTi ti, p.length - pi)
decreasing_by
  all_goals simp only [Prod.lex_def]
  all_goals omega

end

/-- `glob_match`, on the octets of the two texts: `*` is 42 and `?` is 63. -/
def globMatchBytes (p t : List UInt8) : Bool :=
  match globLoop p t 0 0 none 0 with
  | none => false
  | some pi => (p.drop pi).all (· == 42)

def globMatch (pattern text : String) : Bool :=
  globMatchBytes (pattern.toList.flatMap String.utf8EncodeChar)
    (text.toList.flatMap String.utf8EncodeChar)

structure PolicyRule where
  host : Option String
  tier : RiskTier
  decision : PolicyDecision

/-- A rule without a host glob applies to every host. -/
def PolicyRule.matches (r : PolicyRule) (host : String) (tier : RiskTier) : Bool :=
  r.tier == tier && r.host.all fun glob => globMatch glob host

structure Policy where
  rules : List PolicyRule

/-- The first matching rule wins; without one, approval is required. -/
def Policy.decide (policy : Policy) (host : String) (tier : RiskTier) : PolicyDecision :=
  ((policy.rules.find? fun r => r.matches host tier).map PolicyRule.decision).getD .approve

/-! ## The engine -/

/-- The rules and settings of the engine; `window` is a std duration in nanoseconds. -/
structure PolicyEngine where
  policy : Policy
  autoEnabled : Bool
  maxAuto : UInt32
  window : Nat

/-- The recent automatic executions of each host and template. -/
abbrev HitLog := String × String → List DateTime

/-- A call of `evaluate`. -/
structure PolicyCall where
  host : String
  tier : RiskTier
  templateId : String
  now : DateTime

def PolicyCall.key (c : PolicyCall) : String × String := (c.host, c.templateId)

structure EvaluateResult where
  decision : PolicyDecision
  breakerTripped : Bool
deriving DecidableEq

namespace PolicyEngine

variable (eng : PolicyEngine)

/-- The window as chrono takes it: zero where it does not fit. -/
def windowDelta : Int := (TimeDelta.fromStd eng.window).getD 0

/-- What is not after the cutoff has aged out; `none` where the subtraction panics. -/
def cutoff (now : DateTime) : Option DateTime := now.checkedAdd (-eng.windowDelta)

/-- `CircuitBreaker::tripped`, with the pruned log. -/
def tripped (hits : HitLog) (c : PolicyCall) : Option (Bool × HitLog) :=
  (eng.cutoff c.now).map fun cutoff =>
    let entry := (hits c.key).filter (cutoff < ·)
    (eng.maxAuto ≤ UInt32.ofNat entry.length, fun k => if k = c.key then entry else hits k)

/-- `CircuitBreaker::record`. -/
def record (hits : HitLog) (c : PolicyCall) : HitLog :=
  fun k => if k = c.key then hits k ++ [c.now] else hits k

/-- The rule decision after the guardrails that need no history. -/
def ruleDecision (c : PolicyCall) : PolicyDecision :=
  let decision := eng.policy.decide c.host c.tier
  if decision = .auto ∧ c.tier = .dangerous then .approve else decision

/-- `PolicyEngine::evaluate`; `none` where it panics. -/
def evaluate (hits : HitLog) (c : PolicyCall) : Option (EvaluateResult × HitLog) :=
  if !eng.autoEnabled then
    let decision := match eng.policy.decide c.host c.tier with
      | .forbid => .forbid
      | _ => .approve
    some (⟨decision, false⟩, hits)
  else if eng.ruleDecision c = .auto then
    (eng.tripped hits c).map fun (tripped, hits) =>
      if tripped then (⟨.approve, true⟩, hits) else (⟨.auto, false⟩, record hits c)
  else some (⟨eng.ruleDecision c, false⟩, hits)

/-- `evaluate` up to the end of the section under the breaker's first lock. -/
def consult (hits : HitLog) (c : PolicyCall) : Option (EvaluateResult × HitLog) :=
  if !eng.autoEnabled then
    let decision := match eng.policy.decide c.host c.tier with
      | .forbid => .forbid
      | _ => .approve
    some (⟨decision, false⟩, hits)
  else if eng.ruleDecision c = .auto then
    (eng.tripped hits c).map fun (tripped, hits) =>
      if tripped then (⟨.approve, true⟩, hits) else (⟨.auto, false⟩, hits)
  else some (⟨eng.ruleDecision c, false⟩, hits)

/-- Without another call in between, consulting and then recording is `evaluate`. -/
theorem evaluate_eq_consult (hits : HitLog) (c : PolicyCall) :
    eng.evaluate hits c = (eng.consult hits c).map fun (r, hits) =>
      (r, if r.decision = .auto then record hits c else hits) := by
  unfold evaluate consult
  split
  · cases eng.policy.decide c.host c.tier <;> rfl
  split
  · cases eng.tripped hits c with
    | none => rfl
    | some r => cases h : r.1 <;> simp [h]
  · rename_i hdecision
    simp [hdecision]

/-- What the first section can do: the answer needs no history, or the breaker gives it. -/
theorem consult_cases {eng : PolicyEngine} (h : eng.consult hits c = some (r, hits')) :
    ((eng.autoEnabled = false ∨ eng.ruleDecision c ≠ .auto) ∧ r.decision ≠ .auto ∧ hits' = hits) ∨
    (eng.autoEnabled = true ∧ eng.ruleDecision c = .auto ∧
      ∃ tripped, eng.tripped hits c = some (tripped, hits') ∧
        r = if tripped then ⟨.approve, true⟩ else ⟨.auto, false⟩) := by
  unfold consult at h
  cases henabled : eng.autoEnabled with
  | false =>
    simp only [henabled, Bool.not_false, if_true] at h
    cases h
    refine .inl ⟨.inl rfl, ?_, rfl⟩
    split <;> exact PolicyDecision.noConfusion
  | true =>
    simp only [henabled, Bool.not_true, Bool.false_eq_true, if_false] at h
    split at h
    · rename_i hrule
      obtain ⟨⟨tripped, hits''⟩, htripped, h⟩ := Option.map_eq_some_iff.mp h
      cases tripped <;> cases h <;> exact .inr ⟨rfl, hrule, _, htripped, rfl⟩
    · rename_i hrule
      cases h
      exact .inl ⟨.inr hrule, hrule, rfl⟩

/-- The breaker lets a call pass only if the rules decide `Auto`, outside the dangerous tier and with
the kill switch on. -/
theorem consult_auto {eng : PolicyEngine} (h : eng.consult hits c = some (r, hits'))
    (hr : r.decision = .auto) :
    r = ⟨.auto, false⟩ ∧ eng.autoEnabled ∧ eng.policy.decide c.host c.tier = .auto ∧
      c.tier ≠ .dangerous := by
  obtain ⟨-, hne, -⟩ | ⟨henabled, hrule, tripped, -, rfl⟩ := consult_cases h
  · exact absurd hr hne
  cases tripped with
  | true => cases hr
  | false =>
    unfold ruleDecision at hrule
    dsimp only at hrule
    split at hrule
    · cases hrule
    · rename_i hdangerous
      exact ⟨rfl, henabled, hrule, fun htier => hdangerous ⟨hrule, htier⟩⟩

/-- The breaker prunes the entry of the call's own host and template only. -/
theorem tripped_other {eng : PolicyEngine} {hits hits' : HitLog}
    (h : eng.tripped hits c = some (b, hits')) (hk : k ≠ c.key) : hits' k = hits k := by
  obtain ⟨cutoff, -, h⟩ := Option.map_eq_some_iff.mp h
  cases h
  exact if_neg hk

/-- Calls made one after another. -/
def evaluateAll : HitLog → List PolicyCall → Option (List EvaluateResult)
  | _, [] => some []
  | hits, c :: cs =>
    (eng.evaluate hits c).bind fun (r, hits) => (evaluateAll hits cs).map (r :: ·)

end PolicyEngine

end Ravn
