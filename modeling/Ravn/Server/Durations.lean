import Ravn.Server.PolicyHistory
import Ravn.Server.Rendering

/-! The configured durations over their whole range, from the environment to the circuit breaker's
window and the expiry of a command. Both pass through chrono, whose spans and times end long before
the integers of the configuration do. -/

namespace Ravn

open Theory

/-! ## Times that chrono can represent -/

namespace DateTime

/-- What every `DateTime<Utc>` is. -/
def Representable (t : DateTime) : Prop := minUtc ≤ t ∧ t ≤ maxUtc

instance (t : DateTime) : Decidable t.Representable := inferInstanceAs (Decidable (_ ∧ _))

theorem representable_iff {t : DateTime} :
    t.Representable ↔ minUtc.nanos ≤ t.nanos ∧ t.nanos ≤ maxUtc.nanos := Iff.rfl

theorem checkedAdd_eq_some {t u : DateTime} :
    t.checkedAdd d = some u ↔ u.Representable ∧ u.nanos = t.nanos + d := by
  unfold checkedAdd
  dsimp only
  constructor
  · intro h
    split at h
    · rename_i hin
      cases h
      exact ⟨hin, rfl⟩
    · cases h
  · rintro ⟨hin, hnanos⟩
    have hu : u = ⟨t.nanos + d⟩ := by
      cases u
      exact congrArg DateTime.mk hnanos
    rw [hu] at hin ⊢
    exact if_pos hin

end DateTime

/-- The breaker trips for a call. -/
def PolicyEngine.Trips (eng : PolicyEngine) (hits : HitLog) (c : PolicyCall) : Prop :=
  ∃ hits', eng.tripped hits c = some (true, hits')

/-! ## The settings -/

/-- `auto_window_secs`, a `u64`, and `command_ttl_secs`, an `i64`, as `Config::from_env` leaves them. -/
structure DurationConfig where
  autoWindowSecs : Nat
  commandTtlSecs : Int
  one_le_window : 1 ≤ autoWindowSecs
  window_lt : autoWindowSecs < 2 ^ 64
  one_le_ttl : 1 ≤ commandTtlSecs
  ttl_lt : commandTtlSecs < 2 ^ 63

namespace DurationConfig

/-- What a variable of the environment parses to, if it is set and parses. -/
def readWindow (var : Option String) : Option Nat :=
  var.bind fun v => parseUnsigned (2 ^ 64) v.toList

def readTtl (var : Option String) : Option Int :=
  var.bind fun v => parseSigned (2 ^ 63) v.toList

theorem readWindow_lt (h : readWindow var = some n) : n < 2 ^ 64 := by
  obtain ⟨v, -, h⟩ := Option.bind_eq_some_iff.mp h
  exact parseUnsigned_lt h

theorem readTtl_lt (h : readTtl var = some i) : i < 2 ^ 63 := by
  obtain ⟨v, -, h⟩ := Option.bind_eq_some_iff.mp h
  exact parseSigned_lt h (by decide)

/-- The two settings in `Config::from_env`, from `RAVN_REMEDIATION_AUTO_WINDOW_SECS` and
`RAVN_COMMAND_TTL_SECS`. -/
def fromEnv (windowVar ttlVar : Option String) : DurationConfig where
  autoWindowSecs := max ((readWindow windowVar).getD 300) 1
  commandTtlSecs := max ((readTtl ttlVar).getD 300) 1
  one_le_window := le_max_right _ _
  window_lt := by
    cases h : readWindow windowVar with
    | none => decide
    | some n => exact max_lt (readWindow_lt h) (by decide)
  one_le_ttl := le_max_right _ _
  ttl_lt := by
    cases h : readTtl ttlVar with
    | none => decide
    | some i => exact max_lt (readTtl_lt h) (by decide)

/-- Every pair of values in range is accepted. -/
theorem exists_fromEnv (cfg : DurationConfig) : ∃ windowVar ttlVar, fromEnv windowVar ttlVar = cfg := by
  refine ⟨some (toString cfg.autoWindowSecs), some (toString cfg.commandTtlSecs), ?_⟩
  have hwindow : readWindow (some (toString cfg.autoWindowSecs)) = some cfg.autoWindowSecs :=
    parseUnsigned_toString cfg.window_lt
  have httl : readTtl (some (toString cfg.commandTtlSecs)) = some cfg.commandTtlSecs :=
    parseSigned_toString (by have := cfg.one_le_ttl; omega) cfg.ttl_lt
  cases cfg with
  | mk window ttl hwindow₁ hwindow₂ httl₁ httl₂ =>
    simp only [fromEnv, hwindow, httl, Option.getD_some, max_eq_left hwindow₁, max_eq_left httl₁]

variable (cfg : DurationConfig)

/-- `Duration::from_secs(auto_window_secs)`, in nanoseconds. -/
def window : Nat := cfg.autoWindowSecs * 1000000000

/-- The engine that `main` builds. -/
def engine (policy : Policy) (autoEnabled : Bool) (maxAuto : UInt32) : PolicyEngine where
  policy := policy
  autoEnabled := autoEnabled
  maxAuto := maxAuto
  window := cfg.window

/-! ## What is to hold at a time -/

/-- `evaluate` returns, whatever the policy, the log and the call. -/
def Evaluates (now : DateTime) : Prop :=
  ∀ (policy : Policy) (autoEnabled : Bool) (maxAuto : UInt32) (hits : HitLog) (c : PolicyCall),
    c.now = now → ((cfg.engine policy autoEnabled maxAuto).evaluate hits c).isSome

/-- `build_command` returns, and a command that it builds expires after it was issued. -/
def Builds (P : Platform) (signer : P.SigningKey) (now : DateTime) : Prop :=
  ∀ (proposal : RemediationProposal) (t : Template) (approval : ApprovalRef) (fresh : Fresh),
    fresh.now = now →
      ∃ r, buildCommand P proposal t signer approval cfg.commandTtlSecs fresh = some r ∧
        ∀ env, r = .ok env → env.issuedAt < env.expiresAt

/-- What trips with this window trips with the other one, over all logs that hold at most `size` hits
for each host and template. -/
def Widens (cfg' : DurationConfig) (size : Nat) (now : DateTime) : Prop :=
  ∀ (policy : Policy) (autoEnabled : Bool) (maxAuto : UInt32) (hits : HitLog) (c : PolicyCall),
    c.now = now → (∀ key, (hits key).length ≤ size) →
      (cfg.engine policy autoEnabled maxAuto).Trips hits c →
        (cfg'.engine policy autoEnabled maxAuto).Trips hits c

/-! ## When it does -/

/-- The window is longer than chrono's longest span. -/
def TooLong : Prop := (2 ^ 63 - 1) / 1000 < cfg.autoWindowSecs

/-- The window begins at a time that chrono can represent. -/
def ReachesBack (now : DateTime) : Prop :=
  DateTime.minUtc.nanos ≤ now.nanos - cfg.window

/-- A command issued now expires at a time that chrono can represent. -/
def Lasts (now : DateTime) : Prop :=
  now.nanos + cfg.commandTtlSecs * 1000000000 ≤ DateTime.maxUtc.nanos

instance : Decidable cfg.TooLong := inferInstanceAs (Decidable (_ < _))

instance (now : DateTime) : Decidable (cfg.ReachesBack now) := inferInstanceAs (Decidable (_ ≤ _))

instance (now : DateTime) : Decidable (cfg.Lasts now) := inferInstanceAs (Decidable (_ ≤ _))

/-! ## The window -/

variable {cfg cfg' : DurationConfig} {now : DateTime} {policy : Policy} {autoEnabled : Bool}
  {maxAuto : UInt32}

theorem window_pos (cfg : DurationConfig) : 0 < cfg.window :=
  Nat.mul_pos cfg.one_le_window (by decide)

theorem windowDelta_of_tooLong (h : cfg.TooLong) :
    (cfg.engine policy autoEnabled maxAuto).windowDelta = 0 := by
  have hlarge : ¬cfg.window ≤ (2 ^ 63 - 1) * 1000000 := by
    unfold TooLong at h
    unfold window
    omega
  unfold PolicyEngine.windowDelta TimeDelta.fromStd
  rw [engine, if_neg hlarge]
  rfl

theorem windowDelta_of_not_tooLong (h : ¬cfg.TooLong) :
    (cfg.engine policy autoEnabled maxAuto).windowDelta = cfg.window := by
  have hsmall : cfg.window ≤ (2 ^ 63 - 1) * 1000000 := by
    unfold TooLong at h
    unfold window
    omega
  refine windowDelta_eq ?_
  unfold TimeDelta.fromStd
  rw [engine, if_pos hsmall]
  rfl

/-- Chrono's longest span covers all of its times. -/
theorem ReachesBack.not_tooLong (hnow : now.Representable) (h : cfg.ReachesBack now) :
    ¬cfg.TooLong := by
  have hmax := (DateTime.representable_iff.mp hnow).2
  simp only [ReachesBack, TooLong, window, DateTime.minUtc, DateTime.maxUtc] at *
  omega

/-- A window that is too long for chrono is taken as zero. -/
theorem cutoff_of_tooLong (hnow : now.Representable) (h : cfg.TooLong) :
    (cfg.engine policy autoEnabled maxAuto).cutoff now = some now := by
  rw [PolicyEngine.cutoff, windowDelta_of_tooLong h, DateTime.checkedAdd_eq_some]
  exact ⟨hnow, by omega⟩

theorem cutoff_of_reachesBack (hnow : now.Representable) (h : cfg.ReachesBack now) :
    (cfg.engine policy autoEnabled maxAuto).cutoff now = some ⟨now.nanos - cfg.window⟩ := by
  rw [PolicyEngine.cutoff, windowDelta_of_not_tooLong (h.not_tooLong hnow),
    DateTime.checkedAdd_eq_some, DateTime.representable_iff]
  have hmax := (DateTime.representable_iff.mp hnow).2
  refine ⟨⟨h, ?_⟩, ?_⟩
  · dsimp only
    omega
  · dsimp only
    omega

/-- Otherwise the subtraction panics. -/
theorem cutoff_eq_none (hlong : ¬cfg.TooLong) (hback : ¬cfg.ReachesBack now) :
    (cfg.engine policy autoEnabled maxAuto).cutoff now = none := by
  rw [Option.eq_none_iff_forall_ne_some]
  intro cut hcut
  rw [PolicyEngine.cutoff, windowDelta_of_not_tooLong hlong, DateTime.checkedAdd_eq_some,
    DateTime.representable_iff] at hcut
  obtain ⟨⟨hmin, -⟩, hnanos⟩ := hcut
  refine hback ?_
  unfold ReachesBack
  omega

/-! ## The decision -/

/-- A call is answered wherever its cutoff exists. -/
theorem evaluate_isSome {eng : PolicyEngine} (h : (eng.cutoff c.now).isSome) (hits : HitLog) :
    (eng.evaluate hits c).isSome := by
  unfold PolicyEngine.evaluate
  split
  · rfl
  split
  · simpa [PolicyEngine.tripped] using h
  · rfl

/-- A call that the sample policy answers `Auto`. -/
def safeCall (now : DateTime) : PolicyCall where
  host := "web-1"
  tier := .safe
  templateId := "failed-unit-restart"
  now := now

@[simp] theorem safeCall_now (now : DateTime) : (safeCall now).now = now := rfl

/-- The only panic is that of the cutoff. -/
theorem evaluates_iff (hnow : now.Representable) :
    cfg.Evaluates now ↔ cfg.TooLong ∨ cfg.ReachesBack now := by
  constructor
  · intro h
    by_contra hnot
    obtain ⟨hlong, hback⟩ := not_or.mp hnot
    have hcall := h PolicyEngine.sample.policy true 1 (fun _ => []) (safeCall now) rfl
    have hrule : (cfg.engine PolicyEngine.sample.policy true 1).ruleDecision (safeCall now) =
        .auto := rfl
    have hcut : (cfg.engine PolicyEngine.sample.policy true 1).cutoff (safeCall now).now = none :=
      cutoff_eq_none hlong hback
    rw [PolicyEngine.evaluate, if_neg (by simp [engine]), if_pos hrule, PolicyEngine.tripped,
      hcut] at hcall
    cases hcall
  · rintro h policy autoEnabled maxAuto hits c rfl
    apply evaluate_isSome
    rcases h with h | h
    · rw [cutoff_of_tooLong hnow h]
      rfl
    · rw [cutoff_of_reachesBack hnow h]
      rfl

/-! ## The expiry -/

theorem expiresAt_of_lasts (hnow : now.Representable) (h : cfg.Lasts now) :
    expiresAt now cfg.commandTtlSecs = some ⟨now.nanos + cfg.commandTtlSecs * 1000000000⟩ := by
  have hmin := (DateTime.representable_iff.mp hnow).1
  have hpos := cfg.one_le_ttl
  have hshort : cfg.commandTtlSecs ≤ (2 ^ 63 - 1) / 1000 := by
    simp only [Lasts, DateTime.minUtc, DateTime.maxUtc] at *
    omega
  unfold expiresAt
  rw [max_eq_left hpos]
  dsimp only
  rw [if_pos hshort, DateTime.checkedAdd_eq_some, DateTime.representable_iff]
  refine ⟨⟨?_, h⟩, rfl⟩
  dsimp only
  omega

theorem expiresAt_eq_none (h : ¬cfg.Lasts now) : expiresAt now cfg.commandTtlSecs = none := by
  unfold expiresAt
  rw [max_eq_left cfg.one_le_ttl]
  dsimp only
  split
  · rw [Option.eq_none_iff_forall_ne_some]
    intro u hu
    rw [DateTime.checkedAdd_eq_some, DateTime.representable_iff] at hu
    obtain ⟨⟨-, hmax⟩, hnanos⟩ := hu
    rw [hnanos] at hmax
    exact h hmax
  · rfl

/-- The two times of a built command. -/
theorem buildCommand_times {P : Platform} {signer : P.SigningKey}
    (h : buildCommand P proposal t signer approval ttlSecs fresh = some (.ok env)) :
    env.issuedAt = fresh.now ∧ expiresAt fresh.now ttlSecs = some env.expiresAt := by
  unfold buildCommand at h
  split at h
  · cases h
  split at h
  · cases h
  split at h
  · cases h
  obtain ⟨expires, hexpires, henv⟩ := Option.map_eq_some_iff.mp h
  cases henv
  exact ⟨rfl, hexpires⟩

/-- The sample template without its step, so that nothing is rendered. -/
def bareTemplate : Template :=
  { TemplateRegistry.sampleTemplate 1 "exit-code" (.restartUnit "nginx.service") with steps := [] }

def bareProposal (now : DateTime) : RemediationProposal :=
  buildProposal bareTemplate TemplateRegistry.sampleEvent .empty ⟨5⟩ now

theorem buildCommand_bare (P : Platform) (signer : P.SigningKey) (fresh : Fresh)
    (h : expiresAt fresh.now ttlSecs = none) :
    buildCommand P (bareProposal fresh.now) bareTemplate signer .policyAuto ttlSecs fresh = none := by
  change (expiresAt fresh.now ttlSecs).map _ = none
  rw [h]
  rfl

/-- The only panic is that of the expiry, which is otherwise later than the issue. -/
theorem builds_iff (P : Platform) (signer : P.SigningKey) (hnow : now.Representable) :
    cfg.Builds P signer now ↔ cfg.Lasts now := by
  constructor
  · intro h
    by_contra hlasts
    obtain ⟨r, hr, -⟩ := h (bareProposal now) bareTemplate .policyAuto ⟨now, ⟨21⟩, ⟨22⟩⟩ rfl
    rw [buildCommand_bare P signer ⟨now, ⟨21⟩, ⟨22⟩⟩ (expiresAt_eq_none hlasts)] at hr
    cases hr
  · rintro hlasts proposal t approval fresh rfl
    have hexpires := expiresAt_of_lasts hnow hlasts
    obtain ⟨e, he, -⟩ | ⟨env, henv⟩ | ⟨-, hnone⟩ :=
      buildCommand_cases P proposal t signer approval cfg.commandTtlSecs fresh
    · refine ⟨_, he, ?_⟩
      intro env henv
      cases henv
    · refine ⟨_, henv, ?_⟩
      intro _ hok
      cases hok
      obtain ⟨hissued, hsome⟩ := buildCommand_times henv
      have hpos := cfg.one_le_ttl
      rw [hissued, ← Option.some.inj (hexpires.symm.trans hsome), DateTime.lt_def]
      dsimp only
      omega
    · rw [hexpires] at hnone
      cases hnone

/-! ## A wider window -/

theorem trips_iff {eng : PolicyEngine} (hcut : eng.cutoff c.now = some cut) :
    eng.Trips hits c ↔ eng.maxAuto ≤ UInt32.ofNat ((hits c.key).countP (cut < ·)) := by
  unfold PolicyEngine.Trips PolicyEngine.tripped
  simp [hcut, List.countP_eq_length_filter]

theorem ofNat_le_ofNat (h : m ≤ n) (hn : n < UInt32.size) : UInt32.ofNat m ≤ UInt32.ofNat n := by
  rw [UInt32.le_iff_toNat_le, UInt32.toNat_ofNat_of_lt' hn,
    UInt32.toNat_ofNat_of_lt' (Nat.lt_of_le_of_lt h hn)]
  exact h

/-- The wider window begins no later. -/
theorem start_le (hle : cfg.autoWindowSecs ≤ cfg'.autoWindowSecs) (now : DateTime) :
    now.nanos - cfg'.window ≤ now.nanos - cfg.window :=
  Int.sub_le_sub_left (Int.ofNat_le.mpr (Nat.mul_le_mul_right _ hle)) _

theorem start_lt (hlt : cfg.autoWindowSecs < cfg'.autoWindowSecs) (now : DateTime) :
    now.nanos - cfg'.window < now.nanos - cfg.window :=
  Int.sub_lt_sub_left (Int.ofNat_lt.mpr (Nat.mul_lt_mul_of_pos_right hlt (by decide))) _

theorem ReachesBack.of_le (hle : cfg.autoWindowSecs ≤ cfg'.autoWindowSecs)
    (h : cfg'.ReachesBack now) : cfg.ReachesBack now :=
  Int.le_trans h (start_le hle now)

/-- An earlier cutoff counts no fewer hits, and the count fits 32 bits. -/
theorem widens_of_reachesBack (hnow : now.Representable)
    (hle : cfg.autoWindowSecs ≤ cfg'.autoWindowSecs) (hback : cfg'.ReachesBack now)
    (hsize : size < 2 ^ 32) : cfg.Widens cfg' size now := by
  rintro policy autoEnabled maxAuto hits c rfl hhits htrips
  rw [trips_iff (cutoff_of_reachesBack hnow (hback.of_le hle))] at htrips
  rw [trips_iff (cutoff_of_reachesBack hnow hback)]
  refine UInt32.le_trans htrips (ofNat_le_ofNat ?_ ?_)
  · apply List.countP_mono_left
    intro t _ ht
    simp only [decide_eq_true_eq, DateTime.lt_def] at ht ⊢
    exact Int.lt_of_le_of_lt (start_le hle c.now) ht
  · exact Nat.lt_of_le_of_lt ((List.countP_le_length).trans (hhits c.key)) hsize

theorem widens_of_eq (h : cfg.autoWindowSecs = cfg'.autoWindowSecs) : cfg.Widens cfg' size now := by
  intro policy autoEnabled maxAuto hits c _ _ htrips
  have hengine : cfg'.engine policy autoEnabled maxAuto = cfg.engine policy autoEnabled maxAuto := by
    unfold engine window
    rw [h]
  rw [hengine]
  exact htrips

/-- Both windows are taken as zero. -/
theorem widens_of_tooLong (hnow : now.Representable)
    (hle : cfg.autoWindowSecs ≤ cfg'.autoWindowSecs) (hlong : cfg.TooLong) :
    cfg.Widens cfg' size now := by
  rintro policy autoEnabled maxAuto hits c rfl _ htrips
  have hlong' : cfg'.TooLong := Nat.lt_of_lt_of_le hlong hle
  rw [trips_iff (cutoff_of_tooLong hnow hlong)] at htrips
  rw [trips_iff (cutoff_of_tooLong hnow hlong')]
  exact htrips

/-- One hit now, and `n` at the moment at which the window of `cfg` begins. -/
def crowd (cfg : DurationConfig) (n : Nat) (now : DateTime) : HitLog :=
  fun _ => now :: List.replicate n ⟨now.nanos - cfg.window⟩

theorem countP_crowd_inside (cfg : DurationConfig) (n : Nat) (now : DateTime)
    (key : String × String) :
    (cfg.crowd n now key).countP ((⟨now.nanos - cfg.window⟩ : DateTime) < ·) = 1 := by
  have hpos := cfg.window_pos
  have hnow : (⟨now.nanos - cfg.window⟩ : DateTime) < now := by
    rw [DateTime.lt_def]
    dsimp only
    omega
  rw [crowd, List.countP_cons_of_pos (by simpa using hnow), List.countP_replicate]
  simp

theorem countP_crowd_outside {cut : DateTime} (h : cut.nanos < now.nanos - cfg.window)
    (n : Nat) (key : String × String) : (cfg.crowd n now key).countP (cut < ·) = n + 1 := by
  have hstart : cut < (⟨now.nanos - cfg.window⟩ : DateTime) := DateTime.lt_def.mpr h
  have hnow : cut < now := by
    rw [DateTime.lt_def]
    omega
  rw [crowd, List.countP_cons_of_pos (by simpa using hnow), List.countP_replicate,
    if_pos (by simpa using hstart)]

theorem trips_crowd (hnow : now.Representable) (hback : cfg.ReachesBack now) (n : Nat) :
    (cfg.engine policy autoEnabled 1).Trips (cfg.crowd n now) (safeCall now) := by
  rw [trips_iff (cutoff_of_reachesBack hnow hback), safeCall_now, countP_crowd_inside]
  exact UInt32.le_refl 1

/-- A window that is too long for chrono counts nothing: the breaker is off. -/
theorem not_widens_of_tooLong (hnow : now.Representable) (hback : cfg.ReachesBack now)
    (hlong : cfg'.TooLong) (hsize : 0 < size) : ¬cfg.Widens cfg' size now := by
  intro h
  have htrips := h PolicyEngine.sample.policy true 1 (cfg.crowd 0 now) (safeCall now) rfl
    (fun _ => hsize) (trips_crowd hnow hback 0)
  rw [trips_iff (cutoff_of_tooLong hnow hlong), safeCall_now] at htrips
  have hcount : (cfg.crowd 0 now (safeCall now).key).countP (now < ·) = 0 := by simp [crowd]
  rw [hcount] at htrips
  exact absurd htrips (by decide : ¬(1 : UInt32) ≤ UInt32.ofNat 0)

/-- With `2 ^ 32` hits in the window the count, truncated to 32 bits, is zero. -/
theorem not_widens_of_crowd (hnow : now.Representable)
    (hlt : cfg.autoWindowSecs < cfg'.autoWindowSecs) (hback : cfg'.ReachesBack now)
    (hsize : 2 ^ 32 ≤ size) : ¬cfg.Widens cfg' size now := by
  intro h
  obtain ⟨n, hn⟩ : ∃ n, n + 1 = 2 ^ 32 := ⟨2 ^ 32 - 1, rfl⟩
  have hlength : ∀ key, (cfg.crowd n now key).length ≤ size := by
    intro key
    rw [crowd, List.length_cons, List.length_replicate, hn]
    exact hsize
  have htrips := h PolicyEngine.sample.policy true 1 (cfg.crowd n now) (safeCall now) rfl hlength
    (trips_crowd hnow (hback.of_le hlt.le) n)
  rw [trips_iff (cutoff_of_reachesBack hnow hback), safeCall_now,
    countP_crowd_outside (start_lt hlt now), hn] at htrips
  exact absurd htrips (by decide : ¬(1 : UInt32) ≤ UInt32.ofNat (2 ^ 32))

/-- Where both windows evaluate, the wider one trips whenever the narrower one does if and only if the
wider one is no longer than chrono's times, with logs that 32 bits count, or both are taken as zero. -/
theorem widens_iff (hnow : now.Representable) (hle : cfg.autoWindowSecs ≤ cfg'.autoWindowSecs)
    (hsize : 0 < size) (heval : cfg.TooLong ∨ cfg.ReachesBack now)
    (heval' : cfg'.TooLong ∨ cfg'.ReachesBack now) :
    cfg.Widens cfg' size now ↔
      cfg'.ReachesBack now ∧ (size < 2 ^ 32 ∨ cfg.autoWindowSecs = cfg'.autoWindowSecs) ∨
        cfg.TooLong := by
  constructor
  · intro h
    by_contra hnot
    rw [not_or] at hnot
    have hback := heval.resolve_left hnot.2
    rcases heval' with hlong' | hback'
    · exact not_widens_of_tooLong hnow hback hlong' hsize h
    · rw [not_and, not_or] at hnot
      obtain ⟨hlarge, hne⟩ := hnot.1 hback'
      exact not_widens_of_crowd hnow (Nat.lt_of_le_of_ne hle hne) hback' (Nat.le_of_not_lt hlarge) h
  · rintro (⟨hback, hsmall | heq⟩ | hlong)
    · exact widens_of_reachesBack hnow hle hback hsmall
    · exact widens_of_eq heq
    · exact widens_of_tooLong hnow hle hlong

/-- For two configurations with windows in order, at any time, `evaluate` and `build_command` return,
commands expire after they are issued and the breaker is monotone in the window, if and only if chrono
can represent when a command expires, and either it can represent when the wider window begins, with
logs of fewer than `2 ^ 32` hits or one window, or both windows are too long for it. -/
theorem durations_safe_iff (P : Platform) (signer : P.SigningKey) (now : DateTime)
    (hnow : now.Representable) (cfg cfg' : DurationConfig)
    (hle : cfg.autoWindowSecs ≤ cfg'.autoWindowSecs) (size : Nat) (hsize : 0 < size) :
    ((cfg.Evaluates now ∧ cfg'.Evaluates now) ∧
      (cfg.Builds P signer now ∧ cfg'.Builds P signer now) ∧ cfg.Widens cfg' size now) ↔
    (cfg.Lasts now ∧ cfg'.Lasts now) ∧
      (cfg'.ReachesBack now ∧ (size < 2 ^ 32 ∨ cfg.autoWindowSecs = cfg'.autoWindowSecs) ∨
        cfg.TooLong) := by
  rw [evaluates_iff hnow, evaluates_iff hnow, builds_iff P signer hnow, builds_iff P signer hnow]
  constructor
  · rintro ⟨⟨heval, heval'⟩, hlasts, hwidens⟩
    exact ⟨hlasts, (widens_iff hnow hle hsize heval heval').mp hwidens⟩
  · rintro ⟨hlasts, hwindow⟩
    have hboth : (cfg.TooLong ∨ cfg.ReachesBack now) ∧ (cfg'.TooLong ∨ cfg'.ReachesBack now) := by
      rcases hwindow with ⟨hback, -⟩ | hlong
      · exact ⟨.inr (hback.of_le hle), .inr hback⟩
      · exact ⟨.inl hlong, .inl (Nat.lt_of_lt_of_le hlong hle)⟩
    exact ⟨hboth, hlasts, (widens_iff hnow hle hsize hboth.1 hboth.2).mpr hwindow⟩

/-! ## Settings that are too large -/

open Platform

/-- Five minutes for both, and then an hour and a quarter of an hour. -/
theorem durations_safe_iff_sample :
    (fromEnv none none).Evaluates noon ∧ (fromEnv (some "3600") (some "900")).Builds sample 7 noon ∧
      (fromEnv none none).Widens (fromEnv (some "3600") (some "900")) 1000 noon := by
  have h := (durations_safe_iff sample (7 : UInt8) noon (by decide) (fromEnv none none)
    (fromEnv (some "3600") (some "900")) (by decide) 1000 (by decide)).mpr
    ⟨⟨by decide, by decide⟩, .inl ⟨by decide, .inl (by decide)⟩⟩
  exact ⟨h.1.1, h.2.1.2, h.2.2⟩

/-- A window of about 300000 years crashes `evaluate`, and so does such a lifetime `build_command`; a
window that chrono cannot hold turns the breaker off, and a log of `2 ^ 32` hits counts as empty. -/
theorem long_durations_unsafe :
    ¬(fromEnv (some "10000000000000") none).Evaluates noon ∧
      ¬(fromEnv none (some "10000000000000")).Builds sample 7 noon ∧
      ¬(fromEnv none none).Widens (fromEnv (some "9223372036854776") none) 1 noon ∧
      ¬(fromEnv none none).Widens (fromEnv (some "600") none) (2 ^ 32) noon := by
  have hnow : noon.Representable := by decide
  refine ⟨?_, ?_, ?_, ?_⟩
  · rw [evaluates_iff hnow]
    decide
  · rw [builds_iff sample 7 hnow]
    decide
  · exact not_widens_of_tooLong hnow (by decide) (by decide) (by decide)
  · exact not_widens_of_crowd hnow (by decide) (by decide) le_rfl

end DurationConfig

end Ravn
