import Mathlib.Order.Basic
import Mathlib.Data.Nat.Find

/-! Alarms for conditions that last. A condition is observed again and again, at a time each, and is
up or not. Its episodes are the runs of observations at which it is up. The alarm goes off at the
first observation of an episode that is due, counted from the time of the first one, and not again
before the condition has been seen down (`firesAt_iff`, `Episode.existsUnique_fires`). -/

namespace Ravn.Theory

variable {τ : Type u}

/-- What is remembered of a condition. -/
inductive Phase (τ : Type u) where
  | clear
  /-- The condition is up since a time, and the alarm has not gone off. -/
  | waiting (since : τ)
  /-- The alarm has gone off. -/
  | reported

section

variable (due : τ → τ → Bool)

/-- The condition is up since a time, now. The alarm goes off as soon as it is due. -/
def Phase.wait (since now : τ) : Phase τ × Bool :=
  if due since now then (reported, true) else (waiting since, false)

/-- One observation, and whether the alarm goes off at it. -/
def Phase.observe (up : Bool) (now : τ) : Phase τ → Phase τ × Bool
  | clear => if up then wait due now now else (clear, false)
  | waiting since => if up then wait due since now else (clear, false)
  | reported => if up then (reported, false) else (clear, false)

variable (up : Nat → Bool) (now : Nat → τ)

/-- What is remembered before the `n`-th observation. -/
def phaseAt : Nat → Phase τ
  | 0 => .clear
  | n + 1 => ((phaseAt n).observe due (up n) (now n)).1

/-- The alarm goes off at the `n`-th observation. -/
def firesAt (n : Nat) : Bool := ((phaseAt due up now n).observe due (up n) (now n)).2

end

/-- The condition is up from observation `i` to observation `k`, and was not before `i`. -/
structure Episode (up : Nat → Bool) (i k : Nat) : Prop where
  le : i ≤ k
  lasts : ∀ j, i ≤ j → j ≤ k → up j = true
  starts : ∀ j, j + 1 = i → up j = false

namespace Episode

variable {up : Nat → Bool}

/-- An episode that ends at a later observation has started already. -/
theorem restrict (h : Episode up i k) (hij : i ≤ j) (hjk : j ≤ k) : Episode up i j where
  le := hij
  lasts l hil hlj := h.lasts l hil (hlj.trans hjk)
  starts := h.starts

theorem extend (h : Episode up i k) (hup : up (k + 1) = true) : Episode up i (k + 1) where
  le := h.le.trans k.le_succ
  lasts j hij hjk := by
    rcases Nat.le_succ_iff.mp hjk with hjk | rfl
    · exact h.lasts j hij hjk
    · exact hup
  starts := h.starts

/-- The observation before the start of an episode belongs to no episode. -/
theorem start_le (h : Episode up i k) (h' : Episode up i' k) : i ≤ i' := by
  by_contra hlt
  obtain ⟨j, rfl⟩ : ∃ j, i = j + 1 := ⟨i - 1, by omega⟩
  have hdown := h.starts j rfl
  have hup := h'.lasts j (by omega) (j.le_succ.trans h.le)
  rw [hdown] at hup
  cases hup

theorem start_unique (h : Episode up i k) (h' : Episode up i' k) : i = i' :=
  Nat.le_antisymm (h.start_le h') (h'.start_le h)

end Episode

section

variable {due : τ → τ → Bool} {up : Nat → Bool} {now : Nat → τ}

/-! ## What is remembered -/

theorem Phase.wait_cases (due : τ → τ → Bool) (since now : τ) :
    (due since now = true ∧ wait due since now = (reported, true)) ∨
      (due since now = false ∧ wait due since now = (waiting since, false)) := by
  unfold wait
  cases h : due since now with
  | true => exact .inl ⟨rfl, if_pos rfl⟩
  | false => exact .inr ⟨rfl, if_neg Bool.false_ne_true⟩

@[simp] theorem Phase.observe_down (p : Phase τ) (now : τ) :
    p.observe due false now = (clear, false) := by
  cases p <;> rfl

@[simp] theorem Phase.observe_clear (now : τ) :
    clear.observe due true now = wait due now now := rfl

@[simp] theorem Phase.observe_waiting (since now : τ) :
    (waiting since).observe due true now = wait due since now := rfl

@[simp] theorem Phase.observe_reported (now : τ) :
    reported.observe due true now = (reported, false) := rfl

/-- What is remembered before observation `n` tells how the episode before it has gone: that there is
none, or when it started, or that the alarm went off in it. -/
def Phase.Tells (due : τ → τ → Bool) (up : Nat → Bool) (now : Nat → τ) (n : Nat) : Phase τ → Prop
  | clear => ∀ j, j + 1 = n → up j = false
  | waiting since => ∃ i k, k + 1 = n ∧ Episode up i k ∧ since = now i ∧
      ∀ j, i ≤ j → j ≤ k → firesAt due up now j = false
  | reported => ∃ i k, k + 1 = n ∧ Episode up i k ∧
      ∃ j, i ≤ j ∧ j ≤ k ∧ firesAt due up now j = true

/-- An alarm that has waited since the start of the episode. -/
theorem Phase.tells_wait (h : Episode up i n)
    (hquiet : ∀ j, i ≤ j → j < n → firesAt due up now j = false)
    (hobserve : (phaseAt due up now n).observe due (up n) (now n) = wait due (now i) (now n)) :
    (wait due (now i) (now n)).1.Tells due up now (n + 1) := by
  have hfires : firesAt due up now n = (wait due (now i) (now n)).2 := congrArg Prod.snd hobserve
  obtain ⟨-, hwait⟩ | ⟨-, hwait⟩ := wait_cases due (now i) (now n)
  · rw [hwait] at hfires ⊢
    exact ⟨i, n, rfl, h, n, h.le, Nat.le_refl n, hfires⟩
  · rw [hwait] at hfires ⊢
    refine ⟨i, n, rfl, h, rfl, fun j hij hjn => ?_⟩
    rcases Nat.lt_or_eq_of_le hjn with hjn | rfl
    · exact hquiet j hij hjn
    · exact hfires

theorem phaseAt_tells (n : Nat) : (phaseAt due up now n).Tells due up now n := by
  induction n with
  | zero => exact fun _ h => nomatch h
  | succ n ih =>
    change ((phaseAt due up now n).observe due (up n) (now n)).1.Tells due up now (n + 1)
    cases hup : up n with
    | false =>
      rw [Phase.observe_down]
      intro j hj
      cases hj
      exact hup
    | true =>
      cases hphase : phaseAt due up now n with
      | clear =>
        rw [hphase] at ih
        have hepisode : Episode up n n :=
          ⟨Nat.le_refl n, fun j hnj hjn => Nat.le_antisymm hjn hnj ▸ hup, ih⟩
        refine Phase.tells_wait hepisode (fun j hnj hjn => absurd hjn (Nat.not_lt.mpr hnj)) ?_
        rw [hphase, hup, Phase.observe_clear]
      | waiting since =>
        rw [hphase] at ih
        obtain ⟨i, k, rfl, hepisode, rfl, hquiet⟩ := ih
        refine Phase.tells_wait (hepisode.extend hup)
          (fun j hij hjk => hquiet j hij (Nat.le_of_lt_succ hjk)) ?_
        rw [hphase, hup, Phase.observe_waiting]
      | reported =>
        rw [hphase] at ih
        obtain ⟨i, k, rfl, hepisode, j, hij, hjk, hfires⟩ := ih
        exact ⟨i, k + 1, rfl, hepisode.extend hup, j, hij, hjk.trans k.le_succ, hfires⟩

/-! ## When the alarm goes off -/

/-- No alarm without the condition. -/
theorem firesAt_up (h : firesAt due up now k = true) : up k = true := by
  cases hup : up k with
  | true => rfl
  | false =>
    rw [firesAt, hup, Phase.observe_down] at h
    cases h

theorem Phase.wait_fires (since now : τ) : (wait due since now).2 = due since now := by
  obtain ⟨hdue, hwait⟩ | ⟨hdue, hwait⟩ := wait_cases due since now
  · rw [hwait, hdue]
  · rw [hwait, hdue]

/-- In an episode without an alarm so far, the alarm goes off when it is due. -/
theorem Episode.firesAt_eq (h : Episode up i k)
    (hquiet : ∀ j, i ≤ j → j < k → firesAt due up now j = false) :
    firesAt due up now k = due (now i) (now k) := by
  have hup := h.lasts k h.le (Nat.le_refl k)
  have htells : (phaseAt due up now k).Tells due up now k := phaseAt_tells k
  cases hphase : phaseAt due up now k with
  | clear =>
    rw [hphase] at htells
    have hstart : Episode up k k :=
      ⟨Nat.le_refl k, fun j hkj hjk => Nat.le_antisymm hjk hkj ▸ hup, htells⟩
    obtain rfl := h.start_unique hstart
    rw [firesAt, hphase, hup, Phase.observe_clear, Phase.wait_fires]
  | waiting since =>
    rw [hphase] at htells
    obtain ⟨i', k', rfl, hepisode, rfl, -⟩ := htells
    obtain rfl := h.start_unique (hepisode.extend hup)
    rw [firesAt, hphase, hup, Phase.observe_waiting, Phase.wait_fires]
  | reported =>
    rw [hphase] at htells
    obtain ⟨i', k', rfl, hepisode, j, hij, hjk, hfires⟩ := htells
    obtain rfl := h.start_unique (hepisode.extend hup)
    rw [hquiet j hij (Nat.lt_succ_of_le hjk)] at hfires
    cases hfires

/-- Within an episode the alarm goes off once at most. -/
theorem Episode.not_fires_again (h : Episode up i k) (hij : i ≤ j) (hjk : j < k)
    (hfires : firesAt due up now j = true) : firesAt due up now k = false := by
  have hup := h.lasts k h.le (Nat.le_refl k)
  -- What is remembered cannot be that it has not gone off.
  have htells : (phaseAt due up now k).Tells due up now k := phaseAt_tells k
  cases hphase : phaseAt due up now k with
  | clear =>
    rw [hphase] at htells
    have hdown := htells (k - 1) (by omega)
    rw [h.lasts (k - 1) (by omega) (by omega)] at hdown
    cases hdown
  | waiting since =>
    rw [hphase] at htells
    obtain ⟨i', k', rfl, hepisode, -, hquiet⟩ := htells
    obtain rfl := h.start_unique (hepisode.extend hup)
    rw [hquiet j hij (Nat.le_of_lt_succ hjk)] at hfires
    cases hfires
  | reported => rw [firesAt, hphase, hup, Phase.observe_reported]

/-- An observation at which the condition is up is in an episode. -/
theorem exists_episode (hup : up k = true) : ∃ i, Episode up i k := by
  induction k with
  | zero =>
    refine ⟨0, Nat.le_refl 0, fun j _ hj => ?_, fun _ h => nomatch h⟩
    rw [Nat.le_zero.mp hj]
    exact hup
  | succ k ih =>
    cases hbefore : up k with
    | true =>
      obtain ⟨i, hepisode⟩ := ih hbefore
      exact ⟨i, hepisode.extend hup⟩
    | false =>
      refine ⟨k + 1, Nat.le_refl _, fun j hkj hjk => ?_, fun j hj => ?_⟩
      · rw [← Nat.le_antisymm hkj hjk]
        exact hup
      · cases hj
        exact hbefore

/-- The alarm goes off at an observation exactly if it is due since the start of the episode and has
not gone off in it. -/
theorem firesAt_iff :
    firesAt due up now k = true ↔
      ∃ i, Episode up i k ∧ due (now i) (now k) = true ∧
        ∀ j, i ≤ j → j < k → firesAt due up now j = false := by
  constructor
  · intro hfires
    obtain ⟨i, hepisode⟩ := exists_episode (firesAt_up hfires)
    have hquiet : ∀ j, i ≤ j → j < k → firesAt due up now j = false := by
      intro j hij hjk
      by_contra hj
      rw [hepisode.not_fires_again hij hjk (eq_true_of_ne_false hj)] at hfires
      cases hfires
    exact ⟨i, hepisode, hepisode.firesAt_eq hquiet ▸ hfires, hquiet⟩
  · rintro ⟨i, hepisode, hdue, hquiet⟩
    rw [hepisode.firesAt_eq hquiet]
    exact hdue

/-! ## Whole episodes -/

/-- An episode in which the alarm gets due has exactly one. -/
theorem Episode.existsUnique_fires (h : Episode up i m)
    (hdue : ∃ j, i ≤ j ∧ j ≤ m ∧ due (now i) (now j) = true) :
    ∃! k, i ≤ k ∧ k ≤ m ∧ firesAt due up now k = true := by
  -- The first observation that is due.
  let k := Nat.find hdue
  obtain ⟨hik, hkm, hk⟩ := Nat.find_spec hdue
  have hquiet : ∀ j, i ≤ j → j < k → firesAt due up now j = false := by
    intro j hij hjk
    by_contra hj
    obtain ⟨i', hepisode, hduej, -⟩ := firesAt_iff.mp (eq_true_of_ne_false hj)
    have hjm : j ≤ m := hjk.le.trans hkm
    obtain rfl := (h.restrict hij hjm).start_unique hepisode
    exact Nat.find_min hdue hjk ⟨hij, hjm, hduej⟩
  have hfires : firesAt due up now k = true := by
    rw [(h.restrict hik hkm).firesAt_eq hquiet]
    exact hk
  refine ⟨k, ⟨hik, hkm, hfires⟩, ?_⟩
  rintro l ⟨hil, hlm, hl⟩
  rcases Nat.lt_trichotomy l k with hlt | heq | hgt
  · rw [hquiet l hil hlt] at hl
    cases hl
  · exact heq
  · rw [(h.restrict hil hlm).not_fires_again hik hgt hfires] at hl
    cases hl

/-- An episode in which the alarm never gets due has none. -/
theorem Episode.not_fires (h : Episode up i m)
    (hdue : ¬∃ j, i ≤ j ∧ j ≤ m ∧ due (now i) (now j) = true) (hik : i ≤ k) (hkm : k ≤ m) :
    firesAt due up now k = false := by
  by_contra hk
  obtain ⟨i', hepisode, hduek, -⟩ := firesAt_iff.mp (eq_true_of_ne_false hk)
  obtain rfl := (h.restrict hik hkm).start_unique hepisode
  exact hdue ⟨k, hik, hkm, hduek⟩

end

end Ravn.Theory
