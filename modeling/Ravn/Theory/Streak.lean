import Ravn.Theory.Transition

/-! Runs whose labels are good or bad, by how many bad ones in a row they end with. What is known of
the states after such a streak is found one label at a time. -/

namespace Ravn.Theory

variable {σ : Type u} {ℓ : Type v} (step : σ → ℓ → Option σ) (bad : ℓ → Bool)

/-- The number of bad labels in a row at the end. -/
def streak (ls : List ℓ) : Nat := (ls.reverse.takeWhile bad).length

/-- A state that a run ending with `n` bad labels leads to. -/
def AfterStreak (s : σ) (n : Nat) (t : σ) : Prop :=
  ∃ ls, run step s ls = some t ∧ streak bad ls = n

variable {step bad}

theorem streak_snoc_of_bad (ls : List ℓ) (h : bad l = true) :
    streak bad (ls ++ [l]) = streak bad ls + 1 := by
  rw [streak, List.reverse_append, List.reverse_singleton, List.singleton_append,
    List.takeWhile_cons_of_pos h, List.length_cons, streak]

theorem streak_snoc_of_good (ls : List ℓ) (h : bad l = false) : streak bad (ls ++ [l]) = 0 := by
  rw [streak, List.reverse_append, List.reverse_singleton, List.singleton_append,
    List.takeWhile_cons_of_neg (by simp [h]), List.length_nil]

theorem AfterStreak.refl (s : σ) : AfterStreak step bad s 0 s := ⟨[], rfl, rfl⟩

theorem AfterStreak.snoc_bad (h : AfterStreak step bad s n t) (hl : bad l = true)
    (hstep : step t l = some t') : AfterStreak step bad s (n + 1) t' := by
  obtain ⟨ls, hrun, rfl⟩ := h
  refine ⟨ls ++ [l], run_append_eq_some.mpr ⟨t, hrun, ?_⟩, streak_snoc_of_bad ls hl⟩
  exact run_cons_eq_some.mpr ⟨t', hstep, rfl⟩

/-- A good label starts over and a bad one counts: what both keep holds after every streak. -/
theorem AfterStreak.invariant {I : Nat → σ → Prop} (h : AfterStreak step bad s n t) (hs : I 0 s)
    (hgood : ∀ {n s l s'}, I n s → bad l = false → step s l = some s' → I 0 s')
    (hbad : ∀ {n s l s'}, I n s → bad l = true → step s l = some s' → I (n + 1) s') : I n t := by
  obtain ⟨ls, hrun, rfl⟩ := h
  refine run_history (I := fun ls t => I (streak bad ls) t) ?_ hrun hs
  intro ls m l m' _ hI hstep
  cases hl : bad l with
  | true => exact streak_snoc_of_bad ls hl ▸ hbad hI hl hstep
  | false => exact streak_snoc_of_good ls hl ▸ hgood hI hl hstep

/-- As long as a bad label can follow, streaks of every length up to `N` are met. -/
theorem exists_afterStreak {J : Nat → σ → Prop} {N : Nat} (hs : J 0 s)
    (hnext : ∀ {n s}, n < N → J n s → ∃ l s', bad l = true ∧ step s l = some s' ∧ J (n + 1) s') :
    ∀ n ≤ N, ∃ t, AfterStreak step bad s n t ∧ J n t := by
  intro n
  induction n with
  | zero => exact fun _ => ⟨s, .refl s, hs⟩
  | succ n ih =>
    intro hn
    obtain ⟨t, ht, hJ⟩ := ih (Nat.le_of_succ_le hn)
    obtain ⟨l, t', hl, hstep, hJ'⟩ := hnext hn hJ
    exact ⟨t', ht.snoc_bad hl hstep, hJ'⟩

end Ravn.Theory
