/-! A rate limiter over a sliding window. `recent x y` says that something admitted at `y` still counts
at `x`. If at every admission fewer than `n` earlier ones still count, then no set of times whose
members all count for one another holds more than `n` admissions. -/

namespace Ravn.Theory

variable {τ : Type u} {recent : τ → τ → Bool}

/-- A list of admission times, the last one last, each admitted while fewer than `n` of the earlier
ones were recent. -/
inductive Limited (recent : τ → τ → Bool) (n : Nat) : List τ → Prop
  | nil : Limited recent n []
  | snoc : Limited recent n times → times.countP (recent x) < n → Limited recent n (times ++ [x])

theorem Limited.countP_le {S : τ → Bool} (hS : ∀ x y, S x → S y → recent x y)
    (h : Limited recent n times) : times.countP S ≤ n := by
  induction h with
  | nil => exact Nat.zero_le n
  | snoc _ hlt ih =>
    rename_i times x _
    rw [List.countP_append, List.countP_singleton]
    split
    · rename_i hx
      -- Whatever of the set came before is still recent at `x`.
      have hle : times.countP S ≤ times.countP (recent x) :=
        List.countP_mono_left fun y _ hy => hS x y hx hy
      omega
    · exact ih

/-- Dropping what has aged out loses nothing that a later, stricter look would count. -/
theorem filter_filter_of_imp {p q : τ → Bool} (h : ∀ a, q a → p a) (l : List τ) :
    (l.filter p).filter q = l.filter q := by
  rw [List.filter_filter]
  apply List.filter_congr
  intro a _
  cases hq : q a with
  | true => simp [h a hq]
  | false => simp

end Ravn.Theory
