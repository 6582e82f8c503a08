import Mathlib.Data.List.Perm.Basic

/-! The first element of a list that meets a condition, when the order of the list is not fixed, and the
last one of a list that grows. -/

namespace Ravn.Theory

variable {α : Type u} {p : α → Bool} {l l' : List α}

/-- All elements that meet the condition are the same. -/
def UniqueMatch (p : α → Bool) (l : List α) : Prop :=
  ∀ a ∈ l, ∀ b ∈ l, p a = true → p b = true → a = b

theorem UniqueMatch.find?_eq_some (h : UniqueMatch p l) :
    l.find? p = some a ↔ a ∈ l ∧ p a = true := by
  constructor
  · exact fun hfind => ⟨List.mem_of_find?_eq_some hfind, List.find?_some hfind⟩
  · rintro ⟨ha, hp⟩
    obtain ⟨b, hb⟩ := Option.isSome_iff_exists.mp (List.find?_isSome.mpr ⟨a, ha, hp⟩)
    rw [hb, h a ha b (List.mem_of_find?_eq_some hb) hp (List.find?_some hb)]

theorem UniqueMatch.perm (h : UniqueMatch p l) (hperm : l.Perm l') : UniqueMatch p l' :=
  fun a ha b hb => h a (hperm.mem_iff.mpr ha) b (hperm.mem_iff.mpr hb)

theorem UniqueMatch.find?_perm (h : UniqueMatch p l) (hperm : l.Perm l') :
    l.find? p = l'.find? p := by
  apply Option.ext
  intro a
  rw [h.find?_eq_some, (h.perm hperm).find?_eq_some, hperm.mem_iff]

/-- The first match among what a list is mapped to is the same in every order of the list exactly when
there is only one. -/
theorem uniqueMatch_iff_find?_perm {β : Type v} {f : β → Option α} {l : List β} :
    UniqueMatch p (l.filterMap f) ↔ ∀ order order', l.Perm order → l.Perm order' →
      (order.filterMap f).find? p = (order'.filterMap f).find? p := by
  constructor
  · intro h order order' hperm hperm'
    rw [← h.find?_perm (hperm.filterMap f), ← h.find?_perm (hperm'.filterMap f)]
  · intro h a ha b hb hp hp'
    -- Whatever two matches there are, each comes first in some order.
    have hfirst : ∀ {a}, a ∈ l.filterMap f → p a = true →
        ∃ order, l.Perm order ∧ (order.filterMap f).find? p = some a := by
      intro a ha hp
      obtain ⟨x, hx, hfx⟩ := List.mem_filterMap.mp ha
      obtain ⟨before, after, rfl⟩ := List.append_of_mem hx
      refine ⟨x :: (before ++ after), List.perm_middle, ?_⟩
      rw [List.filterMap_cons_some hfx, List.find?_cons_of_pos hp]
    obtain ⟨order, hperm, hfind⟩ := hfirst ha hp
    obtain ⟨order', hperm', hfind'⟩ := hfirst hb hp'
    exact Option.some.inj (hfind.symm.trans ((h order order' hperm hperm').trans hfind'))

/-- The last member of a list with a property. -/
def lastWhere (p : α → Bool) (l : List α) : Option α := (l.filter p).getLast?

@[simp] theorem lastWhere_nil (p : α → Bool) : lastWhere p [] = none := rfl

theorem lastWhere_snoc (p : α → Bool) (l : List α) (a : α) :
    lastWhere p (l ++ [a]) = if p a then some a else lastWhere p l := by
  unfold lastWhere
  cases h : p a with
  | true => simp [h]
  | false => simp [h]

theorem of_lastWhere (h : lastWhere p l = some a) : a ∈ l ∧ p a = true :=
  List.mem_filter.mp (List.mem_of_getLast? h)

end Ravn.Theory
