import Mathlib.Data.List.Forall2

/-! What a computation that may fail has done when it succeeds, and where it failed. -/

namespace Ravn.Theory

variable {ε : Type u} {α β : Type v}

theorem bind_eq_ok {x : Except ε α} {f : α → Except ε β} (h : (x >>= f) = .ok b) :
    ∃ a, x = .ok a ∧ f a = .ok b := by
  cases x with
  | error e => cases h
  | ok a => exact ⟨a, rfl, h⟩

theorem bind_eq_error {x : Except ε α} {f : α → Except ε β} (h : (x >>= f) = .error e) :
    x = .error e ∨ ∃ a, x = .ok a ∧ f a = .error e := by
  cases x with
  | error e' =>
    cases h
    exact .inl rfl
  | ok a => exact .inr ⟨a, rfl, h⟩

theorem map_eq_ok_iff {x : Except ε α} {f : α → β} : x.map f = .ok b ↔ ∃ a, x = .ok a ∧ f a = b := by
  cases x <;> simp [Except.map]

theorem map_eq_error_iff {x : Except ε α} {f : α → β} : x.map f = .error e ↔ x = .error e := by
  cases x <;> simp [Except.map]

theorem forM_eq_ok {f : α → Except ε PUnit} {l : List α} (h : l.forM f = .ok ⟨⟩) :
    ∀ a ∈ l, f a = .ok ⟨⟩ := by
  induction l with
  | nil => exact nofun
  | cons a l ih =>
    obtain ⟨_, ha, hl⟩ := bind_eq_ok (f := fun _ => l.forM f) h
    exact List.forall_mem_cons.mpr ⟨ha, ih hl⟩

theorem mapM_eq_ok_iff {f : α → Except ε β} {l : List α} {l' : List β} :
    l.mapM f = .ok l' ↔ List.Forall₂ (fun a b => f a = .ok b) l l' := by
  constructor
  · intro h
    induction l generalizing l' with
    | nil =>
      cases h
      exact .nil
    | cons a l ih =>
      rw [List.mapM_cons] at h
      obtain ⟨b, hb, h⟩ := bind_eq_ok h
      obtain ⟨l'', hl, h⟩ := bind_eq_ok h
      cases h
      exact .cons hb (ih hl)
  · intro h
    induction h with
    | nil => rfl
    | cons ha _ ih =>
      rw [List.mapM_cons, ha, ih]
      rfl

/-- The first failure is the one that is reported. -/
theorem mapM_eq_error_iff {f : α → Except ε β} {l : List α} : l.mapM f = .error e ↔
    ∃ before a after, l = before ++ a :: after ∧ (∀ a' ∈ before, ∃ b, f a' = .ok b) ∧
      f a = .error e := by
  constructor
  · intro h
    induction l with
    | nil => cases h
    | cons a l ih =>
      rw [List.mapM_cons] at h
      rcases bind_eq_error h with ha | ⟨b, hb, h⟩
      · exact ⟨[], a, l, rfl, nofun, ha⟩
      · rcases bind_eq_error h with hl | ⟨l', -, h⟩
        · obtain ⟨before, a', after, rfl, hbefore, ha'⟩ := ih hl
          exact ⟨a :: before, a', after, rfl, List.forall_mem_cons.mpr ⟨⟨b, hb⟩, hbefore⟩, ha'⟩
        · cases h
  · rintro ⟨before, a, after, rfl, hbefore, ha⟩
    induction before with
    | nil =>
      rw [List.nil_append, List.mapM_cons, ha]
      rfl
    | cons a' before ih =>
      obtain ⟨⟨b, hb⟩, hbefore⟩ := List.forall_mem_cons.mp hbefore
      rw [List.cons_append, List.mapM_cons, hb, ih hbefore]
      rfl

theorem mapM_eq_error {f : α → Except ε β} {l : List α} (h : l.mapM f = .error e) :
    ∃ a ∈ l, f a = .error e := by
  obtain ⟨before, a, after, rfl, -, ha⟩ := mapM_eq_error_iff.mp h
  exact ⟨a, List.mem_append_right _ List.mem_cons_self, ha⟩

theorem exists_left_of_forall₂ {R : α → β → Prop} (h : List.Forall₂ R l l') (hb : b ∈ l') :
    ∃ a ∈ l, R a b := by
  induction h with
  | nil => cases hb
  | @cons a b' l l' hab _ ih =>
    rcases List.mem_cons.mp hb with rfl | hb
    · exact ⟨a, List.mem_cons_self, hab⟩
    · obtain ⟨a', ha', hab'⟩ := ih hb
      exact ⟨a', List.mem_cons_of_mem _ ha', hab'⟩

end Ravn.Theory
