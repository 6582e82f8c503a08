/-! Runs of a deterministic labelled step function. A label that is not enabled has no successor.
`Along P` says that every step of a run meets a condition on the state before it; the two rules
below turn one-step facts into facts about whole runs. -/

namespace Ravn.Theory

variable {σ : Type u} {ℓ : Type v} (step : σ → ℓ → Option σ)

/-- The state that a sequence of labels leads to, if each of them is enabled in turn. -/
def run : σ → List ℓ → Option σ
  | s, [] => some s
  | s, l :: ls => (step s l).bind fun s' => run s' ls

/-- Every step of the run from `s` meets `P`, read in the state before the step. -/
def Along (P : σ → ℓ → Prop) : σ → List ℓ → Prop
  | _, [] => True
  | s, l :: ls => P s l ∧ ∀ s', step s l = some s' → Along P s' ls

/-- At some step of the run from `s` the condition `Q` is met, read in the state before the step. -/
def Occurs (Q : σ → ℓ → Prop) (s : σ) (ls : List ℓ) : Prop :=
  ∃ pre l post m, ls = pre ++ l :: post ∧ run step s pre = some m ∧ Q m l

/-- Whether a condition that can be decided at each step holds along a run is found by running. -/
instance decidableAlong {P : σ → ℓ → Prop} [∀ s l, Decidable (P s l)] :
    ∀ s ls, Decidable (Along step P s ls)
  | _, [] => .isTrue trivial
  | s, l :: ls =>
    match h : step s l with
    | none => decidable_of_iff (P s l) (by simp [Along, h])
    | some s' =>
      have : Decidable (Along step P s' ls) := decidableAlong s' ls
      decidable_of_iff (P s l ∧ Along step P s' ls) (by simp [Along, h])

variable {step}

@[simp] theorem run_nil : run step s [] = some s := rfl

theorem run_cons_eq_some :
    run step s (l :: ls) = some t ↔ ∃ s', step s l = some s' ∧ run step s' ls = some t := by
  simp [run, Option.bind_eq_some_iff]

theorem run_append_eq_some :
    run step s (ls ++ ls') = some t ↔ ∃ m, run step s ls = some m ∧ run step m ls' = some t := by
  induction ls generalizing s with
  | nil => simp
  | cons l ls ih =>
    simp only [List.cons_append, run_cons_eq_some, ih]
    constructor
    · rintro ⟨s', hs, m, hm, ht⟩
      exact ⟨m, ⟨s', hs, hm⟩, ht⟩
    · rintro ⟨m, ⟨s', hs, hm⟩, ht⟩
      exact ⟨s', hs, m, hm, ht⟩

theorem along_append {P : σ → ℓ → Prop} :
    Along step P s (ls ++ ls') ↔
      Along step P s ls ∧ ∀ m, run step s ls = some m → Along step P m ls' := by
  induction ls generalizing s with
  | nil => simp [Along]
  | cons l ls ih =>
    simp only [List.cons_append, Along, run_cons_eq_some, ih]
    constructor
    · intro h
      refine ⟨⟨h.1, fun s' hs => (h.2 s' hs).1⟩, ?_⟩
      rintro m ⟨s', hs, hm⟩
      exact (h.2 s' hs).2 m hm
    · intro h
      exact ⟨h.1.1, fun s' hs => ⟨h.1.2 s' hs, fun m hm => h.2 m ⟨s', hs, hm⟩⟩⟩

/-- An invariant of the steps that meet `P` holds at the end of a run made of such steps. -/
theorem Along.invariant {P : σ → ℓ → Prop} {I : σ → Prop}
    (hstep : ∀ {s l s'}, I s → P s l → step s l = some s' → I s')
    (hrun : run step s ls = some t) (h : Along step P s ls) (hs : I s) : I t := by
  induction ls generalizing s with
  | nil => cases hrun; exact hs
  | cons l ls ih =>
    obtain ⟨s', hl, hrest⟩ := run_cons_eq_some.mp hrun
    exact ih hrest (h.2 s' hl) (hstep hs h.1 hl)

/-- Two conditions that mean the same where an invariant holds, and that keep it, are met along the
same runs. -/
theorem along_congr {P Q : σ → ℓ → Prop} {I : σ → Prop} (hiff : ∀ {s l}, I s → (P s l ↔ Q s l))
    (hstep : ∀ {s l s'}, I s → Q s l → step s l = some s' → I s') (hs : I s) :
    Along step P s ls ↔ Along step Q s ls := by
  induction ls generalizing s with
  | nil => exact Iff.rfl
  | cons l ls ih =>
    rw [Along, Along, hiff hs]
    exact and_congr_right fun hQ => forall_congr' fun s' => forall_congr' fun hl =>
      ih (hstep hs hQ hl)

/-- A relation that the steps meeting `P` keep with the steps of another function on the same labels
holds at the ends of the two runs. -/
theorem Along.simulates {τ : Type w} {step' : τ → ℓ → Option τ} {P : σ → ℓ → Prop}
    {R : σ → τ → Prop} {s s' : σ} {t : τ}
    (hstep : ∀ {s l s' t}, R s t → P s l → step s l = some s' → ∃ t', step' t l = some t' ∧ R s' t')
    (hrun : run step s ls = some s') (h : Along step P s ls) (hR : R s t) :
    ∃ t', run step' t ls = some t' ∧ R s' t' := by
  induction ls generalizing s t with
  | nil =>
    cases hrun
    exact ⟨t, rfl, hR⟩
  | cons l ls ih =>
    obtain ⟨m, hl, hrest⟩ := run_cons_eq_some.mp hrun
    obtain ⟨n, hn, hR⟩ := hstep hR h.1 hl
    obtain ⟨t', ht', hR⟩ := ih hrest (h.2 m hl) hR
    exact ⟨t', run_cons_eq_some.mpr ⟨n, hn, ht'⟩, hR⟩

/-- An invariant of every step holds at the end of every run. -/
theorem run_invariant {I : σ → Prop}
    (hstep : ∀ {s l s'}, I s → step s l = some s' → I s')
    (hrun : run step s ls = some t) (hs : I s) : I t := by
  induction ls generalizing s with
  | nil => cases hrun; exact hs
  | cons l ls ih =>
    obtain ⟨s', hl, hrest⟩ := run_cons_eq_some.mp hrun
    exact ih hrest (hstep hs hl)

/-- An invariant of every step that also speaks of the steps made so far. -/
theorem run_history {I : List ℓ → σ → Prop}
    (hstep : ∀ {ls m l m'}, run step s ls = some m → I ls m → step m l = some m' → I (ls ++ [l]) m')
    (hrun : run step s ls = some t) (hs : I [] s) : I ls t := by
  suffices ∀ {pre m}, run step s pre = some m → I pre m → run step m ls = some t →
      I (pre ++ ls) t from this run_nil hs hrun
  clear hrun hs
  induction ls with
  | nil =>
    intro pre m _ hI ht
    cases ht
    rwa [List.append_nil]
  | cons l ls ih =>
    intro pre m hm hI ht
    obtain ⟨m', hl, hrest⟩ := run_cons_eq_some.mp ht
    have hm' : run step s (pre ++ [l]) = some m' :=
      run_append_eq_some.mpr ⟨m, hm, run_cons_eq_some.mpr ⟨m', hl, run_nil⟩⟩
    rw [List.append_cons]
    exact ih hm' (hstep hm hI hl) hrest

theorem Occurs.snoc {Q : σ → ℓ → Prop} (h : Occurs step Q s ls) (l : ℓ) :
    Occurs step Q s (ls ++ [l]) := by
  obtain ⟨pre, l', post, m, rfl, hm, hQ⟩ := h
  exact ⟨pre, l', post ++ [l], m, by simp, hm, hQ⟩

theorem Occurs.last {Q : σ → ℓ → Prop} (hrun : run step s ls = some m) (h : Q m l) :
    Occurs step Q s (ls ++ [l]) :=
  ⟨ls, l, [], m, rfl, hrun, h⟩

theorem occurs_cons {Q : σ → ℓ → Prop} :
    Occurs step Q s (l :: ls) ↔ Q s l ∨ ∃ s', step s l = some s' ∧ Occurs step Q s' ls := by
  constructor
  · rintro ⟨pre, l', post, m, hls, hm, hQ⟩
    cases pre with
    | nil =>
      obtain ⟨rfl, rfl⟩ := List.cons.inj hls
      cases hm
      exact .inl hQ
    | cons x pre =>
      obtain ⟨rfl, rfl⟩ := List.cons.inj hls
      obtain ⟨s', hs, hm⟩ := run_cons_eq_some.mp hm
      exact .inr ⟨s', hs, pre, l', post, m, rfl, hm, hQ⟩
  · rintro (hQ | ⟨s', hs, pre, l', post, m, rfl, hm, hQ⟩)
    · exact ⟨[], l, ls, s, rfl, rfl, hQ⟩
    · exact ⟨l :: pre, l', post, m, rfl, run_cons_eq_some.mpr ⟨s', hs, hm⟩, hQ⟩

theorem occurs_append {Q : σ → ℓ → Prop} :
    Occurs step Q s (ls ++ ls') ↔
      Occurs step Q s ls ∨ ∃ m, run step s ls = some m ∧ Occurs step Q m ls' := by
  induction ls generalizing s with
  | nil =>
    have hnil : ¬Occurs step Q s [] := by simp [Occurs]
    simp [hnil]
  | cons l ls ih =>
    simp only [List.cons_append, occurs_cons, ih, run_cons_eq_some]
    grind

instance decidableOccurs {Q : σ → ℓ → Prop} [∀ s l, Decidable (Q s l)] :
    ∀ s ls, Decidable (Occurs step Q s ls)
  | _, [] => .isFalse (by simp [Occurs])
  | s, l :: ls =>
    match h : step s l with
    | none => decidable_of_iff (Q s l) (by simp [occurs_cons, h])
    | some s' =>
      have : Decidable (Occurs step Q s' ls) := decidableOccurs s' ls
      decidable_of_iff (Q s l ∨ Occurs step Q s' ls) (by simp [occurs_cons, h])

/-- What occurs along a run whose steps all meet a condition meets it. -/
theorem Along.occurs {P Q : σ → ℓ → Prop} (h : Along step P s ls) (hQ : Occurs step Q s ls) :
    Occurs step (fun s l => P s l ∧ Q s l) s ls := by
  obtain ⟨pre, l, post, m, rfl, hm, hQ⟩ := hQ
  exact ⟨pre, l, post, m, rfl, hm, ((along_append.mp h).2 m hm).1, hQ⟩

section Once

variable {Q : σ → ℓ → Prop} {Done : σ → Prop}
variable (hkeep : ∀ {s l s'}, Done s → step s l = some s' → Done s')
variable (honce : ∀ {s l s'}, Done s → Q s l → step s l ≠ some s')

include hkeep honce

/-- What is done once does not occur again. -/
theorem not_occurs_of_done (hrun : run step s ls = some t) (hs : Done s) :
    ¬Occurs step Q s ls := by
  induction ls generalizing s with
  | nil => simp [Occurs]
  | cons l ls ih =>
    obtain ⟨s', hl, hrest⟩ := run_cons_eq_some.mp hrun
    rw [occurs_cons]
    rintro (hQ | ⟨s'', hl', hrec⟩)
    · exact honce hs hQ hl
    · cases hl.symm.trans hl'
      exact ih hrest (hkeep hs hl) hrec

omit honce in
theorem Occurs.done (hdone : ∀ {s l s'}, Q s l → step s l = some s' → Done s')
    (hrun : run step s ls = some t) (h : Occurs step Q s ls) : Done t := by
  obtain ⟨pre, l, post, m, rfl, hm, hQ⟩ := h
  obtain ⟨m', hm', hrest⟩ := run_append_eq_some.mp hrun
  cases hm.symm.trans hm'
  obtain ⟨m'', hl, hrest⟩ := run_cons_eq_some.mp hrest
  exact run_invariant hkeep hrest (hdone hQ hl)

/-- Two occurrences of what is done once are the same. -/
theorem Occurs.meet {Q₁ Q₂ : σ → ℓ → Prop} (h₁ : ∀ {s l}, Q₁ s l → Q s l)
    (h₂ : ∀ {s l}, Q₂ s l → Q s l) (hdone : ∀ {s l s'}, Q s l → step s l = some s' → Done s')
    (hrun : run step s ls = some t) (hocc₁ : Occurs step Q₁ s ls) (hocc₂ : Occurs step Q₂ s ls) :
    Occurs step (fun s l => Q₁ s l ∧ Q₂ s l) s ls := by
  induction ls generalizing s with
  | nil => simp [Occurs] at hocc₁
  | cons l ls ih =>
    obtain ⟨s', hl, hrest⟩ := run_cons_eq_some.mp hrun
    have hlater : ∀ {R : σ → ℓ → Prop}, (∀ {s l}, R s l → Q s l) → Q s l → ¬Occurs step R s' ls :=
      fun hR hQ => not_occurs_of_done hkeep (fun hs hR' => honce hs (hR hR')) hrest (hdone hQ hl)
    rw [occurs_cons] at hocc₁ hocc₂ ⊢
    simp only [hl, Option.some.injEq, exists_eq_left'] at hocc₁ hocc₂ ⊢
    rcases hocc₁ with hQ₁ | hocc₁ <;> rcases hocc₂ with hQ₂ | hocc₂
    · exact .inl ⟨hQ₁, hQ₂⟩
    · exact absurd hocc₂ (hlater h₂ (h₁ hQ₁))
    · exact absurd hocc₁ (hlater h₁ (h₂ hQ₂))
    · exact .inr (ih hrest hocc₁ hocc₂)

end Once

theorem Occurs.exists {Q : σ → ℓ → Prop} (h : Occurs step Q s ls) : ∃ m l, Q m l := by
  obtain ⟨pre, l, post, m, -, -, hQ⟩ := h
  exact ⟨m, l, hQ⟩

/-- A condition on the labels alone may be checked label by label. -/
theorem Along.and {P : σ → ℓ → Prop} {Q : ℓ → Prop} (h : Along step P s ls) (hQ : ∀ l ∈ ls, Q l) :
    Along step (fun s l => P s l ∧ Q l) s ls := by
  induction ls generalizing s with
  | nil => trivial
  | cons l ls ih =>
    refine ⟨⟨h.1, hQ l List.mem_cons_self⟩, fun s' hl => ?_⟩
    exact ih (h.2 s' hl) fun l' hl' => hQ l' (List.mem_cons_of_mem _ hl')

/-- When a step outside `P` leads into an absorbing set that the invariant excludes, a run ends
outside that set exactly when all of its steps meet `P`. -/
theorem along_iff_of_absorbing {P : σ → ℓ → Prop} {I Bad : σ → Prop}
    (hgood : ∀ {s l s'}, I s → P s l → step s l = some s' → I s')
    (hbad : ∀ {s l s'}, I s → ¬P s l → step s l = some s' → Bad s')
    (habs : ∀ {s l s'}, Bad s → step s l = some s' → Bad s')
    (hexcl : ∀ {s}, I s → ¬Bad s)
    (hrun : run step s ls = some t) (hs : I s) : Along step P s ls ↔ ¬Bad t := by
  constructor
  · exact fun h => hexcl (h.invariant hgood hrun hs)
  induction ls generalizing s with
  | nil => exact fun _ => trivial
  | cons l ls ih =>
    intro ht
    obtain ⟨s', hl, hrest⟩ := run_cons_eq_some.mp hrun
    have hP : P s l := Classical.byContradiction fun hP =>
      ht (run_invariant habs hrest (hbad hs hP hl))
    refine ⟨hP, fun s'' hl' => ?_⟩
    cases hl.symm.trans hl'
    exact ih hrest (hgood hs hP hl) ht

/-- A part of a system that makes the steps that are its own, and no others, makes a run of its own
along every run of the system. -/
theorem run_part {τ : Type w} {κ : Type x} {step' : τ → κ → Option τ} {own : ℓ → Option κ}
    {R : σ → τ → Prop}
    (hown : ∀ {s l s' t k}, R s t → step s l = some s' → own l = some k →
      ∃ t', step' t k = some t' ∧ R s' t')
    (hother : ∀ {s l s' t}, R s t → step s l = some s' → own l = none → R s' t)
    {s s' : σ} {t : τ} (hrun : run step s ls = some s') (hs : R s t) :
    ∃ t', run step' t (ls.filterMap own) = some t' ∧ R s' t' := by
  induction ls generalizing s t with
  | nil =>
    cases hrun
    exact ⟨t, rfl, hs⟩
  | cons l ls ih =>
    obtain ⟨m, hl, hrest⟩ := run_cons_eq_some.mp hrun
    cases hk : own l with
    | none =>
      rw [List.filterMap_cons_none hk]
      exact ih hrest (hother hs hl hk)
    | some k =>
      obtain ⟨t₁, ht₁, hm⟩ := hown hs hl hk
      obtain ⟨t', ht', hs'⟩ := ih hrest hm
      rw [List.filterMap_cons_some hk]
      exact ⟨t', run_cons_eq_some.mpr ⟨t₁, ht₁, ht'⟩, hs'⟩

end Ravn.Theory
