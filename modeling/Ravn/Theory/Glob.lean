import Mathlib.Data.List.Forall2

/-! The language of a pattern with wildcards, and the part of it that a matcher finds which takes a
symbol of the pattern as itself before it takes it as a star. -/

namespace Ravn.Theory.Glob

variable {α : Type u}

/-- `star` denotes any run of symbols, `any` a single one and every other symbol itself. -/
inductive Denotes (star any : α) : List α → List α → Prop where
  | nil : Denotes star any [] []
  | symbol : c ≠ star → c = any ∨ c = b → Denotes star any p t → Denotes star any (c :: p) (b :: t)
  | run (r : List α) : Denotes star any p t → Denotes star any (star :: p) (r ++ t)

/-- The pattern denotes the text, and each star of it that meets a star in the text takes that symbol
alone. -/
inductive Reads (star any : α) : List α → List α → Prop where
  | nil : Reads star any [] []
  | symbol : c = any ∨ c = b → Reads star any p t → Reads star any (c :: p) (b :: t)
  | ends : Reads star any p [] → Reads star any (star :: p) []
  | run : b ≠ star → b :: t = run ++ t' → Reads star any p t' → Reads star any (star :: p) (b :: t)

variable {star any c b : α} {p t : List α}

theorem Reads.denotes (hne : star ≠ any) (h : Reads star any p t) : Denotes star any p t := by
  induction h with
  | nil => exact .nil
  | @symbol c b p t hc _ ih =>
    by_cases hstar : c = star
    · subst hstar
      rcases hc with hany | rfl
      · exact absurd hany hne
      · exact ih.run [c]
    · exact .symbol hstar hc ih
  | ends _ ih => exact ih.run []
  | run _ ht _ ih => exact ht ▸ ih.run _

/-- Without a star in the text the two readings are the same. -/
theorem Denotes.reads (h : Denotes star any p t) (ht : star ∉ t) : Reads star any p t := by
  induction h with
  | nil => exact .nil
  | symbol _ hc _ ih => exact .symbol hc (ih fun hmem => ht (List.mem_cons_of_mem _ hmem))
  | @run p t run _ ih =>
    have ih := ih fun hmem => ht (List.mem_append_right _ hmem)
    cases hrun : run ++ t with
    | nil =>
      obtain ⟨-, rfl⟩ := List.append_eq_nil_iff.mp hrun
      exact .ends ih
    | cons b t' =>
      have hb : b ≠ star := by
        rintro rfl
        exact ht (hrun ▸ List.mem_cons_self)
      exact .run hb hrun.symm ih

/-! ## Single steps -/

theorem reads_symbol (hne : star ≠ any) (hc : c = any ∨ c = b) :
    Reads star any (c :: p) (b :: t) ↔ Reads star any p t := by
  constructor
  · intro h
    cases h with
    | symbol _ h => exact h
    | run hb => exact absurd (hc.resolve_left hne).symm hb
  · exact .symbol hc

theorem reads_run (hne : star ≠ any) (hb : star ≠ b) :
    Reads star any (star :: p) (b :: t) ↔ ∃ k, Reads star any p ((b :: t).drop k) := by
  constructor
  · intro h
    cases h with
    | symbol hc => exact absurd hc (not_or.mpr ⟨hne, hb⟩)
    | @run _ _ run _ _ _ ht h => exact ⟨run.length, by rwa [ht, List.drop_left]⟩
  · rintro ⟨k, h⟩
    exact .run hb.symm (List.take_append_drop k _).symm h

theorem not_reads_symbol (hstar : c ≠ star) (hc : ¬ (c = any ∨ c = b)) :
    ¬ Reads star any (c :: p) (b :: t) := by
  intro h
  cases h with
  | symbol h => exact hc h
  | run => exact hstar rfl

theorem reads_nil : Reads star any p [] ↔ ∀ c ∈ p, c = star := by
  induction p with
  | nil =>
    constructor
    · exact fun _ _ hc => nomatch hc
    · exact fun _ => .nil
  | cons c p ih =>
    rw [List.forall_mem_cons, ← ih]
    constructor
    · intro h
      cases h with
      | ends h => exact ⟨rfl, h⟩
    · rintro ⟨rfl, h⟩
      exact .ends h

/-- A pattern of single symbols reads as many symbols as it has. -/
theorem Reads.length_eq (h : Reads star any (List.replicate n any) t) (hne : star ≠ any) :
    t.length = n := by
  induction n generalizing t with
  | zero =>
    cases h
    rfl
  | succ n ih =>
    cases t with
    | nil => exact absurd (reads_nil.mp h any (by simp)) hne.symm
    | cons b t => rw [List.length_cons, ih ((reads_symbol hne (.inl rfl)).mp h)]

/-! ## Backtracking -/

/-- The pattern reads the text, symbol for symbol. -/
abbrev Aligned (any : α) : List α → List α → Prop := List.Forall₂ fun c b => c = any ∨ c = b

/-- What has been read symbol for symbol cannot be read further to the right and end further to the
left, although a star that met a star may now be empty. -/
theorem Aligned.later (hne : star ≠ any) (h : Aligned any q u)
    (hreads : Reads star any (q ++ p) ((u ++ t).drop d)) :
    ∃ e, Reads star any p (t.drop e) := by
  induction h generalizing d with
  | nil => exact ⟨d, hreads⟩
  | @cons c b q u hc _ ih =>
    cases d with
    | zero => exact ih (d := 0) ((reads_symbol hne hc).mp hreads)
    | succ d =>
      rw [List.cons_append, List.cons_append, List.drop_succ_cons] at hreads
      generalize hrest : (u ++ t).drop d = rest at hreads
      cases hreads with
      | symbol _ h =>
        exact ih (d := d + 1) (by rwa [← List.tail_drop, hrest])
      | ends h => exact ih (d := d) (hrest ▸ h)
      | @run _ _ run _ _ _ ht h =>
        exact ih (d := d + run.length) (by rwa [← List.drop_drop, hrest, ht, List.drop_left])

/-- A star that is reached where the text has another symbol takes over from the stars before it. -/
theorem Aligned.star_takes_over (hne : star ≠ any) (hb : star ≠ b) (h : Aligned any q u)
    (hreads : Reads star any (q ++ star :: p) ((u ++ b :: t).drop d)) :
    Reads star any (star :: p) (b :: t) := by
  obtain ⟨e, hreads⟩ := h.later hne hreads
  apply (reads_run hne hb).mpr
  generalize hrest : (b :: t).drop e = rest at hreads
  cases hreads with
  | symbol _ h => exact ⟨e + 1, by rwa [← List.tail_drop, hrest]⟩
  | ends h => exact ⟨e, hrest ▸ h⟩
  | @run _ _ run _ _ _ ht h =>
    exact ⟨e + run.length, by rwa [← List.drop_drop, hrest, ht, List.drop_left]⟩

/-! ## Where the two readings differ -/

/-- The pattern that tells the two readings apart on `u ++ star :: v`. -/
def witness (star any : α) (u v : List α) : List α :=
  u ++ star :: List.replicate (v.length + 1) any

theorem denotes_replicate (hne : star ≠ any) :
    ∀ t : List α, Denotes star any (List.replicate t.length any) t
  | [] => .nil
  | _ :: t => .symbol hne.symm (.inl rfl) (denotes_replicate hne t)

theorem denotes_witness (hne : star ≠ any) (hu : star ∉ u) (v : List α) :
    Denotes star any (witness star any u v) (u ++ star :: v) := by
  induction u with
  | nil => exact (denotes_replicate hne (star :: v)).run []
  | cons c u ih =>
    simp only [List.mem_cons, not_or] at hu
    exact .symbol (Ne.symm hu.1) (.inr rfl) (ih hu.2)

theorem not_reads_witness (hne : star ≠ any) (u v : List α) :
    ¬ Reads star any (witness star any u v) (u ++ star :: v) := by
  induction u with
  | nil =>
    intro h
    have hlength := ((reads_symbol hne (.inr rfl)).mp h).length_eq hne
    omega
  | cons c u ih => exact fun h => ih ((reads_symbol hne (.inr rfl)).mp h)

/-- The readings agree for every pattern exactly on the texts without a star. -/
theorem denotes_reads_iff (hne : star ≠ any) :
    (∀ p, Denotes star any p t → Reads star any p t) ↔ star ∉ t := by
  constructor
  · intro h hmem
    obtain ⟨u, v, rfl, hu⟩ := List.eq_append_cons_of_mem hmem
    exact not_reads_witness hne u v (h _ (denotes_witness hne hu v))
  · exact fun ht p h => h.reads ht

end Ravn.Theory.Glob
