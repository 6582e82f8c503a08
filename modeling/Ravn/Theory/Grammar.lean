import Mathlib.Computability.Language
import Ravn.Theory.Lines

/-! Languages that are given by classes of characters: the texts of a class, texts whose ends are in a
narrower class than the rest, and texts joined with a separator. -/

namespace Ravn.Theory

open Computability

/-! ## Classes of characters -/

section

variable {α : Type u} {p q : α → Prop} {x y : List α}

/-- The texts of one character of a class. -/
def oneOf (p : α → Prop) : Language α := {x | ∃ a, p a ∧ x = [a]}

theorem mem_kstar_oneOf : x ∈ (oneOf p)∗ ↔ ∀ a ∈ x, p a := by
  rw [Language.mem_kstar]
  constructor
  · rintro ⟨L, rfl, hL⟩ a ha
    obtain ⟨y, hy, ha⟩ := List.mem_flatten.mp ha
    obtain ⟨b, hb, rfl⟩ := hL y hy
    rwa [List.mem_singleton.mp ha]
  · intro h
    refine ⟨x.map fun a => [a], (List.flatMap_singleton' x).symm, fun y hy => ?_⟩
    obtain ⟨a, ha, rfl⟩ := List.mem_map.mp hy
    exact ⟨a, h a ha, rfl⟩

/-- The first and the last character are in a class. -/
structure Edged (p : α → Prop) (x : List α) : Prop where
  first : ∃ a ∈ x.head?, p a
  last : ∃ a ∈ x.getLast?, p a

theorem Edged.singleton {a : α} (h : p a) : Edged p [a] := ⟨⟨a, rfl, h⟩, a, rfl, h⟩

theorem Edged.append (h : Edged p x) (h' : Edged p y) (mid : List α) : Edged p (x ++ mid ++ y) := by
  obtain ⟨a, ha, hpa⟩ := h.first
  obtain ⟨b, hb, hpb⟩ := h'.last
  refine ⟨⟨a, ?_, hpa⟩, b, ?_, hpb⟩
  · rw [List.append_assoc, List.head?_append, Option.mem_def.mp ha]
    rfl
  · rw [List.getLast?_append, Option.mem_def.mp hb]
    rfl

theorem Edged.intercalate {ls : List (List α)} (hne : ls ≠ []) (h : ∀ l ∈ ls, Edged p l)
    (sep : List α) : Edged p (sep.intercalate ls) := by
  induction ls with
  | nil => exact absurd rfl hne
  | cons l ls ih =>
    obtain ⟨hl, hls⟩ := List.forall_mem_cons.mp h
    cases ls with
    | nil =>
      rw [List.intercalate_singleton]
      exact hl
    | cons m ls =>
      rw [List.intercalate_cons_cons]
      exact hl.append (ih (List.cons_ne_nil m ls) hls) sep

/-- One character of a narrow class, or two with any text of a wider class between them. -/
theorem mem_edged_iff (hpq : ∀ a, p a → q a) :
    x ∈ oneOf p * (1 + (oneOf q)∗ * oneOf p) ↔ Edged p x ∧ ∀ a ∈ x, q a := by
  constructor
  · intro h
    obtain ⟨_, ⟨a, ha, rfl⟩, y, hy, rfl⟩ := Language.mem_mul.mp h
    rcases (Language.mem_add _ _ _).mp hy with hy | hy
    · rw [(Language.mem_one y).mp hy, List.append_nil]
      exact ⟨.singleton ha, List.forall_mem_singleton.mpr (hpq a ha)⟩
    · obtain ⟨mid, hmid, _, ⟨b, hb, rfl⟩, rfl⟩ := Language.mem_mul.mp hy
      rw [← List.append_assoc]
      refine ⟨(Edged.singleton ha).append (.singleton hb) mid, ?_⟩
      simp only [List.forall_mem_append, List.forall_mem_singleton]
      exact ⟨⟨hpq a ha, mem_kstar_oneOf.mp hmid⟩, hpq b hb⟩
  · rintro ⟨⟨⟨a, ha, hpa⟩, b, hb, hpb⟩, hq⟩
    obtain ⟨y, rfl⟩ := List.head?_eq_some_iff.mp (Option.mem_def.mp ha)
    have hedge : ∀ a, p a → [a] ∈ oneOf p := fun a ha => ⟨a, ha, rfl⟩
    refine Language.append_mem_mul (hedge a hpa) ((Language.mem_add _ _ y).mpr ?_)
    obtain rfl | ⟨mid, c, rfl⟩ := y.eq_nil_or_concat
    · exact .inl Language.nil_mem_one
    · right
      rw [List.concat_eq_append] at *
      have hc : c = b := by
        rw [← List.cons_append, List.getLast?_concat] at hb
        exact Option.some.inj hb
      refine Language.append_mem_mul (mem_kstar_oneOf.mpr fun d hd => hq d ?_) (hedge c (hc ▸ hpb))
      exact List.mem_cons_of_mem _ (List.mem_append_left _ hd)

end

/-! ## Joined texts -/

section

variable {α : Type u} {sep : α} {l : Language α} {x : List α}

/-- The texts of a language, one or more of them with `sep` between them. -/
def joined (sep : α) (l : Language α) : Language α :=
  {x | ∃ ls, ls ≠ [] ∧ (∀ y ∈ ls, y ∈ l) ∧ x = [sep].intercalate ls}

theorem mem_joined_iff [DecidableEq α] (hsep : ∀ y ∈ l, sep ∉ y) :
    x ∈ joined sep l ↔ ∀ y ∈ x.splitOn sep, y ∈ l := by
  constructor
  · rintro ⟨ls, hne, hls, rfl⟩
    rw [List.splitOn_intercalate sep (fun y hy => hsep y (hls y hy)) hne]
    exact hls
  · exact fun h => ⟨x.splitOn sep, List.splitOn_ne_nil sep x, h, (List.intercalate_splitOn sep).symm⟩

end

end Ravn.Theory
