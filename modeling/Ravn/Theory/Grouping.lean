import Ravn.Theory.BTreeMap
import Mathlib.Algebra.GroupWithZero.Nat

/-! Grouping: the elements of a list are collected under their keys, each group in the order of the list.
The group of a key is what a filter of the list by that key leaves (`get_groupInto`); counted, the groups
are the whole list (`sum_values_tally`). -/

namespace Ravn.Theory

namespace BTreeMap

variable {κ : Type u} {ν : Type v} [LinearOrder κ]

/-- Every element under its key, at the end of what is there. -/
def groupInto (key : α → κ) (f : α → ν) (l : List α) : BTreeMap κ (List ν) :=
  l.foldl (fun m a => m.insert (key a) ((m.get (key a)).getD [] ++ [f a])) empty

theorem get_foldl_group (key : α → κ) (f : α → ν) (k : κ) (l : List α) (m : BTreeMap κ (List ν)) :
    (l.foldl (fun m a => m.insert (key a) ((m.get (key a)).getD [] ++ [f a])) m).get k =
      if (l.filter fun a => key a = k) = [] then m.get k
      else some ((m.get k).getD [] ++ (l.filter fun a => key a = k).map f) := by
  induction l generalizing m with
  | nil => rfl
  | cons a l ih =>
    rw [List.foldl_cons, ih, get_insert]
    by_cases hk : key a = k
    · subst hk
      rw [if_pos rfl, List.filter_cons_of_pos (by simp), if_neg (List.cons_ne_nil _ _),
        Option.getD_some, List.map_cons, List.append_assoc, List.singleton_append]
      split
      · rename_i hnil
        rw [hnil, List.map_nil]
      · rfl
    · rw [if_neg (Ne.symm hk), List.filter_cons_of_neg (by simpa using hk)]

/-- A key has a group exactly if an element has that key. -/
theorem get_groupInto (key : α → κ) (f : α → ν) (l : List α) (k : κ) :
    (groupInto key f l).get k =
      if (l.filter fun a => key a = k) = [] then none
      else some ((l.filter fun a => key a = k).map f) := by
  rw [groupInto, get_foldl_group, get_empty, Option.getD_none, List.nil_append]

theorem mem_entries_groupInto {key : α → κ} {f : α → ν} {l : List α} {k : κ} {vs : List ν} :
    (k, vs) ∈ (groupInto key f l).entries ↔
      vs = (l.filter fun a => key a = k).map f ∧ vs ≠ [] := by
  rw [← get_eq_some, get_groupInto]
  split
  · rename_i hnil
    rw [hnil, List.map_nil]
    exact ⟨nofun, fun h => absurd h.1 h.2⟩
  · rename_i hne
    rw [Option.some.injEq]
    constructor
    · rintro rfl
      exact ⟨rfl, fun h => hne (List.map_eq_nil_iff.mp h)⟩
    · exact fun h => h.1.symm

theorem get_mapValues {μ : Type w} (g : ν → μ) (m : BTreeMap κ ν) (k : κ) :
    (m.mapValues g).get k = (m.get k).map g := by
  have hlist : ∀ es : List (κ × ν),
      getList (es.map fun e => (e.1, g e.2)) k = (getList es k).map g := by
    intro es
    induction es with
    | nil => rfl
    | cons e es ih =>
      obtain ⟨j, v⟩ := e
      rw [List.map_cons, getList, getList, ih]
      split <;> rfl
  exact hlist m.entries

theorem pairwise_keys (m : BTreeMap κ ν) : m.keys.Pairwise (· < ·) := List.pairwise_map.mpr m.sorted

/-- The keys of a map that is made of a list are those of the list. -/
theorem mem_keys_ofList {es : List (κ × ν)} : k ∈ (ofList es).keys ↔ k ∈ es.map Prod.fst := by
  have hfold : ∀ (es : List (κ × ν)) (m : BTreeMap κ ν),
      k ∈ (es.foldl (fun m e => m.insert e.1 e.2) m).keys ↔ k ∈ es.map Prod.fst ∨ k ∈ m.keys := by
    intro es
    induction es with
    | nil => simp
    | cons e es ih =>
      intro m
      rw [List.foldl_cons, ih, List.map_cons, List.mem_cons, mem_keys, mem_keys]
      simp only [get_insert]
      by_cases hk : k = e.1
      · simp [hk]
      · simp [hk]
  have hempty : k ∉ (empty : BTreeMap κ ν).keys := List.not_mem_nil
  rw [ofList, hfold]
  exact or_iff_left hempty

/-! ## Counting -/

/-- How many elements have each key. -/
def tally (key : α → κ) (l : List α) : BTreeMap κ Nat :=
  l.foldl (fun m a => m.insert (key a) ((m.get (key a)).getD 0 + 1)) empty

theorem getList_eq_none {es : List (κ × ν)} (h : ∀ e ∈ es, e.1 ≠ k) : getList es k = none := by
  cases hget : getList es k with
  | none => rfl
  | some v => exact absurd rfl (h _ (mem_of_getList hget))

/-- An entry that is added or replaced changes the sum by what it changes itself. -/
theorem sum_insertList {es : List (κ × Nat)} (hes : es.Pairwise fun a b => a.1 < b.1) (k : κ) (n : Nat) :
    ((insertList k n es).map Prod.snd).sum + (getList es k).getD 0 = (es.map Prod.snd).sum + n := by
  induction es with
  | nil => simp [insertList, getList]
  | cons e es ih =>
    obtain ⟨j, w⟩ := e
    obtain ⟨hj, hes⟩ := List.pairwise_cons.mp hes
    simp only [insertList]
    split
    · rename_i hlt
      have hnone : getList ((j, w) :: es) k = none := getList_eq_none fun e he => by
        rcases List.mem_cons.mp he with rfl | he
        · exact ne_of_gt hlt
        · exact ne_of_gt (lt_trans hlt (hj e he))
      rw [hnone, List.map_cons, List.sum_cons, Option.getD_none]
      omega
    split
    · rename_i heq
      subst heq
      rw [getList, if_pos rfl, List.map_cons, List.map_cons, List.sum_cons, List.sum_cons,
        Option.getD_some]
      omega
    · rename_i hne
      have hih := ih hes
      rw [getList, if_neg hne, List.map_cons, List.map_cons, List.sum_cons, List.sum_cons]
      omega

/-- The counts are of all the elements together. -/
theorem sum_values_tally (key : α → κ) (l : List α) : (tally key l).values.sum = l.length := by
  have hfold : ∀ (l : List α) (m : BTreeMap κ Nat),
      (l.foldl (fun m a => m.insert (key a) ((m.get (key a)).getD 0 + 1)) m).values.sum =
        m.values.sum + l.length := by
    intro l
    induction l with
    | nil => exact fun m => rfl
    | cons a l ih =>
      intro m
      have hsum : (m.insert (key a) ((m.get (key a)).getD 0 + 1)).values.sum +
          (m.get (key a)).getD 0 = m.values.sum + ((m.get (key a)).getD 0 + 1) :=
        sum_insertList m.sorted _ _
      rw [List.foldl_cons, ih, List.length_cons]
      omega
  exact (hfold l empty).trans (Nat.zero_add _)

theorem get_tally (key : α → κ) (l : List α) (k : κ) :
    (tally key l).get k =
      if l.countP (fun a => key a = k) = 0 then none else some (l.countP fun a => key a = k) := by
  have hfold : ∀ (l : List α) (m : BTreeMap κ Nat),
      (l.foldl (fun m a => m.insert (key a) ((m.get (key a)).getD 0 + 1)) m).get k =
        if l.countP (fun a => key a = k) = 0 then m.get k
        else some ((m.get k).getD 0 + l.countP fun a => key a = k) := by
    intro l
    induction l with
    | nil => exact fun m => rfl
    | cons a l ih =>
      intro m
      rw [List.foldl_cons, ih, get_insert, List.countP_cons]
      by_cases hk : key a = k
      · subst hk
        rw [if_pos rfl, Option.getD_some]
        simp only [decide_true, if_true]
        split
        · rename_i hzero
          rw [hzero, if_neg (Nat.succ_ne_zero 0)]
        · rw [if_neg (Nat.succ_ne_zero _)]
          congr 1
          omega
      · simp only [hk, decide_false, Bool.false_eq_true, if_false, Nat.add_zero, if_neg (Ne.symm hk)]
  rw [tally, hfold, get_empty, Option.getD_none, Nat.zero_add]

end BTreeMap

end Ravn.Theory
