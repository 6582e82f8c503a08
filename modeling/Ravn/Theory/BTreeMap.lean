import Mathlib.Order.Lattice

/-! Finite maps that iterate in key order. The representation is the iteration itself, a list of
entries with strictly increasing keys, so two maps with the same lookups are equal
(`BTreeMap.ext_get`). -/

namespace Ravn.Theory

structure BTreeMap (κ : Type u) (ν : Type v) [LinearOrder κ] where
  /-- The entries in iteration order. -/
  entries : List (κ × ν)
  sorted : entries.Pairwise fun a b => a.1 < b.1

namespace BTreeMap

variable {κ : Type u} {ν : Type v} [LinearOrder κ]

instance [DecidableEq ν] : DecidableEq (BTreeMap κ ν) := fun m n =>
  decidable_of_iff (m.entries = n.entries) ⟨fun h => by cases m; cases n; cases h; rfl, fun h => h ▸ rfl⟩

def empty : BTreeMap κ ν := ⟨[], .nil⟩

instance : Inhabited (BTreeMap κ ν) := ⟨empty⟩

def keys (m : BTreeMap κ ν) : List κ := m.entries.map (·.1)

def values (m : BTreeMap κ ν) : List ν := m.entries.map (·.2)

def isEmpty (m : BTreeMap κ ν) : Bool := m.entries.isEmpty

/-- Lookup in a list of entries. -/
def getList : List (κ × ν) → κ → Option ν
  | [], _ => none
  | (k, v) :: es, j => if j = k then some v else getList es j

def get (m : BTreeMap κ ν) (k : κ) : Option ν := getList m.entries k

def containsKey (m : BTreeMap κ ν) (k : κ) : Bool := (m.get k).isSome

/-- Adds an entry in its place, or replaces the one that is there. -/
def insertList (k : κ) (v : ν) : List (κ × ν) → List (κ × ν)
  | [] => [(k, v)]
  | (j, w) :: es =>
    if k < j then (k, v) :: (j, w) :: es
    else if k = j then (k, v) :: es
    else (j, w) :: insertList k v es

theorem mem_insertList {e : κ × ν} {es : List (κ × ν)} (h : e ∈ insertList k v es) :
    e = (k, v) ∨ e ∈ es := by
  induction es with
  | nil => simpa [insertList] using h
  | cons f es ih =>
    obtain ⟨j, w⟩ := f
    simp only [insertList] at h
    split at h
    · simpa using h
    split at h
    · rcases List.mem_cons.mp h with h | h
      · exact .inl h
      · exact .inr (List.mem_cons_of_mem _ h)
    · rcases List.mem_cons.mp h with rfl | h
      · exact .inr List.mem_cons_self
      · rcases ih h with h | h
        · exact .inl h
        · exact .inr (List.mem_cons_of_mem _ h)

theorem insertList_sorted {es : List (κ × ν)} (h : es.Pairwise fun a b => a.1 < b.1) :
    (insertList k v es).Pairwise fun a b => a.1 < b.1 := by
  induction es with
  | nil => simp [insertList]
  | cons e es ih =>
    obtain ⟨j, w⟩ := e
    obtain ⟨hj, hes⟩ := List.pairwise_cons.mp h
    simp only [insertList]
    split
    · rename_i hlt
      refine List.pairwise_cons.mpr ⟨fun e he => ?_, h⟩
      rcases List.mem_cons.mp he with rfl | he
      · exact hlt
      · exact lt_trans hlt (hj e he)
    split
    · rename_i _ heq
      subst heq
      exact List.pairwise_cons.mpr ⟨hj, hes⟩
    · rename_i hlt hne
      refine List.pairwise_cons.mpr ⟨fun e he => ?_, ih hes⟩
      rcases mem_insertList he with rfl | he
      · exact lt_of_le_of_ne (not_lt.mp hlt) (Ne.symm hne)
      · exact hj e he

def insert (m : BTreeMap κ ν) (k : κ) (v : ν) : BTreeMap κ ν :=
  ⟨insertList k v m.entries, insertList_sorted m.sorted⟩

/-! ## Lookup -/

@[simp] theorem get_empty (k : κ) : (empty : BTreeMap κ ν).get k = none := rfl

theorem getList_insertList (es : List (κ × ν)) (j : κ) :
    getList (insertList k v es) j = if j = k then some v else getList es j := by
  induction es with
  | nil => rfl
  | cons e es ih =>
    obtain ⟨i, w⟩ := e
    simp only [insertList]
    split
    · rfl
    split
    · rename_i _ heq
      subst heq
      simp only [getList]
      split <;> rfl
    · rename_i _ hne
      simp only [getList, ih]
      by_cases hji : j = i
      · subst hji
        simp [Ne.symm hne]
      · simp [hji]

@[simp] theorem get_insert (m : BTreeMap κ ν) (k : κ) (v : ν) (j : κ) :
    (m.insert k v).get j = if j = k then some v else m.get j :=
  getList_insertList m.entries j

theorem mem_of_getList {es : List (κ × ν)} (h : getList es k = some v) : (k, v) ∈ es := by
  induction es with
  | nil => cases h
  | cons e es ih =>
    obtain ⟨j, w⟩ := e
    simp only [getList] at h
    split at h
    · rename_i heq
      cases h; subst heq
      exact List.mem_cons_self
    · exact List.mem_cons_of_mem _ (ih h)

theorem getList_of_mem {es : List (κ × ν)} (hs : es.Pairwise fun a b => a.1 < b.1)
    (h : (k, v) ∈ es) : getList es k = some v := by
  induction es with
  | nil => cases h
  | cons e es ih =>
    obtain ⟨j, w⟩ := e
    obtain ⟨hj, hes⟩ := List.pairwise_cons.mp hs
    simp only [getList]
    rcases List.mem_cons.mp h with h | h
    · cases h
      simp
    · rw [if_neg (ne_of_gt (hj _ h)), ih hes h]

theorem get_eq_some {m : BTreeMap κ ν} : m.get k = some v ↔ (k, v) ∈ m.entries :=
  ⟨mem_of_getList, getList_of_mem m.sorted⟩

theorem mem_keys {m : BTreeMap κ ν} : k ∈ m.keys ↔ ∃ v, m.get k = some v := by
  simp [keys, get_eq_some]

theorem containsKey_iff {m : BTreeMap κ ν} : m.containsKey k = true ↔ k ∈ m.keys := by
  rw [mem_keys, containsKey, Option.isSome_iff_exists]

/-- Strictly increasing lists with the same members are equal. -/
theorem entries_ext {es fs : List (κ × ν)} (hes : es.Pairwise fun a b => a.1 < b.1)
    (hfs : fs.Pairwise fun a b => a.1 < b.1) (h : ∀ e, e ∈ es ↔ e ∈ fs) : es = fs := by
  induction es generalizing fs with
  | nil =>
    cases fs with
    | nil => rfl
    | cons f fs => simpa using (h f).mpr List.mem_cons_self
  | cons e es ih =>
    cases fs with
    | nil => simpa using (h e).mp List.mem_cons_self
    | cons f fs =>
      obtain ⟨he, hes'⟩ := List.pairwise_cons.mp hes
      obtain ⟨hf, hfs'⟩ := List.pairwise_cons.mp hfs
      have hef : e = f := by
        rcases List.mem_cons.mp ((h e).mp List.mem_cons_self) with hef | hef
        · exact hef
        rcases List.mem_cons.mp ((h f).mpr List.mem_cons_self) with hfe | hfe
        · exact hfe.symm
        · exact absurd (lt_trans (hf e hef) (he f hfe)) (lt_irrefl _)
      subst hef
      refine congrArg (e :: ·) (ih hes' hfs' fun g => ?_)
      have hg := h g
      simp only [List.mem_cons] at hg
      constructor
      · intro hges
        rcases hg.mp (.inr hges) with rfl | hgfs
        · exact absurd (he _ hges) (lt_irrefl _)
        · exact hgfs
      · intro hgfs
        rcases hg.mpr (.inr hgfs) with rfl | hges
        · exact absurd (hf _ hgfs) (lt_irrefl _)
        · exact hges

/-- Maps with the same lookups are equal. -/
theorem ext_get {m n : BTreeMap κ ν} (h : ∀ k, m.get k = n.get k) : m = n := by
  have hentries : m.entries = n.entries := entries_ext m.sorted n.sorted fun ⟨k, v⟩ => by
    rw [← get_eq_some, ← get_eq_some, h]
  cases m; cases n; cases hentries; rfl

/-! ## Building and mapping -/

/-- The map that the entries of a list make, a later one in place of an earlier one. -/
def ofList (es : List (κ × ν)) : BTreeMap κ ν := es.foldl (fun m e => m.insert e.1 e.2) empty

theorem get_foldl_insert {es : List (κ × ν)} (hs : es.Pairwise fun a b => a.1 < b.1)
    (m : BTreeMap κ ν) (k : κ) :
    (es.foldl (fun m e => m.insert e.1 e.2) m).get k = (getList es k).or (m.get k) := by
  induction es generalizing m with
  | nil => simp [getList]
  | cons e es ih =>
    obtain ⟨j, v⟩ := e
    obtain ⟨hj, hes⟩ := List.pairwise_cons.mp hs
    rw [List.foldl_cons, ih hes, get_insert, getList]
    by_cases hk : k = j
    · subst hk
      have hnone : getList es k = none := by
        cases hget : getList es k with
        | none => rfl
        | some w => exact absurd (hj _ (mem_of_getList hget)) (lt_irrefl _)
      simp [hnone]
    · simp [hk]

theorem ofList_entries (m : BTreeMap κ ν) : ofList m.entries = m := by
  apply ext_get
  intro k
  rw [ofList, get_foldl_insert m.sorted, get_empty, Option.or_none]
  rfl

def mapValues (f : ν → μ) (m : BTreeMap κ ν) : BTreeMap κ μ :=
  ⟨m.entries.map fun e => (e.1, f e.2), List.pairwise_map.mpr m.sorted⟩

/-! ## Removing -/

def remove (m : BTreeMap κ ν) (k : κ) : BTreeMap κ ν :=
  ⟨m.entries.filter fun e => e.1 ≠ k, m.sorted.filter _⟩

theorem getList_filter_ne (es : List (κ × ν)) (k j : κ) :
    getList (es.filter fun e => e.1 ≠ k) j = if j = k then none else getList es j := by
  induction es with
  | nil => simp [getList]
  | cons e es ih =>
    obtain ⟨i, v⟩ := e
    by_cases hi : i = k
    · subst hi
      rw [List.filter_cons_of_neg (by simp), ih, getList]
      by_cases hj : j = i
      · rw [if_pos hj, if_pos hj]
      · rw [if_neg hj, if_neg hj, if_neg hj]
    · rw [List.filter_cons_of_pos (by simpa using hi), getList, getList, ih]
      by_cases hj : j = i
      · subst hj
        rw [if_pos rfl, if_neg hi, if_pos rfl]
      · rw [if_neg hj, if_neg hj]

@[simp] theorem get_remove (m : BTreeMap κ ν) (k j : κ) :
    (m.remove k).get j = if j = k then none else m.get j :=
  getList_filter_ne m.entries k j

end BTreeMap

end Ravn.Theory
