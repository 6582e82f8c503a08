import Mathlib.Data.Finset.Card
import Mathlib.Data.List.DropRight
import Mathlib.Data.List.Nodup

/-! Least-recently-used maps: a bounded list of entries, the most recently used first. Looking up a key
that is there and writing one both move it to the front; what falls off the end is forgotten. After any
history of uses the keys are the first `cap` of the history's keys in order of their last use
(`Lru.Tracks`), so a key is still there exactly if fewer than `cap` others were used since
(`Lru.Tracks.mem_keys_iff`). -/

namespace Ravn.Theory

variable {κ : Type u} {ν : Type v} [DecidableEq κ]

/-! ## The order of last use -/

/-- The keys of a history in order of their last use, the most recent first. -/
def lastUses (hist : List κ) : List κ := hist.foldl (fun used k => k :: used.filter (· != k)) []

@[simp] theorem lastUses_nil : lastUses ([] : List κ) = [] := rfl

@[simp] theorem lastUses_snoc (hist : List κ) (k : κ) :
    lastUses (hist ++ [k]) = k :: (lastUses hist).filter (· != k) := by
  simp [lastUses]

/-- Using a key twice in a row is using it once. -/
theorem lastUses_snoc_snoc (hist : List κ) (k : κ) :
    lastUses (hist ++ [k] ++ [k]) = lastUses (hist ++ [k]) := by
  rw [lastUses_snoc, lastUses_snoc, List.filter_cons_of_neg (by simp), List.filter_filter]
  simp

theorem nodup_lastUses (hist : List κ) : (lastUses hist).Nodup := by
  induction hist using List.reverseRecOn with
  | nil => exact List.nodup_nil
  | append_singleton hist k ih =>
    rw [lastUses_snoc, List.nodup_cons]
    exact ⟨by simp, ih.filter _⟩

theorem mem_lastUses {hist : List κ} : k ∈ lastUses hist ↔ k ∈ hist := by
  induction hist using List.reverseRecOn with
  | nil => rfl
  | append_singleton hist j ih =>
    by_cases hk : k = j
    · simp [hk]
    · simp [hk, ih]

theorem takeWhile_filter_ne (l : List κ) (h : j ≠ k) :
    (l.filter (· != j)).takeWhile (· != k) = (l.takeWhile (· != k)).filter (· != j) := by
  induction l with
  | nil => rfl
  | cons x l ih =>
    by_cases hj : x = j
    · subst hj
      simpa [h] using ih
    · by_cases hk : x = k
      · rw [List.filter_cons_of_pos (by simpa using hj)]
        simp [hk]
      · simpa [hj, hk] using ih

/-- What stands before a key are the keys used since its last use. -/
theorem toFinset_takeWhile_lastUses (hist : List κ) (k : κ) :
    ((lastUses hist).takeWhile (· != k)).toFinset = (hist.rtakeWhile (· != k)).toFinset := by
  induction hist using List.reverseRecOn with
  | nil => rfl
  | append_singleton hist j ih =>
    rw [lastUses_snoc, List.rtakeWhile_concat]
    by_cases hj : j = k
    · simp [hj]
    · rw [List.takeWhile_cons_of_pos (by simp [hj]), if_pos (by simp [hj]),
        takeWhile_filter_ne _ hj]
      ext x
      have hx := congrArg (x ∈ ·) ih
      simp only [List.mem_toFinset, eq_iff_iff] at hx
      by_cases hxj : x = j
      · simp [hxj]
      · simp [hxj, hx]

omit [DecidableEq κ] in
theorem rtakeWhile_append_of_mem {p : κ → Bool} {l l' : List κ} (hmem : k ∈ l') (hk : p k = false) :
    (l ++ l').rtakeWhile p = l'.rtakeWhile p := by
  induction l' using List.reverseRecOn with
  | nil => exact absurd hmem List.not_mem_nil
  | append_singleton l' j ih =>
    rw [← List.append_assoc, List.rtakeWhile_concat, List.rtakeWhile_concat]
    cases hj : p j with
    | false => rfl
    | true =>
      obtain hmem | hmem := List.mem_append.mp hmem
      · rw [ih hmem]
      · cases List.mem_singleton.mp hmem
        cases hk.symm.trans hj

theorem mem_take_iff {l : List κ} :
    k ∈ l.take n ↔ k ∈ l ∧ (l.takeWhile (· != k)).length < n := by
  induction l generalizing n with
  | nil => simp
  | cons x l ih =>
    cases n with
    | zero => simp
    | succ n =>
      by_cases hx : x = k
      · simp [hx]
      · have hk : k ≠ x := fun h => hx h.symm
        simp [hx, hk, ih]

/-- Dropping the end before a key is taken out or after makes no difference to what is kept. -/
theorem take_filter_take {l : List κ} (h : l.Nodup) :
    ((l.take (n + 1)).filter (· != k)).take n = (l.filter (· != k)).take n := by
  induction l generalizing n with
  | nil => rfl
  | cons x l ih =>
    obtain ⟨hx, hl⟩ := List.nodup_cons.mp h
    by_cases hk : x = k
    · subst hk
      have hall : l.filter (· != x) = l :=
        List.filter_eq_self.mpr fun a ha => bne_iff_ne.mpr fun he => hx (he ▸ ha)
      have htake : (l.take n).filter (· != x) = l.take n :=
        List.filter_eq_self.mpr fun a ha =>
          bne_iff_ne.mpr fun he => hx (he ▸ List.mem_of_mem_take ha)
      simp [hall, htake]
    · cases n with
      | zero => simp
      | succ n => simpa [hk] using ih hl

/-! ## The map -/

structure Lru (κ : Type u) (ν : Type v) where
  cap : Nat
  entries : List (κ × ν)
  nodup : (entries.map Prod.fst).Nodup
  length_le : entries.length ≤ cap

namespace Lru

def new (cap : Nat) : Lru κ ν := ⟨cap, [], List.nodup_nil, Nat.zero_le cap⟩

def keys (m : Lru κ ν) : List κ := m.entries.map Prod.fst

omit [DecidableEq κ] in
theorem mem_keys {m : Lru κ ν} : k ∈ m.keys ↔ ∃ v, (k, v) ∈ m.entries := by
  simp [keys]

theorem map_fst_filter_ne (es : List (κ × ν)) (k : κ) :
    (es.filter (·.1 != k)).map Prod.fst = (es.map Prod.fst).filter (· != k) := by
  rw [List.filter_map]
  rfl

/-- The key comes to the front with the value; the last entry goes if there are too many. -/
def use (m : Lru κ ν) (k : κ) (v : ν) : Lru κ ν where
  cap := m.cap
  entries := ((k, v) :: m.entries.filter (·.1 != k)).take m.cap
  nodup := by
    rw [List.map_take, List.map_cons, map_fst_filter_ne]
    refine List.Nodup.sublist (List.take_sublist _ _) (List.nodup_cons.mpr ⟨?_, m.nodup.filter _⟩)
    simp
  length_le := List.length_take_le _ _

/-- The value of a key, which becomes the most recently used if it is there. -/
def get (m : Lru κ ν) (k : κ) : Option ν × Lru κ ν :=
  match m.entries.lookup k with
  | some v => (some v, m.use k v)
  | none => (none, m)

def put (m : Lru κ ν) (k : κ) (v : ν) : Lru κ ν := m.use k v

omit [DecidableEq κ] in
@[simp] theorem cap_new (n : Nat) : (new n : Lru κ ν).cap = n := rfl

@[simp] theorem cap_use (m : Lru κ ν) (k : κ) (v : ν) : (m.use k v).cap = m.cap := rfl

theorem keys_use (m : Lru κ ν) (k : κ) (v : ν) :
    (m.use k v).keys = (k :: m.keys.filter (· != k)).take m.cap := by
  rw [keys, use, List.map_take, List.map_cons, map_fst_filter_ne]
  rfl

theorem mem_use {m : Lru κ ν} (h : e ∈ (m.use k v).entries) :
    e = (k, v) ∨ e.1 ≠ k ∧ e ∈ m.entries := by
  obtain rfl | h := List.mem_cons.mp (List.mem_of_mem_take h)
  · exact .inl rfl
  · obtain ⟨hmem, hne⟩ := List.mem_filter.mp h
    exact .inr ⟨bne_iff_ne.mp hne, hmem⟩

theorem lookup_eq_some {m : Lru κ ν} : m.entries.lookup k = some v ↔ (k, v) ∈ m.entries := by
  obtain ⟨_, entries, nodup, _⟩ := m
  simp only
  clear * - nodup
  induction entries with
  | nil => simp
  | cons e entries ih =>
    obtain ⟨j, w⟩ := e
    obtain ⟨hj, htail⟩ := List.nodup_cons.mp nodup
    by_cases hk : k = j
    · subst hk
      have hnot : (k, v) ∉ entries := fun hv => hj (List.mem_map.mpr ⟨(k, v), hv, rfl⟩)
      simp [hnot, eq_comm]
    · have hne : (k == j) = false := by simpa using hk
      simp [List.lookup_cons, hne, hk, ih htail]

/-! ## Histories -/

/-- The keys are the first `cap` ones of the history, in order of their last use. -/
def Tracks (m : Lru κ ν) (hist : List κ) : Prop := m.keys = (lastUses hist).take m.cap

namespace Tracks

theorem new (cap : Nat) : (Lru.new cap : Lru κ ν).Tracks [] := by
  simp [Tracks, Lru.new, keys]

theorem use {m : Lru κ ν} (h : m.Tracks hist) (k : κ) (v : ν) :
    (m.use k v).Tracks (hist ++ [k]) := by
  unfold Tracks at h ⊢
  rw [keys_use, cap_use, lastUses_snoc, h]
  cases m.cap with
  | zero => rfl
  | succ n => rw [List.take_succ_cons, List.take_succ_cons, take_filter_take (nodup_lastUses hist)]

/-- A key is still there as long as fewer than `cap` others have been used since. -/
theorem mem_keys_iff {m : Lru κ ν} (h : m.Tracks hist) :
    k ∈ m.keys ↔ k ∈ hist ∧ (hist.rtakeWhile (· != k)).toFinset.card < m.cap := by
  have hnodup : ((lastUses hist).takeWhile (· != k)).Nodup :=
    List.Nodup.sublist (List.takeWhile_sublist _) (nodup_lastUses hist)
  rw [h, mem_take_iff, mem_lastUses, ← toFinset_takeWhile_lastUses,
    List.toFinset_card_of_nodup hnodup]

end Tracks

end Lru

end Ravn.Theory
