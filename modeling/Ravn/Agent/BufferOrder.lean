import Ravn.Agent.Buffer
import Ravn.Theory.Transition
import Mathlib.Data.List.Nodup

/-! Which rows the offline buffer keeps, and in which order it returns them. Rows are ordered by the
wall clock at the time they were stored. As long as no row is stored at a time before that of a row
present, that is the order of the calls, and the row that goes at the cap is the one stored first; a
clock that is stepped back breaks both at that call. -/

namespace Ravn

open Theory

namespace Outbox

variable {t : Outbox α}

/-- The times do not decrease from row to row. -/
def Sorted (t : Outbox α) : Prop := t.Pairwise fun a b => a.enqueuedAt ≤ b.enqueuedAt

/-- There is at most one row for each event id. -/
def Distinct (t : Outbox α) : Prop := (t.map OutboxRow.eventId).Nodup

theorem sorted_oldestFirst (t : Outbox α) : t.oldestFirst.Sorted := by
  refine (List.pairwise_mergeSort ?_ ?_ t).imp fun h => of_decide_eq_true h
  · intro a b c hab hbc
    exact decide_eq_true ((of_decide_eq_true hab).trans (of_decide_eq_true hbc))
  · intro a b
    rw [Bool.or_eq_true, decide_eq_true_iff, decide_eq_true_iff]
    exact Int.le_total _ _

theorem Sorted.oldestFirst_eq (h : t.Sorted) : t.oldestFirst = t :=
  List.mergeSort_of_pairwise (h.imp fun h => decide_eq_true h)

/-- A table is in order exactly if every batch of it is. -/
theorem sorted_iff : t.Sorted ↔
    ∀ n : UInt64, t.oldestFirst.limit n.toInt64.toInt = t.limit n.toInt64.toInt := by
  constructor
  · intro h n
    rw [h.oldestFirst_eq]
  · intro h
    have hall : (18446744073709551615 : UInt64).toInt64.toInt = -1 := by decide
    have hwhole := h 18446744073709551615
    rw [hall, limit, limit, if_pos (by decide), if_pos (by decide)] at hwhole
    exact hwhole ▸ sorted_oldestFirst t

theorem insertOrIgnore_of_not {r : OutboxRow α} (h : t.hasId r.eventId = false) :
    t.insertOrIgnore r = t ++ [r] := by
  rw [insertOrIgnore, h]
  rfl

theorem insertOrIgnore_of_hasId {r : OutboxRow α} (h : t.hasId r.eventId = true) :
    t.insertOrIgnore r = t := if_pos h

theorem hasId_eq_false : t.hasId i = false ↔ ∀ r ∈ t, r.eventId ≠ i := by
  simp [hasId]

theorem Distinct.insertOrIgnore (h : t.Distinct) (r : OutboxRow α) :
    (t.insertOrIgnore r).Distinct := by
  cases hid : t.hasId r.eventId with
  | true => rwa [insertOrIgnore_of_hasId hid]
  | false =>
    rw [insertOrIgnore_of_not hid, Distinct, List.map_append]
    refine List.nodup_append.mpr ⟨h, List.nodup_singleton _, ?_⟩
    rintro _ hs _ hr rfl
    obtain ⟨s, hs, heq⟩ := List.mem_map.mp hs
    exact hasId_eq_false.mp hid s hs (heq.trans (List.mem_singleton.mp hr))

theorem sorted_snoc {r : OutboxRow α} :
    Sorted (t ++ [r]) ↔ t.Sorted ∧ ∀ s ∈ t, s.enqueuedAt ≤ r.enqueuedAt := by
  simp [Sorted, List.pairwise_append]

theorem deleteIn_take (h : t.Distinct) (k : Nat) :
    t.deleteIn ((t.take k).map OutboxRow.eventId) = t.drop k := by
  have hnodup : ((t.take k).map OutboxRow.eventId ++ (t.drop k).map OutboxRow.eventId).Nodup := by
    rw [← List.map_append, List.take_append_drop]
    exact h
  obtain ⟨-, -, hdisjoint⟩ := List.nodup_append.mp hnodup
  have htake : deleteIn (t.take k) ((t.take k).map OutboxRow.eventId) = [] := by
    refine List.filter_eq_nil_iff.mpr fun r hr => ?_
    rw [decide_eq_true_iff, not_not]
    exact List.mem_map_of_mem hr
  have hdrop : deleteIn (t.drop k) ((t.take k).map OutboxRow.eventId) = t.drop k :=
    List.filter_eq_self.mpr fun r hr => decide_eq_true fun hmem =>
      hdisjoint _ hmem _ (List.mem_map_of_mem hr) rfl
  have hsplit : deleteIn (t.take k ++ t.drop k) ((t.take k).map OutboxRow.eventId) = t.drop k := by
    rw [deleteIn, List.filter_append]
    exact (congrArg₂ (· ++ ·) htake hdrop).trans (List.nil_append _)
  rwa [List.take_append_drop] at hsplit

/-- From a table in order the first rows go. -/
theorem Sorted.prune_eq (h : t.Sorted) (hd : t.Distinct) (cap : Nat) :
    t.prune cap = t.drop (t.length - cap) := by
  have hexcess : limit (max 0 ((t.length : Int) - cap)) t = t.take (t.length - cap) := by
    rw [limit, if_neg (by omega)]
    congr 1
    omega
  rw [prune, h.oldestFirst_eq, hexcess, deleteIn_take hd]

/-- A negative cap leaves nothing. -/
theorem prune_of_neg (h : cap < 0) : t.prune cap = [] := by
  refine List.filter_eq_nil_iff.mpr fun r hr => ?_
  have hall : limit (max 0 ((t.length : Int) - cap)) t.oldestFirst = t.oldestFirst := by
    rw [limit, if_neg (by omega)]
    refine List.take_of_length_le ?_
    rw [oldestFirst, List.length_mergeSort]
    omega
  rw [hall, decide_eq_true_iff, not_not]
  exact List.mem_map_of_mem (List.mem_mergeSort.mpr hr)

/-- If it is the first row that goes, no row has an earlier time. -/
theorem le_of_prune_eq_tail {r : OutboxRow α} (h : prune (r :: t) cap = t)
    (hexcess : ((r :: t).length : Int) - cap = 1) (hs : s ∈ t) : r.enqueuedAt ≤ s.enqueuedAt := by
  have hsorted := sorted_oldestFirst (r :: t)
  cases hfirst : oldestFirst (r :: t) with
  | nil =>
    have hmem : r ∈ oldestFirst (r :: t) := List.mem_mergeSort.mpr List.mem_cons_self
    rw [hfirst] at hmem
    exact absurd hmem List.not_mem_nil
  | cons x rest =>
    rw [hfirst] at hsorted
    have hmem : ∀ {y}, y ∈ x :: rest ↔ y ∈ r :: t := by
      intro y
      rw [← hfirst]
      exact List.mem_mergeSort
    have hone : limit (max 0 (((r :: t).length : Int) - cap)) (x :: rest) = [x] := by
      rw [hexcess]
      rfl
    rw [prune, hfirst, hone] at h
    -- The row that goes is the first one of the table.
    have hx : x = r := by
      obtain rfl | hx := List.mem_cons.mp (hmem.mp List.mem_cons_self)
      · rfl
      · rw [← h] at hx
        exact absurd (of_decide_eq_true (List.mem_filter.mp hx).2) (by simp)
    subst hx
    obtain rfl | hs' := List.mem_cons.mp (hmem.mpr (List.mem_cons_of_mem _ hs))
    · exact Int.le_refl _
    · exact List.rel_of_pairwise_cons hsorted hs'

end Outbox

namespace Buffer

/-! ## The condition and the property -/

/-- A row that keeps the order: if it is new it comes with a time no earlier than those of the rows
present, and it is pruned for if there is no room. The cap that is pruned to fits an `i64`. -/
def SteadyRow (b : Buffer (List Char)) (eventId : String) (now : Int) (pruned : Bool) : Prop :=
  (pruned = true → b.max.toNat < 2 ^ 63) ∧
    (b.outbox.hasId eventId = false →
      (∀ r ∈ b.outbox, r.enqueuedAt ≤ now) ∧ (b.outbox.length < b.max.toNat ∨ pruned = true))

/-- A call that keeps the order. A restart has room for what the file holds. -/
def Steady (b : Buffer (List Char)) : BufferCall → Prop
  | .enqueue msg now inserted pruned =>
    inserted = true → b.SteadyRow msg.event.id.toString now pruned
  | .reopen max => b.outbox.length ≤ (Max.max max 1).toNat
  | _ => True

section

variable (P : Platform) (parseTime : String → Option DateTime)

/-- What storing a row comes to: over the cap the row that was stored first goes, and never the new
one. -/
def RowStored (b : Buffer (List Char)) (r : OutboxRow (List Char)) (b' : Buffer (List Char)) : Prop :=
  b'.outbox = (if (b.outbox.insertOrIgnore r).length ≤ b.max.toNat then b.outbox.insertOrIgnore r
    else (b.outbox.insertOrIgnore r).tail) ∧
  b'.outbox.hasId r.eventId = true

/-- What a call does to the rows: `enqueue` stores one, `drain_batch` returns rows in order and drops
what cannot be parsed, and `delete` drops the row it names. -/
def RowsKept (b : Buffer (List Char)) : BufferCall → Prop
  | .enqueue msg now true pruned =>
    b.RowStored ⟨msg.event.id.toString, msg.toText P, now⟩ (b.enqueue P msg now true pruned)
  | .enqueue msg now false pruned => b.enqueue P msg now false pruned = b
  | .drainBatch n read deleted =>
    let r := b.drainBatch parseTime n read deleted
    (∀ out, r.1 = some out → (out.map Prod.fst).Sublist (b.outbox.map OutboxRow.eventId)) ∧
      r.2.outbox.Sublist b.outbox ∧
      ∀ row ∈ b.outbox, row ∉ r.2.outbox → Message.fromText parseTime row.message = none
  | .delete eventId deleted =>
    (b.delete eventId deleted).outbox =
      if deleted then b.outbox.filter fun r => r.eventId ≠ eventId else b.outbox
  | .reopen max => (openAt b.outbox max).outbox = b.outbox

/-- The buffer after a call holds at most as many rows as its cap, one for each event id, and every
batch of it is in the order in which its rows were stored. -/
structure KeepsNewest (b : Buffer (List Char)) (c : BufferCall) : Prop where
  within : (b.perform P parseTime c).outbox.length ≤ (b.perform P parseTime c).max.toNat
  distinct : (b.perform P parseTime c).outbox.Distinct
  inOrder : ∀ n, (b.perform P parseTime c).batch n =
    (b.perform P parseTime c).outbox.limit n.toInt64.toInt
  rows : b.RowsKept P parseTime c

end

/-- What holds of the buffer between calls. -/
structure Ordered (b : Buffer (List Char)) : Prop where
  within : b.outbox.length ≤ b.max.toNat
  distinct : b.outbox.Distinct
  sorted : b.outbox.Sorted
  cap_pos : 1 ≤ b.max.toNat

section

variable {P : Platform} {parseTime : String → Option DateTime} {b : Buffer (List Char)}

/-! ## One call -/

theorem toInt_max {m : UInt64} (h : m.toNat < 2 ^ 63) : m.toInt64.toInt = m.toNat := by
  change m.toBitVec.toInt = m.toNat
  refine BitVec.toInt_eq_toNat_of_lt ?_
  change 2 * m.toNat < 2 ^ 64
  omega

theorem toInt_max_neg {m : UInt64} (h : ¬m.toNat < 2 ^ 63) : m.toInt64.toInt < 0 := by
  change m.toBitVec.toInt < 0
  rw [BitVec.toInt_neg_iff]
  change 2 ^ 64 ≤ 2 * m.toNat
  omega

theorem one_le_cap (m : UInt64) : 1 ≤ (Max.max m 1).toNat := by
  change 1 ≤ (if m ≤ 1 then (1 : UInt64) else m).toNat
  split
  · decide
  · rename_i h
    have hlt := UInt64.lt_iff_toNat_lt.mp (UInt64.not_le.mp h)
    exact hlt.le

/-- The rows of a batch: what is read of them comes in their order, and what is deleted did not
parse. -/
theorem drainRows_spec (deleted : String → Bool) (rows : Outbox (List Char)) :
    (drainRows parseTime deleted rows b).2.max = b.max ∧
      (drainRows parseTime deleted rows b).2.outbox.Sublist b.outbox ∧
      (∀ out, (drainRows parseTime deleted rows b).1 = some out →
        (out.map Prod.fst).Sublist (rows.map OutboxRow.eventId)) ∧
      ∀ row ∈ b.outbox, row ∉ (drainRows parseTime deleted rows b).2.outbox →
        ∃ r ∈ rows, r.eventId = row.eventId ∧ Message.fromText parseTime r.message = none := by
  induction rows generalizing b with
  | nil =>
    refine ⟨rfl, List.Sublist.refl _, ?_, fun row hrow hnot => absurd hrow hnot⟩
    rintro out ⟨⟩
    exact List.Sublist.refl _
  | cons r rows ih =>
    unfold drainRows
    cases hread : Message.fromText parseTime r.message with
    | some m =>
      obtain ⟨hmax, hsub, hout, hgone⟩ := ih (b := b)
      refine ⟨hmax, hsub, ?_, fun row hrow hnot => ?_⟩
      · intro out heq
        obtain ⟨out', hout', rfl⟩ := Option.map_eq_some_iff.mp heq
        exact (hout out' hout').cons_cons _
      · obtain ⟨r', hr', h⟩ := hgone row hrow hnot
        exact ⟨r', List.mem_cons_of_mem _ hr', h⟩
    | none =>
      dsimp only
      split
      · obtain ⟨hmax, hsub, hout, hgone⟩ := ih (b := b.delete r.eventId true)
        refine ⟨hmax, hsub.trans List.filter_sublist, fun out heq => (hout out heq).cons _,
          fun row hrow hnot => ?_⟩
        by_cases hid : r.eventId = row.eventId
        · exact ⟨r, List.mem_cons_self, hid, hread⟩
        · have hkept : row ∈ (b.delete r.eventId true).outbox :=
            List.mem_filter.mpr ⟨hrow, by simpa using Ne.symm hid⟩
          obtain ⟨r', hr', h⟩ := hgone row hkept hnot
          exact ⟨r', List.mem_cons_of_mem _ hr', h⟩
      · refine ⟨rfl, List.Sublist.refl _, ?_, fun row hrow hnot => absurd hrow hnot⟩
        rintro out ⟨⟩

theorem max_drainBatch (n : UInt64) (read : Bool) (deleted : String → Bool) :
    (b.drainBatch parseTime n read deleted).2.max = b.max := by
  cases read with
  | false => rfl
  | true => exact (drainRows_spec deleted _).1

/-- A buffer that is in order stays so as long as its rows only go. -/
theorem Ordered.of_sublist (h : b.Ordered) {b' : Buffer (List Char)} (hmax : b'.max = b.max)
    (hsub : b'.outbox.Sublist b.outbox) : b'.Ordered where
  within := by
    rw [hmax]
    exact hsub.length_le.trans h.within
  distinct := h.distinct.sublist (hsub.map _)
  sorted := h.sorted.sublist hsub
  cap_pos := hmax ▸ h.cap_pos

theorem Ordered.batch_eq (h : b.Ordered) (n : UInt64) :
    b.batch n = b.outbox.limit n.toInt64.toInt := by
  rw [batch, h.sorted.oldestFirst_eq]

theorem limit_sublist (n : Int) (t : Outbox α) : (t.limit n).Sublist t := by
  unfold Outbox.limit
  split
  · exact List.Sublist.refl _
  · exact List.take_sublist _ _

theorem rowsKept_drainBatch (h : b.Ordered) (n : UInt64) (read : Bool) (deleted : String → Bool) :
    b.RowsKept P parseTime (.drainBatch n read deleted) ∧
      (b.drainBatch parseTime n read deleted).2.outbox.Sublist b.outbox := by
  cases read with
  | false =>
    exact ⟨⟨nofun, List.Sublist.refl _, fun row hrow hnot => absurd hrow hnot⟩,
      List.Sublist.refl _⟩
  | true =>
    obtain ⟨-, hsub, hout, hgone⟩ : (drainRows parseTime deleted (b.batch n) b).2.max = b.max ∧ _ :=
      drainRows_spec deleted (b.batch n)
    have hbatch : (b.batch n).Sublist b.outbox := h.batch_eq n ▸ limit_sublist _ _
    refine ⟨⟨fun out heq => (hout out heq).trans (hbatch.map _), hsub, fun row hrow hnot => ?_⟩, hsub⟩
    obtain ⟨r, hr, hid, hread⟩ := hgone row hrow hnot
    -- The ids are distinct, so the row that went is the one that did not parse.
    have hsame := List.inj_on_of_nodup_map h.distinct (hbatch.subset hr) hrow hid
    exact hsame ▸ hread

theorem outbox_store (b : Buffer α) (r : OutboxRow α) (pruned : Bool) :
    (b.store r true pruned).outbox =
      if pruned = true then (b.outbox.insertOrIgnore r).prune b.max.toInt64.toInt
      else b.outbox.insertOrIgnore r := rfl

variable {r : OutboxRow (List Char)}

/-- A row that keeps the order leaves the table in order, less its first row if it is over the cap. -/
theorem store_eq (h : b.Ordered) (hr : b.SteadyRow r.eventId r.enqueuedAt pruned) :
    (b.outbox.insertOrIgnore r).Sorted ∧
      (b.store r true pruned).outbox =
        if (b.outbox.insertOrIgnore r).length ≤ b.max.toNat then b.outbox.insertOrIgnore r
        else (b.outbox.insertOrIgnore r).tail := by
  obtain ⟨hfits, hnew⟩ := hr
  have hwithin := h.within
  rw [outbox_store]
  cases hid : b.outbox.hasId r.eventId with
  | true =>
    rw [Outbox.insertOrIgnore_of_hasId hid, if_pos hwithin]
    refine ⟨h.sorted, ?_⟩
    split
    · rw [toInt_max (hfits ‹_›)]
      exact Outbox.prune_of_le (Int.ofNat_le.mpr hwithin)
    · rfl
  | false =>
    obtain ⟨hclock, hroom⟩ := hnew hid
    have hsorted := Outbox.sorted_snoc.mpr ⟨h.sorted, hclock⟩
    have hdistinct := h.distinct.insertOrIgnore r
    rw [Outbox.insertOrIgnore_of_not hid] at hdistinct ⊢
    refine ⟨hsorted, ?_⟩
    rw [List.length_append, List.length_singleton]
    cases pruned with
    | false =>
      have hlt : b.outbox.length < b.max.toNat := hroom.resolve_right Bool.false_ne_true
      exact (if_pos hlt).symm
    | true =>
      -- At most one row is over the cap.
      have hprune := hsorted.prune_eq hdistinct b.max.toNat
      rw [List.length_append, List.length_singleton] at hprune
      rw [if_pos rfl, toInt_max (hfits rfl), hprune]
      split
      · rw [Nat.sub_eq_zero_of_le ‹_›, List.drop_zero]
      · have hone : b.outbox.length + 1 - b.max.toNat = 1 := by omega
        rw [hone, List.drop_one]

/-- The row that was stored is there, and the buffer is in order. -/
theorem ordered_store (h : b.Ordered) (hr : b.SteadyRow r.eventId r.enqueuedAt pruned) :
    (b.store r true pruned).Ordered ∧ b.RowStored r (b.store r true pruned) := by
  obtain ⟨hsorted, hout⟩ := store_eq h hr
  have hdistinct := h.distinct.insertOrIgnore r
  have hmax : (b.store r true pruned).max = b.max := rfl
  have hwithin := h.within
  have hpos := h.cap_pos
  have hlength : (b.outbox.insertOrIgnore r).length ≤ b.outbox.length + 1 := by
    unfold Outbox.insertOrIgnore
    split
    · exact Nat.le_succ _
    · exact List.length_append.le
  have hsub : (b.store r true pruned).outbox.Sublist (b.outbox.insertOrIgnore r) := by
    rw [hout]
    split
    · exact List.Sublist.refl _
    · exact List.tail_sublist _
  refine ⟨⟨?_, hdistinct.sublist (hsub.map _), hsorted.sublist hsub, hpos⟩, hout, ?_⟩
  · rw [hmax, hout]
    split
    · assumption
    · rw [List.length_tail]
      omega
  · rw [hout]
    cases hid : b.outbox.hasId r.eventId with
    | true =>
      rw [Outbox.insertOrIgnore_of_hasId hid, if_pos hwithin]
      exact hid
    | false =>
      rw [Outbox.insertOrIgnore_of_not hid, List.length_append, List.length_singleton]
      split
      · simp [Outbox.hasId]
      · have hne : b.outbox ≠ [] := List.ne_nil_of_length_pos (by omega)
        rw [List.tail_append_of_ne_nil hne]
        simp [Outbox.hasId]

/-- A row that is stored and pruned for as the property says keeps the order. -/
theorem steadyRow_of (h : b.Ordered) (hstored : b.RowStored r (b.store r true pruned))
    (hwithin : (b.store r true pruned).outbox.length ≤ b.max.toNat)
    (hsorted : (b.store r true pruned).outbox.Sorted) :
    b.SteadyRow r.eventId r.enqueuedAt pruned := by
  obtain ⟨hout, hmem⟩ := hstored
  rw [outbox_store] at hmem hwithin hsorted hout
  have hfits : pruned = true → b.max.toNat < 2 ^ 63 := by
    refine fun hpruned => Classical.byContradiction fun hbig => ?_
    rw [if_pos hpruned, Outbox.prune_of_neg (toInt_max_neg hbig)] at hmem
    cases hmem
  refine ⟨hfits, fun hid => ?_⟩
  have hroom : b.outbox.length < b.max.toNat ∨ pruned = true := by
    cases pruned with
    | true => exact .inr rfl
    | false =>
      rw [if_neg Bool.false_ne_true, Outbox.insertOrIgnore_of_not hid, List.length_append] at hwithin
      exact .inl hwithin
  refine ⟨?_, hroom⟩
  rw [hout] at hsorted
  rw [Outbox.insertOrIgnore_of_not hid] at hsorted hout
  split at hsorted
  · exact (Outbox.sorted_snoc.mp hsorted).2
  · rename_i hover
    rw [if_neg hover] at hout
    rw [List.length_append, List.length_singleton] at hover
    have hpos := h.cap_pos
    have hle := h.within
    obtain rfl : pruned = true := hroom.resolve_left (by omega)
    rw [if_pos rfl, toInt_max (hfits rfl)] at hout
    cases hb : b.outbox with
    | nil => exact fun _ hs => absurd hs List.not_mem_nil
    | cons x rest =>
      rw [hb] at hout hsorted hover hle
      -- The first row is the one that went, so it is no later than the new one.
      have hfirst : x.enqueuedAt ≤ r.enqueuedAt := by
        refine Outbox.le_of_prune_eq_tail (t := rest ++ [r]) hout ?_
          (List.mem_append_right _ List.mem_cons_self)
        rw [List.length_cons] at hle hover ⊢
        rw [List.length_append, List.length_singleton]
        omega
      exact List.forall_mem_cons.mpr ⟨hfirst, (Outbox.sorted_snoc.mp hsorted).2⟩

theorem ordered_perform (h : b.Ordered) (hc : b.Steady c) :
    (b.perform P parseTime c).Ordered ∧ b.RowsKept P parseTime c := by
  cases c with
  | enqueue msg now inserted pruned =>
    cases inserted with
    | false => exact ⟨h, rfl⟩
    | true =>
      have hr := hc rfl
      exact ordered_store (r := ⟨_, msg.toText P, now⟩) h hr
  | drainBatch n read deleted =>
    obtain ⟨hrows, hsub⟩ : b.RowsKept P parseTime (.drainBatch n read deleted) ∧ _ :=
      rowsKept_drainBatch h n read deleted
    exact ⟨h.of_sublist (max_drainBatch n read deleted) hsub, hrows⟩
  | delete eventId deleted =>
    cases deleted with
    | false => exact ⟨h, rfl⟩
    | true => exact ⟨h.of_sublist rfl List.filter_sublist, by simp [RowsKept, delete, Outbox.deleteIn]⟩
  | reopen max => exact ⟨⟨hc, h.distinct, h.sorted, one_le_cap max⟩, rfl⟩

/-- A call does what the property says exactly if it keeps the order. -/
theorem steady_iff (h : b.Ordered) (c : BufferCall) : b.Steady c ↔ b.KeepsNewest P parseTime c := by
  constructor
  · intro hc
    obtain ⟨hordered, hrows⟩ := ordered_perform h hc
    exact ⟨hordered.within, hordered.distinct, hordered.batch_eq, hrows⟩
  · intro hk
    cases c with
    | enqueue msg now inserted pruned =>
      intro hinserted
      subst hinserted
      exact steadyRow_of (r := ⟨_, msg.toText P, now⟩) h hk.rows hk.within
        (Outbox.sorted_iff.mpr hk.inOrder)
    | drainBatch n read deleted => trivial
    | delete eventId deleted => trivial
    | reopen max => exact hk.within

theorem ordered_open (max : UInt64) : (Buffer.open max).Ordered :=
  ⟨Nat.zero_le _, List.nodup_nil, List.Pairwise.nil, one_le_cap max⟩

/-! ## A run -/

/-- Along a run the buffer keeps the newest rows exactly if every call keeps the order. -/
theorem keeps_newest_iff (P : Platform) (parseTime : String → Option DateTime) (max : UInt64)
    (calls : List BufferCall) :
    Along (fun b c => some (b.perform P parseTime c)) Steady (.open max) calls ↔
      Along (fun b c => some (b.perform P parseTime c)) (KeepsNewest P parseTime) (.open max) calls := by
  refine along_congr (I := Ordered) (fun h => steady_iff h _) ?_ (ordered_open max)
  rintro b c _ h hk ⟨⟩
  exact (ordered_perform h ((steady_iff h c).mpr hk)).1

end

/-! ## A clock that is stepped back -/

/-- The journal entry that comes next. -/
def nextMessage : Message :=
  { Message.carrying .null with event := { (Message.carrying .null).event with id := ⟨12⟩ } }

theorem prune_pair {r s : OutboxRow α} (htime : s.enqueuedAt < r.enqueuedAt)
    (hid : r.eventId ≠ s.eventId) : Outbox.prune [r, s] 1 = [r] := by
  have hsort : Outbox.oldestFirst [r, s] = [s, r] := by
    simp [Outbox.oldestFirst, List.mergeSort, not_le.mpr htime]
  rw [Outbox.prune, hsort]
  simp [Outbox.limit, Outbox.deleteIn, hid]

theorem store_stepped_back {r s : OutboxRow α} (htime : s.enqueuedAt < r.enqueuedAt)
    (hid : r.eventId ≠ s.eventId) :
    (Buffer.open 1).store r true true = ⟨[r], 1⟩ ∧
      (Buffer.mk [r] 1).store s true true = ⟨[r], 1⟩ := by
  have hopen : (Buffer.open 1 : Buffer α) = ⟨[], 1⟩ := congrArg (Buffer.mk []) (by decide)
  have hcap : (1 : UInt64).toInt64.toInt = 1 := by decide
  have hnew : Outbox.insertOrIgnore [r] s = [r, s] :=
    Outbox.insertOrIgnore_of_not (Outbox.hasId_eq_false.mpr (by simpa using hid))
  constructor
  · rw [hopen]
    have hone : Outbox.prune [r] (1 : UInt64).toInt64.toInt = [r] := Outbox.prune_of_le (by simp)
    exact congrArg (Buffer.mk · 1) hone
  · have hpruned := prune_pair htime hid
    rw [← hnew, ← hcap] at hpruned
    exact congrArg (Buffer.mk · 1) hpruned

/-- With room for one row and the clock stepped back, the row that was just stored goes. -/
theorem new_row_pruned :
    let first := Message.carrying .null
    let b := (Buffer.open 1).enqueue Platform.sample first 10 true true
    let b' := b.enqueue Platform.sample nextMessage 5 true true
    b'.outbox = b.outbox ∧ b'.outbox.hasId nextMessage.event.id.toString = false ∧
      ¬Along (fun b c => some (b.perform Platform.sample Platform.sampleParseTime c))
        (KeepsNewest Platform.sample Platform.sampleParseTime) (.open 1)
        [.enqueue first 10 true true, .enqueue nextMessage 5 true true] := by
  have hids : (Message.carrying .null).event.id.toString ≠ nextMessage.event.id.toString := by
    decide
  have htime : (5 : Int) < 10 := by decide
  obtain ⟨hfirst, hnext⟩ := store_stepped_back
    (r := ⟨_, (Message.carrying .null).toText Platform.sample, 10⟩)
    (s := ⟨_, nextMessage.toText Platform.sample, 5⟩) htime hids
  have hb : (Buffer.open 1).enqueue Platform.sample (Message.carrying .null) 10 true true = _ := hfirst
  intro first b b'
  have hb' : b' = b := by
    refine (congrArg (fun b => b.enqueue Platform.sample nextMessage 5 true true) hb).trans ?_
    exact hnext.trans hfirst.symm
  have hgone : b.outbox.hasId nextMessage.event.id.toString = false := by
    change (Buffer.enqueue ..).outbox.hasId _ = false
    rw [hb]
    exact Outbox.hasId_eq_false.mpr fun r hr => List.mem_singleton.mp hr ▸ hids
  refine ⟨congrArg outbox hb', hb' ▸ hgone, fun h => ?_⟩
  have hstored : b'.outbox.hasId nextMessage.event.id.toString = true := ((h.2 _ rfl).1).rows.2
  rw [hb', hgone] at hstored
  cases hstored

end Buffer

end Ravn
