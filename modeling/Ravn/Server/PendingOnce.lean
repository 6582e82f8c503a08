import Ravn.Server.DedupCache
import Ravn.Theory.Interleaving

/-! Concurrent calls of the audit store. The duplicate test of an insert, its statement and its update
of the cache are separate steps, and so are the steps of a decision. A fault has at most one pending
proposal as long as no insert passes the test while another one of the same key is under way, and no
key is evicted that a pending row has. -/

namespace Ravn

open Theory

/-! ## Calls, cut at their accesses -/

inductive StoreRequest where
  | insert (proposal : RemediationProposal) (faultSignature : String)
  | approve (id : Uuid) («by» : ApprovalRef) (commandId : Uuid) (signature : Option String)
  | reject (id : Uuid) («by» : String) (reason : Option String)

/-- A call, by the access it makes next. -/
inductive StoreTask where
  /-- `insert`: the test of the cache, the INSERT, the update of the cache. -/
  | insertCheck (proposal : RemediationProposal) (faultSignature : String)
  | insertRow (proposal : RemediationProposal) (faultSignature : String)
  | insertKey (key : DedupKey)
  /-- `approve`: the SELECT for the key, the UPDATE. -/
  | approveKey (id : Uuid) («by» : ApprovalRef) (commandId : Uuid) (signature : Option String)
  | approveUpdate (id : Uuid) («by» : ApprovalRef) (commandId : Uuid) (signature : Option String)
      (key : Option DedupKey)
  /-- `reject`, likewise. -/
  | rejectKey (id : Uuid) («by» : String) (reason : Option String)
  | rejectUpdate (id : Uuid) («by» : String) («at» : DateTime) (reason : Option String)
      (key : Option DedupKey)
  /-- The eviction at the end of a decision. -/
  | evict (key : DedupKey)
  | finished

def StoreRequest.start : StoreRequest → StoreTask
  | insert proposal faultSignature => .insertCheck proposal faultSignature
  | approve id «by» commandId signature => .approveKey id «by» commandId signature
  | reject id «by» reason => .rejectKey id «by» reason

/-- What an access draws from outside. -/
structure StoreDraw where
  reply : Reply
  now : DateTime

namespace StoreTask

/-- Where a decision goes on after its UPDATE. -/
def afterUpdate : Bool → Option DedupKey → StoreTask
  | true, some key => .evict key
  | _, _ => .finished

def step (s : RemediationStore) (task : StoreTask) (d : StoreDraw) :
    Option (RemediationStore × StoreTask) :=
  match task with
  | insertCheck proposal faultSignature =>
    some (s, if DedupKey.fromProposal proposal ∈ s.pendingKeys then .finished
      else .insertRow proposal faultSignature)
  | insertRow proposal faultSignature =>
    some (if d.reply.ok then
        ({ s with rows := s.rows.insertRemediation proposal faultSignature d.reply.now },
          .insertKey (.fromProposal proposal))
      else (s, .finished))
  | insertKey key => some ({ s with pendingKeys := insert key s.pendingKeys }, .finished)
  | approveKey id «by» commandId signature =>
    some (s, .approveUpdate id «by» commandId signature (s.pendingKey id d.reply.ok))
  | approveUpdate id «by» commandId signature key =>
    some (if d.reply.ok then
        let (found, rows) := s.rows.approveRemediation id (.approved «by») commandId signature
          d.reply.now
        ({ s with rows := rows }, afterUpdate found key)
      else (s, .finished))
  | rejectKey id «by» reason =>
    some (s, .rejectUpdate id «by» d.now reason (s.pendingKey id d.reply.ok))
  | rejectUpdate id «by» «at» reason key =>
    some (if d.reply.ok then
        let (found, rows) := s.rows.rejectRemediation id (.rejected «by» «at» reason) d.reply.now
        ({ s with rows := rows }, afterUpdate found key)
      else (s, .finished))
  | evict key => some ({ s with pendingKeys := s.pendingKeys.erase key }, .finished)
  | finished => none

/-! Left alone, a call amounts to the store's operation. -/

section

variable (s : RemediationStore) (d₁ d₂ d₃ : StoreDraw)

theorem alone_insert (proposal : RemediationProposal) (sig : String) :
    Pool.alone step s (.insertCheck proposal sig) [d₁, d₂, d₃] =
      ((s.insert proposal sig d₂.reply).2, .finished) := by
  unfold RemediationStore.insert
  by_cases hkey : DedupKey.fromProposal proposal ∈ s.pendingKeys
  · simp only [Pool.alone, step, hkey, if_true]
  · simp only [Pool.alone, step, hkey, if_false]
    cases d₂.reply.ok <;> rfl

theorem alone_decision {u : Bool × Table} (key : Option DedupKey) :
    Pool.alone step { s with rows := u.2 } (afterUpdate u.1 key) [d₃] =
      ((s.decided u key).2, .finished) := by
  unfold RemediationStore.decided
  cases u.1 <;> cases key <;> rfl

theorem alone_approve (id : Uuid) («by» : ApprovalRef) (commandId : Uuid)
    (signature : Option String) :
    Pool.alone step s (.approveKey id «by» commandId signature) [d₁, d₂, d₃] =
      ((s.approve id «by» commandId signature d₁.reply.ok d₂.reply).2, .finished) := by
  simp only [Pool.alone, step, RemediationStore.approve]
  cases d₂.reply.ok with
  | false => rfl
  | true => exact alone_decision s d₃ _

theorem alone_reject (id : Uuid) («by» : String) (reason : Option String) :
    Pool.alone step s (.rejectKey id «by» reason) [d₁, d₂, d₃] =
      ((s.reject id «by» d₁.now reason d₁.reply.ok d₂.reply).2, .finished) := by
  simp only [Pool.alone, step, RemediationStore.reject]
  cases d₂.reply.ok with
  | false => rfl
  | true => exact alone_decision s d₃ _

end

/-- The key that an insert which has passed the test is under way with. -/
def inserting : StoreTask → Option DedupKey
  | insertRow proposal _ => some (.fromProposal proposal)
  | insertKey key => some key
  | _ => none

/-- The insert has passed the test and has not made its statement. -/
def claims (key : DedupKey) : StoreTask → Bool
  | insertRow proposal _ => DedupKey.fromProposal proposal = key
  | _ => false

/-- The insert has made its statement and not updated the cache. -/
def caches (key : DedupKey) : StoreTask → Bool
  | insertKey key' => key' = key
  | _ => false

end StoreTask

abbrev StorePool := Pool RemediationStore StoreTask

abbrev StoreLabel := PoolLabel StoreRequest Empty StoreDraw

/-- A call arrives, or a call makes its next access. -/
def StorePool.step : StorePool → StoreLabel → Option StorePool :=
  Pool.step StoreRequest.start (fun _ e => nomatch e) StoreTask.step

/-- A store that starts over a table, with no call under way. -/
def StorePool.start (rows : Table) : StorePool := ⟨.new rows, []⟩

/-! ## At most one pending proposal -/

/-- No two rows in state pending have the same template, agent and parameters. -/
def Table.PendingOnce (t : Table) : Prop :=
  ((t.filter Row.isPending).map fun r =>
    (r.proposal.templateId, r.proposal.agentId, r.proposal.params)).Nodup

/-- When the test of an insert lets it pass, no other insert of the key is under way; and the key that
is evicted is not that of a pending row. -/
def StorePool.Admits (s : StorePool) : StoreTask → Prop
  | .insertCheck proposal _ =>
    DedupKey.fromProposal proposal ∉ s.shared.pendingKeys →
      ∀ task ∈ s.tasks, task.inserting ≠ some (.fromProposal proposal)
  | .evict key => key ∉ s.shared.rows.pendingKeys
  | _ => True

def StorePool.Undisturbed (s : StorePool) : StoreLabel → Prop
  | .advance i _ => ∀ task ∈ s.tasks[i]?, s.Admits task
  | _ => True

instance (s : StorePool) : ∀ task, Decidable (s.Admits task)
  | .insertCheck _ _ => inferInstanceAs (Decidable (_ → _))
  | .evict _ => inferInstanceAs (Decidable (_ ∉ _))
  | .insertRow _ _ | .insertKey _ | .approveKey .. | .approveUpdate .. | .rejectKey ..
  | .rejectUpdate .. | .finished => .isTrue trivial

instance (s : StorePool) : ∀ l, Decidable (s.Undisturbed l)
  | .advance i _ => inferInstanceAs (Decidable (∀ task ∈ s.tasks[i]?, s.Admits task))
  | .spawn _ | .access _ => .isTrue trivial

def Table.pendingCount (t : Table) (key : DedupKey) : Nat :=
  t.countP fun r => r.isPending && decide (r.key = key)

namespace Table

variable {t : Table} {key : DedupKey}

theorem pendingOnce_iff : t.PendingOnce ↔ ∀ key, t.pendingCount key ≤ 1 := by
  have hcount : ∀ key, t.pendingCount key = ((t.filter Row.isPending).map Row.key).count key := by
    intro key
    rw [List.count, List.countP_map, List.countP_filter]
    apply List.countP_congr
    intro r _
    simp [Bool.and_comm]
  simp only [hcount, ← List.nodup_iff_count]
  simp only [PendingOnce, List.Nodup, List.pairwise_map]
  refine List.Pairwise.iff fun {r r'} => not_congr ?_
  rw [Row.key, Row.key, DedupKey.fromProposal_inj]
  simp

theorem pendingCount_pos : 0 < t.pendingCount key ↔ key ∈ t.pendingKeys := by
  simp [pendingCount, mem_pendingKeys, List.countP_pos_iff]

theorem pendingCount_insertRemediation_le (p : RemediationProposal) (sig : String) (now : DateTime) :
    (t.insertRemediation p sig now).pendingCount key ≤
      t.pendingCount key + (decide (DedupKey.fromProposal p = key)).toNat := by
  unfold insertRemediation insertRow
  split
  · exact Nat.le_add_right _ _
  · rw [pendingCount, List.countP_append, List.countP_singleton, pendingCount]
    have hrow : (if (Row.isPending ⟨p, .pending, none, none, none, sig, now⟩ &&
        decide (Row.key ⟨p, .pending, none, none, none, sig, now⟩ = key)) = true then 1 else 0) =
          (decide (DedupKey.fromProposal p = key)).toNat := by
      by_cases hkey : DedupKey.fromProposal p = key <;>
        simp [Row.isPending, Decision.state, Row.key, hkey]
    rw [hrow]

/-- A decision takes rows out of the pending ones. -/
theorem pendingCount_updateWhere_le {cond : Row → Bool} {set : Row → Row}
    (hset : ∀ r, (set r).isPending = false) :
    (t.updateWhere cond set).2.pendingCount key ≤ t.pendingCount key := by
  rw [pendingCount, updateWhere, List.countP_map]
  apply List.countP_mono_left
  intro r _ h
  simp only [Function.comp_apply] at h
  split at h
  · simp [hset] at h
  · exact h

end Table

/-! ## The invariant -/

/-- A key is taken by one pending row or one insert before its statement; and while a row has it, it is
in the cache or about to be put there. The numbers are those of the inserts before and after their
statement. -/
structure RemediationStore.Holds (s : RemediationStore) (key : DedupKey) (claiming caching : Nat) :
    Prop where
  once : s.rows.pendingCount key + claiming ≤ 1
  guarded : 0 < s.rows.pendingCount key → key ∈ s.pendingKeys ∨ 0 < caching

namespace StoreTask

variable {s s' : RemediationStore} {task task' : StoreTask} {key : DedupKey}

/-- Pending rows may only become fewer, and the call takes up nothing. -/
theorem Holds.fewer {m n : Nat} (h : s.Holds key m n)
    (hcount : s'.rows.pendingCount key ≤ s.rows.pendingCount key)
    (hkeys : s'.pendingKeys = s.pendingKeys) : s'.Holds key m n := by
  have honce := h.once
  refine ⟨by omega, fun hpos => ?_⟩
  rw [hkeys]
  exact h.guarded (by omega)

/-- With the key out of the cache and no insert under way, no row has it, so it may be claimed. -/
theorem Holds.claim (h : s.Holds key 0 0) (hnew : key ∉ s.pendingKeys) (b : Bool) :
    s.Holds key b.toNat 0 := by
  have hnone : s.rows.pendingCount key = 0 := by
    by_contra hpos
    rcases h.guarded (Nat.pos_of_ne_zero hpos) with hmem | hcaching
    · exact hnew hmem
    · cases hcaching
  have hle := b.toNat_le
  exact ⟨by omega, fun hpos => absurd hpos (by omega)⟩

/-- The statement turns the claim into a row, unless it finds its primary key taken. -/
theorem Holds.inserted {m n : Nat} {p : RemediationProposal}
    (h : s.Holds key (m + (decide (DedupKey.fromProposal p = key)).toNat) n) (sig : String)
    (now : DateTime) :
    RemediationStore.Holds { s with rows := s.rows.insertRemediation p sig now } key m
      (n + (decide (DedupKey.fromProposal p = key)).toNat) := by
  have hcount : (s.rows.insertRemediation p sig now).pendingCount key ≤
      s.rows.pendingCount key + (decide (DedupKey.fromProposal p = key)).toNat :=
    Table.pendingCount_insertRemediation_le p sig now
  have honce := h.once
  refine ⟨?_, fun hpos => ?_⟩
  · change (s.rows.insertRemediation p sig now).pendingCount key + m ≤ 1
    omega
  · have hpos : 0 < (s.rows.insertRemediation p sig now).pendingCount key := hpos
    by_cases hkey : DedupKey.fromProposal p = key
    · right
      simp [hkey]
    · have hold : 0 < s.rows.pendingCount key := by
        simp only [hkey, decide_false, Bool.toNat_false] at hcount
        omega
      exact (h.guarded hold).imp_right fun hcaching =>
        Nat.lt_of_lt_of_le hcaching (Nat.le_add_right _ _)

/-- The key enters the cache. -/
theorem Holds.cached {m n : Nat} {k : DedupKey} (h : s.Holds key m (n + (decide (k = key)).toNat)) :
    RemediationStore.Holds { s with pendingKeys := insert k s.pendingKeys } key m n := by
  refine ⟨h.once, fun hpos => ?_⟩
  by_cases hkey : k = key
  · exact .inl (hkey ▸ Finset.mem_insert_self _ _)
  · refine (h.guarded hpos).imp (fun hmem => Finset.mem_insert_of_mem hmem) fun hcaching => ?_
    rwa [decide_eq_false hkey] at hcaching

/-- A key that no row has any more leaves the cache. -/
theorem Holds.evicted {m n : Nat} {k : DedupKey} (h : s.Holds key m n)
    (hgone : k ∉ s.rows.pendingKeys) :
    RemediationStore.Holds { s with pendingKeys := s.pendingKeys.erase k } key m n := by
  refine ⟨h.once, fun hpos => ?_⟩
  refine (h.guarded hpos).imp_left fun hmem => Finset.mem_erase.mpr ⟨?_, hmem⟩
  rintro rfl
  exact hgone (Table.pendingCount_pos.mp hpos)

/-- One access of a call, beside `m` and `n` others that are under way with the key. -/
theorem step_holds (h : step s task d = some (s', task'))
    (hcheck : ∀ p sig, task = .insertCheck p sig → DedupKey.fromProposal p ∉ s.pendingKeys →
      DedupKey.fromProposal p = key → m = 0 ∧ n = 0)
    (hevict : ∀ k, task = .evict k → k ∉ s.rows.pendingKeys)
    (hholds : s.Holds key (m + (task.claims key).toNat) (n + (task.caches key).toNat)) :
    s'.Holds key (m + (task'.claims key).toNat) (n + (task'.caches key).toNat) := by
  have hafter : ∀ found key', (afterUpdate found key').claims key = false ∧
      (afterUpdate found key').caches key = false := by
    intro found key'
    cases found <;> cases key' <;> exact ⟨rfl, rfl⟩
  cases task with
  | insertCheck p sig =>
    cases h
    split
    · exact hholds
    · rename_i hnew
      by_cases hkey : DedupKey.fromProposal p = key
      · obtain ⟨rfl, rfl⟩ := hcheck p sig rfl hnew hkey
        rw [Nat.zero_add]
        exact Holds.claim hholds (hkey ▸ hnew) _
      · have hclaims : claims key (.insertRow p sig) = false := decide_eq_false hkey
        rw [hclaims]
        exact hholds
  | insertRow p sig =>
    obtain ⟨-, h⟩ | ⟨-, h⟩ := of_ite_eq (Option.some.inj h)
    · cases h
      exact Holds.inserted hholds sig d.reply.now
    · cases h
      have honce := hholds.once
      refine ⟨?_, hholds.guarded⟩
      change _ + (m + 0) ≤ 1
      omega
  | insertKey k =>
    cases h
    exact Holds.cached hholds
  | approveKey id «by» commandId signature | rejectKey id «by» reason =>
    cases h
    exact hholds
  | approveUpdate id «by» commandId signature k | rejectUpdate id «by» «at» reason k =>
    obtain ⟨-, h⟩ | ⟨-, h⟩ := of_ite_eq (Option.some.inj h)
    · cases h
      rw [(hafter _ k).1, (hafter _ k).2]
      exact Holds.fewer hholds (Table.pendingCount_updateWhere_le fun _ => rfl) rfl
    · cases h
      exact hholds
  | evict k =>
    cases h
    exact Holds.evicted hholds (hevict k rfl)
  | finished => cases h

end StoreTask

namespace StorePool

def Inv (s : StorePool) : Prop :=
  ∀ key, s.shared.Holds key (s.tasks.countP (StoreTask.claims key))
    (s.tasks.countP (StoreTask.caches key))

theorem inv_start {rows : Table} (h : rows.PendingOnce) : Inv (start rows) := by
  intro key
  refine ⟨Table.pendingOnce_iff.mp h key, fun hpos => .inl ?_⟩
  exact Table.pendingCount_pos.mp hpos

/-- No task of the pool is under way with the key. -/
theorem countP_eq_zero {tasks : List StoreTask} {key : DedupKey}
    (h : ∀ task ∈ tasks, task.inserting ≠ some key) :
    tasks.countP (StoreTask.claims key) = 0 ∧ tasks.countP (StoreTask.caches key) = 0 := by
  simp only [List.countP_eq_zero]
  refine ⟨fun task htask hclaims => ?_, fun task htask hcaches => ?_⟩
  · cases task with
    | insertRow p sig => exact h _ htask (congrArg some (of_decide_eq_true hclaims))
    | _ => cases hclaims
  · cases task with
    | insertKey k => exact h _ htask (congrArg some (of_decide_eq_true hcaches))
    | _ => cases hcaches

theorem step_inv {s s' : StorePool} {l : StoreLabel} (h : Inv s) (hcond : s.Undisturbed l)
    (hstep : step s l = some s') : Inv s' := by
  intro key
  obtain ⟨request, rfl, rfl⟩ | ⟨e, -⟩ | ⟨i, d, pre, task, post, shared, task', rfl, htask, htasks,
    hadvance, rfl⟩ := Pool.step_cases hstep
  · have hnone : (request.start.claims key) = false ∧ (request.start.caches key) = false := by
      cases request <;> exact ⟨rfl, rfl⟩
    simpa [List.countP_append, hnone] using h key
  · exact nomatch e
  · have hcond : s.Admits task := hcond task htask
    have hheld := h key
    rw [htasks] at hheld
    simp only [Pool.countP_replaced] at hheld ⊢
    have hothers : ∀ task₀ ∈ pre ++ post, task₀ ∈ s.tasks := by
      intro task₀ hmem
      rw [htasks]
      rcases List.mem_append.mp hmem with hmem | hmem
      · exact List.mem_append_left _ hmem
      · exact List.mem_append_right _ (List.mem_cons_of_mem _ hmem)
    refine StoreTask.step_holds hadvance ?_ ?_ hheld
    · rintro p sig rfl hnew rfl
      have hzero := countP_eq_zero fun task₀ hmem => hcond hnew task₀ (hothers task₀ hmem)
      simpa only [List.countP_append] using hzero
    · rintro k rfl
      exact hcond

/-- From a table without a duplicate, in every interleaving whose tests and evictions are undisturbed,
there are never two pending rows with the same template, agent and parameters. -/
theorem pending_once_of_undisturbed (rows : Table) (hrows : rows.PendingOnce)
    (ls : List StoreLabel) (t : StorePool) (hcond : Along step Undisturbed (start rows) ls)
    (hrun : run step (start rows) ls = some t) : t.shared.rows.PendingOnce := by
  have hinv : Inv t := hcond.invariant step_inv hrun (inv_start hrows)
  refine Table.pendingOnce_iff.mpr fun key => ?_
  have honce := (hinv key).once
  omega

/-! ## A race -/

open RemediationStore in
/-- The same fault, proposed again under another id. -/
def sampleRepeat : RemediationProposal := { sampleProposal with id := ⟨6⟩ }

/-- Every statement succeeds. -/
def sampleStoreDraw : StoreDraw := ⟨⟨true, Platform.noon⟩, Platform.noon⟩

open RemediationStore in
/-- Two inserts of the fault, one after the other. -/
def sampleInsertTwice : List StoreLabel :=
  [.spawn (.insert sampleProposal "FailedUnit:nginx.service:exit-code"),
    .advance 0 sampleStoreDraw, .advance 0 sampleStoreDraw, .advance 0 sampleStoreDraw,
    .spawn (.insert sampleRepeat "FailedUnit:nginx.service:exit-code"), .advance 1 sampleStoreDraw]

theorem pending_once_of_undisturbed_sample :
    ∃ t, run step (start []) sampleInsertTwice = some t ∧ t.shared.rows.PendingOnce ∧
      t.shared.rows.length = 1 := by
  have hrun : (run step (start []) sampleInsertTwice).map (fun t => t.shared.rows.length) =
      some 1 := by decide +kernel
  obtain ⟨t, hrun, hlength⟩ := Option.map_eq_some_iff.mp hrun
  refine ⟨t, hrun, ?_, hlength⟩
  exact pending_once_of_undisturbed [] List.nodup_nil sampleInsertTwice t (by decide +kernel) hrun

open RemediationStore in
/-- Both inserts make their test before either has updated the cache. -/
def sampleInsertRace : List StoreLabel :=
  [.spawn (.insert sampleProposal "FailedUnit:nginx.service:exit-code"),
    .spawn (.insert sampleRepeat "FailedUnit:nginx.service:exit-code"),
    .advance 0 sampleStoreDraw, .advance 1 sampleStoreDraw, .advance 0 sampleStoreDraw,
    .advance 1 sampleStoreDraw, .advance 0 sampleStoreDraw, .advance 1 sampleStoreDraw]

/-- Two rows are pending for one fault. -/
theorem race_duplicates_pending :
    ∃ t, run step (start []) sampleInsertRace = some t ∧ ¬t.shared.rows.PendingOnce := by
  have hrun : (run step (start []) sampleInsertRace).map (fun t => t.shared.rows.pendingCount
      (.fromProposal sampleRepeat)) = some 2 := by decide +kernel
  obtain ⟨t, hrun, hcount⟩ := Option.map_eq_some_iff.mp hrun
  refine ⟨t, hrun, fun h => ?_⟩
  have hle := Table.pendingOnce_iff.mp h (.fromProposal sampleRepeat)
  omega

end StorePool

end Ravn
