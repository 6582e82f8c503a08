import Ravn.Server.RemediationStore

/-! The dedup cache against the table. The cache should hold the keys of the pending rows. Operations
that run one after another keep it so exactly as long as every insert adds a row and every decision
evicts the key that its rows leave behind; a decision whose first statement fails does not. -/

namespace Ravn

open Theory

/-! ## Keys -/

/-- Equal keys are equal templates, agents and parameters. -/
theorem DedupKey.fromProposal_inj {p q : RemediationProposal} :
    fromProposal p = fromProposal q ↔
      p.templateId = q.templateId ∧ p.agentId = q.agentId ∧ p.params = q.params := by
  constructor
  · intro h
    obtain ⟨htemplate, hagent, hparams⟩ := DedupKey.mk.inj h
    have hentries : p.params.entries.map (fun e => (e.1, Json.str e.2)) =
        q.params.entries.map fun e => (e.1, Json.str e.2) :=
      Json.obj.inj (Json.print_injective (String.ofList_injective hparams))
    have hinj : Function.Injective fun e : String × String => (e.1, Json.str e.2) := by
      rintro ⟨k, v⟩ ⟨k', v'⟩ he
      cases he
      rfl
    have hsame : p.params.entries = q.params.entries := List.map_injective_iff.mpr hinj hentries
    refine ⟨htemplate, congrArg AgentId.mk hagent, ?_⟩
    rw [← p.params.ofList_entries, ← q.params.ofList_entries, hsame]
  · rintro ⟨htemplate, hagent, hparams⟩
    simp [fromProposal, htemplate, hagent, hparams]

/-- The key of a row's proposal. -/
def Row.key (r : Row) : DedupKey := .fromProposal r.proposal

namespace Table

/-- The keys of the rows in state pending. -/
def pendingKeys (t : Table) : Finset DedupKey := ((t.filter Row.isPending).map Row.key).toFinset

/-- A proposal that is identical to this one awaits a decision. -/
def Awaits (t : Table) (p : RemediationProposal) : Prop :=
  ∃ r ∈ t, r.decision = .pending ∧ r.proposal.templateId = p.templateId ∧
    r.proposal.agentId = p.agentId ∧ r.proposal.params = p.params

theorem mem_pendingKeys {t : Table} {key : DedupKey} :
    key ∈ t.pendingKeys ↔ ∃ r ∈ t, r.isPending = true ∧ r.key = key := by
  simp [pendingKeys, and_assoc]

theorem mem_pendingKeys_iff_awaits {t : Table} {p : RemediationProposal} :
    DedupKey.fromProposal p ∈ t.pendingKeys ↔ t.Awaits p := by
  simp only [mem_pendingKeys, Awaits, Row.isPending_iff, Row.key, DedupKey.fromProposal_inj]

/-- A row that is not pending adds no key. -/
theorem pendingKeys_insertRow_of_not {t : Table} {r : Row} (h : r.isPending = false) :
    (t.insertRow r).pendingKeys = t.pendingKeys := by
  unfold insertRow
  split
  · rfl
  · simp [pendingKeys, List.filter_append, h]

theorem pendingKeys_append {t : Table} {r : Row} (h : r.isPending = true) :
    pendingKeys (t ++ [r]) = insert r.key t.pendingKeys := by
  ext key
  simp only [mem_pendingKeys, Finset.mem_insert, List.mem_append, List.mem_singleton]
  constructor
  · rintro ⟨r', hr' | rfl, hpending, hkey⟩
    · exact .inr ⟨r', hr', hpending, hkey⟩
    · exact .inl hkey.symm
  · rintro (rfl | ⟨r', hr', hpending, hkey⟩)
    · exact ⟨r, .inr rfl, h, rfl⟩
    · exact ⟨r', .inl hr', hpending, hkey⟩

/-- An update that keeps every row's proposal and state keeps the keys. -/
theorem pendingKeys_updateWhere_of_same {t : Table} {cond : Row → Bool} {set : Row → Row}
    (h : ∀ r, (set r).key = r.key ∧ (set r).isPending = r.isPending) :
    (t.updateWhere cond set).2.pendingKeys = t.pendingKeys := by
  ext key
  simp only [mem_pendingKeys, mem_updateWhere]
  constructor
  · rintro ⟨r, ⟨r₀, hr₀, ⟨-, rfl⟩ | ⟨-, rfl⟩⟩, hpending, hkey⟩
    · exact ⟨r₀, hr₀, (h r₀).2 ▸ hpending, (h r₀).1 ▸ hkey⟩
    · exact ⟨r, hr₀, hpending, hkey⟩
  · rintro ⟨r, hr, hpending, hkey⟩
    cases hc : cond r with
    | true => exact ⟨set r, ⟨r, hr, .inl ⟨hc, rfl⟩⟩, (h r).2.trans hpending, (h r).1.trans hkey⟩
    | false => exact ⟨r, ⟨r, hr, .inr ⟨hc, rfl⟩⟩, hpending, hkey⟩

/-- After the pending rows of an id are decided, the keys of the other pending rows are left. -/
theorem mem_pendingKeys_decided {t : Table} {cond : Row → Bool} {set : Row → Row} {id : Uuid}
    (hcond : ∀ r, r.isPending = true → (cond r = true ↔ r.proposal.id = id))
    (hset : ∀ r, (set r).isPending = false) {key : DedupKey} :
    key ∈ (t.updateWhere cond set).2.pendingKeys ↔
      ∃ r ∈ t, r.isPending = true ∧ r.proposal.id ≠ id ∧ r.key = key := by
  simp only [mem_pendingKeys, mem_updateWhere]
  constructor
  · rintro ⟨r, ⟨r₀, hr₀, ⟨-, rfl⟩ | ⟨hc, rfl⟩⟩, hpending, hkey⟩
    · cases (hset r₀).symm.trans hpending
    · refine ⟨r, hr₀, hpending, fun hid => ?_, hkey⟩
      cases hc.symm.trans ((hcond r hpending).mpr hid)
  · rintro ⟨r, hr, hpending, hid, hkey⟩
    have hc : cond r = false :=
      Bool.eq_false_iff.mpr fun hc => hid ((hcond r hpending).mp hc)
    exact ⟨r, ⟨r, hr, .inr ⟨hc, rfl⟩⟩, hpending, hkey⟩

end Table

/-! ## Mirroring -/

namespace RemediationStore

/-- The cache holds the keys of the pending rows. -/
def Mirrors (s : RemediationStore) : Prop := s.pendingKeys = s.rows.pendingKeys

/-- Of each pending row with the id, the decision evicts the key exactly if no pending row with another
id has the same one. -/
def EvictsLeft (s : RemediationStore) (id : Uuid) (selectOk : Bool) : Prop :=
  ∀ r ∈ s.rows, r.isPending = true → r.proposal.id = id →
    (s.pendingKey id selectOk = some r.key ↔
      ∀ r' ∈ s.rows, r'.isPending = true → r'.proposal.id ≠ id → r'.key ≠ r.key)

end RemediationStore

/-- What keeps the cache in step with the table, read before the operation: an insert that is not a
duplicate and takes effect finds its primary key free, and a decision that takes effect evicts the key
that its rows leave behind. -/
def StoreOp.KeepsMirror (s : RemediationStore) : StoreOp → Prop
  | .insert proposal _ reply =>
    DedupKey.fromProposal proposal ∉ s.pendingKeys → reply.ok = true →
      s.rows.hasKey proposal = false
  | .approve id _ _ _ selectOk reply | .reject id _ _ _ selectOk reply =>
    reply.ok = true → s.EvictsLeft id selectOk
  | .insertAutoApproved .. | .recordResult .. | .restart => True

namespace RemediationStore

variable {s : RemediationStore}

theorem new_mirrors (rows : Table) : (new rows).Mirrors := rfl

theorem insert_mirrors_iff (h : s.Mirrors) (proposal : RemediationProposal) (sig : String)
    (reply : Reply) :
    (s.insert proposal sig reply).2.Mirrors ↔
      StoreOp.KeepsMirror s (.insert proposal sig reply) := by
  unfold RemediationStore.insert StoreOp.KeepsMirror
  by_cases hkey : DedupKey.fromProposal proposal ∈ s.pendingKeys
  · simp [hkey, h]
  cases hok : reply.ok with
  | false => simp [hkey, hok, h]
  | true =>
    simp only [hkey, hok, if_false, if_true, not_false_eq_true, true_implies]
    cases hprimary : s.rows.hasKey proposal with
    | false =>
      refine iff_of_true ?_ rfl
      have hrows : s.rows.insertRemediation proposal sig reply.now =
          s.rows ++ [⟨proposal, .pending, none, none, none, sig, reply.now⟩] := by
        simp [Table.insertRemediation, Table.insertRow, hprimary]
      unfold Mirrors
      rw [hrows, Table.pendingKeys_append rfl, ← h]
      rfl
    | true =>
      refine iff_of_false ?_ (by simp)
      have hrows : s.rows.insertRemediation proposal sig reply.now = s.rows := by
        simp [Table.insertRemediation, Table.insertRow, hprimary]
      unfold Mirrors
      rw [hrows, ← h]
      exact fun heq => hkey (heq ▸ Finset.mem_insert_self _ _)

/-- The key that a decision reads is that of a pending row with the id. -/
theorem pendingKey_eq_some {id : Uuid} {key : DedupKey} (h : s.pendingKey id selectOk = some key) :
    ∃ r ∈ s.rows, r.isPending = true ∧ r.proposal.id = id ∧ r.key = key := by
  unfold pendingKey at h
  split at h
  · obtain ⟨p, hp, rfl⟩ := Option.map_eq_some_iff.mp h
    obtain ⟨r, hr, rfl⟩ := Option.map_eq_some_iff.mp hp
    have hcond : r.proposal.id = id ∧ r.isPending = true := by simpa using List.find?_some hr
    exact ⟨r, List.mem_of_find?_eq_some hr, hcond.2, hcond.1, rfl⟩
  · cases h

/-- What the two decisions have in common: the pending rows of the id are updated, and the statement
reports a row whenever there was a pending one. -/
theorem decided_mirrors_iff (h : s.Mirrors) {cond : Row → Bool} {set : Row → Row} {id : Uuid}
    (hcond : ∀ r, r.isPending = true → (cond r = true ↔ r.proposal.id = id))
    (hset : ∀ r, (set r).isPending = false) (selectOk : Bool) :
    (s.decided (s.rows.updateWhere cond set) (s.pendingKey id selectOk)).2.Mirrors ↔
      s.EvictsLeft id selectOk := by
  have hmem : ∀ {key}, key ∈ s.pendingKeys ↔ ∃ r ∈ s.rows, r.isPending = true ∧ r.key = key := by
    intro key
    rw [h, Table.mem_pendingKeys]
  have hkeys : ∀ key, key ∈ (s.decided (s.rows.updateWhere cond set)
      (s.pendingKey id selectOk)).2.pendingKeys ↔
        key ∈ s.pendingKeys ∧ s.pendingKey id selectOk ≠ some key := by
    intro key
    unfold decided
    cases hread : s.pendingKey id selectOk with
    | none => cases (s.rows.updateWhere cond set).1 <;> simp [evict]
    | some evicted =>
      obtain ⟨r, hr, hpending, hid, -⟩ := pendingKey_eq_some hread
      have hfound : (s.rows.updateWhere cond set).1 = true :=
        List.any_eq_true.mpr ⟨r, hr, (hcond r hpending).mpr hid⟩
      simp [hfound, evict, and_comm, eq_comm]
  unfold Mirrors
  rw [Finset.ext_iff, decided_rows]
  simp only [hkeys, Table.mem_pendingKeys_decided hcond hset]
  constructor
  · intro hsame r hr hpending hid
    constructor
    · intro hread r' hr' hpending' hid' hkey
      exact ((hsame r.key).mpr ⟨r', hr', hpending', hid', hkey⟩).2 hread
    · intro hleft
      by_contra hread
      obtain ⟨r', hr', hpending', hid', hkey⟩ :=
        (hsame r.key).mp ⟨hmem.mpr ⟨r, hr, hpending, rfl⟩, hread⟩
      exact hleft r' hr' hpending' hid' hkey
  · intro hevicts key
    constructor
    · rintro ⟨hin, hread⟩
      obtain ⟨r, hr, hpending, rfl⟩ := hmem.mp hin
      by_cases hid : r.proposal.id = id
      · by_contra hnone
        refine hread ((hevicts r hr hpending hid).mpr ?_)
        exact fun r' hr' hpending' hid' hkey => hnone ⟨r', hr', hpending', hid', hkey⟩
      · exact ⟨r, hr, hpending, hid, rfl⟩
    · rintro ⟨r, hr, hpending, hid, rfl⟩
      refine ⟨hmem.mpr ⟨r, hr, hpending, rfl⟩, fun hread => ?_⟩
      obtain ⟨r', hr', hpending', hid', hkey'⟩ := pendingKey_eq_some hread
      exact (hevicts r' hr' hpending' hid').mp (hkey' ▸ hread) r hr hpending hid hkey'.symm

/-- One operation keeps the cache in step exactly when it meets the condition. -/
theorem apply_mirrors_iff (h : s.Mirrors) (op : StoreOp) :
    (s.apply op).Mirrors ↔ op.KeepsMirror s := by
  cases op with
  | insert proposal sig reply => exact insert_mirrors_iff h proposal sig reply
  | insertAutoApproved proposal commandId signature sig reply =>
    refine iff_of_true ?_ trivial
    simp only [apply, insertAutoApproved]
    split
    · exact h
    split
    · exact h.trans (Table.pendingKeys_insertRow_of_not rfl).symm
    · exact h
  | approve id «by» commandId signature selectOk reply =>
    simp only [apply, approve, StoreOp.KeepsMirror]
    cases hok : reply.ok with
    | false => simp [h]
    | true =>
      simp only [if_true, true_implies]
      exact decided_mirrors_iff h (fun r hr => by simp [hr]) (fun r => rfl) selectOk
  | reject id «by» «at» reason selectOk reply =>
    simp only [apply, reject, StoreOp.KeepsMirror]
    cases hok : reply.ok with
    | false => simp [h]
    | true =>
      simp only [if_true, true_implies]
      exact decided_mirrors_iff h (fun r _ => by simp) (fun r => rfl) selectOk
  | recordResult result reply =>
    refine iff_of_true ?_ trivial
    simp only [apply, recordResult]
    split
    · have hsame : (s.rows.recordResult result reply.now).2.pendingKeys = s.rows.pendingKeys :=
        Table.pendingKeys_updateWhere_of_same fun r => ⟨rfl, rfl⟩
      exact h.trans hsame.symm
    · exact h
  | restart => exact iff_of_true (new_mirrors _) trivial

/-- From a start over any table, the cache holds the keys of the pending rows after every operation,
and a proposal is suppressed exactly when an identical one awaits a decision, if and only if every
operation of the sequence meets the condition. -/
theorem cache_mirrors_iff (rows : Table) (ops : List StoreOp) :
    (∀ pre post, ops = pre ++ post →
      ((new rows).exec pre).Mirrors ∧
      ∀ p, DedupKey.fromProposal p ∈ ((new rows).exec pre).pendingKeys ↔
        ((new rows).exec pre).rows.Awaits p) ↔
    Along step (fun s op => op.KeepsMirror s) (new rows) ops := by
  have hsuppressed : ∀ {s : RemediationStore}, s.Mirrors →
      ∀ p, DedupKey.fromProposal p ∈ s.pendingKeys ↔ s.rows.Awaits p := by
    intro s h p
    rw [h, Table.mem_pendingKeys_iff_awaits]
  suffices hiff : ∀ s : RemediationStore, s.Mirrors →
      ((∀ pre post, ops = pre ++ post → (s.exec pre).Mirrors) ↔
        Along step (fun s op => op.KeepsMirror s) s ops) by
    rw [← hiff (new rows) (new_mirrors rows)]
    exact ⟨fun h pre post hops => (h pre post hops).1,
      fun h pre post hops => ⟨h pre post hops, hsuppressed (h pre post hops)⟩⟩
  induction ops with
  | nil =>
    intro s hs
    refine iff_of_true ?_ trivial
    intro pre post hops
    obtain ⟨rfl, -⟩ := List.append_eq_nil_iff.mp hops.symm
    exact hs
  | cons op ops ih =>
    intro s hs
    constructor
    · intro h
      have hop := h [op] ops rfl
      refine ⟨(apply_mirrors_iff hs op).mp hop, ?_⟩
      intro s' hs'
      cases hs'
      refine (ih _ hop).mp fun pre post hops => ?_
      exact h (op :: pre) post (by rw [hops]; rfl)
    · rintro ⟨hop, hrest⟩ pre post hops
      have hnext := (apply_mirrors_iff hs op).mpr hop
      cases pre with
      | nil => exact hs
      | cons op' pre =>
        obtain ⟨rfl, rfl⟩ := List.cons.inj hops
        exact (ih _ hnext).mpr (hrest _ rfl) pre post rfl

/-! ## A leaked key -/

/-- The proposal is recorded, and approved with a SELECT that fails and an UPDATE that takes effect. -/
def sampleLeak : List StoreOp :=
  [.insert sampleProposal "FailedUnit:nginx.service:exit-code" ⟨true, Platform.noon⟩,
    .approve ⟨5⟩ (.human "admin" Platform.noon) ⟨21⟩ (some "c2ln") false ⟨true, Platform.noon⟩]

/-- No proposal is pending any more, but the fault stays suppressed. -/
theorem cache_keeps_decided_key :
    DedupKey.fromProposal sampleProposal ∈ ((new []).exec sampleLeak).pendingKeys ∧
      ¬((new []).exec sampleLeak).rows.Awaits sampleProposal ∧
      ¬((new []).exec sampleLeak).Mirrors := by
  have hrows : ((new []).exec sampleLeak).rows.all fun r => !r.isPending := by decide
  have hkey : DedupKey.fromProposal sampleProposal ∈ ((new []).exec sampleLeak).pendingKeys := by
    decide
  have hnone : ¬((new []).exec sampleLeak).rows.Awaits sampleProposal := by
    rintro ⟨r, hr, hpending, -⟩
    have := List.all_eq_true.mp hrows r hr
    rw [Row.isPending_iff.mpr hpending] at this
    cases this
  refine ⟨hkey, hnone, fun h => ?_⟩
  exact hnone (Table.mem_pendingKeys_iff_awaits.mp (h ▸ hkey))

end RemediationStore

end Ravn
