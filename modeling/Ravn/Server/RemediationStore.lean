import Mathlib.Data.Finset.Basic
import Ravn.Core.SigningPayload
import Ravn.Crypto.Envelope
import Ravn.Server.Db
import Ravn.Theory.Transition

/-! The audit store: the table of records behind a set of keys that keeps a recurring fault from
being proposed again while a proposal for it is pending. Operations here run one after another; a
record's decision is final along such a sequence as long as no rejection meets a decided record. -/

namespace Ravn

open Theory

/-- What makes two pending proposals the same. -/
structure DedupKey where
  templateId : String
  agentId : Uuid
  paramsJson : String
deriving DecidableEq

def DedupKey.fromProposal (p : RemediationProposal) : DedupKey where
  templateId := p.templateId
  agentId := p.agentId.uuid
  paramsJson := String.ofList (Json.obj (p.params.entries.map fun e => (e.1, .str e.2))).print

/-- How Postgres answers a statement that writes: whether it succeeds, and the time it stores. -/
structure Reply where
  ok : Bool
  now : DateTime

structure RemediationStore where
  rows : Table
  pendingKeys : Finset DedupKey

namespace RemediationStore

/-- `RemediationStore::new`, on what the table holds. -/
def new (rows : Table) : RemediationStore where
  rows := rows
  pendingKeys :=
    ((rows.filter Row.isPending).map fun r => DedupKey.fromProposal r.proposal).toFinset

variable (s : RemediationStore)

/-- `insert`: the proposal's id if it is not a duplicate and the statement succeeds. -/
def insert (proposal : RemediationProposal) (faultSignature : String) (reply : Reply) :
    Option Uuid × RemediationStore :=
  let key := DedupKey.fromProposal proposal
  if key ∈ s.pendingKeys then (none, s)
  else if reply.ok then
    (some proposal.id,
      ⟨s.rows.insertRemediation proposal faultSignature reply.now, Insert.insert key s.pendingKeys⟩)
  else (none, s)

/-- `insert_auto_approved`: the key is looked up and not added. -/
def insertAutoApproved (proposal : RemediationProposal) (commandId : Uuid)
    (signature : Option String) (faultSignature : String) (reply : Reply) :
    Option Uuid × RemediationStore :=
  if DedupKey.fromProposal proposal ∈ s.pendingKeys then (none, s)
  else if reply.ok then
    (some proposal.id,
      { s with rows := s.rows.insertAutoApproved proposal (.approved .policyAuto) commandId
                 signature faultSignature reply.now })
  else (none, s)

/-- The key that a decision will evict, read before it; a failed read finds none. -/
def pendingKey (id : Uuid) (ok : Bool) : Option DedupKey :=
  if ok then (s.rows.pendingProposal id).map DedupKey.fromProposal else none

def evict (key : Option DedupKey) : RemediationStore :=
  match key with
  | some key => { s with pendingKeys := s.pendingKeys.erase key }
  | none => s

/-- What follows the update of a decision: the key is evicted if a row was found. -/
def decided (u : Bool × Table) (key : Option DedupKey) : Bool × RemediationStore :=
  let s' := { s with rows := u.2 }
  (u.1, if u.1 then s'.evict key else s')

/-- `approve`: whether a pending row was found. -/
def approve (id : Uuid) («by» : ApprovalRef) (commandId : Uuid) (signature : Option String)
    (selectOk : Bool) (reply : Reply) : Bool × RemediationStore :=
  if reply.ok then
    s.decided (s.rows.approveRemediation id (.approved «by») commandId signature reply.now)
      (s.pendingKey id selectOk)
  else (false, s)

/-- `reject`: whether a row was found. -/
def reject (id : Uuid) («by» : String) («at» : DateTime) (reason : Option String)
    (selectOk : Bool) (reply : Reply) : Bool × RemediationStore :=
  if reply.ok then
    s.decided (s.rows.rejectRemediation id (.rejected «by» «at» reason) reply.now)
      (s.pendingKey id selectOk)
  else (false, s)

/-- `record_result`. -/
def recordResult (result : ActionResult) (reply : Reply) :
    Option (RemediationRecord × String) × RemediationStore :=
  if reply.ok then
    let u := s.rows.recordResult result reply.now
    (u.1, { s with rows := u.2 })
  else (none, s)

end RemediationStore

/-- An operation, with what the database and the clock answer while it runs. -/
inductive StoreOp where
  | insert (proposal : RemediationProposal) (faultSignature : String) (reply : Reply)
  | insertAutoApproved (proposal : RemediationProposal) (commandId : Uuid)
      (signature : Option String) (faultSignature : String) (reply : Reply)
  | approve (id : Uuid) («by» : ApprovalRef) (commandId : Uuid) (signature : Option String)
      (selectOk : Bool) (reply : Reply)
  | reject (id : Uuid) («by» : String) («at» : DateTime) (reason : Option String)
      (selectOk : Bool) (reply : Reply)
  | recordResult (result : ActionResult) (reply : Reply)
  /-- The process starts again over the table. -/
  | restart

namespace RemediationStore

def apply (s : RemediationStore) : StoreOp → RemediationStore
  | .insert proposal faultSignature reply => (s.insert proposal faultSignature reply).2
  | .insertAutoApproved proposal commandId signature faultSignature reply =>
    (s.insertAutoApproved proposal commandId signature faultSignature reply).2
  | .approve id «by» commandId signature selectOk reply =>
    (s.approve id «by» commandId signature selectOk reply).2
  | .reject id «by» «at» reason selectOk reply =>
    (s.reject id «by» «at» reason selectOk reply).2
  | .recordResult result reply => (s.recordResult result reply).2
  | .restart => new s.rows

def exec (s : RemediationStore) (ops : List StoreOp) : RemediationStore := ops.foldl apply s

@[simp] theorem evict_rows (s : RemediationStore) (key : Option DedupKey) :
    (s.evict key).rows = s.rows := by
  cases key <;> rfl

@[simp] theorem decided_rows (s : RemediationStore) (u : Bool × Table) (key : Option DedupKey) :
    (s.decided u key).2.rows = u.2 := by
  unfold decided
  cases u.1 <;> simp

end RemediationStore

/-! ## Final decisions -/

/-- A record as it may be found later: a decision that was made still stands, with its command. -/
structure Row.Follows (r r' : Row) : Prop where
  proposal : r'.proposal = r.proposal
  decided : r.decision ≠ .pending →
    r'.decision = r.decision ∧ r'.commandId = r.commandId ∧ r'.signature = r.signature

/-- Every record of the earlier table is still in its place; others may have been added. -/
def Table.Evolves (t t' : Table) : Prop :=
  ∀ (i : Nat) (r : Row), t[i]? = some r → ∃ r', t'[i]? = some r' ∧ r.Follows r'

/-- From each point of a sequence of operations to each later one, no decision changes but from
pending. -/
def RemediationStore.DecisionsFinal (s : RemediationStore) (ops : List StoreOp) : Prop :=
  ∀ pre mid post, ops = pre ++ mid ++ post →
    (s.exec pre).rows.Evolves (s.exec (pre ++ mid)).rows

/-- A rejection that takes effect finds records that are pending, or that hold this very rejection
already. -/
def StoreOp.RejectsUndecided (s : RemediationStore) : StoreOp → Prop
  | .reject id «by» «at» reason _ reply => reply.ok = true → ∀ r ∈ s.rows, r.proposal.id = id →
      r.decision = .pending ∨ r.decision = .rejected «by» «at» reason
  | _ => True

theorem Row.Follows.refl (r : Row) : r.Follows r := ⟨rfl, fun _ => ⟨rfl, rfl, rfl⟩⟩

theorem Row.Follows.trans {r r' r'' : Row} (h : r.Follows r') (h' : r'.Follows r'') :
    r.Follows r'' := by
  refine ⟨h'.proposal.trans h.proposal, fun hd => ?_⟩
  obtain ⟨hdecision, hcommand, hsig⟩ := h.decided hd
  obtain ⟨hdecision', hcommand', hsig'⟩ := h'.decided (hdecision ▸ hd)
  exact ⟨hdecision'.trans hdecision, hcommand'.trans hcommand, hsig'.trans hsig⟩

namespace Table

theorem Evolves.refl (t : Table) : t.Evolves t := fun _ r h => ⟨r, h, .refl r⟩

theorem Evolves.trans {t t' t'' : Table} (h : t.Evolves t') (h' : t'.Evolves t'') :
    t.Evolves t'' := by
  intro i r hr
  obtain ⟨r', hr', hfollows⟩ := h i r hr
  obtain ⟨r'', hr'', hfollows'⟩ := h' i r' hr'
  exact ⟨r'', hr'', hfollows.trans hfollows'⟩

theorem Evolves.insertRow (t : Table) (r : Row) : t.Evolves (t.insertRow r) := by
  unfold Table.insertRow
  split
  · exact .refl t
  · intro i r' hr'
    obtain ⟨hi, -⟩ := List.getElem?_eq_some_iff.mp hr'
    exact ⟨r', by rw [List.getElem?_append_left hi, hr'], .refl r'⟩

/-- An update evolves the table exactly when the rows it applies to allow it. -/
theorem evolves_updateWhere {t : Table} {cond : Row → Bool} {set : Row → Row} :
    t.Evolves (t.updateWhere cond set).2 ↔ ∀ r ∈ t, cond r = true → r.Follows (set r) := by
  constructor
  · intro h r hr hcond
    obtain ⟨i, hi⟩ := List.mem_iff_getElem?.mp hr
    obtain ⟨r', hr', hfollows⟩ := h i r hi
    simp only [updateWhere, List.getElem?_map, hi, Option.map_some, hcond, if_true] at hr'
    cases hr'
    exact hfollows
  · intro h i r hi
    refine ⟨if cond r then set r else r, by simp [updateWhere, hi], ?_⟩
    split
    · exact h r (List.mem_of_getElem? hi) ‹_›
    · exact .refl r

end Table

namespace RemediationStore

variable {s : RemediationStore}

theorem approve_rows_evolves (id : Uuid) («by» : ApprovalRef) (commandId : Uuid)
    (signature : Option String) (selectOk : Bool) (reply : Reply) :
    s.rows.Evolves (s.approve id «by» commandId signature selectOk reply).2.rows := by
  unfold approve
  split
  · rw [decided_rows, Table.approveRemediation, Table.evolves_updateWhere]
    intro r _ hcond
    -- The statement's own guard: the row is pending.
    have hpending : r.decision = .pending := Row.isPending_iff.mp (of_decide_eq_true hcond).2
    exact ⟨rfl, fun hd => absurd hpending hd⟩
  · exact .refl _

/-- A rejection has no guard: it evolves the table only where there was nothing to overwrite. -/
theorem reject_rows_evolves_iff (id : Uuid) («by» : String) («at» : DateTime)
    (reason : Option String) (selectOk : Bool) (reply : Reply) :
    s.rows.Evolves (s.reject id «by» «at» reason selectOk reply).2.rows ↔
      StoreOp.RejectsUndecided s (.reject id «by» «at» reason selectOk reply) := by
  unfold reject StoreOp.RejectsUndecided
  cases hok : reply.ok with
  | false => simp [Table.Evolves.refl, hok]
  | true =>
    simp only [hok, if_true, true_implies]
    rw [decided_rows, Table.rejectRemediation, Table.evolves_updateWhere]
    apply forall₂_congr
    intro r _
    rw [decide_eq_true_eq]
    apply imp_congr_right
    intro _
    constructor
    · intro h
      by_cases hd : r.decision = .pending
      · exact .inl hd
      · exact .inr (h.decided hd).1.symm
    · rintro (hd | hd)
      · exact ⟨rfl, fun h => absurd hd h⟩
      · exact ⟨rfl, fun _ => ⟨hd.symm, rfl, rfl⟩⟩

/-- One operation keeps every decision exactly when it does not reject what is decided. -/
theorem apply_evolves_iff (s : RemediationStore) (op : StoreOp) :
    s.rows.Evolves (s.apply op).rows ↔ op.RejectsUndecided s := by
  cases op with
  | insert proposal faultSignature reply =>
    refine iff_of_true ?_ trivial
    simp only [apply, insert]
    split
    · exact .refl _
    split
    · exact .insertRow _ _
    · exact .refl _
  | insertAutoApproved proposal commandId signature faultSignature reply =>
    refine iff_of_true ?_ trivial
    simp only [apply, insertAutoApproved]
    split
    · exact .refl _
    split
    · exact .insertRow _ _
    · exact .refl _
  | approve id «by» commandId signature selectOk reply =>
    exact iff_of_true (approve_rows_evolves id «by» commandId signature selectOk reply) trivial
  | reject id «by» «at» reason selectOk reply => exact reject_rows_evolves_iff ..
  | recordResult result reply =>
    refine iff_of_true ?_ trivial
    simp only [apply, recordResult]
    split
    · exact Table.evolves_updateWhere.mpr fun r _ _ => ⟨rfl, fun _ => ⟨rfl, rfl, rfl⟩⟩
    · exact .refl _
  | restart => exact iff_of_true (.refl _) trivial

/-- The store as a transition system in which every operation is enabled. -/
def step (s : RemediationStore) (op : StoreOp) : Option RemediationStore := some (s.apply op)

theorem run_step (s : RemediationStore) (ops : List StoreOp) :
    run step s ops = some (s.exec ops) := by
  induction ops generalizing s with
  | nil => rfl
  | cons op ops ih => exact ih (s.apply op)

theorem exec_evolves (h : Along step (fun s op => op.RejectsUndecided s) s ops) :
    s.rows.Evolves (s.exec ops).rows :=
  h.invariant (I := fun t => s.rows.Evolves t.rows)
    (fun ht hop hstep => by
      cases hstep
      exact ht.trans ((apply_evolves_iff _ _).mpr hop))
    (run_step s ops) (.refl _)

/-- Decisions are final along a sequence of operations exactly when no rejection in it meets a
decided record. -/
theorem decisions_final_iff (s : RemediationStore) (ops : List StoreOp) :
    s.DecisionsFinal ops ↔ Along step (fun s op => op.RejectsUndecided s) s ops := by
  constructor
  · induction ops generalizing s with
    | nil => exact fun _ => trivial
    | cons op ops ih =>
      intro h
      refine ⟨(apply_evolves_iff s op).mp (h [] [op] ops rfl), ?_⟩
      intro s' hs'
      cases hs'
      refine ih _ fun pre mid post hops => ?_
      exact h (op :: pre) mid post (by rw [hops]; rfl)
  · rintro h pre mid post rfl
    have hmid := (along_append.mp (along_append.mp h).1).2 _ (run_step s pre)
    have hexec : s.exec (pre ++ mid) = (s.exec pre).exec mid := List.foldl_append
    rw [hexec]
    exact exec_evolves hmid

end RemediationStore

/-! ## A rewritten decision -/

namespace RemediationStore

open Platform

def sampleProposal : RemediationProposal where
  id := ⟨5⟩
  eventId := ⟨11⟩
  agentId := ⟨⟨2⟩⟩
  host := "web-1"
  templateId := "failed-unit"
  templateVersion := 2
  riskTier := .safe
  params := BTreeMap.empty.insert "unit" "nginx.service"
  rationale := "nginx.service failed"
  createdAt := noon

/-- The proposal is recorded and approved, and its command runs. -/
def sampleApproved : List StoreOp :=
  [.insert sampleProposal "FailedUnit:nginx.service:exit-code" ⟨true, noon⟩,
    .approve ⟨5⟩ (.human "admin" noon) ⟨21⟩ (some "c2ln") true ⟨true, noon⟩,
    .recordResult ⟨⟨21⟩, .succeeded, none, none, fivePastNoon⟩ ⟨true, fivePastNoon⟩]

/-- The rejection that comes after it. -/
def sampleRejection : StoreOp := .reject ⟨5⟩ "admin" fivePastNoon none true ⟨true, fivePastNoon⟩

/-- The record of a command that has run is turned into a rejected one. -/
theorem decision_rewritten : ¬(new []).DecisionsFinal (sampleApproved ++ [sampleRejection]) := by
  intro h
  have hmid := h sampleApproved [sampleRejection] [] (List.append_nil _).symm
  obtain ⟨r', hr', hfollows⟩ := hmid 0 _ rfl
  cases hr'
  exact absurd (hfollows.decided (by decide)).1 (by decide)

end RemediationStore

end Ravn
