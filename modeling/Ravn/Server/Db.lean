import Ravn.Core.Remediation

/-! The `remediation_records` table: one function per SQL statement. Every statement is atomic; a
statement that fails has no effect and is not applied. -/

namespace Ravn

open Theory

/-- The tag in `decision_state`. -/
inductive DecisionState where
  | pending
  | approved
  | rejected
deriving DecidableEq

def Decision.state : Decision → DecisionState
  | pending => .pending
  | approved _ => .approved
  | rejected _ _ _ => .rejected

/-- A row. Each statement writes `decision_state` together with `decision_json` and from it, so the
tag is that of the decision. The lookup columns repeat fields of the proposal. -/
structure Row where
  proposal : RemediationProposal
  decision : Decision
  commandId : Option Uuid
  signature : Option String
  result : Option ActionResult
  faultSignature : String
  updatedAt : DateTime
deriving DecidableEq

namespace Row

/-- `into_record`. -/
def toRecord (r : Row) : RemediationRecord :=
  ⟨r.proposal, r.decision, r.commandId, r.signature, r.result, r.updatedAt⟩

def isPending (r : Row) : Bool := r.decision.state = .pending

theorem isPending_iff {r : Row} : r.isPending = true ↔ r.decision = .pending := by
  cases hd : r.decision <;> simp [isPending, hd, Decision.state]

end Row

/-- A `timestamptz` is counted in microseconds from the year 2000. -/
def timestamptz (t : DateTime) : Int := (t.nanos - 946684800000000000).tdiv 1000

abbrev Table := List Row

namespace Table

/-- The primary key of a row is taken. -/
def hasKey (t : Table) (p : RemediationProposal) : Bool :=
  t.any fun r => r.proposal.id = p.id ∧ timestamptz r.proposal.createdAt = timestamptz p.createdAt

/-- `INSERT … ON CONFLICT DO NOTHING`. -/
def insertRow (t : Table) (r : Row) : Table := if t.hasKey r.proposal then t else t ++ [r]

/-- `insert_remediation`. -/
def insertRemediation (t : Table) (p : RemediationProposal) (faultSignature : String)
    (now : DateTime) : Table :=
  t.insertRow ⟨p, .pending, none, none, none, faultSignature, now⟩

/-- `insert_auto_approved_remediation`. -/
def insertAutoApproved (t : Table) (p : RemediationProposal) (decision : Decision)
    (commandId : Uuid) (signature : Option String) (faultSignature : String) (now : DateTime) :
    Table :=
  t.insertRow ⟨p, decision, some commandId, signature, none, faultSignature, now⟩

/-- `UPDATE … WHERE`: whether a row was affected, and the table after it. -/
def updateWhere (t : Table) (cond : Row → Bool) (set : Row → Row) : Bool × Table :=
  (t.any cond, t.map fun r => if cond r then set r else r)

/-- `approve_remediation`: only a pending row is updated. -/
def approveRemediation (t : Table) (id : Uuid) (decision : Decision) (commandId : Uuid)
    (signature : Option String) (now : DateTime) : Bool × Table :=
  t.updateWhere (fun r => r.proposal.id = id ∧ r.isPending) fun r =>
    { r with decision := decision, commandId := some commandId, signature := signature,
             updatedAt := now }

/-- `reject_remediation`: every row with the id is updated, whatever its state. -/
def rejectRemediation (t : Table) (id : Uuid) (decision : Decision) (now : DateTime) :
    Bool × Table :=
  t.updateWhere (fun r => r.proposal.id = id) fun r =>
    { r with decision := decision, updatedAt := now }

/-- `record_remediation_result`: the record that was updated with its fault signature, if any. -/
def recordResult (t : Table) (result : ActionResult) (now : DateTime) :
    Option (RemediationRecord × String) × Table :=
  let t' := (t.updateWhere (fun r => r.commandId = some result.commandId) fun r =>
    { r with result := some result, updatedAt := now }).2
  ((t'.find? fun r => r.commandId = some result.commandId).map fun r =>
    (r.toRecord, r.faultSignature), t')

/-- `pending_remediation_proposal`. -/
def pendingProposal (t : Table) (id : Uuid) : Option RemediationProposal :=
  (t.find? fun r => r.proposal.id = id ∧ r.isPending).map Row.proposal

theorem mem_updateWhere {t : Table} {cond : Row → Bool} {set : Row → Row} :
    r ∈ (t.updateWhere cond set).2 ↔
      ∃ r₀ ∈ t, (cond r₀ = true ∧ r = set r₀) ∨ (cond r₀ = false ∧ r = r₀) := by
  simp only [updateWhere, List.mem_map]
  constructor
  · rintro ⟨r₀, hr₀, rfl⟩
    cases hc : cond r₀ with
    | true => exact ⟨r₀, hr₀, .inl ⟨hc, if_pos rfl⟩⟩
    | false => exact ⟨r₀, hr₀, .inr ⟨hc, if_neg (by simp)⟩⟩
  · rintro ⟨r₀, hr₀, ⟨hc, rfl⟩ | ⟨hc, rfl⟩⟩
    · exact ⟨r₀, hr₀, if_pos hc⟩
    · exact ⟨r, hr₀, if_neg (by simp [hc])⟩

/-- A row that the condition leaves out stays. -/
theorem mem_updateWhere_of_not {t : Table} {cond : Row → Bool} {set : Row → Row} (h : r ∈ t)
    (hc : cond r = false) : r ∈ (t.updateWhere cond set).2 :=
  mem_updateWhere.mpr ⟨r, h, .inr ⟨hc, rfl⟩⟩

theorem mem_insertRow_of_mem {t : Table} (h : r ∈ t) : r ∈ t.insertRow r' := by
  unfold insertRow
  split
  · exact h
  · exact List.mem_append_left _ h

end Table

end Ravn
