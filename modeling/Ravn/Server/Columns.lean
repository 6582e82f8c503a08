import Ravn.Core.Record
import Ravn.Crypto.Envelope
import Ravn.Server.Db

/-! The `remediation_records` table as Postgres holds it: proposal, decision and result are JSON
columns, and `decision_state` is a text beside the decision. Over every sequence of statements it holds
the rows of the typed table, and every read of it gives the records of that table: no row fails to be
read back (`columns_hold_records`). -/

namespace Ravn

open Theory

/-- The string tag stored in `decision_state`. -/
def decisionStateTag : Decision → String
  | .pending => "pending"
  | .approved _ => "approved"
  | .rejected _ _ _ => "rejected"

/-- A raw row. A JSON column comes back with the members of its objects sorted. -/
structure RemediationRow where
  proposalId : Uuid
  proposalCreatedAt : Int
  proposal : Json
  decisionState : String
  decisionJson : Json
  commandId : Option Uuid
  commandSignature : Option String
  resultJson : Option Json
  faultSignature : String
  updatedAt : DateTime

abbrev Columns := List RemediationRow

section

variable (P : Platform) (parseTime : String → Option DateTime)

/-- `into_record`. -/
def RemediationRow.intoRecord (r : RemediationRow) : Option RemediationRecord :=
  (RemediationProposal.ofDoc parseTime r.proposal.toDoc).bind fun proposal =>
    (Decision.ofDoc parseTime r.decisionJson.toDoc).bind fun decision =>
      (match r.resultJson with
        | some v => (ActionResult.ofDoc parseTime v.toDoc).map some
        | none => some none).bind fun result =>
        some ⟨proposal, decision, r.commandId, r.commandSignature, result, r.updatedAt⟩

namespace Columns

def insertRow (t : Columns) (r : RemediationRow) : Columns :=
  if t.any fun x => x.proposalId = r.proposalId ∧ x.proposalCreatedAt = r.proposalCreatedAt then t
  else t ++ [r]

/-- `insert_remediation`. -/
def insertRemediation (t : Columns) (p : RemediationProposal) (faultSignature : String)
    (now : DateTime) : Columns :=
  t.insertRow {
    proposalId := p.id
    proposalCreatedAt := timestamptz p.createdAt
    proposal := (p.toJson P).canonical
    decisionState := "pending"
    decisionJson := (Decision.pending.toJson P).canonical
    commandId := none
    commandSignature := none
    resultJson := none
    faultSignature := faultSignature
    updatedAt := now }

/-- `insert_auto_approved_remediation`. -/
def insertAutoApproved (t : Columns) (p : RemediationProposal) (decision : Decision)
    (commandId : Uuid) (signature : Option String) (faultSignature : String) (now : DateTime) :
    Columns :=
  t.insertRow {
    proposalId := p.id
    proposalCreatedAt := timestamptz p.createdAt
    proposal := (p.toJson P).canonical
    decisionState := decisionStateTag decision
    decisionJson := (decision.toJson P).canonical
    commandId := some commandId
    commandSignature := signature
    resultJson := none
    faultSignature := faultSignature
    updatedAt := now }

def updateWhere (t : Columns) (cond : RemediationRow → Bool)
    (set : RemediationRow → RemediationRow) : Bool × Columns :=
  (t.any cond, t.map fun r => if cond r then set r else r)

/-- `approve_remediation`. -/
def approveRemediation (t : Columns) (id : Uuid) (decision : Decision) (commandId : Uuid)
    (signature : Option String) (now : DateTime) : Bool × Columns :=
  t.updateWhere (fun r => r.proposalId = id ∧ r.decisionState = "pending") fun r =>
    { r with
      decisionState := decisionStateTag decision
      decisionJson := (decision.toJson P).canonical
      commandId := some commandId
      commandSignature := signature
      updatedAt := now }

/-- `reject_remediation`. -/
def rejectRemediation (t : Columns) (id : Uuid) (decision : Decision) (now : DateTime) :
    Bool × Columns :=
  t.updateWhere (fun r => r.proposalId = id) fun r =>
    { r with
      decisionState := decisionStateTag decision
      decisionJson := (decision.toJson P).canonical
      updatedAt := now }

/-- `record_remediation_result`: the closed record with its fault signature, if there is one. It fails
if the row that was updated cannot be read. -/
def recordResult (t : Columns) (result : ActionResult) (now : DateTime) :
    Option (Option (RemediationRecord × String)) × Columns :=
  let t' := (t.updateWhere (fun r => r.commandId = some result.commandId) fun r =>
    { r with resultJson := some (result.toJson P).canonical, updatedAt := now }).2
  (match t'.find? fun r => r.commandId = some result.commandId with
    | none => some none
    | some r => (r.intoRecord parseTime).map fun record => some (record, r.faultSignature), t')

/-- `list_remediation_records`, newest first. One row that cannot be read fails the whole list. -/
def listRecords (t : Columns) : Option (List RemediationRecord) :=
  (t.mergeSort fun a b => b.proposalCreatedAt ≤ a.proposalCreatedAt).mapM
    (RemediationRow.intoRecord parseTime)

/-- `pending_remediation_proposal`. -/
def pendingProposal (t : Columns) (id : Uuid) : Option (Option RemediationProposal) :=
  match t.find? fun r => r.proposalId = id ∧ r.decisionState = "pending" with
  | none => some none
  | some r => (RemediationProposal.ofDoc parseTime r.proposal.toDoc).map some

end Columns

end

/-- A statement that writes. -/
inductive DbWrite where
  | insertRemediation (p : RemediationProposal) (faultSignature : String) (now : DateTime)
  | insertAutoApproved (p : RemediationProposal) (decision : Decision) (commandId : Uuid)
      (signature : Option String) (faultSignature : String) (now : DateTime)
  | approve (id : Uuid) (decision : Decision) (commandId : Uuid) (signature : Option String)
      (now : DateTime)
  | reject (id : Uuid) (decision : Decision) (now : DateTime)
  | recordResult (result : ActionResult) (now : DateTime)

section

variable (P : Platform) (parseTime : String → Option DateTime)

def Columns.apply (t : Columns) : DbWrite → Columns
  | .insertRemediation p faultSignature now => t.insertRemediation P p faultSignature now
  | .insertAutoApproved p decision commandId signature faultSignature now =>
    t.insertAutoApproved P p decision commandId signature faultSignature now
  | .approve id decision commandId signature now =>
    (t.approveRemediation P id decision commandId signature now).2
  | .reject id decision now => (t.rejectRemediation P id decision now).2
  | .recordResult result now => (t.recordResult P parseTime result now).2

def Table.apply (t : Table) : DbWrite → Table
  | .insertRemediation p faultSignature now => t.insertRemediation p faultSignature now
  | .insertAutoApproved p decision commandId signature faultSignature now =>
    t.insertAutoApproved p decision commandId signature faultSignature now
  | .approve id decision commandId signature now =>
    (t.approveRemediation id decision commandId signature now).2
  | .reject id decision now => (t.rejectRemediation id decision now).2
  | .recordResult result now => (t.recordResult result now).2

/-- The records of a table, newest first. -/
def Table.newestFirst (t : Table) : List RemediationRecord :=
  (t.mergeSort fun a b => timestamptz b.proposal.createdAt ≤ timestamptz a.proposal.createdAt).map
    Row.toRecord

end

/-! ## Rows in columns -/

section

variable (P : Platform)

/-- The columns that a row is held in. -/
def Row.columns (r : Row) : RemediationRow where
  proposalId := r.proposal.id
  proposalCreatedAt := timestamptz r.proposal.createdAt
  proposal := (r.proposal.toJson P).canonical
  decisionState := decisionStateTag r.decision
  decisionJson := (r.decision.toJson P).canonical
  commandId := r.commandId
  commandSignature := r.signature
  resultJson := r.result.map fun result => (result.toJson P).canonical
  faultSignature := r.faultSignature
  updatedAt := r.updatedAt

def Table.columns (t : Table) : Columns := t.map (Row.columns P)

end

variable {P : Platform} {parseTime : String → Option DateTime}

theorem decisionStateTag_eq_pending (r : Row) :
    decide ((r.columns P).decisionState = "pending") = r.isPending := by
  unfold Row.isPending Row.columns
  cases r.decision <;> rfl

theorem Row.intoRecord_columns (htime : ∀ t, parseTime (P.rfc3339 t) = some t) (r : Row) :
    (r.columns P).intoRecord parseTime = some r.toRecord := by
  have hproposal := RemediationProposal.ofDoc_canonical htime r.proposal
  have hdecision := Decision.ofDoc_canonical htime r.decision
  unfold RemediationRow.intoRecord columns
  simp only [hproposal, hdecision, Option.bind_some]
  cases hresult : r.result with
  | none => simp [Row.toRecord, hresult]
  | some result => simp [Row.toRecord, hresult, ActionResult.ofDoc_canonical htime result]

namespace Table

theorem insertRow_columns (t : Table) (r : Row) :
    (t.columns P).insertRow (r.columns P) = (t.insertRow r).columns P := by
  have hkey : ((t.columns P).any fun x => x.proposalId = (r.columns P).proposalId ∧
      x.proposalCreatedAt = (r.columns P).proposalCreatedAt) = t.hasKey r.proposal := List.any_map
  unfold Columns.insertRow insertRow
  rw [hkey]
  split
  · rfl
  · have happend : (t ++ [r]).map (Row.columns P) = t.columns P ++ [r.columns P] := List.map_append
    exact happend.symm

/-- An update by a condition and to values that are read off the columns. -/
theorem updateWhere_columns (t : Table) (cond : Row → Bool) (set : Row → Row)
    (cond' : RemediationRow → Bool) (set' : RemediationRow → RemediationRow)
    (hcond : ∀ r : Row, cond' (r.columns P) = cond r)
    (hset : ∀ r : Row, set' (r.columns P) = (set r).columns P) :
    (t.columns P).updateWhere cond' set' = ((t.updateWhere cond set).1, (t.updateWhere cond set).2.columns P) := by
  refine Prod.ext ?_ ?_
  · change List.any (t.map _) _ = t.any cond
    rw [List.any_map]
    exact congrArg (List.any t) (funext hcond)
  · change List.map _ (t.map _) = (t.map _).map _
    rw [List.map_map, List.map_map]
    refine List.map_congr_left fun r _ => ?_
    simp only [Function.comp_apply, hcond, hset]
    split <;> rfl

theorem approveRemediation_columns (t : Table) (id : Uuid) (decision : Decision) (commandId : Uuid)
    (signature : Option String) (now : DateTime) :
    (t.columns P).approveRemediation P id decision commandId signature now =
      ((t.approveRemediation id decision commandId signature now).1,
        (t.approveRemediation id decision commandId signature now).2.columns P) := by
  refine updateWhere_columns t _ _ _ _ (fun r => ?_) fun r => rfl
  rw [Bool.decide_and, Bool.decide_and, decisionStateTag_eq_pending, Bool.decide_coe]
  rfl

theorem rejectRemediation_columns (t : Table) (id : Uuid) (decision : Decision) (now : DateTime) :
    (t.columns P).rejectRemediation P id decision now =
      ((t.rejectRemediation id decision now).1,
        (t.rejectRemediation id decision now).2.columns P) :=
  updateWhere_columns t _ _ _ _ (fun _ => rfl) fun _ => rfl

theorem find?_columns (t : Table) (cond : Row → Bool) (cond' : RemediationRow → Bool)
    (hcond : ∀ r : Row, cond' (r.columns P) = cond r) :
    (t.columns P).find? cond' = (t.find? cond).map (Row.columns P) := by
  rw [columns, List.find?_map]
  exact congrArg (fun p => Option.map _ (List.find? p t)) (funext hcond)

theorem recordResult_columns (htime : ∀ t, parseTime (P.rfc3339 t) = some t) (t : Table)
    (result : ActionResult) (now : DateTime) :
    (t.columns P).recordResult P parseTime result now =
      (some (t.recordResult result now).1, (t.recordResult result now).2.columns P) := by
  have hupdate := updateWhere_columns (P := P) t
    (fun r => r.commandId = some result.commandId)
    (fun r => { r with result := some result, updatedAt := now })
    (fun r => r.commandId = some result.commandId)
    (fun r => { r with resultJson := some (result.toJson P).canonical, updatedAt := now })
    (fun _ => rfl) fun _ => rfl
  have hfind := find?_columns (P := P) (recordResult t result now).2
    (fun r => r.commandId = some result.commandId)
    (fun r => r.commandId = some result.commandId) fun _ => rfl
  unfold Columns.recordResult
  simp only [hupdate]
  refine Prod.ext ?_ rfl
  change (match (columns P (recordResult t result now).2).find? _ with
    | none => _ | some r => _) = _
  rw [hfind]
  unfold recordResult
  dsimp only
  cases List.find? _ _ with
  | none => rfl
  | some r =>
    simp only [Option.map_some, Row.intoRecord_columns htime]
    rfl

theorem pendingProposal_columns (htime : ∀ t, parseTime (P.rfc3339 t) = some t) (t : Table)
    (id : Uuid) :
    (t.columns P).pendingProposal parseTime id = some (t.pendingProposal id) := by
  have hfind := find?_columns (P := P) t (fun r => r.proposal.id = id ∧ r.isPending)
    (fun r => r.proposalId = id ∧ r.decisionState = "pending") fun r => by
      rw [Bool.decide_and, Bool.decide_and, decisionStateTag_eq_pending, Bool.decide_coe]
      rfl
  unfold Columns.pendingProposal pendingProposal
  rw [hfind]
  cases List.find? _ t with
  | none => rfl
  | some r => exact congrArg (Option.map some) (RemediationProposal.ofDoc_canonical htime r.proposal)

theorem listRecords_columns (htime : ∀ t, parseTime (P.rfc3339 t) = some t) (t : Table) :
    (t.columns P).listRecords parseTime = some t.newestFirst := by
  have hsort : ((t.columns P).mergeSort fun a b => b.proposalCreatedAt ≤ a.proposalCreatedAt) =
      (t.mergeSort fun a b => timestamptz b.proposal.createdAt ≤ timestamptz a.proposal.createdAt).map
        (Row.columns P) := by
    rw [columns, List.map_mergeSort]
    exact fun _ _ _ _ => rfl
  have hread : RemediationRow.intoRecord parseTime ∘ Row.columns P = fun r => some r.toRecord :=
    funext fun r => Row.intoRecord_columns htime r
  rw [Columns.listRecords, hsort, newestFirst, List.mapM_map, hread]
  exact List.mapM_pure

theorem apply_columns (htime : ∀ t, parseTime (P.rfc3339 t) = some t) (t : Table) (w : DbWrite) :
    (t.columns P).apply P parseTime w = (t.apply w).columns P := by
  cases w with
  | insertRemediation p faultSignature now =>
    exact insertRow_columns t ⟨p, .pending, none, none, none, faultSignature, now⟩
  | insertAutoApproved p decision commandId signature faultSignature now =>
    exact insertRow_columns t ⟨p, decision, some commandId, signature, none, faultSignature, now⟩
  | approve id decision commandId signature now =>
    exact congrArg Prod.snd (approveRemediation_columns t id decision commandId signature now)
  | reject id decision now => exact congrArg Prod.snd (rejectRemediation_columns t id decision now)
  | recordResult result now => exact congrArg Prod.snd (recordResult_columns htime t result now)

theorem foldl_columns (htime : ∀ t, parseTime (P.rfc3339 t) = some t) (ws : List DbWrite) (t : Table) :
    ws.foldl (Columns.apply P parseTime) (t.columns P) = (ws.foldl apply t).columns P := by
  induction ws generalizing t with
  | nil => rfl
  | cons w ws ih => rw [List.foldl_cons, apply_columns htime, ih, List.foldl_cons]

end Table

/-- Whatever is written, the columns hold the rows of the typed table, and each of them is read back:
the list is that of the table's records, newest first, a pending proposal and a closed record are those
of the table, and a statement finds the rows that it finds there. -/
theorem columns_hold_records (P : Platform) (parseTime : String → Option DateTime)
    (htime : ∀ t, parseTime (P.rfc3339 t) = some t) (ws : List DbWrite) :
    let t : Table := ws.foldl Table.apply []
    let c : Columns := ws.foldl (Columns.apply P parseTime) []
    c.listRecords parseTime = some t.newestFirst ∧
      (∀ id, c.pendingProposal parseTime id = some (t.pendingProposal id)) ∧
      (∀ result now, (c.recordResult P parseTime result now).1 = some (t.recordResult result now).1) ∧
      (∀ id decision commandId signature now,
        (c.approveRemediation P id decision commandId signature now).1 =
          (t.approveRemediation id decision commandId signature now).1) ∧
      ∀ id decision now, (c.rejectRemediation P id decision now).1 =
        (t.rejectRemediation id decision now).1 := by
  intro t c
  have hc : c = t.columns P := Table.foldl_columns htime ws []
  rw [hc]
  refine ⟨t.listRecords_columns htime, t.pendingProposal_columns htime, fun result now => ?_,
    fun id decision commandId signature now => ?_, fun id decision now => ?_⟩
  · rw [t.recordResult_columns htime]
  · rw [t.approveRemediation_columns]
  · rw [t.rejectRemediation_columns]

/-- A proposal is approved, and its command reports back. -/
theorem columns_hold_records_sample :
    let p : RemediationProposal := ⟨⟨1⟩, ⟨2⟩, ⟨⟨3⟩⟩, "web-1", "restart-unit", 1, .safe,
      BTreeMap.empty.insert "unit" "nginx.service", "failed", Platform.noon⟩
    let result : ActionResult := ⟨⟨4⟩, .succeeded, none, some "active", Platform.noon⟩
    let approved : Decision := .approved (.human "ann" Platform.noon)
    let c : Columns := [DbWrite.insertRemediation p "failed_unit" Platform.noon,
      .approve ⟨1⟩ approved ⟨4⟩ (some "c2ln") Platform.noon, .recordResult result Platform.noon].foldl
        (Columns.apply Platform.sample Platform.sampleParseTime) []
    c.listRecords Platform.sampleParseTime =
      some [⟨p, approved, some ⟨4⟩, some "c2ln", some result, Platform.noon⟩] := by
  intro p result approved c
  have hrows : [DbWrite.insertRemediation p "failed_unit" Platform.noon,
      .approve ⟨1⟩ approved ⟨4⟩ (some "c2ln") Platform.noon, .recordResult result Platform.noon].foldl
        Table.apply [] =
      [⟨p, approved, some ⟨4⟩, some "c2ln", some result, "failed_unit", Platform.noon⟩] := rfl
  have hlist := (columns_hold_records Platform.sample Platform.sampleParseTime
    Platform.sampleParseTime_sampleRfc3339 [.insertRemediation p "failed_unit" Platform.noon,
      .approve ⟨1⟩ approved ⟨4⟩ (some "c2ln") Platform.noon, .recordResult result Platform.noon]).1
  rw [hrows, Table.newestFirst, List.mergeSort_singleton] at hlist
  exact hlist

end Ravn
