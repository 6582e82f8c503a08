import Ravn.Mcp.Session

/-! The list of proposals as a caller of the MCP server gets it: from the records of the control plane over
the text of its answer to the tool's result, nothing is lost or added (`proposals_listed`). -/

namespace Ravn.Mcp

open Theory Doc

section

variable {P : Platform} {parseTime : TimeReader}

/-- The body of the control plane's answer to `GET /api/remediations`. -/
def recordsText (P : Platform) (records : List RemediationRecord) : String :=
  String.ofList (Json.print (.arr (records.map (RemediationRecord.toJson P))))

/-- Whether only the open proposals are asked for; they are unless the argument says otherwise. -/
def pendingOnly (args : Doc) : Bool := ((args.get "pending_only").bind asBool).getD true

theorem valueFromStr_recordsText (records : List RemediationRecord) :
    valueFromStr (recordsText P records).toList =
      some (Json.toDoc (.arr (records.map (RemediationRecord.toJson P)))) := by
  have hdepth : (Json.arr (records.map (RemediationRecord.toJson P))).depth ≤ 4 := by
    refine Json.depth_arr_le.mpr fun v hv => ?_
    obtain ⟨r, -, rfl⟩ := List.mem_map.mp hv
    exact r.depth_toJson_le
  have hlimit : (Json.toDoc (.arr (records.map (RemediationRecord.toJson P)))).depth < recursionLimit :=
    Nat.lt_of_le_of_lt hdepth (by decide)
  have hrange : (Json.toDoc (.arr (records.map (RemediationRecord.toJson P)))).inRange := by
    rw [inRange_arr, List.forall_mem_map]
    exact fun r _ => r.inRange_toJson
  rw [valueFromStr, recordsText, String.toList_ofList, Json.parse_print, Option.filter_some,
    decide_eq_true ⟨hlimit, hrange⟩, if_pos rfl]

theorem trim_cons_ne_nil (h : isWhitespace c = false) (cs : List Char) : trim (c :: cs) ≠ [] := by
  have htrim := trimEnd_append_cons h [] cs
  have hdrop : (c :: cs).dropWhile isWhitespace = c :: cs :=
    List.dropWhile_cons_of_neg (Bool.eq_false_iff.mp h)
  rw [trim, hdrop]
  change trimEnd ([] ++ c :: cs) ≠ []
  rw [htrim]
  exact List.cons_ne_nil _ _

theorem trim_recordsText (records : List RemediationRecord) :
    trim (recordsText P records).toList ≠ [] := by
  rw [recordsText, String.toList_ofList]
  cases records with
  | nil => exact trim_cons_ne_nil (by decide) _
  | cons r records => exact trim_cons_ne_nil (by decide) _

/-- Sorted records are read back. -/
theorem asList_canonical (htime : ∀ t, parseTime (P.rfc3339 t) = some t)
    (records : List RemediationRecord) :
    asList (RemediationRecord.ofDoc parseTime)
      (Json.toDoc (.arr (records.map fun r => (r.toJson P).canonical))) = some records :=
  asList_map (RemediationRecord.ofDoc_canonical htime) records

theorem value_records (records : List RemediationRecord) :
    (Json.toDoc (.arr (records.map (RemediationRecord.toJson P)))).value =
      Json.toDoc (.arr (records.map fun r => (r.toJson P).canonical)) := by
  have hcanonicals : ∀ vs : List Json, Json.canonicals vs = vs.map Json.canonical := by
    intro vs
    induction vs with
    | nil => rfl
    | cons v vs ih => rw [Json.canonicals, ih, List.map_cons]
  rw [value_toDoc, Json.canonical, hcanonicals, List.map_map]
  rfl

variable {texts : Texts} {client : ControlPlaneClient}

/-- The tool's result for the records that the control plane answers with, read as records, is exactly
the open ones among them, or all of them if the caller asks for that. -/
theorem proposals_listed (htime : ∀ t, parseTime (P.rfc3339 t) = some t)
    (send : σ → HttpCall → HttpReply × σ) (s : σ) (args : Doc) (records : List RemediationRecord)
    (hreply : (send s (client.getCall ControlPlaneClient.remediationsPath)).1 =
      .received 200 (.ok (recordsText P records))) :
    ∃ v, ((listRemediationProposals texts client P parseTime args).run send s).1 = some (.json v) ∧
      asList (RemediationRecord.ofDoc parseTime) v =
        some (if pendingOnly args then records.filter isPendingRecord else records) := by
  have hbody : ControlPlaneClient.jsonOrError texts 200 (.ok (recordsText P records))
      (String.ofList (client.getCall ControlPlaneClient.remediationsPath).url) =
        .done (.ok (Json.toDoc (.arr (records.map fun r => (r.toJson P).canonical)))) := by
    unfold ControlPlaneClient.jsonOrError
    simp only [Nat.le_refl, if_neg (trim_recordsText records), valueFromStr_recordsText, value_records]
    rfl
  have hpending : pendingProposals P parseTime
      (Json.toDoc (.arr (records.map fun r => (r.toJson P).canonical))) =
        Json.toDoc (.arr ((records.filter isPendingRecord).map fun r => (r.toJson P).canonical)) := by
    rw [pendingProposals, asList_canonical htime]
  have hrun : ((listRemediationProposals texts client P parseTime args).run send s).1 =
      some (.json (if pendingOnly args then
        Json.toDoc (.arr ((records.filter isPendingRecord).map fun r => (r.toJson P).canonical))
      else Json.toDoc (.arr (records.map fun r => (r.toJson P).canonical)))) := by
    unfold listRemediationProposals ControlPlaneClient.listRemediations ControlPlaneClient.get
      ControlPlaneClient.send
    rw [Exchange.bind_ask, Exchange.run, hreply]
    dsimp only
    rw [hbody, Exchange.bind_done]
    dsimp only
    rw [hpending]
    unfold pendingOnly
    split <;> rfl
  refine ⟨_, hrun, ?_⟩
  split
  · exact asList_canonical htime _
  · exact asList_canonical htime _

end

open Platform in
/-- Of an open and a rejected proposal the tool lists the open one. -/
theorem proposals_listed_sample :
    let p : RemediationProposal := ⟨⟨1⟩, ⟨2⟩, ⟨⟨3⟩⟩, "web-1", "restart-unit", 1, .safe, .empty, "failed",
      noon⟩
    let pending : RemediationRecord := ⟨p, .pending, none, none, none, noon⟩
    let rejected : RemediationRecord := ⟨p, .rejected "ann" noon none, none, none, none, noon⟩
    let send : Unit → HttpCall → HttpReply × Unit := fun _ _ =>
      (.received 200 (.ok (recordsText sample [rejected, pending])), ())
    ∃ v, ((listRemediationProposals sampleTexts (sampleHandler false).client sample sampleParseTime
        (.obj [])).run send ()).1 = some (.json v) ∧
      asList (RemediationRecord.ofDoc sampleParseTime) v = some [pending] := by
  intro p pending rejected send
  exact proposals_listed sampleParseTime_sampleRfc3339 send () (.obj []) [rejected, pending] rfl

end Ravn.Mcp
