import Ravn.Server.KnowledgeFile

/-! The memory of a fault. Each call of the knowledge base rewrites the file of its fault signature, and
the file is found by the slug of the signature, which signatures share. Without such a collision, and
with texts that the file format can hold, the file of a signature is what its own calls make of it. -/

namespace Ravn

open Theory Knowledge

/-- A call of `record_outcome` or `record_gap`, with the time that it reads from the clock. -/
inductive KbCall where
  | outcome (signature : String) (proposal : RemediationProposal) (status : ActionStatus)
      (ttrS : Option Int64) (approver : String) (now : DateTime)
  | gap (event : Event) (now : DateTime)

namespace KbCall

def signature : KbCall → String
  | outcome signature .. => signature
  | gap event _ => faultSignature event

def now : KbCall → DateTime
  | outcome _ _ _ _ _ now => now
  | gap _ now => now

/-- The outcome that a call adds. -/
def recorded : KbCall → Option Knowledge.Outcome
  | outcome _ _ status ttrS approver now =>
    some ⟨now, status.statusStr, ttrS.map Int64.toInt, approver⟩
  | gap _ _ => none

/-- The entry that a call stores after it has loaded another one. -/
def revise (loaded : Option Entry) : KbCall → Entry
  | outcome signature proposal status ttrS approver now =>
    let templateUsed := proposal.templateId ++ "@" ++ toString proposal.templateVersion.toNat
    let e := loaded.getD ⟨signature, templateUsed, proposal.params, [], 0, now, ""⟩
    let e := { e with
      templateUsed := templateUsed
      params := proposal.params
      outcomes := e.outcomes ++
        [(⟨now, status.statusStr, ttrS.map Int64.toInt, approver⟩ : Knowledge.Outcome)]
      occurrences := e.occurrences + 1
      lastSeen := now }
    { e with body := KnowledgeBase.retrospectiveBody signature e }
  | gap event now =>
    let signature := faultSignature event
    let e := loaded.getD ⟨signature, "gap", .empty, [], 0, now, ""⟩
    let e := { e with
      templateUsed := if e.templateUsed.isEmpty then "gap" else e.templateUsed
      occurrences := e.occurrences + 1
      lastSeen := now }
    { e with body := if e.body.isEmpty then KnowledgeBase.gapBody signature event else e.body }

/-- The texts of a call have no line feed. -/
def Unbroken : KbCall → Prop
  | outcome signature proposal _ _ approver _ =>
    '\n' ∉ signature.toList ∧ '\n' ∉ proposal.templateId.toList ∧ ParamsUnbroken proposal.params ∧
      '\n' ∉ approver.toList
  | gap event _ => '\n' ∉ (faultSignature event).toList

instance : ∀ c : KbCall, Decidable c.Unbroken
  | outcome .. => inferInstanceAs (Decidable (_ ∧ _ ∧ (∀ p ∈ _, _ ∧ _) ∧ _))
  | gap .. => inferInstanceAs (Decidable (_ ∉ _))

/-- The quotes around the signature and the approver of a call are found again, and its time has a
text. -/
def Readable (c : KbCall) : Prop :=
  Quotable c.signature.toList ∧ ∀ o ∈ c.recorded,
    o.ts.HasText ∧ Quotable o.approver.toList ∧ Unsplit o.approver.toList

instance (c : KbCall) : Decidable c.Readable :=
  inferInstanceAs (Decidable (_ ∧ ∀ o ∈ c.recorded, (_ ∧ _) ∧ _ ∧ _))

@[simp] theorem revise_occurrences (c : KbCall) (loaded : Option Entry) :
    (c.revise loaded).occurrences = (loaded.map Entry.occurrences).getD 0 + 1 := by
  cases c <;> cases loaded <;> rfl

@[simp] theorem revise_outcomes (c : KbCall) (loaded : Option Entry) :
    (c.revise loaded).outcomes =
      (loaded.map Entry.outcomes).getD [] ++ c.recorded.toList := by
  cases c <;> cases loaded <;> simp [revise, recorded]

@[simp] theorem revise_faultSignature (c : KbCall) (loaded : Option Entry) :
    (c.revise loaded).faultSignature = (loaded.map Entry.faultSignature).getD c.signature := by
  cases c <;> cases loaded <;> rfl

/-- The name of a template with its version is one line, whatever version it is. -/
theorem templateRef_unbroken {id : String} (h : '\n' ∉ id.toList) (version : UInt32) :
    '\n' ∉ (id ++ "@" ++ toString version.toNat).toList ∧
      (id ++ "@" ++ toString version.toNat).toList.getLast? ≠ some '\r' := by
  have htext : (id ++ "@" ++ toString version.toNat).toList =
      id.toList ++ ['@'] ++ (toString version.toNat).toList := by
    simp only [String.toList_append]
    rfl
  rw [htext]
  constructor
  · refine List.not_mem_append (List.not_mem_append h (by decide)) fun hmem => ?_
    exact absurd (isDigit_of_mem_toString hmem) (by decide)
  · intro hlast
    rw [List.getLast?_append_of_ne_nil _ (toString_ne_nil _)] at hlast
    exact absurd (isDigit_of_mem_toString (List.mem_of_getLast? hlast)) (by decide)

theorem revise_templateUsed {c : KbCall} (hc : c.Unbroken) {loaded : Option Entry}
    (h : ∀ e ∈ loaded, e.Unbroken) : '\n' ∉ (c.revise loaded).templateUsed.toList ∧
      (c.revise loaded).templateUsed.toList.getLast? ≠ some '\r' := by
  cases c with
  | outcome signature proposal status ttrS approver now =>
    exact templateRef_unbroken hc.2.1 proposal.templateVersion
  | gap event now =>
    simp only [revise]
    split
    · decide
    · cases loaded with
      | none => exact (by decide : '\n' ∉ "gap".toList ∧ "gap".toList.getLast? ≠ some '\r')
      | some e => exact ⟨(h e rfl).template, (h e rfl).template_end⟩

theorem revise_unbroken {c : KbCall} (hc : c.Unbroken) {loaded : Option Entry}
    (h : ∀ e ∈ loaded, e.Unbroken) : (c.revise loaded).Unbroken where
  signature := by
    rw [revise_faultSignature]
    cases loaded with
    | none =>
      cases c with
      | outcome => exact hc.1
      | gap => exact hc
    | some e => exact (h e rfl).signature
  template := (revise_templateUsed hc h).1
  template_end := (revise_templateUsed hc h).2
  params := by
    cases c with
    | outcome => exact hc.2.2.1
    | gap =>
      cases loaded with
      | none => exact fun p hp => nomatch hp
      | some e => exact (h e rfl).params
  outcomes := by
    intro o ho
    rw [revise_outcomes] at ho
    rcases List.mem_append.mp ho with ho | ho
    · cases loaded with
      | none => cases ho
      | some e => exact (h e rfl).outcomes o ho
    · cases c with
      | outcome signature proposal status ttrS approver now =>
        cases List.mem_singleton.mp ho
        refine ⟨?_, hc.2.2.2⟩
        change '\n' ∉ status.statusStr.toList
        cases status <;> decide
      | gap => cases ho

theorem revise_readable {c : KbCall} (hc : c.Unbroken) (hr : c.Readable) {loaded : Option Entry}
    (h : ∀ e ∈ loaded, e.Readable) : (c.revise loaded).Readable where
  toUnbroken := revise_unbroken hc fun e he => (h e he).toUnbroken
  quotable := by
    rw [revise_faultSignature]
    cases loaded with
    | none => exact hr.1
    | some e => exact (h e rfl).quotable
  readable := by
    intro o ho
    rw [revise_outcomes] at ho
    rcases List.mem_append.mp ho with ho | ho
    · cases loaded with
      | none => cases ho
      | some e => exact (h e rfl).readable o ho
    · obtain ⟨hts, hquotable, hunsplit⟩ := hr.2 o (Option.mem_toList.mp ho)
      cases c with
      | outcome signature proposal status ttrS approver now =>
        cases List.mem_singleton.mp ho
        refine ⟨hts, ⟨status, rfl⟩, ?_, hquotable, hunsplit⟩
        intro v hv
        obtain ⟨n, -, rfl⟩ := Option.map_eq_some_iff.mp hv
        exact ⟨n.le_toInt, n.toInt_lt⟩
      | gap => cases ho

end KbCall

/-! ## The file of a signature -/

variable (F : Rfc3339)

/-- The file that a call leaves, from the one that it finds. -/
def KbCall.rewrite (file : Option String) (c : KbCall) : Option String :=
  some ((c.revise (file.bind (Entry.fromMarkdown F c.now))).toMarkdown F)

/-- The file that calls on one signature make one after another. -/
def KbCall.history (calls : List KbCall) : Option String := calls.foldl (rewrite F) none

/-- What the calls on a signature leave of it: its own entry, the outcomes in the order of the calls and
their number. -/
structure Knowledge.Entry.Records (signature : String) (calls : List KbCall) (e : Entry) : Prop where
  signature : e.faultSignature = signature
  outcomes : e.outcomes = calls.filterMap KbCall.recorded
  occurrences : e.occurrences = .ofNat calls.length

variable {F} (hF : F.Lawful)

theorem KbCall.history_concat (calls : List KbCall) (c : KbCall) :
    history F (calls ++ [c]) = c.rewrite F (history F calls) := by
  simp [history]

include hF in
/-- A call on a file that records some calls leaves a file that records it too. -/
theorem KbCall.rewrite_records {c : KbCall} (hc : c.Unbroken) (hr : c.Readable)
    (hsignature : c.signature = s) {file : Option String}
    (h : file = none ∧ calls = [] ∨
      ∃ e : Entry, file = some (e.toMarkdown F) ∧ e.Readable ∧ e.Records s calls) :
    ∃ e : Entry, c.rewrite F file = some (e.toMarkdown F) ∧ e.Readable ∧
      e.Records s (calls ++ [c]) := by
  have hrecorded : [c].filterMap recorded = c.recorded.toList := by
    cases c <;> rfl
  refine ⟨_, rfl, ?_⟩
  obtain ⟨rfl, rfl⟩ | ⟨e, rfl, hread, hrec⟩ := h
  · refine ⟨revise_readable hc hr fun e he => (nomatch he), ?_, ?_, ?_⟩
    · simpa using hsignature
    · simp [hrecorded]
    · simp
  · rw [Option.bind_some, Entry.fromMarkdown_toMarkdown hF hread.toUnbroken]
    have hloaded : ∀ e' ∈ some (e.reread F c.now), e'.Readable := by
      intro e' he'
      rw [← Option.mem_some_iff.mp he']
      exact Entry.reread_readable hF hread c.now
    refine ⟨revise_readable hc hr hloaded, ?_, ?_, ?_⟩
    · simp [Entry.reread_faultSignature hread, hrec.signature]
    · simp [Entry.reread_outcomes hF hread, hrec.outcomes, hrecorded]
    · simp [hrec.occurrences]

include hF in
theorem KbCall.history_records {calls : List KbCall}
    (h : ∀ c ∈ calls, c.Unbroken ∧ c.Readable ∧ c.signature = s) :
    history F calls = none ∧ calls = [] ∨
      ∃ e : Entry, history F calls = some (e.toMarkdown F) ∧ e.Readable ∧ e.Records s calls := by
  induction calls using List.reverseRecOn with
  | nil => exact .inl ⟨rfl, rfl⟩
  | append_singleton calls c ih =>
    obtain ⟨hc, hr, hsignature⟩ := h c (by simp)
    rw [history_concat]
    exact .inr (rewrite_records hF hc hr hsignature (ih fun c hc => h c (by simp [hc])))

/-! ## The directory -/

/-- A call, and whether its file could be written. -/
structure KbStep where
  call : KbCall
  written : Bool

namespace KnowledgeBase

variable (F) in
def perform (kb : KnowledgeBase) (step : KbStep) : KnowledgeBase :=
  match step.call with
  | .outcome signature proposal status ttrS approver now =>
    kb.recordOutcome F signature proposal status (ttrS.map Int64.toInt) approver now step.written
  | .gap event now => kb.recordGap F event now step.written

variable (F) in
/-- Calls on a knowledge base with an empty directory. -/
def exec (steps : List KbStep) : KnowledgeBase := steps.foldl (perform F) ⟨some fun _ => none⟩

/-- The calls on a signature. -/
def callsFor (s : String) (steps : List KbStep) : List KbCall :=
  (steps.map KbStep.call).filter fun c => c.signature = s

/-- What is read of a signature comes from its own calls: it is as if there were no others, and the
entry is that of the signature with the outcomes and the number of its calls. -/
structure Remembers (F : Rfc3339) (s : String) (steps : List KbStep) : Prop where
  load : ∀ now, (exec F steps).load F now s =
    (exec F (steps.filter fun step => step.call.signature = s)).load F now s
  «recall» : ∀ now, (exec F steps).«recall» F now s =
    (exec F (steps.filter fun step => step.call.signature = s)).«recall» F now s
  entry : ∀ now, ∀ e ∈ (exec F steps).load F now s, e.faultSignature = s ∧
    e.outcomes = (callsFor s steps).filterMap KbCall.recorded ∧
    e.occurrences.toNat = (callsFor s steps).length
  absent : ∀ now, (exec F steps).load F now s = none ↔ callsFor s steps = []

/-- No call has a line feed in its texts or another signature with the slug of `s`, and the calls on
`s` are written and read back. -/
structure Keeps (s : String) (steps : List KbStep) : Prop where
  unbroken : ∀ step ∈ steps, step.call.Unbroken
  slugs : ∀ step ∈ steps, slug step.call.signature = slug s → step.call.signature = s
  written : ∀ step ∈ steps, step.call.signature = s → step.written = true
  readable : ∀ step ∈ steps, step.call.signature = s → step.call.Readable
  count : (callsFor s steps).length < 2 ^ 64

theorem perform_eq (dir : String → Option String) (step : KbStep) :
    (⟨some dir⟩ : KnowledgeBase).perform F step =
      (⟨some dir⟩ : KnowledgeBase).store F step.written
        (step.call.revise ((dir (slug step.call.signature)).bind
          (Entry.fromMarkdown F step.call.now))) := by
  obtain ⟨call, written⟩ := step
  cases call <;> rfl

theorem store_eq (dir : String → Option String) (e : Entry) :
    (⟨some dir⟩ : KnowledgeBase).store F true e =
      ⟨some fun stem => if stem = slug e.faultSignature then some (e.toMarkdown F) else dir stem⟩ :=
  rfl

/-- Every file is unbroken and is found by the slug of the signature that it says. -/
def Tidy (F : Rfc3339) (dir : String → Option String) : Prop :=
  ∀ stem text, dir stem = some text →
    ∃ e : Entry, text = e.toMarkdown F ∧ e.Unbroken ∧ slug e.faultSignature = stem

include hF in
theorem Tidy.revise {dir : String → Option String} (h : Tidy F dir) {c : KbCall}
    (hc : c.Unbroken) :
    (c.revise ((dir (slug c.signature)).bind (Entry.fromMarkdown F c.now))).Unbroken ∧
      slug (c.revise ((dir (slug c.signature)).bind
        (Entry.fromMarkdown F c.now))).faultSignature = slug c.signature := by
  cases hfile : dir (slug c.signature) with
  | none => exact ⟨KbCall.revise_unbroken hc fun e he => (nomatch he), by simp⟩
  | some text =>
    obtain ⟨e, rfl, he, hslug⟩ := h _ text hfile
    rw [Option.bind_some, Entry.fromMarkdown_toMarkdown hF he]
    refine ⟨KbCall.revise_unbroken hc ?_, ?_⟩
    · intro e' he'
      rw [← Option.mem_some_iff.mp he']
      exact Entry.reread_unbroken hF he c.now
    · simpa [Entry.slug_reread] using hslug

include hF in
/-- A call that is written rewrites the file with the slug of its signature, and no other. -/
theorem perform_dir {dir : String → Option String} (h : Tidy F dir) {step : KbStep}
    (hc : step.call.Unbroken) :
    ∃ dir', (⟨some dir⟩ : KnowledgeBase).perform F step = ⟨some dir'⟩ ∧ Tidy F dir' ∧
      ∀ stem, dir' stem = if step.written ∧ stem = slug step.call.signature
        then step.call.rewrite F (dir stem) else dir stem := by
  obtain ⟨hunbroken, hslug⟩ := h.revise hF hc
  rw [perform_eq]
  cases hwritten : step.written with
  | false => exact ⟨dir, by simp [store], h, fun stem => by simp⟩
  | true =>
    have hrewrite : step.call.rewrite F (dir (slug step.call.signature)) =
        some ((step.call.revise ((dir (slug step.call.signature)).bind
          (Entry.fromMarkdown F step.call.now))).toMarkdown F) := rfl
    generalize step.call.revise ((dir (slug step.call.signature)).bind
      (Entry.fromMarkdown F step.call.now)) = e at hunbroken hslug hrewrite ⊢
    refine ⟨fun stem => if stem = slug step.call.signature then some (e.toMarkdown F)
      else dir stem, by rw [store_eq, hslug], ?_, ?_⟩
    · intro stem text htext
      beta_reduce at htext
      by_cases hstem : stem = slug step.call.signature
      · rw [if_pos hstem] at htext
        exact ⟨e, (Option.some.inj htext).symm, hunbroken, hslug.trans hstem.symm⟩
      · rw [if_neg hstem] at htext
        exact h stem text htext
    · intro stem
      beta_reduce
      by_cases hstem : stem = slug step.call.signature
      · rw [if_pos hstem, if_pos ⟨rfl, hstem⟩, hstem, hrewrite]
      · rw [if_neg hstem, if_neg fun h => hstem h.2]

include hF in
/-- The file of a signature is what its own calls make of it. -/
theorem exec_dir {s : String} {steps : List KbStep}
    (hunbroken : ∀ step ∈ steps, step.call.Unbroken)
    (hslugs : ∀ step ∈ steps, slug step.call.signature = slug s → step.call.signature = s)
    (hwritten : ∀ step ∈ steps, step.call.signature = s → step.written = true) :
    ∃ dir, exec F steps = ⟨some dir⟩ ∧ Tidy F dir ∧
      dir (slug s) = KbCall.history F (callsFor s steps) := by
  induction steps using List.reverseRecOn with
  | nil => exact ⟨_, rfl, fun stem text h => (nomatch h), rfl⟩
  | append_singleton steps step ih =>
    obtain ⟨dir, hexec, htidy, hfile⟩ := ih (fun x hx => hunbroken x (by simp [hx]))
      (fun x hx => hslugs x (by simp [hx])) fun x hx => hwritten x (by simp [hx])
    obtain ⟨dir', hperform, htidy', hdir⟩ := perform_dir hF htidy (hunbroken step (by simp))
    have hlast : exec F (steps ++ [step]) = (exec F steps).perform F step := by
      simp [exec]
    refine ⟨dir', by rw [hlast, hexec, hperform], htidy', ?_⟩
    rw [hdir]
    by_cases hs : step.call.signature = s
    · have hcalls : callsFor s (steps ++ [step]) = callsFor s steps ++ [step.call] := by
        simp [callsFor, hs]
      rw [if_pos ⟨hwritten step (by simp) hs, by rw [hs]⟩, hcalls, KbCall.history_concat, hfile]
    · have hcalls : callsFor s (steps ++ [step]) = callsFor s steps := by
        simp [callsFor, hs]
      rw [if_neg fun h => hs (hslugs step (by simp) h.2.symm), hcalls, hfile]

theorem callsFor_filter (s : String) (steps : List KbStep) :
    callsFor s (steps.filter fun step => step.call.signature = s) = callsFor s steps := by
  simp [callsFor, List.filter_map, Function.comp_def]

theorem load_eq (dir : String → Option String) (now : DateTime) (s : String) :
    (⟨some dir⟩ : KnowledgeBase).load F now s = (dir (slug s)).bind (Entry.fromMarkdown F now) := rfl

/-- Faults do not share memory as long as their signatures do not share a slug and their texts fit the
file format. -/
theorem memory_per_fault (hF : F.Lawful) (s : String) (steps : List KbStep) (h : Keeps s steps) :
    Remembers F s steps := by
  obtain ⟨dir, hexec, -, hfile⟩ := exec_dir hF h.unbroken h.slugs h.written
  have hmem : ∀ step ∈ steps.filter fun step => step.call.signature = s, step ∈ steps :=
    fun step hstep => (List.mem_filter.mp hstep).1
  obtain ⟨dir', hexec', -, hfile'⟩ := exec_dir (s := s) hF
    (fun step hstep => h.unbroken step (hmem step hstep))
    (fun step hstep => h.slugs step (hmem step hstep))
    fun step hstep => h.written step (hmem step hstep)
  have hload : ∀ now, (exec F steps).load F now s =
      (KbCall.history F (callsFor s steps)).bind (Entry.fromMarkdown F now) := by
    intro now
    rw [hexec, load_eq, hfile]
  have hload' : ∀ now, (exec F (steps.filter fun step => step.call.signature = s)).load F now s =
      (exec F steps).load F now s := by
    intro now
    rw [hexec', load_eq, hfile', callsFor_filter, hload]
  have hcalls : ∀ c ∈ callsFor s steps, c.Unbroken ∧ c.Readable ∧ c.signature = s := by
    intro c hc
    obtain ⟨hc, hs⟩ := List.mem_filter.mp hc
    obtain ⟨step, hstep, rfl⟩ := List.mem_map.mp hc
    have hs : step.call.signature = s := of_decide_eq_true hs
    exact ⟨h.unbroken step hstep, h.readable step hstep hs, hs⟩
  refine ⟨fun now => (hload' now).symm, fun now => by simp only [«recall», hload'], ?_, ?_⟩
  · intro now e he
    rw [hload] at he
    obtain ⟨hnone, -⟩ | ⟨e', hsome, hread, hrec⟩ := KbCall.history_records hF hcalls
    · rw [hnone] at he
      cases he
    · rw [hsome, Option.bind_some, Entry.fromMarkdown_toMarkdown hF hread.toUnbroken,
        Option.mem_some_iff] at he
      subst he
      refine ⟨(Entry.reread_faultSignature hread now).trans hrec.signature,
        (Entry.reread_outcomes hF hread now).trans hrec.outcomes, ?_⟩
      rw [Entry.reread_occurrences, hrec.occurrences, UInt64.toNat_ofNat_of_lt' h.count]
  · intro now
    rw [hload]
    obtain ⟨hnone, hnil⟩ | ⟨e', hsome, hread, hrec⟩ := KbCall.history_records hF hcalls
    · rw [hnone]
      exact iff_of_true rfl hnil
    · refine iff_of_false ?_ fun hnil => ?_
      · rw [hsome, Option.bind_some, Entry.fromMarkdown_toMarkdown hF hread.toUnbroken]
        simp
      · simp [hnil, KbCall.history] at hsome

/-! ## Two workloads with one file -/

/-- A workload of a namespace that crashes. -/
def sampleCrash (ns name : String) : Event where
  id := ⟨11⟩
  occurredAt := Platform.noon
  observedAt := Platform.noon
  agentId := ⟨⟨2⟩⟩
  host := "cluster-1"
  severity := .error
  title := name ++ " is crash-looping"
  categoryHints := []
  payload := .kubeWorkload ⟨ns, "Deployment", name, "CrashLoopBackOff", none, none, none, .empty⟩

/-- No template matches the crash. -/
def sampleGap (ns name : String) : KbStep := ⟨.gap (sampleCrash ns name) Platform.noon, true⟩

/-- A command against a fault is reported on. -/
def sampleOutcome (signature : String) (status : ActionStatus) : KbStep :=
  let proposal : RemediationProposal :=
    ⟨⟨5⟩, ⟨11⟩, ⟨⟨2⟩⟩, "cluster-1", "restart-workload", 1, .safe,
      BTreeMap.empty.insert "ns" "prod", "the workload is crash-looping", Platform.noon⟩
  ⟨.outcome signature proposal status (some 42) "admin" Platform.noon, true⟩

theorem sampleGap_keeps :
    Keeps "KubeWorkload:prod/web-api:CrashLoopBackOff" [sampleGap "prod" "web-api"] :=
  ⟨by decide, by decide, by decide, by decide, by decide⟩

/-- Two faults are met in turn, and one of the calls on the second cannot write its file. -/
theorem memory_per_fault_sample :
    Remembers .sample "KubeWorkload:prod/web-api:CrashLoopBackOff" [
      sampleGap "prod" "web-api", sampleOutcome "KubeWorkload:prod/db:CrashLoopBackOff" .failed,
      sampleOutcome "KubeWorkload:prod/web-api:CrashLoopBackOff" .succeeded,
      { sampleGap "prod" "db" with written := false }, sampleGap "prod" "web-api"] :=
  memory_per_fault Rfc3339.sample_lawful _ _ ⟨by decide +kernel, by decide +kernel, by decide +kernel,
    by decide +kernel, by decide +kernel⟩

/-- The crash of `prod/web-api` is read as that of `prod-web/api`. -/
theorem workloads_share_memory :
    ¬Remembers .sample "KubeWorkload:prod-web/api:CrashLoopBackOff"
      [sampleGap "prod" "web-api"] := by
  intro h
  have hnone := (h.absent Platform.noon).mpr (by decide)
  have hkeeps := sampleGap_keeps
  obtain ⟨dir, hexec, htidy, hfile⟩ := exec_dir Rfc3339.sample_lawful hkeeps.unbroken hkeeps.slugs
    hkeeps.written
  have hslug : slug "KubeWorkload:prod-web/api:CrashLoopBackOff" =
      slug "KubeWorkload:prod/web-api:CrashLoopBackOff" := by decide
  obtain ⟨text, htext⟩ : ∃ text, KbCall.history .sample
      (callsFor "KubeWorkload:prod/web-api:CrashLoopBackOff" [sampleGap "prod" "web-api"]) =
      some text := ⟨_, rfl⟩
  obtain ⟨e, rfl, he, -⟩ := htidy _ text (hfile.trans htext)
  rw [hexec, load_eq, hslug, hfile, htext, Option.bind_some,
    Entry.fromMarkdown_toMarkdown Rfc3339.sample_lawful he] at hnone
  cases hnone

end KnowledgeBase

end Ravn
