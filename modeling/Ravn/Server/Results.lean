import Ravn.Server.Ingest
import Ravn.Server.KnowledgeFile

/-! Reported results. The handler ignores the ids of the path and goes by the command id of the body; it
overwrites a result that is there, and reflects every report into the knowledge base. A report changes
its own record only, and once, as long as the ids agree and no record is reported on twice. -/

namespace Ravn

open Theory

/-- A POST to `/agents/{agent}/commands/{command}/result` with its body, and what the database, the
clock and the disk answer. -/
structure ResultPost where
  agent : Uuid
  command : Uuid
  result : ActionResult
  reply : Reply
  now : DateTime
  written : Bool

/-- The same request is made again. -/
def ResultPost.Repeats (p q : ResultPost) : Prop :=
  p.agent = q.agent ∧ p.command = q.command ∧ p.result = q.result

/-- What the handler works on, and the requests made so far. -/
structure ResultsState where
  rows : Table
  kb : KnowledgeBase
  results : List ActionResult
  posted : List ResultPost

namespace ResultsState

variable (F : Rfc3339)

/-- `RemediationStore::record_result`. -/
def recordResult (s : ResultsState) (p : ResultPost) :
    Option (RemediationRecord × String) × Table :=
  if p.reply.ok then s.rows.recordResult p.result p.reply.now else (none, s.rows)

/-- `post_command_result`. -/
def post (s : ResultsState) (p : ResultPost) : ResultsState where
  rows := (s.recordResult p).2
  kb :=
    match (s.recordResult p).1 with
    | some (record, signature) =>
      if s.kb.isEnabled && !signature.isEmpty then
        s.kb.recordOutcome F signature record.proposal p.result.status
          (record.result.map fun r =>
            (r.finishedAt.nanos - record.proposal.createdAt.nanos).tdiv 1000000000)
          (IngestState.approver record.decision) p.now p.written
      else s.kb
    | none => s.kb
  results := s.results ++ [p.result]
  posted := s.posted ++ [p]

def exec (s : ResultsState) (posts : List ResultPost) : ResultsState := posts.foldl (post F) s

def step (s : ResultsState) (p : ResultPost) : Option ResultsState := some (s.post F p)

/-- The handler among the others: its first access to what they share is the whole of it but for the
push to the list of results. -/
theorem post_eq_step {P : Platform} (cfg : IngestConfig P) (s : IngestState) (p : ResultPost)
    (d : Draw) (hreply : d.reply = p.reply) (hnow : d.now = p.now) (results posted) :
    let s' := post cfg.times ⟨s.plane.shared.store.rows, s.kb, results, posted⟩ p
    (Task.step cfg.app s.plane.shared (.resultUpdate p.result) d).map (·.1.store.rows) =
        some s'.rows ∧
      s.reflect cfg (.resultUpdate p.result) d p.written = s'.kb := by
  simp only [Task.step, IngestState.reflect, post, recordResult, hreply, hnow, Option.map_some]
  cases p.reply.ok <;> exact ⟨rfl, rfl⟩

/-- Every record with the body's command id is the path's command and has no result yet; or the
statement fails. -/
def Admits (s : ResultsState) (p : ResultPost) : Prop :=
  p.reply.ok = true → ∀ r ∈ s.rows, r.commandId = some p.result.commandId →
    p.result.commandId = p.command ∧ r.result = none

instance (s : ResultsState) (p : ResultPost) : Decidable (s.Admits p) :=
  inferInstanceAs (Decidable (p.reply.ok = true → ∀ r ∈ s.rows, _))

/-- What requests may do between two states: they change the records of their paths' commands only,
and keep the results that are there. -/
structure Between (commands : List Uuid) (s t : ResultsState) : Prop where
  others : ∀ (i : Nat) (r : Row), s.rows[i]? = some r → (∀ c ∈ commands, r.commandId ≠ some c) →
    t.rows[i]? = some r
  kept : ∀ (i : Nat) (r : Row), s.rows[i]? = some r → ∃ r', t.rows[i]? = some r' ∧
    r'.commandId = r.commandId ∧ ∀ result, r.result = some result → r'.result = some result
  length : t.rows.length = s.rows.length

/-- A request that was made before, and did not fail then, changes neither the records nor the
knowledge base. -/
def RepeatInert (s : ResultsState) (p : ResultPost) : Prop :=
  (∃ q ∈ s.posted, q.reply.ok = true ∧ p.Repeats q) →
    (s.post F p).rows = s.rows ∧ (s.post F p).kb = s.kb

/-- The records that were reported on have their result. -/
def Recorded (s : ResultsState) : Prop :=
  ∀ q ∈ s.posted, q.reply.ok = true → ∀ r ∈ s.rows, r.commandId = some q.result.commandId →
    r.result ≠ none

variable {F} {s t u : ResultsState} {p : ResultPost} {posts : List ResultPost} {cs cs' : List Uuid}

theorem Between.refl (s : ResultsState) : Between [] s s :=
  ⟨fun _ _ h _ => h, fun _ r h => ⟨r, h, rfl, fun _ h => h⟩, rfl⟩

theorem Between.trans (h : Between cs s t) (h' : Between cs' t u) : Between (cs ++ cs') s u := by
  refine ⟨?_, ?_, h'.length.trans h.length⟩
  · intro i r hr hne
    refine h'.others i r (h.others i r hr fun c hc => ?_) fun c hc => ?_
    · exact hne c (List.mem_append_left _ hc)
    · exact hne c (List.mem_append_right _ hc)
  · intro i r hr
    obtain ⟨r', hr', hid, hresult⟩ := h.kept i r hr
    obtain ⟨r'', hr'', hid', hresult'⟩ := h'.kept i r' hr'
    exact ⟨r'', hr'', hid'.trans hid, fun result hres => hresult' result (hresult result hres)⟩

/-- The statement finds no record, or it fails. -/
theorem post_unmatched (h : p.reply.ok = true →
    ∀ r ∈ s.rows, r.commandId ≠ some p.result.commandId) :
    (s.post F p).rows = s.rows ∧ (s.post F p).kb = s.kb := by
  cases hok : p.reply.ok with
  | false => simp [post, recordResult, hok]
  | true =>
    have hrows : (s.rows.updateWhere (fun r => r.commandId = some p.result.commandId) fun r =>
        { r with result := some p.result, updatedAt := p.reply.now }).2 = s.rows := by
      rw [Table.updateWhere]
      refine (List.map_congr_left fun r hr => ?_).trans (List.map_id s.rows)
      rw [if_neg (by simpa using h hok r hr)]
      rfl
    have hfind : s.rows.find? (fun r => decide (r.commandId = some p.result.commandId)) = none :=
      List.find?_eq_none.mpr fun r hr => by simpa using h hok r hr
    simp [post, recordResult, hok, Table.recordResult, hrows, hfind]

theorem post_between (h : s.Admits p) : Between [p.command] s (s.post F p) := by
  cases hok : p.reply.ok with
  | false =>
    obtain ⟨hrows, -⟩ := post_unmatched (F := F) (s := s) (p := p) fun h => by simp [hok] at h
    refine ⟨?_, ?_, ?_⟩ <;> rw [hrows]
    · exact fun i r hr _ => hr
    · exact fun i r hr => ⟨r, hr, rfl, fun _ h => h⟩
  | true =>
    have hget : ∀ i : Nat, (s.post F p).rows[i]? = s.rows[i]?.map fun r : Row =>
        if r.commandId = some p.result.commandId then
          { r with result := some p.result, updatedAt := p.reply.now } else r := by
      intro i
      simp [post, recordResult, hok, Table.recordResult, Table.updateWhere]
    refine ⟨?_, ?_, ?_⟩
    · intro i r hr hne
      have hother : r.commandId ≠ some p.result.commandId := by
        intro hid
        obtain ⟨hpath, -⟩ := h hok r (List.mem_of_getElem? hr) hid
        exact hne p.command List.mem_cons_self (hid.trans (congrArg some hpath))
      rw [hget, hr, Option.map_some, if_neg hother]
    · intro i r hr
      rw [hget, hr, Option.map_some]
      split
      · rename_i hid
        obtain ⟨-, hnone⟩ := h hok r (List.mem_of_getElem? hr) hid
        refine ⟨_, rfl, rfl, fun result hres => ?_⟩
        cases hnone.symm.trans hres
      · exact ⟨r, rfl, rfl, fun _ hres => hres⟩
    · simp [post, recordResult, hok, Table.recordResult, Table.updateWhere]

theorem post_recorded (hs : s.Recorded) (h : s.Admits p) : (s.post F p).Recorded := by
  intro q hq hok r hr hid
  obtain ⟨i, hi⟩ := List.mem_iff_getElem?.mp hr
  rcases List.mem_append.mp hq with hq | hq
  · -- a record that has its result keeps it
    have hlt : i < s.rows.length := by
      rw [← (post_between (F := F) h).length]
      exact (List.getElem?_eq_some_iff.mp hi).1
    obtain ⟨r', hr', hid', hkept⟩ :=
      (post_between (F := F) h).kept i _ (List.getElem?_eq_getElem hlt)
    cases hi.symm.trans hr'
    obtain ⟨result, hresult⟩ := Option.ne_none_iff_exists'.mp
      (hs q hq hok _ (List.getElem_mem hlt) (hid'.symm.trans hid))
    simp [hkept result hresult]
  · cases List.mem_singleton.mp hq
    simp only [post, recordResult, hok, if_true, Table.recordResult] at hr
    obtain ⟨r₀, -, ⟨-, rfl⟩ | ⟨hne, rfl⟩⟩ := Table.mem_updateWhere.mp hr
    · simp
    · simp [hid] at hne

theorem post_repeatInert (hs : s.Recorded) (h : s.Admits p) : s.RepeatInert F p := by
  rintro ⟨q, hq, hqok, -, -, hresult⟩
  refine post_unmatched fun hok r hr hid => ?_
  exact hs q hq hqok r hr (hresult ▸ hid) (h hok r hr hid).2

theorem run_step (s : ResultsState) (posts : List ResultPost) :
    run (step F) s posts = some (s.exec F posts) := by
  induction posts generalizing s with
  | nil => rfl
  | cons p posts ih => exact ih (s.post F p)

theorem exec_between (h : Along (step F) Admits s posts) :
    Between (posts.map ResultPost.command) s (s.exec F posts) := by
  induction posts generalizing s with
  | nil => exact .refl s
  | cons p posts ih => exact (post_between h.1).trans (ih (h.2 _ rfl))

theorem exec_recorded (hs : s.Recorded) (h : Along (step F) Admits s posts) :
    (s.exec F posts).Recorded :=
  h.invariant (I := Recorded) (fun hs hp hstep => Option.some.inj hstep ▸ post_recorded hs hp)
    (run_step s posts) hs

/-- Requests are made from some table and knowledge base, in a sequence where each finds no record, or
one of its own path that has no result yet. From any point to any later one only records of the paths
in between change and no result is overwritten, and a request that repeats an earlier one changes
neither a record nor the knowledge base. -/
theorem results_recorded_once (F : Rfc3339) (rows : Table) (kb : KnowledgeBase)
    (results : List ActionResult) (posts : List ResultPost)
    (h : Along (step F) Admits ⟨rows, kb, results, []⟩ posts) :
    ∀ pre mid post, posts = pre ++ mid ++ post →
      Between (mid.map ResultPost.command) (exec F ⟨rows, kb, results, []⟩ pre)
        (exec F ⟨rows, kb, results, []⟩ (pre ++ mid)) ∧
      ∀ p ∈ post.head?, (exec F ⟨rows, kb, results, []⟩ (pre ++ mid)).RepeatInert F p := by
  rintro pre mid post rfl
  generalize hs : (⟨rows, kb, results, []⟩ : ResultsState) = s at *
  have hrecorded : s.Recorded := by
    subst hs
    exact fun q hq => nomatch hq
  obtain ⟨hbefore, hafter⟩ := along_append.mp h
  have hexec : s.exec F (pre ++ mid) = (s.exec F pre).exec F mid := List.foldl_append
  refine ⟨?_, ?_⟩
  · rw [hexec]
    exact exec_between ((along_append.mp hbefore).2 _ (run_step s pre))
  · intro p hp
    have hpost := hafter _ (run_step s (pre ++ mid))
    cases post with
    | nil => cases hp
    | cons p' post =>
      cases hp
      exact post_repeatInert (exec_recorded hrecorded hbefore) hpost.1

/-! ## Reports on another command's path -/

open RemediationStore in
/-- The record of the command that was approved for the sample proposal. -/
def sampleRecord : Row :=
  ⟨sampleProposal, .approved (.human "admin" Platform.noon), some ⟨21⟩, some "c2ln", none,
    "FailedUnit:nginx.service:exit-code", Platform.noon⟩

/-- A report on command 21, sent to the path of some command. -/
def samplePost (command : Uuid) (status : ActionStatus) : ResultPost where
  agent := ⟨2⟩
  command := command
  result := ⟨⟨21⟩, status, none, none, Platform.fivePastNoon⟩
  reply := ⟨true, Platform.fivePastNoon⟩
  now := Platform.fivePastNoon
  written := true

/-- A report on command 21 that the database does not take, the same again, one on a command that is not
recorded, and one on command 22; then the unrecorded one is repeated. -/
theorem results_recorded_once_sample :
    let unrecorded : ResultPost := { samplePost ⟨21⟩ .failed with
      result := ⟨⟨23⟩, .failed, none, none, Platform.fivePastNoon⟩ }
    let posts : List ResultPost := [
      { samplePost ⟨21⟩ .succeeded with reply := ⟨false, Platform.fivePastNoon⟩ },
      samplePost ⟨21⟩ .succeeded, unrecorded,
      { samplePost ⟨22⟩ .failed with
        result := ⟨⟨22⟩, .failed, none, none, Platform.fivePastNoon⟩ }]
    let s : ResultsState :=
      ⟨[sampleRecord, { sampleRecord with commandId := some ⟨22⟩ }], ⟨none⟩, [], []⟩
    Between [⟨21⟩, ⟨21⟩, ⟨21⟩, ⟨22⟩] s (exec .sample s posts) ∧
      (exec .sample s posts).RepeatInert .sample unrecorded := by
  intro unrecorded posts s
  have hadmits : Along (step .sample) Admits s (posts ++ [unrecorded]) := by decide +kernel
  obtain ⟨hbetween, hinert⟩ :=
    results_recorded_once .sample s.rows ⟨none⟩ [] _ hadmits [] posts [unrecorded] rfl
  exact ⟨hbetween, hinert _ rfl⟩

/-- A report on command 21 that is sent to the path of command 22 overwrites the result of command
21. -/
theorem report_overwrites_other_record :
    ¬Between [⟨22⟩]
      (exec .sample ⟨[sampleRecord], ⟨none⟩, [], []⟩ [samplePost ⟨21⟩ .succeeded])
      (exec .sample ⟨[sampleRecord], ⟨none⟩, [], []⟩
        [samplePost ⟨21⟩ .succeeded, samplePost ⟨22⟩ .failed]) := by
  intro h
  obtain ⟨r', hr', -, hresult⟩ := h.kept 0 _ rfl
  cases hr'
  cases hresult _ rfl

end ResultsState

end Ravn
