import Ravn.Server.IssuedOnce

/-! Redelivered messages. As long as every redelivered message finds nothing to do, ingestion goes as
it would if each message were prepared only when it is stored, and no event has more than one record
or more than one command of policy's own. -/

namespace Ravn

open Theory

variable {P : Platform}

/-! ## Quiet redeliveries -/

/-- Policy does not let the call pass, and the breaker's log stays as it is. -/
def PolicyEngine.Quiet (eng : PolicyEngine) (hits : HitLog) (c : PolicyCall) : Prop :=
  eng.autoEnabled = false ∨ eng.ruleDecision c ≠ .auto ∨
    ((eng.tripped hits c).all fun r => r.1 && decide (r.2 c.key = hits c.key)) = true

theorem PolicyEngine.Quiet.consult {eng : PolicyEngine} (h : eng.Quiet hits c)
    (hconsult : eng.consult hits c = some (r, hits')) : r.decision ≠ .auto ∧ hits' = hits := by
  obtain ⟨-, hne, rfl⟩ | ⟨henabled, hrule, tripped, htripped, rfl⟩ := consult_cases hconsult
  · exact ⟨hne, rfl⟩
  rcases h with h | h | h
  · simp [h] at henabled
  · exact absurd hrule h
  · simp only [htripped, Option.all_some, Bool.and_eq_true, decide_eq_true_eq] at h
    obtain ⟨rfl, hkey⟩ := h
    refine ⟨PolicyDecision.noConfusion, funext fun k => ?_⟩
    by_cases hk : k = c.key
    · rw [hk, hkey]
    · exact tripped_other htripped hk

/-- What keeps an access of a redelivered message's handler from doing anything: without a template
there is no knowledge base, with one policy is quiet, and a proposal's key is already pending. -/
def Task.Quiet (cfg : IngestConfig P) (s : IngestState) (d : Draw) : Task → Prop
  | prepare event =>
    match cfg.app.templates.matchEvent event with
    | none => s.kb.isEnabled = false
    | some t => (resolveParams t event).isOk →
        cfg.app.policy.Quiet s.plane.shared.hits ⟨event.host, t.riskTier, t.id, d.now⟩
  | insertCheck p _ => DedupKey.fromProposal p ∈ s.plane.shared.store.pendingKeys
  | _ => True

/-- A message that is delivered again is not explained again and its handler does nothing. No other
message has the id of a stored event. -/
def IngestState.Harmless (cfg : IngestConfig P) (s : IngestState) : IngestLabel → Prop
  | .deliver msg ok => ok = true →
      (s.events.hasId msg.event.id = true → s.events.hasKey msg.event = true) ∧
        (s.events.hasKey msg.event = true → msg.explains cfg.inference = false)
  | .plane (.advance i d) _ =>
      i ∈ s.redelivered → ∀ task ∈ s.plane.tasks[i]?, task.Quiet cfg s d
  | _ => True

/-! ## The two runs -/

variable {cfg : IngestConfig P}

namespace Task

/-- Where the handler of a redelivered message may stand. -/
def Idle : Task → Prop
  | prepare _ | insertCheck _ _ | finished => True
  | _ => False

/-- The ids that were drawn before matter only in that new ones are different. -/
theorem step_setDrawn {app : AppConfig P} {s s' : AppState}
    (h : step app s task d = some (s', task')) (hsub : drawn ⊆ s.drawn) :
    ∃ drawn', drawn' ⊆ s'.drawn ∧
      step app { s with drawn := drawn } task d = some ({ s' with drawn := drawn' }, task') := by
  cases task with
  | prepare event =>
    simp only [step] at h ⊢
    split at h
    · cases h
    rename_i hfresh
    rw [if_neg fun hmem => hfresh (hsub hmem)]
    have hprepared := Option.some.inj h
    simp only [prepareStep] at hprepared ⊢
    cases hproposal : prepareProposal app.templates event d.proposalId d.createdAt with
    | none =>
      rw [hproposal] at hprepared
      cases hprepared
      exact ⟨drawn, hsub, rfl⟩
    | some x =>
      rw [hproposal] at hprepared
      dsimp only at hprepared ⊢
      cases hconsult : app.policy.consult s.hits ⟨event.host, x.1.riskTier, x.1.id, d.now⟩ with
      | none =>
        rw [hconsult] at hprepared
        cases hprepared
        exact ⟨_, List.append_subset.mpr ⟨List.subset_append_of_subset_left _ hsub,
          List.subset_append_right ..⟩, rfl⟩
      | some r =>
        rw [hconsult] at hprepared
        cases hprepared
        exact ⟨_, List.append_subset.mpr ⟨List.subset_append_of_subset_left _ hsub,
          List.subset_append_right ..⟩, rfl⟩
  | approveUpdate | rejectUpdate | insertRow | autoInsert =>
    simp only [step] at h ⊢
    cases hok : d.reply.ok <;> rw [hok] at h <;> cases h <;> exact ⟨drawn, hsub, rfl⟩
  | resultUpdate =>
    cases h
    refine ⟨drawn, ?_, ?_⟩
    · split <;> exact hsub
    · simp only [step]
      split <;> rfl
  | approved | finished => cases h
  | _ =>
    cases h
    exact ⟨drawn, hsub, rfl⟩

/-- A handler that is quiet where it may stand changes nothing but the ids that were drawn. -/
theorem Idle.step {s : IngestState} (hidle : task.Idle) (hquiet : task.Quiet cfg s d)
    (h : step cfg.app s.plane.shared task d = some (shared', task')) :
    task'.Idle ∧ (∃ drawn, s.plane.shared.drawn ⊆ drawn ∧
        shared' = { s.plane.shared with drawn := drawn }) ∧
      ∀ written, s.reflect cfg task d written = s.kb := by
  cases task with
  | prepare event =>
    simp only [Task.step] at h
    split at h
    · cases h
    have hprepared := Option.some.inj h
    simp only [prepareStep, prepareProposal] at hprepared
    simp only [Quiet] at hquiet
    cases hmatch : cfg.app.templates.matchEvent event with
    | none =>
      rw [hmatch] at hquiet hprepared
      cases hprepared
      refine ⟨trivial, ⟨_, List.Subset.refl _, rfl⟩, fun written => ?_⟩
      simp [IngestState.reflect, hmatch, KnowledgeBase.recordGap, hquiet]
    | some t =>
      have hkb : ∀ written, s.reflect cfg (.prepare event) d written = s.kb := by
        intro written
        simp [IngestState.reflect, hmatch]
      rw [hmatch] at hquiet hprepared
      rw [Option.bind_some] at hprepared
      cases hparams : resolveParams t event with
      | error e =>
        rw [hparams] at hprepared
        cases hprepared
        exact ⟨trivial, ⟨_, List.Subset.refl _, rfl⟩, hkb⟩
      | ok params =>
        have hquiet := hquiet (by rw [hparams]; rfl)
        rw [hparams] at hprepared
        dsimp only at hprepared
        split at hprepared
        · cases hprepared
          exact ⟨trivial, ⟨_, List.subset_append_left .., rfl⟩, hkb⟩
        · rename_i r hits hconsult
          obtain ⟨hne, rfl⟩ := hquiet.consult hconsult
          cases hprepared
          refine ⟨?_, ⟨_, List.subset_append_left .., rfl⟩, hkb⟩
          split
          · trivial
          · trivial
          · rename_i hauto
            exact absurd hauto hne
  | insertCheck p sig =>
    cases h
    rw [if_pos (show DedupKey.fromProposal p ∈ s.plane.shared.store.pendingKeys from hquiet)]
    exact ⟨trivial, ⟨_, List.Subset.refl _, rfl⟩, fun _ => rfl⟩
  | finished => cases h
  | _ => cases hidle

end Task

namespace IngestState

theorem controlStep_advance {s s' : IngestState} (written : Bool) :
    s.controlStep cfg (.advance i d) written = some s' ↔
      ∃ task shared' task', s.plane.tasks[i]? = some task ∧
        Task.step cfg.app s.plane.shared task d = some (shared', task') ∧
        s' = { s with
          plane := ⟨shared', s.plane.tasks.set i task'⟩, kb := s.reflect cfg task d written } := by
  simp only [controlStep, ControlPlane.step, Pool.step, Option.bind_eq_some_iff,
    Option.map_eq_some_iff]
  constructor
  · rintro ⟨task, htask, plane, ⟨task₂, htask₂, ⟨shared', task'⟩, hstep, rfl⟩, rfl⟩
    cases htask.symm.trans htask₂
    exact ⟨task, shared', task', htask, hstep, rfl⟩
  · rintro ⟨task, shared', task', htask, hstep, rfl⟩
    exact ⟨task, htask, _, ⟨task, htask, (shared', task'), hstep, rfl⟩, rfl⟩

/-- The run with redeliveries beside the one without: they differ in the handlers of redelivered
messages, which are idle, and in the ids these have drawn. -/
structure Mirrors (s t : IngestState) : Prop where
  events : t.events = s.events
  kb : t.kb = s.kb
  explaining : t.explaining = s.explaining
  redelivered : t.redelivered = s.redelivered
  shared : ∃ drawn, drawn ⊆ s.plane.shared.drawn ∧
    t.plane.shared = { s.plane.shared with drawn := drawn }
  length : t.plane.tasks.length = s.plane.tasks.length
  tasks : ∀ i, i ∉ s.redelivered → t.plane.tasks[i]? = s.plane.tasks[i]?
  idle : ∀ i ∈ s.redelivered, ∃ task, s.plane.tasks[i]? = some task ∧ task.Idle

variable {s s' t : IngestState}

theorem Mirrors.refl (h : s.redelivered = []) : Mirrors s s :=
  ⟨rfl, rfl, rfl, rfl, ⟨_, List.Subset.refl _, rfl⟩, rfl, fun _ _ => rfl, by simp [h]⟩

/-- A handler is added on both sides, one that is idle if the message was redelivered. -/
theorem Mirrors.push (h : Mirrors s t) (table : EventTable) (pending : List Event)
    (task task' : Task)
    (htask : marks = s.redelivered ∧ task' = task ∨
      marks = s.redelivered ++ [s.plane.tasks.length] ∧ task.Idle) :
    Mirrors ⟨table, ⟨s.plane.shared, s.plane.tasks ++ [task]⟩, s.kb, pending, marks⟩
      ⟨table, ⟨t.plane.shared, t.plane.tasks ++ [task']⟩, t.kb, pending, marks⟩ := by
  refine ⟨rfl, h.kb, rfl, rfl, h.shared, by simp [h.length], ?_, ?_⟩
  · intro i hi
    rcases Nat.lt_trichotomy i s.plane.tasks.length with hlt | rfl | hgt
    · have hi' : i ∉ s.redelivered := by
        obtain ⟨rfl, -⟩ | ⟨rfl, -⟩ := htask
        · exact hi
        · exact fun hmem => hi (List.mem_append_left _ hmem)
      dsimp only
      rw [List.getElem?_append_left (by rw [h.length]; exact hlt), List.getElem?_append_left hlt]
      exact h.tasks i hi'
    · obtain ⟨rfl, rfl⟩ | ⟨rfl, -⟩ := htask
      · dsimp only
        rw [← h.length, List.getElem?_concat_length, h.length, List.getElem?_concat_length]
      · exact absurd (List.mem_append_right _ List.mem_cons_self) hi
    · dsimp only
      rw [List.getElem?_eq_none (by simp [h.length]; omega),
        List.getElem?_eq_none (by simp; omega)]
  · intro i hi
    have hold : i ∈ s.redelivered → ∃ u, (s.plane.tasks ++ [task])[i]? = some u ∧ u.Idle := by
      intro hmem
      obtain ⟨u, hu, hidle⟩ := h.idle i hmem
      exact ⟨u, by rw [List.getElem?_append_left (List.getElem?_eq_some_iff.mp hu).1, hu], hidle⟩
    obtain ⟨rfl, -⟩ | ⟨rfl, hidle⟩ := htask
    · exact hold hi
    · rcases List.mem_append.mp hi with hi | hi
      · exact hold hi
      · rw [List.mem_singleton.mp hi]
        exact ⟨task, List.getElem?_concat_length, hidle⟩

theorem Mirrors.deliver (h : Mirrors s t) (msg : Message)
    (hexplains : s.events.hasKey msg.event = true → msg.explains cfg.inference = false) :
    ∃ t', t.stepOnce cfg (.deliver msg true) = some t' ∧ Mirrors (s.persistMessage cfg msg) t' := by
  refine ⟨_, rfl, ?_⟩
  simp only [if_true, h.events]
  cases hkey : s.events.hasKey msg.event with
  | true =>
    simp only [if_true, persistMessage, hkey, EventTable.insertMessage, hexplains hkey,
      Bool.false_eq_true, if_false, List.append_nil, h.explaining, h.redelivered, h.length, h.events]
    exact h.push _ _ (.prepare msg.event) .finished (.inr ⟨rfl, trivial⟩)
  | false =>
    simp only [persistMessage, hkey, Bool.false_eq_true, if_false, h.explaining, h.redelivered,
      h.events]
    exact h.push _ _ (.prepare msg.event) (.prepare msg.event) (.inl ⟨rfl, rfl⟩)

theorem Mirrors.explained (h : Mirrors s t) (hstep : s.finishExplanation i explanation ok = some s') :
    ∃ t', t.finishExplanation i explanation ok = some t' ∧ Mirrors s' t' := by
  obtain ⟨event, hevent, rfl⟩ := Option.map_eq_some_iff.mp hstep
  refine ⟨_, Option.map_eq_some_iff.mpr ⟨event, by rw [h.explaining]; exact hevent, rfl⟩, ?_⟩
  refine ⟨?_, h.kb, ?_, h.redelivered, h.shared, h.length, h.tasks, h.idle⟩
  · dsimp only
    rw [h.events]
  · dsimp only
    rw [h.explaining]

/-- A request arrives or an agent pulls. -/
theorem Mirrors.control (h : Mirrors s t) (hl : ∀ i d, l ≠ .advance i d)
    (hstep : s.controlStep cfg l written = some s') :
    ∃ t', t.controlStep cfg l written = some t' ∧ Mirrors s' t' := by
  obtain ⟨drawn, hsub, hshared⟩ := h.shared
  cases l with
  | advance i d => exact absurd rfl (hl i d)
  | access agent =>
    cases hstep
    refine ⟨_, rfl, h.events, h.kb, h.explaining, h.redelivered, ?_, h.length, h.tasks, h.idle⟩
    exact ⟨drawn, hsub, congrArg (AppState.pull · agent) hshared⟩
  | spawn request =>
    have hpush := h.push s.events s.explaining request.start request.start
      (.inl ⟨rfl, rfl⟩)
    cases request with
    | ingest event => cases hstep
    | _ =>
      cases hstep
      refine ⟨_, rfl, ?_⟩
      exact ⟨h.events, h.kb, h.explaining, h.redelivered, h.shared, hpush.length, hpush.tasks,
        hpush.idle⟩

theorem Mirrors.advance (h : Mirrors s t)
    (hquiet : i ∈ s.redelivered → ∀ task ∈ s.plane.tasks[i]?, task.Quiet cfg s d)
    (hstep : s.controlStep cfg (.advance i d) written = some s') :
    ∃ t', t.stepOnce cfg (.plane (.advance i d) written) = some t' ∧ Mirrors s' t' := by
  obtain ⟨task, shared', task', htask, htaskStep, rfl⟩ := (controlStep_advance written).mp hstep
  obtain ⟨drawn, hsub, hshared⟩ := h.shared
  by_cases hi : i ∈ s.redelivered
  · -- The idle handler moves on alone.
    refine ⟨t, by rw [stepOnce, if_pos (by rw [h.redelivered]; exact hi)], ?_⟩
    obtain ⟨task₂, htask₂, hidle⟩ := h.idle i hi
    cases htask.symm.trans htask₂
    obtain ⟨hidle', ⟨drawn', hsub', rfl⟩, hkb⟩ := hidle.step (hquiet hi task htask) htaskStep
    refine ⟨h.events, ?_, h.explaining, h.redelivered, ?_, by simp [h.length], ?_, ?_⟩
    · dsimp only
      rw [hkb]
      exact h.kb
    · exact ⟨drawn, fun x hx => hsub' (hsub hx), hshared⟩
    · intro j hj
      have hij : i ≠ j := fun hij => hj (hij ▸ hi : j ∈ s.redelivered)
      dsimp only
      rw [List.getElem?_set_ne hij]
      exact h.tasks j hj
    · intro j hj
      by_cases hij : i = j
      · subst hij
        exact ⟨task', List.getElem?_set_self (List.getElem?_eq_some_iff.mp htask).1, hidle'⟩
      · dsimp only
        rw [List.getElem?_set_ne hij]
        exact h.idle j hj
  · obtain ⟨drawn', hsub', htaskStep'⟩ := Task.step_setDrawn htaskStep hsub
    rw [← hshared] at htaskStep'
    have hmirrored := (controlStep_advance written).mpr
      ⟨task, _, task', (h.tasks i hi).trans htask, htaskStep', rfl⟩
    have hi' : i ∉ t.redelivered := by
      rw [h.redelivered]
      exact hi
    refine ⟨_, (if_neg hi').trans hmirrored, h.events, ?_, h.explaining, h.redelivered,
      ⟨drawn', hsub', rfl⟩, by simp [h.length], ?_, ?_⟩
    · dsimp only
      have hrows : t.plane.shared.store = s.plane.shared.store := by rw [hshared]
      simp only [reflect, h.kb, hrows]
    · intro j hj
      dsimp only
      rw [List.getElem?_set, List.getElem?_set, h.tasks j hj, h.length]
    · intro j hj
      have hij : i ≠ j := fun hij => hi (hij ▸ hj : i ∈ s.redelivered)
      dsimp only
      rw [List.getElem?_set_ne hij]
      exact h.idle j hj

theorem Mirrors.step (h : Mirrors s t) (hharmless : s.Harmless cfg l)
    (hstep : step cfg s l = some s') : ∃ t', stepOnce cfg t l = some t' ∧ Mirrors s' t' := by
  cases l with
  | deliver msg ok =>
    cases ok with
    | false =>
      cases hstep
      exact ⟨t, rfl, h⟩
    | true =>
      cases hstep
      exact h.deliver msg (hharmless rfl).2
  | explained i explanation ok => exact h.explained hstep
  | plane l written =>
    cases l with
    | advance i d => exact h.advance hharmless hstep
    | spawn request => exact h.control (fun _ _ h => nomatch h) hstep
    | access agent =>
      have hstep : s.controlStep cfg (.access agent) written = some s' := hstep
      have hl : ∀ i d, (.access agent : ControlLabel) ≠ .advance i d := fun _ _ h => nomatch h
      exact h.control hl hstep

end IngestState

namespace IngestState

/-! ## Redelivery is harmless -/

/-- The stored events, the remediation records, the enqueued commands and the knowledge base are the
same. -/
structure SameEffects (s t : IngestState) : Prop where
  events : s.events = t.events
  records : s.plane.shared.store.rows = t.plane.shared.store.rows
  commands : s.plane.shared.enqueued = t.plane.shared.enqueued
  knowledge : s.kb = t.kb

/-- There is one record for an event at most, and one command of policy's own for a record. -/
structure IssuedOnce (s : IngestState) : Prop where
  records : ∀ event, s.plane.shared.records event ≤ 1
  commands : ∀ id, s.plane.shared.autoCommands id ≤ (s.plane.shared.store.rows.hasId id).toNat

/-- In every run in which redeliveries find nothing to do, events, records, commands and knowledge
base are those of the run in which every message is prepared only when it is stored, and nothing is
issued twice for an event. -/
theorem redelivery_harmless (cfg : IngestConfig P) (events : EventTable) (rows : Table)
    (kb : KnowledgeBase) (labels : List IngestLabel) (s : IngestState)
    (hrun : run (step cfg) (start events rows kb) labels = some s)
    (hharmless : Along (step cfg) (Harmless cfg) (start events rows kb) labels) :
    (∃ t, run (stepOnce cfg) (start events rows kb) labels = some t ∧ SameEffects s t) ∧
      (RecordsStored events rows → IssuedOnce s) := by
  have hsim : ∃ t, run (stepOnce cfg) (start events rows kb) labels = some t ∧
      Mirrors s t ∧ (RecordsStored events rows → OncePerEvent t) := by
    refine hharmless.simulates
      (R := fun s t => Mirrors s t ∧ (RecordsStored events rows → OncePerEvent t)) ?_ hrun
      ⟨.refl rfl, fun hstart => .start hstart kb⟩
    intro s l s' t hR hl hstep
    obtain ⟨t', ht', hmirrors⟩ := hR.1.step hl hstep
    refine ⟨t', ht', hmirrors, fun hstart => (hR.2 hstart).step ?_ ht'⟩
    rintro msg rfl
    rw [hR.1.events]
    exact (hl rfl).1
  obtain ⟨t, ht, hmirrors, honce⟩ := hsim
  obtain ⟨drawn, -, hshared⟩ := hmirrors.shared
  refine ⟨⟨t, ht, hmirrors.events.symm, ?_, ?_, hmirrors.kb.symm⟩, fun hstart => ⟨?_, ?_⟩⟩
  · rw [hshared]
  · rw [hshared]
  · intro event
    have hle := (Nat.le_add_right _ _).trans ((honce hstart).records event)
    rw [hshared] at hle
    exact hle.trans (Bool.toNat_le _)
  · intro id
    have hle := (Nat.le_add_right _ _).trans ((honce hstart).commands id)
    rw [hshared] at hle
    exact hle

/-! ## Small runs -/

instance (eng : PolicyEngine) (hits : HitLog) (c : PolicyCall) : Decidable (eng.Quiet hits c) :=
  inferInstanceAs (Decidable (_ ∨ _ ∨ _))

instance (cfg : IngestConfig P) (s : IngestState) (d : Draw) :
    ∀ task, Decidable (Task.Quiet cfg s d task)
  | .prepare event =>
    match h : cfg.app.templates.matchEvent event with
    | none => decidable_of_iff (s.kb.isEnabled = false) (by simp [Task.Quiet, h])
    | some t => decidable_of_iff ((resolveParams t event).isOk →
        cfg.app.policy.Quiet s.plane.shared.hits ⟨event.host, t.riskTier, t.id, d.now⟩)
        (by simp [Task.Quiet, h])
  | .insertCheck p _ =>
    inferInstanceAs (Decidable (DedupKey.fromProposal p ∈ s.plane.shared.store.pendingKeys))
  | .approveSelect .. | .approveEnqueue .. | .approveKey .. | .approveUpdate .. | .approveEvict ..
  | .approved .. | .rejectKey .. | .rejectUpdate .. | .rejectEvict .. | .prepareRecord ..
  | .insertRow .. | .insertKey .. | .autoCheck .. | .autoInsert .. | .autoEnqueue ..
  | .resultUpdate .. | .resultPush .. | .finished => .isTrue trivial

instance (cfg : IngestConfig P) (s : IngestState) : ∀ l, Decidable (s.Harmless cfg l)
  | .deliver _ ok => inferInstanceAs (Decidable (ok = true → _ ∧ _))
  | .plane (.advance i _) _ =>
    inferInstanceAs (Decidable (i ∈ s.redelivered → ∀ task ∈ s.plane.tasks[i]?, _))
  | .explained .. | .plane (.spawn _) _ | .plane (.access _) _ => .isTrue trivial

open ControlPlane

def sampleIngest (policy : PolicyEngine) : IngestConfig Platform.sample where
  app := { sampleConfig with policy := policy }
  times := ⟨fun _ => "", fun _ => none⟩
  inference := false

def sampleMessage : Message := ⟨TemplateRegistry.sampleEvent, none⟩

/-- A message is delivered twice, and each time its handler makes its accesses. -/
def sampleTwice (first second : List Uuid) : List IngestLabel :=
  .deliver sampleMessage true :: first.map (fun id => .plane (.advance 0 (sampleDraw id)) true) ++
    .deliver sampleMessage true ::
      second.map fun id => .plane (.advance 1 (sampleDraw id)) true

/-- The message that is delivered twice gives two records and two commands. -/
theorem redelivery_issues_twice :
    ∃ s t, run (step (sampleIngest sampleConfig.policy)) (start [] [] ⟨none⟩)
        (sampleTwice [⟨31⟩, ⟨32⟩, ⟨33⟩, ⟨34⟩, ⟨35⟩] [⟨41⟩, ⟨42⟩, ⟨43⟩, ⟨44⟩, ⟨45⟩]) = some s ∧
      run (stepOnce (sampleIngest sampleConfig.policy)) (start [] [] ⟨none⟩)
        (sampleTwice [⟨31⟩, ⟨32⟩, ⟨33⟩, ⟨34⟩, ⟨35⟩] [⟨41⟩, ⟨42⟩, ⟨43⟩, ⟨44⟩, ⟨45⟩]) = some t ∧
      s.plane.shared.enqueued.length = 2 ∧ ¬SameEffects s t ∧ ¬IssuedOnce s := by
  have hs : (run (step (sampleIngest sampleConfig.policy)) (start [] [] ⟨none⟩)
      (sampleTwice [⟨31⟩, ⟨32⟩, ⟨33⟩, ⟨34⟩, ⟨35⟩] [⟨41⟩, ⟨42⟩, ⟨43⟩, ⟨44⟩, ⟨45⟩])).map
        (fun s => (s.plane.shared.enqueued.length, s.plane.shared.records ⟨11⟩)) =
      some (2, 2) := by decide +kernel
  have ht : (run (stepOnce (sampleIngest sampleConfig.policy)) (start [] [] ⟨none⟩)
      (sampleTwice [⟨31⟩, ⟨32⟩, ⟨33⟩, ⟨34⟩, ⟨35⟩] [⟨41⟩, ⟨42⟩, ⟨43⟩, ⟨44⟩, ⟨45⟩])).map
        (fun s => s.plane.shared.enqueued.length) = some 1 := by decide +kernel
  obtain ⟨s, hs, hcounts⟩ := Option.map_eq_some_iff.mp hs
  obtain ⟨t, ht, hone⟩ := Option.map_eq_some_iff.mp ht
  obtain ⟨htwo, hrecords⟩ := Prod.mk.inj hcounts
  refine ⟨s, t, hs, ht, htwo, fun h => ?_, fun h => ?_⟩
  · rw [h.commands, hone] at htwo
    cases htwo
  · have hle := h.records ⟨11⟩
    omega

/-- Everything needs approval. -/
def sampleManual : PolicyEngine := { sampleConfig.policy with autoEnabled := false }

/-- The second delivery finds its proposal pending. -/
theorem redelivery_harmless_sample :
    ∃ s, run (step (sampleIngest sampleManual)) (start [] [] ⟨none⟩)
        (sampleTwice [⟨31⟩, ⟨32⟩, ⟨33⟩, ⟨34⟩] [⟨41⟩, ⟨42⟩]) = some s ∧
      s.plane.shared.records ⟨11⟩ = 1 ∧ IssuedOnce s := by
  have hs : (run (step (sampleIngest sampleManual)) (start [] [] ⟨none⟩)
      (sampleTwice [⟨31⟩, ⟨32⟩, ⟨33⟩, ⟨34⟩] [⟨41⟩, ⟨42⟩])).map
        (fun s => s.plane.shared.records ⟨11⟩) = some 1 := by decide +kernel
  obtain ⟨s, hs, hone⟩ := Option.map_eq_some_iff.mp hs
  refine ⟨s, hs, hone, ?_⟩
  exact (redelivery_harmless (sampleIngest sampleManual) [] [] ⟨none⟩ _ s hs
    (by decide +kernel)).2 fun _ => Nat.zero_le _

end IngestState

end Ravn
