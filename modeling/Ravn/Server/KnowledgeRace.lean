import Ravn.Server.FaultMemory
import Ravn.Server.RemediationStore
import Ravn.Theory.Interleaving

/-! Concurrent calls of the knowledge base. A call reads the file of its signature, writes a temporary
file and renames it, and takes no lock. No call is lost as long as none reads while another one is
between its read and its rename. -/

namespace Ravn

open Theory Knowledge

/-- The files of the directory and the temporary files next to them, by their stems. -/
structure KbFiles where
  dir : String → Option String
  tmp : String → Option String

/-- A call, by the access it makes next. -/
inductive KbTask where
  | read (call : KbCall)
  | write (call : KbCall) (entry : Entry)
  | rename (call : KbCall) (stem : String)
  | finished (call : KbCall)

/-- A file is written, or removed. -/
def KbFiles.put (files : String → Option String) (stem : String) (text : Option String) :
    String → Option String :=
  fun stem' => if stem' = stem then text else files stem'

theorem KbFiles.put_self (files : String → Option String) (stem : String) (text : Option String) :
    put files stem text stem = text := if_pos rfl

open KbFiles

namespace KbTask

variable (F : Rfc3339)

def call : KbTask → KbCall
  | read call | write call _ | rename call _ | finished call => call

/-- The next access of a call. A rename fails when there is no temporary file, and the call gives
up. -/
def step (files : KbFiles) (task : KbTask) (_ : Unit) : Option (KbFiles × KbTask) :=
  match task with
  | read call =>
    some (files, .write call (call.revise
      ((files.dir (slug call.signature)).bind (Entry.fromMarkdown F call.now))))
  | write call entry =>
    let stem := slug entry.faultSignature
    some ({ files with tmp := put files.tmp stem (some (entry.toMarkdown F)) },
      .rename call stem)
  | rename call stem =>
    match files.tmp stem with
    | some text =>
      some (⟨put files.dir stem (some text), put files.tmp stem none⟩,
        .finished call)
    | none => some (files, .finished call)
  | finished _ => none

/-- Left alone, a call does what `record_outcome` and `record_gap` do. -/
theorem alone_read (files : KbFiles) (call : KbCall) :
    (⟨some (Pool.alone (step F) files (.read call) [(), (), ()]).1.dir⟩ : KnowledgeBase) =
      (⟨some files.dir⟩ : KnowledgeBase).perform F ⟨call, true⟩ := by
  rw [KnowledgeBase.perform_eq]
  simp only [Pool.alone, step]
  generalize call.revise ((files.dir (slug call.signature)).bind
    (Entry.fromMarkdown F call.now)) = e
  rw [put_self, KnowledgeBase.store_eq]
  dsimp only
  rfl

/-- The call has read and has not renamed. -/
def underWay : KbTask → Bool
  | write _ _ | rename _ _ => true
  | read _ | finished _ => false

/-- The call has ended. -/
def ended : KbTask → Option KbCall
  | finished call => some call
  | _ => none

end KbTask

abbrev KbPool := Pool KbFiles KbTask

namespace KbPool

variable (F : Rfc3339)

def step : KbPool → PoolLabel KbCall Empty Unit → Option KbPool :=
  Pool.step KbTask.read (fun _ e => e.elim) (KbTask.step F)

/-- An empty directory. -/
def start : KbPool := ⟨⟨fun _ => none, fun _ => none⟩, []⟩

def ended (p : KbPool) : List KbCall := p.tasks.filterMap KbTask.ended

/-- What is read of a signature counts the calls and has the outcome of each of them once. -/
def Counts (F : Rfc3339) (s : String) (calls : List KbCall) (p : KbPool) : Prop :=
  ∀ now, (calls = [] ∧ (⟨some p.shared.dir⟩ : KnowledgeBase).load F now s = none) ∨
    ∃ e, (⟨some p.shared.dir⟩ : KnowledgeBase).load F now s = some e ∧
      e.occurrences.toNat = calls.length ∧ e.outcomes.Perm (calls.filterMap KbCall.recorded)

/-- A call that arrives is on the signature and its texts fit the file format; a call reads when none
is between its read and its rename. -/
def Admits (s : String) (p : KbPool) : PoolLabel KbCall Empty Unit → Prop
  | .spawn call => call.signature = s ∧ call.Unbroken ∧ call.Readable
  | .access _ => True
  | .advance i _ => ∀ call, p.tasks[i]? = some (.read call) → ∀ t ∈ p.tasks, t.underWay = false

variable {F} (hF : F.Lawful)

/-- Where the call under way stands, in terms of the calls that have ended in some order. -/
def Sound (F : Rfc3339) (s : String) (order : List KbCall) (files : KbFiles) : KbTask → Prop
  | .write call entry =>
    entry = call.revise ((KbCall.history F order).bind (Entry.fromMarkdown F call.now))
  | .rename call stem =>
    stem = slug s ∧ files.tmp stem = call.rewrite F (KbCall.history F order)
  | _ => True

/-- The file is the history of the calls that have ended, in some order; at most one call is under
way, and it has read that file. -/
structure Holds (F : Rfc3339) (s : String) (order : List KbCall) (p : KbPool) : Prop where
  ended : order.Perm p.ended
  file : p.shared.dir (slug s) = KbCall.history F order
  calls : ∀ t ∈ p.tasks, t.call.signature = s ∧ t.call.Unbroken ∧ t.call.Readable
  one : p.tasks.countP KbTask.underWay ≤ 1
  sound : ∀ t ∈ p.tasks, Sound F s order p.shared t

theorem sound_of_not_underWay {t : KbTask} (h : t.underWay = false) : Sound F s order files t := by
  cases t with
  | write | rename => cases h
  | read | finished => trivial

theorem Holds.order_calls {p : KbPool} (h : Holds F s order p) :
    ∀ c ∈ order, c.Unbroken ∧ c.Readable ∧ c.signature = s := by
  intro c hc
  obtain ⟨t, ht, hended⟩ := List.mem_filterMap.mp (h.ended.mem_iff.mp hc)
  cases t with
  | finished call =>
    cases hended
    obtain ⟨hs, hunbroken, hreadable⟩ := h.calls _ ht
    exact ⟨hunbroken, hreadable, hs⟩
  | read | write | rename => cases hended

include hF in
/-- An entry that is made from the history of calls on a signature is of that signature. -/
theorem revise_history {c : KbCall} (hc : c.signature = s) {order : List KbCall}
    (h : ∀ c ∈ order, c.Unbroken ∧ c.Readable ∧ c.signature = s) :
    (c.revise ((KbCall.history F order).bind (Entry.fromMarkdown F c.now))).faultSignature = s := by
  obtain ⟨hnone, -⟩ | ⟨e, hsome, hread, hrec⟩ := KbCall.history_records hF h
  · simpa [hnone] using hc
  · rw [hsome, Option.bind_some, Entry.fromMarkdown_toMarkdown hF hread.toUnbroken]
    simp [Entry.reread_faultSignature hread, hrec.signature]

/-- When the call that is advanced is under way, no other one is. -/
theorem others_not_underWay {pre post : List KbTask} {task : KbTask}
    (h : (pre ++ task :: post).countP KbTask.underWay ≤ 1) (htask : task.underWay = true) :
    ∀ t ∈ pre ++ post, t.underWay = false := by
  rw [Pool.countP_replaced, htask] at h
  have hzero : (pre ++ post).countP KbTask.underWay = 0 := by
    rw [List.countP_append]
    exact Nat.le_zero.mp (Nat.le_of_succ_le_succ h)
  simpa using List.countP_eq_zero.mp hzero

theorem ended_replace (pre post : List KbTask) (task : KbTask) (files : KbFiles) :
    KbPool.ended ⟨files, pre ++ task :: post⟩ =
      pre.filterMap KbTask.ended ++ task.ended.toList ++ post.filterMap KbTask.ended := by
  rw [KbPool.ended, List.filterMap_append, List.filterMap_cons]
  cases task <;> simp [KbTask.ended]

/-- A call is advanced while no other one is under way. -/
theorem Holds.replace {pre post : List KbTask} {task task' : KbTask}
    (h : Holds F s order ⟨files, pre ++ task :: post⟩)
    (hothers : ∀ t ∈ pre ++ post, t.underWay = false) (hcall : task'.call = task.call)
    (hended : order'.Perm
      (pre.filterMap KbTask.ended ++ task'.ended.toList ++ post.filterMap KbTask.ended))
    (hfile : files'.dir (slug s) = KbCall.history F order') (hsound : Sound F s order' files' task') :
    Holds F s order' ⟨files', pre ++ task' :: post⟩ where
  ended := by
    rw [ended_replace]
    exact hended
  file := hfile
  calls := by
    intro t ht
    have hor : t = task' ∨ t ∈ pre ++ task :: post := Pool.mem_replaced ht
    rcases hor with rfl | ht
    · rw [hcall]
      exact h.calls task (by simp)
    · exact h.calls t ht
  one := by
    have hzero : (pre ++ post).countP KbTask.underWay = 0 :=
      List.countP_eq_zero.mpr fun t ht => by simp [hothers t ht]
    rw [List.countP_append] at hzero
    rw [Pool.countP_replaced, hzero]
    cases task'.underWay <;> decide
  sound := by
    intro t ht
    simp only [List.mem_append, List.mem_cons] at ht
    rcases ht with ht | rfl | ht
    · exact sound_of_not_underWay (hothers t (List.mem_append_left _ ht))
    · exact hsound
    · exact sound_of_not_underWay (hothers t (List.mem_append_right _ ht))

/-- A call arrives and has done nothing yet. -/
theorem Holds.arrive {p : KbPool} {call : KbCall} (h : Holds F s order p)
    (ha : Admits s p (.spawn call)) : Holds F s order ⟨p.shared, p.tasks ++ [.read call]⟩ where
  ended := by
    have hread : [KbTask.read call].filterMap KbTask.ended = [] := rfl
    rw [KbPool.ended, List.filterMap_append, hread, List.append_nil]
    exact h.ended
  file := h.file
  calls := by
    intro t ht
    rcases List.mem_append.mp ht with ht | ht
    · exact h.calls t ht
    · cases List.mem_singleton.mp ht
      exact ha
  one := by simpa [List.countP_append, KbTask.underWay] using h.one
  sound := by
    intro t ht
    rcases List.mem_append.mp ht with ht | ht
    · exact h.sound t ht
    · cases List.mem_singleton.mp ht
      trivial

include hF in
theorem step_holds {p p' : KbPool} {l : PoolLabel KbCall Empty Unit} (h : Holds F s order p)
    (ha : Admits s p l) (hstep : step F p l = some p') : ∃ order', Holds F s order' p' := by
  obtain ⟨call, rfl, rfl⟩ | ⟨e, rfl, -⟩ |
    ⟨i, input, pre, task, post, files, task', rfl, hi, htasks, hadvance, rfl⟩ := Pool.step_cases hstep
  · exact ⟨order, h.arrive ha⟩
  · exact e.elim
  · obtain ⟨shared, tasks⟩ := p
    subst htasks
    have hcall := h.calls task (by simp)
    have hended := h.ended
    rw [ended_replace] at hended
    cases task with
    | read call =>
      cases hadvance
      have hidle : ∀ t ∈ pre ++ post, t.underWay = false := by
        intro t ht
        refine ha call hi t ?_
        rcases List.mem_append.mp ht with ht | ht
        · exact List.mem_append_left _ ht
        · exact List.mem_append_right _ (List.mem_cons_of_mem _ ht)
      refine ⟨order, h.replace hidle rfl ?_ h.file ?_⟩
      · exact hended
      · have hfile : shared.dir (slug call.signature) = KbCall.history F order :=
          (congrArg (fun signature => shared.dir (slug signature)) hcall.1).trans h.file
        exact congrArg (fun file => call.revise (file.bind (Entry.fromMarkdown F call.now))) hfile
    | write call entry =>
      cases hadvance
      have hidle := others_not_underWay h.one rfl
      have hentry : entry = call.revise ((KbCall.history F order).bind
          (Entry.fromMarkdown F call.now)) := h.sound (.write call entry) (by simp)
      have hstem : slug entry.faultSignature = slug s := by
        rw [hentry, revise_history hF (c := call) hcall.1 h.order_calls]
      refine ⟨order, h.replace hidle rfl ?_ h.file ⟨hstem, ?_⟩⟩
      · exact hended
      · dsimp only
        rw [put_self, hentry, KbCall.rewrite]
    | rename call stem =>
      have hidle := others_not_underWay h.one rfl
      obtain ⟨rfl, htmp⟩ := h.sound (.rename call stem) (by simp)
      obtain ⟨text, htext⟩ : ∃ text, call.rewrite F (KbCall.history F order) = some text :=
        ⟨_, rfl⟩
      simp only [KbTask.step] at hadvance
      rw [htmp, htext] at hadvance
      obtain ⟨rfl, rfl⟩ := Prod.mk.inj (Option.some.inj hadvance)
      refine ⟨order ++ [call], h.replace hidle rfl ?_ ?_ trivial⟩
      · simp only [KbTask.ended, Option.toList_none, Option.toList_some, List.append_nil] at hended ⊢
        refine (hended.append_right [call]).trans ?_
        rw [List.append_assoc, List.append_assoc]
        exact List.perm_append_comm.append_left _
      · dsimp only
        rw [put_self, KbCall.history_concat, htext]
    | finished call => cases hadvance

include hF in
theorem Holds.counts {p : KbPool} (h : Holds F s order p) (hcount : p.tasks.length < 2 ^ 64) :
    Counts F s p.ended p := by
  intro now
  rw [KnowledgeBase.load_eq, h.file]
  obtain ⟨hnone, hnil⟩ | ⟨e, hsome, hread, hrec⟩ := KbCall.history_records hF h.order_calls
  · rw [hnone]
    exact .inl ⟨List.nil_perm.mp (hnil ▸ h.ended), rfl⟩
  · have hlength : order.length < 2 ^ 64 := by
      rw [h.ended.length_eq]
      exact Nat.lt_of_le_of_lt (List.length_filterMap_le _ _) hcount
    refine .inr ⟨e.reread F now, ?_, ?_, ?_⟩
    · rw [hsome, Option.bind_some, Entry.fromMarkdown_toMarkdown hF hread.toUnbroken]
    · rw [Entry.reread_occurrences, hrec.occurrences, UInt64.toNat_ofNat_of_lt' hlength,
        h.ended.length_eq]
    · rw [Entry.reread_outcomes hF hread, hrec.outcomes]
      exact h.ended.filterMap _

theorem ended_eq_map_call {p : KbPool} (h : ∀ t ∈ p.tasks, t.ended.isSome = true) :
    p.ended = p.tasks.map KbTask.call := by
  rw [KbPool.ended, ← List.filterMap_eq_map']
  refine List.filterMap_congr fun t ht => ?_
  have hended := h t ht
  cases t with
  | finished call => rfl
  | read | write | rename => cases hended

/-- In every run in which calls read only while none is between its read and its rename: what is read
counts the calls that have ended and has their outcomes once each, so in the end it counts all. -/
theorem no_lost_update (hF : F.Lawful) (s : String) (labels : List (PoolLabel KbCall Empty Unit))
    (p : KbPool) (h : Along (step F) (Admits s) start labels)
    (hrun : run (step F) start labels = some p) (hcount : p.tasks.length < 2 ^ 64) :
    Counts F s p.ended p ∧
      ((∀ t ∈ p.tasks, t.ended.isSome = true) → Counts F s (p.tasks.map KbTask.call) p) := by
  have hstart : Holds F s [] start :=
    ⟨.nil, rfl, fun t ht => (nomatch ht), Nat.zero_le 1, fun t ht => (nomatch ht)⟩
  obtain ⟨order, hholds⟩ := h.invariant (I := fun p => ∃ order, Holds F s order p)
    (fun ⟨_, hp⟩ ha hstep => step_holds hF hp ha hstep) hrun ⟨[], hstart⟩
  have hcounts := hholds.counts hF hcount
  refine ⟨hcounts, fun hall => ?_⟩
  rw [← ended_eq_map_call hall]
  exact hcounts

/-! ## Calls in turn, and calls that overlap -/

theorem step_read {p : KbPool} (hi : p.tasks[i]? = some (.read call)) :
    step F p (.advance i ()) = some ⟨p.shared, p.tasks.set i (.write call (call.revise
      ((p.shared.dir (slug call.signature)).bind (Entry.fromMarkdown F call.now))))⟩ := by
  simp [step, Pool.step, hi, KbTask.step]

theorem step_write {p : KbPool} (hi : p.tasks[i]? = some (.write call entry)) :
    step F p (.advance i ()) = some ⟨⟨p.shared.dir, put p.shared.tmp
      (slug entry.faultSignature) (some (entry.toMarkdown F))⟩,
      p.tasks.set i (.rename call (slug entry.faultSignature))⟩ := by
  simp [step, Pool.step, hi, KbTask.step]

/-- The rename after the write. -/
theorem step_rename {tasks : List KbTask} (dir tmp : String → Option String) (text : String)
    (hi : tasks[i]? = some (.rename call stem)) :
    step F ⟨⟨dir, put tmp stem (some text)⟩, tasks⟩ (.advance i ()) =
      some ⟨⟨put dir stem (some text), put (put tmp stem (some text)) stem none⟩,
        tasks.set i (.finished call)⟩ := by
  simp [step, Pool.step, hi, KbTask.step, put_self]

/-- A call that is advanced to its end while none is under way. -/
theorem run_in_turn {p : KbPool} (hi : p.tasks[i]? = some (.read call))
    (hidle : ∀ t ∈ p.tasks, t.underWay = false) (s : String) :
    ∃ p', run (step F) p [.advance i (), .advance i (), .advance i ()] = some p' ∧
      Along (step F) (Admits s) p [.advance i (), .advance i (), .advance i ()] ∧
      p'.tasks = p.tasks.set i (.finished call) := by
  obtain ⟨hlt, -⟩ := List.getElem?_eq_some_iff.mp hi
  have hself : ∀ task, (p.tasks.set i task)[i]? = some task := fun _ => List.getElem?_set_self hlt
  obtain ⟨entry, hread⟩ : ∃ entry, step F p (.advance i ()) =
      some ⟨p.shared, p.tasks.set i (.write call entry)⟩ := ⟨_, step_read hi⟩
  have hwrite := step_write (F := F) (p := ⟨p.shared, p.tasks.set i (.write call entry)⟩) (hself _)
  rw [List.set_set] at hwrite
  have hrename := step_rename (F := F) p.shared.dir p.shared.tmp (entry.toMarkdown F)
    (hself (.rename call (slug entry.faultSignature)))
  rw [List.set_set] at hrename
  refine ⟨_, run_cons_eq_some.mpr ⟨_, hread, run_cons_eq_some.mpr ⟨_, hwrite,
    run_cons_eq_some.mpr ⟨_, hrename, rfl⟩⟩⟩, ⟨fun _ _ => hidle, ?_⟩, rfl⟩
  intro p₁ hp₁
  cases hread.symm.trans hp₁
  refine ⟨fun c hc => ?_, ?_⟩
  · cases (hself _).symm.trans hc
  intro p₂ hp₂
  cases hwrite.symm.trans hp₂
  refine ⟨fun c hc => ?_, fun _ _ => trivial⟩
  cases (hself _).symm.trans hc

/-- Two calls that have both read: the one that renames last writes over the other. -/
theorem run_overlap (files : KbFiles) (c₁ c₂ : KbCall) (e₁ e₂ : Entry) :
    ∃ p, run (step F) ⟨files, [.write c₁ e₁, .write c₂ e₂]⟩
        [.advance 0 (), .advance 0 (), .advance 1 (), .advance 1 ()] = some p ∧
      p.tasks = [.finished c₁, .finished c₂] ∧
      p.shared.dir (slug e₂.faultSignature) = some (e₂.toMarkdown F) := by
  have hwrite₁ := step_write (F := F) (i := 0) (p := ⟨files, [.write c₁ e₁, .write c₂ e₂]⟩) rfl
  have hrename₁ := step_rename (F := F) (i := 0) files.dir files.tmp (e₁.toMarkdown F)
    (show [.rename c₁ (slug e₁.faultSignature), .write c₂ e₂][0]? = some _ from rfl)
  have hwrite₂ := fun files => step_write (F := F) (i := 1)
    (p := ⟨files, [.finished c₁, .write c₂ e₂]⟩) rfl
  have hrename₂ := fun dir tmp => step_rename (F := F) (i := 1) dir tmp (e₂.toMarkdown F)
    (show [.finished c₁, .rename c₂ (slug e₂.faultSignature)][1]? = some _ from rfl)
  refine ⟨_, run_cons_eq_some.mpr ⟨_, hwrite₁, run_cons_eq_some.mpr ⟨_, hrename₁,
    run_cons_eq_some.mpr ⟨_, hwrite₂ _, run_cons_eq_some.mpr ⟨_, hrename₂ .., rfl⟩⟩⟩⟩, rfl, ?_⟩
  dsimp only
  rw [put_self]

open RemediationStore in
/-- A result of the sample proposal, with its approver. -/
def sampleCall (approver : String) : KbCall :=
  .outcome "FailedUnit:nginx.service:exit-code" sampleProposal .succeeded (some 8) approver
    Platform.fivePastNoon

theorem sampleCall_admitted (approver : String) (hnewline : '\n' ∉ approver.toList)
    (hquotable : Quotable approver.toList) (hunsplit : Unsplit approver.toList) (p : KbPool) :
    Admits "FailedUnit:nginx.service:exit-code" p (.spawn (sampleCall approver)) := by
  have hsignature : Quotable "FailedUnit:nginx.service:exit-code".toList := by decide
  have htime : Platform.fivePastNoon.HasText := ⟨by decide, by decide⟩
  refine ⟨rfl, ⟨by decide, by decide, ?_, hnewline⟩, hsignature, ?_⟩
  · exact (by decide : ∀ p ∈ RemediationStore.sampleProposal.params.entries,
      '\n' ∉ p.1.toList ∧ '\n' ∉ p.2.toList)
  · intro o ho
    cases ho
    exact ⟨htime, hquotable, hunsplit⟩

/-- Two results arrive at once. -/
def sampleArrivals : List (PoolLabel KbCall Empty Unit) :=
  [.spawn (sampleCall "admin"), .spawn (sampleCall "policy:auto")]

theorem run_sampleArrivals : run (step F) start sampleArrivals =
    some ⟨start.shared, [.read (sampleCall "admin"), .read (sampleCall "policy:auto")]⟩ := rfl

/-- They are recorded one after the other. -/
theorem no_lost_update_sample : ∃ p, run (step .sample) start (sampleArrivals ++
      [.advance 0 (), .advance 0 (), .advance 0 ()] ++
      [.advance 1 (), .advance 1 (), .advance 1 ()]) = some p ∧
    Counts .sample "FailedUnit:nginx.service:exit-code"
      [sampleCall "admin", sampleCall "policy:auto"] p := by
  obtain ⟨p₁, hrun₁, halong₁, htasks₁⟩ := run_in_turn (F := .sample) (i := 0)
    (p := ⟨start.shared, [.read (sampleCall "admin"), .read (sampleCall "policy:auto")]⟩) rfl
    (by decide) "FailedUnit:nginx.service:exit-code"
  obtain ⟨p₂, hrun₂, halong₂, htasks₂⟩ := run_in_turn (F := .sample) (i := 1) (p := p₁)
    (by rw [htasks₁]; rfl) (by rw [htasks₁]; decide) "FailedUnit:nginx.service:exit-code"
  have hrun := run_append_eq_some.mpr ⟨p₁, run_append_eq_some.mpr ⟨_, run_sampleArrivals, hrun₁⟩,
    hrun₂⟩
  have harrivals : Along (step .sample) (Admits "FailedUnit:nginx.service:exit-code") start
      sampleArrivals :=
    ⟨sampleCall_admitted _ (by decide) (by decide) (by decide) _, fun _ _ =>
      ⟨sampleCall_admitted _ (by decide) (by decide) (by decide) _, fun _ _ => trivial⟩⟩
  have halong := along_append.mpr ⟨along_append.mpr ⟨harrivals, fun p hp => by
      cases run_sampleArrivals.symm.trans hp
      exact halong₁⟩, fun p hp => by
      cases (run_append_eq_some.mpr ⟨_, run_sampleArrivals, hrun₁⟩).symm.trans hp
      exact halong₂⟩
  have htasks : p₂.tasks = [.finished (sampleCall "admin"), .finished (sampleCall "policy:auto")] := by
    rw [htasks₂, htasks₁]
    rfl
  have hcounts := (no_lost_update Rfc3339.sample_lawful _ _ p₂ halong hrun
    (by rw [htasks]; decide)).2 (by rw [htasks]; decide)
  rw [htasks] at hcounts
  exact ⟨p₂, hrun, hcounts⟩

/-- The second call reads before the first one has renamed, and the outcome of the first one is
lost. -/
theorem overlap_loses_update : ∃ p, run (step .sample) start (sampleArrivals ++
      [.advance 0 (), .advance 1 ()] ++
      [.advance 0 (), .advance 0 (), .advance 1 (), .advance 1 ()]) = some p ∧
    p.ended = [sampleCall "admin", sampleCall "policy:auto"] ∧
    ¬Counts .sample "FailedUnit:nginx.service:exit-code"
      [sampleCall "admin", sampleCall "policy:auto"] p := by
  -- both calls have read that there is no file
  have hread : run (step .sample) start (sampleArrivals ++ [.advance 0 (), .advance 1 ()]) =
      some ⟨start.shared, [.write (sampleCall "admin") ((sampleCall "admin").revise none),
        .write (sampleCall "policy:auto") ((sampleCall "policy:auto").revise none)]⟩ := rfl
  obtain ⟨p, hrest, htasks, hdir⟩ := run_overlap (F := .sample) start.shared (sampleCall "admin")
    (sampleCall "policy:auto") ((sampleCall "admin").revise none)
    ((sampleCall "policy:auto").revise none)
  refine ⟨p, ?_, ?_, ?_⟩
  · exact run_append_eq_some.mpr ⟨_, hread, hrest⟩
  · rw [KbPool.ended, htasks]
    rfl
  · have hunbroken : ((sampleCall "policy:auto").revise none).Unbroken :=
      KbCall.revise_unbroken (sampleCall_admitted "policy:auto" (by decide) (by decide) (by decide)
        start).2.1 fun e he => (nomatch he)
    have hsignature : ((sampleCall "policy:auto").revise none).faultSignature =
        "FailedUnit:nginx.service:exit-code" := by simp [sampleCall, KbCall.signature]
    have hone : ((sampleCall "policy:auto").revise none).occurrences = 1 := by simp
    rw [hsignature] at hdir
    intro h
    obtain ⟨hnil, -⟩ | ⟨e, hload, hcount, -⟩ := h Platform.noon
    · cases hnil
    · rw [KnowledgeBase.load_eq, hdir, Option.bind_some,
        Entry.fromMarkdown_toMarkdown Rfc3339.sample_lawful hunbroken] at hload
      rw [← Option.some.inj hload, Entry.reread_occurrences, hone] at hcount
      revert hcount
      decide

end KbPool

end Ravn
