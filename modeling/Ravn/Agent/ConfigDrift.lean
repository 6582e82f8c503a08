import Ravn.Core.Message
import Ravn.Theory.FirstMatch
import Ravn.Theory.Utf8
import Mathlib.Data.List.Induction
import Mathlib.Data.Set.Function

/-! The config-drift tap. For each path it remembers the hash of the contents last seen and, where they
are a text that is not too long, the text; a read with another hash, or one that fails, becomes an event
that carries the old hash. The events of a path form a chain of hashes. -/

namespace Ravn

open Theory

/-- Cap on what is kept as text, in bytes. -/
def maxTextBytes : Nat := 256 * 1024

/-- What the tap takes from elsewhere: the displayed form of a path, the hexadecimal SHA-256 digest, and
the unified line diff of two texts with the path in its header. -/
structure DriftTools (Path : Type) where
  display : Path → String
  sha256Hex : ByteArray → String
  lineDiff : String → String → String → String

structure FileState where
  hash : String
  text : Option String
deriving DecidableEq

/-- The text that is kept of contents. -/
def textOf (bytes : ByteArray) : Option String :=
  if bytes.size ≤ maxTextBytes then String.fromUTF8? bytes else none

/-- The id and the time that `build_event` draws. -/
structure EventDraw where
  id : Uuid
  now : DateTime

/-- A path that is processed: what reading it gives, `none` where that fails. -/
structure DriftNotification (Path : Type) where
  path : Path
  content : Option ByteArray
  draw : EventDraw

/-- `HashMap<PathBuf, FileState>`. -/
abbrev Baseline (Path : Type) := Path → Option FileState

def buildEvent (payload : ConfigDriftPayload) (agentId : Uuid) (host : String) (draw : EventDraw) :
    Event where
  id := draw.id
  occurredAt := draw.now
  observedAt := draw.now
  agentId := ⟨agentId⟩
  host := host
  severity := .warning
  title := "config drift: " ++ payload.path
  categoryHints := []
  payload := .configDrift payload

namespace DriftTools

variable {Path : Type} [DecidableEq Path] (D : DriftTools Path)

/-- `unified_diff`; `none` where it panics. -/
def unifiedDiff (path old new : String) : Option String :=
  cutAt maxTextBytes "\n… (diff truncated)" (D.lineDiff path old new)

/-- `evaluate`: the payload and the new state, or nothing if the contents are the same; the outer
`none` where it panics. -/
def evaluate (path : String) (prev : Option FileState) (newBytes : ByteArray) :
    Option (Option (ConfigDriftPayload × FileState)) :=
  let newHash := D.sha256Hex newBytes
  if prev.any (·.hash == newHash) then some none
  else
    let newText := textOf newBytes
    let diff : Option (Option String) :=
      match prev.bind FileState.text, newText with
      | some old, some new => (D.unifiedDiff path old new).map some
      | _, _ => some none
    diff.map fun diff => some
      ({ path := path
         oldHash := prev.map FileState.hash
         newHash := newHash
         diff := diff
         extra := .empty }, ⟨newHash, newText⟩)

def setBaseline (baseline : Baseline Path) (path : Path) (state : Option FileState) : Baseline Path :=
  fun p => if p = path then state else baseline p

/-- What `process` makes an event of, with the new baseline; `none` where it panics. -/
def processPayload (baseline : Baseline Path) (n : DriftNotification Path) :
    Option (Option ConfigDriftPayload × Baseline Path) :=
  let key := D.display n.path
  match n.content with
  | some bytes => (D.evaluate key (baseline n.path) bytes).map fun
    | none => (none, baseline)
    | some (payload, state) => (some payload, setBaseline baseline n.path (some state))
  | none =>
    match baseline n.path with
    | none => some (none, baseline)
    | some prev =>
      some (some
        { path := key
          oldHash := some prev.hash
          newHash := "(removed)"
          diff := none
          extra := .empty }, setBaseline baseline n.path none)

def process (agentId : Uuid) (host : String) (baseline : Baseline Path) (n : DriftNotification Path) :
    Option (Option Event × Baseline Path) :=
  (D.processPayload baseline n).map fun r =>
    (r.1.map fun payload => buildEvent payload agentId host n.draw, r.2)

/-- The baseline that `watch` seeds from the contents of explicit files. -/
def seedBaseline (seeds : Path → Option ByteArray) : Baseline Path := fun p =>
  (seeds p).bind fun bytes => ((D.evaluate (D.display p) none bytes).join).map (·.2)

/-- The notifications processed in order: the payloads of the events with their notifications, and the
baseline after them; `none` where one of them panics. -/
def processAll (baseline : Baseline Path) :
    List (DriftNotification Path) →
      Option (List (DriftNotification Path × ConfigDriftPayload) × Baseline Path)
  | [] => some ([], baseline)
  | n :: ns => do
    let (payload, baseline) ← D.processPayload baseline n
    let (events, baseline) ← processAll baseline ns
    some ((payload.map (n, ·)).toList ++ events, baseline)

/-- The state that is kept of contents. -/
def stateOf (bytes : ByteArray) : FileState := ⟨D.sha256Hex bytes, textOf bytes⟩

/-- The hash of the last event of a path, the seed's if there was none; no hash after a removal. -/
def priorHash (seeds : Path → Option ByteArray)
    (events : List (DriftNotification Path × ConfigDriftPayload)) (path : Path) : Option String :=
  match lastWhere (fun e => e.1.path == path) events with
  | some (n, p) => if n.content.isSome then some p.newHash else none
  | none => (seeds path).map D.sha256Hex

end DriftTools

section

variable {Path : Type} [DecidableEq Path]

/-- What the last read of a path gave, the seed if there was none. -/
def lastContent (seeds : Path → Option ByteArray) (ns : List (DriftNotification Path)) (path : Path) :
    Option ByteArray :=
  match lastWhere (fun n => n.path == path) ns with
  | some n => n.content
  | none => seeds path

/-- The contents that are seeded or read. -/
def contentsRead (seeds : Path → Option ByteArray) (ns : List (DriftNotification Path)) :
    Set ByteArray :=
  {bytes | (∃ path, seeds path = some bytes) ∨ ∃ n ∈ ns, n.content = some bytes}

/-- Contents that are kept as text. -/
def IsText (bytes : ByteArray) : Prop := bytes.size ≤ maxTextBytes ∧ bytes.IsValidUTF8

instance (bytes : ByteArray) : Decidable (IsText bytes) := inferInstanceAs (Decidable (_ ∧ _))

/-- `unified_diff` returns wherever the notifications call it: where the contents last seen of a path
and the new ones have different hashes and are both kept as text. -/
def DriftTools.DiffsReturn (D : DriftTools Path) (seeds : Path → Option ByteArray)
    (ns : List (DriftNotification Path)) : Prop :=
  ∀ pre n post a b old new, ns = pre ++ n :: post →
    lastContent seeds pre n.path = some a → n.content = some b →
    D.sha256Hex a ≠ D.sha256Hex b → textOf a = some old → textOf b = some new →
    D.unifiedDiff (D.display n.path) old new ≠ none

theorem isSome_textOf {bytes : ByteArray} : (textOf bytes).isSome ↔ IsText bytes := by
  unfold textOf IsText String.fromUTF8?
  split
  · rename_i hsize
    split
    · rename_i hvalid
      exact ⟨fun _ => ⟨hsize, hvalid⟩, fun _ => rfl⟩
    · rename_i hvalid
      exact ⟨nofun, fun h => absurd h.2 hvalid⟩
  · rename_i hsize
    exact ⟨nofun, fun h => absurd h.1 hsize⟩

theorem lastContent_snoc (seeds : Path → Option ByteArray) (ns : List (DriftNotification Path))
    (n : DriftNotification Path) (path : Path) :
    lastContent seeds (ns ++ [n]) path =
      if n.path = path then n.content else lastContent seeds ns path := by
  rw [lastContent, lastWhere_snoc]
  by_cases h : n.path = path
  · rw [if_pos (beq_iff_eq.mpr h), if_pos h]
  · rw [if_neg (by simpa using h), if_neg h]
    rfl

theorem mem_contentsRead_of_lastContent {seeds : Path → Option ByteArray}
    (h : lastContent seeds ns path = some bytes) : bytes ∈ contentsRead seeds ns := by
  unfold lastContent at h
  split at h
  · rename_i n hn
    exact .inr ⟨n, (of_lastWhere hn).1, h⟩
  · exact .inl ⟨path, h⟩

omit [DecidableEq Path] in
theorem contentsRead_mono (seeds : Path → Option ByteArray) (ns : List (DriftNotification Path))
    (n : DriftNotification Path) : contentsRead seeds ns ⊆ contentsRead seeds (ns ++ [n]) :=
  fun _ h => h.imp_right fun ⟨m, hm, hc⟩ => ⟨m, List.mem_append_left _ hm, hc⟩

/-! ## One notification -/

namespace DriftTools

variable {D : DriftTools Path}

/-- What processing one notification can do. -/
inductive Processed (D : DriftTools Path) (baseline : Baseline Path) (n : DriftNotification Path) :
    Option ConfigDriftPayload → Baseline Path → Prop
  | same : n.content = some bytes → baseline n.path = some st → st.hash = D.sha256Hex bytes →
      Processed D baseline n none baseline
  | changed : n.content = some bytes →
      (∀ st, baseline n.path = some st → st.hash ≠ D.sha256Hex bytes) →
      p.path = D.display n.path → p.oldHash = (baseline n.path).map FileState.hash →
      p.newHash = D.sha256Hex bytes →
      (p.diff.isSome ↔ ((baseline n.path).bind FileState.text).isSome ∧ (textOf bytes).isSome) →
      Processed D baseline n (some p) (setBaseline baseline n.path (some (D.stateOf bytes)))
  | unknown : n.content = none → baseline n.path = none → Processed D baseline n none baseline
  | removed : n.content = none → baseline n.path = some st → p.path = D.display n.path →
      p.oldHash = some st.hash → p.newHash = "(removed)" → p.diff = none →
      Processed D baseline n (some p) (setBaseline baseline n.path none)

omit [DecidableEq Path] in
/-- A diff is taken where there are two texts. -/
theorem evaluate_changed {path : String} {prev : Option FileState} {bytes : ByteArray}
    (hdiff : ∀ st old new, prev = some st → st.text = some old → textOf bytes = some new →
      D.unifiedDiff path old new ≠ none)
    (h : ∀ st, prev = some st → st.hash ≠ D.sha256Hex bytes) :
    ∃ p, D.evaluate path prev bytes = some (some (p, D.stateOf bytes)) ∧ p.path = path ∧
      p.oldHash = prev.map FileState.hash ∧ p.newHash = D.sha256Hex bytes ∧
      (p.diff.isSome ↔ (prev.bind FileState.text).isSome ∧ (textOf bytes).isSome) := by
  have hnot : prev.any (·.hash == D.sha256Hex bytes) = false := by
    cases prev with
    | none => rfl
    | some st => simpa using h st rfl
  unfold evaluate
  simp only [hnot, Bool.false_eq_true, if_false]
  cases hold : prev.bind FileState.text with
  | none => exact ⟨_, rfl, rfl, rfl, rfl, by simp⟩
  | some old =>
    cases hnew : textOf bytes with
    | none => exact ⟨_, by rw [stateOf, hnew]; rfl, rfl, rfl, rfl, by simp⟩
    | some new =>
      obtain ⟨st, hst, htext⟩ := Option.bind_eq_some_iff.mp hold
      obtain ⟨diff, hd⟩ := Option.ne_none_iff_exists'.mp (hdiff st old new hst htext hnew)
      exact ⟨_, by simp only [hd, stateOf, hnew]; rfl, rfl, rfl, rfl, by simp⟩

theorem processPayload_spec {baseline : Baseline Path} {n : DriftNotification Path}
    (hdiff : ∀ bytes st old new, n.content = some bytes → baseline n.path = some st →
      st.hash ≠ D.sha256Hex bytes → st.text = some old → textOf bytes = some new →
      D.unifiedDiff (D.display n.path) old new ≠ none) :
    ∃ payload baseline', D.processPayload baseline n = some (payload, baseline') ∧
      Processed D baseline n payload baseline' := by
  unfold processPayload
  cases hcontent : n.content with
  | none =>
    cases hprev : baseline n.path with
    | none => exact ⟨none, baseline, by simp, .unknown hcontent hprev⟩
    | some st => exact ⟨_, _, rfl, .removed hcontent hprev rfl rfl rfl rfl⟩
  | some bytes =>
    by_cases hsame : ∃ st, baseline n.path = some st ∧ st.hash = D.sha256Hex bytes
    · obtain ⟨st, hprev, hhash⟩ := hsame
      refine ⟨none, baseline, ?_, .same hcontent hprev hhash⟩
      simp [evaluate, hprev, hhash]
    · have hne : ∀ st, baseline n.path = some st → st.hash ≠ D.sha256Hex bytes :=
        fun st hst hhash => hsame ⟨st, hst, hhash⟩
      obtain ⟨p, heval, hpath, hold, hnew, hisSome⟩ := evaluate_changed
        (fun st old new hst => hdiff bytes st old new hcontent hst (hne st hst)) hne
      exact ⟨some p, _, by simp only [heval]; rfl,
        .changed hcontent hne hpath hold hnew hisSome⟩

theorem Processed.frame (h : Processed D baseline n payload baseline') (hq : q ≠ n.path) :
    baseline' q = baseline q := by
  cases h with
  | same => rfl
  | changed => exact if_neg hq
  | unknown => rfl
  | removed => exact if_neg hq

/-! ## Runs -/

omit [DecidableEq Path] in
theorem seedBaseline_eq (seeds : Path → Option ByteArray) (path : Path) :
    D.seedBaseline seeds path = (seeds path).map D.stateOf := by
  unfold seedBaseline
  cases seeds path with
  | none => rfl
  | some bytes => rfl

theorem processAll_snoc (baseline : Baseline Path) (ns : List (DriftNotification Path))
    (n : DriftNotification Path) :
    D.processAll baseline (ns ++ [n]) = (D.processAll baseline ns).bind fun r =>
      (D.processPayload r.2 n).map fun q => (r.1 ++ (q.1.map (n, ·)).toList, q.2) := by
  induction ns generalizing baseline with
  | nil =>
    cases h : D.processPayload baseline n with
    | none => simp [processAll, h]
    | some q => simp [processAll, h]
  | cons m ns ih =>
    cases hm : D.processPayload baseline m with
    | none => simp [processAll, hm]
    | some r =>
      cases hns : D.processAll r.2 ns with
      | none => simp [processAll, hm, ih, hns]
      | some t =>
        cases hn : D.processPayload t.2 n with
        | none => simp [processAll, hm, ih, hns, hn]
        | some q => simp [processAll, hm, ih, hns, hn]

theorem priorHash_snoc (seeds : Path → Option ByteArray)
    (events : List (DriftNotification Path × ConfigDriftPayload)) (n : DriftNotification Path)
    (p : ConfigDriftPayload) (path : Path) :
    D.priorHash seeds (events ++ [(n, p)]) path =
      if n.path = path then (if n.content.isSome then some p.newHash else none)
      else D.priorHash seeds events path := by
  rw [priorHash, lastWhere_snoc]
  by_cases h : n.path = path
  · rw [if_pos (beq_iff_eq.mpr h), if_pos h]
  · rw [if_neg (by simpa using h), if_neg h]
    rfl

/-- The baseline after a run: its hashes are those of the last events, and its states those of the
contents last read. -/
structure Follows (D : DriftTools Path) (seeds : Path → Option ByteArray)
    (ns : List (DriftNotification Path))
    (events : List (DriftNotification Path × ConfigDriftPayload)) (baseline : Baseline Path) :
    Prop where
  hash : ∀ path, (baseline path).map FileState.hash = D.priorHash seeds events path
  state : ∀ path, baseline path = (lastContent seeds ns path).map D.stateOf

/-- A notification that leaves the baseline as it is, because that is what it stands for. -/
theorem Follows.kept {seeds : Path → Option ByteArray} (h : Follows D seeds ns events baseline)
    (hstate : baseline n.path = n.content.map D.stateOf) :
    Follows D seeds (ns ++ [n]) events baseline := by
  refine ⟨h.hash, fun path => ?_⟩
  rw [lastContent_snoc]
  by_cases hpath : n.path = path
  · subst hpath
    rw [if_pos rfl]
    exact hstate
  · rw [if_neg hpath]
    exact h.state path

/-- A notification that becomes an event and the path's new state. -/
theorem Follows.updated {seeds : Path → Option ByteArray} (h : Follows D seeds ns events baseline)
    (hnew : ∀ bytes, n.content = some bytes → p.newHash = D.sha256Hex bytes) :
    Follows D seeds (ns ++ [n]) (events ++ [(n, p)])
      (setBaseline baseline n.path (n.content.map D.stateOf)) := by
  refine ⟨fun path => ?_, fun path => ?_⟩
  · rw [priorHash_snoc, setBaseline]
    by_cases hpath : n.path = path
    · subst hpath
      rw [if_pos rfl, if_pos rfl]
      cases hcontent : n.content with
      | none => rfl
      | some bytes => exact congrArg some (hnew bytes hcontent).symm
    · rw [if_neg hpath, if_neg (Ne.symm hpath)]
      exact h.hash path
  · rw [lastContent_snoc, setBaseline]
    by_cases hpath : n.path = path
    · subst hpath
      rw [if_pos rfl, if_pos rfl]
    · rw [if_neg hpath, if_neg (Ne.symm hpath)]
      exact h.state path

theorem Follows.step {seeds : Path → Option ByteArray} (h : Follows D seeds ns events baseline)
    (hfree : Set.InjOn D.sha256Hex (contentsRead seeds (ns ++ [n])))
    (hn : Processed D baseline n payload baseline') :
    Follows D seeds (ns ++ [n]) (events ++ (payload.map (n, ·)).toList) baseline' := by
  cases hn with
  | @same bytes st hcontent hprev hhash =>
    -- Without a collision the contents are the ones that the baseline stands for.
    obtain ⟨old, hlast, rfl⟩ := Option.map_eq_some_iff.mp ((h.state n.path).symm.trans hprev)
    have hmem : old ∈ contentsRead seeds (ns ++ [n]) :=
      contentsRead_mono seeds ns n (mem_contentsRead_of_lastContent hlast)
    have hsame : old = bytes :=
      hfree hmem (.inr ⟨n, List.mem_append_right _ List.mem_cons_self, hcontent⟩) hhash
    simpa using h.kept (by rw [hprev, hcontent, hsame, Option.map_some])
  | @changed bytes p hcontent _ _ _ hnew =>
    have hupdated := h.updated (n := n) (p := p) fun b hb =>
      hnew.trans (congrArg D.sha256Hex (Option.some.inj (hcontent.symm.trans hb)))
    rwa [hcontent] at hupdated
  | unknown hcontent hprev => simpa using h.kept (by rw [hprev, hcontent, Option.map_none])
  | @removed st p hcontent =>
    have hupdated := h.updated (n := n) (p := p) fun b hb => by cases hcontent.symm.trans hb
    rwa [hcontent] at hupdated

/-- A notification after a run that takes only diffs that are returned. -/
theorem Follows.processPayload_spec {seeds : Path → Option ByteArray}
    (h : Follows D seeds ns events baseline) (hdiff : D.DiffsReturn seeds (ns ++ [n])) :
    ∃ payload baseline', D.processPayload baseline n = some (payload, baseline') ∧
      Processed D baseline n payload baseline' := by
  apply DriftTools.processPayload_spec
  intro bytes st old new hcontent hst hne hold hnew
  obtain ⟨a, hlast, rfl⟩ := Option.map_eq_some_iff.mp ((h.state n.path).symm.trans hst)
  exact hdiff ns n [] a bytes old new rfl hlast hcontent hne hold hnew

theorem DiffsReturn.of_append {seeds : Path → Option ByteArray}
    (h : D.DiffsReturn seeds (ns ++ ms)) : D.DiffsReturn seeds ns := by
  intro pre n post a b old new hns
  refine h pre n (post ++ ms) a b old new ?_
  rw [hns, List.append_assoc, List.cons_append]

theorem processAll_follows {seeds : Path → Option ByteArray} {ns : List (DriftNotification Path)}
    (hdiff : D.DiffsReturn seeds ns) (hfree : Set.InjOn D.sha256Hex (contentsRead seeds ns)) :
    ∃ events baseline, D.processAll (D.seedBaseline seeds) ns = some (events, baseline) ∧
      Follows D seeds ns events baseline := by
  induction ns using List.reverseRecOn with
  | nil =>
    refine ⟨[], _, rfl, fun path => ?_, fun path => D.seedBaseline_eq seeds path⟩
    rw [seedBaseline_eq, Option.map_map]
    rfl
  | append_singleton ns n ih =>
    obtain ⟨events, baseline, hrun, hfollows⟩ :=
      ih hdiff.of_append (hfree.mono (contentsRead_mono seeds ns n))
    obtain ⟨payload, baseline', hstep, hprocessed⟩ := hfollows.processPayload_spec hdiff
    refine ⟨_, baseline', ?_, hfollows.step hfree hprocessed⟩
    rw [processAll_snoc, hrun, Option.bind_some, hstep, Option.map_some]

end DriftTools

end

/-- From any seeds, after any notifications, the next one makes an event exactly if the hash of what is
read differs from the path's last one, or the read fails and there is one, as long as the diffs that are
taken on the way are returned. The event carries that hash as its old one, and a diff exactly if the
contents last read and the new ones are both kept as text. The other paths' states are untouched. -/
theorem config_drift_hash_chain {Path : Type} [DecidableEq Path] (D : DriftTools Path)
    (agentId : Uuid) (host : String) (seeds : Path → Option ByteArray)
    (ns : List (DriftNotification Path)) (n : DriftNotification Path)
    (hdiff : D.DiffsReturn seeds (ns ++ [n]))
    (hfree : Set.InjOn D.sha256Hex (contentsRead seeds ns)) :
    ∃ events baseline payload baseline',
      D.processAll (D.seedBaseline seeds) ns = some (events, baseline) ∧
      D.process agentId host baseline n =
        some (payload.map fun p => buildEvent p agentId host n.draw, baseline') ∧
      (∀ path, (baseline path).map FileState.hash = D.priorHash seeds events path) ∧
      (payload.isSome ↔
        match n.content with
        | some bytes => D.priorHash seeds events n.path ≠ some (D.sha256Hex bytes)
        | none => D.priorHash seeds events n.path ≠ none) ∧
      (∀ p, payload = some p →
        p.path = D.display n.path ∧ p.oldHash = D.priorHash seeds events n.path ∧
        p.newHash = (n.content.map D.sha256Hex).getD "(removed)" ∧
        (p.diff.isSome ↔ ∃ old new, lastContent seeds ns n.path = some old ∧
          n.content = some new ∧ IsText old ∧ IsText new)) ∧
      ∀ path, path ≠ n.path → baseline' path = baseline path := by
  obtain ⟨events, baseline, hrun, hfollows⟩ := DriftTools.processAll_follows hdiff.of_append hfree
  obtain ⟨payload, baseline', hstep, hprocessed⟩ := hfollows.processPayload_spec hdiff
  refine ⟨events, baseline, payload, baseline', hrun, ?_, hfollows.hash, ?_, ?_,
    fun path hpath => hprocessed.frame hpath⟩
  · rw [DriftTools.process, hstep]
    rfl
  · rw [← hfollows.hash]
    cases hprocessed with
    | same hcontent hprev hhash => simp [hcontent, hprev, hhash]
    | @changed bytes p hcontent hne =>
      simp only [hcontent, Option.isSome_some, true_iff, ne_eq, Option.map_eq_some_iff, not_exists,
        not_and]
      exact hne
    | unknown hcontent hprev => simp [hcontent, hprev]
    | removed hcontent hprev => simp [hcontent, hprev]
  · rintro p rfl
    rw [← hfollows.hash]
    cases hprocessed with
    | @changed bytes _ hcontent _ hpath hold hnew hdiffs =>
      refine ⟨hpath, hold, by rw [hcontent, hnew]; rfl, ?_⟩
      rw [hdiffs, hfollows.state]
      cases hlast : lastContent seeds ns n.path with
      | none => simp
      | some old => simp [DriftTools.stateOf, isSome_textOf, hcontent]
    | removed hcontent hprev hpath hold hnew hdiffs =>
      refine ⟨hpath, ?_, by rw [hcontent, hnew]; rfl, ?_⟩
      · rw [hold, hprev]
        rfl
      · simp [hdiffs, hcontent]

/-! ## A sample history -/

def sampleRootLogin (allowed : Bool) : String :=
  if allowed then "PermitRootLogin yes\n" else "PermitRootLogin no\n"

/-- The tools on files that hold one of these two lines. -/
def sampleDriftTools : DriftTools String where
  display := fun path => path
  sha256Hex := fun bytes =>
    if bytes.size = 20 then "e7be8a5b180550215af6a66239c484957fea9f7f8102b15185b0361b53c30657"
    else "44c91857f34b1ec68e246ebcbad66c4b9380b41c3490c719bdfd6696ba7b40b5"
  lineDiff := fun path old new =>
    "--- " ++ path ++ "\n+++ " ++ path ++ "\n@@ -1 +1 @@\n-" ++ old ++ "+" ++ new

def sampleSeeds : String → Option ByteArray := fun path =>
  if path = "/etc/ssh/sshd_config" then some (sampleRootLogin true).toUTF8 else none

/-- A read of the one file, or a read of it that fails. -/
def sampleRead (allowed : Option Bool) : DriftNotification String :=
  ⟨"/etc/ssh/sshd_config", allowed.map fun b => (sampleRootLogin b).toUTF8, ⟨⟨1⟩, ⟨0⟩⟩⟩

theorem of_mem_contentsRead_sampleRead {reads : List (Option Bool)}
    (h : bytes ∈ contentsRead sampleSeeds (reads.map sampleRead)) :
    ∃ b, bytes = (sampleRootLogin b).toUTF8 := by
  obtain ⟨path, hseed⟩ | ⟨n, hn, hcontent⟩ := h
  · unfold sampleSeeds at hseed
    split at hseed
    · exact ⟨true, (Option.some.inj hseed).symm⟩
    · cases hseed
  · obtain ⟨allowed, -, rfl⟩ := List.mem_map.mp hn
    obtain ⟨b, -, rfl⟩ := Option.map_eq_some_iff.mp hcontent
    exact ⟨b, rfl⟩

theorem sha256Hex_sampleRootLogin_inj :
    ∀ b b', sampleDriftTools.sha256Hex (sampleRootLogin b).toUTF8 =
      sampleDriftTools.sha256Hex (sampleRootLogin b').toUTF8 → b = b' := by
  decide +kernel

theorem textOf_sampleRootLogin : ∀ b, textOf (sampleRootLogin b).toUTF8 = some (sampleRootLogin b) := by
  decide +kernel

theorem diffsReturn_sampleRead (reads : List (Option Bool)) :
    sampleDriftTools.DiffsReturn sampleSeeds (reads.map sampleRead) := by
  have hsize : ∀ b b', (sampleDriftTools.lineDiff "/etc/ssh/sshd_config" (sampleRootLogin b)
      (sampleRootLogin b')).utf8ByteSize ≤ maxTextBytes := by
    decide +kernel
  intro pre n post a b old new hns hlast hcontent _ hold hnew
  obtain ⟨before, after, -, rfl, hafter⟩ := List.map_eq_append_iff.mp hns
  obtain ⟨allowed, -, -, rfl, -⟩ := List.map_eq_cons_iff.mp hafter
  obtain ⟨x, rfl⟩ := of_mem_contentsRead_sampleRead (mem_contentsRead_of_lastContent hlast)
  obtain ⟨y, -, rfl⟩ := Option.map_eq_some_iff.mp hcontent
  cases (textOf_sampleRootLogin x).symm.trans hold
  cases (textOf_sampleRootLogin y).symm.trans hnew
  exact cutAt_ne_none_iff.mpr (.inl (hsize x y))

/-- The file is changed, removed and made again, and then changed with a diff. -/
theorem config_drift_hash_chain_sample :
    ∃ events baseline ev baseline' p,
      sampleDriftTools.processAll (sampleDriftTools.seedBaseline sampleSeeds)
        ([some false, none, some true].map sampleRead) = some (events, baseline) ∧
      sampleDriftTools.process ⟨1⟩ "host" baseline (sampleRead (some false)) =
        some (some ev, baseline') ∧
      ev.payload = .configDrift p ∧
      p.oldHash = some (sampleDriftTools.sha256Hex (sampleRootLogin true).toUTF8) ∧
      p.diff.isSome := by
  have hfree : Set.InjOn sampleDriftTools.sha256Hex
      (contentsRead sampleSeeds ([some false, none, some true].map sampleRead)) := by
    intro a ha b hb hhash
    obtain ⟨x, rfl⟩ := of_mem_contentsRead_sampleRead ha
    obtain ⟨y, rfl⟩ := of_mem_contentsRead_sampleRead hb
    rw [sha256Hex_sampleRootLogin_inj x y hhash]
  obtain ⟨events, baseline, payload, baseline', hrun, hstep, -, hisSome, hpayload, -⟩ :=
    config_drift_hash_chain sampleDriftTools ⟨1⟩ "host" sampleSeeds
      ([some false, none, some true].map sampleRead) (sampleRead (some false))
      (diffsReturn_sampleRead [some false, none, some true, some false]) hfree
  have hprior : sampleDriftTools.priorHash sampleSeeds events "/etc/ssh/sshd_config" =
      some (sampleDriftTools.sha256Hex (sampleRootLogin true).toUTF8) := by
    cases hrun
    rfl
  have hchanged := sha256Hex_sampleRootLogin_inj true false
  obtain ⟨p, rfl⟩ := Option.isSome_iff_exists.mp (hisSome.mpr fun h =>
    Bool.false_ne_true (hchanged (Option.some.inj (hprior.symm.trans h))).symm)
  refine ⟨events, baseline, _, baseline', p, hrun, hstep, rfl, ?_, ?_⟩
  · exact (hpayload p rfl).2.1.trans hprior
  · exact (hpayload p rfl).2.2.2.mpr ⟨_, _, rfl, rfl, by decide +kernel, by decide +kernel⟩

end Ravn
