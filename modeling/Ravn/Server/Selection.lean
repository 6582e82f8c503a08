import Ravn.Server.ApprovedTemplate
import Ravn.Theory.Except
import Ravn.Theory.FirstMatch

/-! Which template is selected when the order of the directory is not fixed. Selection is by first
match over the files as the directory lists them, so it is the same in every order exactly when no two
different templates share an id or match one event. -/

namespace Ravn

open Theory

namespace TemplateRegistry

/-- `load_dir` accepts the files. -/
def Accepts (entries : List TemplateFile) : Prop := ∃ reg, loadDir entries = .ok reg

/-- The template that a file declares. -/
def declared (file : TemplateFile) : Option Template :=
  if file.isToml then file.parsed.toOption else none

/-- Every order of the files is accepted, and any two select the same template for every event and
hold the same one under every id. -/
def SelectionFixed (entries : List TemplateFile) : Prop :=
  ∀ order order', entries.Perm order → entries.Perm order' →
    ∃ reg reg', loadDir order = .ok reg ∧ loadDir order' = .ok reg' ∧
      (∀ event, reg.matchEvent event = reg'.matchEvent event) ∧ ∀ id, reg.get id = reg'.get id

/-- Two files that declare templates with the same id, or templates that match one event, declare the
same template. -/
def Unambiguous (entries : List TemplateFile) : Prop :=
  ∀ file ∈ entries, ∀ file' ∈ entries, ∀ t t', declared file = some t → declared file' = some t' →
    (t.id = t'.id → t = t') ∧
    ∀ event, matchesEvent event t = true → matchesEvent event t' = true → t = t'

variable {entries order : List TemplateFile}

theorem loadFile_eq_ok (h : loadFile file = .ok o) : o = declared file := by
  unfold loadFile at h
  unfold declared
  cases hext : file.isToml with
  | false => simpa [hext] using h.symm
  | true =>
    simp only [hext, Bool.not_true, Bool.false_eq_true, if_false] at h
    split at h
    · cases h
    rename_i t hparsed
    split at h
    · cases h
    split at h
    · cases h
    · cases h
      simp [hparsed, Except.toOption]

/-- Loading succeeds when each file does, with the templates that the files declare, in order. -/
theorem mapM_loadFile_eq_ok : entries.mapM loadFile = .ok os ↔
    (∀ file ∈ entries, loadFile file = .ok (declared file)) ∧ os = entries.map declared := by
  have hfile : (fun file o => loadFile file = .ok o) =
      fun file o => loadFile file = .ok (declared file) ∧ declared file = o := by
    funext file o
    refine propext ⟨fun h => ?_, fun ⟨h, ho⟩ => ho ▸ h⟩
    cases loadFile_eq_ok h
    exact ⟨h, rfl⟩
  rw [mapM_eq_ok_iff, hfile, List.forall₂_and_left, ← List.forall₂_map_left_iff,
    List.forall₂_eq_eq_eq, eq_comm (a := os)]

theorem loadDir_perm (hload : Accepts entries) (hperm : entries.Perm order) :
    loadDir order = .ok ⟨order.filterMap declared⟩ := by
  have hall : ∀ file ∈ order, loadFile file = .ok (declared file) := by
    intro file hfile
    obtain ⟨reg, hreg⟩ := hload
    cases hm : entries.mapM loadFile with
    | error e =>
      rw [loadDir, hm] at hreg
      cases hreg
    | ok os => exact (mapM_loadFile_eq_ok.mp hm).1 file (hperm.mem_iff.mpr hfile)
  rw [loadDir, mapM_loadFile_eq_ok.mpr ⟨hall, rfl⟩]
  change Except.ok _ = _
  rw [List.filterMap_map]
  rfl

/-- Unambiguity, read off the templates that are loaded. -/
theorem unambiguous_iff : Unambiguous entries ↔
    (∀ event, UniqueMatch (matchesEvent event) (entries.filterMap declared)) ∧
      ∀ id, UniqueMatch (fun t => t.id == id) (entries.filterMap declared) := by
  simp only [UniqueMatch, List.mem_filterMap, beq_iff_eq]
  constructor
  · intro h
    refine ⟨?_, ?_⟩
    · rintro event t ⟨file, hfile, ht⟩ t' ⟨file', hfile', ht'⟩
      exact (h file hfile file' hfile' t t' ht ht').2 event
    · rintro id t ⟨file, hfile, ht⟩ t' ⟨file', hfile', ht'⟩ hid hid'
      exact (h file hfile file' hfile' t t' ht ht').1 (hid.trans hid'.symm)
  · rintro ⟨hevent, hid⟩ file hfile file' hfile' t t' ht ht'
    refine ⟨?_, ?_⟩
    · exact fun heq => hid t'.id t ⟨file, hfile, ht⟩ t' ⟨file', hfile', ht'⟩ heq rfl
    · exact fun event => hevent event t ⟨file, hfile, ht⟩ t' ⟨file', hfile', ht'⟩

/-- The order of an accepted directory does not matter exactly when its templates are unambiguous. -/
theorem selection_fixed_iff (entries : List TemplateFile) (hload : Accepts entries) :
    SelectionFixed entries ↔ Unambiguous entries := by
  simp only [unambiguous_iff, uniqueMatch_iff_find?_perm]
  constructor
  · intro hfixed
    have hregs : ∀ order order', entries.Perm order → entries.Perm order' →
        (∀ event, matchEvent ⟨order.filterMap declared⟩ event =
          matchEvent ⟨order'.filterMap declared⟩ event) ∧
        ∀ id, get ⟨order.filterMap declared⟩ id = get ⟨order'.filterMap declared⟩ id := by
      intro order order' hperm hperm'
      obtain ⟨reg, reg', hreg, hreg', hsame⟩ := hfixed order order' hperm hperm'
      cases hreg.symm.trans (loadDir_perm hload hperm)
      cases hreg'.symm.trans (loadDir_perm hload hperm')
      exact hsame
    exact ⟨fun event order order' h h' => (hregs order order' h h').1 event,
      fun id order order' h h' => (hregs order order' h h').2 id⟩
  · rintro ⟨hevent, hid⟩ order order' hperm hperm'
    exact ⟨_, _, loadDir_perm hload hperm, loadDir_perm hload hperm',
      fun event => hevent event order order' hperm hperm', fun id => hid id order order' hperm hperm'⟩

theorem accepts_of_toOption (h : (loadDir entries).toOption = some reg) : Accepts entries := by
  cases hload : loadDir entries with
  | error e =>
    rw [hload] at h
    cases h
  | ok reg => exact ⟨reg, hload⟩

/-! ## Two templates for one event -/

/-- A second file for exit codes, of another id and tier. -/
def sampleOverlap : List TemplateFile :=
  [sampleFile "a.toml" (sampleTemplate 1 "exit-code" (.restartUnit "\x7b\x7bunit\x7d\x7d")),
    sampleFile "b.toml" { sampleTemplate 1 "exit-code" (.resetFailed "\x7b\x7bunit\x7d\x7d") with
      id := "failed-unit-reset", riskTier := .dangerous }]

/-- A template for units that end in one way, one for those that end in another, the first one again
under another name, and a file that is no template. -/
def sampleApart : List TemplateFile :=
  let restart := sampleTemplate 1 "exit-code" (.restartUnit "\x7b\x7bunit\x7d\x7d")
  [sampleFile "a.toml" restart,
    sampleFile "b.toml" { sampleTemplate 1 "timeout" (.resetFailed "\x7b\x7bunit\x7d\x7d") with
      id := "unit-timeout" },
    sampleFile "c.toml" restart, { sampleFile "README.md" restart with isToml := false }]

/-- What an event that one of the templates matches says of the unit. -/
theorem result_of_matchesEvent {event : Event} {t : Template}
    (hconditions : t.match_.conditions = BTreeMap.empty.insert "payload.result" result)
    (h : matchesEvent event t = true) : eventField event "payload.result" = some result := by
  rw [matchesEvent, hconditions, Bool.and_eq_true] at h
  exact eq_of_beq (List.all_eq_true.mp h.2 ("payload.result", result) List.mem_cons_self)

theorem selection_fixed_iff_sample : SelectionFixed sampleApart := by
  have hok : (loadDir sampleApart).toOption.isSome = true := by decide +kernel
  obtain ⟨reg, hreg⟩ := Option.isSome_iff_exists.mp hok
  refine (selection_fixed_iff sampleApart (accepts_of_toOption hreg)).mpr ?_
  intro file hfile file' hfile' t t' ht ht'
  have hdeclared : ∀ file ∈ sampleApart, ∀ t, declared file = some t →
      t = sampleTemplate 1 "exit-code" (.restartUnit "\x7b\x7bunit\x7d\x7d") ∨
        t = { sampleTemplate 1 "timeout" (.resetFailed "\x7b\x7bunit\x7d\x7d") with
          id := "unit-timeout" } := by
    simp [sampleApart, declared, sampleFile, Except.toOption]
  have hresult : some "exit-code" ≠ some "timeout" := by decide
  rcases hdeclared file hfile t ht with rfl | rfl
  · rcases hdeclared file' hfile' t' ht' with rfl | rfl
    · exact ⟨fun _ => rfl, fun _ _ _ => rfl⟩
    · refine ⟨fun hid => absurd hid (by decide), fun event h h' => absurd ?_ hresult⟩
      exact (result_of_matchesEvent rfl h).symm.trans (result_of_matchesEvent rfl h')
  · rcases hdeclared file' hfile' t' ht' with rfl | rfl
    · refine ⟨fun hid => absurd hid (by decide), fun event h h' => absurd ?_ hresult⟩
      exact (result_of_matchesEvent rfl h').symm.trans (result_of_matchesEvent rfl h)
    · exact ⟨fun _ => rfl, fun _ _ _ => rfl⟩

/-- The tier under which an order of files has an event remediated. -/
def sampleTier (order : List TemplateFile) : Option RiskTier :=
  (loadDir order).toOption.bind fun reg => (reg.matchEvent sampleEvent).map Template.riskTier

/-- `load_dir` accepts both files, and the tier of the same event depends on which is listed first. -/
theorem selection_follows_order :
    Accepts sampleOverlap ∧ ¬SelectionFixed sampleOverlap := by
  have hfirst : sampleTier sampleOverlap = some .safe := by decide +kernel
  have hsecond : sampleTier sampleOverlap.reverse = some .dangerous := by decide +kernel
  obtain ⟨reg, hreg, -⟩ := Option.bind_eq_some_iff.mp hfirst
  refine ⟨accepts_of_toOption hreg, ?_⟩
  intro h
  obtain ⟨reg, reg', hload, hload', hsame, -⟩ :=
    h sampleOverlap sampleOverlap.reverse (.refl _) (List.reverse_perm _).symm
  rw [sampleTier, hload] at hfirst
  rw [sampleTier, hload'] at hsecond
  simp only [Except.toOption, Option.bind_some, hsame] at hfirst hsecond
  cases hfirst.symm.trans hsecond

end TemplateRegistry

end Ravn
