import Ravn.Theory.Except
import Ravn.Theory.Lines
import Ravn.Core.Template

/-! What rendering gives: which texts render at all, that a rendered capability keeps its variant and its
identifiers are labels, and when a rendered text has no placeholder left. -/

namespace Ravn

open Theory

/-! ## Texts -/

section

variable {values : BTreeMap String String} {rest literal after inner rest' : List Char}

theorem placeholdersInChars_literal (h : splitOnce openBraces rest = none) :
    placeholdersInChars rest = [] := by
  rw [placeholdersInChars.eq_def]
  split
  · rfl
  · rename_i hstart
    cases h.symm.trans hstart

theorem placeholdersInChars_unclosed (h : splitOnce openBraces rest = some (literal, after))
    (hend : splitOnce closeBraces after = none) : placeholdersInChars rest = [] := by
  rw [placeholdersInChars.eq_def]
  split
  · rfl
  · rename_i hstart
    cases h.symm.trans hstart
    split
    · rfl
    · rename_i hclose
      cases hend.symm.trans hclose

theorem placeholdersInChars_placeholder (h : splitOnce openBraces rest = some (literal, after))
    (hend : splitOnce closeBraces after = some (inner, rest')) :
    placeholdersInChars rest = String.ofList (trim inner) :: placeholdersInChars rest' := by
  rw [placeholdersInChars.eq_def]
  split
  · rename_i hstart
    cases h.symm.trans hstart
  · rename_i hstart
    cases h.symm.trans hstart
    split
    · rename_i hclose
      cases hend.symm.trans hclose
    · rename_i hclose
      cases hend.symm.trans hclose
      rfl

theorem resolveChars_literal (h : splitOnce openBraces rest = none) :
    resolveChars values rest = .ok rest := by
  rw [resolveChars.eq_def]
  split
  · rfl
  · rename_i hstart
    cases h.symm.trans hstart

theorem resolveChars_unclosed (h : splitOnce openBraces rest = some (literal, after))
    (hend : splitOnce closeBraces after = none) : resolveChars values rest = .ok rest := by
  rw [resolveChars.eq_def]
  split
  · rfl
  · rename_i hstart
    cases h.symm.trans hstart
    split
    · rfl
    · rename_i hclose
      cases hend.symm.trans hclose

theorem resolveChars_placeholder (h : splitOnce openBraces rest = some (literal, after))
    (hend : splitOnce closeBraces after = some (inner, rest')) :
    resolveChars values rest =
      match values.get (String.ofList (trim inner)) with
      | none => .error (.missingValue (String.ofList (trim inner)))
      | some value => (resolveChars values rest').map fun out => literal ++ value.toList ++ out := by
  rw [resolveChars.eq_def]
  split
  · rename_i hstart
    cases h.symm.trans hstart
  · rename_i hstart
    cases h.symm.trans hstart
    split
    · rename_i hclose
      cases hend.symm.trans hclose
    · rename_i hclose
      cases hend.symm.trans hclose
      dsimp only
      cases values.get (String.ofList (trim inner)) with
      | none => rfl
      | some value => cases resolveChars values rest' <;> rfl

/-- A text renders if each placeholder that the scanner finds has a value. -/
theorem resolveChars_ok (h : ∀ token ∈ placeholdersInChars rest, ∃ v, values.get token = some v) :
    ∃ out, resolveChars values rest = .ok out := by
  induction rest using placeholdersInChars.induct with
  | case1 rest hstart => exact ⟨_, resolveChars_literal hstart⟩
  | case2 rest literal after hstart hend => exact ⟨_, resolveChars_unclosed hstart hend⟩
  | case3 rest literal after hstart inner rest' hend ih =>
    rw [placeholdersInChars_placeholder hstart hend, List.forall_mem_cons] at h
    obtain ⟨⟨value, hvalue⟩, hrest⟩ := h
    obtain ⟨out, hout⟩ := ih hrest
    exact ⟨_, by rw [resolveChars_placeholder hstart hend, hvalue, hout]; rfl⟩

theorem resolveStr_ok {raw : String}
    (h : ∀ token ∈ placeholdersInStr raw, ∃ v, values.get token = some v) :
    ∃ out, resolveStr raw values = .ok out := by
  obtain ⟨out, hout⟩ := resolveChars_ok h
  exact ⟨_, by rw [resolveStr, hout]; rfl⟩

end

/-! ## What is left of placeholders -/

/-- Neither has an opening pair of braces nor ends in half of one. -/
def Harmless (cs : List Char) : Prop := splitOnce openBraces cs = none ∧ cs.getLast? ≠ some '{'

instance : Decidable (Harmless cs) := inferInstanceAs (Decidable (_ ∧ _))

section

variable {cs ds : List Char}

/-- A character in front opens a pair of braces if it is one and another one follows. -/
theorem splitOnce_open_cons {c : Char} (h : ¬(c = '{' ∧ cs.head? = some '{')) :
    splitOnce openBraces (c :: cs) = (splitOnce openBraces cs).map fun r => (c :: r.1, r.2) := by
  have hstart : openBraces.isPrefixOf (c :: cs) = false := by
    cases cs with
    | nil => simp [openBraces, List.isPrefixOf]
    | cons d cs =>
      simp only [List.head?_cons, Option.some_inj] at h
      simp only [openBraces, List.isPrefixOf, Bool.and_true, Bool.and_eq_false_iff, beq_eq_false_iff_ne]
      by_cases hc : c = '{'
      · exact .inr fun hd => h ⟨hc, hd.symm⟩
      · exact .inl (Ne.symm hc)
  rw [splitOnce, if_neg (by simp [hstart])]

theorem splitOnce_open_pair (cs : List Char) :
    splitOnce openBraces ('{' :: '{' :: cs) = some ([], cs) := by
  simp [splitOnce, openBraces, List.isPrefixOf]

theorem harmless_nil : Harmless [] := by decide

theorem harmless_cons {c : Char} :
    Harmless (c :: cs) ↔ ¬(c = '{' ∧ (cs = [] ∨ cs.head? = some '{')) ∧ Harmless cs := by
  unfold Harmless
  by_cases hc : c = '{' ∧ cs.head? = some '{'
  · obtain ⟨rfl, hhead⟩ := hc
    obtain ⟨cs', rfl⟩ : ∃ cs', cs = '{' :: cs' := List.head?_eq_some_iff.mp hhead
    simp [splitOnce_open_pair]
  · rw [splitOnce_open_cons hc, Option.map_eq_none_iff]
    cases cs with
    | nil => simp [splitOnce, openBraces]
    | cons d cs => simp_all

theorem Harmless.splitOnce_append (h : Harmless cs) (ds : List Char) :
    splitOnce openBraces (cs ++ ds) =
      (splitOnce openBraces ds).map fun r => (cs ++ r.1, r.2) := by
  induction cs with
  | nil => simp
  | cons c cs ih =>
    obtain ⟨hc, h⟩ := harmless_cons.mp h
    rw [List.cons_append, splitOnce_open_cons, ih h, Option.map_map]
    · rfl
    · rintro ⟨rfl, hhead⟩
      cases cs with
      | nil => exact hc ⟨rfl, .inl rfl⟩
      | cons d cs => exact hc ⟨rfl, .inr hhead⟩

theorem Harmless.placeholders_append (h : Harmless cs) (ds : List Char) :
    placeholdersInChars (cs ++ ds) = placeholdersInChars ds := by
  have hsplit := h.splitOnce_append ds
  cases hds : splitOnce openBraces ds with
  | none =>
    rw [hds] at hsplit
    rw [placeholdersInChars_literal hds, placeholdersInChars_literal hsplit]
  | some r =>
    rw [hds] at hsplit
    cases hend : splitOnce closeBraces r.2 with
    | none =>
      rw [placeholdersInChars_unclosed hds hend, placeholdersInChars_unclosed hsplit hend]
    | some r' =>
      rw [placeholdersInChars_placeholder hds hend, placeholdersInChars_placeholder hsplit hend]

/-- What stands before the first opening pair of braces. -/
theorem harmless_literal (h : splitOnce openBraces cs = some (literal, after)) : Harmless literal := by
  induction cs generalizing literal with
  | nil => cases h
  | cons c cs ih =>
    by_cases hc : c = '{' ∧ cs.head? = some '{'
    · obtain ⟨rfl, hhead⟩ := hc
      obtain ⟨cs', rfl⟩ : ∃ cs', cs = '{' :: cs' := List.head?_eq_some_iff.mp hhead
      rw [splitOnce_open_pair] at h
      cases h
      exact harmless_nil
    · rw [splitOnce_open_cons hc] at h
      obtain ⟨r, hr, h⟩ := Option.map_eq_some_iff.mp h
      cases h
      refine harmless_cons.mpr ⟨?_, ih hr⟩
      have hcs := eq_append_of_splitOnce hr
      rintro ⟨rfl, hnil | hhead⟩
      · exact hc ⟨rfl, by rw [hcs, hnil]; rfl⟩
      · obtain ⟨l, hl⟩ := List.head?_eq_some_iff.mp hhead
        exact hc ⟨rfl, by rw [hcs, hl]; rfl⟩

/-- Harmless values leave no placeholder in a rendered text. -/
theorem placeholders_resolveChars {values : BTreeMap String String}
    (hvalues : ∀ name v, values.get name = some v → Harmless v.toList)
    (h : resolveChars values rest = .ok out) : placeholdersInChars out = [] := by
  induction rest using placeholdersInChars.induct generalizing out with
  | case1 rest hstart =>
    rw [resolveChars_literal hstart] at h
    cases h
    exact placeholdersInChars_literal hstart
  | case2 rest literal after hstart hend =>
    rw [resolveChars_unclosed hstart hend] at h
    cases h
    exact placeholdersInChars_unclosed hstart hend
  | case3 rest literal after hstart inner rest' hend ih =>
    rw [resolveChars_placeholder hstart hend] at h
    split at h
    · cases h
    · rename_i value hvalue
      cases hout : resolveChars values rest' with
      | error e =>
        rw [hout] at h
        cases h
      | ok out' =>
        rw [hout] at h
        cases h
        dsimp only
        rw [List.append_assoc, (harmless_literal hstart).placeholders_append,
          (hvalues _ _ hvalue).placeholders_append]
        exact ih hout

/-- An opening pair of braces that a closing pair follows is a placeholder. -/
theorem placeholders_ne_nil (a b c : List Char) :
    placeholdersInChars (a ++ openBraces ++ (b ++ closeBraces ++ c)) ≠ [] := by
  cases hstart : splitOnce openBraces (a ++ openBraces ++ (b ++ closeBraces ++ c)) with
  | none => exact absurd hstart (splitOnce_ne_none _ _ _)
  | some r =>
    obtain ⟨d, hd⟩ := suffix_of_splitOnce hstart
    cases hend : splitOnce closeBraces r.2 with
    | none =>
      rw [← hd, List.append_assoc b, ← List.append_assoc, ← List.append_assoc] at hend
      exact absurd hend (splitOnce_ne_none _ _ _)
    | some r' =>
      rw [placeholdersInChars_placeholder hstart hend]
      exact List.cons_ne_nil _ _

/-- After a text that is not harmless a half pair and a closing pair make a placeholder. -/
theorem placeholders_of_not_harmless (h : ¬Harmless cs) :
    placeholdersInChars (cs ++ ['{', 'x', '}', '}']) ≠ [] := by
  unfold Harmless at h
  cases hsplit : splitOnce openBraces cs with
  | some r =>
    rw [eq_append_of_splitOnce hsplit]
    simpa [closeBraces] using placeholders_ne_nil r.1 (r.2 ++ ['{', 'x']) []
  | none =>
    obtain ⟨init, rfl⟩ : ∃ init, cs = init ++ ['{'] := by
      rw [hsplit] at h
      exact List.getLast?_eq_some_iff.mp (by simpa using h)
    simpa [openBraces, closeBraces] using placeholders_ne_nil init ['x'] []

end

/-! ## Capabilities -/

namespace Capability

/-- The string fields. -/
def texts : Capability → List String
  | resetFailed unit | restartUnit unit | unitState unit => [unit]
  | nixRollback => []
  | deletePod ns name | restartDeployment ns name | podState ns name => [ns, name]

/-- The Kubernetes identifiers. -/
def kubeTexts : Capability → List String
  | deletePod ns name | restartDeployment ns name | podState ns name => [ns, name]
  | _ => []

def SameVariant : Capability → Capability → Prop
  | resetFailed _, resetFailed _ | restartUnit _, restartUnit _ | unitState _, unitState _
  | nixRollback, nixRollback | deletePod _ _, deletePod _ _
  | restartDeployment _ _, restartDeployment _ _ | podState _ _, podState _ _ => True
  | _, _ => False

theorem SameVariant.isReadOnly_eq {cap cap' : Capability} (h : cap.SameVariant cap') :
    cap'.isReadOnly = cap.isReadOnly := by
  cases cap <;> cases cap' <;> first | rfl | cases h

theorem placeholders_eq (cap : Capability) :
    placeholdersInCapability cap = cap.texts.flatMap placeholdersInStr := by
  cases cap <;> simp [placeholdersInCapability, texts]

/-- What rendering makes of a capability. -/
structure Rendered (values : BTreeMap String String) (cap cap' : Capability) : Prop where
  variant : cap.SameVariant cap'
  texts : List.Forall₂ (fun raw text => resolveStr raw values = .ok text) cap.texts cap'.texts
  labels : ∀ text ∈ cap'.kubeTexts, isValidK8sLabel text = true

end Capability

section

variable {values : BTreeMap String String} {cap cap' : Capability}

/-- Both fields are rendered first; then the label that is at fault first is reported. -/
theorem resolveKube_of_ok {make : String → String → Capability} (hns : resolveStr ns values = .ok ns')
    (hname : resolveStr name values = .ok name') :
    resolveKube make field ns name values =
      if !isValidK8sLabel ns' then .error (.invalidKubeIdentifier "namespace" ns')
      else if !isValidK8sLabel name' then .error (.invalidKubeIdentifier field name')
      else .ok (make ns' name') := by
  rw [resolveKube, hns, hname]
  cases hns' : isValidK8sLabel ns' <;> cases hname' : isValidK8sLabel name' <;>
    simp only [bind, Except.bind, hns', hname', Bool.not_false, Bool.not_true, if_true,
      Bool.false_eq_true, if_false] <;> rfl

theorem resolveKube_eq_ok {make : String → String → Capability}
    (h : resolveKube make field ns name values = .ok cap') :
    ∃ ns' name', resolveStr ns values = .ok ns' ∧ resolveStr name values = .ok name' ∧
      isValidK8sLabel ns' = true ∧ isValidK8sLabel name' = true ∧ cap' = make ns' name' := by
  cases hns : resolveStr ns values with
  | error e =>
    rw [resolveKube, hns] at h
    cases h
  | ok ns' =>
    cases hname : resolveStr name values with
    | error e =>
      rw [resolveKube, hns, hname] at h
      cases h
    | ok name' =>
      rw [resolveKube_of_ok hns hname] at h
      split at h
      · cases h
      · split at h
        · cases h
        · cases h
          exact ⟨ns', name', rfl, rfl, by simp_all, by simp_all, rfl⟩

theorem Capability.resolve_rendered (h : cap.resolve values = .ok cap') :
    cap.Rendered values cap' := by
  cases cap with
  | resetFailed unit | restartUnit unit | unitState unit =>
    obtain ⟨unit', hunit, h⟩ := bind_eq_ok h
    cases h
    exact ⟨trivial, .cons hunit .nil, nofun⟩
  | nixRollback =>
    cases h
    exact ⟨trivial, .nil, nofun⟩
  | deletePod ns name | restartDeployment ns name | podState ns name =>
    obtain ⟨ns', name', hns, hname, hnsValid, hnameValid, rfl⟩ := resolveKube_eq_ok h
    refine ⟨trivial, .cons hns (.cons hname .nil), ?_⟩
    rintro text (_ | ⟨_, _ | ⟨_, ⟨⟩⟩⟩)
    · exact hnsValid
    · exact hnameValid

/-- With a value for each placeholder only an identifier can be at fault. -/
theorem Capability.resolve_error
    (h : ∀ token ∈ placeholdersInCapability cap, ∃ v, values.get token = some v)
    (he : cap.resolve values = .error e) : ∃ field value, e = .invalidKubeIdentifier field value := by
  cases cap with
  | resetFailed unit | restartUnit unit | unitState unit =>
    obtain ⟨unit', hunit⟩ := resolveStr_ok h
    rw [Capability.resolve, hunit] at he
    cases he
  | nixRollback => cases he
  | deletePod ns name | restartDeployment ns name | podState ns name =>
    simp only [placeholdersInCapability, List.forall_mem_append] at h
    obtain ⟨ns', hns⟩ := resolveStr_ok h.1
    obtain ⟨name', hname⟩ := resolveStr_ok h.2
    rw [Capability.resolve, resolveKube_of_ok hns hname] at he
    split at he
    · cases he
      exact ⟨_, _, rfl⟩
    · split at he
      · cases he
        exact ⟨_, _, rfl⟩
      · cases he

theorem Capability.Rendered.no_placeholders (h : cap.Rendered values cap')
    (hvalues : ∀ name v, values.get name = some v → Harmless v.toList) :
    placeholdersInCapability cap' = [] := by
  rw [Capability.placeholders_eq, List.flatMap_eq_nil_iff]
  intro text htext
  obtain ⟨raw, -, hraw⟩ := exists_left_of_forall₂ h.texts htext
  obtain ⟨out, hout, h⟩ := bind_eq_ok hraw
  cases h
  rw [placeholdersInStr, String.toList_ofList]
  exact placeholders_resolveChars hvalues hout

end

/-! ## Templates -/

namespace Template

/-- Every placeholder of the capability is a parameter of the template. -/
def Declares (t : Template) (cap : Capability) : Prop :=
  ∀ token ∈ placeholdersInCapability cap, t.parameters.containsKey token = true

/-- What validation has established. -/
structure Valid (t : Template) : Prop where
  preconditions : ∀ cond ∈ t.preconditions, cond.check.isReadOnly = true ∧ t.Declares cond.check
  steps : ∀ step ∈ t.steps, t.Declares step
  verify : ∀ v, t.verify = some v → v.check.isReadOnly = true ∧ t.Declares v.check
  nonempty : t.steps ≠ []

theorem declares_of_checkPlaceholders {t : Template} (h : t.checkPlaceholders cap = .ok ()) :
    t.Declares cap := by
  unfold checkPlaceholders at h
  split at h
  · cases h
  · rename_i hfind
    intro token htoken
    simpa using List.find?_eq_none.mp hfind token htoken

theorem declares_of_checkCheck {t : Template} (h : t.checkCheck check = .ok ()) :
    check.isReadOnly = true ∧ t.Declares check := by
  unfold checkCheck at h
  split at h
  · exact ⟨‹_›, declares_of_checkPlaceholders h⟩
  · cases h

theorem valid_of_validate {t : Template} (h : t.validate = .ok ()) : t.Valid := by
  obtain ⟨_, hpre, h⟩ := bind_eq_ok h
  obtain ⟨_, hsteps, h⟩ := bind_eq_ok h
  refine ⟨fun cond hcond => declares_of_checkCheck (forM_eq_ok hpre cond hcond),
    fun step hstep => declares_of_checkPlaceholders (forM_eq_ok hsteps step hstep), ?_, ?_⟩
  · intro v hv
    simp only [hv] at h
    obtain ⟨_, hverify, -⟩ := bind_eq_ok h
    exact declares_of_checkCheck hverify
  · intro hnil
    cases hv : t.verify with
    | none =>
      simp only [hv, hnil] at h
      cases h
    | some v =>
      simp only [hv, hnil] at h
      obtain ⟨_, -, h⟩ := bind_eq_ok h
      cases h

end Template

end Ravn
