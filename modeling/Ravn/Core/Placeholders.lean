import Ravn.Theory.Delimited
import Ravn.Core.Render

/-! The two scanners of a text's `{{param}}` placeholders: `placeholders_in_str`, by which a template is
validated, and `resolve_str`, by which a command is rendered. Both cut the text at the same spans, so a
text renders exactly when each name that is listed has a value. -/

namespace Ravn

open Theory Segments

/-! ## The loops -/

/-- `resolve_str`, with at most `fuel` turns of its `while let`; `out` is what it has pushed. -/
def resolveLoop (values : BTreeMap String String) :
    Nat → List Char → List Char → Option (Except RenderError (List Char))
  | 0, _, _ => none
  | fuel + 1, out, rest =>
    match splitOnce openBraces rest with
    | none => some (.ok (out ++ rest))
    | some (literal, after) =>
      match splitOnce closeBraces after with
      -- Without closing braces the text from the opening ones on is pushed as it stands.
      | none => some (.ok (out ++ literal ++ (openBraces ++ after)))
      | some (inner, rest') =>
        let name := String.ofList (trim inner)
        match values.get name with
        | none => some (.error (.missingValue name))
        | some value => resolveLoop values fuel (out ++ literal ++ value.toList) rest'

/-- `placeholders_in_str`, with at most `fuel` turns of its `while let`. -/
def placeholdersLoop : Nat → List String → List Char → Option (List String)
  | 0, _, _ => none
  | fuel + 1, names, rest =>
    match splitOnce openBraces rest with
    | none => some names
    | some (_, after) =>
      match splitOnce closeBraces after with
      | none => some names
      | some (inner, rest') =>
        placeholdersLoop fuel (names ++ [String.ofList (trim inner)]) rest'

/-! ## The spans of a text -/

/-- The names that stand in the spans. -/
def placeholderNames (seg : Segments Char) : List String :=
  seg.pieces.map fun p => String.ofList (trim p.inner)

/-- The value of a placeholder, or the error that it has none. -/
def lookupValue (values : BTreeMap String String) (name : String) : Except RenderError String :=
  match values.get name with
  | none => .error (.missingValue name)
  | some value => .ok value

section

variable {values : BTreeMap String String} {seg : Segments Char} {name value : String}

theorem lookupValue_eq_ok : lookupValue values name = .ok value ↔ values.get name = some value := by
  unfold lookupValue
  cases values.get name <;> simp

theorem lookupValue_eq_error : lookupValue values name = .error e ↔
    values.containsKey name = false ∧ e = .missingValue name := by
  unfold lookupValue BTreeMap.containsKey
  cases values.get name <;> simp [eq_comm]

theorem placeholdersInChars_text (h : seg.Leftmost openBraces closeBraces) :
    placeholdersInChars (seg.text openBraces closeBraces) = placeholderNames seg := by
  obtain ⟨pieces, tail⟩ := seg
  induction pieces with
  | nil =>
    obtain hnone | ⟨literal, after, hopen, hclose⟩ := h.splitOnce_tail
    · exact placeholdersInChars_literal hnone
    · exact placeholdersInChars_unclosed hopen hclose
  | cons p ps ih =>
    obtain ⟨after, hopen, hclose⟩ := h.splitOnce_text
    rw [placeholdersInChars_placeholder hopen hclose, ih (leftmost_cons.mp h).2.2]
    rfl

/-- A text renders to its literal parts with the values between them, if each name has one. -/
theorem resolveChars_text (h : seg.Leftmost openBraces closeBraces) :
    resolveChars values (seg.text openBraces closeBraces) =
      ((placeholderNames seg).mapM (lookupValue values)).map fun vs =>
        seg.fill (vs.map String.toList) := by
  obtain ⟨pieces, tail⟩ := seg
  induction pieces with
  | nil =>
    obtain hnone | ⟨literal, after, hopen, hclose⟩ := h.splitOnce_tail
    · exact resolveChars_literal hnone
    · exact resolveChars_unclosed hopen hclose
  | cons p ps ih =>
    obtain ⟨after, hopen, hclose⟩ := h.splitOnce_text
    have hnames : placeholderNames ⟨p :: ps, tail⟩ =
        String.ofList (trim p.inner) :: placeholderNames ⟨ps, tail⟩ := rfl
    rw [resolveChars_placeholder hopen hclose, ih (leftmost_cons.mp h).2.2, hnames, List.mapM_cons,
      lookupValue]
    cases values.get (String.ofList (trim p.inner)) with
    | none => rfl
    | some value =>
      cases (placeholderNames ⟨ps, tail⟩).mapM (lookupValue values) with
      | error e => rfl
      | ok vs => exact congrArg Except.ok (by simp)

theorem resolveLoop_text (h : seg.Leftmost openBraces closeBraces) (hfuel : seg.pieces.length < fuel)
    (out : List Char) :
    resolveLoop values fuel out (seg.text openBraces closeBraces) =
      some ((resolveChars values (seg.text openBraces closeBraces)).map (out ++ ·)) := by
  obtain ⟨pieces, tail⟩ := seg
  induction pieces generalizing fuel out with
  | nil =>
    obtain ⟨fuel, rfl⟩ := Nat.exists_eq_add_one_of_ne_zero (Nat.ne_of_gt hfuel)
    rw [text_nil, resolveLoop]
    obtain hnone | ⟨literal, after, hopen, hclose⟩ := h.splitOnce_tail
    · rw [hnone, resolveChars_literal hnone]
      rfl
    · have htail := eq_append_of_splitOnce hopen
      rw [hopen, resolveChars_unclosed hopen hclose]
      dsimp only
      rw [hclose, htail]
      simp [Except.map]
  | cons p ps ih =>
    obtain ⟨fuel, rfl⟩ := Nat.exists_eq_add_one_of_ne_zero (Nat.ne_zero_of_lt hfuel)
    obtain ⟨after, hopen, hclose⟩ := h.splitOnce_text
    rw [resolveLoop, hopen, resolveChars_placeholder hopen hclose]
    dsimp only
    rw [hclose]
    dsimp only
    cases values.get (String.ofList (trim p.inner)) with
    | none => rfl
    | some value =>
      dsimp only
      rw [ih _ (leftmost_cons.mp h).2.2 (Nat.lt_of_succ_lt_succ hfuel)]
      cases resolveChars values (text openBraces closeBraces ⟨ps, tail⟩) <;> simp [Except.map]

theorem placeholdersLoop_text (h : seg.Leftmost openBraces closeBraces)
    (hfuel : seg.pieces.length < fuel) (names : List String) :
    placeholdersLoop fuel names (seg.text openBraces closeBraces) =
      some (names ++ placeholderNames seg) := by
  obtain ⟨pieces, tail⟩ := seg
  induction pieces generalizing fuel names with
  | nil =>
    obtain ⟨fuel, rfl⟩ := Nat.exists_eq_add_one_of_ne_zero (Nat.ne_of_gt hfuel)
    rw [text_nil, placeholdersLoop]
    obtain hnone | ⟨literal, after, hopen, hclose⟩ := h.splitOnce_tail
    · rw [hnone]
      simp [placeholderNames]
    · rw [hopen]
      dsimp only
      rw [hclose]
      simp [placeholderNames]
  | cons p ps ih =>
    obtain ⟨fuel, rfl⟩ := Nat.exists_eq_add_one_of_ne_zero (Nat.ne_zero_of_lt hfuel)
    obtain ⟨after, hopen, hclose⟩ := h.splitOnce_text
    rw [placeholdersLoop, hopen]
    dsimp only
    rw [hclose]
    dsimp only
    rw [ih _ (leftmost_cons.mp h).2.2 (Nat.lt_of_succ_lt_succ hfuel)]
    simp [placeholderNames]

end

/-! ## Agreement -/

section

variable {values : BTreeMap String String} {seg : Segments Char} {raw out : String}

theorem exists_spans (raw : String) : ∃ seg : Segments Char, seg.Leftmost openBraces closeBraces ∧
    seg.text openBraces closeBraces = raw.toList :=
  exists_leftmost (List.cons_ne_nil _ _) closeBraces raw.toList

theorem placeholdersInStr_eq (h : seg.Leftmost openBraces closeBraces)
    (htext : seg.text openBraces closeBraces = raw.toList) :
    placeholdersInStr raw = placeholderNames seg := by
  rw [placeholdersInStr, ← htext, placeholdersInChars_text h]

theorem resolveStr_eq (h : seg.Leftmost openBraces closeBraces)
    (htext : seg.text openBraces closeBraces = raw.toList) :
    resolveStr raw values =
      ((placeholdersInStr raw).mapM (lookupValue values)).map fun vs =>
        String.ofList (seg.fill (vs.map String.toList)) := by
  rw [resolveStr, placeholdersInStr_eq h htext, ← htext, resolveChars_text h]
  cases (placeholderNames seg).mapM (lookupValue values) <;> rfl

/-- The values of the listed names, in the place of the spans. -/
theorem resolveStr_eq_ok_iff (h : seg.Leftmost openBraces closeBraces)
    (htext : seg.text openBraces closeBraces = raw.toList) :
    resolveStr raw values = .ok out ↔
      ∃ vs, List.Forall₂ (fun name v => values.get name = some v) (placeholdersInStr raw) vs ∧
        out.toList = seg.fill (vs.map String.toList) := by
  simp only [resolveStr_eq h htext, map_eq_ok_iff, mapM_eq_ok_iff, lookupValue_eq_ok]
  refine exists_congr fun vs => and_congr_right fun _ => ⟨?_, fun hout => ?_⟩
  · rintro rfl
    exact String.toList_ofList
  · rw [← hout]
    exact String.ofList_toList

/-- The error names the first listed name that has no value. -/
theorem resolveStr_eq_error_iff {raw : String} {e : RenderError} :
    resolveStr raw values = .error e ↔
      ∃ before name after, placeholdersInStr raw = before ++ name :: after ∧
        (∀ name' ∈ before, values.containsKey name' = true) ∧
        values.containsKey name = false ∧ e = .missingValue name := by
  obtain ⟨seg, h, htext⟩ := exists_spans raw
  simp only [resolveStr_eq h htext, map_eq_error_iff, mapM_eq_error_iff, lookupValue_eq_error,
    lookupValue_eq_ok, BTreeMap.containsKey, Option.isSome_iff_exists]

theorem resolveStr_ok_iff {raw : String} : (∃ out, resolveStr raw values = .ok out) ↔
    ∀ name ∈ placeholdersInStr raw, values.containsKey name = true := by
  constructor
  · rintro ⟨out, hout⟩ name hname
    obtain ⟨seg, h, htext⟩ := exists_spans raw
    obtain ⟨vs, hvs, -⟩ := (resolveStr_eq_ok_iff h htext).mp hout
    obtain ⟨v, -, hv⟩ := exists_left_of_forall₂ hvs.flip hname
    exact Option.isSome_iff_exists.mpr ⟨v, hv⟩
  · exact fun h => resolveStr_ok fun name hname => Option.isSome_iff_exists.mp (h name hname)

/-- Both scanners stop, and they read the same spans: rendering succeeds exactly when each listed name
has a value, it fails at the first one that has none, and it puts the value of each listed name in the
place of that name's span. The literal parts stay as they are, an unclosed `{{` among them, and the
values go in as they are. -/
theorem resolveStr_agrees (raw : String) (values : BTreeMap String String) :
    (∀ fuel, (placeholdersInStr raw).length < fuel →
      resolveLoop values fuel [] raw.toList = some ((resolveStr raw values).map String.toList) ∧
      placeholdersLoop fuel [] raw.toList = some (placeholdersInStr raw)) ∧
    ((∃ out, resolveStr raw values = .ok out) ↔
      ∀ name ∈ placeholdersInStr raw, values.containsKey name = true) ∧
    (∀ e, resolveStr raw values = .error e ↔
      ∃ before name after, placeholdersInStr raw = before ++ name :: after ∧
        (∀ name' ∈ before, values.containsKey name' = true) ∧
        values.containsKey name = false ∧ e = .missingValue name) ∧
    ∃ seg : Segments Char,
      (∀ seg' : Segments Char, seg'.Leftmost openBraces closeBraces ∧
        seg'.text openBraces closeBraces = raw.toList ↔ seg' = seg) ∧
      placeholdersInStr raw = placeholderNames seg ∧
      ∀ out, resolveStr raw values = .ok out ↔
        ∃ vs, List.Forall₂ (fun name v => values.get name = some v) (placeholdersInStr raw) vs ∧
          out.toList = seg.fill (vs.map String.toList) := by
  obtain ⟨seg, h, htext⟩ := exists_spans raw
  have hnames := placeholdersInStr_eq h htext
  refine ⟨fun fuel hfuel => ?_, resolveStr_ok_iff, fun e => resolveStr_eq_error_iff, seg, ?_, hnames,
    fun out => resolveStr_eq_ok_iff h htext⟩
  · have hlen : seg.pieces.length < fuel := by
      rw [hnames, placeholderNames, List.length_map] at hfuel
      exact hfuel
    constructor
    · rw [← htext, resolveLoop_text h hlen, htext, resolveStr]
      cases resolveChars values raw.toList <;> simp [Except.map, bind, Except.bind]
    · rw [← htext, placeholdersLoop_text h hlen, hnames, List.nil_append]
  · refine fun seg' => ⟨fun hseg => hseg.1.unique h (hseg.2.trans htext.symm), ?_⟩
    rintro rfl
    exact ⟨h, htext⟩

/-- A placeholder inside a further pair of braces, and one that is not closed. -/
def nestedBraces : String :=
  .ofList (openBraces ++ ['{', 'x'] ++ closeBraces ++ ['}'] ++ openBraces ++ ['y'])

/-- The value looks like a placeholder itself. -/
def bracedValues : BTreeMap String String :=
  .ofList [(.ofList ['{', 'x'], .ofList (openBraces ++ ['z'] ++ closeBraces))]

theorem placeholdersInStr_nestedBraces : placeholdersInStr nestedBraces = [.ofList ['{', 'x']] := by
  have hopen : splitOnce openBraces nestedBraces.toList =
      some ([], ['{', 'x'] ++ closeBraces ++ ['}'] ++ openBraces ++ ['y']) := by decide
  have hclose : splitOnce closeBraces (['{', 'x'] ++ closeBraces ++ ['}'] ++ openBraces ++ ['y']) =
      some (['{', 'x'], ['}'] ++ openBraces ++ ['y']) := by decide
  have hlast : splitOnce openBraces (['}'] ++ openBraces ++ ['y']) = some (['}'], ['y']) := by decide
  rw [placeholdersInStr, placeholdersInChars_placeholder hopen hclose,
    placeholdersInChars_unclosed hlast (by decide)]
  decide

theorem resolveStr_agrees_nestedBraces : resolveStr nestedBraces bracedValues =
    .ok (.ofList (openBraces ++ ['z'] ++ closeBraces ++ ['}'] ++ openBraces ++ ['y'])) := by
  have hlen : (placeholdersInStr nestedBraces).length < 2 := by
    rw [placeholdersInStr_nestedBraces]
    decide
  have hrun := ((resolveStr_agrees nestedBraces bracedValues).1 2 hlen).1
  have hloop : resolveLoop bracedValues 2 [] nestedBraces.toList =
      some (.ok (openBraces ++ ['z'] ++ closeBraces ++ ['}'] ++ openBraces ++ ['y'])) := rfl
  rw [hloop] at hrun
  obtain ⟨out, hout, heq⟩ := map_eq_ok_iff.mp (Option.some.inj hrun).symm
  rw [hout, ← heq, String.ofList_toList]

end

end Ravn
