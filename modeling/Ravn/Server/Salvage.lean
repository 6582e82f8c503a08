import Ravn.Server.FieldSearch

/-! What is made of a reply that was cut off before its last brace: the part of the explanation that
was kept, and no raw JSON, as long as something of it was kept and no escape is misread. -/

namespace Ravn

open Theory Theory.Json

/-- An object with an explanation and a check, in any spelling, with its members in either order. -/
structure ModelReply where
  explanation : StrMember
  check : StrMember
  explanationFirst : Bool
  explanation_key : spelled explanation.key = "explanation".toList
  check_key : spelled check.key = "suggested_check".toList

namespace ModelReply

def members (r : ModelReply) : List StrMember :=
  if r.explanationFirst then [r.explanation, r.check] else [r.check, r.explanation]

def text (r : ModelReply) : List Char := objectText r.members

/-- The text up to and with the opening quote of the explanation. -/
def intro (r : ModelReply) : List Char :=
  if r.explanationFirst then '\x7b' :: (r.explanation.intro ++ ['"'])
  else '\x7b' :: (r.check.text ++ ',' :: (r.explanation.intro ++ ['"']))

/-- What follows, up to the closing brace. -/
def rest (r : ModelReply) : List Char :=
  if r.explanationFirst then r.explanation.body ++ ',' :: r.check.text else r.explanation.body

/-- The reply is salvaged faithfully where only `kept` is left of what follows the opening quote of
the explanation. -/
structure Salvaged (r : ModelReply) (kept : List Char) : Prop where
  start : ∃ cs, cs <+: chars r.explanation.value ∧
    (parseExplanation (r.intro ++ kept)).1 = trim cs
  whole : spelled r.explanation.value ++ ['"'] <+: kept →
    (parseExplanation (r.intro ++ kept)).1 = trim (chars r.explanation.value)
  notRaw : (parseExplanation (r.intro ++ kept)).1 ≠ trim (r.intro ++ kept)
  check : ∀ cs, (parseExplanation (r.intro ++ kept)).2 = some cs → cs <+: chars r.check.value

/-- Something of the explanation is kept, or its closing quote. -/
def Begun (kept : List Char) : Prop := kept ≠ [] ∧ kept ≠ ['\\']

variable {r : ModelReply} {kept : List Char}

/-! ## The text -/

theorem text_eq (r : ModelReply) : r.text = r.intro ++ r.rest ++ ['\x7d'] := by
  obtain ⟨e, c, first, he, hc⟩ := r
  cases first <;> simp [text, members, objectText, membersText, intro, rest, StrMember.text]

theorem members_ne_nil (r : ModelReply) : ∃ m ms, r.members = m :: ms := by
  unfold members
  split <;> exact ⟨_, _, rfl⟩

/-- A part of the text up to its last brace is not read. -/
theorem valueFromStr_start {s t : List Char} (h : '\x7b' :: s ++ t = r.intro ++ r.rest) :
    valueFromStr ('\x7b' :: s) = none := by
  obtain ⟨m, ms, hms⟩ := r.members_ne_nil
  have htext := r.text_eq
  rw [text, hms, objectText, ← h] at htext
  have hmembers : s ++ t = membersText (m :: ms) := by
    have hcons := (List.cons.inj htext).2
    exact (List.append_cancel_right hcons).symm
  rw [valueFromStr, parse_start_objectText m ms hmembers]
  rfl

theorem embeddedObject_start {s t : List Char} (h : '\x7b' :: s ++ t = r.intro ++ r.rest) :
    (embeddedObject ('\x7b' :: s)).bind valueFromStr = none := by
  have hfind : ('\x7b' :: s).findIdx? (· = '\x7b') = some 0 := rfl
  rw [embeddedObject, hfind, Option.bind_some]
  cases rfind '\x7d' ('\x7b' :: s) with
  | none => rfl
  | some stop =>
    rw [Option.bind_some]
    split
    · rw [Option.bind_some, List.take_succ_cons, List.drop_zero]
      refine valueFromStr_start (r := r) (t := s.drop stop ++ t) ?_
      rw [← h, List.cons_append, ← List.append_assoc, List.take_append_drop, List.cons_append]
    · rfl

theorem intro_eq_cons (r : ModelReply) : ∃ s, r.intro = '\x7b' :: s := by
  unfold intro
  split <;> exact ⟨_, rfl⟩

/-- Only the third way is left for a reply that was cut. -/
theorem parseExplanation_cut (h : kept <+: r.rest) :
    parseExplanation (r.intro ++ kept) =
      match extractStringField (r.intro ++ kept) "explanation".toList with
      | some text => (trim text,
        (extractStringField (r.intro ++ kept) "suggested_check".toList).filter fun s => s ≠ [])
      | none => (trim (r.intro ++ kept), none) := by
  obtain ⟨s, hs⟩ := r.intro_eq_cons
  obtain ⟨t, ht⟩ := h
  have hcut : '\x7b' :: (s ++ kept) ++ t = r.intro ++ r.rest := by
    rw [hs, ← ht]
    simp
  rw [parseExplanation, hs, List.cons_append, valueFromStr_start hcut, embeddedObject_start hcut]
  rfl

/-! ## Its fields -/

theorem distinct_check (r : ModelReply) :
    Distinct (spelled r.explanation.key) (spelled r.check.key) 'k' := by
  rw [r.explanation_key, r.check_key]
  exact ⟨by decide, by decide, ⟨"suggested_chec".toList, by decide⟩, by decide, by decide⟩

theorem distinct_explanation (r : ModelReply) :
    Distinct (spelled r.check.key) (spelled r.explanation.key) 'n' := by
  rw [r.explanation_key, r.check_key]
  exact ⟨by decide, by decide, ⟨"explanatio".toList, by decide⟩, by decide, by decide⟩

/-- What is found as the explanation is what is collected from its opening quote on. -/
theorem extract_explanation (r : ModelReply) (kept : List Char) :
    extractStringField (r.intro ++ kept) "explanation".toList = collected kept := by
  rw [← r.explanation_key]
  cases hfirst : r.explanationFirst with
  | true =>
    rw [intro, if_pos hfirst, ← extractStringField_first r.explanation]
    simp
  | false =>
    have hcolon : ':' ∉ spelled r.explanation.key := r.distinct_explanation.colon
    have hcontent : r.intro ++ kept = upToValue r.check ++
        '"' :: (r.check.afterValue ++ ',' :: r.explanation.intro ++ '"' :: kept) := by
      simp [intro, hfirst, upToValue, StrMember.text, StrMember.body]
    rw [hcontent, extractStringField_second (t := '"' :: kept) r.distinct_explanation (by simp),
      readField_intro _ hcolon]

theorem misreads_intro (m : StrMember) (hkey : '\\' ∉ spelled m.key) (cs : List Char) :
    misreads (m.intro ++ '"' :: cs) = misreads cs := by
  rw [misreads_append_of_notMem (notMem_intro m hkey (by decide)), misreads_cons (by decide)]

theorem misreads_afterValue (m : StrMember) (cs : List Char) :
    misreads (m.afterValue ++ cs) = misreads cs :=
  misreads_append_of_notMem (notMem_of_blank (blank_afterValue m) (by decide)) cs

theorem explanation_key_plain (r : ModelReply) : '\\' ∉ spelled r.explanation.key := by
  rw [r.explanation_key]
  decide

theorem check_key_plain (r : ModelReply) : '\\' ∉ spelled r.check.key := by
  rw [r.check_key]
  decide

/-- What is found as the check is what is collected from its opening quote on, if that is there. -/
theorem extract_check (h : kept <+: r.rest) :
    extractStringField (r.intro ++ kept) "suggested_check".toList = none ∨
      ∃ b t, extractStringField (r.intro ++ kept) "suggested_check".toList = collected b ∧
        b <+: spelled r.check.value ++ '"' :: t ∧
        (misreads (r.intro ++ kept) = false → misreads b = false) := by
  rw [← r.check_key]
  cases hfirst : r.explanationFirst with
  | true =>
    have hintro : r.intro ++ kept = '\x7b' :: (r.explanation.intro ++ '"' :: kept) := by
      simp [intro, hfirst]
    have hrest : r.rest = spelled r.explanation.value ++ '"' :: (r.explanation.afterValue ++
        ',' :: r.check.intro ++ '"' :: r.check.body) := by
      simp [rest, hfirst, StrMember.text, StrMember.body]
    rw [hrest] at h
    rcases start_cases h with hopen | ⟨post, rfl, hpost⟩
    · rw [hintro]
      exact .inl (extractStringField_open r.distinct_check hopen)
    · have hcontent : r.intro ++ (spelled r.explanation.value ++ '"' :: post) =
          upToValue r.explanation ++ '"' :: post := by
        simp [intro, hfirst, upToValue]
      rw [hcontent, extractStringField_second (t := '"' :: r.check.body) r.distinct_check
        (by simpa using hpost)]
      rcases readField_second r.distinct_check.colon hpost with hnone | ⟨b, hb, hfound, rfl⟩
      · exact .inl hnone
      · refine .inr ⟨b, r.check.afterValue, hfound, hb, fun hread => ?_⟩
        rw [upToValue, List.cons_append, misreads_cons (by decide), List.append_assoc,
          List.cons_append, misreads_intro _ r.explanation_key_plain, misreads_spelled,
          Bool.or_eq_false_iff, misreads_cons (by decide), List.append_assoc, misreads_afterValue,
          List.cons_append, misreads_cons (by decide), misreads_intro _ r.check_key_plain] at hread
        exact hread.2
  | false =>
    have hcontent : r.intro ++ kept = '\x7b' :: (r.check.intro ++ '"' :: (spelled r.check.value ++
        '"' :: (r.check.afterValue ++ ',' :: (r.explanation.intro ++ '"' :: kept)))) := by
      simp [intro, hfirst, StrMember.text, StrMember.body]
    rw [hcontent, extractStringField_first]
    refine .inr ⟨_, _, rfl, List.prefix_rfl, fun hread => ?_⟩
    rwa [misreads_cons (by decide), misreads_intro _ r.check_key_plain] at hread

/-! ## Escapes that are misread -/

theorem misreads_body (m : StrMember) (cs : List Char) :
    misreads (m.body ++ cs) = (misreads (spelled m.value) || misreads cs) := by
  rw [StrMember.body, List.append_assoc, misreads_spelled, List.cons_append, misreads_cons (by decide),
    misreads_afterValue]

/-- The escapes before the opening quote of the explanation are those of a check that comes first. -/
theorem misreads_intro_append (r : ModelReply) (cs : List Char) :
    misreads (r.intro ++ cs) =
      (!r.explanationFirst && misreads (spelled r.check.value) || misreads cs) := by
  cases hfirst : r.explanationFirst with
  | true =>
    simp only [intro, hfirst, if_true, List.cons_append, List.append_assoc, List.nil_append]
    rw [misreads_cons (by decide), misreads_intro _ r.explanation_key_plain]
    rfl
  | false =>
    simp only [intro, hfirst, Bool.false_eq_true, if_false, List.cons_append, List.append_assoc,
      List.nil_append, StrMember.text]
    rw [misreads_cons (by decide), misreads_intro _ r.check_key_plain, misreads_body,
      misreads_cons (by decide), misreads_intro _ r.explanation_key_plain]
    rfl

theorem misreads_text_iff (r : ModelReply) : misreads r.text = false ↔
    misreads (spelled r.explanation.value) = false ∧ misreads (spelled r.check.value) = false := by
  have hbrace : misreads ['\x7d'] = false := rfl
  rw [text_eq, List.append_assoc, misreads_intro_append]
  cases hfirst : r.explanationFirst with
  | true =>
    simp only [rest, hfirst, if_true, List.append_assoc, List.cons_append, StrMember.text]
    rw [misreads_body, misreads_cons (by decide), misreads_intro _ r.check_key_plain, misreads_body,
      hbrace]
    simp
  | false =>
    simp only [rest, hfirst, Bool.false_eq_true, if_false]
    rw [misreads_body, hbrace]
    simp [and_comm]

/-! ## A reply that was cut -/

theorem parse_of_collected (h : kept <+: r.rest) (hc : collected kept = some cs) :
    parseExplanation (r.intro ++ kept) = (trim cs,
      (extractStringField (r.intro ++ kept) "suggested_check".toList).filter fun s => s ≠ []) := by
  rw [parseExplanation_cut h, extract_explanation, hc]

theorem parse_of_not_collected (h : kept <+: r.rest) (hc : collected kept = none) :
    parseExplanation (r.intro ++ kept) = (trim (r.intro ++ kept), none) := by
  rw [parseExplanation_cut h, extract_explanation, hc]

/-- What is collected has fewer quotes than the reply. -/
theorem trim_ne_of_collected (r : ModelReply) (hc : collected kept = some cs) :
    trim cs ≠ trim (r.intro ++ kept) := by
  intro heq
  have hquotes := congrArg quotes heq
  have hle := quotes_unescape_le false kept
  have hcs : (unescape false kept).1 = cs := by
    unfold collected at hc
    split at hc
    · exact Option.some.inj hc
    · cases hc
  have hintro : 1 ≤ quotes r.intro := by
    unfold intro
    split <;> simp <;> omega
  rw [quotes_trim, quotes_trim, quotes_append] at hquotes
  rw [hcs] at hle
  omega

theorem rest_eq (r : ModelReply) : ∃ t, r.rest = spelled r.explanation.value ++ '"' :: t := by
  unfold rest StrMember.body
  split
  · exact ⟨_, by rw [List.append_assoc, List.cons_append]⟩
  · exact ⟨_, rfl⟩

/-- The check that is found is a start of the check, or there is none. -/
theorem check_prefix (h : kept <+: r.rest) (hread : misreads (r.intro ++ kept) = false)
    (hout : collected kept = some out) (hc : (parseExplanation (r.intro ++ kept)).2 = some cs) :
    cs <+: chars r.check.value := by
  rw [parse_of_collected h hout] at hc
  have hfound := (Option.filter_eq_some_iff.mp hc).1
  rcases extract_check h with hnone | ⟨b, t, heq, hb, hmisread⟩
  · rw [hnone] at hfound
    cases hfound
  · rw [heq] at hfound
    exact prefix_of_collected hb (hmisread hread) hfound

/-- What is collected of the explanation makes a faithful text. -/
theorem Salvaged.of_collected (h : kept <+: r.rest) (hread : misreads (r.intro ++ kept) = false)
    (hout : collected kept = some cs) (hcs : cs <+: chars r.explanation.value)
    (hwhole : spelled r.explanation.value ++ ['"'] <+: kept → cs = chars r.explanation.value) :
    r.Salvaged kept where
  start := ⟨cs, hcs, by rw [parse_of_collected h hout]⟩
  whole hclosed := by rw [parse_of_collected h hout, hwhole hclosed]
  notRaw := by
    rw [parse_of_collected h hout]
    exact trim_ne_of_collected r hout
  check _ hc := check_prefix h hread hout hc

/-- Where nothing is kept the reply is returned as it is. -/
theorem Salvaged.begun (h : kept <+: r.rest) (hs : r.Salvaged kept) : Begun kept := by
  have hnone : collected kept ≠ none := by
    intro hnone
    have hraw := hs.notRaw
    rw [parse_of_not_collected h hnone] at hraw
    exact hraw rfl
  constructor
  · rintro rfl
    exact hnone rfl
  · rintro rfl
    exact hnone rfl

/-- Without a misread escape the reply is salvaged faithfully exactly if something is kept. -/
theorem salvaged_iff_begun (h : kept <+: r.rest) (hread : misreads (r.intro ++ kept) = false) :
    r.Salvaged kept ↔ Begun kept := by
  refine ⟨Salvaged.begun h, fun hbegun => ?_⟩
  have hkept : misreads kept = false := by
    rw [misreads_intro_append, Bool.or_eq_false_iff] at hread
    exact hread.2
  obtain ⟨t, ht⟩ := r.rest_eq
  rcases start_cases (ht ▸ h) with hopen | ⟨post, rfl, -⟩
  · obtain ⟨cs, hcs, hout, hnil⟩ := unescape_start hopen hkept
    have hne : cs ≠ [] := fun hnone => (hnil hnone).elim hbegun.1 hbegun.2
    have hcollected : collected kept = some cs := by simp [collected, hout, hne]
    refine .of_collected h hread hcollected hcs fun hclosed => ?_
    have hle := (hclosed.trans hopen).length_le
    rw [List.length_append, List.length_singleton] at hle
    omega
  · rw [misreads_spelled, Bool.or_eq_false_iff] at hkept
    have hchars : (unescape false (spelled r.explanation.value)).1 = chars r.explanation.value := by
      obtain ⟨-, hchars⟩ | ⟨hmisread, -⟩ := unescape_spelled_cases r.explanation.value
      · exact hchars
      · rw [hkept.1] at hmisread
        cases hmisread
    have hout := collected_of_closed r.explanation.value post
    rw [hchars] at hout
    exact .of_collected h hread hout List.prefix_rfl fun _ => rfl

/-- A check that is closed is found as a whole. -/
theorem extract_check_closed (r : ModelReply) :
    extractStringField (r.intro ++ r.rest) "suggested_check".toList =
      some (unescape false (spelled r.check.value)).1 := by
  rw [← r.check_key]
  cases hfirst : r.explanationFirst with
  | true =>
    have hcontent : r.intro ++ r.rest = upToValue r.explanation ++ '"' ::
        (r.explanation.afterValue ++ ',' :: r.check.intro ++ '"' :: r.check.body) := by
      simp [intro, rest, hfirst, upToValue, StrMember.text, StrMember.body]
    rw [hcontent, extractStringField_second (t := '"' :: r.check.body) r.distinct_check (by simp),
      readField_intro _ r.distinct_check.colon, StrMember.body, collected_of_closed]
  | false =>
    have hcontent : r.intro ++ r.rest = '\x7b' :: (r.check.intro ++ '"' :: (spelled r.check.value ++
        '"' :: (r.check.afterValue ++ ',' :: (r.explanation.intro ++ '"' :: r.explanation.body)))) := by
      simp [intro, rest, hfirst, StrMember.text, StrMember.body]
    rw [hcontent, extractStringField_first, collected_of_closed]

theorem not_misreads_of_trim (ps : List Spelling)
    (h : trim (unescape false (spelled ps)).1 = trim (chars ps)) : misreads (spelled ps) = false := by
  obtain ⟨hread, -⟩ | ⟨-, hlt⟩ := unescape_spelled_cases ps
  · exact hread
  · have hblank : ∀ c, isWhitespace c = true → weight c = 0 := fun c hc => if_pos hc
    have hsum := congrArg (fun cs => (cs.map weight).sum) h
    rw [sum_map_trim hblank, sum_map_trim hblank] at hsum
    omega

theorem not_misreads_of_prefix (ps : List Spelling)
    (h : (unescape false (spelled ps)).1 <+: chars ps) : misreads (spelled ps) = false := by
  obtain ⟨hread, -⟩ | ⟨-, hlt⟩ := unescape_spelled_cases ps
  · exact hread
  · obtain ⟨t, ht⟩ := h
    rw [← ht, List.map_append, List.sum_append] at hlt
    omega

/-- Where both values are closed and salvaged, no escape is misread. -/
theorem not_misreads_of_salvaged (h : r.Salvaged r.rest) : misreads r.text = false := by
  obtain ⟨t, ht⟩ := r.rest_eq
  have hout : collected r.rest = some (unescape false (spelled r.explanation.value)).1 := by
    rw [ht, collected_of_closed]
  have hparse := parse_of_collected List.prefix_rfl hout
  rw [extract_check_closed] at hparse
  refine r.misreads_text_iff.mpr ⟨not_misreads_of_trim _ ?_, not_misreads_of_prefix _ ?_⟩
  · have hwhole := h.whole (by rw [ht]; exact ⟨t, by simp⟩)
    rwa [hparse] at hwhole
  · by_cases hnil : (unescape false (spelled r.check.value)).1 = []
    · rw [hnil]
      exact List.nil_prefix
    · exact h.check _ (by rw [hparse]; simp [hnil])

/-! ## A whole reply -/

theorem chars_of_plain {ps : List Spelling} (h : '\\' ∉ spelled ps) : chars ps = spelled ps := by
  induction ps with
  | nil => rfl
  | cons p ps ih =>
    rw [spelled_cons, List.mem_append, not_or] at h
    obtain ⟨htext, -⟩ | ⟨e, htext, -⟩ | ⟨ds, htext, -⟩ := p.cases
    · rw [spelled_cons, chars_cons, htext, ih h.2]
      rfl
    · exact absurd (htext ▸ List.mem_cons_self) h.1
    · exact absurd (htext ▸ List.mem_cons_self) h.1

theorem doc_explanation (r : ModelReply) :
    r.explanation.doc = ("explanation", .str (String.ofList (chars r.explanation.value))) := by
  rw [StrMember.doc, chars_of_plain r.explanation_key_plain, r.explanation_key, String.ofList_toList]

theorem doc_check (r : ModelReply) :
    r.check.doc = ("suggested_check", .str (String.ofList (chars r.check.value))) := by
  rw [StrMember.doc, chars_of_plain r.check_key_plain, r.check_key, String.ofList_toList]

theorem valueFromStr_text (r : ModelReply) :
    valueFromStr r.text = some (.obj (r.members.map StrMember.doc)) := by
  obtain ⟨m, ms, hms⟩ := r.members_ne_nil
  have hdepth : (Doc.obj (r.members.map StrMember.doc)).depth ≤ 0 + 1 := by
    refine Doc.depth_obj_le.mpr fun d hd => ?_
    obtain ⟨m, -, rfl⟩ := List.mem_map.mp hd
    exact Nat.le_refl 0
  have hlimit : (Doc.obj (r.members.map StrMember.doc)).depth < Doc.recursionLimit :=
    Nat.lt_of_le_of_lt hdepth (by decide)
  have hrange : (Doc.obj (r.members.map StrMember.doc)).inRange := by
    rw [Doc.inRange, Doc.membersInRange_iff, List.forall_mem_map]
    exact fun m _ => rfl
  rw [hms] at hlimit hrange ⊢
  rw [valueFromStr, text, hms, parse_objectText, Option.filter_some, decide_eq_true ⟨hlimit, hrange⟩,
    if_pos rfl]

/-- A reply that was not cut is read as an object. -/
theorem parseExplanation_text (r : ModelReply) :
    parseExplanation r.text = (trim (chars r.explanation.value),
      (some (trim (chars r.check.value))).filter fun s => s ≠ []) := by
  have hname : ("suggested_check" == "explanation") = false := by decide
  have hname' : ("explanation" == "suggested_check") = false := by decide
  have hparsed : (valueFromStr r.text).bind fromJson = some (trim (chars r.explanation.value),
      (some (trim (chars r.check.value))).filter fun s => s ≠ []) := by
    rw [valueFromStr_text, Option.bind_some, members]
    split <;> simp [fromJson, Doc.get, Doc.asStr, doc_explanation, doc_check, List.lookup_cons, hname, hname']
  rw [parseExplanation, hparsed]

/-! ## Every cut -/

/-- At a cut without a misread escape the reply is salvaged faithfully exactly if something of the
explanation is kept, or its closing quote; at a cut and at all that keep more, exactly if that is so
and no escape of the reply is misread. A reply that was not cut is read as it is. -/
theorem salvaged_iff (r : ModelReply) (kept : List Char) (h : kept <+: r.rest) :
    (misreads (r.intro ++ kept) = false → (r.Salvaged kept ↔ Begun kept)) ∧
      ((∀ later, kept <+: later → later <+: r.rest → r.Salvaged later) ↔
        misreads r.text = false ∧ Begun kept) ∧
      parseExplanation r.text = (trim (chars r.explanation.value),
        (some (trim (chars r.check.value))).filter fun s => s ≠ []) := by
  refine ⟨salvaged_iff_begun h, ⟨fun hlater => ?_, ?_⟩, r.parseExplanation_text⟩
  · exact ⟨not_misreads_of_salvaged (hlater r.rest h List.prefix_rfl),
      (hlater kept List.prefix_rfl h).begun h⟩
  · rintro ⟨hread, hbegun⟩ later hkept hlater
    have hprefix : r.intro ++ later <+: r.text := by
      rw [text_eq, List.append_assoc]
      exact (List.prefix_append_right_inj r.intro).mpr (hlater.trans (List.prefix_append _ _))
    refine (salvaged_iff_begun hlater ( misreads_of_prefix hprefix hread)).mpr ⟨?_, ?_⟩
    · rintro rfl
      exact hbegun.1 (List.prefix_nil.mp hkept)
    · rintro rfl
      cases kept with
      | nil => exact hbegun.1 rfl
      | cons c kept =>
        obtain ⟨rfl, hnil⟩ := List.cons_prefix_cons.mp hkept
        exact hbegun.2 (congrArg _ (List.prefix_nil.mp hnil))

/-- A member with a blank after its colon. -/
def sampleMember (key value : List Spelling) : StrMember :=
  ⟨key, value, [], [], [' '], [], List.all_eq_true.mp (by decide)⟩

def sampleKeys : List Spelling × List Spelling :=
  (plainly "explanation".toList (plain_of_all (by decide)),
    plainly "suggested_check".toList (plain_of_all (by decide)))

/-- A reply whose explanation starts with `spelling`. -/
def sample (spelling : List Spelling) : ModelReply where
  explanation := sampleMember sampleKeys.1
    (spelling ++ plainly " closed".toList (plain_of_all (by decide)))
  check := sampleMember sampleKeys.2 (plainly "df -h".toList (plain_of_all (by decide)))
  explanationFirst := true
  explanation_key := (by decide : spelled sampleKeys.1 = "explanation".toList)
  check_key := (by decide : spelled sampleKeys.2 = "suggested_check".toList)

/-- A drive with its backslash, which is escaped. -/
def samplePath : List Spelling :=
  plainly "C:".toList (plain_of_all (by decide)) ++ [⟨['\\', '\\'], '\\', by decide⟩]

theorem salvaged_iff_sample :
    (sample samplePath).Salvaged "C:\\\\ cl".toList ∧
      parseExplanation (sample samplePath).text = ("C:\\ closed".toList, some "df -h".toList) := by
  have hkept : "C:\\\\ cl".toList <+: (sample samplePath).rest := by decide
  obtain ⟨hcut, -, htext⟩ := salvaged_iff (sample samplePath) "C:\\\\ cl".toList hkept
  have htrim : trim (chars (sample samplePath).explanation.value) = "C:\\ closed".toList := by decide
  have hcheck : trim (chars (sample samplePath).check.value) = "df -h".toList := by decide
  refine ⟨(hcut (by decide)).mpr ⟨by decide, by decide⟩, ?_⟩
  rw [htext, htrim, hcheck]
  rfl

/-- An accent that is written as a code. -/
def sampleAccent : List Spelling :=
  plainly "Caf".toList (plain_of_all (by decide)) ++ [⟨"\\u00e9".toList, 'é', by decide⟩]

/-- Right after the opening quote the reply itself is returned, and a code comes out as its digits. -/
theorem sample_not_salvaged :
    (parseExplanation "\x7b\"explanation\": \"".toList).1 = "\x7b\"explanation\": \"".toList ∧
      ¬(sample sampleAccent).Salvaged [] ∧
      (parseExplanation "\x7b\"explanation\": \"Caf\\u00e9 cl".toList).1 = "Cafu00e9 cl".toList ∧
      ¬(sample sampleAccent).Salvaged "Caf\\u00e9 cl".toList := by
  have hopening : "\x7b\"explanation\": \"".toList = (sample sampleAccent).intro ++ [] := by decide
  have hcut : "\x7b\"explanation\": \"Caf\\u00e9 cl".toList =
      (sample sampleAccent).intro ++ "Caf\\u00e9 cl".toList := by decide
  have hkept : "Caf\\u00e9 cl".toList <+: (sample sampleAccent).rest := by decide
  have hcollected : collected "Caf\\u00e9 cl".toList = some "Cafu00e9 cl".toList := by decide
  have hraw := parse_of_not_collected (r := sample sampleAccent) List.nil_prefix rfl
  have hout := congrArg Prod.fst (parse_of_collected hkept hcollected)
  rw [← hcut] at hout
  have htrim : trim "Cafu00e9 cl".toList = "Cafu00e9 cl".toList := by decide
  refine ⟨?_, fun h => (h.begun List.nil_prefix).1 rfl, hout.trans htrim, fun h => ?_⟩
  · rw [hopening, hraw, ← hopening]
    decide
  · obtain ⟨cs, hcs, heq⟩ := h.start
    rw [← hcut, hout, htrim] at heq
    have hzero : '0' ∈ cs := mem_of_mem_trim (heq ▸ (by decide : '0' ∈ "Cafu00e9 cl".toList))
    exact absurd (hcs.subset hzero) (by decide)

end ModelReply

end Ravn
