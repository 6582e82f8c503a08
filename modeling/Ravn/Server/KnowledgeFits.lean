import Ravn.Server.FaultMemory

/-! What the files of the knowledge base hold. Nothing is escaped, so an entry is read as it was stored
exactly if its texts keep clear of the delimiters around them (`Entry.survives_iff`). From an empty
directory on, all entries that calls build are read back exactly if the texts of the calls are so
(`knowledge_survives_iff`). -/

namespace Ravn

open Theory

/-- chrono reads back the text that it writes for a time. -/
def Rfc3339.ReadsBack (F : Rfc3339) (t : DateTime) : Prop :=
  F.parseFromRfc3339 (F.toRfc3339 t).toList = some t

namespace Knowledge

/-- A line without white space at its ends. -/
structure Bare (s : List Char) : Prop where
  line : '\n' ∉ s
  ends : trim s = s

/-- A line that is found again between quotes. -/
structure Quoted (s : List Char) : Prop where
  line : '\n' ∉ s
  quotable : Quotable s

/-- A parameter that is found again in an inline map. -/
structure InlineParam (p : String × String) : Prop where
  key : Bare p.1.toList
  value : Bare p.2.toList
  key_comma : ',' ∉ p.1.toList
  key_colon : ':' ∉ p.1.toList
  value_comma : ',' ∉ p.2.toList

/-! ## Parameters -/

theorem readPair_surround {pre post : List Char} (hpre : ∀ c ∈ pre, isWhitespace c = true)
    (hpost : ∀ c ∈ post, isWhitespace c = true) (pair : List Char) :
    readPair (pre ++ pair ++ post) = readPair pair := by
  have hcolon : ∀ {l : List Char}, (∀ c ∈ l, isWhitespace c = true) → ':' ∉ l :=
    fun hl hmem => absurd (hl ':' hmem) (by decide)
  rw [readPair, readPair, splitOnce_append_of_notMem (hcolon hpost), splitOnce_append (hcolon hpre)]
  cases splitOnce [':'] pair with
  | none => rfl
  | some r =>
    have hk : trim (pre ++ r.1) = trim r.1 := by
      simpa using trim_surround hpre (fun c hc => absurd hc (List.not_mem_nil (a := c))) r.1
    have hv : trim (r.2 ++ post) = trim r.2 := by
      simpa using trim_surround (fun c hc => absurd hc (List.not_mem_nil (a := c))) hpost r.2
    simp [hk, hv]

theorem readPair_trim (pair : List Char) : readPair (trim pair) = readPair pair := by
  obtain ⟨pre, post, hpre, hpost, hpair⟩ := exists_eq_surround pair
  have hread := readPair_surround hpre hpost (trim pair)
  rw [← hpair] at hread
  exact hread.symm

theorem insertPair_trim (params : BTreeMap String String) (pair : List Char) :
    insertPair params (trim pair) = insertPair params pair := by
  rw [insertPair, insertPair, readPair_trim]

theorem foldl_insertPair_trim (pairs : List (List Char)) (params : BTreeMap String String) :
    (pairs.map trim).foldl insertPair params = pairs.foldl insertPair params := by
  rw [List.foldl_map]
  exact congrArg (fun f => List.foldl f params pairs) (funext₂ insertPair_trim)

/-- A parameter as it is written. -/
def pairText (p : String × String) : List Char := (p.1 ++ ": " ++ p.2).toList

theorem readPair_pairText (h : InlineParam p) : readPair (pairText p) = some p := by
  have htext : pairText p = p.1.toList ++ ([':'] ++ ' ' :: p.2.toList) := by
    rw [pairText, String.toList_append, String.toList_append, List.append_assoc]
    rfl
  have hvalue : trim (' ' :: p.2.toList) = p.2.toList := by
    rw [trim_cons_blank (by decide), h.value.ends]
  rw [readPair, htext, splitOnce_append h.key_colon, splitOnce_self]
  simp [h.key.ends, hvalue]

theorem comma_not_mem_pairText (h : InlineParam p) : ',' ∉ pairText p := by
  rw [pairText, String.toList_append, String.toList_append]
  exact List.not_mem_append (List.not_mem_append h.key_comma (by decide)) h.value_comma

theorem foldl_insertPair_pairText {es : List (String × String)} (h : ∀ p ∈ es, InlineParam p)
    (params : BTreeMap String String) :
    (es.map pairText).foldl insertPair params = es.foldl (fun m e => m.insert e.1 e.2) params := by
  induction es generalizing params with
  | nil => rfl
  | cons e es ih =>
    have hinsert : insertPair params (pairText e) = params.insert e.1 e.2 := by
      rw [insertPair, readPair_pairText (h e List.mem_cons_self)]
    rw [List.map_cons, List.foldl_cons, List.foldl_cons, hinsert]
    exact ih (fun p hp => h p (List.mem_cons_of_mem _ hp)) _

theorem renderParams_toList (params : BTreeMap String String) :
    (renderParams params).toList = [',', ' '].intercalate (params.entries.map pairText) := by
  rw [renderParams, String.toList_intercalate, List.map_map]
  rfl

theorem insideBraces_inline (cs : List Char) :
    insideBraces ('\x7b' :: (' ' :: cs ++ [' '] ++ ['\x7d'])) = trim cs := by
  have hblank : ∀ c ∈ [' '], isWhitespace c = true := by
    intro c hc
    rw [List.mem_singleton.mp hc]
    rfl
  have hstart : trimStartMatches '\x7b' ('\x7b' :: (' ' :: cs ++ [' '] ++ ['\x7d'])) =
      ' ' :: cs ++ [' '] ++ ['\x7d'] := rfl
  rw [insideBraces, trim_between (by decide) (by decide), hstart, trimEndMatches_concat,
    trimEndMatches_concat_of_ne (by decide)]
  exact trim_surround hblank hblank cs

/-- An inline map is read as what its parts say, wherever there is white space around them. -/
theorem parseParams_inline (cs : List Char) :
    parseParams ('\x7b' :: (' ' :: cs ++ [' '] ++ ['\x7d'])) =
      ((split ',' cs).map trim).foldl insertPair .empty := by
  rw [parseParams_eq, insideBraces_inline, ← foldl_insertPair_trim, map_trim_split_trim (by decide)]

/-- The parameters of an inline map are found again, if each of them is. -/
theorem parseParams_renderParams {params : BTreeMap String String}
    (h : ∀ p ∈ params.entries, InlineParam p) :
    parseParams ('\x7b' :: (' ' :: (renderParams params).toList ++ [' '] ++ ['\x7d'])) = params := by
  rw [parseParams_inline, renderParams_toList]
  by_cases hnil : params.entries = []
  · have hempty : BTreeMap.ofList params.entries = params := BTreeMap.ofList_entries params
    rw [hnil] at hempty ⊢
    rw [← hempty]
    rfl
  · rw [map_trim_split_intercalate (by decide) (by decide) (by simpa using hnil), foldl_insertPair_trim,
      foldl_insertPair_pairText h]
    · exact BTreeMap.ofList_entries params
    · rw [List.forall_mem_map]
      exact fun p hp => comma_not_mem_pairText (h p hp)

/-- What is read of an inline map on one line is found again in one. -/
theorem inlineParam_of_mem_parseParams (h : '\n' ∉ raw) (hp : p ∈ (parseParams raw).entries) :
    InlineParam p := by
  obtain ⟨pair, hpair, hread⟩ := exists_readPair_of_mem hp
  have hunbroken := parseParams_unbroken h p hp
  have hcomma : ',' ∉ pair := notMem_of_mem_splitFrom hpair List.not_mem_nil
  refine ⟨⟨hunbroken.1, ?_⟩, ⟨hunbroken.2, ?_⟩, fun hmem => hcomma (mem_of_mem_readPair hread (.inl hmem)),
    ?_, fun hmem => hcomma (mem_of_mem_readPair hread (.inr hmem))⟩
  all_goals
    obtain ⟨⟨k, v⟩, hcut, rfl⟩ := Option.map_eq_some_iff.mp hread
    simp only [String.toList_ofList]
  · exact trim_trim k
  · exact trim_trim v
  · exact fun hmem => notMem_of_splitOnce hcut (mem_of_mem_trim hmem)

/-! ## Quoted and bare texts -/

theorem quotable_unquote (cs : List Char) : Quotable (unquote cs) := by
  have hstart : ∀ l : List Char, (trimStartMatches '\"' l).head? ≠ some '\"' := by
    intro l hhead
    have hnot := List.head?_dropWhile_not (· == '\"') l
    rw [trimStartMatches] at hhead
    simp [hhead] at hnot
  constructor
  · intro hhead
    obtain ⟨post, hpost⟩ : unquote cs <+: trimStartMatches '\"' (trim cs) := by
      rw [← List.reverse_suffix, unquote, trimEndMatches, List.reverse_reverse]
      exact List.dropWhile_suffix _
    refine hstart (trim cs) ?_
    rw [← hpost, List.head?_append, hhead]
    rfl
  · intro hlast
    rw [unquote, trimEndMatches, List.getLast?_reverse] at hlast
    exact hstart _ hlast

theorem unquote_quoted_iff : unquote ('\"' :: (s ++ ['\"'])) = s ↔ Quotable s :=
  ⟨fun h => h ▸ quotable_unquote _, unquote_quoted⟩

theorem length_unquote_le (cs : List Char) : (unquote cs).length ≤ (trim cs).length :=
  (length_trimEndMatches_le _ _).trans (length_trimStartMatches_le _ _)

/-- A quote in front is not part of what is read. -/
theorem length_unquote_quote (cs : List Char) : (unquote (trim ('\"' :: cs))).length ≤ cs.length := by
  have htrim : trim ('\"' :: cs) = '\"' :: trimEnd cs := by
    have hend : trim ('\"' :: cs) = trimEnd ([] ++ '\"' :: cs) := rfl
    rw [hend, trimEnd_append_cons (by decide), List.nil_append]
  have hquote : trimStartMatches '\"' ('\"' :: trimEnd cs) = trimStartMatches '\"' (trimEnd cs) := rfl
  have htwice : trim ('\"' :: trimEnd cs) = '\"' :: trimEnd cs := by rw [← htrim, trim_trim]
  rw [htrim, unquote, htwice, hquote]
  calc (trimEndMatches '\"' (trimStartMatches '\"' (trimEnd cs))).length
    _ ≤ (trimStartMatches '\"' (trimEnd cs)).length := length_trimEndMatches_le _ _
    _ ≤ (trimEnd cs).length := length_trimStartMatches_le _ _
    _ ≤ cs.length := length_trimEnd_le cs

theorem trim_trimEnd_blank (cs : List Char) : trim (trimEnd (' ' :: cs)) = trim cs := by
  rw [trim_trimEnd, trim_cons_blank (by decide)]

/-! ## Outcomes -/

/-- The parts of a text are joined by commas again, and what has been read of the first goes before
it. -/
theorem exists_splitTopLevel_eq (depth : Int) (inQuote : Bool) (cs : List Char) :
    ∃ p ps, (∀ acc, splitTopLevel depth inQuote acc cs = (acc.reverse ++ p) :: ps) ∧
      [','].intercalate (p :: ps) = cs := by
  induction cs generalizing depth inQuote with
  | nil => exact ⟨[], [], fun acc => by simp [splitTopLevel], rfl⟩
  | cons c cs ih =>
    have hpush : ∀ depth' inQuote', (∀ acc, splitTopLevel depth inQuote acc (c :: cs) =
        splitTopLevel depth' inQuote' (c :: acc) cs) →
        ∃ p ps, (∀ acc, splitTopLevel depth inQuote acc (c :: cs) = (acc.reverse ++ p) :: ps) ∧
          [','].intercalate (p :: ps) = c :: cs := by
      intro depth' inQuote' hstep
      obtain ⟨p, ps, hparts, hjoin⟩ := ih depth' inQuote'
      refine ⟨c :: p, ps, fun acc => ?_, ?_⟩
      · rw [hstep, hparts]
        simp
      · cases ps with
        | nil => simpa using hjoin
        | cons q ps =>
          rw [List.intercalate_cons_cons] at hjoin ⊢
          rw [← hjoin]
          rfl
    by_cases hquote : c = '\"'
    · exact hpush depth (!inQuote) fun acc => by rw [splitTopLevel, if_pos hquote]
    by_cases hopen : (c = '\x7b' ∨ c = '[') ∧ inQuote = false
    · exact hpush (depth + 1) inQuote fun acc => by
        rw [splitTopLevel, if_neg hquote, if_pos hopen]
    by_cases hclose : (c = '\x7d' ∨ c = ']') ∧ inQuote = false
    · exact hpush (depth - 1) inQuote fun acc => by
        rw [splitTopLevel, if_neg hquote, if_neg hopen, if_pos hclose]
    by_cases hcomma : c = ',' ∧ depth = 0 ∧ inQuote = false
    · obtain ⟨p, ps, hparts, hjoin⟩ := ih depth inQuote
      refine ⟨[], p :: ps, fun acc => ?_, ?_⟩
      · rw [splitTopLevel, if_neg hquote, if_neg hopen, if_neg hclose, if_pos hcomma, hparts]
        simp
      · rw [List.intercalate_cons_cons, hjoin, hcomma.1]
        rfl
    · exact hpush depth inQuote fun acc => by
        rw [splitTopLevel, if_neg hquote, if_neg hopen, if_neg hclose, if_neg hcomma]

/-- A quote at the end of a text is in its last part. -/
theorem length_splitTopLevel_concat_quote (depth : Int) (inQuote : Bool) (acc cs : List Char) :
    (splitTopLevel depth inQuote acc (cs ++ ['\"'])).length =
      (splitTopLevel depth inQuote acc cs).length := by
  induction cs generalizing depth inQuote acc with
  | nil => simp [splitTopLevel]
  | cons c cs ih =>
    simp only [List.cons_append, splitTopLevel]
    split_ifs
    all_goals first | exact ih .. | exact congrArg (· + 1) (ih ..)

variable {F : Rfc3339}

/-- An approver that is read from a part is shorter than the part by more than its key. -/
theorem OutcomeFields.length_approver {f f' : OutcomeFields} (h : f.read F part = some f') :
    f'.approver = f.approver ∨ f'.approver.toList.length + 9 ≤ part.length := by
  obtain ⟨⟨k, v⟩, hcut, rfl⟩ := Option.map_eq_some_iff.mp h
  have hpart := congrArg List.length (eq_append_of_splitOnce hcut)
  simp only [List.length_append, List.length_singleton] at hpart
  simp only
  split
  · exact .inl rfl
  · exact .inl rfl
  · exact .inl rfl
  · rename_i hkey
    have hk : (trim k).length = 8 := by
      rw [← String.toList_ofList (l := trim k), hkey]
      rfl
    have hklen := length_trim_le k
    have hvlen := (length_unquote_le (trim v)).trans ((length_trim_le _).trans (length_trim_le v))
    refine .inr ?_
    rw [String.toList_ofList]
    omega
  · exact .inl rfl

theorem OutcomeFields.length_approver_foldlM {parts : List (List Char)} {f f' : OutcomeFields}
    (h : parts.foldlM (OutcomeFields.read F) f = some f') : f'.approver = f.approver ∨
      ∃ part ∈ parts, f'.approver.toList.length + 9 ≤ part.length := by
  induction parts generalizing f with
  | nil =>
    cases h
    exact .inl rfl
  | cons part parts ih =>
    obtain ⟨g, hg, h⟩ := Option.bind_eq_some_iff.mp h
    rcases ih h with heq | ⟨p, hp, hle⟩
    · rw [heq]
      rcases OutcomeFields.length_approver hg with hsame | hle
      · exact .inl hsame
      · exact .inr ⟨part, List.mem_cons_self, hle⟩
    · exact .inr ⟨p, List.mem_cons_of_mem _ hp, hle⟩

/-- What is written of an outcome's own texts and time is read back. -/
structure Outcome.Fits (F : Rfc3339) (o : Outcome) : Prop where
  ts : F.ReadsBack o.ts
  approver : Quoted o.approver.toList
  unsplit : Unsplit o.approver.toList

section

variable (hF : F.Lawful)

include hF in
/-- An approver that is cut into parts is lost: what is read of it is shorter. -/
theorem Outcome.unsplit_of_parseOutcome {o : Outcome} (h : o.Written)
    (hparse : parseOutcome F (o.item F) = some o) : Unsplit o.approver.toList := by
  rw [parseOutcome_item_eq hF h, splitTopLevel_approverField] at hparse
  obtain ⟨f, hfold, hout⟩ := Option.bind_eq_some_iff.mp hparse
  have happrover : f.approver = o.approver := by
    obtain ⟨ts, -, hout⟩ := Option.bind_eq_some_iff.mp hout
    obtain ⟨result, -, hout⟩ := Option.bind_eq_some_iff.mp hout
    rw [← Option.some.inj hout]
  obtain ⟨p, ps, hparts, hjoin⟩ := exists_splitTopLevel_eq 0 true (o.approver.toList ++ ['\"'])
  rw [hparts] at hfold
  cases ps with
  | nil =>
    have hlength := length_splitTopLevel_concat_quote 0 true [] o.approver.toList
    rw [hparts] at hlength
    exact hlength.symm
  | cons q ps =>
    rw [List.intercalate_cons_cons] at hjoin
    have hrest : [','].intercalate (q :: ps) ≠ [] := by
      intro hnil
      rw [hnil, List.append_nil] at hjoin
      exact absurd (List.append_inj_right' hjoin rfl) (by decide)
    have hpos := List.length_pos_iff.mpr hrest
    have hjoined := congrArg List.length hjoin
    simp only [List.length_append, List.length_singleton] at hjoined
    have hle : ∀ part ∈ q :: ps, part.length ≤ ([','].intercalate (q :: ps)).length :=
      fun part hpart => length_le_intercalate hpart
    have hfirst : ('\"' :: " approver: ".toList.reverse).reverse ++ p =
        " approver: ".toList ++ '\"' :: p := by simp
    rw [hfirst, List.foldlM_cons, OutcomeFields.read_approver, Option.bind_eq_bind,
      Option.bind_some] at hfold
    rw [← happrover] at hjoined
    rcases OutcomeFields.length_approver_foldlM hfold with hsame | ⟨part, hpart, hlen⟩
    · have hlen := length_unquote_quote p
      rw [← trim_cons_blank (a := ' ') (by decide) ('\"' :: p)] at hlen
      rw [hsame, String.toList_ofList] at hjoined
      omega
    · have hpartLen := hle part hpart
      omega

include hF in
theorem Outcome.parseOutcome_item_iff {o : Outcome} (h : o.Written) :
    parseOutcome F (o.item F) = some o ↔
      F.ReadsBack o.ts ∧ Quotable o.approver.toList ∧ Unsplit o.approver.toList := by
  constructor
  · intro hparse
    have hunsplit := unsplit_of_parseOutcome hF h hparse
    rw [parseOutcome_item_of_unsplit hF h hunsplit] at hparse
    obtain ⟨ts, hts, ho⟩ := Option.map_eq_some_iff.mp hparse
    have htime : ts = o.ts := congrArg Outcome.ts ho
    have happrover := congrArg (fun o : Outcome => o.approver.toList) ho
    simp only [String.toList_ofList] at happrover
    exact ⟨htime ▸ hts, unquote_quoted_iff.mp happrover, hunsplit⟩
  · rintro ⟨hts, hquotable, hunsplit⟩
    rw [parseOutcome_item_of_unsplit hF h hunsplit, hts, unquote_quoted hquotable,
      String.ofList_toList]
    rfl

/-! ## Entries -/

/-- Whenever the entry is read from its file, all of it is there, and its body has a final newline. -/
def Entry.Survives (F : Rfc3339) (e : Entry) : Prop :=
  ∀ now, fromMarkdown F now (e.toMarkdown F) = some { e with body := .ofList e.bodyText }

/-- The texts of an entry keep clear of the delimiters around them. -/
structure Entry.Fits (F : Rfc3339) (e : Entry) : Prop where
  signature : Quoted e.faultSignature.toList
  template : Bare e.templateUsed.toList
  params : ∀ p ∈ e.params.entries, InlineParam p
  outcomes : ∀ o ∈ e.outcomes, o.Fits F
  lastSeen : F.ReadsBack e.lastSeen

theorem Bare.getLast?_ne {s : List Char} (h : Bare s) : s.getLast? ≠ some '\r' := by
  intro hlast
  rw [← h.ends] at hlast
  exact absurd (isWhitespace_getLast?_trim hlast) (by decide)

theorem Entry.Fits.unbroken {e : Entry} (h : e.Fits F) (hwritten : ∀ o ∈ e.outcomes, o.Written) :
    e.Unbroken where
  signature := h.signature.line
  template := h.template.line
  template_end := h.template.getLast?_ne
  params p hp := ⟨(h.params p hp).key.line, (h.params p hp).value.line⟩
  outcomes o ho := by
    refine ⟨?_, (h.outcomes o ho).approver.line⟩
    obtain ⟨status, hstatus⟩ := (hwritten o ho).result
    rw [hstatus]
    cases status <;> decide

include hF in
/-- What is read of an unbroken entry is the entry exactly if its texts fit. -/
theorem Entry.reread_eq_iff {e : Entry} (hunbroken : e.Unbroken)
    (hwritten : ∀ o ∈ e.outcomes, o.Written) :
    (∀ now, e.reread F now = { e with body := .ofList e.bodyText }) ↔ e.Fits F := by
  constructor
  · intro h
    have hsignature := congrArg (fun e : Entry => e.faultSignature.toList) (h e.lastSeen)
    have htemplate := congrArg (fun e : Entry => e.templateUsed.toList) (h e.lastSeen)
    have hparams := congrArg Entry.params (h e.lastSeen)
    have houtcomes := congrArg Entry.outcomes (h e.lastSeen)
    have hlastSeen := congrArg Entry.lastSeen (h ⟨e.lastSeen.nanos + 1⟩)
    simp only [reread, String.toList_ofList] at hsignature htemplate hparams houtcomes hlastSeen
    have hinline : '\n' ∉ '\x7b' :: (' ' :: (renderParams e.params).toList ++ [' '] ++ ['\x7d']) := by
      simp [newline_not_mem_renderParams hunbroken.params]
    refine ⟨⟨hunbroken.signature, unquote_quoted_iff.mp hsignature⟩, ⟨hunbroken.template, ?_⟩, ?_, ?_,
      ?_⟩
    · rw [trim_trimEnd_blank] at htemplate
      exact htemplate
    · intro p hp
      rw [← hparams] at hp
      exact inlineParam_of_mem_parseParams hinline hp
    · intro o ho
      have hsame := List.filterMap_eq_map_iff_forall_eq_some.mp
        (houtcomes.trans (List.map_id' e.outcomes).symm) o ho
      obtain ⟨hts, hquotable, hunsplit⟩ :=
        (Outcome.parseOutcome_item_iff hF (hwritten o ho)).mp hsame
      exact ⟨hts, ⟨(hunbroken.outcomes o ho).2, hquotable⟩, hunsplit⟩
    · -- a time that is not read back is taken from the clock, which may show any other
      rw [Rfc3339.ReadsBack]
      cases hparse : F.parseFromRfc3339 (F.toRfc3339 e.lastSeen).toList with
      | none =>
        rw [hparse, Option.getD_none] at hlastSeen
        have hnanos := congrArg DateTime.nanos hlastSeen
        simp only at hnanos
        omega
      | some t =>
        rw [hparse, Option.getD_some] at hlastSeen
        rw [hlastSeen]
  · intro h now
    have hsame : ∀ o ∈ e.outcomes, parseOutcome F (o.item F) = some o := fun o ho =>
      (Outcome.parseOutcome_item_iff hF (hwritten o ho)).mpr
        ⟨(h.outcomes o ho).ts, (h.outcomes o ho).approver.quotable, (h.outcomes o ho).unsplit⟩
    have houtcomes : (e.outcomes.filterMap fun o => parseOutcome F (o.item F)) = e.outcomes :=
      (List.filterMap_eq_map_iff_forall_eq_some.mpr hsame).trans (List.map_id' e.outcomes)
    have hlastSeen : F.parseFromRfc3339 (F.toRfc3339 e.lastSeen).toList = some e.lastSeen :=
      h.lastSeen
    simp only [reread, unquote_quoted h.signature.quotable, trim_trimEnd_blank, h.template.ends,
      parseParams_renderParams h.params, houtcomes, hlastSeen, Option.getD_some,
      String.ofList_toList]

include hF in
/-- An entry is read as it was stored exactly if its texts fit. -/
theorem Entry.survives_iff {e : Entry} (hwritten : ∀ o ∈ e.outcomes, o.Written) :
    e.Survives F ↔ e.Fits F := by
  constructor
  · intro h
    have hunbroken : e.Unbroken := by
      have hread := fromMarkdown_unbroken (h e.lastSeen)
      exact ⟨hread.signature, hread.template, hread.template_end, hread.params, hread.outcomes⟩
    refine (reread_eq_iff hF hunbroken hwritten).mp fun now => ?_
    exact Option.some.inj ((fromMarkdown_toMarkdown hF hunbroken now).symm.trans (h now))
  · intro h now
    have hunbroken := h.unbroken hwritten
    rw [fromMarkdown_toMarkdown hF hunbroken, (reread_eq_iff hF hunbroken hwritten).mpr h]

end

end Knowledge

open Knowledge

variable {F : Rfc3339}

/-! ## Calls -/

namespace KbCall

/-- The texts that an outcome brings into the entry fit; a gap brings none. -/
def TextsFit : KbCall → Prop
  | outcome _ proposal _ _ approver _ =>
    ('\n' ∉ proposal.templateId.toList ∧
      ∀ c ∈ proposal.templateId.toList.head?, isWhitespace c = false) ∧
    (∀ p ∈ proposal.params.entries, InlineParam p) ∧
    Quoted approver.toList ∧ Unsplit approver.toList
  | gap _ _ => True

/-- What a call brings into the entry fits, and its signature does if there is no file yet. -/
structure Fits (F : Rfc3339) (found : Bool) (c : KbCall) : Prop where
  signature : found = false → Quoted c.signature.toList
  now : F.ReadsBack c.now
  texts : c.TextsFit

theorem bare_templateRef_iff {id : String} (version : UInt32) :
    Bare (id ++ "@" ++ toString version.toNat).toList ↔
      '\n' ∉ id.toList ∧ ∀ c ∈ id.toList.head?, isWhitespace c = false := by
  have htext : (id ++ "@" ++ toString version.toNat).toList =
      id.toList ++ '@' :: (toString version.toNat).toList := by
    simp only [String.toList_append, List.append_assoc]
    rfl
  constructor
  · intro h
    have hline := h.line
    rw [htext] at hline
    refine ⟨fun hmem => hline (List.mem_append_left _ hmem), fun c hc => ?_⟩
    have hends := h.ends
    rw [htext] at hends
    obtain ⟨cs, hid⟩ := List.head?_eq_some_iff.mp (Option.mem_def.mp hc)
    rw [hid] at hends
    by_contra hwhite
    have hblank : isWhitespace c = true := by simpa using hwhite
    have hlength := congrArg List.length hends
    rw [List.cons_append, trim_cons_blank hblank, List.length_cons] at hlength
    have hle := length_trim_le (cs ++ '@' :: (toString version.toNat).toList)
    omega
  · rintro ⟨hline, hhead⟩
    refine ⟨(templateRef_unbroken hline version).1, ?_⟩
    obtain ⟨init, last, hdigits⟩ : ∃ init last, (toString version.toNat).toList = init ++ [last] := by
      obtain hnil | ⟨init, last, h⟩ := (toString version.toNat).toList.eq_nil_or_concat
      · exact absurd hnil (toString_ne_nil _)
      · exact ⟨init, last, h.trans List.concat_eq_append⟩
    have hlast : isWhitespace last = false :=
      isWhitespace_of_isDigit (isDigit_of_mem_toString (n := version.toNat) (hdigits ▸ by simp))
    rw [htext, hdigits]
    cases hid : id.toList with
    | nil => exact trim_between (by decide) hlast init
    | cons c cs =>
      have hc : isWhitespace c = false := hhead c (by rw [hid]; rfl)
      simpa using trim_between hc hlast (cs ++ '@' :: init)

theorem revise_written (c : KbCall) {loaded : Option Entry}
    (h : ∀ e ∈ loaded, ∀ o ∈ e.outcomes, o.Written) : ∀ o ∈ (c.revise loaded).outcomes, o.Written := by
  intro o ho
  rw [revise_outcomes] at ho
  rcases List.mem_append.mp ho with ho | ho
  · cases loaded with
    | none => cases ho
    | some e => exact h e rfl o ho
  · cases c with
    | outcome signature proposal status ttrS approver now =>
      cases List.mem_singleton.mp ho
      refine ⟨⟨status, rfl⟩, fun v hv => ?_⟩
      obtain ⟨n, -, rfl⟩ := Option.map_eq_some_iff.mp hv
      exact ⟨n.le_toInt, n.toInt_lt⟩
    | gap => cases ho

theorem revise_signature_iff (c : KbCall) {loaded : Option Entry} (h : ∀ e ∈ loaded, e.Fits F) :
    Quoted (c.revise loaded).faultSignature.toList ↔
      (loaded.isSome = false → Quoted c.signature.toList) := by
  rw [revise_faultSignature]
  cases loaded with
  | none => exact ⟨fun hquoted _ => hquoted, fun hquoted => hquoted rfl⟩
  | some e => exact iff_of_true (h e rfl).signature nofun

@[simp] theorem revise_lastSeen (c : KbCall) (loaded : Option Entry) :
    (c.revise loaded).lastSeen = c.now := by
  cases c <;> rfl

/-- The template, the parameters and the outcomes of an entry fit exactly if those do that the call
brings in. -/
theorem revise_texts_iff (c : KbCall) {loaded : Option Entry} (h : ∀ e ∈ loaded, e.Fits F)
    (hnow : F.ReadsBack c.now) :
    (Bare (c.revise loaded).templateUsed.toList ∧
      (∀ p ∈ (c.revise loaded).params.entries, InlineParam p) ∧
      ∀ o ∈ (c.revise loaded).outcomes, o.Fits F) ↔ c.TextsFit := by
  have hold : ∀ o ∈ (loaded.map Entry.outcomes).getD [], o.Fits F := by
    cases loaded with
    | none => exact fun o ho => absurd ho List.not_mem_nil
    | some e => exact (h e rfl).outcomes
  rw [revise_outcomes, List.forall_mem_append, and_iff_right hold]
  cases c with
  | outcome signature proposal status ttrS approver now =>
    have hnew : (∀ o ∈ (recorded (.outcome signature proposal status ttrS approver now)).toList,
        o.Fits F) ↔ Quoted approver.toList ∧ Unsplit approver.toList := by
      simp only [recorded, Option.toList_some, List.mem_singleton, forall_eq]
      exact ⟨fun ho => ⟨ho.approver, ho.unsplit⟩, fun ho => ⟨hnow, ho.1, ho.2⟩⟩
    rw [hnew]
    exact and_congr_left' (bare_templateRef_iff proposal.templateVersion)
  | gap event now =>
    refine iff_of_true ⟨?_, ?_, fun o ho => absurd ho List.not_mem_nil⟩ trivial
    · have hgap : Bare "gap".toList := ⟨by decide, by decide⟩
      simp only [revise]
      split
      · exact hgap
      · cases loaded with
        | none => exact hgap
        | some e => exact (h e rfl).template
    · cases loaded with
      | none => exact fun p hp => absurd hp List.not_mem_nil
      | some e => exact (h e rfl).params

/-- An entry that a call builds on one that fits does so exactly if the call does. -/
theorem revise_fits_iff (c : KbCall) {loaded : Option Entry} (h : ∀ e ∈ loaded, e.Fits F) :
    (c.revise loaded).Fits F ↔ c.Fits F loaded.isSome := by
  constructor
  · intro hfits
    have hnow : F.ReadsBack c.now := revise_lastSeen c loaded ▸ hfits.lastSeen
    exact ⟨(revise_signature_iff c h).mp hfits.signature, hnow,
      (revise_texts_iff c h hnow).mp ⟨hfits.template, hfits.params, hfits.outcomes⟩⟩
  · intro hfits
    obtain ⟨htemplate, hparams, houtcomes⟩ := (revise_texts_iff c h hfits.now).mpr hfits.texts
    exact ⟨(revise_signature_iff c h).mpr hfits.signature, htemplate, hparams, houtcomes,
      (revise_lastSeen c loaded).symm ▸ hfits.now⟩

end KbCall

/-! ## Runs -/

namespace KnowledgeBase

/-- There is a file that a signature is looked up in. -/
def hasFile (kb : KnowledgeBase) (signature : String) : Bool :=
  (kb.dir.bind fun dir => dir (slug signature)).isSome

/-- The entries that calls build, one after another. -/
def built (F : Rfc3339) : KnowledgeBase → List KbStep → List Entry
  | _, [] => []
  | kb, step :: steps =>
    step.call.revise (kb.load F step.call.now step.call.signature) ::
      built F (kb.perform F step) steps

/-- The texts of each call fit the directory that it finds. -/
def CallsFit (F : Rfc3339) : KnowledgeBase → List KbStep → Prop
  | _, [] => True
  | kb, step :: steps =>
    step.call.Fits F (kb.hasFile step.call.signature) ∧ CallsFit F (kb.perform F step) steps

/-- Every file is of an entry that is read back. -/
def Legible (F : Rfc3339) (dir : String → Option String) : Prop :=
  ∀ stem text, dir stem = some text →
    ∃ e : Entry, text = e.toMarkdown F ∧ e.Fits F ∧ ∀ o ∈ e.outcomes, o.Written

section

variable (hF : F.Lawful) {dir : String → Option String}

include hF in
theorem Legible.load (h : Legible F dir) (now : DateTime) (signature : String) :
    ((⟨some dir⟩ : KnowledgeBase).load F now signature).isSome =
        (⟨some dir⟩ : KnowledgeBase).hasFile signature ∧
      ∀ e ∈ (⟨some dir⟩ : KnowledgeBase).load F now signature,
        e.Fits F ∧ ∀ o ∈ e.outcomes, o.Written := by
  rw [load_eq, hasFile, Option.bind_some]
  cases hfile : dir (slug signature) with
  | none => exact ⟨rfl, fun e he => nomatch he⟩
  | some text =>
    obtain ⟨e, rfl, hfits, hwritten⟩ := h _ text hfile
    have hsurvives := (Entry.survives_iff hF hwritten).mpr hfits
    rw [Option.bind_some, hsurvives now]
    refine ⟨rfl, fun e' he' => ?_⟩
    rw [← Option.some.inj he']
    exact ⟨⟨hfits.signature, hfits.template, hfits.params, hfits.outcomes, hfits.lastSeen⟩, hwritten⟩

theorem Legible.store (h : Legible F dir) {e : Entry} (hfits : e.Fits F)
    (hwritten : ∀ o ∈ e.outcomes, o.Written) (written : Bool) :
    ∃ dir', (⟨some dir⟩ : KnowledgeBase).store F written e = ⟨some dir'⟩ ∧ Legible F dir' := by
  cases written with
  | false => exact ⟨dir, rfl, h⟩
  | true =>
    refine ⟨_, store_eq dir e, fun stem text htext => ?_⟩
    beta_reduce at htext
    split at htext
    · exact ⟨e, (Option.some.inj htext).symm, hfits, hwritten⟩
    · exact h stem text htext

include hF in
/-- Calls on legible files build entries that survive exactly if each call fits. -/
theorem Legible.survives_iff (h : Legible F dir) (steps : List KbStep) :
    (∀ e ∈ built F ⟨some dir⟩ steps, e.Survives F) ↔ CallsFit F ⟨some dir⟩ steps := by
  induction steps generalizing dir with
  | nil => exact iff_of_true (fun e he => absurd he List.not_mem_nil) trivial
  | cons step steps ih =>
    obtain ⟨hfound, hloaded⟩ := h.load hF step.call.now step.call.signature
    have hwritten := step.call.revise_written fun e he => (hloaded e he).2
    have hfirst : (step.call.revise ((⟨some dir⟩ : KnowledgeBase).load F step.call.now
        step.call.signature)).Survives F ↔
        step.call.Fits F ((⟨some dir⟩ : KnowledgeBase).hasFile step.call.signature) := by
      rw [Entry.survives_iff hF hwritten, KbCall.revise_fits_iff _ fun e he => (hloaded e he).1,
        hfound]
    rw [built, List.forall_mem_cons, CallsFit, hfirst]
    refine and_congr_right fun hfits => ?_
    have hentry := (Entry.survives_iff hF hwritten).mp (hfirst.mpr hfits)
    obtain ⟨dir', hdir, hlegible⟩ := h.store hentry hwritten step.written
    rw [perform_eq]
    rw [load_eq] at hdir
    rw [hdir]
    exact ih hlegible

end

/-- Every entry that calls build from an empty directory on is read back exactly if the texts of every
call fit. -/
theorem knowledge_survives_iff (hF : F.Lawful) (steps : List KbStep) :
    (∀ e ∈ built F ⟨some fun _ => none⟩ steps, e.Survives F) ↔
      CallsFit F ⟨some fun _ => none⟩ steps := by
  have hempty : Legible F fun _ => none := fun stem text htext => nomatch htext
  exact hempty.survives_iff hF steps

/-- Restores a file of the configuration. -/
def sampleRestore (path : String) : RemediationProposal where
  id := ⟨5⟩
  eventId := ⟨11⟩
  agentId := ⟨⟨2⟩⟩
  host := "web-1"
  templateId := "config-restore"
  templateVersion := 3
  riskTier := .safe
  params := BTreeMap.empty.insert "path" path
  rationale := "the file has changed"
  createdAt := Platform.noon

def sampleRestored (path : String) : KbStep :=
  ⟨.outcome "ConfigDrift:/etc/app.conf:drift" (sampleRestore path) .succeeded (some 8) "olaf"
    Platform.noon, true⟩

theorem built_sampleRestored (path : String) :
    built .sample ⟨some fun _ => none⟩ [sampleRestored path] =
      [(sampleRestored path).call.revise none] := rfl

theorem sampleRestored_fits (h : InlineParam ("path", path)) :
    CallsFit .sample ⟨some fun _ => none⟩ [sampleRestored path] := by
  have hsignature : Quoted "ConfigDrift:/etc/app.conf:drift".toList := ⟨by decide, by decide⟩
  have happrover : Quoted "olaf".toList := ⟨by decide, by decide⟩
  have htemplate : '\n' ∉ "config-restore".toList ∧
      ∀ c ∈ "config-restore".toList.head?, isWhitespace c = false := by
    refine ⟨by decide, fun c hc => ?_⟩
    have hhead : "config-restore".toList.head? = some 'c' := by decide
    rw [hhead] at hc
    cases hc
    rfl
  have hnow : Rfc3339.sample.ReadsBack Platform.noon :=
    Rfc3339.sample_lawful.parse _ ⟨by decide, by decide⟩
  have hunsplit : Unsplit "olaf".toList := by decide
  refine ⟨⟨fun _ => hsignature, hnow, htemplate, fun p hp => ?_, happrover, hunsplit⟩, trivial⟩
  rw [List.mem_singleton.mp hp]
  exact h

theorem knowledge_survives_iff_sample :
    ∃ e, built .sample ⟨some fun _ => none⟩ [sampleRestored "/etc/app.conf"] = [e] ∧
      e.Survives .sample := by
  have hparam : InlineParam ("path", "/etc/app.conf") :=
    ⟨⟨by decide, by decide⟩, ⟨by decide, by decide⟩, by decide, by decide, by decide⟩
  have hsurvive := (knowledge_survives_iff Rfc3339.sample_lawful _).mpr (sampleRestored_fits hparam)
  rw [built_sampleRestored] at hsurvive ⊢
  exact ⟨_, rfl, hsurvive _ (List.mem_singleton_self _)⟩

/-- What follows a comma in a parameter is lost. -/
theorem parameter_lost_after_comma :
    ∃ e ∈ built .sample ⟨some fun _ => none⟩ [sampleRestored "/etc/app,v2.conf"],
      ¬e.Survives .sample ∧ e.params.get "path" = some "/etc/app,v2.conf" ∧
        ∀ now, (Entry.fromMarkdown .sample now (e.toMarkdown .sample)).map
          (fun e => e.params.get "path") = some (some "/etc/app") := by
  have hnone : ∀ {P : Entry → Prop}, ∀ e ∈ (none : Option Entry), P e := fun e he => nomatch he
  rw [built_sampleRestored]
  refine ⟨_, List.mem_singleton_self _, fun h => ?_, by decide, fun now => ?_⟩
  · have hfits := (Entry.survives_iff Rfc3339.sample_lawful (KbCall.revise_written _ hnone)).mp h
    exact absurd (hfits.params ("path", "/etc/app,v2.conf") (by decide)).value_comma (by decide)
  · have hparams : ParamsUnbroken (sampleRestore "/etc/app,v2.conf").params := by
      intro p hp
      rw [List.mem_singleton.mp hp]
      decide
    have hunbroken : KbCall.Unbroken (sampleRestored "/etc/app,v2.conf").call :=
      ⟨by decide, by decide, hparams, by decide⟩
    rw [Entry.fromMarkdown_toMarkdown Rfc3339.sample_lawful (KbCall.revise_unbroken hunbroken hnone)]
    simp only [Entry.reread, Option.map_some]
    decide

end KnowledgeBase

end Ravn
