import Ravn.Crypto.Envelope
import Ravn.Server.Knowledge
import Ravn.Theory.Lines
import Mathlib.Data.List.Induction

/-! The files of the knowledge base, read back. Nothing is escaped in the front matter: an entry is
read as `Entry.reread` as long as each of its lines is one line, and it keeps its fault signature and
its outcomes as long as no quote is taken for a delimiter. -/

namespace Ravn

open Theory

/-- The times that have a text in RFC 3339: those of the years 0 to 9999. -/
def DateTime.HasText (t : DateTime) : Prop :=
  -62167219200000000000 ≤ t.nanos ∧ t.nanos < 253402300800000000000

/-- A text without white space and without the characters that structure the front matter. -/
def IsWord (s : List Char) : Prop :=
  ∀ c ∈ s, isWhitespace c = false ∧ c ∉ [',', '\"', '\x7b', '\x7d', '[', ']']

instance : Decidable (IsWord s) := List.decidableBAll _ s

/-- What the front matter relies on in the texts of chrono. -/
structure Rfc3339.Lawful (F : Rfc3339) : Prop where
  word : ∀ t, IsWord (F.toRfc3339 t).toList
  parse : ∀ t : DateTime, t.HasText → F.parseFromRfc3339 (F.toRfc3339 t).toList = some t

/-- The texts of the two times that occur in runs, and others for the rest. -/
def Rfc3339.sample : Rfc3339 where
  toRfc3339 t :=
    if t = Platform.noon then "2026-06-05T12:00:00+00:00"
    else if t = Platform.fivePastNoon then "2026-06-05T12:05:00+00:00"
    else Platform.sampleRfc3339 t
  parseFromRfc3339 cs :=
    if cs = "2026-06-05T12:00:00+00:00".toList then some Platform.noon
    else if cs = "2026-06-05T12:05:00+00:00".toList then some Platform.fivePastNoon
    else Platform.sampleParseTime (String.ofList cs)

theorem Rfc3339.sample_cases (t : DateTime) :
    t = Platform.noon ∧ sample.toRfc3339 t = "2026-06-05T12:00:00+00:00" ∨
      t = Platform.fivePastNoon ∧ sample.toRfc3339 t = "2026-06-05T12:05:00+00:00" ∨
      sample.toRfc3339 t = Platform.sampleRfc3339 t ∧
        Platform.sampleRfc3339 t = String.ofList ('@' :: (Json.num t.nanos).print) := by
  by_cases hnoon : t = Platform.noon
  · exact .inl ⟨hnoon, if_pos hnoon⟩
  · by_cases hfive : t = Platform.fivePastNoon
    · exact .inr (.inl ⟨hfive, (if_neg hnoon).trans (if_pos hfive)⟩)
    · refine .inr (.inr ⟨(if_neg hnoon).trans (if_neg hfive), ?_⟩)
      simp [Platform.sampleRfc3339, hnoon, hfive]

theorem Rfc3339.sample_lawful : sample.Lawful where
  word := by
    intro t c hc
    obtain ⟨-, h⟩ | ⟨-, h⟩ | ⟨h, htext⟩ := sample_cases t
    · exact (by decide : IsWord "2026-06-05T12:00:00+00:00".toList) c (h ▸ hc)
    · exact (by decide : IsWord "2026-06-05T12:05:00+00:00".toList) c (h ▸ hc)
    · have hdigit : ∀ c : Char, c.isDigit = true →
          isWhitespace c = false ∧ c ∉ [',', '\"', '\x7b', '\x7d', '[', ']'] := by
        intro c hc
        refine ⟨isWhitespace_of_isDigit hc, ?_⟩
        simp only [List.mem_cons, List.not_mem_nil, or_false]
        rintro (rfl | rfl | rfl | rfl | rfl | rfl) <;> exact absurd hc (by decide)
      rw [h, htext, String.toList_ofList] at hc
      rcases List.mem_cons.mp hc with rfl | hc
      · decide
      · obtain ⟨n | n⟩ := t
        · exact hdigit c (Json.isDigit_of_mem_printNat hc)
        · rcases List.mem_cons.mp hc with rfl | hc
          · decide
          · exact hdigit c (Json.isDigit_of_mem_printNat hc)
  parse := by
    intro t _
    obtain ⟨rfl, h⟩ | ⟨rfl, h⟩ | ⟨h, htext⟩ := sample_cases t
    · rw [h]
      rfl
    · rw [h]
      rfl
    · have hne : ∀ s : String, s.toList.head? ≠ some '@' →
          (Platform.sampleRfc3339 t).toList ≠ s.toList := by
        intro s hs heq
        rw [htext, String.toList_ofList] at heq
        exact hs (heq ▸ rfl)
      rw [h]
      simp only [sample]
      rw [if_neg (hne _ (by decide)), if_neg (hne _ (by decide)), String.ofList_toList,
        Platform.sampleParseTime_sampleRfc3339]

theorem Rfc3339.Lawful.newline_not_mem {F : Rfc3339} (hF : F.Lawful) (t : DateTime) :
    '\n' ∉ (F.toRfc3339 t).toList :=
  fun h => absurd (hF.word t _ h).1 (by decide)

namespace Knowledge

variable (F : Rfc3339)

/-! ## The lines of a file -/

def ttrText : Option Int → String
  | some v => toString v
  | none => "null"

/-- The fields of an outcome, between the braces. -/
def Outcome.fields (o : Outcome) : List Char :=
  "ts: ".toList ++ (F.toRfc3339 o.ts).toList ++ ", result: ".toList ++ o.result.toList ++
    ", ttr_s: ".toList ++ (ttrText o.ttrS).toList ++ ", approver: \"".toList ++
    o.approver.toList ++ ['\"']

/-- An outcome as it stands after the hyphen. -/
def Outcome.item (o : Outcome) : List Char := '\x7b' :: (' ' :: o.fields F ++ [' '] ++ ['\x7d'])

/-- The front matter of an entry. -/
def Entry.frontLines (e : Entry) : List (List Char) :=
  ("fault_signature:".toList ++ ' ' :: '\"' :: (e.faultSignature.toList ++ ['\"'])) ::
  ("template_used:".toList ++ ' ' :: e.templateUsed.toList) ::
  ("params:".toList ++ ' ' :: '\x7b' :: (' ' :: (renderParams e.params).toList ++ [' '] ++ ['\x7d'])) ::
  ((if e.outcomes.isEmpty then ["outcomes: []".toList]
    else "outcomes:".toList :: e.outcomes.map fun o => "  - ".toList ++ o.item F) ++
  ["occurrences:".toList ++ ' ' :: (toString e.occurrences.toNat).toList,
    "last_seen:".toList ++ ' ' :: (F.toRfc3339 e.lastSeen).toList])

def Entry.bodyText (e : Entry) : List Char :=
  e.body.toList ++ (if e.body.endsWith "\n" then [] else ['\n'])

theorem Outcome.render_eq (o : Outcome) :
    o.render F = "  - \x7b ts: " ++ F.toRfc3339 o.ts ++ ", result: " ++ o.result ++ ", ttr_s: " ++
      ttrText o.ttrS ++ ", approver: \"" ++ o.approver ++ "\" \x7d\n" := by
  unfold render ttrText
  cases o.ttrS with
  | none => exact rfl
  | some v => exact rfl

theorem Outcome.render_toList (o : Outcome) :
    (o.render F).toList = "  - ".toList ++ o.item F ++ ['\n'] := by
  have hopen : "  - \x7b ts: ".toList = "  - ".toList ++ ['\x7b', ' '] ++ "ts: ".toList := rfl
  have hclose : "\" \x7d\n".toList = ['\"', ' ', '\x7d', '\n'] := rfl
  rw [render_eq]
  unfold item fields
  simp only [String.toList_append]
  rw [hopen, hclose]
  simp only [List.append_assoc, List.cons_append, List.nil_append]

theorem Entry.toMarkdown_toList (e : Entry) :
    (e.toMarkdown F).toList =
      "---\n".toList ++ (unlines (e.frontLines F) ++ ("---".toList ++ '\n' :: e.bodyText)) := by
  have hsignature : "fault_signature: \"".toList = "fault_signature:".toList ++ [' ', '\"'] := rfl
  have hquote : "\"\n".toList = ['\"', '\n'] := rfl
  have htemplate : "template_used: ".toList = "template_used:".toList ++ [' '] := rfl
  have hparams : "params: \x7b ".toList = "params:".toList ++ [' ', '\x7b', ' '] := rfl
  have hbrace : " \x7d\n".toList = [' ', '\x7d', '\n'] := rfl
  have hoccurrences : "occurrences: ".toList = "occurrences:".toList ++ [' '] := rfl
  have hlastSeen : "last_seen: ".toList = "last_seen:".toList ++ [' '] := rfl
  have hnewline : "\n".toList = ['\n'] := rfl
  have hclose : "---\n".toList = "---".toList ++ ['\n'] := rfl
  have hitems : (String.join (e.outcomes.map (Outcome.render F))).toList =
      unlines (e.outcomes.map fun o => "  - ".toList ++ o.item F) := by
    rw [String.toList_join, List.flatMap_map, unlines, List.flatMap_map]
    simp only [Outcome.render_toList]
  have hlists : (if e.outcomes.isEmpty then "outcomes: []\n"
      else "outcomes:\n" ++ String.join (e.outcomes.map (Outcome.render F))).toList =
      unlines (if e.outcomes.isEmpty then ["outcomes: []".toList]
        else "outcomes:".toList :: e.outcomes.map fun o => "  - ".toList ++ o.item F) := by
    split
    · rfl
    · rw [String.toList_append, hitems]
      rfl
  have hbody : (if e.body.endsWith "\n" then "" else "\n").toList =
      if e.body.endsWith "\n" then [] else ['\n'] := by
    split <;> rfl
  unfold toMarkdown frontLines bodyText
  simp only [String.toList_append]
  rw [hlists, hbody, hsignature, hquote, htemplate, hparams, hbrace, hoccurrences, hlastSeen,
    hnewline, hclose]
  simp only [unlines, List.flatMap_cons, List.flatMap_append, List.flatMap_nil, List.append_assoc,
    List.cons_append, List.nil_append]

/-- What is read of the file of an entry at some time. -/
def Entry.reread (now : DateTime) (e : Entry) : Entry where
  faultSignature := .ofList (unquote ('\"' :: (e.faultSignature.toList ++ ['\"'])))
  templateUsed := .ofList (trim (trimEnd (' ' :: e.templateUsed.toList)))
  params := parseParams ('\x7b' :: (' ' :: (renderParams e.params).toList ++ [' '] ++ ['\x7d']))
  outcomes := e.outcomes.filterMap fun o => parseOutcome F (o.item F)
  occurrences := e.occurrences
  lastSeen := (F.parseFromRfc3339 (F.toRfc3339 e.lastSeen).toList).getD now
  body := .ofList e.bodyText

/-- Parameters without line feeds. -/
def ParamsUnbroken (params : BTreeMap String String) : Prop :=
  ∀ p ∈ params.entries, '\n' ∉ p.1.toList ∧ '\n' ∉ p.2.toList

/-- Each line of the front matter is one line. -/
structure Entry.Unbroken (e : Entry) : Prop where
  signature : '\n' ∉ e.faultSignature.toList
  template : '\n' ∉ e.templateUsed.toList
  template_end : e.templateUsed.toList.getLast? ≠ some '\r'
  params : ParamsUnbroken e.params
  outcomes : ∀ o ∈ e.outcomes, '\n' ∉ o.result.toList ∧ '\n' ∉ o.approver.toList

variable {F} (hF : F.Lawful)

theorem newline_not_mem_ttrText (ttrS : Option Int) : '\n' ∉ (ttrText ttrS).toList := by
  cases ttrS with
  | none => decide
  | some v =>
    intro h
    rcases mem_toString_int h with h | h <;> revert h <;> decide

/-! ## Reading the lines -/

section

variable {inItems : Bool} {e : Entry} {line : List Char} {rest : List (List Char)}

theorem readFront_key (h : stripPrefix "- ".toList (trimStart line) = none) :
    readFront F inItems e (line :: rest) =
      readFront F (Knowledge.readLine F e line).2 (Knowledge.readLine F e line).1 rest := by
  rw [readFront, h, ite_self]

theorem readFront_faultSignature (v : List Char) :
    readFront F inItems e (("fault_signature:".toList ++ v) :: rest) =
      readFront F false { e with faultSignature := .ofList (unquote (trim (trimEnd v))) } rest := by
  rw [readFront_key rfl, Knowledge.readLine, trimEnd_append (by decide)]
  rfl

theorem readFront_templateUsed (v : List Char) :
    readFront F inItems e (("template_used:".toList ++ v) :: rest) =
      readFront F false { e with templateUsed := .ofList (trim (trimEnd v)) } rest := by
  rw [readFront_key rfl, Knowledge.readLine, trimEnd_append (by decide)]
  rfl

theorem readFront_params (v : List Char) :
    readFront F inItems e (("params:".toList ++ v) :: rest) =
      readFront F false { e with params := parseParams (trim (trimEnd v)) } rest := by
  rw [readFront_key rfl, Knowledge.readLine, trimEnd_append (by decide)]
  rfl

theorem readFront_occurrences (v : List Char) :
    readFront F inItems e (("occurrences:".toList ++ v) :: rest) =
      readFront F false { e with occurrences := .ofNat ((parseUnsigned (2 ^ 64) (trim (trimEnd v))).getD 0) } rest := by
  rw [readFront_key rfl, Knowledge.readLine, trimEnd_append (by decide)]
  rfl

theorem readFront_lastSeen (v : List Char) :
    readFront F inItems e (("last_seen:".toList ++ v) :: rest) =
      readFront F false { e with lastSeen := (F.parseFromRfc3339 (trim (trimEnd v))).getD e.lastSeen } rest := by
  rw [readFront_key rfl, Knowledge.readLine, trimEnd_append (by decide)]
  rfl

/-- The items of a list are read up to the next key. -/
theorem readFront_items (os : List Outcome) (e : Entry) :
    readFront F true e ((os.map fun o => "  - ".toList ++ o.item F) ++ rest) =
      readFront F true
        { e with outcomes := e.outcomes ++ os.filterMap fun o => parseOutcome F (o.item F) } rest := by
  induction os generalizing e with
  | nil => simp
  | cons o os ih =>
    have hitem : stripPrefix "- ".toList (trimStart ("  - ".toList ++ o.item F)) =
        some (o.item F) := rfl
    have htrim : trim (o.item F) = o.item F := trim_between (by decide) (by decide) _
    simp only [List.map_cons, List.cons_append, readFront, if_true, hitem, htrim, ih,
      List.filterMap_cons]
    cases parseOutcome F (o.item F) <;> simp

theorem readFront_outcomes (os : List Outcome) (e : Entry) :
    readFront F false e ((if os.isEmpty then ["outcomes: []".toList]
      else "outcomes:".toList :: os.map fun o => "  - ".toList ++ o.item F) ++ rest) =
      readFront F (!os.isEmpty)
        { e with outcomes := e.outcomes ++ os.filterMap fun o => parseOutcome F (o.item F) } rest := by
  cases os with
  | nil =>
    rw [List.filterMap_nil, List.append_nil]
    rfl
  | cons o os => exact readFront_items (o :: os) e

end

include hF in
/-- The lines of an entry are read as the entry that `reread` says. -/
theorem readFront_frontLines (now : DateTime) (e : Entry) :
    readFront F false ⟨"", "", .empty, [], 0, now, .ofList e.bodyText⟩ (e.frontLines F) =
      e.reread F now := by
  have hoccurrences : trim (trimEnd (' ' :: (toString e.occurrences.toNat).toList)) =
      (toString e.occurrences.toNat).toList :=
    trim_trimEnd_word fun c hc => isWhitespace_of_isDigit (isDigit_of_mem_toString hc)
  have hlastSeen : trim (trimEnd (' ' :: (F.toRfc3339 e.lastSeen).toList)) =
      (F.toRfc3339 e.lastSeen).toList :=
    trim_trimEnd_word fun c hc => (hF.word e.lastSeen c hc).1
  unfold Entry.frontLines
  rw [readFront_faultSignature, readFront_templateUsed, readFront_params, readFront_outcomes,
    readFront_occurrences, readFront_lastSeen, trim_trimEnd_between (by decide) (by decide),
    trim_trimEnd_between (by decide) (by decide), hoccurrences, hlastSeen,
    parseUnsigned_toString e.occurrences.toNat_lt]
  simp only [readFront, Entry.reread, List.nil_append, Option.getD_some, UInt64.ofNat_toNat]

/-! ## Unbroken entries -/

theorem newline_not_mem_renderParams {params : BTreeMap String String}
    (h : ParamsUnbroken params) : '\n' ∉ (renderParams params).toList := by
  intro hmem
  rw [renderParams, String.toList_intercalate] at hmem
  obtain hsep | ⟨l, hl, hmem⟩ := mem_of_mem_intercalate hmem
  · revert hsep
    decide
  · simp only [List.map_map, List.mem_map] at hl
    obtain ⟨p, hp, rfl⟩ := hl
    have hcolon : '\n' ∉ ": ".toList := by decide
    simp only [Function.comp_apply, String.toList_append, List.mem_append] at hmem
    exact hmem.elim (fun hm => hm.elim (h p hp).1 hcolon) (h p hp).2

/-- What is required of a line of the front matter. -/
def IsLine (l : List Char) : Prop :=
  '\n' ∉ l ∧ l.getLast? ≠ some '\r' ∧ l ≠ [] ∧ l ≠ "---".toList

theorem isLine_key {key v : List Char} (hkey : '\n' ∉ key) (hhead : ∃ c ∈ key.head?, c ≠ '-')
    (hv : '\n' ∉ v) (hend : v.getLast? ≠ some '\r') : IsLine (key ++ ' ' :: v) := by
  obtain ⟨c, hc, hne⟩ := hhead
  obtain ⟨cs, rfl⟩ : ∃ cs, key = c :: cs := by
    cases key with
    | nil => cases hc
    | cons d cs => exact ⟨cs, by rw [Option.some.inj hc]⟩
  refine ⟨?_, ?_, ?_, ?_⟩
  · exact List.not_mem_append hkey (List.not_mem_cons_of_ne_of_not_mem (by decide) hv)
  · rw [List.getLast?_append, List.getLast?_cons]
    cases hlast : v.getLast? with
    | none => exact fun h => nomatch h
    | some d => simpa [hlast] using hend
  · simp
  · intro h
    exact hne (List.cons.inj h).1

theorem isLine_between {key v : List Char} (hkey : '\n' ∉ key) (hhead : ∃ c ∈ key.head?, c ≠ '-')
    (hv : '\n' ∉ v) (ha : a ≠ '\n') (hb : b ≠ '\n') (hb' : b ≠ '\r') :
    IsLine (key ++ ' ' :: a :: (v ++ [b])) := by
  refine isLine_key hkey hhead ?_ ?_
  · refine List.not_mem_cons_of_ne_of_not_mem ha.symm (List.not_mem_append hv ?_)
    simpa using hb.symm
  · simpa [List.getLast?_cons] using hb'

include hF in
theorem Outcome.newline_not_mem_fields {o : Outcome} (hresult : '\n' ∉ o.result.toList)
    (happrover : '\n' ∉ o.approver.toList) : '\n' ∉ o.fields F := by
  unfold fields
  repeat' apply List.not_mem_append
  · decide
  · exact hF.newline_not_mem o.ts
  · decide
  · exact hresult
  · decide
  · exact newline_not_mem_ttrText o.ttrS
  · decide
  · exact happrover
  · decide

include hF in
theorem isLine_of_mem_frontLines {e : Entry} (h : e.Unbroken) : ∀ l ∈ e.frontLines F, IsLine l := by
  have hblank : ∀ {v : List Char}, '\n' ∉ v → '\n' ∉ ' ' :: v ++ [' '] := by
    intro v hv
    exact List.not_mem_append (List.not_mem_cons_of_ne_of_not_mem (by decide) hv) (by decide)
  have hword : ∀ {v : List Char}, (∀ c ∈ v, isWhitespace c = false) →
      '\n' ∉ v ∧ v.getLast? ≠ some '\r' := by
    intro v hv
    exact ⟨fun hmem => absurd (hv _ hmem) (by decide),
      fun hlast => absurd (hv _ (List.mem_of_getLast? hlast)) (by decide)⟩
  intro l hl
  unfold Entry.frontLines at hl
  simp only [List.mem_cons, List.mem_append, List.not_mem_nil, or_false] at hl
  obtain rfl | rfl | rfl | hl | rfl | rfl := hl
  · exact isLine_between (by decide) ⟨'f', rfl, by decide⟩ h.signature (by decide) (by decide)
      (by decide)
  · exact isLine_key (by decide) ⟨'t', rfl, by decide⟩ h.template h.template_end
  · exact isLine_between (by decide) ⟨'p', rfl, by decide⟩
      (hblank (newline_not_mem_renderParams h.params)) (by decide) (by decide) (by decide)
  · split at hl
    · cases List.mem_singleton.mp hl
      have hline : IsLine ("outcomes:".toList ++ ' ' :: "[]".toList) :=
        isLine_key (by decide) ⟨'o', rfl, by decide⟩ (by decide) (by decide)
      exact hline
    · rcases List.mem_cons.mp hl with rfl | hl
      · exact ⟨by decide, by decide, by decide, by decide⟩
      · obtain ⟨o, ho, rfl⟩ := List.mem_map.mp hl
        have hline : IsLine ("  -".toList ++ ' ' :: o.item F) :=
          isLine_between (by decide) ⟨' ', rfl, by decide⟩
            (hblank (Outcome.newline_not_mem_fields hF (h.outcomes o ho).1 (h.outcomes o ho).2))
            (by decide) (by decide) (by decide)
        exact hline
  · obtain ⟨hnewline, hend⟩ := hword (v := (toString e.occurrences.toNat).toList) fun c hc =>
      isWhitespace_of_isDigit (isDigit_of_mem_toString hc)
    exact isLine_key (by decide) ⟨'o', rfl, by decide⟩ hnewline hend
  · obtain ⟨hnewline, hend⟩ := hword (v := (F.toRfc3339 e.lastSeen).toList) fun c hc =>
      (hF.word e.lastSeen c hc).1
    exact isLine_key (by decide) ⟨'l', rfl, by decide⟩ hnewline hend

include hF in
/-- A file is read back as long as each line of its front matter is one line. -/
theorem Entry.fromMarkdown_toMarkdown {e : Entry} (h : e.Unbroken) (now : DateTime) :
    fromMarkdown F now (e.toMarkdown F) = some (e.reread F now) := by
  have hlines := isLine_of_mem_frontLines hF h
  have hdelim : "\n---\n".toList = '\n' :: "---".toList ++ ['\n'] := rfl
  have hsplit : splitOnce "\n---\n".toList
      (unlines (e.frontLines F) ++ ("---".toList ++ '\n' :: e.bodyText)) =
      some (['\n'].intercalate (e.frontLines F), e.bodyText) := by
    rw [hdelim]
    exact splitOnce_unlines (by decide) e.bodyText (List.cons_ne_nil _ _)
      (fun l hl => (hlines l hl).1) fun l hl => (hlines l (List.mem_of_mem_tail hl)).2.2.2
  have hlist : lines (['\n'].intercalate (e.frontLines F)) = e.frontLines F :=
    lines_intercalate (fun l hl => (hlines l (List.mem_of_getLast? hl)).2.2.1)
      (fun l hl => (hlines l hl).1) fun l hl => (hlines l hl).2.1
  rw [fromMarkdown, toMarkdown_toList, stripPrefix_append]
  simp only [Option.bind_eq_bind, Option.bind_some, hsplit, hlist, readFront_frontLines hF]
  rfl

/-! ## What is read is unbroken -/

theorem mem_of_mem_unquote (h : c ∈ unquote cs) : c ∈ cs :=
  mem_of_mem_trim (mem_of_mem_trimStartMatches (mem_of_mem_trimEndMatches h))

theorem mem_of_mem_insideBraces (h : c ∈ insideBraces cs) : c ∈ cs :=
  mem_of_mem_trim (mem_of_mem_trimStartMatches (mem_of_mem_trimEndMatches (mem_of_mem_trim h)))

/-- A parameter as it stands in the inline map. -/
def readPair (pair : List Char) : Option (String × String) :=
  (splitOnce [':'] pair).map fun (k, v) => (String.ofList (trim k), String.ofList (trim v))

/-- The map with the parameter that was read, if it was one. -/
def insertPair (params : BTreeMap String String) (pair : List Char) : BTreeMap String String :=
  match readPair pair with
  | some (k, v) => params.insert k v
  | none => params

theorem parseParams_eq (raw : List Char) :
    parseParams raw = (split ',' (insideBraces raw)).foldl insertPair .empty := by
  rw [parseParams]
  split
  · rename_i hempty
    rw [List.isEmpty_iff.mp hempty]
    rfl
  · congr 1
    funext params pair
    rw [insertPair, readPair]
    cases splitOnce [':'] pair <;> rfl

/-- Every parameter has been read from one of the parts. -/
theorem exists_readPair_of_mem (h : p ∈ (parseParams raw).entries) :
    ∃ pair ∈ split ',' (insideBraces raw), readPair pair = some p := by
  have hfold : ∀ p ∈ ((split ',' (insideBraces raw)).foldl insertPair .empty).entries,
      ∃ pair ∈ split ',' (insideBraces raw), readPair pair = some p := by
    refine List.foldlRecOn (split ',' (insideBraces raw)) insertPair
      (motive := fun params => ∀ p ∈ params.entries,
        ∃ pair ∈ split ',' (insideBraces raw), readPair pair = some p) ?_ ?_
    · exact fun p hp => absurd hp List.not_mem_nil
    intro params hparams pair hpair p hp
    rw [insertPair] at hp
    split at hp
    · rename_i k v hread
      rcases BTreeMap.mem_insertList hp with rfl | hp
      · exact ⟨pair, hpair, hread⟩
      · exact hparams p hp
    · exact hparams p hp
  exact hfold p (parseParams_eq raw ▸ h)

theorem mem_of_mem_readPair (h : readPair pair = some p) (hc : c ∈ p.1.toList ∨ c ∈ p.2.toList) :
    c ∈ pair := by
  obtain ⟨⟨k, v⟩, hcut, rfl⟩ := Option.map_eq_some_iff.mp h
  rw [eq_append_of_splitOnce hcut]
  simp only [String.toList_ofList] at hc
  rcases hc with hc | hc
  · exact List.mem_append_left _ (List.mem_append_left _ (mem_of_mem_trim hc))
  · exact List.mem_append_right _ (mem_of_mem_trim hc)

theorem parseParams_unbroken {raw : List Char} (h : '\n' ∉ raw) :
    ParamsUnbroken (parseParams raw) := by
  intro p hp
  obtain ⟨pair, hpair, hread⟩ := exists_readPair_of_mem hp
  have hnewline : '\n' ∉ pair := by
    intro hmem
    have hinside := (mem_of_mem_splitFrom hpair hmem).resolve_left List.not_mem_nil
    exact h (mem_of_mem_insideBraces hinside)
  exact ⟨fun hk => hnewline (mem_of_mem_readPair hread (.inl hk)),
    fun hv => hnewline (mem_of_mem_readPair hread (.inr hv))⟩

theorem mem_of_mem_splitTopLevel (h : l ∈ splitTopLevel depth inQuote acc cs) (hc : c ∈ l) :
    c ∈ acc ∨ c ∈ cs := by
  induction cs generalizing depth inQuote acc with
  | nil =>
    cases List.mem_singleton.mp h
    exact .inl (List.mem_reverse.mp hc)
  | cons d cs ih =>
    have hnext : ∀ {depth inQuote}, l ∈ splitTopLevel depth inQuote (d :: acc) cs →
        c ∈ acc ∨ c ∈ d :: cs := by
      intro depth inQuote h
      rcases ih h with hacc | hcs
      · rcases List.mem_cons.mp hacc with rfl | hacc
        · exact .inr List.mem_cons_self
        · exact .inl hacc
      · exact .inr (List.mem_cons_of_mem _ hcs)
    simp only [splitTopLevel] at h
    split at h
    · exact hnext h
    · split at h
      · exact hnext h
      · split at h
        · exact hnext h
        · split at h
          · rcases List.mem_cons.mp h with rfl | h
            · exact .inl (List.mem_reverse.mp hc)
            · exact .inr (List.mem_cons_of_mem _ ((ih h).resolve_left List.not_mem_nil))
          · exact hnext h

/-- The texts among the fields of an outcome have no line feed. -/
def OutcomeFields.Unbroken (f : OutcomeFields) : Prop :=
  (∀ r ∈ f.result, '\n' ∉ r.toList) ∧ '\n' ∉ f.approver.toList

theorem OutcomeFields.read_unbroken {f f' : OutcomeFields} (hf : f.Unbroken) (hpair : '\n' ∉ pair)
    (h : f.read F pair = some f') : f'.Unbroken := by
  obtain ⟨⟨k, v⟩, hcut, hread⟩ := Option.map_eq_some_iff.mp h
  rw [eq_append_of_splitOnce hcut] at hpair
  simp only [List.mem_append, not_or] at hpair
  have hv : '\n' ∉ trim v := fun hmem => hpair.2 (mem_of_mem_trim hmem)
  subst hread
  simp only
  split
  · exact hf
  · refine ⟨?_, hf.2⟩
    intro r hr
    cases hr
    simpa using hv
  · exact hf
  · refine ⟨hf.1, ?_⟩
    simpa using fun hmem => hv (mem_of_mem_unquote hmem)
  · exact hf

theorem newline_not_mem_of_parseOutcome {raw : List Char} (h : '\n' ∉ raw) {o : Outcome}
    (ho : parseOutcome F raw = some o) : '\n' ∉ o.result.toList ∧ '\n' ∉ o.approver.toList := by
  have hfold : ∀ (pairs : List (List Char)) (f f' : OutcomeFields), (∀ p ∈ pairs, '\n' ∉ p) →
      f.Unbroken → pairs.foldlM (OutcomeFields.read F) f = some f' → f'.Unbroken := by
    intro pairs
    induction pairs with
    | nil =>
      intro f f' _ hf h
      cases h
      exact hf
    | cons p pairs ih =>
      intro f f' hp hf h
      obtain ⟨g, hg, hrest⟩ := Option.bind_eq_some_iff.mp h
      exact ih g f' (fun q hq => hp q (List.mem_cons_of_mem _ hq))
        (OutcomeFields.read_unbroken hf (hp p List.mem_cons_self) hg) hrest
  obtain ⟨f, hf, hrest⟩ := Option.bind_eq_some_iff.mp ho
  obtain ⟨ts, hts, hrest⟩ := Option.bind_eq_some_iff.mp hrest
  obtain ⟨result, hresult, hrest⟩ := Option.bind_eq_some_iff.mp hrest
  cases hrest
  have hparts : ∀ p ∈ splitTopLevel 0 false [] (insideBraces raw), '\n' ∉ p := by
    intro p hp hmem
    have hinside := (mem_of_mem_splitTopLevel hp hmem).resolve_left List.not_mem_nil
    exact h (mem_of_mem_insideBraces hinside)
  have hstart : OutcomeFields.Unbroken ⟨none, none, none, ""⟩ :=
    ⟨fun r hr => (nomatch hr), by decide⟩
  have hunbroken := hfold _ _ f hparts hstart hf
  exact ⟨hunbroken.1 result hresult, hunbroken.2⟩

theorem Entry.readLine_unbroken {e : Entry} (he : e.Unbroken) (h : '\n' ∉ line) :
    (Knowledge.readLine F e line).1.Unbroken := by
  have hrest : ∀ {key v : List Char}, stripPrefix key (trimEnd line) = some v → '\n' ∉ v := by
    intro key v hv hmem
    rw [stripPrefix] at hv
    split at hv
    · cases hv
      exact h (mem_of_mem_trimEnd (List.mem_of_mem_drop hmem))
    · cases hv
  rw [Knowledge.readLine]
  split
  · rename_i v hv
    refine ⟨?_, he.template, he.template_end, he.params, he.outcomes⟩
    rw [String.toList_ofList]
    exact fun hmem => hrest hv (mem_of_mem_trim (mem_of_mem_unquote hmem))
  split
  · rename_i v hv
    refine ⟨he.signature, ?_, ?_, he.params, he.outcomes⟩
    · rw [String.toList_ofList]
      exact fun hmem => hrest hv (mem_of_mem_trim hmem)
    · rw [String.toList_ofList]
      exact fun hlast => absurd (isWhitespace_getLast?_trim hlast) (by decide)
  split
  · rename_i v hv
    refine ⟨he.signature, he.template, he.template_end, ?_, he.outcomes⟩
    dsimp only
    exact parseParams_unbroken fun hmem => hrest hv (mem_of_mem_trim hmem)
  split
  · exact ⟨he.signature, he.template, he.template_end, he.params, he.outcomes⟩
  split
  · exact ⟨he.signature, he.template, he.template_end, he.params, he.outcomes⟩
  · exact he

theorem Entry.readFront_unbroken {e : Entry} (he : e.Unbroken) (h : ∀ l ∈ ls, '\n' ∉ l) :
    (readFront F inItems e ls).Unbroken := by
  induction ls generalizing inItems e with
  | nil => exact he
  | cons line ls ih =>
    have hline : '\n' ∉ line := h line List.mem_cons_self
    have hls : ∀ l ∈ ls, '\n' ∉ l := fun l hl => h l (List.mem_cons_of_mem _ hl)
    rw [readFront]
    split
    · rename_i item hitem
      refine ih ⟨he.signature, he.template, he.template_end, he.params, ?_⟩ hls
      intro o ho
      rcases List.mem_append.mp ho with ho | ho
      · exact he.outcomes o ho
      · refine newline_not_mem_of_parseOutcome (fun hmem => ?_) (Option.mem_toList.mp ho)
        cases inItems with
        | false => cases hitem
        | true =>
          rw [if_pos rfl, stripPrefix] at hitem
          split at hitem
          · cases hitem
            exact hline (mem_of_mem_dropWhile (List.mem_of_mem_drop (mem_of_mem_trim hmem)))
          · cases hitem
    · exact ih (readLine_unbroken he hline) hls

/-- Whatever is read of a file is unbroken. -/
theorem Entry.fromMarkdown_unbroken {e : Entry} (h : fromMarkdown F now text = some e) :
    e.Unbroken := by
  obtain ⟨rest, -, h⟩ := Option.bind_eq_some_iff.mp h
  obtain ⟨⟨front, body⟩, -, h⟩ := Option.bind_eq_some_iff.mp h
  have hempty : '\n' ∉ "".toList := List.not_mem_nil
  rw [← Option.some.inj h]
  exact readFront_unbroken ⟨hempty, hempty, nofun, fun p hp => absurd hp List.not_mem_nil,
    fun o ho => absurd ho List.not_mem_nil⟩ fun l hl => notMem_of_mem_lines hl

include hF in
theorem Entry.reread_unbroken {e : Entry} (h : e.Unbroken) (now : DateTime) :
    (e.reread F now).Unbroken :=
  fromMarkdown_unbroken (fromMarkdown_toMarkdown hF h now)

/-! ## Quotes -/

/-- A text that `unquote` gives back from between its quotes. -/
def Quotable (s : List Char) : Prop := s.head? ≠ some '\"' ∧ s.getLast? ≠ some '\"'

instance : Decidable (Quotable s) :=
  inferInstanceAs (Decidable (s.head? ≠ some '\"' ∧ s.getLast? ≠ some '\"'))

theorem unquote_quoted (h : Quotable s) : unquote ('\"' :: (s ++ ['\"'])) = s := by
  have hquote : isWhitespace '\"' = false := by decide
  rw [unquote, trim_between hquote hquote]
  cases s with
  | nil => rfl
  | cons c cs =>
    have hc : (c == '\"') = false := by simpa using h.1
    have hstart : trimStartMatches '\"' ('\"' :: (c :: cs ++ ['\"'])) = c :: cs ++ ['\"'] := by
      simp [trimStartMatches, hc]
    have hlast : ((c :: cs).reverse.head? == some '\"') = false := by
      rw [List.head?_reverse]
      simpa using h.2
    rw [hstart, trimEndMatches, List.reverse_append, List.reverse_singleton, List.singleton_append,
      List.dropWhile_cons_of_pos (by simp)]
    cases hrev : (c :: cs).reverse with
    | nil => simp at hrev
    | cons d ds =>
      have hd : (d == '\"') = false := by simpa [hrev] using hlast
      rw [List.dropWhile_cons_of_neg (by simpa using hd), ← hrev, List.reverse_reverse]

theorem trimStartMatches_slugFrom (lastDash : Bool) (cs : List Char) :
    trimStartMatches '-' (slugFrom lastDash cs) = trimStartMatches '-' (slugFrom true cs) := by
  cases lastDash with
  | true => rfl
  | false =>
    cases cs with
    | nil => rfl
    | cons c cs =>
      simp only [slugFrom]
      split
      · rfl
      · simp [trimStartMatches]

theorem slugFrom_concat_quote (lastDash : Bool) (cs : List Char) :
    slugFrom lastDash (cs ++ ['\"']) = slugFrom lastDash cs ∨
      slugFrom lastDash (cs ++ ['\"']) = slugFrom lastDash cs ++ ['-'] := by
  induction cs generalizing lastDash with
  | nil => cases lastDash <;> decide
  | cons c cs ih =>
    simp only [List.cons_append, slugFrom]
    split
    · rcases ih false with h | h <;> simp [h]
    · split
      · exact ih true
      · rcases ih true with h | h <;> simp [h]

/-- `slug` on characters. -/
def slugText (cs : List Char) : List Char :=
  trimEndMatches '-' (trimStartMatches '-' (slugFrom false cs))

theorem slugText_concat_quote (cs : List Char) : slugText (cs ++ ['\"']) = slugText cs := by
  unfold slugText
  rcases slugFrom_concat_quote false cs with h | h
  · rw [h]
  · rw [h, trimMatches_concat]

theorem slugText_cons_quote (cs : List Char) : slugText ('\"' :: cs) = slugText cs := by
  have hquote : trimStartMatches '-' (slugFrom false ('\"' :: cs)) =
      trimStartMatches '-' (slugFrom true cs) := rfl
  rw [slugText, hquote, ← trimStartMatches_slugFrom false, slugText]

theorem slugText_trimStartMatches_quote (cs : List Char) :
    slugText (trimStartMatches '\"' cs) = slugText cs := by
  induction cs with
  | nil => rfl
  | cons c cs ih =>
    by_cases hc : c = '\"'
    · subst hc
      rw [slugText_cons_quote, ← ih]
      rfl
    · simp [trimStartMatches, hc]

theorem slugText_trimEndMatches_quote (cs : List Char) :
    slugText (trimEndMatches '\"' cs) = slugText cs := by
  induction cs using List.reverseRecOn with
  | nil => rfl
  | append_singleton cs c ih =>
    by_cases hc : c = '\"'
    · subst hc
      rw [trimEndMatches_concat, slugText_concat_quote, ih]
    · simp [trimEndMatches, hc]

theorem Entry.slug_reread (now : DateTime) (e : Entry) :
    slug (e.reread F now).faultSignature = slug e.faultSignature := by
  have hquote : isWhitespace '\"' = false := by decide
  have htext : slugText (unquote ('\"' :: (e.faultSignature.toList ++ ['\"']))) =
      slugText e.faultSignature.toList := by
    rw [unquote, trim_between hquote hquote, slugText_trimEndMatches_quote,
      slugText_trimStartMatches_quote, slugText_cons_quote, slugText_concat_quote]
  simp only [reread, slug, String.toList_ofList]
  exact congrArg String.ofList htext

/-! ## Outcomes -/

/-- No comma of the text is taken to end the field it is quoted in. -/
def Unsplit (s : List Char) : Prop := (splitTopLevel 0 true [] s).length = 1

instance : Decidable (Unsplit s) := inferInstanceAs (Decidable (_ = _))

/-- An outcome that is read as it was written. -/
structure Outcome.Readable (o : Outcome) : Prop where
  ts : o.ts.HasText
  result : ∃ status : ActionStatus, o.result = status.statusStr
  ttrS : ∀ v ∈ o.ttrS, -2 ^ 63 ≤ v ∧ v < 2 ^ 63
  quotable : Quotable o.approver.toList
  unsplit : Unsplit o.approver.toList

/-- An outcome with a status for a result and a duration that fits 64 bits. -/
structure Outcome.Written (o : Outcome) : Prop where
  result : ∃ status : ActionStatus, o.result = status.statusStr
  ttrS : ∀ v ∈ o.ttrS, -2 ^ 63 ≤ v ∧ v < 2 ^ 63

/-- A text without the characters that `split_top_level` looks for. -/
def IsPlain (s : List Char) : Prop := ∀ c ∈ s, c ∉ [',', '\"', '\x7b', '\x7d', '[', ']']

instance : Decidable (IsPlain s) := List.decidableBAll _ s

theorem IsPlain.append (hs : IsPlain s) (ht : IsPlain t) : IsPlain (s ++ t) :=
  fun c hc => (List.mem_append.mp hc).elim (hs c) (ht c)

theorem isPlain_ttrText (ttrS : Option Int) : IsPlain (ttrText ttrS).toList := by
  cases ttrS with
  | none => exact (by decide : IsPlain "null".toList)
  | some v =>
    intro c hc
    simp only [List.mem_cons, List.not_mem_nil, or_false]
    rintro (rfl | rfl | rfl | rfl | rfl | rfl) <;>
      exact absurd (mem_toString_int hc) (by decide)

theorem splitTopLevel_plain (h : IsPlain s) (depth : Int) (acc cs : List Char) :
    splitTopLevel depth false acc (s ++ cs) = splitTopLevel depth false (s.reverse ++ acc) cs := by
  induction s generalizing acc with
  | nil => rfl
  | cons c s ih =>
    have hc := h c List.mem_cons_self
    simp only [List.mem_cons, List.not_mem_nil, or_false, not_or] at hc
    have hstep : splitTopLevel depth false acc (c :: s ++ cs) =
        splitTopLevel depth false (c :: acc) (s ++ cs) := by
      simp [splitTopLevel, hc]
    rw [hstep, ih fun d hd => h d (List.mem_cons_of_mem _ hd)]
    simp

theorem splitTopLevel_part (h : IsPlain s) (cs : List Char) :
    splitTopLevel 0 false [] (s ++ ',' :: cs) = s :: splitTopLevel 0 false [] cs := by
  rw [splitTopLevel_plain h, splitTopLevel]
  simp

theorem length_splitTopLevel (depth : Int) (inQuote : Bool) (acc acc' cs : List Char) :
    (splitTopLevel depth inQuote acc cs).length = (splitTopLevel depth inQuote acc' cs).length := by
  induction cs generalizing depth inQuote acc acc' with
  | nil => rfl
  | cons c cs ih =>
    simp only [splitTopLevel]
    split_ifs
    all_goals first | exact ih .. | rfl

theorem splitTopLevel_ne_nil (depth : Int) (inQuote : Bool) (acc cs : List Char) :
    splitTopLevel depth inQuote acc cs ≠ [] := by
  induction cs generalizing depth inQuote acc with
  | nil => simp [splitTopLevel]
  | cons c cs ih =>
    simp only [splitTopLevel]
    split_ifs
    all_goals first | exact ih _ _ _ | simp

theorem splitTopLevel_quoted {depth : Int} {inQuote : Bool}
    (h : (splitTopLevel depth inQuote acc cs).length = 1) :
    splitTopLevel depth inQuote acc (cs ++ ['\"']) = [acc.reverse ++ cs ++ ['\"']] := by
  induction cs generalizing depth inQuote acc with
  | nil => simp [splitTopLevel]
  | cons c cs ih =>
    have hpush : ∀ {depth : Int} {inQuote : Bool},
        (splitTopLevel depth inQuote (c :: acc) cs).length = 1 →
        splitTopLevel depth inQuote (c :: acc) (cs ++ ['\"']) =
          [acc.reverse ++ c :: cs ++ ['\"']] := by
      intro depth inQuote h
      rw [ih h]
      simp
    simp only [splitTopLevel, List.cons_append] at h ⊢
    split_ifs at h ⊢
    · exact hpush h
    · exact hpush h
    · exact hpush h
    · -- a comma outside the quotes would end the part
      rw [List.length_cons, Nat.add_eq_right, List.length_eq_zero_iff] at h
      exact absurd h (splitTopLevel_ne_nil _ _ _ _)
    · exact hpush h

theorem Outcome.insideBraces_item (o : Outcome) : insideBraces (o.item F) = o.fields F := by
  obtain ⟨mid, hmid⟩ : ∃ mid, o.fields F = 't' :: (mid ++ ['\"']) := by
    exact ⟨"s: ".toList ++ (F.toRfc3339 o.ts).toList ++ ", result: ".toList ++ o.result.toList ++
      ", ttr_s: ".toList ++ (ttrText o.ttrS).toList ++ ", approver: \"".toList ++ o.approver.toList,
      rfl⟩
  have hstart : trimStartMatches '\x7b' (o.item F) = ' ' :: o.fields F ++ [' '] ++ ['\x7d'] := rfl
  have hblank : trim (' ' :: o.fields F ++ [' ']) = o.fields F := by
    rw [hmid, List.cons_append, trim_cons_blank (by decide)]
    exact (trim_append_blank (by decide) (by decide) ('t' :: mid)).trans
      (trim_between (by decide) (by decide) mid)
  have htrim : trim (o.item F) = o.item F := trim_between (by decide) (by decide) _
  rw [insideBraces, htrim, hstart, trimEndMatches_concat, trimEndMatches_concat_of_ne (by decide),
    hblank]

theorem Outcome.fields_eq (o : Outcome) : o.fields F =
    ("ts: ".toList ++ (F.toRfc3339 o.ts).toList) ++ ',' :: (
    (" result: ".toList ++ o.result.toList) ++ ',' :: (
    (" ttr_s: ".toList ++ (ttrText o.ttrS).toList) ++ ',' ::
    (" approver: ".toList ++ '\"' :: (o.approver.toList ++ ['\"'])))) := by
  have hgroup : ∀ ts t result r ttr n approver a quote : List Char,
      ts ++ t ++ ',' :: result ++ r ++ ',' :: ttr ++ n ++ ',' :: (approver ++ quote) ++ a ++ quote =
        (ts ++ t) ++ ',' :: ((result ++ r) ++ ',' :: ((ttr ++ n) ++ ',' ::
          (approver ++ (quote ++ (a ++ quote))))) := by
    simp
  exact hgroup "ts: ".toList _ " result: ".toList _ " ttr_s: ".toList _ " approver: ".toList _ ['\"']

/-- The field of the approver, which comes last. -/
def Outcome.approverField (o : Outcome) : List Char :=
  " approver: ".toList ++ '\"' :: (o.approver.toList ++ ['\"'])

include hF in
theorem Outcome.splitTopLevel_fields {o : Outcome} (h : o.Written) :
    splitTopLevel 0 false [] (o.fields F) =
      ("ts: ".toList ++ (F.toRfc3339 o.ts).toList) :: (" result: ".toList ++ o.result.toList) ::
        (" ttr_s: ".toList ++ (ttrText o.ttrS).toList) ::
          splitTopLevel 0 false [] o.approverField := by
  have hts : IsPlain ("ts: ".toList ++ (F.toRfc3339 o.ts).toList) :=
    IsPlain.append (by decide) fun c hc => (hF.word o.ts c hc).2
  have hresult : IsPlain (" result: ".toList ++ o.result.toList) := by
    refine IsPlain.append (by decide) ?_
    obtain ⟨status, hstatus⟩ := h.result
    rw [hstatus]
    cases status <;> decide
  have httr : IsPlain (" ttr_s: ".toList ++ (ttrText o.ttrS).toList) :=
    IsPlain.append (by decide) (isPlain_ttrText o.ttrS)
  rw [fields_eq, splitTopLevel_part hts, splitTopLevel_part hresult, splitTopLevel_part httr]
  rfl

theorem Outcome.splitTopLevel_approverField (o : Outcome) :
    splitTopLevel 0 false [] o.approverField =
      splitTopLevel 0 true ('\"' :: " approver: ".toList.reverse) (o.approver.toList ++ ['\"']) := by
  have hkey : IsPlain " approver: ".toList := by decide
  refine (splitTopLevel_plain hkey 0 [] ('\"' :: (o.approver.toList ++ ['\"']))).trans ?_
  rw [splitTopLevel.eq_2, if_pos rfl, Bool.not_false, List.append_nil]

theorem OutcomeFields.read_ts (f : OutcomeFields) (v : List Char) :
    f.read F ("ts: ".toList ++ v) = some { f with ts := F.parseFromRfc3339 (trim (' ' :: v)) } := rfl

theorem OutcomeFields.read_result (f : OutcomeFields) (v : List Char) :
    f.read F (" result: ".toList ++ v) =
      some { f with result := some (.ofList (trim (' ' :: v))) } := rfl

theorem OutcomeFields.read_ttrS (f : OutcomeFields) (v : List Char) :
    f.read F (" ttr_s: ".toList ++ v) = some { f with
      ttrS := if trim (' ' :: v) = "null".toList then none
        else parseSigned (2 ^ 63) (trim (' ' :: v)) } := rfl

theorem OutcomeFields.read_approver (f : OutcomeFields) (v : List Char) :
    f.read F (" approver: ".toList ++ v) =
      some { f with approver := .ofList (unquote (trim (' ' :: v))) } := rfl

theorem parse_ttrText {ttrS : Option Int} (h : ∀ v ∈ ttrS, -2 ^ 63 ≤ v ∧ v < 2 ^ 63) :
    (if trim (' ' :: (ttrText ttrS).toList) = "null".toList then none
      else parseSigned (2 ^ 63) (trim (' ' :: (ttrText ttrS).toList))) = ttrS := by
  cases ttrS with
  | none => rfl
  | some v =>
    have hblank : ∀ c ∈ (toString v).toList, isWhitespace c = false := by
      intro c hc
      rcases mem_toString_int hc with rfl | hdigit
      · decide
      · exact isWhitespace_of_isDigit hdigit
    have hnull : (toString v).toList ≠ "null".toList := by
      intro heq
      have hn := mem_toString_int (i := v) (c := 'n') (heq ▸ by decide)
      revert hn
      decide
    have htext : trim (' ' :: (ttrText (some v)).toList) = (toString v).toList := by
      rw [trim_cons_blank (by decide)]
      exact trim_eq_self hblank
    rw [htext, if_neg hnull]
    exact parseSigned_toString (h v rfl).1 (h v rfl).2

/-- The outcome that the fields say, if they have a time and a result. -/
def OutcomeFields.outcome (f : OutcomeFields) : Option Outcome := do
  let ts ← f.ts
  let result ← f.result
  return ⟨ts, result, f.ttrS, f.approver⟩

include hF in
/-- `parse_outcome` has read all but the approver when it comes to the last field. -/
theorem Outcome.parseOutcome_item_eq {o : Outcome} (h : o.Written) :
    parseOutcome F (o.item F) =
      ((splitTopLevel 0 false [] o.approverField).foldlM (OutcomeFields.read F)
        ⟨F.parseFromRfc3339 (F.toRfc3339 o.ts).toList, some o.result, o.ttrS, ""⟩).bind
          OutcomeFields.outcome := by
  have hts : trim (' ' :: (F.toRfc3339 o.ts).toList) = (F.toRfc3339 o.ts).toList := by
    rw [trim_cons_blank (by decide), trim_eq_self fun c hc => (hF.word o.ts c hc).1]
  have hresult : trim (' ' :: o.result.toList) = o.result.toList := by
    obtain ⟨status, hstatus⟩ := h.result
    rw [hstatus]
    cases status <;> decide
  have hparse : parseOutcome F (o.item F) =
      ((splitTopLevel 0 false [] (o.fields F)).foldlM (OutcomeFields.read F)
        ⟨none, none, none, ""⟩).bind OutcomeFields.outcome := by
    rw [parseOutcome, insideBraces_item]
    rfl
  rw [hparse, splitTopLevel_fields hF h]
  simp only [List.foldlM_cons, OutcomeFields.read_ts, OutcomeFields.read_result,
    OutcomeFields.read_ttrS, Option.bind_eq_bind, Option.bind_some, hts, hresult,
    parse_ttrText h.ttrS, String.ofList_toList]

include hF in
/-- `parse_outcome` of an outcome whose approver stays in one part. -/
theorem Outcome.parseOutcome_item_of_unsplit {o : Outcome} (h : o.Written)
    (hunsplit : Unsplit o.approver.toList) :
    parseOutcome F (o.item F) = (F.parseFromRfc3339 (F.toRfc3339 o.ts).toList).map fun ts =>
      ⟨ts, o.result, o.ttrS, .ofList (unquote ('\"' :: (o.approver.toList ++ ['\"'])))⟩ := by
  have hpart : splitTopLevel 0 false [] o.approverField =
      [" approver: ".toList ++ '\"' :: (o.approver.toList ++ ['\"'])] := by
    rw [splitTopLevel_approverField]
    refine (splitTopLevel_quoted ((length_splitTopLevel ..).trans hunsplit)).trans ?_
    simp
  have happrover : trim (' ' :: '\"' :: (o.approver.toList ++ ['\"'])) =
      '\"' :: (o.approver.toList ++ ['\"']) := by
    rw [trim_cons_blank (by decide), trim_between (by decide) (by decide)]
  rw [parseOutcome_item_eq hF h, hpart, List.foldlM_cons, OutcomeFields.read_approver, happrover]
  simp only [List.foldlM_nil, Option.bind_eq_bind, Option.bind_some, Option.pure_def,
    OutcomeFields.outcome]
  cases F.parseFromRfc3339 (F.toRfc3339 o.ts).toList with
  | none => exact rfl
  | some ts => exact rfl

theorem Outcome.Readable.written {o : Outcome} (h : o.Readable) : o.Written := ⟨h.result, h.ttrS⟩

include hF in
/-- `parse_outcome` gives back what was written. -/
theorem Outcome.parseOutcome_item {o : Outcome} (h : o.Readable) :
    parseOutcome F (o.item F) = some o := by
  rw [parseOutcome_item_of_unsplit hF h.written h.unsplit, hF.parse o.ts h.ts,
    unquote_quoted h.quotable, String.ofList_toList]
  rfl

/-- An entry that keeps its fault signature and its outcomes when it is read. -/
structure Entry.Readable (e : Entry) : Prop extends e.Unbroken where
  quotable : Quotable e.faultSignature.toList
  readable : ∀ o ∈ e.outcomes, o.Readable

@[simp] theorem Entry.reread_occurrences (now : DateTime) (e : Entry) :
    (e.reread F now).occurrences = e.occurrences := by
  simp only [reread]

include hF in
theorem Entry.reread_outcomes {e : Entry} (h : e.Readable) (now : DateTime) :
    (e.reread F now).outcomes = e.outcomes := by
  simp only [reread]
  refine (List.filterMap_congr fun o ho => ?_).trans List.filterMap_some
  exact Outcome.parseOutcome_item hF (h.readable o ho)

theorem Entry.reread_faultSignature {e : Entry} (h : e.Readable) (now : DateTime) :
    (e.reread F now).faultSignature = e.faultSignature := by
  simp only [reread, unquote_quoted h.quotable, String.ofList_toList]

include hF in
theorem Entry.reread_readable {e : Entry} (h : e.Readable) (now : DateTime) :
    (e.reread F now).Readable where
  toUnbroken := reread_unbroken hF h.toUnbroken now
  quotable := by
    rw [reread_faultSignature h]
    exact h.quotable
  readable := by
    rw [reread_outcomes hF h]
    exact h.readable

end Knowledge

end Ravn
