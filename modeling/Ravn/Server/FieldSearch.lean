import Mathlib.Data.List.Chain
import Ravn.Server.Unescape

/-! Where `extract_string_field` finds a field of a reply. It looks for the first place that reads like
the quoted name, which may be the end of the value before it, and goes on from the next colon, which is
the field's own in either case. -/

namespace Ravn

open Theory Theory.Json

/-! ## Where a field is found -/

theorem isWhitespace_of_isBlank {c : Char} (h : isBlank c = true) : isWhitespace c = true := by
  simp only [isBlank, Bool.or_eq_true, decide_eq_true_eq] at h
  obtain ((rfl | rfl) | rfl) | rfl := h <;> decide

theorem notMem_of_blank {w : List Char} (hw : ∀ c ∈ w, isBlank c = true) {d : Char}
    (hd : isBlank d = false) : d ∉ w := by
  intro hmem
  rw [hw d hmem] at hd
  cases hd

/-- What follows the name of a field. -/
def readField (rest : List Char) : Option (List Char) :=
  (splitOnce [':'] rest).bind fun (_, afterColon) => fieldValue afterColon

theorem readField_append {w : List Char} (h : ':' ∉ w) (rest : List Char) :
    readField (w ++ rest) = readField rest := by
  unfold readField
  rw [splitOnce_append h, Option.bind_map]
  rfl

theorem readField_colon (rest : List Char) : readField (':' :: rest) = fieldValue rest := by
  have hself := splitOnce_self [':'] rest
  rw [List.singleton_append] at hself
  rw [readField, hself]
  rfl

theorem readField_of_notMem {w : List Char} (h : ':' ∉ w) : readField w = none := by
  have hnil := readField_append h []
  rwa [List.append_nil] at hnil

theorem fieldValue_quote {v : List Char} (hv : ∀ c ∈ v, isBlank c = true) (cs : List Char) :
    fieldValue (v ++ '"' :: cs) = collected cs := by
  have htrim : trimStart (v ++ '"' :: cs) = '"' :: cs := by
    unfold trimStart
    rw [List.dropWhile_append_of_pos fun c hc => isWhitespace_of_isBlank (hv c hc)]
    rfl
  rw [fieldValue, htrim]
  rfl

theorem fieldValue_blank {v : List Char} (hv : ∀ c ∈ v, isBlank c = true) : fieldValue v = none := by
  have htrim : trimStart v = [] :=
    List.dropWhile_eq_nil_iff.mpr fun c hc => isWhitespace_of_isBlank (hv c hc)
  rw [fieldValue, htrim]

/-- A field whose value is not begun is not found. -/
theorem readField_start {w v : List Char} (hw : ':' ∉ w) (hv : ∀ c ∈ v, isBlank c = true)
    (h : rest <+: w ++ ':' :: v) : readField rest = none := by
  rcases List.prefix_or_prefix_of_prefix h (List.prefix_append w (':' :: v)) with hrest | ⟨r, rfl⟩
  · exact readField_of_notMem fun hmem => hw (hrest.subset hmem)
  · rw [readField_append hw]
    have hr := (List.prefix_append_right_inj w).mp h
    cases r with
    | nil => rfl
    | cons c r =>
      obtain ⟨rfl, hblank⟩ := List.cons_prefix_cons.mp hr
      rw [readField_colon]
      exact fieldValue_blank fun c hc => hv c (hblank.subset hc)

/-- No quote comes right after a `z`. -/
def Apart (z : Char) (l : List Char) : Prop := l.IsChain fun a b => b = '"' → a ≠ z

theorem apart_of_notMem_quote {l : List Char} (h : '"' ∉ l) (z : Char) : Apart z l := by
  induction l with
  | nil => exact .nil
  | cons a l ih =>
    rw [List.mem_cons, not_or] at h
    cases l with
    | nil => exact .singleton a
    | cons b l =>
      refine List.isChain_cons_cons.mpr ⟨fun hb => absurd (hb ▸ List.mem_cons_self) h.2, ih h.2⟩

theorem apart_of_notMem {z : Char} {l : List Char} (h : z ∉ l) : Apart z l := by
  induction l with
  | nil => exact .nil
  | cons a l ih =>
    rw [List.mem_cons, not_or] at h
    cases l with
    | nil => exact .singleton a
    | cons b l => exact List.isChain_cons_cons.mpr ⟨fun _ => Ne.symm h.1, ih h.2⟩

theorem Apart.append {z : Char} (h : Apart z l) (h' : Apart z l')
    (hjoin : l'.head? ≠ some '"' ∨ l.getLast? ≠ some z) : Apart z (l ++ l') := by
  refine List.isChain_append.mpr ⟨h, h', ?_⟩
  rintro a ha b hb rfl rfl
  rcases hjoin with hne | hne
  · exact hne hb
  · exact hne ha

theorem apart_text (p : Spelling) {z : Char} (hz : z ≠ '\\') : Apart z p.text := by
  obtain ⟨htext, -⟩ | ⟨e, htext, -⟩ | ⟨ds, htext, hds⟩ := p.cases
  · exact htext ▸ .singleton _
  · exact htext ▸ List.isChain_cons_cons.mpr ⟨fun _ => Ne.symm hz, .singleton e⟩
  · have hquote := (unescape_unicode hds).2.1
    exact htext ▸ apart_of_notMem_quote (by simpa using hquote) z

theorem head?_text (p : Spelling) (r : List Char) : (p.text ++ r).head? ≠ some '"' := by
  obtain ⟨htext, hquote, -⟩ | ⟨e, htext, -⟩ | ⟨ds, htext, -⟩ := p.cases
  · rw [htext]
    exact fun h => hquote (Option.some.inj h)
  · rw [htext]
    simp
  · rw [htext]
    simp

theorem apart_spelled (ps : List Spelling) {z : Char} (hz : z ≠ '\\') : Apart z (spelled ps) := by
  induction ps with
  | nil => exact .nil
  | cons p ps ih =>
    refine (apart_text p hz).append ih (.inl ?_)
    cases ps with
    | nil => exact nofun
    | cons p' ps => exact head?_text p' (spelled ps)

/-- A pattern that ends in `z` and a quote is not found where these are apart. -/
theorem not_infix_of_apart {z : Char} {w l : List Char} (h : Apart z l) : ¬w ++ [z, '"'] <:+: l := by
  intro hinfix
  have hpair := h.infix ((List.suffix_append w [z, '"']).isInfix.trans hinfix)
  exact (List.isChain_cons_cons.mp hpair).1 rfl rfl

/-- It is found no earlier than at the quote that comes next. -/
theorem suffix_of_apart {z : Char} {w A post : List Char} (hA : Apart z A)
    (h : splitOnce (w ++ [z, '"']) (A ++ '"' :: post) = some (before, after)) : after <:+ post := by
  have heq := eq_append_of_splitOnce h
  rcases List.append_eq_append_iff.mp heq.symm with ⟨c, hc, hafter⟩ | ⟨c, hc, hafter⟩
  · refine absurd ?_ (not_infix_of_apart (w := w) hA)
    rw [hc, List.append_assoc]
    exact List.infix_append' _ _ _
  · cases c with
    | nil =>
      refine absurd ?_ (not_infix_of_apart (w := w) hA)
      rw [List.append_nil] at hc
      exact hc ▸ (List.suffix_append _ _).isInfix
    | cons b c => exact ⟨c, (List.cons.inj hafter).2.symm⟩

/-! ## The fields of a reply -/

def quoted (key : List Char) : List Char := '"' :: key ++ ['"']

theorem extractStringField_eq (content key : List Char) :
    extractStringField content key = (splitOnce (quoted key) content).bind fun r => readField r.2 := rfl

section

variable (m : StrMember)

theorem blank_before : ∀ c ∈ m.before, isBlank c = true := fun c hc => m.blank c (by simp [hc])

theorem blank_afterKey : ∀ c ∈ m.afterKey, isBlank c = true := fun c hc => m.blank c (by simp [hc])

theorem blank_beforeValue : ∀ c ∈ m.beforeValue, isBlank c = true :=
  fun c hc => m.blank c (by simp [hc])

theorem blank_afterValue : ∀ c ∈ m.afterValue, isBlank c = true :=
  fun c hc => m.blank c (by simp [hc])

/-- The first member is found by its name. -/
theorem extractStringField_first (r : List Char) :
    extractStringField ('\x7b' :: (m.intro ++ '"' :: r)) (spelled m.key) = collected r := by
  have hquote : '"' ∉ '\x7b' :: m.before := by
    rw [List.mem_cons, not_or]
    exact ⟨by decide, notMem_of_blank (blank_before m) (by decide)⟩
  have hcontent : '\x7b' :: (m.intro ++ '"' :: r) = '\x7b' :: m.before ++
      (quoted (spelled m.key) ++ (m.afterKey ++ (':' :: (m.beforeValue ++ '"' :: r)))) := by
    simp [StrMember.intro, quoted]
  have hsplit : splitOnce (quoted (spelled m.key)) ('\x7b' :: (m.intro ++ '"' :: r)) =
      some ('\x7b' :: m.before, m.afterKey ++ (':' :: (m.beforeValue ++ '"' :: r))) := by
    rw [hcontent, quoted, List.cons_append, splitOnce_append hquote, ← List.cons_append, splitOnce_self]
    simp
  rw [extractStringField_eq, hsplit]
  dsimp only [Option.bind_some]
  rw [readField_append (notMem_of_blank (blank_afterKey m) (by decide)), readField_colon,
    fieldValue_quote (blank_beforeValue m)]

end

/-- What makes the name of a second member stand out from the first one: its last letter. -/
structure Distinct (key₁ key₂ : List Char) (z : Char) : Prop where
  quote : '"' ∉ key₁
  last : key₁.getLast? ≠ some z
  ends : ∃ w, key₂ = w ++ [z]
  colon : ':' ∉ key₂
  letter : isBlank z = false ∧ z ∉ ['\x7b', '"', ':', '\\']

section

variable {m₁ m₂ : StrMember} {z : Char}

/-- The first member up to the end of its value. -/
def upToValue (m : StrMember) : List Char := '\x7b' :: (m.intro ++ '"' :: spelled m.value)

theorem apart_upToValue (h : Distinct (spelled m₁.key) key₂ z) : Apart z (upToValue m₁) := by
  obtain ⟨hblank, hz⟩ := h.letter
  simp only [List.mem_cons, List.not_mem_nil, or_false, not_or] at hz
  obtain ⟨hbrace, hquote, hcolon, hback⟩ := hz
  have hblanks : ∀ {v : List Char}, (∀ c ∈ v, isBlank c = true) → z ∉ v :=
    fun hv => notMem_of_blank hv hblank
  have hstart : z ∉ '\x7b' :: m₁.before ++ ['"'] := by
    simp [hbrace, hquote, hblanks (blank_before m₁)]
  have hmiddle : z ∉ '"' :: (m₁.afterKey ++ ':' :: (m₁.beforeValue ++ ['"'])) := by
    simp [hquote, hcolon, hblanks (blank_afterKey m₁), hblanks (blank_beforeValue m₁)]
  have htext : upToValue m₁ = ('\x7b' :: m₁.before ++ ['"']) ++ (spelled m₁.key ++
      ('"' :: (m₁.afterKey ++ ':' :: (m₁.beforeValue ++ ['"'])) ++ spelled m₁.value)) := by
    simp [upToValue, StrMember.intro]
  rw [htext]
  refine (apart_of_notMem hstart).append (.append (apart_of_notMem_quote h.quote z)
    ((apart_of_notMem hmiddle).append (apart_spelled m₁.value hback) (.inr ?_)) (.inr h.last)) (.inr ?_)
  · simpa [List.getLast?_cons, List.getLast?_append] using Ne.symm hquote
  · rw [List.getLast?_concat]
    exact fun heq => hquote (Option.some.inj heq).symm

/-- As long as the first value is open, no second field is found. -/
theorem extractStringField_open (h : Distinct (spelled m₁.key) key₂ z)
    (hkept : kept <+: spelled m₁.value) :
    extractStringField ('\x7b' :: (m₁.intro ++ '"' :: kept)) key₂ = none := by
  obtain ⟨w, rfl⟩ := h.ends
  have hprefix : '\x7b' :: (m₁.intro ++ '"' :: kept) <+: upToValue m₁ := by
    obtain ⟨r, hr⟩ := hkept
    exact ⟨r, by simp [upToValue, ← hr]⟩
  have happart : Apart z _ := List.IsChain.prefix (apart_upToValue h) hprefix
  rw [extractStringField_eq]
  cases hsplit : splitOnce (quoted (w ++ [z])) ('\x7b' :: (m₁.intro ++ '"' :: kept)) with
  | none => rfl
  | some r =>
    refine absurd ?_ (not_infix_of_apart (w := '"' :: w) happart)
    rw [eq_append_of_splitOnce hsplit]
    exact ⟨r.1, r.2, by simp [quoted]⟩

/-- The second member is found where its name is, or where the first value reads like it. -/
theorem extractStringField_second (h : Distinct (spelled m₁.key) (spelled m₂.key) z)
    (hpost : post <+: m₁.afterValue ++ ',' :: (m₂.intro ++ t)) :
    extractStringField (upToValue m₁ ++ '"' :: post) (spelled m₂.key) = readField post := by
  obtain ⟨w, hkey⟩ := h.ends
  have hquoted : quoted (spelled m₂.key) = '"' :: w ++ [z, '"'] := by
    rw [quoted, hkey]
    simp
  have hfound : ∀ {r}, splitOnce (quoted (spelled m₂.key)) (upToValue m₁ ++ '"' :: post) = some r →
      r.2 <:+ post := by
    intro r hr
    rw [hquoted] at hr
    exact suffix_of_apart (apart_upToValue h) hr
  -- The text between the value and the colon.
  have hdelim : ':' ∉ m₁.afterValue ++ ',' :: (m₂.before ++ quoted (spelled m₂.key)) := by
    simp [quoted, h.colon, notMem_of_blank (blank_afterValue m₁) (by decide : isBlank ':' = false),
      notMem_of_blank (blank_before m₂) (by decide : isBlank ':' = false)]
  generalize hd : m₁.afterValue ++ ',' :: (m₂.before ++ quoted (spelled m₂.key)) = delim at hdelim
  have hdelimPost : delim <+: m₁.afterValue ++ ',' :: (m₂.intro ++ t) :=
    ⟨m₂.afterKey ++ (':' :: (m₂.beforeValue ++ t)), by simp [← hd, StrMember.intro, quoted]⟩
  rw [extractStringField_eq]
  rcases List.prefix_or_prefix_of_prefix hdelimPost hpost with ⟨rest, rfl⟩ | hshort
  · -- The name is there, so it is found, there or before.
    have hcontent : upToValue m₁ ++ '"' :: (delim ++ rest) =
        (upToValue m₁ ++ '"' :: (m₁.afterValue ++ ',' :: m₂.before)) ++ quoted (spelled m₂.key) ++
          rest := by
      simp [← hd]
    cases hsplit : splitOnce (quoted (spelled m₂.key)) (upToValue m₁ ++ '"' :: (delim ++ rest)) with
    | none =>
      rw [hcontent] at hsplit
      exact absurd hsplit (splitOnce_ne_none _ _ _)
    | some r =>
      obtain ⟨e, he⟩ := hfound hsplit
      rw [hcontent] at hsplit
      have hsplit : _ = some (r.1, r.2) := hsplit
      obtain ⟨d, hrest⟩ := suffix_of_splitOnce hsplit
      rw [← hrest, ← List.append_assoc] at he
      have hdelimEq := List.append_cancel_right he
      have hcolon : ':' ∉ d := fun hmem => hdelim (hdelimEq ▸ List.mem_append_right e hmem)
      rw [Option.bind_some, ← hrest, readField_append hcolon, readField_append hdelim]
  · have hcolon : ':' ∉ post := fun hmem => hdelim (hshort.subset hmem)
    rw [readField_of_notMem hcolon]
    cases hsplit : splitOnce (quoted (spelled m₂.key)) (upToValue m₁ ++ '"' :: post) with
    | none => rfl
    | some r => exact readField_of_notMem fun hmem => hcolon ((hfound hsplit).subset hmem)

/-- Between the first value and the second one there is the comma, the name and the colon. -/
theorem delimiter_eq (m₁ m₂ : StrMember) (hkey : ':' ∉ spelled m₂.key) : ∃ w, ':' ∉ w ∧
    m₁.afterValue ++ ',' :: m₂.intro = w ++ ':' :: m₂.beforeValue := by
  refine ⟨m₁.afterValue ++ ',' :: (m₂.before ++ quoted (spelled m₂.key) ++ m₂.afterKey), ?_, ?_⟩
  · simp [quoted, hkey, notMem_of_blank (blank_afterValue m₁) (by decide : isBlank ':' = false),
      notMem_of_blank (blank_before m₂) (by decide : isBlank ':' = false),
      notMem_of_blank (blank_afterKey m₂) (by decide : isBlank ':' = false)]
  · simp [StrMember.intro, quoted]

theorem readField_intro (m₁ : StrMember) {m₂ : StrMember} (hkey : ':' ∉ spelled m₂.key)
    (b : List Char) : readField (m₁.afterValue ++ ',' :: m₂.intro ++ '"' :: b) = collected b := by
  obtain ⟨w, hw, hintro⟩ := delimiter_eq m₁ m₂ hkey
  rw [hintro, List.append_assoc, readField_append hw, List.cons_append, readField_colon,
    fieldValue_quote (blank_beforeValue m₂)]

/-- What is read there of a member that may be cut. -/
theorem readField_second (hkey : ':' ∉ spelled m₂.key)
    (hpost : post <+: m₁.afterValue ++ ',' :: m₂.intro ++ '"' :: t) :
    readField post = none ∨ ∃ b, b <+: t ∧ readField post = collected b ∧
      post = m₁.afterValue ++ ',' :: m₂.intro ++ '"' :: b := by
  obtain ⟨w, hw, hintro⟩ := delimiter_eq m₁ m₂ hkey
  have hopen : ∀ {p}, p <+: m₁.afterValue ++ ',' :: m₂.intro → readField p = none := fun hp =>
    readField_start hw (blank_beforeValue m₂) (hintro ▸ hp)
  rcases List.prefix_or_prefix_of_prefix hpost (List.prefix_append _ _) with hshort | ⟨r, rfl⟩
  · exact .inl (hopen hshort)
  · have hr := (List.prefix_append_right_inj _).mp hpost
    cases r with
    | nil => exact .inl (hopen (by simp))
    | cons c b =>
      obtain ⟨rfl, hb⟩ := List.cons_prefix_cons.mp hr
      exact .inr ⟨b, hb, readField_intro m₁ hkey b, rfl⟩

/-- The text before a value holds what the name holds, and punctuation. -/
theorem notMem_intro (m : StrMember) {d : Char} (hkey : d ∉ spelled m.key)
    (hd : isBlank d = false ∧ d ∉ ['"', ':']) : d ∉ m.intro := by
  obtain ⟨hblank, hpunct⟩ := hd
  simp only [List.mem_cons, List.not_mem_nil, or_false, not_or] at hpunct
  simp [StrMember.intro, hkey, hpunct, notMem_of_blank (blank_before m) hblank,
    notMem_of_blank (blank_afterKey m) hblank, notMem_of_blank (blank_beforeValue m) hblank]

end

end Ravn
