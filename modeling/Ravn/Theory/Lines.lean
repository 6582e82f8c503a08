import Mathlib.Data.List.DropRight
import Ravn.Theory.Text

/-! Texts that are written line by line and read back: trimming a line that has no white space at its
ends, finding a delimiter line, and numerals. What is cut out of a text has no other characters. -/

namespace Ravn.Theory

/-! ## Trimming -/

theorem mem_of_mem_dropWhile {p : α → Bool} {l : List α} (h : a ∈ l.dropWhile p) : a ∈ l :=
  (List.dropWhile_sublist p).subset h

theorem mem_of_mem_trimStartMatches (h : c ∈ trimStartMatches d cs) : c ∈ cs :=
  mem_of_mem_dropWhile h

theorem mem_of_mem_trimEndMatches (h : c ∈ trimEndMatches d cs) : c ∈ cs := by
  simpa using mem_of_mem_dropWhile (List.mem_reverse.mp h)

theorem mem_of_mem_trimEnd (h : c ∈ trimEnd cs) : c ∈ cs := by
  simpa using mem_of_mem_dropWhile (List.mem_reverse.mp h)

theorem mem_of_mem_trim (h : c ∈ trim cs) : c ∈ cs :=
  mem_of_mem_dropWhile (mem_of_mem_trimEnd h)

theorem trimEnd_append_cons (ha : isWhitespace a = false) (cs ds : List Char) :
    trimEnd (cs ++ a :: ds) = cs ++ a :: trimEnd ds := by
  simp only [trimEnd, List.reverse_append, List.reverse_cons, List.append_assoc,
    List.dropWhile_append]
  split
  · rename_i hnil
    simp_all
  · simp

/-- A text is trimmed up to an end that is not white space. -/
theorem trimEnd_append {cs : List Char} (h : cs.getLast?.any (!isWhitespace ·) = true)
    (ds : List Char) : trimEnd (cs ++ ds) = cs ++ trimEnd ds := by
  obtain rfl | ⟨init, last, rfl⟩ := cs.eq_nil_or_concat
  · cases h
  · have hlast : isWhitespace last = false := by simpa using h
    simpa using trimEnd_append_cons hlast init ds

/-- A text between two characters that are not white space. -/
theorem trim_between (ha : isWhitespace a = false) (hb : isWhitespace b = false) (cs : List Char) :
    trim (a :: (cs ++ [b])) = a :: (cs ++ [b]) := by
  simp [trim, ha, hb]

theorem trim_cons_blank (ha : isWhitespace a = true) (cs : List Char) :
    trim (a :: cs) = trim cs := by
  simp [trim, ha]

theorem trim_append_blank (ha : isWhitespace a = true) (hb : isWhitespace b = false)
    (cs : List Char) : trim (cs ++ [b] ++ [a]) = trim (cs ++ [b]) := by
  simp only [trim, List.dropWhile_append, List.isEmpty_iff]
  split
  · simp [ha, hb]
  · rename_i hcs
    simp [hcs, ha, hb]

/-- A text that has been trimmed is trimmed. -/
theorem trim_trim (cs : List Char) : trim (trim cs) = trim cs := by
  have hstart : (trim cs).dropWhile isWhitespace = trim cs := by
    obtain ⟨a, ha⟩ : trim cs <+: cs.dropWhile isWhitespace := by
      rw [← List.reverse_suffix, trim, List.reverse_reverse]
      exact List.dropWhile_suffix _
    cases h : trim cs with
    | nil => rfl
    | cons c cs' =>
      have hhead := List.head?_dropWhile_not isWhitespace cs
      rw [← ha, h] at hhead
      exact List.dropWhile_cons_of_neg (Bool.eq_false_iff.mp hhead)
  rw [trim, hstart, trim, List.reverse_reverse, List.dropWhile_idempotent]

/-- White space around a text is trimmed away. -/
theorem trim_surround {pre post : List Char} (hpre : ∀ c ∈ pre, isWhitespace c = true)
    (hpost : ∀ c ∈ post, isWhitespace c = true) (cs : List Char) :
    trim (pre ++ cs ++ post) = trim cs := by
  rw [trim, List.append_assoc, List.dropWhile_append_of_pos hpre, List.dropWhile_append]
  split
  · rename_i hnil
    rw [trim, List.isEmpty_iff.mp hnil, List.dropWhile_eq_nil_iff.mpr hpost]
  · rw [List.reverse_append, List.dropWhile_append_of_pos fun c hc => hpost c (List.mem_reverse.mp hc)]
    rfl

theorem exists_eq_trimEnd_append (cs : List Char) :
    ∃ post, (∀ c ∈ post, isWhitespace c = true) ∧ cs = trimEnd cs ++ post := by
  refine ⟨(cs.reverse.takeWhile isWhitespace).reverse, fun c hc => ?_, ?_⟩
  · exact List.mem_takeWhile_imp (List.mem_reverse.mp hc)
  · rw [trimEnd, ← List.reverse_append, List.takeWhile_append_dropWhile, List.reverse_reverse]

/-- A text is white space around what is left of it when it is trimmed. -/
theorem exists_eq_surround (cs : List Char) : ∃ pre post, (∀ c ∈ pre, isWhitespace c = true) ∧
    (∀ c ∈ post, isWhitespace c = true) ∧ cs = pre ++ trim cs ++ post := by
  obtain ⟨post, hpost, hcs⟩ := exists_eq_trimEnd_append (cs.dropWhile isWhitespace)
  refine ⟨cs.takeWhile isWhitespace, post, fun c hc => List.mem_takeWhile_imp hc, hpost, ?_⟩
  have htrim : trimEnd (cs.dropWhile isWhitespace) = trim cs := rfl
  rw [List.append_assoc, ← htrim, ← hcs, List.takeWhile_append_dropWhile]

theorem length_trimEnd_le (cs : List Char) : (trimEnd cs).length ≤ cs.length := by
  obtain ⟨post, -, hcs⟩ := exists_eq_trimEnd_append cs
  have hlength := congrArg List.length hcs
  rw [List.length_append] at hlength
  omega

theorem length_trim_le (cs : List Char) : (trim cs).length ≤ cs.length :=
  (length_trimEnd_le _).trans (List.dropWhile_sublist _).length_le

theorem length_trimStartMatches_le (c : Char) (cs : List Char) :
    (trimStartMatches c cs).length ≤ cs.length :=
  (List.dropWhile_sublist _).length_le

theorem length_trimEndMatches_le (c : Char) (cs : List Char) :
    (trimEndMatches c cs).length ≤ cs.length := by
  rw [trimEndMatches, List.length_reverse]
  refine (List.dropWhile_sublist _).length_le.trans ?_
  rw [List.length_reverse]

theorem trim_trimEnd (cs : List Char) : trim (trimEnd cs) = trim cs := by
  obtain ⟨post, hpost, hcs⟩ := exists_eq_trimEnd_append cs
  have hend := trim_surround (fun c hc => absurd hc (List.not_mem_nil (a := c))) hpost (trimEnd cs)
  rw [List.nil_append, ← hcs] at hend
  exact hend.symm

theorem trim_trimEnd_word (h : ∀ c ∈ cs, isWhitespace c = false) :
    trim (trimEnd (' ' :: cs)) = cs := by
  obtain rfl | ⟨init, last, rfl⟩ := cs.eq_nil_or_concat
  · rfl
  · have hlast : isWhitespace last = false := h last (by simp)
    have hend : trimEnd (' ' :: (init ++ [last])) = ' ' :: (init ++ [last]) :=
      trimEnd_append_cons hlast (' ' :: init) []
    rw [List.concat_eq_append] at h ⊢
    rw [hend, trim_cons_blank (by decide), trim_eq_self h]

theorem trim_trimEnd_between (ha : isWhitespace a = false) (hb : isWhitespace b = false)
    (cs : List Char) : trim (trimEnd (' ' :: a :: (cs ++ [b]))) = a :: (cs ++ [b]) := by
  have hend : trimEnd (' ' :: a :: (cs ++ [b])) = ' ' :: a :: (cs ++ [b]) :=
    trimEnd_append_cons hb (' ' :: a :: cs) []
  rw [hend, trim_cons_blank (by decide), trim_between ha hb]

/-- A trimmed text does not end in white space. -/
theorem isWhitespace_getLast?_trim (h : (trim cs).getLast? = some c) : isWhitespace c = false := by
  rw [trim, List.getLast?_reverse] at h
  simpa [h] using List.head?_dropWhile_not isWhitespace (cs.dropWhile isWhitespace).reverse

theorem trimEndMatches_concat (c : Char) (cs : List Char) :
    trimEndMatches c (cs ++ [c]) = trimEndMatches c cs := by
  simp [trimEndMatches]

theorem trimEndMatches_concat_of_ne (h : d ≠ c) (cs : List Char) :
    trimEndMatches c (cs ++ [d]) = cs ++ [d] := by
  simp [trimEndMatches, h]

theorem trimMatches_concat (c : Char) (cs : List Char) :
    trimEndMatches c (trimStartMatches c (cs ++ [c])) = trimEndMatches c (trimStartMatches c cs) := by
  simp only [trimStartMatches, List.dropWhile_append]
  split
  · rename_i hnil
    rw [List.isEmpty_iff.mp hnil]
    simp
  · exact trimEndMatches_concat c _

theorem isWhitespace_of_isDigit (h : c.isDigit = true) : isWhitespace c = false := by
  simp only [Char.isDigit, Bool.and_eq_true, decide_eq_true_eq, ge_iff_le, UInt32.le_iff_toNat_le] at h
  obtain ⟨hlow, hhigh⟩ := h
  have hnat : 48 ≤ c.toNat ∧ c.toNat ≤ 57 := ⟨hlow, hhigh⟩
  simp [isWhitespace]
  omega

/-- What white space does not count for is the same before and after trimming. -/
theorem sum_map_trim {f : Char → Nat} (hf : ∀ c, isWhitespace c = true → f c = 0) (cs : List Char) :
    ((trim cs).map f).sum = (cs.map f).sum := by
  have hdrop : ∀ cs : List Char, ((cs.dropWhile isWhitespace).map f).sum = (cs.map f).sum := by
    intro cs
    induction cs with
    | nil => rfl
    | cons c cs ih =>
      rw [List.dropWhile_cons]
      split
      · rw [ih, List.map_cons, List.sum_cons, hf c ‹_›, Nat.zero_add]
      · rfl
  rw [trim, List.map_reverse, List.sum_reverse, hdrop, List.map_reverse, List.sum_reverse, hdrop]

/-! ## Cutting -/

@[simp] theorem stripPrefix_append (pat cs : List Char) : stripPrefix pat (pat ++ cs) = some cs := by
  simp [stripPrefix]

/-- A text is searched from the first character of the pattern on. -/
theorem splitOnce_append (h : c ∉ l) (pat cs : List Char) :
    splitOnce (c :: pat) (l ++ cs) = (splitOnce (c :: pat) cs).map fun r => (l ++ r.1, r.2) := by
  induction l with
  | nil => simp
  | cons d l ih =>
    simp only [List.mem_cons, not_or] at h
    have hd : (c == d) = false := by simpa using h.1
    simp [splitOnce, List.isPrefixOf, hd, ih h.2, Function.comp_def]

theorem splitOnce_self (pat cs : List Char) : splitOnce pat (pat ++ cs) = some ([], cs) := by
  cases pat with
  | nil => cases cs <;> simp [splitOnce]
  | cons c pat => simp [splitOnce, List.isPrefixOf]

/-- Two texts that are the same are the same up to their first copy of a character and after it. -/
theorem append_cons_inj {l l' r r' : List Char} (hl : c ∉ l) (hl' : c ∉ l')
    (h : l ++ c :: r = l' ++ c :: r') : l = l' ∧ r = r' := by
  have hsplit : ∀ {l r : List Char}, c ∉ l → splitOnce [c] (l ++ c :: r) = some (l, r) := by
    intro l r hl
    have hself := splitOnce_self [c] r
    rw [List.cons_append, List.nil_append] at hself
    rw [splitOnce_append hl, hself]
    simp
  have hpair := (hsplit hl).symm.trans ((congrArg (splitOnce [c]) h).trans (hsplit hl'))
  exact ⟨congrArg (·.1) (Option.some.inj hpair), congrArg (·.2) (Option.some.inj hpair)⟩

theorem splitOnce_ne_none (a pat b : List Char) : splitOnce pat (a ++ pat ++ b) ≠ none := by
  induction a with
  | nil =>
    rw [List.nil_append, splitOnce_self]
    exact Option.some_ne_none _
  | cons c a ih =>
    rw [List.cons_append, List.cons_append, splitOnce]
    split
    · exact Option.some_ne_none _
    · simpa using ih

/-- What follows some occurrence is an end of what follows the first one. -/
theorem suffix_of_splitOnce (h : splitOnce pat (a ++ pat ++ b) = some (before, after)) :
    b <:+ after := by
  induction a generalizing before with
  | nil =>
    rw [List.nil_append, splitOnce_self] at h
    cases h
    exact List.suffix_rfl
  | cons c a ih =>
    rw [List.cons_append, List.cons_append, splitOnce] at h
    split at h
    · cases h
      rw [← List.cons_append,
        List.drop_append_of_le_length (by rw [List.length_cons, List.length_append]; omega)]
      exact List.suffix_append _ _
    · obtain ⟨r, hr, h⟩ := Option.map_eq_some_iff.mp h
      cases h
      exact ih hr

/-- What comes after does not move the first copy of a character. -/
theorem splitOnce_append_of_notMem (h : c ∉ l) (cs : List Char) :
    splitOnce [c] (cs ++ l) = (splitOnce [c] cs).map fun r => (r.1, r.2 ++ l) := by
  induction cs with
  | nil => simpa [splitOnce] using splitOnce_append h [] []
  | cons d cs ih =>
    rw [List.cons_append, splitOnce, splitOnce, ih]
    by_cases hd : c = d
    · subst hd
      simp [List.isPrefixOf]
    · simp [List.isPrefixOf, hd, Function.comp_def]

theorem notMem_of_splitOnce (h : splitOnce [c] cs = some (before, after)) : c ∉ before := by
  induction cs generalizing before with
  | nil => simp [splitOnce] at h
  | cons d cs ih =>
    rw [splitOnce] at h
    split at h
    · cases h
      exact List.not_mem_nil
    · rename_i hd
      obtain ⟨r, hr, h⟩ := Option.map_eq_some_iff.mp h
      cases h
      refine List.not_mem_cons_of_ne_of_not_mem (fun heq => hd ?_) (ih hr)
      simp [List.isPrefixOf, heq]

/-- White space around a text is white space around its parts. -/
theorem map_trim_splitFrom {pre post : List Char} (hpre : ∀ c ∈ pre, isWhitespace c = true)
    (hpost : ∀ c ∈ post, isWhitespace c = true) (hsep : isWhitespace sep = false)
    (acc cs : List Char) :
    (splitFrom sep (acc ++ pre.reverse) (cs ++ post)).map trim = (splitFrom sep acc cs).map trim := by
  have hnil : ∀ c ∈ ([] : List Char), isWhitespace c = true := fun c hc => absurd hc List.not_mem_nil
  have hmem : sep ∉ post := fun hmem => by simp [hpost sep hmem] at hsep
  induction cs generalizing acc pre with
  | nil =>
    have hlast := splitFrom_append hmem (acc ++ pre.reverse) []
    rw [List.append_nil] at hlast
    rw [List.nil_append, hlast, splitFrom, splitFrom, List.map_singleton, List.map_singleton]
    simpa using trim_surround hpre hpost acc.reverse
  | cons c cs ih =>
    rw [List.cons_append, splitFrom, splitFrom]
    split
    · have hfirst : trim (acc ++ pre.reverse).reverse = trim acc.reverse := by
        simpa using trim_surround hpre hnil acc.reverse
      rw [List.map_cons, List.map_cons, hfirst]
      exact congrArg _ (ih hnil [])
    · exact ih hpre (c :: acc)

theorem map_trim_split {pre post : List Char} (hpre : ∀ c ∈ pre, isWhitespace c = true)
    (hpost : ∀ c ∈ post, isWhitespace c = true) (hsep : isWhitespace sep = false) (cs : List Char) :
    (split sep (pre ++ cs ++ post)).map trim = (split sep cs).map trim := by
  have hmem : sep ∉ pre := fun hmem => by simp [hpre sep hmem] at hsep
  rw [split, List.append_assoc, splitFrom_append hmem, List.append_nil]
  exact map_trim_splitFrom hpre hpost hsep [] cs

theorem map_trim_split_trim (hsep : isWhitespace sep = false) (cs : List Char) :
    (split sep (trim cs)).map trim = (split sep cs).map trim := by
  obtain ⟨pre, post, hpre, hpost, hcs⟩ := exists_eq_surround cs
  have hsplit := map_trim_split hpre hpost hsep (trim cs)
  rw [← hcs] at hsplit
  exact hsplit.symm

/-- Parts that were joined with a separator and a blank. -/
theorem map_trim_split_intercalate (hsep : isWhitespace sep = false) (hb : isWhitespace b = true)
    (hne : ls ≠ []) (hls : ∀ l ∈ ls, sep ∉ l) :
    (split sep ([sep, b].intercalate ls)).map trim = ls.map trim := by
  have hblank : ∀ c ∈ [b], isWhitespace c = true := fun c hc => List.mem_singleton.mp hc ▸ hb
  have hnil : ∀ c ∈ ([] : List Char), isWhitespace c = true := fun c hc => absurd hc List.not_mem_nil
  induction ls with
  | nil => exact absurd rfl hne
  | cons l ls ih =>
    have hl : sep ∉ l := hls l List.mem_cons_self
    cases ls with
    | nil =>
      rw [List.intercalate_singleton, split_of_notMem hl]
    | cons m ls =>
      have hrest := map_trim_split hblank hnil hsep ([sep, b].intercalate (m :: ls))
      rw [List.append_nil, ih (List.cons_ne_nil _ _) fun l hl => hls l (List.mem_cons_of_mem _ hl)]
        at hrest
      rw [List.intercalate_cons_cons, List.append_assoc, List.cons_append, split_append_cons hl,
        List.map_cons, List.map_cons, ← hrest]

theorem mem_of_mem_intercalate {sep : List Char} {ls : List (List Char)}
    (h : c ∈ sep.intercalate ls) : c ∈ sep ∨ ∃ l ∈ ls, c ∈ l := by
  induction ls with
  | nil => simp at h
  | cons l ls ih =>
    cases ls with
    | nil =>
      rw [List.intercalate_singleton] at h
      exact .inr ⟨l, by simp, h⟩
    | cons m ls =>
      rw [List.intercalate_cons_cons] at h
      rcases List.mem_append.mp h with h | h
      · rcases List.mem_append.mp h with h | h
        · exact .inr ⟨l, by simp, h⟩
        · exact .inl h
      · obtain h | ⟨l', hl', h⟩ := ih h
        · exact .inl h
        · exact .inr ⟨l', List.mem_cons_of_mem _ hl', h⟩

theorem length_le_intercalate {sep : List Char} {ls : List (List Char)} (h : l ∈ ls) :
    l.length ≤ (sep.intercalate ls).length := by
  induction ls with
  | nil => cases h
  | cons m ls ih =>
    cases ls with
    | nil => rw [List.mem_singleton.mp h, List.intercalate_singleton]
    | cons n ls =>
      rw [List.intercalate_cons_cons, List.length_append, List.length_append]
      rcases List.mem_cons.mp h with rfl | h
      · omega
      · exact (ih h).trans (Nat.le_add_left _ _)

/-! ## Lines -/

/-- Every line with the line feed after it. -/
def unlines (ls : List (List Char)) : List Char := ls.flatMap (· ++ ['\n'])

/-- Two lines of which one is a prefix of the other up to the line feed are the same. -/
theorem eq_of_line_isPrefix {d l : List Char} (hd : '\n' ∉ d) (hl : '\n' ∉ l)
    (h : d ++ ['\n'] <+: l ++ '\n' :: r) : d = l := by
  obtain ⟨t, ht⟩ := h
  rw [List.append_assoc] at ht
  exact (append_cons_inj hd hl ht).1

/-- The first line that is the delimiter ends what stands before it. -/
theorem splitOnce_unlines {d : List Char} (hd : '\n' ∉ d) (body : List Char)
    (hne : ls ≠ []) (hls : ∀ l ∈ ls, '\n' ∉ l) (hdelim : ∀ l ∈ ls.tail, l ≠ d) :
    splitOnce ('\n' :: d ++ ['\n']) (unlines ls ++ (d ++ '\n' :: body)) =
      some (['\n'].intercalate ls, body) := by
  induction ls with
  | nil => exact absurd rfl hne
  | cons l ls ih =>
    have hl : '\n' ∉ l := hls l List.mem_cons_self
    cases ls with
    | nil =>
      have hself : splitOnce ('\n' :: (d ++ ['\n'])) ('\n' :: (d ++ '\n' :: body)) =
          some ([], body) := by
        simpa using splitOnce_self ('\n' :: (d ++ ['\n'])) body
      simp [unlines, splitOnce_append hl, hself]
    | cons m ls =>
      have hm : '\n' ∉ m := hls m (by simp)
      have hrest := ih (by simp) (fun l h => hls l (List.mem_cons_of_mem _ h)) fun l h =>
        hdelim l (List.mem_cons_of_mem _ h)
      have hstep : splitOnce ('\n' :: (d ++ ['\n']))
          ('\n' :: (unlines (m :: ls) ++ (d ++ '\n' :: body))) =
          some ('\n' :: ['\n'].intercalate (m :: ls), body) := by
        have hno : ¬ d ++ ['\n'] <+: unlines (m :: ls) ++ (d ++ '\n' :: body) := by
          intro h
          have hcut : unlines (m :: ls) ++ (d ++ '\n' :: body) =
              m ++ '\n' :: (unlines ls ++ (d ++ '\n' :: body)) := by
            simp [unlines]
          exact hdelim m List.mem_cons_self (eq_of_line_isPrefix hd hm (hcut ▸ h)).symm
        rw [List.cons_append] at hrest
        simp [splitOnce, List.isPrefixOf, hno, hrest]
      have hcut : unlines (l :: m :: ls) ++ (d ++ '\n' :: body) =
          l ++ '\n' :: (unlines (m :: ls) ++ (d ++ '\n' :: body)) := by
        simp [unlines]
      rw [hcut, List.cons_append, splitOnce_append hl, hstep, List.intercalate_cons_cons]
      simp

theorem linesFrom_last {l : List Char} (hn : '\n' ∉ l) (acc : List Char)
    (hne : l ≠ [] ∨ acc ≠ []) : linesFrom acc l = [acc.reverse ++ l] := by
  induction l generalizing acc with
  | nil =>
    cases acc with
    | nil => simp at hne
    | cons c acc => simp [linesFrom]
  | cons c l ih =>
    simp only [List.mem_cons, not_or] at hn
    rw [linesFrom_cons (Ne.symm hn.1), ih hn.2 _ (.inr (List.cons_ne_nil _ _))]
    simp

theorem notMem_of_mem_stripCr (h : c ∉ acc) : c ∉ stripCr acc := by
  rw [stripCr.eq_def]
  split
  · simp only [List.mem_cons, not_or] at h
    simpa using h.2
  · simpa using h

theorem notMem_of_mem_linesFrom (h : l ∈ linesFrom acc cs) (hacc : '\n' ∉ acc) : '\n' ∉ l := by
  induction cs generalizing acc with
  | nil =>
    cases acc with
    | nil => cases h
    | cons c acc =>
      cases List.mem_singleton.mp h
      exact fun hmem => hacc (List.mem_reverse.mp hmem)
  | cons c cs ih =>
    by_cases hc : c = '\n'
    · subst hc
      rw [linesFrom_newline] at h
      rcases List.mem_cons.mp h with rfl | h
      · exact notMem_of_mem_stripCr hacc
      · exact ih h List.not_mem_nil
    · rw [linesFrom_cons hc] at h
      exact ih h (List.not_mem_cons_of_ne_of_not_mem (Ne.symm hc) hacc)

/-- A line has no line feed. -/
theorem notMem_of_mem_lines (h : l ∈ lines cs) : '\n' ∉ l := notMem_of_mem_linesFrom h List.not_mem_nil

theorem lines_intercalate (hne : ∀ l ∈ ls.getLast?, l ≠ []) (hn : ∀ l ∈ ls, '\n' ∉ l)
    (hr : ∀ l ∈ ls, l.getLast? ≠ some '\r') : lines (['\n'].intercalate ls) = ls := by
  induction ls with
  | nil => rfl
  | cons l ls ih =>
    cases ls with
    | nil =>
      rw [List.intercalate_singleton]
      exact linesFrom_last (hn l (by simp)) [] (.inl (hne l rfl))
    | cons m ls =>
      have hrest := ih (by simpa using hne) (fun l h => hn l (List.mem_cons_of_mem _ h)) fun l h =>
        hr l (List.mem_cons_of_mem _ h)
      have hcut : ['\n'].intercalate (l :: m :: ls) = l ++ '\n' :: ['\n'].intercalate (m :: ls) := by
        rw [List.intercalate_cons_cons, List.append_assoc, List.singleton_append]
      rw [hcut, lines_line (hn l (by simp)) (hr l (by simp)), hrest]

/-! ## Numerals -/

theorem ofDecimal_digits {ds : List Char} (hne : ds ≠ []) (hd : ∀ c ∈ ds, c.isDigit = true) :
    ofDecimal ds = some (Nat.ofDigitChars 10 ds 0) := by
  have hfold : ∀ (ds : List Char) (n : Nat), (∀ c ∈ ds, c.isDigit = true) →
      ds.foldlM (fun n c => if c.isDigit then some (10 * n + (c.toNat - 48)) else none) n =
        some (Nat.ofDigitChars 10 ds n) := by
    intro ds
    induction ds with
    | nil => intro n _; rfl
    | cons c ds ih =>
      intro n hd
      rw [List.foldlM_cons, if_pos (hd c List.mem_cons_self), Nat.ofDigitChars_cons]
      exact ih _ fun c hc => hd c (List.mem_cons_of_mem _ hc)
  rw [ofDecimal, if_neg (by simpa using hne), hfold ds 0 hd]

theorem isDigit_of_mem_toString {n : Nat} (h : c ∈ (toString n).toList) : c.isDigit = true := by
  rw [Nat.toString_eq_repr, Nat.toList_repr] at h
  exact Nat.isDigit_of_mem_toDigits (by decide) (by decide) h

theorem toString_ne_nil (n : Nat) : (toString n).toList ≠ [] := by
  rw [Nat.toString_eq_repr, Nat.toList_repr]
  exact Nat.toDigits_ne_nil

theorem ofDecimal_toString (n : Nat) : ofDecimal (toString n).toList = some n := by
  rw [ofDecimal_digits (toString_ne_nil n) fun _ => isDigit_of_mem_toString, Nat.toString_eq_repr,
    Nat.toList_repr, Nat.ofDigitChars_ten_toDigits]

theorem toString_ne_cons {n : Nat} (hc : c.isDigit = false) (cs : List Char) :
    (toString n).toList ≠ c :: cs := by
  intro h
  have hdigit := isDigit_of_mem_toString (n := n) (h ▸ List.mem_cons_self)
  simp [hc] at hdigit

theorem parseUnsigned_toString {n bound : Nat} (h : n < bound) :
    parseUnsigned bound (toString n).toList = some n := by
  unfold parseUnsigned
  split
  · rename_i cs heq
    exact absurd heq (toString_ne_cons (by decide) cs)
  · rw [ofDecimal_toString, Option.filter_some, if_pos (by simpa using h)]

theorem parseUnsigned_lt (h : parseUnsigned bound cs = some n) : n < bound :=
  of_decide_eq_true (Option.filter_eq_some_iff.mp h).2

theorem parseSigned_lt {i : Int} (h : parseSigned bound cs = some i) (hbound : 0 < bound) :
    i < bound := by
  unfold parseSigned at h
  split at h
  · rename_i cs
    cases hp : ofDecimal cs with
    | none => simp [hp] at h
    | some n =>
      simp only [hp, Option.filter_some] at h
      split at h
      · cases h
        change -(n : Int) < bound
        omega
      · cases h
  · cases hp : parseUnsigned bound cs with
    | none => simp [hp] at h
    | some n =>
      rw [hp] at h
      cases h
      exact Int.ofNat_lt.mpr (parseUnsigned_lt hp)

theorem toString_ofNat (n : Nat) : toString (n : Int) = toString n := rfl

theorem toString_negSucc (n : Nat) : toString (Int.negSucc n) = "-" ++ toString (n + 1) := rfl

theorem parseSigned_toString {i : Int} {bound : Nat} (hlow : -(bound : Int) ≤ i)
    (hhigh : i < bound) : parseSigned bound (toString i).toList = some i := by
  cases i with
  | ofNat n =>
    rw [Int.ofNat_eq_natCast] at *
    rw [toString_ofNat]
    unfold parseSigned
    split
    · rename_i cs heq
      exact absurd heq (toString_ne_cons (by decide) cs)
    · rw [parseUnsigned_toString (by omega)]
      rfl
  | negSucc n =>
    have hle : n + 1 ≤ bound := by omega
    have hcs : (toString (Int.negSucc n)).toList = '-' :: (toString (n + 1)).toList := by
      rw [toString_negSucc, String.toList_append]
      rfl
    rw [hcs]
    simp only [parseSigned, ofDecimal_toString, Option.filter_some, hle, decide_true, if_true]
    rfl

/-- A numeral has no other characters than digits and a sign. -/
theorem mem_toString_int {i : Int} (h : c ∈ (toString i).toList) : c = '-' ∨ c.isDigit = true := by
  cases i with
  | ofNat n => exact .inr (isDigit_of_mem_toString (n := n) h)
  | negSucc n =>
    rw [toString_negSucc, String.toList_append] at h
    rcases List.mem_append.mp h with h | h
    · exact .inl (List.mem_singleton.mp h)
    · exact .inr (isDigit_of_mem_toString h)

end Ravn.Theory
