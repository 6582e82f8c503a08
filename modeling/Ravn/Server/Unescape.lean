import Ravn.Server.Inference

/-! What the loop of `extract_string_field` collects of a string in any of its spellings. It knows the
escapes of a quote, a backslash, a slash and the three common control characters, and takes the letter
for the character in the others. -/

namespace Ravn

open Theory Theory.Json

/-! ## Escapes -/

/-- There is an escape that the loop does not know: `\b`, `\f` or `\u`. -/
def misreads : List Char → Bool
  | '\\' :: c :: cs => c ∈ ['b', 'f', 'u'] || misreads cs
  | _ :: cs => misreads cs
  | [] => false

theorem misreads_cons {c : Char} (h : c ≠ '\\') (cs : List Char) : misreads (c :: cs) = misreads cs := by
  rw [misreads]
  exact fun _ _ hc => absurd hc h

theorem misreads_append_of_notMem {l : List Char} (h : '\\' ∉ l) (cs : List Char) :
    misreads (l ++ cs) = misreads cs := by
  induction l with
  | nil => rfl
  | cons c l ih =>
    rw [List.mem_cons, not_or] at h
    rw [List.cons_append, misreads_cons (Ne.symm h.1), ih h.2]

theorem misreads_of_prefix (h : l <+: cs) (hread : misreads cs = false) : misreads l = false := by
  obtain ⟨t, rfl⟩ := h
  induction l using misreads.induct with
  | case1 c cs ih =>
    rw [List.cons_append, List.cons_append, misreads, Bool.or_eq_false_iff] at hread
    rw [misreads, Bool.or_eq_false_iff]
    exact ⟨hread.1, ih hread.2⟩
  | case2 c cs hpair ih =>
    by_cases hc : c = '\\'
    · cases cs with
      | nil => rw [hc]; rfl
      | cons d cs => exact absurd hc (hpair d cs · rfl)
    · rw [List.cons_append, misreads_cons hc] at hread
      rw [misreads_cons hc]
      exact ih hread
  | case3 => rfl

/-- The loop goes through a text without meeting the closing quote or stopping after a backslash. -/
def Whole (t : List Char) : Prop :=
  ∀ r, unescape false (t ++ r) = ((unescape false t).1 ++ (unescape false r).1, (unescape false r).2)

theorem Whole.nil : Whole [] := fun _ => rfl

theorem unescape_cons {c : Char} (hquote : c ≠ '"') (hback : c ≠ '\\') (cs : List Char) :
    unescape false (c :: cs) = (c :: (unescape false cs).1, (unescape false cs).2) := by
  rw [unescape, if_neg hback, if_neg hquote]

theorem unescape_escaped (c : Char) (cs : List Char) :
    unescape false ('\\' :: c :: cs) =
      (unescapeLetter c :: (unescape false cs).1, (unescape false cs).2) := by
  rw [unescape, if_pos rfl, unescape]

theorem Whole.cons {c : Char} (hquote : c ≠ '"') (hback : c ≠ '\\') (h : Whole t) : Whole (c :: t) := by
  intro r
  rw [List.cons_append, unescape_cons hquote hback, unescape_cons hquote hback, h r, List.cons_append]

theorem Whole.escaped (c : Char) (h : Whole t) : Whole ('\\' :: c :: t) := by
  intro r
  rw [List.cons_append, List.cons_append, unescape_escaped, unescape_escaped, h r, List.cons_append]

theorem Whole.append (h : Whole t) (h' : Whole t') : Whole (t ++ t') := by
  intro r
  rw [List.append_assoc, h, h' r, h t', List.append_assoc]

/-! ## Codes -/

/-- How much of a character is seen, told apart from what the loop takes an escape for. -/
def weight (c : Char) : Nat := if isWhitespace c then 0 else if c = '\x08' then 1 else 2

theorem weight_le (c : Char) : weight c ≤ 2 := by
  unfold weight
  split
  · omega
  · split <;> omega

theorem hexDigit_spec {c : Char} (h : (hexDigitVal c).isSome = true) :
    c ≠ '"' ∧ c ≠ '\\' ∧ weight c = 2 := by
  have hc : 48 ≤ c.toNat ∧ c.toNat ≤ 57 ∨ 97 ≤ c.toNat ∧ c.toNat ≤ 102 ∨
      65 ≤ c.toNat ∧ c.toNat ≤ 70 := by
    unfold hexDigitVal at h
    split at h
    · exact .inl ‹_›
    · split at h
      · exact .inr (.inl ‹_›)
      · split at h
        · exact .inr (.inr ‹_›)
        · cases h
  have hne : ∀ d : Char, ¬(48 ≤ d.toNat ∧ d.toNat ≤ 57 ∨ 97 ≤ d.toNat ∧ d.toNat ≤ 102 ∨
      65 ≤ d.toNat ∧ d.toNat ≤ 70) → c ≠ d := by
    rintro d hd rfl
    exact hd hc
  have hblank : isWhitespace c = false := by
    simp [isWhitespace]
    omega
  refine ⟨hne _ (by decide), hne _ (by decide), ?_⟩
  rw [weight, hblank, if_neg Bool.false_ne_true, if_neg (hne _ (by decide))]

theorem hex4_cases (h : hex4 cs = some (n, r)) : ∃ a b c d, cs = a :: b :: c :: d :: r ∧
    ∀ x ∈ [a, b, c, d], (hexDigitVal x).isSome = true := by
  match cs, h with
  | a :: b :: c :: d :: r', h =>
    obtain ⟨m, hm, heq⟩ := Option.map_eq_some_iff.mp h
    cases heq
    refine ⟨a, b, c, d, rfl, ?_⟩
    obtain ⟨va, ha, hm⟩ := Option.bind_eq_some_iff.mp hm
    obtain ⟨vb, hb, hm⟩ := Option.bind_eq_some_iff.mp hm
    obtain ⟨vc, hc, hm⟩ := Option.bind_eq_some_iff.mp hm
    obtain ⟨vd, hd, -⟩ := Option.bind_eq_some_iff.mp hm
    simp [ha, hb, hc, hd]
  | [], h | [_], h | [_, _], h | [_, _, _], h => cases h

/-- Four digits are collected as they stand. -/
theorem unescape_hex {ds : List Char} (hds : ∀ x ∈ ds, (hexDigitVal x).isSome = true)
    (h : Whole t) : Whole (ds ++ t) ∧ (unescape false (ds ++ t)).1 = ds ++ (unescape false t).1 := by
  induction ds with
  | nil => exact ⟨h, rfl⟩
  | cons d ds ih =>
    obtain ⟨hquote, hback, -⟩ := hexDigit_spec (hds d List.mem_cons_self)
    obtain ⟨hwhole, hout⟩ := ih fun x hx => hds x (List.mem_cons_of_mem _ hx)
    refine ⟨hwhole.cons hquote hback, ?_⟩
    rw [List.cons_append, unescape_cons hquote hback, hout, List.cons_append]

/-- A code is gone through, and what is collected of it counts for more than any character. -/
theorem unescape_unicode (h : scanUnicode ds = some (c, [])) :
    Whole ('\\' :: 'u' :: ds) ∧ '"' ∉ ds ∧
      2 < ((unescape false ('\\' :: 'u' :: ds)).1.map weight).sum := by
  have hcode : ∀ {n r}, hex4 ds = some (n, r) → Whole r → '"' ∉ r →
      Whole ('\\' :: 'u' :: ds) ∧ '"' ∉ ds ∧
        2 < ((unescape false ('\\' :: 'u' :: ds)).1.map weight).sum := by
    intro n r hn hr hquote
    obtain ⟨a, b, c, d, rfl, hdigits⟩ := hex4_cases hn
    obtain ⟨hwhole, hout⟩ := unescape_hex hdigits hr
    have hspec := fun x hx => hexDigit_spec (hdigits x hx)
    refine ⟨hwhole.escaped 'u', ?_, ?_⟩
    · change '"' ∉ [a, b, c, d] ++ r
      rw [List.mem_append, not_or]
      exact ⟨fun hmem => (hspec _ hmem).1 rfl, hquote⟩
    · rw [unescape_escaped]
      change 2 < ((_ :: (unescape false ([a, b, c, d] ++ r)).1).map weight).sum
      rw [hout]
      have ha := (hspec a (by simp)).2.2
      have hb := (hspec b (by simp)).2.2
      simp only [List.cons_append, List.map_cons, List.sum_cons, ha, hb]
      omega
  unfold scanUnicode at h
  obtain ⟨⟨n, r⟩, hn, h⟩ := Option.bind_eq_some_iff.mp h
  dsimp only at h
  split at h
  · split at h
    · rename_i r'
      obtain ⟨⟨m, r''⟩, hm, h⟩ := Option.bind_eq_some_iff.mp h
      split at h
      · obtain ⟨-, rfl⟩ := Prod.mk.inj (Option.some.inj h)
        obtain ⟨a, b, c, d, rfl, hdigits⟩ := hex4_cases hm
        refine hcode hn ((unescape_hex hdigits Whole.nil).1.escaped 'u') ?_
        have hquote : '"' ∉ [a, b, c, d] := fun hmem => (hexDigit_spec (hdigits _ hmem)).1 rfl
        simpa using hquote
      · cases h
    · cases h
  · split at h
    · cases h
    · obtain ⟨-, rfl⟩ := Prod.mk.inj (Option.some.inj h)
      exact hcode hn Whole.nil List.not_mem_nil

/-! ## What is collected of a string -/

theorem whole_text (p : Spelling) : Whole p.text := by
  obtain ⟨htext, hquote, hback, -⟩ | ⟨e, htext, -⟩ | ⟨ds, htext, hds⟩ := p.cases
  · exact htext ▸ Whole.nil.cons hquote hback
  · exact htext ▸ Whole.nil.escaped e
  · exact htext ▸ (unescape_unicode hds).1

/-- A character is collected as it is, unless its escape is one that the loop does not know. -/
theorem unescape_text (p : Spelling) :
    misreads p.text = false ∧ (unescape false p.text).1 = [p.char] ∨
      misreads p.text = true ∧ weight p.char < ((unescape false p.text).1.map weight).sum := by
  obtain ⟨htext, hquote, hback, -⟩ | ⟨e, htext, he⟩ | ⟨ds, htext, hds⟩ := p.cases
  · refine .inl ⟨?_, ?_⟩
    · rw [htext, misreads_cons hback, misreads]
    · rw [htext, unescape_cons hquote hback, unescape]
  · rw [htext]
    generalize p.char = c at he
    simp only [escapeLetters, List.mem_cons, Prod.mk.injEq, List.not_mem_nil, or_false] at he
    obtain ⟨rfl, rfl⟩ | ⟨rfl, rfl⟩ | ⟨rfl, rfl⟩ | ⟨rfl, rfl⟩ | ⟨rfl, rfl⟩ | ⟨rfl, rfl⟩ |
      ⟨rfl, rfl⟩ | ⟨rfl, rfl⟩ := he <;> decide
  · refine .inr ⟨?_, ?_⟩
    · rw [htext]
      rfl
    · rw [htext]
      exact Nat.lt_of_le_of_lt (weight_le _) (unescape_unicode hds).2.2

theorem misreads_text (p : Spelling) (r : List Char) :
    misreads (p.text ++ r) = (misreads p.text || misreads r) := by
  obtain ⟨htext, -, hback, -⟩ | ⟨e, htext, -⟩ | ⟨ds, htext, -⟩ := p.cases
  · rw [htext, misreads_cons hback, misreads]
    exact misreads_cons hback r
  · rw [htext]
    simp [misreads]
  · rw [htext]
    simp [misreads]

theorem misreads_spelled (ps : List Spelling) (r : List Char) :
    misreads (spelled ps ++ r) = (misreads (spelled ps) || misreads r) := by
  induction ps with
  | nil => rfl
  | cons p ps ih => rw [spelled_cons, List.append_assoc, misreads_text, misreads_text, ih, Bool.or_assoc]

theorem whole_spelled (ps : List Spelling) : Whole (spelled ps) := by
  induction ps with
  | nil => exact Whole.nil
  | cons p ps ih => exact (whole_text p).append ih

/-- A closed string is collected as a whole. -/
theorem unescape_spelled (ps : List Spelling) (r : List Char) :
    unescape false (spelled ps ++ '"' :: r) = ((unescape false (spelled ps)).1, true) := by
  rw [whole_spelled ps]
  exact Prod.ext (List.append_nil _) rfl

/-- What is collected of a string is the string, or counts for more. -/
theorem unescape_spelled_cases (ps : List Spelling) :
    misreads (spelled ps) = false ∧ (unescape false (spelled ps)).1 = chars ps ∨
      misreads (spelled ps) = true ∧
        ((chars ps).map weight).sum < ((unescape false (spelled ps)).1.map weight).sum := by
  induction ps with
  | nil => exact .inl ⟨rfl, rfl⟩
  | cons p ps ih =>
    have hout : (unescape false (p.text ++ spelled ps)).1 =
        (unescape false p.text).1 ++ (unescape false (spelled ps)).1 := by
      rw [whole_text p]
    rw [spelled_cons, misreads_text, hout, chars_cons, List.map_cons, List.sum_cons, List.map_append,
      List.sum_append]
    obtain ⟨hp, hchar⟩ | ⟨hp, hlt⟩ := unescape_text p <;>
      obtain ⟨hps, hchars⟩ | ⟨hps, hlts⟩ := ih
    · exact .inl ⟨by rw [hp, hps]; rfl, by rw [hchar, hchars]; rfl⟩
    · refine .inr ⟨by rw [hp, hps]; rfl, ?_⟩
      rw [hchar, List.map_singleton, List.sum_singleton]
      omega
    · refine .inr ⟨by rw [hp, hps]; rfl, ?_⟩
      rw [hchars]
      omega
    · exact .inr ⟨by rw [hp, hps]; rfl, by omega⟩

/-- Of a character that was cut, nothing or a backslash is left, or the start of a code. -/
theorem start_text {p : Spelling} (h : kept <+: p.text) (hread : misreads kept = false) :
    kept = p.text ∨ kept = [] ∨ kept = ['\\'] := by
  cases kept with
  | nil => exact .inr (.inl rfl)
  | cons a kept =>
    obtain ⟨htext, -⟩ | ⟨e, htext, -⟩ | ⟨ds, htext, -⟩ := p.cases
    · rw [htext] at h ⊢
      obtain ⟨rfl, hkept⟩ := List.cons_prefix_cons.mp h
      exact .inl (congrArg _ (List.prefix_nil.mp hkept))
    · rw [htext] at h ⊢
      obtain ⟨rfl, hkept⟩ := List.cons_prefix_cons.mp h
      cases kept with
      | nil => exact .inr (.inr rfl)
      | cons b kept =>
        obtain ⟨rfl, hnil⟩ := List.cons_prefix_cons.mp hkept
        exact .inl (congrArg (['\\', b] ++ ·) (List.prefix_nil.mp hnil))
    · rw [htext] at h
      obtain ⟨rfl, hkept⟩ := List.cons_prefix_cons.mp h
      cases kept with
      | nil => exact .inr (.inr rfl)
      | cons b kept =>
        obtain ⟨rfl, -⟩ := List.cons_prefix_cons.mp hkept
        cases hread

/-- As long as no escape is misread, what is collected of a start of a string is a start of it. -/
theorem unescape_start {ps : List Spelling} (h : kept <+: spelled ps) (hread : misreads kept = false) :
    ∃ cs, cs <+: chars ps ∧ unescape false kept = (cs, false) ∧
      (cs = [] → kept = [] ∨ kept = ['\\']) := by
  induction ps generalizing kept with
  | nil =>
    obtain rfl := List.prefix_nil.mp h
    exact ⟨[], List.nil_prefix, rfl, fun _ => .inl rfl⟩
  | cons p ps ih =>
    have hwhole : p.text <+: kept ∨ kept = [] ∨ kept = ['\\'] := by
      rcases List.prefix_or_prefix_of_prefix h (List.prefix_append p.text (spelled ps)) with hp | hp
      · rcases start_text hp hread with rfl | hkept
        · exact .inl List.prefix_rfl
        · exact .inr hkept
      · exact .inl hp
    rcases hwhole with ⟨kept', rfl⟩ | rfl | rfl
    · have hkept' := (List.prefix_append_right_inj p.text).mp h
      rw [misreads_text, Bool.or_eq_false_iff] at hread
      obtain ⟨cs, hcs, hout, -⟩ := ih hkept' hread.2
      obtain ⟨-, hchar⟩ | ⟨hp, -⟩ := unescape_text p
      · refine ⟨p.char :: cs, List.cons_prefix_cons.mpr ⟨rfl, hcs⟩, ?_, nofun⟩
        rw [whole_text p, hout, hchar]
        rfl
      · rw [hread.1] at hp
        cases hp
    · exact ⟨[], List.nil_prefix, rfl, fun _ => .inl rfl⟩
    · exact ⟨[], List.nil_prefix, rfl, fun _ => .inr rfl⟩

/-! ## What is collected of a value that was cut -/

theorem collected_of_closed (ps : List Spelling) (r : List Char) :
    collected (spelled ps ++ '"' :: r) = some (unescape false (spelled ps)).1 := by
  rw [collected, unescape_spelled]
  rfl

/-- A start of a value, up to its closing quote or beyond. -/
theorem start_cases {ps : List Spelling} (h : b <+: spelled ps ++ '"' :: t) :
    b <+: spelled ps ∨ ∃ post, b = spelled ps ++ '"' :: post ∧ post <+: t := by
  rcases List.prefix_or_prefix_of_prefix h (List.prefix_append _ _) with hb | ⟨r, rfl⟩
  · exact .inl hb
  · have hr := (List.prefix_append_right_inj _).mp h
    cases r with
    | nil => exact .inl (by simp)
    | cons c r =>
      obtain ⟨rfl, hpost⟩ := List.cons_prefix_cons.mp hr
      exact .inr ⟨r, rfl, hpost⟩

/-- What is collected is a start of the value, as long as no escape is misread. -/
theorem prefix_of_collected {ps : List Spelling} (h : b <+: spelled ps ++ '"' :: t)
    (hread : misreads b = false) (hout : collected b = some cs) : cs <+: chars ps := by
  rcases start_cases h with hb | ⟨post, rfl, -⟩
  · obtain ⟨cs', hcs, hunescape, -⟩ := unescape_start hb hread
    rw [collected, hunescape] at hout
    split at hout
    · cases hout
      exact hcs
    · cases hout
  · rw [misreads_spelled, Bool.or_eq_false_iff] at hread
    rw [collected_of_closed] at hout
    cases hout
    obtain ⟨-, hchars⟩ | ⟨hmisread, -⟩ := unescape_spelled_cases ps
    · exact hchars ▸ List.prefix_rfl
    · rw [hread.1] at hmisread
      cases hmisread

/-- How many quotes there are in a text. -/
def quotes (cs : List Char) : Nat := (cs.map fun c => if c = '"' then 1 else 0).sum

@[simp] theorem quotes_cons (c : Char) (cs : List Char) :
    quotes (c :: cs) = (if c = '"' then 1 else 0) + quotes cs := by
  rw [quotes, List.map_cons, List.sum_cons, quotes]

@[simp] theorem quotes_append (cs cs' : List Char) : quotes (cs ++ cs') = quotes cs + quotes cs' := by
  rw [quotes, List.map_append, List.sum_append, quotes, quotes]

@[simp] theorem quotes_trim (cs : List Char) : quotes (trim cs) = quotes cs := by
  refine sum_map_trim (fun c hc => if_neg ?_) cs
  rintro rfl
  cases hc

theorem quotes_unescape_le (escaped : Bool) (cs : List Char) :
    quotes (unescape escaped cs).1 ≤ quotes cs := by
  induction cs generalizing escaped with
  | nil => cases escaped <;> exact Nat.le_refl 0
  | cons c cs ih =>
    cases escaped with
    | true =>
      have hletter : unescapeLetter c = '"' → c = '"' := by
        intro h
        unfold unescapeLetter at h
        split at h <;> first | exact h | cases h
      have hle := ih false
      rw [unescape, quotes_cons, quotes_cons]
      split
      · rw [if_pos (hletter ‹_›)]
        omega
      · omega
    | false =>
      have hle := ih false
      have hle' := ih true
      rw [unescape]
      split
      · rw [quotes_cons]
        omega
      · split
        · exact Nat.zero_le _
        · rw [quotes_cons, quotes_cons]
          omega

end Ravn
