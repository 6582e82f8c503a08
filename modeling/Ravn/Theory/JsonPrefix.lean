import Mathlib.Data.List.DropRight
import Ravn.Theory.JsonParse

/-! A reader that goes from left to right makes the same of a text when more follows: what it has read
of a value other than a number stays read. So a text that is read as an object has no shorter start
that is read (`blank_of_parse`). -/

namespace Ravn.Theory.Json

/-! ## Tokens -/

theorem skipBlank_append {cs : List Char} (h : skipBlank cs ≠ []) (t : List Char) :
    skipBlank (cs ++ t) = skipBlank cs ++ t := by
  unfold skipBlank at h ⊢
  rw [List.dropWhile_append, if_neg (by simpa using h)]

theorem skipBlank_append_cons {cs : List Char} (h : skipBlank cs = c :: r) (t : List Char) :
    cs ≠ [] ∧ skipBlank (cs ++ t) = c :: (r ++ t) := by
  have hne : skipBlank cs ≠ [] := h ▸ List.cons_ne_nil c r
  refine ⟨fun hnil => hne (congrArg skipBlank hnil), ?_⟩
  rw [skipBlank_append hne, h, List.cons_append]

theorem skipBlank_skipBlank (cs : List Char) : skipBlank (skipBlank cs) = skipBlank cs :=
  List.dropWhile_idempotent _ _

theorem hex4_append (h : hex4 cs = some (n, r)) (t : List Char) :
    hex4 (cs ++ t) = some (n, r ++ t) := by
  unfold hex4 at h ⊢
  split at h
  · rename_i hlength
    have hle : 4 ≤ cs.length := by
      rw [List.length_take] at hlength
      omega
    obtain ⟨m, hm, heq⟩ := Option.map_eq_some_iff.mp h
    obtain ⟨rfl, rfl⟩ := Prod.mk.inj heq
    rw [List.take_append_of_le_length hle, if_pos hlength, hm, List.drop_append_of_le_length hle]
    rfl
  · cases h

theorem scanUnicode_append (h : scanUnicode cs = some (c, r)) (t : List Char) :
    scanUnicode (cs ++ t) = some (c, r ++ t) := by
  unfold scanUnicode at h ⊢
  obtain ⟨⟨n, r₁⟩, hn, h⟩ := Option.bind_eq_some_iff.mp h
  rw [hex4_append hn, Option.bind_some]
  dsimp only at h ⊢
  split at h
  · rename_i hhigh
    rw [if_pos hhigh]
    split at h
    · rename_i r₂
      obtain ⟨⟨m, r₃⟩, hm, h⟩ := Option.bind_eq_some_iff.mp h
      change (hex4 (r₂ ++ t)).bind _ = _
      rw [hex4_append hm, Option.bind_some]
      split at h
      · obtain ⟨rfl, rfl⟩ := Prod.mk.inj (Option.some.inj h)
        exact if_pos ‹_›
      · cases h
    · cases h
  · rename_i hhigh
    rw [if_neg hhigh]
    split at h
    · cases h
    · cases h
      rw [if_neg ‹_›]

theorem scanChar_plain {c : Char} (hquote : c ≠ '"') (hback : c ≠ '\\') (r : List Char) :
    scanChar (c :: r) = if c.toNat < 32 then none else some (some c, r) := by
  rw [scanChar]
  · exact hquote
  all_goals first | exact hback | exact fun _ h => absurd h hback

theorem scanChar_append (h : scanChar cs = some (o, r)) (t : List Char) :
    scanChar (cs ++ t) = some (o, r ++ t) := by
  rw [scanChar.eq_def] at h
  split at h
  case h_10 =>
    obtain ⟨⟨c, r'⟩, hc, heq⟩ := Option.map_eq_some_iff.mp h
    cases heq
    simp only [List.cons_append, scanChar, scanUnicode_append hc, Option.map_some]
  case h_12 c r' hquote _ _ _ _ _ _ _ _ _ hback =>
    split at h
    · cases h
    · cases h
      rw [List.cons_append, scanChar_plain hquote hback, if_neg ‹_›]
  all_goals cases h <;> rfl

theorem scanStr_append (h : scanStr fuel cs = some (s, r)) (hfuel : fuel ≤ fuel') (t : List Char) :
    scanStr fuel' (cs ++ t) = some (s, r ++ t) := by
  induction fuel generalizing fuel' cs s with
  | zero => cases h
  | succ fuel ih =>
    obtain ⟨fuel', rfl⟩ := Nat.exists_eq_add_of_le' (Nat.le_of_add_left_le hfuel)
    rw [scanStr] at h ⊢
    split at h
    · cases h
    · rename_i hc
      cases h
      rw [scanChar_append hc]
    · rename_i c r' hc
      obtain ⟨⟨s', r''⟩, hs, heq⟩ := Option.map_eq_some_iff.mp h
      cases heq
      rw [scanChar_append hc]
      simp only [ih hs (Nat.le_of_succ_le_succ hfuel), Option.map_some]

theorem parseStr_append (h : parseStr cs = some (s, r)) (t : List Char) :
    parseStr (cs ++ t) = some (s, r ++ t) := by
  obtain ⟨⟨s', r'⟩, hs, heq⟩ := Option.map_eq_some_iff.mp h
  cases heq
  have hfuel : cs.length + 1 ≤ (cs ++ t).length + 1 := by
    rw [List.length_append]
    omega
  rw [parseStr, scanStr_append hs hfuel, Option.map_some]

/-! ## Numbers

A number ends where something follows that does not belong to it. -/

theorem digits1_append (h : digits1 cs = some (ds, r)) (hr : r ≠ []) (t : List Char) :
    digits1 (cs ++ t) = some (ds, r ++ t) := by
  unfold digits1 at h ⊢
  dsimp only at h ⊢
  split at h
  · cases h
  · rename_i hne
    obtain ⟨rfl, rfl⟩ := Prod.mk.inj (Option.some.inj h)
    have hshort : ¬(cs.takeWhile Char.isDigit).length = cs.length := by
      intro hall
      rw [hall, List.drop_length] at hr
      exact hr rfl
    have htake : (cs ++ t).takeWhile Char.isDigit = cs.takeWhile Char.isDigit := by
      rw [List.takeWhile_append, if_neg hshort]
    rw [htake, if_neg hne,
      List.drop_append_of_le_length ( List.takeWhile_prefix _).length_le]

theorem parseExponent_append (h : parseExponent cs = some (e, r)) (hr : r ≠ []) (t : List Char) :
    parseExponent (cs ++ t) = some (e, r ++ t) := by
  cases cs with
  | nil =>
    cases h
    exact absurd rfl hr
  | cons c cs =>
    rw [List.cons_append]
    unfold parseExponent at h ⊢
    dsimp only at h ⊢
    split at h
    · rename_i hc
      obtain ⟨⟨ds, r'⟩, hds, heq⟩ := Option.map_eq_some_iff.mp h
      cases heq
      rw [if_pos hc]
      -- The digits come after a sign.
      cases cs with
      | nil => cases hds
      | cons d cs =>
        by_cases hplus : d = '+'
        · subst hplus
          exact congrArg (Option.map _) (digits1_append hds hr t)
        · by_cases hminus : d = '-'
          · subst hminus
            exact congrArg (Option.map _) (digits1_append hds hr t)
          · have hds' : digits1 (d :: cs) = some (ds, r') := by simpa [hplus, hminus] using hds
            have happend := digits1_append hds' hr t
            rw [List.cons_append] at happend
            simp [hplus, hminus, happend]
    · rename_i hc
      cases h
      rw [if_neg hc]
      rfl

theorem parseFraction_append (h : parseFraction cs = some (f, r)) (hr : r ≠ []) (t : List Char) :
    parseFraction (cs ++ t) = some (f, r ++ t) := by
  rw [parseFraction.eq_def] at h
  split at h
  · rw [List.cons_append, parseFraction, digits1_append h hr]
  · rename_i hdot
    cases h
    cases cs with
    | nil => exact absurd rfl hr
    | cons c cs =>
      rw [List.cons_append, parseFraction.eq_def]
      split
      · rename_i heq
        exact absurd (congrArg (· :: cs) (List.cons.inj heq).1) (hdot cs)
      · rfl

theorem parseUnsignedNumber_append (h : parseUnsignedNumber negative cs = some (n, r))
    (hr : r ≠ []) (t : List Char) :
    parseUnsignedNumber negative (cs ++ t) = some (n, r ++ t) := by
  unfold parseUnsignedNumber at h ⊢
  obtain ⟨⟨ds, r₁⟩, hds, h⟩ := Option.bind_eq_some_iff.mp h
  dsimp only at h
  split at h
  · cases h
  · rename_i hzero
    obtain ⟨⟨f, r₂⟩, hf, h⟩ := Option.bind_eq_some_iff.mp h
    obtain ⟨⟨e, r₃⟩, he, h⟩ := Option.bind_eq_some_iff.mp h
    cases h
    -- What is left at the end was left before.
    have hr₂ : r₂ ≠ [] := by
      rintro rfl
      cases he
      exact hr rfl
    have hr₁ : r₁ ≠ [] := by
      rintro rfl
      cases hf
      exact hr₂ rfl
    rw [digits1_append hds hr₁]
    simp only [Option.bind_eq_bind, Option.bind_some, if_neg hzero, parseFraction_append hf hr₂,
      parseExponent_append he hr]

theorem parseNumber_append (h : parseNumber cs = some (n, r)) (hr : r ≠ []) (t : List Char) :
    parseNumber (cs ++ t) = some (n, r ++ t) := by
  rw [parseNumber.eq_def] at h
  split at h
  · exact parseUnsignedNumber_append h hr t
  · rename_i hsign
    cases cs with
    | nil => cases h
    | cons c cs =>
      have happend := parseUnsignedNumber_append h hr t
      rw [List.cons_append] at happend ⊢
      rw [parseNumber.eq_def]
      split
      · rename_i heq
        exact absurd (congrArg (· :: cs) (List.cons.inj heq).1) (hsign cs)
      · exact happend

theorem isNumber_of_parseUnsignedNumber (h : parseUnsignedNumber negative cs = some (v, r)) :
    v.IsNumber := by
  unfold parseUnsignedNumber at h
  obtain ⟨⟨ds, r₁⟩, hds, h⟩ := Option.bind_eq_some_iff.mp h
  dsimp only at h
  split at h
  · cases h
  · obtain ⟨⟨f, r₂⟩, hf, h⟩ := Option.bind_eq_some_iff.mp h
    obtain ⟨⟨e, r₃⟩, he, h⟩ := Option.bind_eq_some_iff.mp h
    cases h
    exact isNumber_numberDoc ..

theorem isNumber_of_parseNumber (h : parseNumber cs = some (v, r)) : v.IsNumber := by
  rw [parseNumber.eq_def] at h
  split at h <;> exact isNumber_of_parseUnsignedNumber h

/-- A number starts with a sign or a digit. -/
theorem parseNumber_head (h : parseNumber (c :: cs) = some (n, r)) : c = '-' ∨ c.isDigit = true := by
  rw [parseNumber.eq_def] at h
  split at h
  · rename_i heq
    exact .inl (List.cons.inj heq).1
  · refine .inr (Classical.byContradiction fun hc => ?_)
    have hnone : digits1 (c :: cs) = none := by simp [digits1, hc]
    simp [parseUnsignedNumber, hnone] at h

/-! ## Values -/

theorem parseValue_skipBlank (fuel : Nat) (cs : List Char) :
    parseValue fuel (skipBlank cs) = parseValue fuel cs := by
  cases fuel with
  | zero => rfl
  | succ fuel => rw [parseValue, parseValue, skipBlank_skipBlank]

theorem skipBlank_ne_nil_of_parseValue (h : parseValue fuel cs = some (v, r)) : skipBlank cs ≠ [] := by
  intro hnil
  cases fuel with
  | zero => cases h
  | succ fuel =>
    rw [parseValue, hnil] at h
    cases h

theorem skipBlank_ne_nil_of_parseElems (h : parseElems fuel cs = some (vs, r)) :
    skipBlank cs ≠ [] := by
  cases fuel with
  | zero => cases h
  | succ fuel =>
    rw [parseElems] at h
    obtain ⟨⟨v, r'⟩, hv, -⟩ := Option.bind_eq_some_iff.mp h
    exact skipBlank_ne_nil_of_parseValue hv

theorem skipBlank_of_parseMembers (h : parseMembers fuel cs = some (ms, r)) :
    ∃ r', skipBlank cs = '"' :: r' := by
  cases fuel with
  | zero => cases h
  | succ fuel =>
    rw [parseMembers] at h
    split at h
    · rename_i r' hcs
      exact ⟨r', hcs⟩
    · cases h

/-! ## With fuel -/

/-- With this fuel, or more, what was read as a value is read as the same one when more follows, unless
it is a number that what follows may belong to. -/
def ValueStable (fuel : Nat) : Prop :=
  ∀ {fuel' cs v r}, fuel ≤ fuel' → parseValue fuel cs = some (v, r) →
    (v.IsNumber → r ≠ []) → ∀ t, parseValue fuel' (cs ++ t) = some (v, r ++ t)

def ElemsStable (fuel : Nat) : Prop :=
  ∀ {fuel' cs vs r}, fuel ≤ fuel' → parseElems fuel cs = some (vs, r) →
    ∀ t, parseElems fuel' (cs ++ t) = some (vs, r ++ t)

def MembersStable (fuel : Nat) : Prop :=
  ∀ {fuel' cs ms r}, fuel ≤ fuel' → parseMembers fuel cs = some (ms, r) →
    ∀ t, parseMembers fuel' (cs ++ t) = some (ms, r ++ t)

theorem ValueStable.succ (ihe : ElemsStable fuel) (ihm : MembersStable fuel) :
    ValueStable (fuel + 1) := by
  intro fuel' cs v r hfuel h hnum t
  obtain ⟨fuel', rfl⟩ := Nat.exists_eq_add_of_le' (Nat.le_of_add_left_le hfuel)
  have hle := Nat.le_of_add_le_add_right hfuel
  have hblank := skipBlank_ne_nil_of_parseValue h
  rw [← parseValue_skipBlank, skipBlank_append hblank]
  rw [parseValue] at h
  split at h
  case h_1 | h_2 | h_3 =>
    rename_i heq
    cases h
    rw [heq]
    rfl
  case h_4 =>
    rename_i r₁ heq
    obtain ⟨⟨s, r₂⟩, hs, h⟩ := Option.map_eq_some_iff.mp h
    cases h
    rw [heq, List.cons_append, parseValue, skipBlank_cons (by decide)]
    simp only [parseStr_append hs, Option.map_some]
  case h_5 =>
    rename_i r₁ heq
    rw [heq, List.cons_append, parseValue, skipBlank_cons (by decide)]
    split at h
    · rename_i r₂ hr₁
      cases h
      simp only [(skipBlank_append_cons hr₁ t).2]
    · rename_i r₂ hr₁
      obtain ⟨⟨vs, r₃⟩, hvs, h⟩ := Option.map_eq_some_iff.mp h
      cases h
      obtain ⟨c, r₄, hr₄⟩ := List.exists_cons_of_ne_nil (skipBlank_ne_nil_of_parseElems hvs)
      have hc : c ≠ ']' := fun hc => hr₁ r₄ (hc ▸ hr₄)
      simp only [(skipBlank_append_cons hr₄ t).2]
      split
      · rename_i hbracket
        exact absurd (List.cons.inj hbracket).1 hc
      · simp only [ihe hle hvs, Option.map_some]
  case h_6 =>
    rename_i r₁ heq
    rw [heq, List.cons_append, parseValue, skipBlank_cons (by decide)]
    split at h
    · rename_i r₂ hr₁
      cases h
      simp only [(skipBlank_append_cons hr₁ t).2]
    · rename_i r₂ hr₁
      obtain ⟨⟨ms, r₃⟩, hms, h⟩ := Option.map_eq_some_iff.mp h
      cases h
      obtain ⟨r₄, hr₄⟩ := skipBlank_of_parseMembers hms
      simp only [(skipBlank_append_cons hr₄ t).2, ihm hle hms, Option.map_some]
      rfl
  case h_7 =>
    obtain ⟨c, r₂, hcs⟩ := List.exists_cons_of_ne_nil hblank
    rw [hcs] at h ⊢
    rw [List.cons_append, parseValue_number (parseNumber_head h), ← List.cons_append,
      parseNumber_append h (hnum (isNumber_of_parseNumber h))]

theorem ElemsStable.succ (ihv : ValueStable fuel) (ihe : ElemsStable fuel) :
    ElemsStable (fuel + 1) := by
  intro fuel' cs vs r hfuel h t
  obtain ⟨fuel', rfl⟩ := Nat.exists_eq_add_of_le' (Nat.le_of_add_left_le hfuel)
  have hle := Nat.le_of_add_le_add_right hfuel
  rw [parseElems] at h ⊢
  obtain ⟨⟨v, r₁⟩, hv, h⟩ := Option.bind_eq_some_iff.mp h
  dsimp only at h
  split at h
  · rename_i r₂ hr₁
    obtain ⟨⟨vs', r₃⟩, hvs, heq⟩ := Option.map_eq_some_iff.mp h
    cases heq
    obtain ⟨hne, hskip⟩ := skipBlank_append_cons hr₁ t
    rw [ihv hle hv (fun _ => hne), Option.bind_some]
    simp only [hskip, ihe hle hvs, Option.map_some]
  · rename_i r₂ hr₁
    cases h
    obtain ⟨hne, hskip⟩ := skipBlank_append_cons hr₁ t
    rw [ihv hle hv (fun _ => hne), Option.bind_some]
    simp only [hskip]
  · cases h

theorem MembersStable.succ (ihv : ValueStable fuel) (ihm : MembersStable fuel) :
    MembersStable (fuel + 1) := by
  intro fuel' cs ms r hfuel h t
  obtain ⟨fuel', rfl⟩ := Nat.exists_eq_add_of_le' (Nat.le_of_add_left_le hfuel)
  have hle := Nat.le_of_add_le_add_right hfuel
  rw [parseMembers] at h ⊢
  split at h
  · rename_i r₁ hcs
    obtain ⟨⟨k, r₂⟩, hk, h⟩ := Option.bind_eq_some_iff.mp h
    simp only [(skipBlank_append_cons hcs t).2, parseStr_append hk, Option.bind_some]
    dsimp only at h
    split at h
    · rename_i r₃ hr₂
      simp only [(skipBlank_append_cons hr₂ t).2]
      obtain ⟨⟨v, r₄⟩, hv, h⟩ := Option.bind_eq_some_iff.mp h
      dsimp only at h
      split at h
      · rename_i r₅ hr₄
        obtain ⟨⟨ms', r₆⟩, hms, heq⟩ := Option.map_eq_some_iff.mp h
        cases heq
        obtain ⟨hne, hskip⟩ := skipBlank_append_cons hr₄ t
        rw [ihv hle hv (fun _ => hne), Option.bind_some]
        simp only [hskip, ihm hle hms, Option.map_some]
      · rename_i r₅ hr₄
        cases h
        obtain ⟨hne, hskip⟩ := skipBlank_append_cons hr₄ t
        rw [ihv hle hv (fun _ => hne), Option.bind_some]
        simp only [hskip]
      · cases h
    · cases h
  · cases h

theorem parse_stable (fuel : Nat) : ValueStable fuel ∧ ElemsStable fuel ∧ MembersStable fuel := by
  induction fuel with
  | zero => exact ⟨nofun, nofun, nofun⟩
  | succ fuel ih =>
    obtain ⟨hvalue, helems, hmembers⟩ := ih
    refine ⟨?_, ?_, ?_⟩
    · exact ValueStable.succ helems hmembers
    · exact ElemsStable.succ hvalue helems
    · exact MembersStable.succ hvalue hmembers

/-- What follows an object in a text that is read is blank. -/
theorem blank_of_parse (h : parse cs = some (.obj ms)) (ht : parse (cs ++ t) = some v) :
    skipBlank t = [] := by
  obtain ⟨⟨d, r⟩, hd, hr⟩ := Option.bind_eq_some_iff.mp h
  dsimp only at hr
  split at hr
  · cases hr
    have hfuel : 2 * cs.length ≤ 2 * (cs ++ t).length := by
      rw [List.length_append]
      omega
    have happend := (parse_stable _).1 hfuel hd nofun t
    rw [parse, happend, Option.bind_some] at ht
    dsimp only at ht
    split at ht
    · rename_i hblank
      have hall := List.dropWhile_eq_nil_iff.mp hblank
      exact List.dropWhile_eq_nil_iff.mpr fun c hc => hall c (List.mem_append_right _ hc)
    · cases ht
  · cases hr

theorem parseValue_brace (fuel : Nat) (cs : List Char) :
    parseValue (fuel + 1) ('\x7b' :: cs) =
      match skipBlank cs with
      | '\x7d' :: r => some (.obj [], r)
      | _ => (parseMembers fuel cs).map fun (ms, r) => (.obj ms, r) := by
  rw [parseValue, skipBlank_cons (by decide)]
  rfl

/-- A text that starts with a brace is read as an object, if at all. -/
theorem obj_of_parse (h : parse ('\x7b' :: cs) = some v) : ∃ ms, v = .obj ms := by
  obtain ⟨⟨d, r⟩, hd, hr⟩ := Option.bind_eq_some_iff.mp h
  dsimp only at hr
  split at hr
  · cases hr
    rw [List.length_cons, Nat.mul_add, parseValue_brace] at hd
    split at hd
    · cases hd
      exact ⟨_, rfl⟩
    · obtain ⟨⟨ms, r'⟩, -, heq⟩ := Option.map_eq_some_iff.mp hd
      cases heq
      exact ⟨ms, rfl⟩
  · cases hr

/-- No proper start of the text of an object is read. -/
theorem parse_eq_none (h : parse ('\x7b' :: cs ++ t ++ ['\x7d']) = some v) :
    parse ('\x7b' :: cs) = none := by
  cases hcs : parse ('\x7b' :: cs) with
  | none => rfl
  | some d =>
    obtain ⟨ms, rfl⟩ := obj_of_parse hcs
    rw [List.append_assoc] at h
    have hall := List.dropWhile_eq_nil_iff.mp (blank_of_parse hcs h)
    exact absurd (hall '\x7d' (List.mem_append_right _ List.mem_cons_self)) (by decide)

end Ravn.Theory.Json
