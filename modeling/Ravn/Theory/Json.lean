/-! JSON values and their compact text. Objects keep their members in writing order, numbers are
the integers. The printer is the compact one: no blanks, the short escapes where JSON has them and
`\u00xx` for the other control characters. The main result is that the text determines the value
(`Json.print_injective`); it follows from the stronger fact that a value can be told apart from
whatever text follows it, as long as that text does not start with a digit (`Json.print_decodes`). -/

namespace Ravn.Theory

/-! ## Texts that can be told apart from the front -/

/-- The words of `f` can be told apart from the front, before any text that meets `F`. -/
def Decodes (F : List Char → Prop) (f : α → List Char) : Prop :=
  ∀ ⦃a b : α⦄ ⦃r r' : List Char⦄, F r → F r' → f a ++ r = f b ++ r' → a = b ∧ r = r'

theorem Decodes.injective {f : α → List Char} (hf : Decodes F f) (h : F []) {a b : α}
    (hab : f a = f b) : a = b :=
  (hf h h (congrArg (· ++ []) hab)).1

/-- A text that a number may stand before. -/
def EndsNumber (r : List Char) : Prop := ∀ c ∈ r.head?, c.isDigit = false

@[simp] theorem endsNumber_nil : EndsNumber [] := by simp [EndsNumber]

@[simp] theorem endsNumber_cons : EndsNumber (c :: r) ↔ c.isDigit = false := by
  simp [EndsNumber]

/-- Two runs of digits before texts that start with none are the same run. -/
theorem digits_append_cancel {ds es r r' : List Char} (hd : ∀ c ∈ ds, c.isDigit = true)
    (he : ∀ c ∈ es, c.isDigit = true) (hr : EndsNumber r) (hr' : EndsNumber r')
    (h : ds ++ r = es ++ r') : ds = es ∧ r = r' := by
  induction ds generalizing es with
  | nil =>
    cases es with
    | nil => exact ⟨rfl, h⟩
    | cons e es =>
      subst h
      have := he e (by simp)
      simp_all
  | cons d ds ih =>
    cases es with
    | nil =>
      subst h
      have := hd d (by simp)
      simp_all
    | cons e es =>
      simp only [List.cons_append, List.cons.injEq] at h
      obtain ⟨hds, hrr⟩ := ih (fun c hc => hd c (by simp [hc])) (fun c hc => he c (by simp [hc])) h.2
      exact ⟨by rw [h.1, hds], hrr⟩

namespace Json

/-! ## Numbers -/

def printNat (n : Nat) : List Char := Nat.toDigits 10 n

def printInt : Int → List Char
  | .ofNat n => printNat n
  | .negSucc n => '-' :: printNat (n + 1)

theorem isDigit_of_mem_printNat (h : c ∈ printNat n) : c.isDigit = true :=
  Nat.isDigit_of_mem_toDigits (by decide) (by decide) h

theorem printNat_injective (h : printNat n = printNat m) : n = m := by
  have := congrArg (fun ds => Nat.ofDigitChars 10 ds 0) h
  simpa [printNat] using this

theorem printNat_decodes : Decodes EndsNumber printNat := by
  intro n m r r' hr hr' h
  obtain ⟨hds, hrr⟩ := digits_append_cancel (fun _ => isDigit_of_mem_printNat)
    (fun _ => isDigit_of_mem_printNat) hr hr' h
  exact ⟨printNat_injective hds, hrr⟩

theorem printNat_head (n : Nat) : ∃ c cs, printNat n = c :: cs ∧ c.isDigit = true := by
  cases h : printNat n with
  | nil =>
    have := congrArg List.length h
    simp [printNat] at this
  | cons c cs => exact ⟨c, cs, rfl, isDigit_of_mem_printNat (h ▸ List.mem_cons_self)⟩

theorem printInt_head (i : Int) : ∃ c cs, printInt i = c :: cs ∧ (c = '-' ∨ c.isDigit = true) := by
  cases i with
  | ofNat n =>
    obtain ⟨c, cs, h, hc⟩ := printNat_head n
    exact ⟨c, cs, h, .inr hc⟩
  | negSucc n => exact ⟨'-', _, rfl, .inl rfl⟩

theorem printInt_decodes : Decodes EndsNumber printInt := by
  have hsign : ∀ n m r r', printNat n ++ r ≠ '-' :: printNat m ++ r' := by
    intro n m r r' h
    obtain ⟨c, cs, hc, hd⟩ := printNat_head n
    rw [hc] at h
    simp only [List.cons_append, List.cons.injEq] at h
    rw [h.1] at hd
    exact absurd hd (by decide)
  intro i j r r' hr hr' h
  cases i with
  | ofNat n =>
    cases j with
    | ofNat m =>
      obtain ⟨rfl, hrr⟩ := printNat_decodes hr hr' h
      exact ⟨rfl, hrr⟩
    | negSucc m => exact absurd h (hsign _ _ _ _)
  | negSucc n =>
    cases j with
    | ofNat m => exact absurd h.symm (hsign _ _ _ _)
    | negSucc m =>
      simp only [printInt, List.cons_append, List.cons.injEq, true_and] at h
      obtain ⟨hnm, hrr⟩ := printNat_decodes hr hr' h
      exact ⟨by rw [Nat.succ.inj hnm], hrr⟩

/-! ## Strings -/

/-- One character inside a JSON string. -/
def escapeChar (c : Char) : List Char :=
  if c = '"' then ['\\', '"']
  else if c = '\\' then ['\\', '\\']
  else if c = '\x08' then ['\\', 'b']
  else if c = '\t' then ['\\', 't']
  else if c = '\n' then ['\\', 'n']
  else if c = '\x0c' then ['\\', 'f']
  else if c = '\r' then ['\\', 'r']
  else if c.toNat < 32 then
    ['\\', 'u', '0', '0', Nat.digitChar (c.toNat / 16), Nat.digitChar (c.toNat % 16)]
  else [c]

def escape (cs : List Char) : List Char := cs.flatMap escapeChar

def printStr (s : String) : List Char := '"' :: escape s.toList ++ ['"']

/-- The value of a lower-case hexadecimal digit. -/
def hexVal (c : Char) : Nat := if c.isDigit then c.toNat - 48 else c.toNat - 87

/-- Reads back the first character of an escaped text. -/
def unescapeChar : List Char → Option (Char × List Char)
  | '\\' :: 'u' :: '0' :: '0' :: a :: b :: r => some (Char.ofNat (16 * hexVal a + hexVal b), r)
  | '\\' :: 'b' :: r => some ('\x08', r)
  | '\\' :: 't' :: r => some ('\t', r)
  | '\\' :: 'n' :: r => some ('\n', r)
  | '\\' :: 'f' :: r => some ('\x0c', r)
  | '\\' :: 'r' :: r => some ('\r', r)
  | '\\' :: c :: r => some (c, r)
  | '"' :: _ => none
  | c :: r => some (c, r)
  | [] => none

theorem hexVal_digitChar : ∀ n < 16, hexVal (Nat.digitChar n) = n := by decide

/-- The characters that have a short escape, with its letter. -/
def shortEscapes : List (Char × Char) :=
  [('"', '"'), ('\\', '\\'), ('\x08', 'b'), ('\t', 't'), ('\n', 'n'), ('\x0c', 'f'), ('\r', 'r')]

/-- The three ways to write a character. -/
theorem escapeChar_cases (c : Char) :
    (∃ e, (c, e) ∈ shortEscapes ∧ escapeChar c = ['\\', e]) ∨
      (c.toNat < 32 ∧ escapeChar c =
        ['\\', 'u', '0', '0', Nat.digitChar (c.toNat / 16), Nat.digitChar (c.toNat % 16)]) ∨
      (c ≠ '"' ∧ c ≠ '\\' ∧ ¬c.toNat < 32 ∧ escapeChar c = [c]) := by
  by_cases hshort : ∃ e, (c, e) ∈ shortEscapes
  · obtain ⟨e, he⟩ := hshort
    refine .inl ⟨e, he, ?_⟩
    simp only [shortEscapes, List.mem_cons, Prod.mk.injEq, List.not_mem_nil, or_false] at he
    obtain ⟨rfl, rfl⟩ | ⟨rfl, rfl⟩ | ⟨rfl, rfl⟩ | ⟨rfl, rfl⟩ | ⟨rfl, rfl⟩ | ⟨rfl, rfl⟩ | ⟨rfl, rfl⟩ :=
      he <;> rfl
  · have hne : ∀ d e, (d, e) ∈ shortEscapes → c ≠ d := by
      rintro d e he rfl
      exact hshort ⟨e, he⟩
    have hquote : c ≠ '"' := hne '"' '"' (by simp [shortEscapes])
    have hback : c ≠ '\\' := hne '\\' '\\' (by simp [shortEscapes])
    have hescape : escapeChar c = if c.toNat < 32 then
        ['\\', 'u', '0', '0', Nat.digitChar (c.toNat / 16), Nat.digitChar (c.toNat % 16)]
        else [c] := by
      rw [escapeChar, if_neg hquote, if_neg hback, if_neg (hne '\x08' 'b' (by simp [shortEscapes])),
        if_neg (hne '\t' 't' (by simp [shortEscapes])), if_neg (hne '\n' 'n' (by simp [shortEscapes])),
        if_neg (hne '\x0c' 'f' (by simp [shortEscapes])),
        if_neg (hne '\r' 'r' (by simp [shortEscapes]))]
    by_cases hlt : c.toNat < 32
    · exact .inr (.inl ⟨hlt, hescape.trans (if_pos hlt)⟩)
    · exact .inr (.inr ⟨hquote, hback, hlt, hescape.trans (if_neg hlt)⟩)

theorem unescapeChar_escapeChar (c : Char) (r : List Char) :
    unescapeChar (escapeChar c ++ r) = some (c, r) := by
  obtain ⟨e, he, hescape⟩ | ⟨hlt, hescape⟩ | ⟨hquote, hback, -, hescape⟩ := escapeChar_cases c
  · rw [hescape]
    simp only [shortEscapes, List.mem_cons, Prod.mk.injEq, List.not_mem_nil, or_false] at he
    obtain ⟨rfl, rfl⟩ | ⟨rfl, rfl⟩ | ⟨rfl, rfl⟩ | ⟨rfl, rfl⟩ | ⟨rfl, rfl⟩ | ⟨rfl, rfl⟩ | ⟨rfl, rfl⟩ :=
      he <;> rfl
  · have hc : 16 * (c.toNat / 16) + c.toNat % 16 = c.toNat := by omega
    simp only [hescape, List.cons_append, List.nil_append, unescapeChar,
      hexVal_digitChar _ (by omega : c.toNat / 16 < 16),
      hexVal_digitChar _ (by omega : c.toNat % 16 < 16), hc, Char.ofNat_toNat]
  · rw [hescape, List.cons_append, List.nil_append, unescapeChar.eq_def]
    split <;> simp_all

theorem unescapeChar_quote (r : List Char) : unescapeChar ('"' :: r) = none := rfl

/-- An escaped text ends at the first quote after it. -/
theorem escape_quote_decodes : Decodes (fun r => ∃ s, r = '"' :: s) escape := by
  intro cs ds r r' hr hr' h
  obtain ⟨s, rfl⟩ := hr
  obtain ⟨s', rfl⟩ := hr'
  induction cs generalizing ds with
  | nil =>
    cases ds with
    | nil => exact ⟨rfl, h⟩
    | cons d ds =>
      have := congrArg unescapeChar h
      simp [escape, unescapeChar_escapeChar, unescapeChar_quote] at this
  | cons c cs ih =>
    cases ds with
    | nil =>
      have := congrArg unescapeChar h
      simp [escape, unescapeChar_escapeChar, unescapeChar_quote] at this
    | cons d ds =>
      have := congrArg unescapeChar h
      simp only [escape, List.flatMap_cons, List.append_assoc, unescapeChar_escapeChar,
        Option.some.injEq, Prod.mk.injEq] at this
      obtain ⟨rfl, hss⟩ := ih this.2
      exact ⟨by rw [this.1], hss⟩

theorem printStr_decodes : Decodes (fun _ => True) printStr := by
  intro s t r r' _ _ h
  simp only [printStr, List.cons_append, List.append_assoc, List.nil_append, List.cons.injEq,
    true_and] at h
  obtain ⟨hst, hrr⟩ := escape_quote_decodes ⟨r, rfl⟩ ⟨r', rfl⟩ h
  exact ⟨String.toList_inj.mp hst, (List.cons.inj hrr).2⟩

end Json

/-! ## Values -/

inductive Json where
  | null
  | bool (b : Bool)
  | num (n : Int)
  | str (s : String)
  | arr (elems : List Json)
  | obj (members : List (String × Json))

namespace Json

mutual

/-- The compact text of a value. -/
def print : Json → List Char
  | .null => ['n', 'u', 'l', 'l']
  | .bool true => ['t', 'r', 'u', 'e']
  | .bool false => ['f', 'a', 'l', 's', 'e']
  | .num n => printInt n
  | .str s => printStr s
  | .arr [] => ['[', ']']
  | .arr (v :: vs) => '[' :: print v ++ printElems vs
  | .obj [] => ['{', '}']
  | .obj ((k, v) :: ms) => '{' :: printStr k ++ ':' :: print v ++ printMembers ms

/-- The rest of an array after one of its elements. -/
def printElems : List Json → List Char
  | [] => [']']
  | v :: vs => ',' :: print v ++ printElems vs

/-- The rest of an object after one of its members. -/
def printMembers : List (String × Json) → List Char
  | [] => ['}']
  | (k, v) :: ms => ',' :: printStr k ++ ':' :: print v ++ printMembers ms

end

/-- Tells the kinds of values apart by the first character of their text. -/
def kindOfHead (c : Char) : Nat :=
  if c = 'n' then 0 else if c = 't' then 1 else if c = 'f' then 2 else if c = '"' then 3
  else if c = '[' then 4 else if c = '{' then 5 else 6

def kind : Json → Nat
  | .null => 0
  | .bool b => if b then 1 else 2
  | .str _ => 3
  | .arr _ => 4
  | .obj _ => 5
  | .num _ => 6

theorem kindOfHead_number (h : c = '-' ∨ c.isDigit = true) : kindOfHead c = 6 := by
  unfold kindOfHead
  rcases h with rfl | h
  · decide
  · have hne : ∀ d, d.isDigit = false → c ≠ d := by rintro d hd rfl; simp [h] at hd
    simp [hne]

theorem print_head (v : Json) : ∃ c cs, print v = c :: cs ∧ kindOfHead c = kind v := by
  match v with
  | .null | .bool true | .bool false | .str _ | .arr [] | .arr (_ :: _) | .obj []
  | .obj ((_, _) :: _) => exact ⟨_, _, rfl, rfl⟩
  | .num n =>
    obtain ⟨c, cs, h, hc⟩ := printInt_head n
    exact ⟨c, cs, h, kindOfHead_number hc⟩

theorem kind_eq_of_print (h : print v ++ r = print w ++ r') : kind v = kind w := by
  obtain ⟨c, cs, hv, hcv⟩ := print_head v
  obtain ⟨d, ds, hw, hdw⟩ := print_head w
  rw [hv, hw] at h
  simp only [List.cons_append, List.cons.injEq] at h
  rw [← hcv, ← hdw, h.1]

theorem kind_eq_zero {w : Json} (h : kind w = 0) : w = .null := by
  cases w <;> simp_all [kind]
  split at h <;> simp_all

theorem kind_eq_bool {w : Json} (h : kind w = kind (.bool b)) : w = .bool b := by
  cases w with
  | bool b' => cases b <;> cases b' <;> first | rfl | exact absurd h (by decide)
  | _ => cases b <;> exact absurd h (by simp [kind])

theorem kind_eq_num {w : Json} (h : kind w = 6) : ∃ n, w = .num n := by
  cases w <;> simp_all [kind]
  split at h <;> simp_all

theorem kind_eq_str {w : Json} (h : kind w = 3) : ∃ s, w = .str s := by
  cases w <;> simp_all [kind]
  split at h <;> simp_all

theorem kind_eq_arr {w : Json} (h : kind w = 4) : ∃ vs, w = .arr vs := by
  cases w <;> simp_all [kind]
  split at h <;> simp_all

theorem kind_eq_obj {w : Json} (h : kind w = 5) : ∃ ms, w = .obj ms := by
  cases w <;> simp_all [kind]
  split at h <;> simp_all

/-- No value starts with the bracket that closes an array. -/
theorem print_ne_bracket (w : Json) : print w ++ r ++ s ≠ ']' :: t := by
  match w with
  | .null | .bool true | .bool false | .str _ | .arr [] | .arr (_ :: _) | .obj []
  | .obj ((_, _) :: _) => simp [print, printStr]
  | .num n =>
    obtain ⟨c, cs, hn, hc⟩ := printInt_head n
    simp only [print, hn, List.cons_append, ne_eq, List.cons.injEq, not_and]
    rintro rfl
    exact absurd hc (by decide)

theorem printElems_endsNumber (vs : List Json) (r : List Char) :
    EndsNumber (printElems vs ++ r) := by
  cases vs with
  | nil => exact endsNumber_cons.mpr rfl
  | cons v vs => exact endsNumber_cons.mpr rfl

theorem printMembers_endsNumber (ms : List (String × Json)) (r : List Char) :
    EndsNumber (printMembers ms ++ r) := by
  cases ms with
  | nil => exact endsNumber_cons.mpr rfl
  | cons m ms => exact endsNumber_cons.mpr rfl

mutual

theorem print_cancel : ∀ (v w : Json) {r r' : List Char}, EndsNumber r → EndsNumber r' →
    print v ++ r = print w ++ r' → v = w ∧ r = r'
  | .null, w, r, r', _, _, h => by
    obtain rfl := kind_eq_zero (kind_eq_of_print h).symm
    exact ⟨rfl, List.append_cancel_left h⟩
  | .bool b, w, r, r', _, _, h => by
    obtain rfl := kind_eq_bool (kind_eq_of_print h).symm
    exact ⟨rfl, List.append_cancel_left h⟩
  | .num n, w, r, r', hr, hr', h => by
    obtain ⟨m, rfl⟩ := kind_eq_num (kind_eq_of_print h).symm
    obtain ⟨rfl, hrr⟩ := printInt_decodes hr hr' h
    exact ⟨rfl, hrr⟩
  | .str s, w, r, r', _, _, h => by
    obtain ⟨t, rfl⟩ := kind_eq_str (kind_eq_of_print h).symm
    obtain ⟨rfl, hrr⟩ := printStr_decodes trivial trivial h
    exact ⟨rfl, hrr⟩
  | .arr vs, w, r, r', _, _, h => by
    obtain ⟨ws, rfl⟩ := kind_eq_arr (kind_eq_of_print h).symm
    match vs, ws, h with
    | [], [], h => exact ⟨rfl, List.append_cancel_left h⟩
    | [], w :: ws, h => exact absurd (List.cons.inj h).2.symm (print_ne_bracket w)
    | v :: vs, [], h => exact absurd (List.cons.inj h).2 (print_ne_bracket v)
    | v :: vs, w :: ws, h =>
      simp only [print, List.cons_append, List.append_assoc, List.cons.injEq, true_and] at h
      obtain ⟨rfl, hrest⟩ :=
        print_cancel v w (printElems_endsNumber vs r) (printElems_endsNumber ws r') h
      obtain ⟨rfl, hrr⟩ := printElems_cancel vs ws hrest
      exact ⟨rfl, hrr⟩
  | .obj ms, w, r, r', _, _, h => by
    obtain ⟨ns, rfl⟩ := kind_eq_obj (kind_eq_of_print h).symm
    match ms, ns, h with
    | [], [], h => exact ⟨rfl, List.append_cancel_left h⟩
    | [], (_, _) :: _, h | (_, _) :: _, [], h => simp [print, printStr] at h
    | (k, v) :: ms, (j, w) :: ns, h =>
      simp only [print, List.cons_append, List.append_assoc, List.cons.injEq, true_and] at h
      obtain ⟨rfl, hrest⟩ := printStr_decodes trivial trivial h
      obtain ⟨rfl, hms⟩ := print_cancel v w (printMembers_endsNumber ms r)
        (printMembers_endsNumber ns r') (List.cons.inj hrest).2
      obtain ⟨rfl, hrr⟩ := printMembers_cancel ms ns hms
      exact ⟨rfl, hrr⟩

theorem printElems_cancel : ∀ (vs ws : List Json) {r r' : List Char},
    printElems vs ++ r = printElems ws ++ r' → vs = ws ∧ r = r'
  | [], [], r, r', h => by simpa [printElems] using h
  | [], w :: ws, r, r', h => by simp [printElems] at h
  | v :: vs, [], r, r', h => by simp [printElems] at h
  | v :: vs, w :: ws, r, r', h => by
    simp only [printElems, List.cons_append, List.append_assoc, List.cons.injEq, true_and] at h
    obtain ⟨rfl, hrest⟩ := print_cancel v w (printElems_endsNumber vs r) (printElems_endsNumber ws r') h
    obtain ⟨rfl, hrr⟩ := printElems_cancel vs ws hrest
    exact ⟨rfl, hrr⟩

theorem printMembers_cancel : ∀ (ms ns : List (String × Json)) {r r' : List Char},
    printMembers ms ++ r = printMembers ns ++ r' → ms = ns ∧ r = r'
  | [], [], r, r', h => by simpa [printMembers] using h
  | [], (_, _) :: _, r, r', h => by simp [printMembers] at h
  | (_, _) :: _, [], r, r', h => by simp [printMembers] at h
  | (k, v) :: ms, (j, w) :: ns, r, r', h => by
    simp only [printMembers, List.cons_append, List.append_assoc, List.cons.injEq, true_and] at h
    obtain ⟨rfl, hrest⟩ := printStr_decodes trivial trivial h
    obtain ⟨rfl, hms⟩ := print_cancel v w (printMembers_endsNumber ms r)
      (printMembers_endsNumber ns r') (List.cons.inj hrest).2
    obtain ⟨rfl, hrr⟩ := printMembers_cancel ms ns hms
    exact ⟨rfl, hrr⟩

end

/-- A value can be told apart from the text after it. -/
theorem print_decodes : Decodes EndsNumber print := fun v w _ _ hr hr' h => print_cancel v w hr hr' h

theorem print_injective {v w : Json} (h : print v = print w) : v = w :=
  print_decodes.injective endsNumber_nil h

end Json

end Ravn.Theory
