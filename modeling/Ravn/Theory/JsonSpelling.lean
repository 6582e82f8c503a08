import Ravn.Theory.JsonPrefix

/-! Texts of objects whose members are strings, in any spelling that the grammar has: each character
plain or escaped in one way or another, and blanks between the tokens (`parse_objectText`). -/

namespace Ravn.Theory.Json

/-- A way to write one character in a string. -/
structure Spelling where
  text : List Char
  char : Char
  reads : scanChar text = some (some char, [])

/-- What is written between the quotes, and what it stands for. -/
def spelled (ps : List Spelling) : List Char := ps.flatMap Spelling.text

def chars (ps : List Spelling) : List Char := ps.map Spelling.char

@[simp] theorem spelled_nil : spelled [] = [] := rfl

@[simp] theorem spelled_cons (p : Spelling) (ps : List Spelling) :
    spelled (p :: ps) = p.text ++ spelled ps := rfl

@[simp] theorem chars_nil : chars [] = [] := rfl

@[simp] theorem chars_cons (p : Spelling) (ps : List Spelling) :
    chars (p :: ps) = p.char :: chars ps := rfl

/-- Characters that are written as themselves. -/
def plainly (cs : List Char) (h : ∀ c ∈ cs, scanChar [c] = some (some c, [])) : List Spelling :=
  cs.pmap (fun c hc => ⟨[c], c, hc⟩) h

theorem plain_of_all {cs : List Char} (h : cs.all fun c => scanChar [c] = some (some c, [])) :
    ∀ c ∈ cs, scanChar [c] = some (some c, []) := by
  simpa using h

/-- The letters after a backslash, with what they stand for. -/
def escapeLetters : List (Char × Char) :=
  [('"', '"'), ('\\', '\\'), ('/', '/'), ('b', '\x08'), ('f', '\x0c'), ('n', '\n'), ('r', '\r'),
    ('t', '\t')]

/-- A character is written as itself, with a letter or with its code. -/
theorem Spelling.cases (p : Spelling) :
    (p.text = [p.char] ∧ p.char ≠ '"' ∧ p.char ≠ '\\' ∧ 32 ≤ p.char.toNat) ∨
      (∃ e, p.text = ['\\', e] ∧ (e, p.char) ∈ escapeLetters) ∨
      ∃ ds, p.text = '\\' :: 'u' :: ds ∧ scanUnicode ds = some (p.char, []) := by
  obtain ⟨text, char, h⟩ := p
  dsimp only
  rw [scanChar.eq_def] at h
  split at h
  case h_10 =>
    obtain ⟨⟨c, r'⟩, hc, heq'⟩ := Option.map_eq_some_iff.mp h
    cases heq'
    exact .inr (.inr ⟨_, rfl, hc⟩)
  case h_12 c r hquote _ _ _ _ _ _ _ _ _ hback =>
    split at h
    · cases h
    · cases h
      exact .inl ⟨rfl, hquote, hback, by omega⟩
  all_goals cases h <;> exact .inr (.inl ⟨_, rfl, by decide⟩)

theorem Spelling.scan (p : Spelling) (r : List Char) :
    scanChar (p.text ++ r) = some (some p.char, r) :=
  scanChar_append p.reads r

theorem Spelling.text_ne_nil (p : Spelling) : p.text ≠ [] := by
  intro h
  have hreads := p.reads
  rw [h] at hreads
  cases hreads

theorem scanStr_spelled (ps : List Spelling) (r : List Char) (hfuel : ps.length < fuel) :
    scanStr fuel (spelled ps ++ '"' :: r) = some (chars ps, r) := by
  induction ps generalizing fuel with
  | nil =>
    obtain ⟨fuel, rfl⟩ := Nat.exists_eq_add_of_le' (Nat.one_le_of_lt hfuel)
    rfl
  | cons p ps ih =>
    obtain ⟨fuel, rfl⟩ := Nat.exists_eq_add_of_le' (Nat.one_le_of_lt hfuel)
    rw [spelled_cons, List.append_assoc, scanStr, p.scan]
    simp only [ih (Nat.lt_of_succ_lt_succ hfuel), Option.map_some, chars_cons]

theorem length_le_spelled (ps : List Spelling) : ps.length ≤ (spelled ps).length := by
  induction ps with
  | nil => exact Nat.le_refl 0
  | cons p ps ih =>
    have hpos := List.length_pos_iff.mpr p.text_ne_nil
    rw [spelled_cons, List.length_append, List.length_cons]
    omega

/-- A string is read as what its spelling stands for. -/
theorem parseStr_spelled (ps : List Spelling) (r : List Char) :
    parseStr (spelled ps ++ '"' :: r) = some (String.ofList (chars ps), r) := by
  have hfuel : ps.length < (spelled ps ++ '"' :: r).length + 1 := by
    have hle := length_le_spelled ps
    rw [List.length_append]
    omega
  rw [parseStr, scanStr_spelled ps r hfuel, Option.map_some]

/-! ## Objects of strings -/

/-- A member whose value is a string, with the blanks around its four tokens. -/
structure StrMember where
  key : List Spelling
  value : List Spelling
  before : List Char
  afterKey : List Char
  beforeValue : List Char
  afterValue : List Char
  blank : ∀ c ∈ before ++ afterKey ++ beforeValue ++ afterValue, isBlank c = true

namespace StrMember

/-- The text up to the opening quote of the value, and the text from there on. -/
def intro (m : StrMember) : List Char :=
  m.before ++ '"' :: (spelled m.key ++ '"' :: (m.afterKey ++ ':' :: m.beforeValue))

def body (m : StrMember) : List Char := spelled m.value ++ '"' :: m.afterValue

def text (m : StrMember) : List Char := m.intro ++ '"' :: m.body

def doc (m : StrMember) : String × Doc :=
  (String.ofList (chars m.key), .str (String.ofList (chars m.value)))

end StrMember

/-- The members of an object with the commas between them. -/
def membersText : List StrMember → List Char
  | [] => []
  | [m] => m.text
  | m :: ms => m.text ++ ',' :: membersText ms

theorem skipBlank_blank {w : List Char} (hw : ∀ c ∈ w, isBlank c = true) {c : Char}
    (hc : isBlank c = false) (r : List Char) : skipBlank (w ++ c :: r) = c :: r := by
  unfold skipBlank
  rw [List.dropWhile_append_of_pos hw, List.dropWhile_cons_of_neg (by simp [hc])]

/-- The first member is read, and what comes after its blanks decides how it goes on. -/
theorem parseMembers_text (m : StrMember) {c : Char} (hc : isBlank c = false) (fuel : Nat)
    (r : List Char) :
    parseMembers (fuel + 2) (m.text ++ c :: r) =
      match c :: r with
      | ',' :: r => (parseMembers (fuel + 1) r).map fun (ms, r) => (m.doc :: ms, r)
      | '\x7d' :: r => some ([m.doc], r)
      | _ => none := by
  have hblank : ∀ w ∈ [m.before, m.afterKey, m.beforeValue, m.afterValue],
      ∀ c ∈ w, isBlank c = true := by
    intro w hw c hc
    apply m.blank
    simp only [List.mem_cons, List.not_mem_nil, or_false] at hw
    rcases hw with rfl | rfl | rfl | rfl <;> simp [hc]
  simp only [List.forall_mem_cons] at hblank
  obtain ⟨hbefore, hafterKey, hbeforeValue, hafterValue, -⟩ := hblank
  simp only [StrMember.text, StrMember.intro, StrMember.body, List.append_assoc, List.cons_append]
  rw [parseMembers, skipBlank_blank hbefore (by decide)]
  simp only [parseStr_spelled, Option.bind_some]
  rw [skipBlank_blank hafterKey (by decide)]
  simp only [parseValue, skipBlank_blank hbeforeValue (by decide : isBlank '"' = false),
    parseStr_spelled, Option.map_some, Option.bind_some, skipBlank_blank hafterValue hc]
  rfl

theorem parseMembers_membersText (fuel : Nat) (m : StrMember) (ms : List StrMember) (r : List Char)
    (hfuel : ms.length + 2 ≤ fuel) :
    parseMembers fuel (membersText (m :: ms) ++ '\x7d' :: r) =
      some ((m :: ms).map StrMember.doc, r) := by
  induction ms generalizing fuel m with
  | nil =>
    obtain ⟨fuel, rfl⟩ := Nat.exists_eq_add_of_le' hfuel
    exact parseMembers_text m (by decide) _ r
  | cons m' ms ih =>
    obtain ⟨fuel, rfl⟩ := Nat.exists_eq_add_of_le' (Nat.le_of_add_left_le hfuel)
    rw [List.length_cons] at hfuel
    have hrest := ih (fuel + 1) m' (by omega)
    rw [membersText, List.append_assoc, List.cons_append, parseMembers_text m (by decide)]
    · simp only [hrest, Option.map_some, List.map_cons]
    · exact List.cons_ne_nil m' ms

def objectText (ms : List StrMember) : List Char := '\x7b' :: (membersText ms ++ ['\x7d'])

theorem length_le_membersText (ms : List StrMember) : ms.length ≤ (membersText ms).length := by
  induction ms with
  | nil => exact Nat.le_refl 0
  | cons m ms ih =>
    have hpos : 1 ≤ m.text.length := by
      rw [StrMember.text, List.length_append, List.length_cons]
      omega
    cases ms with
    | nil => exact hpos
    | cons m' ms =>
      rw [membersText, List.length_append, List.length_cons]
      · rw [List.length_cons (a := ',')]
        omega
      · exact List.cons_ne_nil m' ms

/-- The first token in an object is a quote. -/
theorem skipBlank_membersText (m : StrMember) (ms : List StrMember) (r : List Char) :
    ∃ r', skipBlank (membersText (m :: ms) ++ r) = '"' :: r' := by
  have hbefore : ∀ c ∈ m.before, isBlank c = true := fun c hc => m.blank c (by simp [hc])
  cases ms with
  | nil =>
    rw [membersText, StrMember.text, StrMember.intro, List.append_assoc, List.append_assoc]
    exact ⟨_, skipBlank_blank hbefore (by decide) _⟩
  | cons m' ms =>
    rw [membersText, StrMember.text, StrMember.intro]
    · simp only [List.append_assoc, List.cons_append]
      exact ⟨_, skipBlank_blank hbefore (by decide) _⟩
    · exact List.cons_ne_nil m' ms

/-- The text of an object of strings is read as the object. -/
theorem parse_objectText (m : StrMember) (ms : List StrMember) :
    parse (objectText (m :: ms)) = some (.obj ((m :: ms).map StrMember.doc)) := by
  have hle := length_le_membersText (m :: ms)
  have hmembers := parseMembers_membersText (2 * (membersText (m :: ms)).length + 3) m ms []
    (by rw [List.length_cons] at hle; omega)
  obtain ⟨r', hr'⟩ := skipBlank_membersText m ms ['\x7d']
  have hfuel : 2 * (objectText (m :: ms)).length = 2 * (membersText (m :: ms)).length + 3 + 1 := by
    rw [objectText, List.length_cons, List.length_append, List.length_singleton]
    omega
  rw [parse, hfuel, objectText, parseValue_brace, hr']
  simp only [hmembers, Option.map_some]
  rfl

/-- No proper start of it is read. -/
theorem parse_start_objectText {s t : List Char} (m : StrMember) (ms : List StrMember)
    (h : s ++ t = membersText (m :: ms)) : parse ('\x7b' :: s) = none := by
  refine parse_eq_none (t := t) (v := .obj ((m :: ms).map StrMember.doc)) ?_
  rw [List.cons_append, h]
  exact parse_objectText m ms

end Ravn.Theory.Json
