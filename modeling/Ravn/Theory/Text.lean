import Mathlib.Algebra.GroupWithZero.Nat

/-! Texts as lists of characters: trimming, lines, splitting and numerals. -/

namespace Ravn.Theory

/-! ## Trimming -/

/-- The Unicode property `White_Space`. -/
def isWhitespace (c : Char) : Bool :=
  let n := c.toNat
  (9 ≤ n && n ≤ 13) || n == 32 || n == 0x85 || n == 0xA0 || n == 0x1680 ||
    (0x2000 ≤ n && n ≤ 0x200A) || n == 0x2028 || n == 0x2029 || n == 0x202F || n == 0x205F ||
    n == 0x3000

/-- A text without the white space at its ends. -/
def trim (cs : List Char) : List Char :=
  ((cs.dropWhile isWhitespace).reverse.dropWhile isWhitespace).reverse

/-- A text without the white space at its start, and at its end. -/
def trimStart (cs : List Char) : List Char := cs.dropWhile isWhitespace

def trimEnd (cs : List Char) : List Char := (cs.reverse.dropWhile isWhitespace).reverse

/-- A text without the copies of a character at its start, and at its end. -/
def trimStartMatches (c : Char) (cs : List Char) : List Char := cs.dropWhile (· == c)

def trimEndMatches (c : Char) (cs : List Char) : List Char := (cs.reverse.dropWhile (· == c)).reverse

theorem dropWhile_eq_self {p : α → Bool} {l : List α} (h : ∀ a ∈ l, p a = false) :
    l.dropWhile p = l := by
  cases l with
  | nil => rfl
  | cons a l => simp [h a List.mem_cons_self]

theorem trim_eq_self (h : ∀ c ∈ cs, isWhitespace c = false) : trim cs = cs := by
  rw [trim, dropWhile_eq_self h, dropWhile_eq_self (by simpa using h), List.reverse_reverse]

/-! ## Lines -/

/-- The text up to and with its first line feed. -/
def readLine : List Char → List Char
  | [] => []
  | c :: cs => if c = '\n' then [c] else c :: readLine cs

theorem readLine_line {l : List Char} (h : '\n' ∉ l) (cs : List Char) :
    readLine (l ++ '\n' :: cs) = l ++ ['\n'] := by
  induction l with
  | nil => rfl
  | cons c l ih =>
    simp only [List.mem_cons, not_or] at h
    rw [List.cons_append, readLine, if_neg (Ne.symm h.1), ih h.2, List.cons_append]

theorem trim_line {a b : Char} (ha : isWhitespace a = false) (hb : isWhitespace b = false)
    (cs : List Char) : trim (a :: cs ++ [b] ++ ['\n']) = a :: cs ++ [b] := by
  have hnewline : isWhitespace '\n' = true := by decide
  simp [trim, ha, hb, hnewline]

/-- A line without the carriage return of a `\r\n` ending; the line comes reversed. -/
def stripCr : List Char → List Char
  | '\r' :: acc => acc.reverse
  | acc => acc.reverse

/-- The lines of a text, `acc` holding the part of the current line that has been read, reversed.
A text that ends in a newline has no further, empty line after it. -/
def linesFrom : List Char → List Char → List (List Char)
  | [], [] => []
  | acc, [] => [acc.reverse]
  | acc, '\n' :: cs => stripCr acc :: linesFrom [] cs
  | acc, c :: cs => linesFrom (c :: acc) cs

def lines (cs : List Char) : List (List Char) := linesFrom [] cs

/-- What is appended next starts a line of its own. -/
def AtLineStart (cs : List Char) : Prop := cs = [] ∨ cs.getLast? = some '\n'

instance : Decidable (AtLineStart cs) := inferInstanceAs (Decidable (_ ∨ _))

theorem linesFrom_newline (acc cs : List Char) :
    linesFrom acc ('\n' :: cs) = stripCr acc :: linesFrom [] cs := by
  cases acc <;> rfl

theorem linesFrom_cons {c : Char} (h : c ≠ '\n') (acc cs : List Char) :
    linesFrom acc (c :: cs) = linesFrom (c :: acc) cs := by
  rw [linesFrom.eq_def]
  split <;> simp_all

/-- A text that is complete up to its last newline keeps its lines when more is appended. -/
theorem linesFrom_append_newline (acc cs ds : List Char) :
    linesFrom acc (cs ++ '\n' :: ds) = linesFrom acc (cs ++ ['\n']) ++ linesFrom [] ds := by
  induction cs generalizing acc with
  | nil =>
    simp only [List.nil_append, linesFrom_newline]
    rfl
  | cons c cs ih =>
    by_cases hc : c = '\n'
    · subst hc
      simp only [List.cons_append, linesFrom_newline, ih]
    · simp only [List.cons_append, linesFrom_cons hc, ih]

theorem lines_append (h : AtLineStart cs) (ds : List Char) :
    lines (cs ++ ds) = lines cs ++ lines ds := by
  rcases h with rfl | h
  · rfl
  · obtain ⟨init, rfl⟩ := List.getLast?_eq_some_iff.mp h
    simpa [lines] using linesFrom_append_newline [] init ds

theorem linesFrom_line {l : List Char} (h : '\n' ∉ l) (acc ds : List Char) :
    linesFrom acc (l ++ '\n' :: ds) = stripCr (l.reverse ++ acc) :: linesFrom [] ds := by
  induction l generalizing acc with
  | nil => exact linesFrom_newline acc ds
  | cons c l ih =>
    simp only [List.mem_cons, not_or] at h
    simp [linesFrom_cons (Ne.symm h.1), ih h.2]

theorem stripCr_reverse {l : List Char} (h : l.getLast? ≠ some '\r') : stripCr l.reverse = l := by
  rw [stripCr.eq_def]
  split
  · rename_i acc hacc
    exact absurd (by rw [← List.reverse_reverse l, hacc]; simp) h
  · exact List.reverse_reverse l

/-- The first line of a text that starts with a plain line. -/
theorem lines_line {l : List Char} (hn : '\n' ∉ l) (hr : l.getLast? ≠ some '\r')
    (ds : List Char) : lines (l ++ '\n' :: ds) = l :: lines ds := by
  rw [lines, linesFrom_line hn, List.append_nil, stripCr_reverse hr, lines]

/-! ## Searching -/

/-- The text before and after the first occurrence of `pat`. -/
def splitOnce (pat : List Char) : List Char → Option (List Char × List Char)
  | [] => if pat = [] then some ([], []) else none
  | c :: cs =>
    if pat.isPrefixOf (c :: cs) then some ([], (c :: cs).drop pat.length)
    else (splitOnce pat cs).map fun r => (c :: r.1, r.2)

/-- What follows `pat` in a text that starts with it. -/
def stripPrefix (pat cs : List Char) : Option (List Char) :=
  if pat.isPrefixOf cs then some (cs.drop pat.length) else none

/-- The parts of a text between the copies of a character, `acc` holding what has been read of the
current one, reversed. -/
def splitFrom (sep : Char) : List Char → List Char → List (List Char)
  | acc, [] => [acc.reverse]
  | acc, c :: cs => if c = sep then acc.reverse :: splitFrom sep [] cs else splitFrom sep (c :: acc) cs

def split (sep : Char) (cs : List Char) : List (List Char) := splitFrom sep [] cs

theorem eq_append_of_splitOnce (h : splitOnce pat cs = some (before, after)) :
    cs = before ++ pat ++ after := by
  induction cs generalizing before after with
  | nil =>
    simp only [splitOnce] at h
    split at h
    · rename_i hpat
      cases h
      simp [hpat]
    · cases h
  | cons c cs ih =>
    simp only [splitOnce] at h
    split at h
    · rename_i hpre
      obtain ⟨rest, hrest⟩ := List.isPrefixOf_iff_prefix.mp hpre
      cases h
      simp [← hrest]
    · obtain ⟨r, hr, heq⟩ := Option.map_eq_some_iff.mp h
      cases heq
      simpa using ih hr

theorem splitFrom_append (h : sep ∉ l) (acc cs : List Char) :
    splitFrom sep acc (l ++ cs) = splitFrom sep (l.reverse ++ acc) cs := by
  induction l generalizing acc with
  | nil => rfl
  | cons c l ih =>
    simp only [List.mem_cons, not_or] at h
    rw [List.cons_append, splitFrom, if_neg (Ne.symm h.1), ih h.2, List.reverse_cons,
      List.append_assoc]
    rfl

theorem splitFrom_eq_splitOnPPrepend (sep : Char) (acc cs : List Char) :
    splitFrom sep acc cs = List.splitOnPPrepend (· == sep) cs acc := by
  induction cs generalizing acc with
  | nil => rfl
  | cons c cs ih =>
    rw [splitFrom, List.splitOnPPrepend, ih, ih]
    simp only [beq_iff_eq]

theorem split_eq_splitOn (sep : Char) (cs : List Char) : split sep cs = cs.splitOn sep :=
  splitFrom_eq_splitOnPPrepend sep [] cs

theorem split_of_notMem (h : sep ∉ l) : split sep l = [l] := by
  rw [split_eq_splitOn, List.splitOn_eq_singleton h]

theorem split_append_cons (h : sep ∉ l) (cs : List Char) :
    split sep (l ++ sep :: cs) = l :: split sep cs := by
  rw [split_eq_splitOn, split_eq_splitOn, List.splitOn_append_cons_self_of_not_mem h]

theorem notMem_of_mem_splitFrom (h : l ∈ splitFrom sep acc cs) (hacc : sep ∉ acc) : sep ∉ l := by
  induction cs generalizing acc with
  | nil =>
    cases List.mem_singleton.mp h
    simpa using hacc
  | cons c cs ih =>
    rw [splitFrom] at h
    split at h
    · rcases List.mem_cons.mp h with rfl | h
      · simpa using hacc
      · exact ih h List.not_mem_nil
    · rename_i hc
      exact ih h (List.not_mem_cons_of_ne_of_not_mem (Ne.symm hc) hacc)

theorem mem_of_mem_splitFrom (h : l ∈ splitFrom sep acc cs) (hc : c ∈ l) : c ∈ acc ∨ c ∈ cs := by
  induction cs generalizing acc with
  | nil =>
    cases List.mem_singleton.mp h
    exact .inl (List.mem_reverse.mp hc)
  | cons d cs ih =>
    simp only [splitFrom] at h
    split at h
    · rcases List.mem_cons.mp h with rfl | h
      · exact .inl (List.mem_reverse.mp hc)
      · exact .inr (List.mem_cons_of_mem _ ((ih h).resolve_left List.not_mem_nil))
    · rcases ih h with hacc | hcs
      · rcases List.mem_cons.mp hacc with rfl | hacc
        · exact .inr List.mem_cons_self
        · exact .inl hacc
      · exact .inr (List.mem_cons_of_mem _ hcs)

theorem length_lt_of_splitOnce (hpat : pat ≠ []) (h : splitOnce pat cs = some (before, after)) :
    after.length < cs.length := by
  have hpos := List.length_pos_iff.mpr hpat
  rw [eq_append_of_splitOnce h]
  simp only [List.length_append]
  omega

/-! ## Hexadecimal numerals -/

/-- The `k` low hexadecimal digits of a number in lower case, the most significant one first. -/
def hexDigits : Nat → Nat → List Char
  | 0, _ => []
  | k + 1, n => hexDigits k (n / 16) ++ [Nat.digitChar (n % 16)]

/-- The value of a hexadecimal digit of either case. -/
def hexDigitVal (c : Char) : Option Nat :=
  if '0' ≤ c ∧ c ≤ '9' then some (c.toNat - 48)
  else if 'a' ≤ c ∧ c ≤ 'f' then some (c.toNat - 87)
  else if 'A' ≤ c ∧ c ≤ 'F' then some (c.toNat - 55)
  else none

/-- The number that hexadecimal digits denote. -/
def ofHexFrom (acc : Nat) : List Char → Option Nat
  | [] => some acc
  | c :: cs => (hexDigitVal c).bind fun d => ofHexFrom (16 * acc + d) cs

def ofHex (cs : List Char) : Option Nat := ofHexFrom 0 cs

@[simp] theorem length_hexDigits (k n : Nat) : (hexDigits k n).length = k := by
  induction k generalizing n with
  | zero => rfl
  | succ k ih => simp [hexDigits, ih]

theorem mem_hexDigits (h : c ∈ hexDigits k n) : ∃ d < 16, c = Nat.digitChar d := by
  induction k generalizing n with
  | zero => cases h
  | succ k ih =>
    rcases List.mem_append.mp h with h | h
    · exact ih h
    · exact ⟨n % 16, Nat.mod_lt _ (by decide), by simpa using h⟩

theorem hexDigitVal_digitChar : ∀ d < 16, hexDigitVal (Nat.digitChar d) = some d := by decide

theorem ofHexFrom_append (acc : Nat) (cs ds : List Char) :
    ofHexFrom acc (cs ++ ds) = (ofHexFrom acc cs).bind fun n => ofHexFrom n ds := by
  induction cs generalizing acc with
  | nil => rfl
  | cons c cs ih =>
    simp only [List.cons_append, ofHexFrom]
    cases hexDigitVal c with
    | none => rfl
    | some d => exact ih _

theorem ofHexFrom_hexDigits (acc k n : Nat) :
    ofHexFrom acc (hexDigits k n) = some (acc * 16 ^ k + n % 16 ^ k) := by
  induction k generalizing n with
  | zero => simp [hexDigits, ofHexFrom, Nat.mod_one]
  | succ k ih =>
    rw [hexDigits, ofHexFrom_append, ih]
    simp only [Option.bind_some, ofHexFrom, hexDigitVal_digitChar _ (Nat.mod_lt n (by decide)),
      Option.some.injEq]
    have hmod : n % (16 ^ k * 16) = 16 * (n / 16 % 16 ^ k) + n % 16 := by
      rw [Nat.mul_comm, Nat.mod_mul, Nat.add_comm]
    rw [Nat.pow_succ, hmod, Nat.mul_add, ← Nat.add_assoc, ← Nat.mul_assoc,
      Nat.mul_comm 16, Nat.mul_assoc acc]
    ac_rfl

theorem ofHex_hexDigits (h : n < 16 ^ k) : ofHex (hexDigits k n) = some n := by
  rw [ofHex, ofHexFrom_hexDigits, Nat.mod_eq_of_lt h, Nat.zero_mul, Nat.zero_add]

/-! ## Decimal numerals -/

/-- The value of a nonempty sequence of decimal digits. -/
def ofDecimal (cs : List Char) : Option Nat :=
  if cs.isEmpty then none
  else cs.foldlM (fun n c => if c.isDigit then some (10 * n + (c.toNat - 48)) else none) 0

/-- `str::parse` at an unsigned type below `bound`: a sign `+` may stand in front. -/
def parseUnsigned (bound : Nat) (cs : List Char) : Option Nat :=
  (ofDecimal (match cs with | '+' :: cs => cs | cs => cs)).filter (· < bound)

/-- `str::parse` at a signed type between `-bound` and `bound - 1`. -/
def parseSigned (bound : Nat) (cs : List Char) : Option Int :=
  match cs with
  | '-' :: cs => ((ofDecimal cs).filter (· ≤ bound)).map fun n => -(n : Int)
  | cs => (parseUnsigned bound cs).map fun n => (n : Int)

end Ravn.Theory
