import Ravn.Theory.Json
import Ravn.Theory.Text

/-! Reading JSON texts. A document is a value as a typed reader sees it: members in the order of the
text, with repeated names, and of a number only the integer it is, if it is one within 64 bits, and
whether it is too large for a double. The main result is that reading the compact text of a value gives
that value (`Json.parse_print`). -/

namespace Ravn.Theory

inductive Doc where
  | null
  | bool (b : Bool)
  /-- A number; `none` if it has a fraction or an exponent, or does not fit 64 bits. -/
  | num (value : Option Int)
  /-- A number beyond the range of a double. Only a reader that has no use for it gets past it. -/
  | huge
  | str (s : String)
  | arr (elems : List Doc)
  | obj (members : List (String × Doc))

def Doc.IsNumber : Doc → Prop
  | .num _ | .huge => True
  | _ => False

namespace Json

/-! ## Tokens -/

def isBlank (c : Char) : Bool := c = ' ' || c = '\n' || c = '\t' || c = '\r'

def skipBlank (cs : List Char) : List Char := cs.dropWhile isBlank

/-- Four hexadecimal digits. -/
def hex4 (cs : List Char) : Option (Nat × List Char) :=
  if (cs.take 4).length = 4 then (ofHex (cs.take 4)).map fun n => (n, cs.drop 4) else none

/-- What follows `\u`: a character of the basic plane, or a pair of surrogates. -/
def scanUnicode (cs : List Char) : Option (Char × List Char) :=
  (hex4 cs).bind fun (n, r) =>
    if 0xD800 ≤ n ∧ n < 0xDC00 then
      match r with
      | '\\' :: 'u' :: r =>
        (hex4 r).bind fun (m, r) =>
          if 0xDC00 ≤ m ∧ m < 0xE000 then
            some (Char.ofNat (0x10000 + (n - 0xD800) * 1024 + (m - 0xDC00)), r)
          else none
      | _ => none
    else if 0xDC00 ≤ n ∧ n < 0xE000 then none
    else some (Char.ofNat n, r)

/-- The next character of a string, or its end. -/
def scanChar : List Char → Option (Option Char × List Char)
  | '"' :: r => some (none, r)
  | '\\' :: '"' :: r => some (some '"', r)
  | '\\' :: '\\' :: r => some (some '\\', r)
  | '\\' :: '/' :: r => some (some '/', r)
  | '\\' :: 'b' :: r => some (some '\x08', r)
  | '\\' :: 'f' :: r => some (some '\x0c', r)
  | '\\' :: 'n' :: r => some (some '\n', r)
  | '\\' :: 'r' :: r => some (some '\r', r)
  | '\\' :: 't' :: r => some (some '\t', r)
  | '\\' :: 'u' :: r => (scanUnicode r).map fun (c, r) => (some c, r)
  | '\\' :: _ => none
  | c :: r => if c.toNat < 32 then none else some (some c, r)
  | [] => none

/-- A string after its opening quote. -/
def scanStr : Nat → List Char → Option (List Char × List Char)
  | 0, _ => none
  | fuel + 1, cs =>
    match scanChar cs with
    | none => none
    | some (none, r) => some ([], r)
    | some (some c, r) => (scanStr fuel r).map fun (cs, r) => (c :: cs, r)

def parseStr (cs : List Char) : Option (String × List Char) :=
  (scanStr (cs.length + 1) cs).map fun (cs, r) => (String.ofList cs, r)

/-- The integer that a literal without fraction and exponent is read as. A negative zero is a
fraction. -/
def intValue (negative : Bool) (n : Nat) : Option Int :=
  if negative then if 0 < n ∧ n ≤ 2 ^ 63 then some (-n) else none
  else if n < 2 ^ 64 then some n else none

/-- A natural number as the nearest double, of two nearest ones the even one. -/
def toDouble (n : Nat) : Nat :=
  let ulp := 2 ^ (n.log2 - 52)
  let up := ulp < 2 * (n % ulp) ∨ 2 * (n % ulp) = ulp ∧ n / ulp % 2 = 1
  (if up then n / ulp + 1 else n / ulp) * ulp

/-- `f64_from_parts` overflows: the significand times a power of ten, both as doubles, is closer to
`2 ^ 1024` than to any double. -/
def isHuge (significand : Nat) (exponent : Int) : Bool :=
  0 < significand ∧ 0 < exponent ∧ (308 < exponent ∨
    2 ^ 1024 - 2 ^ 970 ≤ toDouble significand * toDouble (10 ^ exponent.toNat))

/-- Digits are gathered in a `u64`; also returns those from the first on that does not fit. -/
def gather : Nat → List Char → Nat × List Char
  | n, [] => (n, [])
  | n, c :: cs =>
    if 10 * n + (c.toNat - 48) < 2 ^ 64 then gather (10 * n + (c.toNat - 48)) cs else (n, c :: cs)

/-- The number of the digits before and after the point, and of the sign and the value of its exponent.
Digits that do not fit count for the exponent before the point and are dropped after it; an exponent
that does not fit an `i32` is as large as can be. -/
def numberDoc (negative : Bool) (ds fs : List Char) (exponent : Option (Bool × Nat)) : Doc :=
  let (n, ds') := gather 0 ds
  let (n, fs') := gather n fs
  let scale : Int := ds'.length - (fs.length - fs'.length)
  let huge := match exponent with
    | none => isHuge n scale
    | some (true, e) => 0 < n ∧ 2 ^ 31 ≤ e ∨ isHuge n (scale + e)
    | some (false, e) => e < 2 ^ 31 ∧ isHuge n (scale - e)
  if huge then .huge
  else .num (if fs = [] ∧ exponent = none then intValue negative (Nat.ofDigitChars 10 ds 0) else none)

/-- What follows a nonempty run of digits. -/
def digits1 (cs : List Char) : Option (List Char × List Char) :=
  let ds := cs.takeWhile Char.isDigit
  if ds = [] then none else some (ds, cs.drop ds.length)

/-- The sign and the value of the exponent, if there is one. -/
def parseExponent (cs : List Char) : Option (Option (Bool × Nat) × List Char) :=
  match cs with
  | c :: r =>
    if c = 'e' ∨ c = 'E' then
      let (positive, r) : Bool × List Char :=
        match r with
        | '+' :: r => (true, r)
        | '-' :: r => (false, r)
        | r => (true, r)
      (digits1 r).map fun (ds, r) => (some (positive, Nat.ofDigitChars 10 ds 0), r)
    else some (none, c :: r)
  | [] => some (none, [])

/-- The digits after the point, if there is one. -/
def parseFraction (cs : List Char) : Option (List Char × List Char) :=
  match cs with
  | '.' :: r => digits1 r
  | cs => some ([], cs)

def parseUnsignedNumber (negative : Bool) (cs : List Char) : Option (Doc × List Char) := do
  let (ds, r) ← digits1 cs
  if ds.head? = some '0' ∧ ds.length ≠ 1 then none
  else
    let (fs, r) ← parseFraction r
    let (exponent, r) ← parseExponent r
    some (numberDoc negative ds fs exponent, r)

def parseNumber (cs : List Char) : Option (Doc × List Char) :=
  match cs with
  | '-' :: r => parseUnsignedNumber true r
  | cs => parseUnsignedNumber false cs

/-! ## Values -/

mutual

/-- One value with the blanks before it. -/
def parseValue : Nat → List Char → Option (Doc × List Char)
  | 0, _ => none
  | fuel + 1, cs =>
    match skipBlank cs with
    | 'n' :: 'u' :: 'l' :: 'l' :: r => some (.null, r)
    | 't' :: 'r' :: 'u' :: 'e' :: r => some (.bool true, r)
    | 'f' :: 'a' :: 'l' :: 's' :: 'e' :: r => some (.bool false, r)
    | '"' :: r => (parseStr r).map fun (s, r) => (.str s, r)
    | '[' :: r =>
      match skipBlank r with
      | ']' :: r => some (.arr [], r)
      | _ => (parseElems fuel r).map fun (vs, r) => (.arr vs, r)
    | '{' :: r =>
      match skipBlank r with
      | '}' :: r => some (.obj [], r)
      | _ => (parseMembers fuel r).map fun (ms, r) => (.obj ms, r)
    | cs => parseNumber cs

/-- The elements of an array up to its end. -/
def parseElems : Nat → List Char → Option (List Doc × List Char)
  | 0, _ => none
  | fuel + 1, cs =>
    (parseValue fuel cs).bind fun (v, r) =>
      match skipBlank r with
      | ',' :: r => (parseElems fuel r).map fun (vs, r) => (v :: vs, r)
      | ']' :: r => some ([v], r)
      | _ => none

/-- The members of an object up to its end. -/
def parseMembers : Nat → List Char → Option (List (String × Doc) × List Char)
  | 0, _ => none
  | fuel + 1, cs =>
    match skipBlank cs with
    | '"' :: r =>
      (parseStr r).bind fun (k, r) =>
        match skipBlank r with
        | ':' :: r =>
          (parseValue fuel r).bind fun (v, r) =>
            match skipBlank r with
            | ',' :: r => (parseMembers fuel r).map fun (ms, r) => ((k, v) :: ms, r)
            | '}' :: r => some ([(k, v)], r)
            | _ => none
        | _ => none
    | _ => none

end

/-- A whole text: one value and nothing but blanks after it. How deep values are nested is not
limited. -/
def parse (cs : List Char) : Option Doc :=
  (parseValue (2 * cs.length) cs).bind fun (v, r) => if skipBlank r = [] then some v else none

mutual

/-- A value as a reader sees it. -/
def toDoc : Json → Doc
  | .null => .null
  | .bool b => .bool b
  | .num n => numberDoc (n < 0) (printNat n.natAbs) [] none
  | .str s => .str s
  | .arr vs => .arr (toDocs vs)
  | .obj ms => .obj (toMembers ms)

def toDocs : List Json → List Doc
  | [] => []
  | v :: vs => toDoc v :: toDocs vs

def toMembers : List (String × Json) → List (String × Doc)
  | [] => []
  | (k, v) :: ms => (k, toDoc v) :: toMembers ms

end

/-! ## Reading what was printed -/

theorem hex4_control (h : n < 256) (r : List Char) :
    hex4 ('0' :: '0' :: Nat.digitChar (n / 16) :: Nat.digitChar (n % 16) :: r) = some (n, r) := by
  have hzero : hexDigitVal '0' = some 0 := by decide
  have hn : 16 * (n / 16) + n % 16 = n := by omega
  simp [hex4, ofHex, ofHexFrom, hzero, hexDigitVal_digitChar _ (by omega : n / 16 < 16),
    hexDigitVal_digitChar _ (by omega : n % 16 < 16), hn]

theorem scanChar_escapeChar (c : Char) (r : List Char) :
    scanChar (escapeChar c ++ r) = some (some c, r) := by
  obtain ⟨e, he, hescape⟩ | ⟨hlt, hescape⟩ | ⟨hquote, hback, hlt, hescape⟩ := escapeChar_cases c
  · rw [hescape]
    simp only [shortEscapes, List.mem_cons, Prod.mk.injEq, List.not_mem_nil, or_false] at he
    obtain ⟨rfl, rfl⟩ | ⟨rfl, rfl⟩ | ⟨rfl, rfl⟩ | ⟨rfl, rfl⟩ | ⟨rfl, rfl⟩ | ⟨rfl, rfl⟩ | ⟨rfl, rfl⟩ :=
      he <;> rfl
  · have hhex := hex4_control (by omega : c.toNat < 256) r
    have hnot : ¬(0xD800 ≤ c.toNat ∧ c.toNat < 0xDC00) := by omega
    have hnot' : ¬(0xDC00 ≤ c.toNat ∧ c.toNat < 0xE000) := by omega
    simp only [hescape, List.cons_append, List.nil_append, scanChar, scanUnicode, hhex,
      Option.bind_some, if_neg hnot, if_neg hnot', Option.map_some, Char.ofNat_toNat]
  · rw [hescape, List.cons_append, List.nil_append, scanChar.eq_def]
    split <;> simp_all

theorem length_escapeChar_pos (c : Char) : 0 < (escapeChar c).length := by
  obtain ⟨e, -, hescape⟩ | ⟨-, hescape⟩ | ⟨-, -, -, hescape⟩ := escapeChar_cases c <;> simp [hescape]

theorem length_le_escape (cs : List Char) : cs.length ≤ (escape cs).length := by
  induction cs with
  | nil => exact Nat.zero_le _
  | cons c cs ih =>
    have hpos := length_escapeChar_pos c
    simp only [escape, List.flatMap_cons, List.length_append, List.length_cons] at ih ⊢
    omega

theorem scanStr_escape (cs r : List Char) (h : cs.length < fuel) :
    scanStr fuel (escape cs ++ '"' :: r) = some (cs, r) := by
  induction cs generalizing fuel with
  | nil =>
    obtain ⟨fuel, rfl⟩ := Nat.exists_eq_succ_of_ne_zero (Nat.ne_of_gt h)
    rfl
  | cons c cs ih =>
    obtain ⟨fuel, rfl⟩ := Nat.exists_eq_succ_of_ne_zero (Nat.ne_of_gt (Nat.zero_lt_of_lt h))
    have hrest := ih (Nat.lt_of_succ_lt_succ h)
    simp only [escape, List.flatMap_cons, List.append_assoc] at hrest ⊢
    simp only [scanStr, scanChar_escapeChar, hrest, Option.map_some]

theorem parseStr_printStr (s : String) (r : List Char) :
    parseStr (escape s.toList ++ '"' :: r) = some (s, r) := by
  have hle := length_le_escape s.toList
  have hscan : scanStr ((escape s.toList ++ '"' :: r).length + 1) (escape s.toList ++ '"' :: r) =
      some (s.toList, r) := by
    apply scanStr_escape
    simp only [List.length_append]
    omega
  simp only [parseStr, hscan, Option.map_some, String.ofList_toList]

/-- Digits of a number that fits are gathered as that number. -/
theorem gather_of_lt {n : Nat} {ds : List Char} (h : Nat.ofDigitChars 10 ds n < 2 ^ 64) :
    gather n ds = (Nat.ofDigitChars 10 ds n, []) := by
  have hle : ∀ (ds : List Char) (m : Nat), m ≤ Nat.ofDigitChars 10 ds m := by
    intro ds
    induction ds with
    | nil => exact fun m => Nat.le_refl m
    | cons c ds ih =>
      intro m
      rw [Nat.ofDigitChars_cons]
      exact Nat.le_trans (by omega) (ih _)
  induction ds generalizing n with
  | nil => rfl
  | cons c ds ih =>
    rw [Nat.ofDigitChars_cons] at h ⊢
    have hfits : 10 * n + (c.toNat - 48) < 2 ^ 64 := Nat.lt_of_le_of_lt (hle ds _) h
    rw [gather, if_pos hfits]
    exact ih h

/-- An integer within 64 bits is no number of another kind. -/
theorem numberDoc_printNat (negative : Bool) {n : Nat} (h : n < 2 ^ 64) :
    numberDoc negative (printNat n) [] none = .num (intValue negative n) := by
  have hvalue : Nat.ofDigitChars 10 (printNat n) 0 = n := Nat.ofDigitChars_ten_toDigits
  have hgather : gather 0 (printNat n) = (n, []) := by
    rw [gather_of_lt (by rwa [hvalue]), hvalue]
  have hhuge : isHuge n 0 = false := decide_eq_false fun hscale => Int.lt_irrefl 0 hscale.2.1
  simp [numberDoc, hgather, gather, hhuge, hvalue]

theorem isNumber_numberDoc (negative : Bool) (ds fs : List Char) (exponent : Option (Bool × Nat)) :
    (numberDoc negative ds fs exponent).IsNumber := by
  have heither (huge : Bool) (n : Option Int) : (if huge then Doc.huge else .num n).IsNumber := by
    cases huge <;> trivial
  exact heither _ _

theorem isNumber_toDoc (n : Int) : (toDoc (.num n)).IsNumber := by
  rw [toDoc]
  exact isNumber_numberDoc ..

theorem toDoc_num {n : Int} (h : n.natAbs < 2 ^ 64) :
    toDoc (.num n) = .num (intValue (n < 0) n.natAbs) := by
  rw [toDoc, numberDoc_printNat _ h]

/-- What may stand after a value. -/
def Closes (r : List Char) : Prop := ∀ c ∈ r.head?, c = ',' ∨ c = ']' ∨ c = '}'

theorem head?_printNat (h : (printNat n).head? = some '0') : n = 0 := by
  induction n using Nat.strongRecOn with
  | _ n ih =>
    rw [printNat, Nat.toDigits_eq_if (by decide)] at h
    split at h
    · rename_i hlt
      have hdigits : ∀ m < 10, Nat.digitChar m = '0' → m = 0 := by decide
      exact hdigits n hlt (by simpa using h)
    · rename_i hge
      obtain ⟨c, cs, hc, -⟩ := printNat_head (n / 10)
      have hhead : (printNat (n / 10)).head? = some '0' := by
        rw [← printNat, hc] at h
        rwa [hc]
      have hzero := ih (n / 10) (by omega) hhead
      omega

theorem takeWhile_digits {ds r : List Char} (hd : ∀ c ∈ ds, c.isDigit = true) (hr : Closes r) :
    (ds ++ r).takeWhile Char.isDigit = ds := by
  induction ds with
  | nil =>
    cases r with
    | nil => rfl
    | cons c r =>
      obtain rfl | rfl | rfl := hr c rfl <;> rfl
  | cons d ds ih =>
    rw [List.cons_append, List.takeWhile_cons_of_pos (hd d List.mem_cons_self),
      ih fun c hc => hd c (List.mem_cons_of_mem _ hc)]

theorem Closes.parseFraction {r : List Char} (hr : Closes r) :
    parseFraction r = some ([], r) := by
  cases r with
  | nil => rfl
  | cons c r => obtain rfl | rfl | rfl := hr c rfl <;> rfl

theorem Closes.parseExponent {r : List Char} (hr : Closes r) :
    parseExponent r = some (none, r) := by
  cases r with
  | nil => rfl
  | cons c r => obtain rfl | rfl | rfl := hr c rfl <;> rfl

theorem parseUnsignedNumber_printNat (negative : Bool) (n : Nat) {r : List Char} (hr : Closes r) :
    parseUnsignedNumber negative (printNat n ++ r) =
      some (numberDoc negative (printNat n) [] none, r) := by
  have hne : printNat n ≠ [] := Nat.toDigits_ne_nil
  have hdigits : digits1 (printNat n ++ r) = some (printNat n, r) := by
    simp [digits1, takeWhile_digits (fun _ => isDigit_of_mem_printNat) hr, hne]
  have hzero : ¬((printNat n).head? = some '0' ∧ (printNat n).length ≠ 1) := by
    rintro ⟨hhead, hlen⟩
    rw [head?_printNat hhead] at hlen
    exact hlen rfl
  simp [parseUnsignedNumber, hdigits, hzero, hr.parseFraction, hr.parseExponent]

theorem parseNumber_printInt (n : Int) {r : List Char} (hr : Closes r) :
    parseNumber (printInt n ++ r) = some (toDoc (.num n), r) := by
  cases n with
  | ofNat n =>
    obtain ⟨c, cs, hc, hd⟩ := printNat_head n
    have hnumber : parseNumber (printNat n ++ r) = parseUnsignedNumber false (printNat n ++ r) := by
      rw [hc, List.cons_append, parseNumber.eq_def]
      split
      · rename_i heq
        rw [(List.cons.inj heq).1] at hd
        exact absurd hd (by decide)
      · rfl
    have hsign : ¬Int.ofNat n < 0 := by simp
    rw [printInt, hnumber, parseUnsignedNumber_printNat false n hr, toDoc, decide_eq_false hsign]
    rfl
  | negSucc n =>
    change parseUnsignedNumber true (printNat (n + 1) ++ r) = _
    rw [parseUnsignedNumber_printNat true (n + 1) hr, toDoc,
      decide_eq_true (Int.negSucc_lt_zero n)]
    rfl

theorem skipBlank_cons {c : Char} (h : isBlank c = false) (cs : List Char) :
    skipBlank (c :: cs) = c :: cs := by
  simp [skipBlank, h]

theorem parseValue_number {c : Char} (hc : c = '-' ∨ c.isDigit = true) (fuel : Nat)
    (cs : List Char) :
    parseValue (fuel + 1) (c :: cs) = parseNumber (c :: cs) := by
  have hne : ∀ d : Char, ¬(d = '-' ∨ d.isDigit = true) → c ≠ d := by
    rintro d hd rfl
    exact hd hc
  have hblank : isBlank c = false := by simp [isBlank, hne]
  rw [parseValue, skipBlank_cons hblank]
  split
  all_goals first
    | rfl
    | rename_i heq
      exact absurd (List.cons.inj heq).1 (hne _ (by decide))

/-- Nothing but a value starts the rest of an array after its bracket. -/
theorem skipBlank_print (v : Json) (r : List Char) :
    skipBlank (print v ++ r) = print v ++ r ∧ ∀ s, print v ++ r ≠ ']' :: s := by
  refine ⟨?_, fun s => by simpa using print_ne_bracket v (r := r) (s := []) (t := s)⟩
  match v with
  | .null | .bool true | .bool false | .str _ | .arr [] | .arr (_ :: _) | .obj []
  | .obj ((_, _) :: _) => exact skipBlank_cons (by decide) _
  | .num n =>
    obtain ⟨c, cs, hn, hc⟩ := printInt_head n
    have hne : ∀ d : Char, ¬(d = '-' ∨ d.isDigit = true) → c ≠ d := by
      rintro d hd rfl
      exact hd hc
    rw [print, hn]
    exact skipBlank_cons (by simp [isBlank, hne]) _

theorem printElems_closes (vs : List Json) (r : List Char) : Closes (printElems vs ++ r) := by
  cases vs with
  | nil => simp [printElems, Closes]
  | cons v vs => simp [printElems, Closes]

theorem printMembers_closes (ms : List (String × Json)) (r : List Char) :
    Closes (printMembers ms ++ r) := by
  cases ms with
  | nil => simp [printMembers, Closes]
  | cons m ms => simp [printMembers, Closes]

mutual

theorem parseValue_print : ∀ (v : Json) (fuel : Nat) (r : List Char),
    2 * (print v).length ≤ fuel → Closes r → parseValue fuel (print v ++ r) = some (toDoc v, r)
  | .null, fuel + 1, r, _, _ => rfl
  | .bool true, fuel + 1, r, _, _ => rfl
  | .bool false, fuel + 1, r, _, _ => rfl
  | .num n, fuel + 1, r, _, hr => by
    obtain ⟨c, cs, hn, hc⟩ := printInt_head n
    have hnumber := parseNumber_printInt n hr
    rw [hn, List.cons_append] at hnumber
    rw [print, hn, List.cons_append, parseValue_number hc, hnumber]
  | .str s, fuel + 1, r, _, _ => by
    have hstr := parseStr_printStr s r
    simp only [print, printStr, List.cons_append, List.append_assoc, List.nil_append]
    rw [parseValue, skipBlank_cons (by decide)]
    simp only [hstr, Option.map_some, toDoc]
  | .arr [], fuel + 1, r, _, _ => rfl
  | .arr (v :: vs), fuel + 1, r, hfuel, _ => by
    simp only [print, List.length_cons, List.length_append] at hfuel
    have helems := parseElems_print v vs fuel r (by omega)
    obtain ⟨hskip, hne⟩ := skipBlank_print v (printElems vs ++ r)
    simp only [print, List.cons_append, List.append_assoc]
    rw [parseValue, skipBlank_cons (by decide)]
    simp only [hskip, helems, Option.map_some, toDoc, toDocs]
  | .obj [], fuel + 1, r, _, _ => rfl
  | .obj ((k, v) :: ms), fuel + 1, r, hfuel, _ => by
    simp only [print, List.length_cons, List.length_append] at hfuel
    have hmembers := parseMembers_print k v ms fuel r (by omega)
    simp only [print, List.cons_append, List.append_assoc] at hmembers ⊢
    rw [parseValue, skipBlank_cons (by decide)]
    simp only [printStr, List.cons_append] at hmembers ⊢
    rw [skipBlank_cons (by decide)]
    simp only [hmembers, Option.map_some, toDoc, toMembers]
    rfl
  | v, 0, r, hfuel, _ => by
    obtain ⟨c, cs, hv, -⟩ := print_head v
    rw [hv] at hfuel
    simp at hfuel

theorem parseElems_print : ∀ (v : Json) (vs : List Json) (fuel : Nat) (r : List Char),
    2 * ((print v).length + (printElems vs).length) + 1 ≤ fuel →
      parseElems fuel (print v ++ (printElems vs ++ r)) = some (toDoc v :: toDocs vs, r)
  | v, [], fuel + 1, r, hfuel => by
    have hvalue := parseValue_print v fuel _ (by omega) (printElems_closes [] r)
    simp only [parseElems, hvalue, Option.bind_some]
    rfl
  | v, w :: vs, fuel + 1, r, hfuel => by
    have hvalue := parseValue_print v fuel _ (by omega) (printElems_closes (w :: vs) r)
    simp only [printElems, List.length_cons, List.length_append] at hfuel
    have hrest := parseElems_print w vs fuel r (by omega)
    simp only [parseElems, hvalue, Option.bind_some]
    simp only [printElems, List.cons_append, List.append_assoc]
    rw [skipBlank_cons (by decide)]
    simp only [hrest, Option.map_some, toDocs]

theorem parseMembers_print : ∀ (k : String) (v : Json) (ms : List (String × Json)) (fuel : Nat)
    (r : List Char),
    2 * ((print v).length + (printMembers ms).length) + 1 ≤ fuel →
      parseMembers fuel (printStr k ++ ':' :: (print v ++ (printMembers ms ++ r))) =
        some ((k, toDoc v) :: toMembers ms, r)
  | k, v, [], fuel + 1, r, hfuel => by
    have hvalue := parseValue_print v fuel _ (by omega) (printMembers_closes [] r)
    have hkey := parseStr_printStr k (':' :: (print v ++ (printMembers [] ++ r)))
    simp only [printStr, List.cons_append, List.append_assoc, List.nil_append]
    rw [parseMembers, skipBlank_cons (by decide)]
    simp only [hkey, Option.bind_some]
    rw [skipBlank_cons (by decide)]
    simp only [hvalue, Option.bind_some]
    rfl
  | k, v, (j, w) :: ms, fuel + 1, r, hfuel => by
    have hvalue := parseValue_print v fuel _ (by omega) (printMembers_closes ((j, w) :: ms) r)
    have hkey := parseStr_printStr k (':' :: (print v ++ (printMembers ((j, w) :: ms) ++ r)))
    simp only [printMembers, List.length_cons, List.length_append] at hfuel
    have hrest := parseMembers_print j w ms fuel r (by omega)
    simp only [printStr, List.cons_append, List.append_assoc, List.nil_append] at hrest ⊢
    rw [parseMembers, skipBlank_cons (by decide)]
    simp only [hkey, Option.bind_some]
    rw [skipBlank_cons (by decide)]
    simp only [hvalue, Option.bind_some]
    simp only [printMembers, printStr, List.cons_append, List.append_assoc, List.nil_append]
    rw [skipBlank_cons (by decide)]
    simp only [hrest, Option.map_some, toMembers]

end

/-- Reading the text of a value gives the value. -/
theorem parse_print (v : Json) : parse (print v) = some (toDoc v) := by
  have hvalue := parseValue_print v _ [] (Nat.le_refl _) (by simp [Closes])
  rw [List.append_nil] at hvalue
  rw [parse, hvalue, Option.bind_some]
  exact if_pos rfl

/-! ## Lines

A value has a line of its own: no control character occurs in its text. -/

def isPrintable (c : Char) : Bool := 32 ≤ c.toNat

theorem isPrintable_digitChar : ∀ n < 16, isPrintable (Nat.digitChar n) = true := by decide

theorem all_isPrintable_escapeChar (c : Char) : (escapeChar c).all isPrintable = true := by
  obtain ⟨e, he, hescape⟩ | ⟨hlt, hescape⟩ | ⟨-, -, hlt, hescape⟩ := escapeChar_cases c
  · have hletters : (shortEscapes.all fun e => isPrintable e.2) = true := rfl
    have hletter : isPrintable e = true := List.all_eq_true.mp hletters _ he
    simp only [hescape, List.all_cons, List.all_nil, hletter]
    rfl
  · have hhigh := isPrintable_digitChar (c.toNat / 16) (by omega)
    have hlow := isPrintable_digitChar (c.toNat % 16) (by omega)
    simp only [hescape, List.all_cons, List.all_nil, hhigh, hlow]
    rfl
  · simpa [hescape, isPrintable] using hlt

theorem all_isPrintable_printStr (s : String) : (printStr s).all isPrintable = true := by
  have hquote : isPrintable '"' = true := rfl
  have hescape : (escape s.toList).all isPrintable = true := by
    rw [escape, List.all_flatMap, List.all_eq_true]
    exact fun c _ => all_isPrintable_escapeChar c
  simp only [printStr, List.cons_append, List.all_cons, List.all_append, List.all_nil, hquote, hescape,
    Bool.and_true]

theorem all_isPrintable_printNat (n : Nat) : (printNat n).all isPrintable = true := by
  refine List.all_eq_true.mpr fun c hc => decide_eq_true ?_
  have hdigit := Char.isDigit_iff_toNat.mp (isDigit_of_mem_printNat hc)
  have hzero : '0'.toNat = 48 := rfl
  omega

theorem all_isPrintable_printInt (n : Int) : (printInt n).all isPrintable = true := by
  cases n with
  | ofNat n => exact all_isPrintable_printNat n
  | negSucc n => exact all_isPrintable_printNat (n + 1)

mutual

theorem all_isPrintable_print : ∀ v : Json, (print v).all isPrintable = true
  | .null => rfl
  | .bool true => rfl
  | .bool false => rfl
  | .num n => all_isPrintable_printInt n
  | .str s => all_isPrintable_printStr s
  | .arr [] => rfl
  | .arr (v :: vs) => by
    rw [print, List.all_append, List.all_cons, all_isPrintable_print v, all_isPrintable_printElems vs]
    rfl
  | .obj [] => rfl
  | .obj ((k, v) :: ms) => by
    simp only [print, List.cons_append, List.all_cons, List.all_append, all_isPrintable_printStr k,
      all_isPrintable_print v, all_isPrintable_printMembers ms]
    rfl

theorem all_isPrintable_printElems : ∀ vs : List Json, (printElems vs).all isPrintable = true
  | [] => rfl
  | v :: vs => by
    rw [printElems, List.all_append, List.all_cons, all_isPrintable_print v,
      all_isPrintable_printElems vs]
    rfl

theorem all_isPrintable_printMembers : ∀ ms : List (String × Json),
    (printMembers ms).all isPrintable = true
  | [] => rfl
  | (k, v) :: ms => by
    simp only [printMembers, List.cons_append, List.all_cons, List.all_append,
      all_isPrintable_printStr k, all_isPrintable_print v, all_isPrintable_printMembers ms]
    rfl

end

theorem newline_not_mem_print (v : Json) : '\n' ∉ print v := by
  intro h
  exact absurd (List.all_eq_true.mp (all_isPrintable_print v) _ h) (by decide)

theorem printMembers_eq_append (ms : List (String × Json)) : ∃ cs, printMembers ms = cs ++ ['}'] := by
  induction ms with
  | nil => exact ⟨[], rfl⟩
  | cons m ms ih =>
    obtain ⟨k, v⟩ := m
    obtain ⟨cs, hcs⟩ := ih
    exact ⟨',' :: printStr k ++ ':' :: print v ++ cs, by simp [printMembers, hcs]⟩

/-- An object stands between its braces. -/
theorem print_obj (ms : List (String × Json)) : ∃ cs, print (.obj ms) = '{' :: cs ++ ['}'] := by
  cases ms with
  | nil => exact ⟨[], rfl⟩
  | cons m ms =>
    obtain ⟨k, v⟩ := m
    obtain ⟨cs, hcs⟩ := printMembers_eq_append ms
    exact ⟨printStr k ++ ':' :: print v ++ cs, by simp [print, hcs]⟩

end Json

end Ravn.Theory
