import Ravn.Theory.Lines

/-! Percent-encoding, and the paths of URLs. Octets are written as characters that stand for themselves
or as `%XX`, and read back (`percentDecode_encode`); an encoded text holds no separator. The dot segments
of a path are resolved before it is sent (`resolvePath`). -/

namespace Ravn.Theory

/-! ## Percent-encoding -/

/-- A hexadecimal digit in upper case. -/
def upperHexDigit (n : Nat) : Char := if n < 10 then Char.ofNat (48 + n) else Char.ofNat (55 + n)

/-- Octets as text: those of `keep` as characters, the others as `%XX`. -/
def percentEncode (keep : UInt8 → Bool) (bs : List UInt8) : List Char :=
  bs.flatMap fun b =>
    if keep b then [Char.ofNat b.toNat]
    else ['%', upperHexDigit (b.toNat / 16), upperHexDigit (b.toNat % 16)]

/-- A text as octets. A `%` that two hexadecimal digits do not follow stands for itself. -/
def percentDecode : List Char → List UInt8
  | '%' :: a :: b :: cs =>
    match hexDigitVal a, hexDigitVal b with
    | some x, some y => UInt8.ofNat (16 * x + y) :: percentDecode cs
    | _, _ => 37 :: percentDecode (a :: b :: cs)
  | c :: cs => String.utf8EncodeChar c ++ percentDecode cs
  | [] => []

/-- The text that octets are, if they are UTF-8. -/
def decodeUtf8 (bs : List UInt8) : Option (List Char) := bs.toByteArray.utf8Decode?.map Array.toList

theorem decodeUtf8_encode (cs : List Char) :
    decodeUtf8 (cs.flatMap String.utf8EncodeChar) = some cs := by
  have hdecode := List.utf8Decode?_utf8Encode (l := cs)
  rw [List.utf8Encode] at hdecode
  rw [decodeUtf8, hdecode, Option.map_some]

theorem hexDigitVal_upperHexDigit : ∀ n < 16, hexDigitVal (upperHexDigit n) = some n := by decide

/-- A kept octet is the octet of its character, which is not the escape character. -/
def Plain (keep : UInt8 → Bool) : Prop := ∀ b, keep b = true → b < 128 ∧ b ≠ 37

theorem utf8EncodeChar_ascii {b : UInt8} (h : b < 128) :
    String.utf8EncodeChar (Char.ofNat b.toNat) = [b] := by
  have hall : ∀ n < 128, String.utf8EncodeChar (Char.ofNat n) = [UInt8.ofNat n] := by decide
  rw [hall b.toNat h, UInt8.ofNat_toNat]

theorem percentDecode_cons_of_ne {c : Char} (h : c ≠ '%') (cs : List Char) :
    percentDecode (c :: cs) = String.utf8EncodeChar c ++ percentDecode cs := by
  rw [percentDecode]
  intro a b cs' heq
  exact absurd heq h

/-- A text without escapes stands for itself. -/
theorem percentDecode_of_notMem {cs : List Char} (h : '%' ∉ cs) :
    percentDecode cs = cs.flatMap String.utf8EncodeChar := by
  induction cs with
  | nil => rfl
  | cons c cs ih =>
    simp only [List.mem_cons, not_or] at h
    rw [percentDecode_cons_of_ne (Ne.symm h.1), ih h.2, List.flatMap_cons]

theorem percentDecode_encode {keep : UInt8 → Bool} (hkeep : Plain keep) (bs : List UInt8) :
    percentDecode (percentEncode keep bs) = bs := by
  induction bs with
  | nil => rfl
  | cons b bs ih =>
    rw [percentEncode, List.flatMap_cons, ← percentEncode]
    by_cases hb : keep b = true
    · obtain ⟨hlt, hne⟩ := hkeep b hb
      have hchar : Char.ofNat b.toNat ≠ '%' := by
        intro hc
        have hoctet := utf8EncodeChar_ascii hlt
        rw [hc] at hoctet
        exact hne (List.singleton_inj.mp hoctet).symm
      rw [if_pos hb, List.singleton_append, percentDecode_cons_of_ne hchar,
        utf8EncodeChar_ascii hlt, ih, List.singleton_append]
    · have hlt : b.toNat < 256 := b.toNat_lt
      have hhigh := hexDigitVal_upperHexDigit (b.toNat / 16) (by omega)
      have hlow := hexDigitVal_upperHexDigit (b.toNat % 16) (by omega)
      rw [if_neg hb]
      simp only [List.cons_append, List.nil_append, percentDecode, hhigh, hlow, ih,
        Nat.div_add_mod, UInt8.ofNat_toNat]

/-- A text that is written in UTF-8 and percent-encoded is read back. -/
theorem decodeUtf8_percentDecode {keep : UInt8 → Bool} (hkeep : Plain keep) (cs : List Char) :
    decodeUtf8 (percentDecode (percentEncode keep (cs.flatMap String.utf8EncodeChar))) = some cs := by
  rw [percentDecode_encode hkeep, decodeUtf8_encode]

theorem mem_percentEncode {keep : UInt8 → Bool} {bs : List UInt8} (h : c ∈ percentEncode keep bs) :
    c = '%' ∨ (∃ n < 16, c = upperHexDigit n) ∨ ∃ b, keep b = true ∧ c = Char.ofNat b.toNat := by
  obtain ⟨b, -, hc⟩ := List.mem_flatMap.mp h
  split at hc
  · rename_i hb
    exact .inr (.inr ⟨b, hb, List.mem_singleton.mp hc⟩)
  · have hlt : b.toNat < 256 := b.toNat_lt
    simp only [List.mem_cons, List.not_mem_nil, or_false] at hc
    rcases hc with hc | hc | hc
    · exact .inl hc
    · exact .inr (.inl ⟨_, by omega, hc⟩)
    · exact .inr (.inl ⟨_, by omega, hc⟩)

theorem length_le_percentEncode (keep : UInt8 → Bool) (bs : List UInt8) :
    bs.length ≤ (percentEncode keep bs).length := by
  induction bs with
  | nil => exact Nat.zero_le _
  | cons b bs ih =>
    rw [percentEncode, List.flatMap_cons, ← percentEncode, List.length_append, List.length_cons]
    have hpos : 1 ≤ (if keep b then [Char.ofNat b.toNat]
        else ['%', upperHexDigit (b.toNat / 16), upperHexDigit (b.toNat % 16)]).length := by
      split <;> simp
    omega

theorem length_le_octets (cs : List Char) :
    cs.length ≤ (cs.flatMap String.utf8EncodeChar).length := by
  induction cs with
  | nil => exact Nat.zero_le _
  | cons c cs ih =>
    have hpos := c.utf8Size_pos
    rw [List.flatMap_cons, List.length_append, String.length_utf8EncodeChar, List.length_cons]
    omega

/-! ## Paths -/

/-- The spellings of a segment for the same place, and for the place above, in lower case. -/
def dotSpellings : List (List Char) := [".".toList, "%2e".toList]

def dotDotSpellings : List (List Char) :=
  ["..".toList, ".%2e".toList, "%2e.".toList, "%2e%2e".toList]

def isDot (segment : List Char) : Bool := dotSpellings.contains (segment.map Char.toLower)

def isDotDot (segment : List Char) : Bool := dotDotSpellings.contains (segment.map Char.toLower)

/-- The segments of a path without its dot segments; `acc` holds those before them, reversed. -/
def resolveFrom : List (List Char) → List (List Char) → List (List Char)
  | acc, [] => acc.reverse
  | acc, [s] =>
    if isDotDot s then ([] :: acc.tail).reverse
    else if isDot s then ([] :: acc).reverse
    else (s :: acc).reverse
  | acc, s :: s' :: ss =>
    if isDotDot s then resolveFrom acc.tail (s' :: ss)
    else if isDot s then resolveFrom acc (s' :: ss)
    else resolveFrom (s :: acc) (s' :: ss)

/-- The path of a URL, from its first slash on, as it is sent. -/
def resolvePath (path : List Char) : List Char :=
  match path with
  | '/' :: path => (resolveFrom [] (split '/' path)).flatMap fun s => '/' :: s
  | path => '/' :: path

theorem resolveFrom_cons (hdotdot : isDotDot s = false) (hdot : isDot s = false)
    (acc ss : List (List Char)) : resolveFrom acc (s :: ss) = resolveFrom (s :: acc) ss := by
  cases ss with
  | nil => simp [resolveFrom, hdotdot, hdot]
  | cons s' ss => simp [resolveFrom, hdotdot, hdot]

/-- A dot segment is short. -/
theorem length_le_of_isDot (h : isDot s = true ∨ isDotDot s = true) : s.length ≤ 6 := by
  have hspellings : ∀ t ∈ dotSpellings ++ dotDotSpellings, t.length ≤ 6 := by decide
  have hmem : s.map Char.toLower ∈ dotSpellings ++ dotDotSpellings :=
    List.mem_append.mpr (h.imp List.contains_iff_mem.mp List.contains_iff_mem.mp)
  have hlength := hspellings _ hmem
  rwa [List.length_map] at hlength

/-- The path and the query that are sent for a URL. -/
def requestTarget (url : List Char) : Option (List Char × Option (List Char)) :=
  (splitOnce "://".toList url).map fun (_, rest) =>
    let rest := (rest.dropWhile fun c => c ≠ '/' && c ≠ '?' && c ≠ '#').takeWhile (· ≠ '#')
    match splitOnce ['?'] rest with
    | some (path, query) => (resolvePath path, some query)
    | none => (resolvePath rest, none)

/-- A scheme and a host, with nothing after them. -/
def IsOrigin (base : List Char) : Prop :=
  ∃ scheme host, base = scheme ++ "://".toList ++ host ∧ ':' ∉ scheme ∧
    ∀ c ∈ host, c ≠ '/' ∧ c ≠ '?' ∧ c ≠ '#'

theorem splitOnce_origin {scheme : List Char} (hscheme : ':' ∉ scheme) (rest : List Char) :
    splitOnce "://".toList (scheme ++ "://".toList ++ rest) = some (scheme, rest) := by
  have hself : splitOnce (':' :: ['/', '/']) (':' :: ['/', '/'] ++ rest) = some ([], rest) :=
    splitOnce_self _ rest
  have hsplit := splitOnce_append hscheme ['/', '/'] (':' :: ['/', '/'] ++ rest)
  rw [hself, Option.map_some, List.append_nil] at hsplit
  rw [List.append_assoc]
  exact hsplit

/-- The host ends where the path begins. -/
theorem requestTarget_eq {base : List Char} (hbase : IsOrigin base) {rest : List Char}
    (hnohash : '#' ∉ rest) :
    requestTarget (base ++ '/' :: rest) = some (match splitOnce ['?'] ('/' :: rest) with
      | some (path, query) => (resolvePath path, some query)
      | none => (resolvePath ('/' :: rest), none)) := by
  obtain ⟨scheme, host, rfl, hscheme, hhost⟩ := hbase
  have hdrop : ((host ++ '/' :: rest).dropWhile fun c => c ≠ '/' && c ≠ '?' && c ≠ '#') =
      '/' :: rest := by
    rw [List.dropWhile_append_of_pos]
    · rfl
    · simpa [and_assoc] using hhost
  have htake : ('/' :: rest).takeWhile (· ≠ '#') = '/' :: rest := by
    rw [List.takeWhile_eq_self_iff]
    intro c hc
    rcases List.mem_cons.mp hc with rfl | hc
    · rfl
    · simpa using fun hc' : c = '#' => hnohash (hc' ▸ hc)
  rw [requestTarget, List.append_assoc, splitOnce_origin hscheme, Option.map_some]
  simp only [hdrop, htake]

/-- What is sent for a path below an origin. -/
theorem requestTarget_path {base : List Char} (hbase : IsOrigin base) (path : List Char)
    (hnoquery : '?' ∉ path) (hnohash : '#' ∉ path) :
    requestTarget (base ++ '/' :: path) = some (resolvePath ('/' :: path), none) := by
  have hmem : '?' ∉ '/' :: path := List.not_mem_cons_of_ne_of_not_mem (by decide) hnoquery
  have hquery : splitOnce ['?'] ('/' :: path) = none := by
    have hsplit := splitOnce_append hmem [] []
    rw [List.append_nil] at hsplit
    rw [hsplit]
    rfl
  rw [requestTarget_eq hbase hnohash, hquery]

/-- What is sent for a path with a query below an origin. -/
theorem requestTarget_query {base : List Char} (hbase : IsOrigin base) (path query : List Char)
    (hnoquery : '?' ∉ path) (hnohash : '#' ∉ path ++ '?' :: query) :
    requestTarget (base ++ '/' :: (path ++ '?' :: query)) =
      some (resolvePath ('/' :: path), some query) := by
  have hmem : '?' ∉ '/' :: path := List.not_mem_cons_of_ne_of_not_mem (by decide) hnoquery
  have hquery : splitOnce ['?'] ('/' :: (path ++ '?' :: query)) = some ('/' :: path, query) := by
    have hself := splitOnce_self ['?'] query
    have hsplit := splitOnce_append hmem [] (['?'] ++ query)
    rw [hself, Option.map_some, List.append_nil] at hsplit
    exact hsplit
  rw [requestTarget_eq hbase hnohash, hquery]

end Ravn.Theory
