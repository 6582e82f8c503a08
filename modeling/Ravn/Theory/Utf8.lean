import Mathlib.Data.List.Basic

/-! Byte offsets into UTF-8 text. A text can be cut after so many bytes exactly if a character begins
there (`IsCharBoundary`). -/

namespace Ravn.Theory

def utf8Len : List Char → Nat
  | [] => 0
  | c :: cs => c.utf8Size + utf8Len cs

theorem utf8Len_append (cs ds : List Char) : utf8Len (cs ++ ds) = utf8Len cs + utf8Len ds := by
  induction cs with
  | nil => simp [utf8Len]
  | cons c cs ih => simp [utf8Len, ih, Nat.add_assoc]

/-- A text of one-byte characters has as many bytes as characters. -/
theorem utf8Len_eq_length {cs : List Char} (h : ∀ c ∈ cs, c.utf8Size = 1) :
    utf8Len cs = cs.length := by
  induction cs with
  | nil => rfl
  | cons c cs ih =>
    obtain ⟨hc, hcs⟩ := List.forall_mem_cons.mp h
    rw [utf8Len, hc, ih hcs, List.length_cons, Nat.add_comm]

theorem utf8ByteSize_ofList (cs : List Char) : (String.ofList cs).utf8ByteSize = utf8Len cs := by
  induction cs with
  | nil => rfl
  | cons c cs ih =>
    rw [String.ofList_cons, String.utf8ByteSize_append, String.utf8ByteSize_singleton, ih, utf8Len]

theorem utf8ByteSize_eq (s : String) : s.utf8ByteSize = utf8Len s.toList := by
  rw [← utf8ByteSize_ofList, String.ofList_toList]

/-- The characters that make up the first `n` bytes, if a character begins after them. -/
def takeBytes : Nat → List Char → Option (List Char)
  | 0, _ => some []
  | _ + 1, [] => none
  | n + 1, c :: cs =>
    if c.utf8Size ≤ n + 1 then (takeBytes (n + 1 - c.utf8Size) cs).map (c :: ·) else none

theorem utf8Len_eq_zero : ∀ {ds : List Char}, utf8Len ds = 0 ↔ ds = []
  | [] => by simp [utf8Len]
  | d :: ds => by
    have hpos := d.utf8Size_pos
    simp only [utf8Len, reduceCtorEq, iff_false]
    omega

/-- A nonempty start begins with the first character. -/
theorem prefix_cons_and_utf8Len {c : Char} {cs ds : List Char} :
    ds <+: c :: cs ∧ utf8Len ds = n + 1 ↔
      ∃ es, (es <+: cs ∧ c.utf8Size + utf8Len es = n + 1) ∧ c :: es = ds := by
  constructor
  · rintro ⟨hpre, hlen⟩
    cases ds with
    | nil => cases hlen
    | cons d ds =>
      obtain ⟨rfl, htail⟩ := List.cons_prefix_cons.mp hpre
      exact ⟨ds, ⟨htail, hlen⟩, rfl⟩
  · rintro ⟨es, ⟨hpre, hlen⟩, rfl⟩
    exact ⟨List.cons_prefix_cons.mpr ⟨rfl, hpre⟩, hlen⟩

theorem takeBytes_eq_some {cs : List Char} :
    takeBytes n cs = some ds ↔ ds <+: cs ∧ utf8Len ds = n := by
  induction cs generalizing n ds with
  | nil =>
    cases n with
    | zero => rw [utf8Len_eq_zero, takeBytes, Option.some.injEq, eq_comm, List.prefix_nil, and_self]
    | succ n =>
      simp only [takeBytes, List.prefix_nil, reduceCtorEq, false_iff]
      rintro ⟨rfl, hlen⟩
      cases hlen
  | cons c cs ih =>
    cases n with
    | zero =>
      rw [utf8Len_eq_zero, takeBytes, Option.some.injEq, eq_comm]
      exact ⟨fun h => ⟨h ▸ List.nil_prefix, h⟩, And.right⟩
    | succ n =>
      rw [takeBytes, prefix_cons_and_utf8Len]
      split
      · rename_i hle
        rw [Option.map_eq_some_iff]
        refine exists_congr fun es => and_congr_left fun _ => ?_
        rw [ih]
        exact and_congr_right fun _ => by omega
      · rename_i hlt
        simp only [reduceCtorEq, false_iff, not_exists]
        rintro es ⟨⟨-, hlen⟩, -⟩
        omega

theorem utf8Len_replicate (n : Nat) (c : Char) : utf8Len (List.replicate n c) = n * c.utf8Size := by
  induction n with
  | zero => simp [utf8Len]
  | succ n ih => rw [List.replicate_succ, utf8Len, ih, Nat.succ_mul, Nat.add_comm]

theorem utf8Len_le_of_isPrefix {cs ds : List Char} (h : cs <+: ds) : utf8Len cs ≤ utf8Len ds := by
  obtain ⟨es, rfl⟩ := h
  rw [utf8Len_append]
  exact Nat.le_add_right _ _

/-- Within copies of one character only the multiples of its size are boundaries. -/
theorem dvd_of_isPrefix_replicate {ds rs : List Char} (h : ds <+: List.replicate n c ++ rs)
    (hle : utf8Len ds ≤ n * c.utf8Size) : c.utf8Size ∣ utf8Len ds := by
  induction n generalizing ds with
  | zero =>
    rw [Nat.zero_mul, Nat.le_zero] at hle
    rw [hle]
    exact Nat.dvd_zero _
  | succ n ih =>
    cases ds with
    | nil => exact Nat.dvd_zero _
    | cons d ds =>
      rw [List.replicate_succ, List.cons_append] at h
      obtain ⟨rfl, htail⟩ := List.cons_prefix_cons.mp h
      rw [utf8Len, Nat.succ_mul] at hle
      rw [utf8Len]
      exact Nat.dvd_add (Nat.dvd_refl _) (ih htail (by omega))

theorem dvd_of_isPrefix_append_replicate {ds hs rs : List Char}
    (h : ds <+: hs ++ (List.replicate n c ++ rs)) (hge : utf8Len hs ≤ utf8Len ds)
    (hle : utf8Len ds ≤ utf8Len hs + n * c.utf8Size) : c.utf8Size ∣ utf8Len ds - utf8Len hs := by
  obtain hpre | ⟨es, rfl⟩ := List.prefix_or_prefix_of_prefix h (List.prefix_append hs _)
  · rw [Nat.le_antisymm (utf8Len_le_of_isPrefix hpre) hge, Nat.sub_self]
    exact Nat.dvd_zero _
  · rw [utf8Len_append] at hle ⊢
    rw [Nat.add_sub_cancel_left]
    exact dvd_of_isPrefix_replicate ((List.prefix_append_right_inj hs).mp h) (by omega)

/-- `&s[..n]`; `none` where it panics. -/
def sliceTo (s : String) (n : Nat) : Option String := (takeBytes n s.toList).map String.ofList

/-- `s.is_char_boundary(n)`: the first `n` bytes are a text of their own. -/
def IsCharBoundary (s : String) (n : Nat) : Prop := ∃ p t, s = p ++ t ∧ p.utf8ByteSize = n

theorem sliceTo_eq_some {s p : String} :
    sliceTo s n = some p ↔ (∃ t, s = p ++ t) ∧ p.utf8ByteSize = n := by
  rw [sliceTo, Option.map_eq_some_iff]
  constructor
  · rintro ⟨ds, hds, rfl⟩
    obtain ⟨⟨t, ht⟩, hlen⟩ := takeBytes_eq_some.mp hds
    refine ⟨⟨String.ofList t, ?_⟩, by rw [utf8ByteSize_ofList, hlen]⟩
    rw [← String.ofList_append, ht, String.ofList_toList]
  · rintro ⟨⟨t, rfl⟩, hlen⟩
    refine ⟨p.toList, takeBytes_eq_some.mpr ⟨⟨t.toList, ?_⟩, ?_⟩, String.ofList_toList⟩
    · rw [String.toList_append]
    · rw [← utf8ByteSize_eq, hlen]

theorem exists_sliceTo_iff {s : String} : (∃ p, sliceTo s n = some p) ↔ IsCharBoundary s n := by
  simp only [sliceTo_eq_some, IsCharBoundary]
  constructor
  · rintro ⟨p, ⟨t, hs⟩, hlen⟩
    exact ⟨p, t, hs, hlen⟩
  · rintro ⟨p, t, hs, hlen⟩
    exact ⟨p, ⟨t, hs⟩, hlen⟩

theorem not_isCharBoundary_replicate {hs rs : List Char} (hge : utf8Len hs ≤ n)
    (hle : n ≤ utf8Len hs + k * c.utf8Size) (hdvd : ¬c.utf8Size ∣ n - utf8Len hs) :
    ¬IsCharBoundary (String.ofList (hs ++ (List.replicate k c ++ rs))) n := by
  rintro ⟨p, t, hs', rfl⟩
  rw [utf8ByteSize_eq] at hge hle hdvd
  have hpre : p.toList <+: hs ++ (List.replicate k c ++ rs) :=
    ⟨t.toList, by rw [← String.toList_append, ← hs', String.toList_ofList]⟩
  exact hdvd (dvd_of_isPrefix_append_replicate hpre hge hle)

instance (s : String) (n : Nat) : Decidable (IsCharBoundary s n) :=
  decidable_of_iff ((sliceTo s n).isSome = true) (Option.isSome_iff_exists.trans exists_sliceTo_iff)

/-! ## Cutting -/

/-- A text, or where it is longer than the cap its first bytes with a marker; `none` where the slice
panics. -/
def cutAt (cap : Nat) (marker s : String) : Option String :=
  if s.utf8ByteSize ≤ cap then some s else (sliceTo s cap).map (· ++ marker)

/-- A text that fits is left as it is; of one that does not a prefix that fits is left, and the
marker. -/
structure IsCut (cap : Nat) (marker s r : String) : Prop where
  whole : s.utf8ByteSize ≤ cap → r = s
  marked : cap < s.utf8ByteSize →
    ∃ p, (∃ t, s = p ++ t) ∧ p.utf8ByteSize ≤ cap ∧ r = p ++ marker

/-- The text fits, or a character begins where it is cut. -/
def Cuttable (cap : Nat) (s : String) : Prop := s.utf8ByteSize ≤ cap ∨ IsCharBoundary s cap

instance (cap : Nat) (s : String) : Decidable (Cuttable cap s) := inferInstanceAs (Decidable (_ ∨ _))

variable {cap : Nat} {marker s r : String}

theorem cutAt_ne_none_iff : cutAt cap marker s ≠ none ↔ Cuttable cap s := by
  unfold cutAt Cuttable
  by_cases hfits : s.utf8ByteSize ≤ cap
  · rw [if_pos hfits]
    exact ⟨fun _ => .inl hfits, fun _ => Option.some_ne_none _⟩
  · rw [if_neg hfits, ne_eq, Option.map_eq_none_iff, Option.eq_none_iff_forall_ne_some, not_forall,
      or_iff_right hfits, ← exists_sliceTo_iff]
    exact exists_congr fun p => not_not

theorem isCut_of_cutAt (h : cutAt cap marker s = some r) : IsCut cap marker s r := by
  unfold cutAt at h
  split at h
  · rename_i hfits
    cases h
    exact ⟨fun _ => rfl, fun hlong => absurd hfits (Nat.not_le.mpr hlong)⟩
  · rename_i hlong
    obtain ⟨p, hp, rfl⟩ := Option.map_eq_some_iff.mp h
    obtain ⟨hpre, hsize⟩ := sliceTo_eq_some.mp hp
    exact ⟨fun hfits => absurd hfits hlong, fun _ => ⟨p, hpre, Nat.le_of_eq hsize, rfl⟩⟩

/-- Cutting returns, and what it should, exactly on the texts that can be cut. -/
theorem exists_cutAt_iff :
    (∃ r, cutAt cap marker s = some r ∧ IsCut cap marker s r) ↔ Cuttable cap s := by
  have hcut : cutAt cap marker s ≠ none ↔ Cuttable cap s := cutAt_ne_none_iff
  rw [← hcut, Option.ne_none_iff_exists']
  exact exists_congr fun r => and_iff_left_of_imp isCut_of_cutAt

end Ravn.Theory
