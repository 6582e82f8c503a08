import Ravn.Theory.Grammar
import Ravn.Theory.Utf8
import Ravn.Core.Template

/-! The Kubernetes identifiers that the validators accept, as languages: DNS labels, and subdomains,
which are labels joined by dots. -/

namespace Ravn

open Theory Computability

/-- `is_valid_k8s_subdomain`: RFC 1123 DNS labels joined by dots. -/
def isValidK8sSubdomain (s : String) : Bool :=
  if s.isEmpty || 253 < s.utf8ByteSize then false
  else (split '.' s.toList).all fun part => isValidK8sLabel (String.ofList part)

/-! ## The grammar -/

/-- The class `[a-z0-9]`. -/
def IsAlnum (c : Char) : Prop := 'a' ≤ c ∧ c ≤ 'z' ∨ '0' ≤ c ∧ c ≤ '9'

/-- The class `[-a-z0-9]`. -/
def IsHyphenAlnum (c : Char) : Prop := c = '-' ∨ IsAlnum c

/-- The grammar `[a-z0-9]([-a-z0-9]*[a-z0-9])?`. -/
def labelGrammar : Language Char := oneOf IsAlnum * (1 + (oneOf IsHyphenAlnum)∗ * oneOf IsAlnum)

/-- The texts of the grammar that have 1 to 63 characters. -/
def dnsLabels : Language Char := {x | x ∈ labelGrammar ∧ 1 ≤ x.length ∧ x.length ≤ 63}

/-- One or more labels joined by dots, with at most 253 characters. -/
def dnsSubdomains : Language Char := {x | x ∈ joined '.' dnsLabels ∧ x.length ≤ 253}

section

variable {c : Char} {x : List Char} {s : String}

theorem isLowerAlnum_iff : isLowerAlnum c = true ↔ IsAlnum c := by
  simp [isLowerAlnum, IsAlnum]

theorem IsHyphenAlnum.utf8Size (h : IsHyphenAlnum c) : c.utf8Size = 1 := by
  rw [Char.utf8Size_eq_one_iff]
  rcases h with rfl | ⟨-, h⟩ | ⟨-, h⟩
  · decide
  · exact UInt32.le_trans h (by decide)
  · exact UInt32.le_trans h (by decide)

theorem IsHyphenAlnum.ne_dot (h : IsHyphenAlnum c) : c ≠ '.' := by
  rintro rfl
  rcases h with h | ⟨h, -⟩ | ⟨h, -⟩
  · cases h
  · exact absurd h (by decide)
  · exact absurd h (by decide)

theorem mem_labelGrammar_iff : x ∈ labelGrammar ↔ Edged IsAlnum x ∧ ∀ c ∈ x, IsHyphenAlnum c :=
  mem_edged_iff fun _ => .inr

theorem any_isLowerAlnum {o : Option Char} : o.any isLowerAlnum = true ↔ ∃ c ∈ o, IsAlnum c := by
  cases o <;> simp [isLowerAlnum_iff]

/-- The tests of the code: both ends alphanumeric, and nothing but alphanumerics and hyphens. -/
theorem isValidK8sLabel_eq_true : isValidK8sLabel s = true ↔
    s.toList ∈ labelGrammar ∧ s.utf8ByteSize ≤ 63 := by
  have hall : (s.toList.all fun c => isLowerAlnum c || c == '-') = true ↔
      ∀ c ∈ s.toList, IsHyphenAlnum c := by
    simp only [List.all_eq_true, Bool.or_eq_true, isLowerAlnum_iff, beq_iff_eq, IsHyphenAlnum, or_comm]
  have htests : isValidK8sLabel s = true ↔ (s ≠ "" ∧ s.utf8ByteSize ≤ 63) ∧
      s.toList.head?.any isLowerAlnum = true ∧ s.toList.getLast?.any isLowerAlnum = true ∧
        (s.toList.all fun c => isLowerAlnum c || c == '-') = true := by
    simp [isValidK8sLabel]
  rw [htests, any_isLowerAlnum, any_isLowerAlnum, hall, mem_labelGrammar_iff]
  constructor
  · rintro ⟨⟨-, hlen⟩, hfirst, hlast, hall⟩
    exact ⟨⟨⟨hfirst, hlast⟩, hall⟩, hlen⟩
  · rintro ⟨⟨⟨hfirst, hlast⟩, hall⟩, hlen⟩
    refine ⟨⟨?_, hlen⟩, hfirst, hlast, hall⟩
    rintro rfl
    obtain ⟨c, hc, -⟩ := hfirst
    cases hc

theorem isValidK8sLabel_iff : isValidK8sLabel s = true ↔ s.toList ∈ dnsLabels := by
  rw [isValidK8sLabel_eq_true]
  refine and_congr_right fun h => ?_
  obtain ⟨hedged, hall⟩ := mem_labelGrammar_iff.mp h
  rw [utf8ByteSize_eq, utf8Len_eq_length fun c hc => (hall c hc).utf8Size]
  obtain ⟨c, hc, -⟩ := hedged.first
  exact (and_iff_right (List.length_pos_of_mem (List.mem_of_mem_head? hc))).symm

/-! ## Subdomains -/

theorem dot_notMem_of_mem_dnsLabels (h : x ∈ dnsLabels) : '.' ∉ x :=
  fun hdot => ((mem_labelGrammar_iff.mp h.1).2 '.' hdot).ne_dot rfl

/-- What a joined text has of its labels: alphanumeric ends, and no characters but theirs and dots. -/
theorem edged_of_mem_joined (h : x ∈ joined '.' dnsLabels) :
    Edged IsAlnum x ∧ ∀ c ∈ x, c = '.' ∨ IsHyphenAlnum c := by
  obtain ⟨ls, hne, hls, rfl⟩ := h
  refine ⟨.intercalate hne (fun l hl => (mem_labelGrammar_iff.mp (hls l hl).1).1) ['.'], ?_⟩
  intro c hc
  rcases mem_of_mem_intercalate hc with hc | ⟨l, hl, hc⟩
  · exact .inl (List.mem_singleton.mp hc)
  · exact .inr ((mem_labelGrammar_iff.mp (hls l hl).1).2 c hc)

theorem utf8ByteSize_of_mem_joined (h : s.toList ∈ joined '.' dnsLabels) :
    s.utf8ByteSize = s.toList.length := by
  rw [utf8ByteSize_eq, utf8Len_eq_length]
  intro c hc
  rcases (edged_of_mem_joined h).2 c hc with rfl | hc
  · decide
  · exact hc.utf8Size

theorem isValidK8sSubdomain_iff : isValidK8sSubdomain s = true ↔ s.toList ∈ dnsSubdomains := by
  have hparts : ((split '.' s.toList).all fun part => isValidK8sLabel (String.ofList part)) = true ↔
      s.toList ∈ joined '.' dnsLabels := by
    rw [mem_joined_iff fun x hx => dot_notMem_of_mem_dnsLabels hx, ← split_eq_splitOn]
    simp only [List.all_eq_true, isValidK8sLabel_iff, String.toList_ofList]
  have htests : isValidK8sSubdomain s = true ↔ (s ≠ "" ∧ s.utf8ByteSize ≤ 253) ∧
      ((split '.' s.toList).all fun part => isValidK8sLabel (String.ofList part)) = true := by
    simp [isValidK8sSubdomain]
  rw [htests, hparts]
  constructor
  · rintro ⟨⟨-, hlen⟩, hjoined⟩
    exact ⟨hjoined, utf8ByteSize_of_mem_joined hjoined ▸ hlen⟩
  · rintro ⟨hjoined, hlen⟩
    refine ⟨⟨?_, utf8ByteSize_of_mem_joined hjoined ▸ hlen⟩, hjoined⟩
    rintro rfl
    obtain ⟨c, hc, -⟩ := (edged_of_mem_joined hjoined).1.first
    cases hc

/-- A label is a subdomain of one label. -/
theorem isValidK8sSubdomain_of_label (h : isValidK8sLabel s = true) :
    isValidK8sSubdomain s = true := by
  have hlabel := isValidK8sLabel_iff.mp h
  refine isValidK8sSubdomain_iff.mpr ⟨⟨[s.toList], List.cons_ne_nil _ _, ?_, ?_⟩, ?_⟩
  · exact List.forall_mem_singleton.mpr hlabel
  · exact (List.intercalate_singleton).symm
  · exact hlabel.2.2.trans (by decide)

end

end Ravn
