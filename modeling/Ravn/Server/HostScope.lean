import Ravn.Theory.Glob
import Ravn.Server.Policy

/-! What the host glob of a policy rule matches, against the language of the glob. -/

namespace Ravn

open Theory.Glob

section

variable {p t : List UInt8} {star : Option Nat}

/-- Since the last `*` the pattern has been read symbol for symbol. -/
def SinceStar (p t : List UInt8) (pi ti : Nat) (star : Option Nat) (starTi : Nat) : Prop :=
  ∀ s ∈ star, ∃ q u, p.drop (s + 1) = q ++ p.drop pi ∧ t.drop starTi = u ++ t.drop ti ∧
    Aligned 63 q u

/-- What follows the last `*` can be read from a later end of it. -/
def ReadsLater (p t : List UInt8) (star : Option Nat) (starTi : Nat) : Prop :=
  ∃ s ∈ star, ∃ k, starTi < k ∧ Reads 42 63 (p.drop (s + 1)) (t.drop k)

/-- The two loops of `glob_match` from the state of the first. -/
def Accepts (p : List UInt8) : Option Nat → Prop
  | none => False
  | some pi => Reads 42 63 (p.drop pi) []

theorem SinceStar.step (h : SinceStar p t pi ti star starTi) (hti : ti < t.length)
    (hpi : pi < p.length) (hc : p[pi] = 63 ∨ p[pi] = t[ti]) :
    SinceStar p t (pi + 1) (ti + 1) star starTi := by
  intro s hs
  obtain ⟨q, u, hq, hu, haligned⟩ := h s hs
  refine ⟨q ++ [p[pi]], u ++ [t[ti]], ?_, ?_, List.rel_append haligned (.cons hc .nil)⟩
  · rw [hq, List.drop_eq_getElem_cons hpi, List.append_assoc, List.singleton_append]
  · rw [hu, List.drop_eq_getElem_cons hti, List.append_assoc, List.singleton_append]

theorem sinceStar_self (p t : List UInt8) (s ti : Nat) : SinceStar p t (s + 1) ti (some s) ti := by
  rintro _ ⟨⟩
  exact ⟨[], [], rfl, rfl, .nil⟩

/-- Reading from a later end of the last `*` cannot end before the current position. -/
theorem SinceStar.later (h : SinceStar p t pi ti star starTi) (hlater : ReadsLater p t star starTi) :
    ∃ d q u, Aligned 63 q u ∧ Reads 42 63 (q ++ p.drop pi) ((u ++ t.drop ti).drop d) := by
  obtain ⟨s, hs, k, hk, hreads⟩ := hlater
  obtain ⟨q, u, hq, hu, haligned⟩ := h s hs
  refine ⟨k - starTi, q, u, haligned, ?_⟩
  rwa [← hq, ← hu, List.drop_drop, Nat.add_sub_cancel' hk.le]

theorem readsLater_self {s ti : Nat} :
    (Reads 42 63 (p.drop (s + 1)) (t.drop ti) ∨ ReadsLater p t (some s) ti) ↔
      ∃ k, ti ≤ k ∧ Reads 42 63 (p.drop (s + 1)) (t.drop k) := by
  constructor
  · rintro (h | ⟨_, ⟨⟩, k, hk, h⟩)
    · exact ⟨ti, le_rfl, h⟩
    · exact ⟨k, hk.le, h⟩
  · rintro ⟨k, hk, h⟩
    rcases hk.eq_or_lt with rfl | hk
    · exact .inl h
    · exact .inr ⟨s, rfl, k, hk, h⟩

theorem reads_here (hti : ti < t.length) (hpi : pi < p.length)
    (hc : ¬ (p[pi] = 63 ∨ p[pi] = t[ti])) (hstar : p[pi] = 42) :
    Reads 42 63 (p.drop pi) (t.drop ti) ↔
      ∃ k, Reads 42 63 (p.drop (pi + 1)) ((t.drop ti).drop k) := by
  rw [List.drop_eq_getElem_cons hti, List.drop_eq_getElem_cons hpi]
  rw [hstar] at hc ⊢
  exact reads_run (by decide) (not_or.mp hc).2

/-- Nothing is read where neither the symbol of the pattern matches nor a star stands. -/
theorem not_reads_here (hti : ti < t.length)
    (hc : ¬ (pi < p.length ∧ (p[pi]? = some 63 ∨ p[pi]? = t[ti]?)))
    (hstar : ¬ (pi < p.length ∧ p[pi]? = some 42)) :
    ¬ Reads 42 63 (p.drop pi) (t.drop ti) := by
  rw [List.drop_eq_getElem_cons hti]
  by_cases hpi : pi < p.length
  · simp only [hpi, true_and, List.getElem?_eq_getElem hpi, List.getElem?_eq_getElem hti,
      Option.some_inj] at hc hstar
    rw [List.drop_eq_getElem_cons hpi]
    exact not_reads_symbol hstar hc
  · rw [List.drop_eq_nil_of_le (Nat.not_lt.mp hpi)]
    exact nofun

/-- At a `*` that meets another symbol, what an earlier `*` could still reach is reached from here. -/
theorem SinceStar.readsLater_star (h : SinceStar p t pi ti star starTi) (hti : ti < t.length)
    (hpi : pi < p.length) (hc : ¬ (p[pi] = 63 ∨ p[pi] = t[ti])) (hstar : p[pi] = 42)
    (hlater : ReadsLater p t star starTi) : Reads 42 63 (p.drop pi) (t.drop ti) := by
  obtain ⟨d, q, u, haligned, hreads⟩ := h.later hlater
  rw [List.drop_eq_getElem_cons hti, List.drop_eq_getElem_cons hpi] at hreads ⊢
  rw [hstar] at hreads hc ⊢
  exact haligned.star_takes_over (by decide) (not_or.mp hc).2 hreads

/-- The loop accepts what is read from its state, now or from a later end of the last `*`. -/
theorem globLoop_accepts (h : SinceStar p t pi ti star starTi) :
    Accepts p (globLoop p t pi ti star starTi) ↔
      Reads 42 63 (p.drop pi) (t.drop ti) ∨ ReadsLater p t star starTi := by
  induction pi, ti, star, starTi using globLoop.induct p t with
  | case1 pi ti star starTi hti hc ih =>
    rw [globLoop.eq_def, if_pos hti, if_pos hc]
    obtain ⟨hpi, hc⟩ := hc
    rw [List.getElem?_eq_getElem hpi, List.getElem?_eq_getElem hti, Option.some_inj,
      Option.some_inj] at hc
    rw [ih (h.step hti hpi hc), List.drop_eq_getElem_cons hpi, List.drop_eq_getElem_cons hti,
      reads_symbol (by decide) hc]
  | case2 pi ti star starTi hti hc hstar ih =>
    rw [globLoop.eq_def, if_pos hti, if_neg hc, if_pos hstar, ih (sinceStar_self p t pi ti),
      readsLater_self]
    obtain ⟨hpi, hstar⟩ := hstar
    simp only [hpi, true_and, List.getElem?_eq_getElem hpi, List.getElem?_eq_getElem hti,
      Option.some_inj] at hc hstar
    constructor
    · rintro ⟨k, hk, hreads⟩
      refine .inl ((reads_here hti hpi hc hstar).mpr ⟨k - ti, ?_⟩)
      rwa [List.drop_drop, Nat.add_sub_cancel' hk]
    · intro hreads
      obtain ⟨k, hreads⟩ := (reads_here hti hpi hc hstar).mp
        (hreads.elim id (h.readsLater_star hti hpi hc hstar))
      rw [List.drop_drop] at hreads
      exact ⟨ti + k, Nat.le_add_right ti k, hreads⟩
  | case3 pi ti starTi hti hc hstar s ih =>
    rw [globLoop.eq_def, if_pos hti, if_neg hc, if_neg hstar]
    rw [ih (sinceStar_self p t s (starTi + 1)), readsLater_self]
    constructor
    · rintro ⟨k, hk, hreads⟩
      exact .inr ⟨s, rfl, k, hk, hreads⟩
    · rintro (hreads | ⟨_, ⟨⟩, k, hk, hreads⟩)
      · exact absurd hreads (not_reads_here hti hc hstar)
      · exact ⟨k, hk, hreads⟩
  | case4 pi ti starTi hti hc hstar =>
    rw [globLoop.eq_def, if_pos hti, if_neg hc, if_neg hstar]
    refine ⟨False.elim, ?_⟩
    rintro (hreads | ⟨_, hs, -⟩)
    · exact not_reads_here hti hc hstar hreads
    · cases hs
  | case5 pi ti star starTi hti =>
    rw [globLoop.eq_def, if_neg hti, List.drop_eq_nil_of_le (Nat.not_lt.mp hti)]
    refine ⟨.inl, ?_⟩
    rintro (h | hlater)
    · exact h
    · obtain ⟨d, q, u, haligned, hreads⟩ := h.later hlater
      rw [List.drop_eq_nil_of_le (Nat.not_lt.mp hti)] at hreads
      obtain ⟨e, hreads⟩ := haligned.later (by decide) hreads
      rwa [List.drop_nil] at hreads

/-- What `glob_match` accepts: the texts that the pattern denotes with each `*` that meets a `*` taking
that octet alone. -/
theorem globMatchBytes_reads : globMatchBytes p t = true ↔ Reads 42 63 p t := by
  have hloop : Accepts p (globLoop p t 0 0 none 0) ↔
      Reads 42 63 (p.drop 0) (t.drop 0) ∨ ReadsLater p t none 0 := globLoop_accepts nofun
  have hlater : ¬ ReadsLater p t none 0 := fun ⟨_, hs, _⟩ => nomatch hs
  rw [or_iff_left hlater, List.drop_zero, List.drop_zero] at hloop
  rw [← hloop, globMatchBytes]
  cases globLoop p t 0 0 none 0 with
  | none => exact ⟨nofun, nofun⟩
  | some pi => simp [Accepts, reads_nil]

end

/-! ## Rules -/

/-- The octets of a text. -/
def octets (s : String) : List UInt8 := s.toList.flatMap String.utf8EncodeChar

theorem star_mem_utf8 {c : Char} : 42 ∈ String.utf8EncodeChar c ↔ c = '*' := by
  constructor
  · intro h
    rw [String.utf8EncodeChar] at h
    split at h
    · simp only [List.mem_singleton, ← UInt8.toNat_inj, UInt8.toNat_ofNat'] at h
      apply Char.ext
      apply UInt32.toNat_inj.mp
      change c.val.toNat = 42
      change 42 = c.val.toNat % 256 at h
      omega
    split at h
    · simp [← UInt8.toNat_inj] at h
      omega
    split at h
    · simp [← UInt8.toNat_inj] at h
      omega
    · simp [← UInt8.toNat_inj] at h
      omega
  · rintro rfl
    decide

theorem star_mem_octets {s : String} : 42 ∈ octets s ↔ '*' ∈ s.toList := by
  simp [octets, List.mem_flatMap, star_mem_utf8]

theorem octets_witness (u v : List Char) :
    octets (String.ofList (u ++ '*' :: List.replicate ((octets (String.ofList v)).length + 1) '?')) =
      witness 42 63 (octets (String.ofList u)) (octets (String.ofList v)) := by
  have hquestion : String.utf8EncodeChar '?' = [63] := by decide
  have hstar : String.utf8EncodeChar '*' = [42] := by decide
  simp only [witness, octets, String.toList_ofList, List.flatMap_append, List.flatMap_cons, hstar,
    List.flatMap_replicate, hquestion, List.flatten_replicate_singleton, List.singleton_append]

/-- The rule is about this tier, and its glob denotes this host. -/
def PolicyRule.Applies (r : PolicyRule) (host : String) (tier : RiskTier) : Prop :=
  r.tier = tier ∧ ∀ glob ∈ r.host, Denotes 42 63 (octets glob) (octets host)

/-- The first rule that applies. -/
def Policy.FirstRule (policy : Policy) (host : String) (tier : RiskTier) (r : PolicyRule) : Prop :=
  ∃ before after, policy.rules = before ++ r :: after ∧ r.Applies host tier ∧
    ∀ r' ∈ before, ¬ r'.Applies host tier

theorem PolicyRule.matches_iff {r : PolicyRule} {host : String} {tier : RiskTier} :
    r.matches host tier = true ↔
      r.tier = tier ∧ ∀ glob ∈ r.host, Reads 42 63 (octets glob) (octets host) := by
  cases hhost : r.host <;>
    simp [PolicyRule.matches, hhost, globMatch, globMatchBytes_reads, octets]

/-- On a host without `*` the rules mean what they say. -/
theorem PolicyRule.matches_iff_applies {host : String} (h : '*' ∉ host.toList) {r : PolicyRule}
    {tier : RiskTier} :
    r.matches host tier = true ↔ r.Applies host tier := by
  rw [PolicyRule.matches_iff, PolicyRule.Applies]
  refine and_congr_right fun _ => forall₂_congr fun glob _ => ?_
  exact ⟨Reads.denotes (by decide), fun hglob => hglob.reads (star_mem_octets.not.mpr h)⟩

/-- On a host with a `*` some rule does not match although it applies. -/
theorem exists_rule_missed {host : String} (h : '*' ∈ host.toList) (tier : RiskTier)
    (decision : PolicyDecision) :
    ∃ r : PolicyRule, r.decision = decision ∧ r.Applies host tier ∧ r.matches host tier = false := by
  obtain ⟨u, v, hhost, hu⟩ := List.eq_append_cons_of_mem h
  have hoctets : octets host = octets (String.ofList u) ++ 42 :: octets (String.ofList v) := by
    simp [octets, hhost, show String.utf8EncodeChar '*' = [42] by decide]
  refine ⟨⟨some (String.ofList (u ++ '*' ::
    List.replicate ((octets (String.ofList v)).length + 1) '?')), tier, decision⟩, rfl, ⟨rfl, ?_⟩, ?_⟩
  · rintro _ ⟨⟩
    rw [octets_witness, hoctets]
    exact denotes_witness (by decide) (star_mem_octets.not.mpr (by simpa using hu)) _
  · rw [Bool.eq_false_iff, Ne, PolicyRule.matches_iff]
    rintro ⟨-, hreads⟩
    have hreads := hreads _ rfl
    rw [octets_witness, hoctets] at hreads
    exact not_reads_witness (by decide) _ _ hreads

theorem Policy.decide_firstRule {host : String} (h : '*' ∉ host.toList) {policy : Policy}
    (hfirst : policy.FirstRule host tier r) : policy.decide host tier = r.decision := by
  obtain ⟨before, after, hrules, hr, hbefore⟩ := hfirst
  have hnone : before.find? (fun r => r.matches host tier) = none := by
    rw [List.find?_eq_none]
    exact fun r' hr' => (PolicyRule.matches_iff_applies h).not.mpr (hbefore r' hr')
  have hmatch := (PolicyRule.matches_iff_applies h).mpr hr
  simp [Policy.decide, hrules, hnone, hmatch]

/-- A pattern matches what it denotes on the texts that hold no `*` (for one pattern and one text: unless
the text is denoted only with a `*` that meets a `*` and takes more or less than it). On the hosts that
hold none, and on no others, every rule is about the hosts that its glob denotes, and no host gets past
the rule that forbids it. -/
theorem host_scopes_iff (p t : List UInt8) (host : String) (tier : RiskTier) :
    ((globMatchBytes p t = true ↔ Denotes 42 63 p t) ↔
      (Denotes 42 63 p t → Reads 42 63 p t)) ∧
    ((∀ p, globMatchBytes p t = true ↔ Denotes 42 63 p t) ↔ 42 ∉ t) ∧
    ((∀ r : PolicyRule, r.matches host tier = true ↔ r.Applies host tier) ↔
      '*' ∉ host.toList) ∧
    ((∀ policy r, Policy.FirstRule policy host tier r → r.decision = .forbid →
      policy.decide host tier = .forbid) ↔ '*' ∉ host.toList) := by
  have hpair : ∀ p, (globMatchBytes p t = true ↔ Denotes 42 63 p t) ↔
      (Denotes 42 63 p t → Reads 42 63 p t) := by
    intro p
    rw [globMatchBytes_reads]
    exact ⟨Iff.mpr, fun h => ⟨Reads.denotes (by decide), h⟩⟩
  refine ⟨hpair p, ?_, ⟨fun h hmem => ?_, fun h r => ?_⟩,
    ⟨fun h hmem => ?_, fun h policy r hfirst hr => ?_⟩⟩
  · simp only [hpair]
    exact denotes_reads_iff (by decide)
  · obtain ⟨r, -, happlies, hmiss⟩ := exists_rule_missed hmem tier .forbid
    exact Bool.false_ne_true (hmiss.symm.trans ((h r).mpr happlies))
  · exact PolicyRule.matches_iff_applies h
  · obtain ⟨r, hdecision, happlies, hmiss⟩ := exists_rule_missed hmem tier .forbid
    have hforbid := h ⟨[r]⟩ r ⟨[], [], rfl, happlies, nofun⟩ hdecision
    simp [Policy.decide, hmiss] at hforbid
  · rw [Policy.decide_firstRule h hfirst, hr]

/-- A host named `web-*1` gets past the rule that forbids `web-*`. -/
theorem host_slips_past_forbid :
    let rule : PolicyRule := ⟨some "web-*", .safe, .forbid⟩
    rule.Applies "web-*1" .safe ∧ globMatch "web-*" "web-*1" = false ∧
      Policy.decide ⟨[rule]⟩ "web-*1" .safe = .approve := by
  have hpattern : octets "web-*" = [119, 101, 98, 45, 42] := by decide
  have htext : octets "web-*1" = [119, 101, 98, 45, 42, 49] := by decide
  have hmiss : globMatch "web-*" "web-*1" = false := by
    change globMatchBytes (octets "web-*") (octets "web-*1") = false
    rw [Bool.eq_false_iff, Ne, globMatchBytes_reads, hpattern, htext]
    simp only [reads_symbol (show (42 : UInt8) ≠ 63 by decide) (.inr rfl)]
    exact nofun
  refine ⟨⟨rfl, ?_⟩, hmiss, ?_⟩
  · rintro _ ⟨⟩
    rw [hpattern, htext]
    have hstar : Denotes (42 : UInt8) 63 [42] [42, 49] := .run [42, 49] .nil
    iterate 4 refine .symbol (by decide) (.inr rfl) ?_
    exact hstar
  · simp [Policy.decide, PolicyRule.matches, hmiss]

end Ravn
