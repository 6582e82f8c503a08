import Ravn.Theory.Lines

/-! Texts with spans between an opening and a closing delimiter. Reading from the left, a span opens at
the first opening delimiter and ends at the first closing one after it; this determines how a text is
cut (`Segments.Leftmost.unique`). -/

namespace Ravn.Theory

/-! ## First occurrences -/

section

variable {α : Type u} {pat before before' rest rest' : List α}

/-- The copy of `pat` after `before` is the first one. -/
def LeadsTo (pat before : List α) : Prop := ∀ a b, before ++ pat = a ++ pat ++ b → b = []

theorem LeadsTo.nil (pat : List α) : LeadsTo pat [] := by
  intro a b h
  have hlen := congrArg List.length h
  simp only [List.nil_append, List.length_append] at hlen
  exact List.eq_nil_of_length_eq_zero (by omega)

theorem LeadsTo.length_le (h : LeadsTo pat before) (heq : before ++ pat ++ rest = a ++ pat ++ b) :
    before.length ≤ a.length := by
  by_contra hlt
  have hpre : a ++ pat <+: before ++ pat ++ rest := heq ▸ List.prefix_append _ _
  obtain ⟨c, hc⟩ := List.prefix_of_prefix_length_le hpre (List.prefix_append _ _) (by
    simp only [List.length_append]
    omega)
  rw [h a c hc.symm, List.append_nil] at hc
  have hlen := congrArg List.length hc
  simp only [List.length_append] at hlen
  omega

/-- A text has one first occurrence of a pattern. -/
theorem LeadsTo.unique (h : LeadsTo pat before) (h' : LeadsTo pat before')
    (heq : before ++ pat ++ rest = before' ++ pat ++ rest') : before = before' ∧ rest = rest' := by
  have hlen : before.length = before'.length := le_antisymm (h.length_le heq) (h'.length_le heq.symm)
  rw [List.append_assoc, List.append_assoc] at heq
  obtain ⟨hbefore, heq⟩ := List.append_inj heq hlen
  exact ⟨hbefore, List.append_cancel_left heq⟩

end

section

variable {pat cs before after : List Char}

theorem leadsTo_of_splitOnce (h : splitOnce pat cs = some (before, after)) : LeadsTo pat before := by
  induction cs generalizing before with
  | nil =>
    rw [splitOnce] at h
    split at h
    · cases h
      exact .nil pat
    · cases h
  | cons c cs ih =>
    rw [splitOnce] at h
    split at h
    · cases h
      exact .nil pat
    · rename_i hpat
      obtain ⟨r, hr, h⟩ := Option.map_eq_some_iff.mp h
      cases h
      intro a b hab
      cases a with
      | nil =>
        -- A copy at the very front would have been taken.
        have hcs : c :: cs = pat ++ (b ++ r.2) := by
          rw [← List.append_assoc, ← List.nil_append pat, ← hab, eq_append_of_splitOnce hr]
          simp
        exact absurd (List.isPrefixOf_iff_prefix.mpr ⟨_, hcs.symm⟩) hpat
      | cons d a =>
        simp only [List.cons_append, List.cons.injEq] at hab
        exact ih hr a b hab.2

theorem splitOnce_eq_some_iff :
    splitOnce pat cs = some (before, after) ↔ cs = before ++ pat ++ after ∧ LeadsTo pat before := by
  constructor
  · exact fun h => ⟨eq_append_of_splitOnce h, leadsTo_of_splitOnce h⟩
  · rintro ⟨rfl, hlead⟩
    obtain ⟨⟨before', after'⟩, h⟩ :=
      Option.ne_none_iff_exists'.mp (splitOnce_ne_none before pat after)
    obtain ⟨rfl, rfl⟩ := hlead.unique (leadsTo_of_splitOnce h) (eq_append_of_splitOnce h)
    exact h

theorem splitOnce_eq_none_iff : splitOnce pat cs = none ↔ ¬pat <:+: cs := by
  constructor
  · rintro h ⟨a, b, rfl⟩
    exact splitOnce_ne_none a pat b h
  · intro h
    refine Option.eq_none_iff_forall_ne_some.mpr fun r hr => h ⟨r.1, r.2, ?_⟩
    exact (eq_append_of_splitOnce hr).symm

end

/-! ## Spans -/

/-- A span and the literal text in front of it. -/
@[ext]
structure Piece (α : Type u) where
  literal : List α
  /-- What stands between the delimiters. -/
  inner : List α

/-- A text cut into its spans, and the literal text after the last one. -/
structure Segments (α : Type u) where
  pieces : List (Piece α)
  tail : List α

namespace Segments

section

variable {α : Type u} (op cl : List α)

/-- The text with `vs` in the place of the spans, the first value for the first span. -/
def fill (seg : Segments α) (vs : List (List α)) : List α :=
  (List.zipWith (fun p v => p.literal ++ v) seg.pieces vs).flatten ++ seg.tail

/-- The text that was cut: each span stands in its own place. -/
def text (seg : Segments α) : List α := seg.fill (seg.pieces.map fun p => op ++ p.inner ++ cl)

/-- Every span opens at the first `op` and ends at the first `cl` after it; in the tail no `op` has a
`cl` after it. -/
structure Leftmost (seg : Segments α) : Prop where
  opens : ∀ p ∈ seg.pieces, LeadsTo op p.literal
  closes : ∀ p ∈ seg.pieces, LeadsTo cl p.inner
  unclosed : ∀ a b, seg.tail = a ++ op ++ b → ¬cl <:+: b

variable {op cl} {p : Piece α} {ps : List (Piece α)} {tail : List α} {seg seg' : Segments α}

@[simp] theorem fill_nil (vs : List (List α)) : fill ⟨[], tail⟩ vs = tail := rfl

@[simp] theorem fill_cons (v : List α) (vs : List (List α)) :
    fill ⟨p :: ps, tail⟩ (v :: vs) = p.literal ++ v ++ fill ⟨ps, tail⟩ vs := by
  simp [fill]

@[simp] theorem text_nil : text op cl ⟨[], tail⟩ = tail := rfl

theorem text_cons : text op cl ⟨p :: ps, tail⟩ =
    p.literal ++ op ++ (p.inner ++ cl ++ text op cl ⟨ps, tail⟩) := by
  simp [text]

theorem leftmost_cons : Leftmost op cl ⟨p :: ps, tail⟩ ↔
    LeadsTo op p.literal ∧ LeadsTo cl p.inner ∧ Leftmost op cl ⟨ps, tail⟩ := by
  constructor
  · rintro ⟨hopens, hcloses, hunclosed⟩
    obtain ⟨hp, hopens⟩ := List.forall_mem_cons.mp hopens
    obtain ⟨hp', hcloses⟩ := List.forall_mem_cons.mp hcloses
    exact ⟨hp, hp', hopens, hcloses, hunclosed⟩
  · rintro ⟨hp, hp', hopens, hcloses, hunclosed⟩
    exact ⟨List.forall_mem_cons.mpr ⟨hp, hopens⟩, List.forall_mem_cons.mpr ⟨hp', hcloses⟩, hunclosed⟩

theorem Leftmost.ne_text_cons (h : Leftmost op cl ⟨[], tail⟩) (p : Piece α) (ps : List (Piece α))
    (tail' : List α) : tail ≠ text op cl ⟨p :: ps, tail'⟩ := by
  intro heq
  rw [text_cons] at heq
  exact h.unclosed _ _ heq ⟨_, _, rfl⟩

/-- A text is cut in one way. -/
theorem Leftmost.unique (h : seg.Leftmost op cl) (h' : seg'.Leftmost op cl)
    (heq : seg.text op cl = seg'.text op cl) : seg = seg' := by
  obtain ⟨pieces, tail⟩ := seg
  obtain ⟨pieces', tail'⟩ := seg'
  induction pieces generalizing pieces' with
  | nil =>
    cases pieces' with
    | nil => exact congrArg (Segments.mk []) heq
    | cons p' ps' => exact absurd heq (h.ne_text_cons p' ps' tail')
  | cons p ps ih =>
    cases pieces' with
    | nil => exact absurd heq.symm (h'.ne_text_cons p ps tail)
    | cons p' ps' =>
      obtain ⟨hopen, hclose, hrest⟩ := leftmost_cons.mp h
      obtain ⟨hopen', hclose', hrest'⟩ := leftmost_cons.mp h'
      rw [text_cons, text_cons] at heq
      obtain ⟨hliteral, heq⟩ := hopen.unique hopen' heq
      obtain ⟨hinner, heq⟩ := hclose.unique hclose' heq
      cases ih hrest ps' hrest' heq
      rw [Piece.ext hliteral hinner]

end

section

variable {op cl : List Char} {p : Piece Char} {ps : List (Piece Char)} {tail : List Char}

/-- What a scan finds in the tail: no `op`, or one with no `cl` after it. -/
theorem Leftmost.splitOnce_tail (h : Leftmost op cl ⟨[], tail⟩) :
    splitOnce op tail = none ∨
      ∃ literal after, splitOnce op tail = some (literal, after) ∧ splitOnce cl after = none := by
  cases hopen : splitOnce op tail with
  | none => exact .inl rfl
  | some r =>
    refine .inr ⟨r.1, r.2, rfl, splitOnce_eq_none_iff.mpr ?_⟩
    exact h.unclosed _ _ (eq_append_of_splitOnce hopen)

/-- What a scan finds in front: the first span. -/
theorem Leftmost.splitOnce_text (h : Leftmost op cl ⟨p :: ps, tail⟩) :
    ∃ after, splitOnce op (text op cl ⟨p :: ps, tail⟩) = some (p.literal, after) ∧
      splitOnce cl after = some (p.inner, text op cl ⟨ps, tail⟩) := by
  obtain ⟨hopen, hclose, -⟩ := leftmost_cons.mp h
  exact ⟨_, splitOnce_eq_some_iff.mpr ⟨text_cons, hopen⟩, splitOnce_eq_some_iff.mpr ⟨rfl, hclose⟩⟩

/-- Every text can be cut: one span after the other, as long as one opens and closes. -/
theorem exists_leftmost (hop : op ≠ []) (cl cs : List Char) :
    ∃ seg : Segments Char, seg.Leftmost op cl ∧ seg.text op cl = cs := by
  induction hlen : cs.length using Nat.strong_induction_on generalizing cs with
  | h n ih =>
    cases hopen : splitOnce op cs with
    | none =>
      have hno := splitOnce_eq_none_iff.mp hopen
      exact ⟨⟨[], cs⟩, ⟨nofun, nofun, fun a b hcs => absurd ⟨a, b, hcs.symm⟩ hno⟩, rfl⟩
    | some r =>
      obtain ⟨literal, after⟩ := r
      have hcs := eq_append_of_splitOnce hopen
      cases hclose : splitOnce cl after with
      | none =>
        refine ⟨⟨[], cs⟩, ⟨nofun, nofun, fun a b htail hcl => ?_⟩, rfl⟩
        -- A later `op` has no more after it than the first one.
        cases htail
        exact splitOnce_eq_none_iff.mp hclose (hcl.trans (suffix_of_splitOnce hopen).isInfix)
      | some r =>
        obtain ⟨inner, rest⟩ := r
        have hafter := eq_append_of_splitOnce hclose
        have hlt : rest.length < n := by
          have hop := length_lt_of_splitOnce hop hopen
          have hle := congrArg List.length hafter
          simp only [List.length_append] at hle
          omega
        obtain ⟨⟨ps, tail⟩, hrest, htext⟩ := ih _ hlt rest rfl
        refine ⟨⟨⟨literal, inner⟩ :: ps, tail⟩, leftmost_cons.mpr ⟨?_, ?_, hrest⟩, ?_⟩
        · exact leadsTo_of_splitOnce hopen
        · exact leadsTo_of_splitOnce hclose
        · rw [text_cons, htext, ← hafter, ← hcs]

end

end Segments

end Ravn.Theory
