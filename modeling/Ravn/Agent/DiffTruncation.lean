import Ravn.Agent.ConfigDrift

/-! A diff that is longer than the cap is cut at a byte offset that says nothing about characters. Where
that offset lies inside a character the slice panics, and with it the watch loop of the tap. -/

namespace Ravn

open Theory

namespace DriftTools

variable {Path : Type} (D : DriftTools Path)

/-- The call returns the diff if that fits, and a prefix of it that fits with the marker otherwise. -/
def Truncates (path old new : String) : Prop :=
  ∃ s, D.unifiedDiff path old new = some s ∧
    IsCut maxTextBytes "\n… (diff truncated)" (D.lineDiff path old new) s

/-- The diff fits, or a character begins where it is cut. -/
def DiffCuttable (path old new : String) : Prop := Cuttable maxTextBytes (D.lineDiff path old new)

variable {D}

/-- Evaluating contents returns as long as the diff it takes, if any, can be cut. -/
theorem evaluate_ne_none_iff {path : String} {prev : Option FileState} {bytes : ByteArray} :
    D.evaluate path prev bytes ≠ none ↔
      ∀ st old new, prev = some st → st.hash ≠ D.sha256Hex bytes → st.text = some old →
        textOf bytes = some new → D.DiffCuttable path old new := by
  unfold evaluate
  dsimp only
  by_cases hsame : prev.any (·.hash == D.sha256Hex bytes) = true
  · rw [if_pos hsame]
    refine ⟨fun _ st old new hprev hne => ?_, fun _ => Option.some_ne_none _⟩
    subst hprev
    exact absurd (by simpa using hsame) hne
  · rw [if_neg hsame, ne_eq, Option.map_eq_none_iff]
    cases prev with
    | none => exact ⟨fun _ _ _ _ h => (nomatch h), fun _ => Option.some_ne_none _⟩
    | some st =>
      have hne : st.hash ≠ D.sha256Hex bytes := by simpa using hsame
      cases hold : st.text with
      | none =>
        simp only [Option.bind_some, hold]
        refine ⟨fun _ st' old new hst' _ hold' => ?_, fun _ => Option.some_ne_none _⟩
        cases hst'
        cases hold.symm.trans hold'
      | some old =>
        cases hnew : textOf bytes with
        | none =>
          simp only [Option.bind_some, hold]
          exact ⟨fun _ _ _ _ _ _ _ h => (nomatch h), fun _ => Option.some_ne_none _⟩
        | some new =>
          simp only [Option.bind_some, hold, Option.map_eq_none_iff]
          rw [← ne_eq, unifiedDiff, cutAt_ne_none_iff]
          constructor
          · intro h st' old' new' hst' _ hold' hnew'
            cases hst'
            cases hold.symm.trans hold'
            cases hnew'
            exact h
          · exact fun h => h st old new rfl hne hold rfl

theorem process_ne_none_iff [DecidableEq Path] {agentId : Uuid} {host : String}
    {baseline : Baseline Path} {n : DriftNotification Path} :
    D.process agentId host baseline n ≠ none ↔
      ∀ bytes st old new, n.content = some bytes → baseline n.path = some st →
        st.hash ≠ D.sha256Hex bytes → st.text = some old → textOf bytes = some new →
        D.DiffCuttable (D.display n.path) old new := by
  unfold process processPayload
  dsimp only
  rw [ne_eq, Option.map_eq_none_iff]
  cases n.content with
  | none =>
    refine ⟨fun _ _ _ _ _ h => (nomatch h), fun _ => ?_⟩
    cases baseline n.path with
    | none => exact Option.some_ne_none _
    | some st => exact Option.some_ne_none _
  | some bytes =>
    dsimp only
    rw [Option.map_eq_none_iff, ← ne_eq, evaluate_ne_none_iff]
    constructor
    · rintro h _ st old new ⟨⟩
      exact h st old new
    · exact fun h st old new => h bytes st old new rfl

end DriftTools

/-- For every path and texts the diff is returned, whole or cut and marked, exactly if it fits or a
character begins where it is cut; and processing a notification returns exactly if that holds of the
diff it takes, if it takes one. -/
theorem unified_diff_total_iff {Path : Type} [DecidableEq Path] (D : DriftTools Path) :
    (∀ path old new, D.Truncates path old new ↔ D.DiffCuttable path old new) ∧
      ∀ agentId host baseline (n : DriftNotification Path),
        D.process agentId host baseline n ≠ none ↔
          ∀ bytes st old new, n.content = some bytes → baseline n.path = some st →
            st.hash ≠ D.sha256Hex bytes → st.text = some old → textOf bytes = some new →
            D.DiffCuttable (D.display n.path) old new :=
  ⟨fun _ _ _ => exists_cutAt_iff, fun _ _ _ _ => DriftTools.process_ne_none_iff⟩

/-- The tools on an empty file that gets one line. -/
def sampleLineTools : DriftTools String where
  display := fun path => path
  sha256Hex := fun _ => ""
  lineDiff := fun path _ new => "--- " ++ path ++ "\n+++ " ++ path ++ "\n@@ -0,0 +1 @@\n+" ++ new

/-- One line of letters of two bytes. -/
def sampleAccents (count : Nat) : String := String.ofList (List.replicate count 'é' ++ ['\n'])

theorem utf8ByteSize_sampleAccents (count : Nat) :
    (sampleAccents count).utf8ByteSize = count * 2 + 1 := by
  have hsize : 'é'.utf8Size = 2 := by decide
  have hend : utf8Len ['\n'] = 1 := by decide
  rw [sampleAccents, utf8ByteSize_ofList, utf8Len_append, utf8Len_replicate, hsize, hend]

/-- The header is 37 bytes long, so every even offset after it lies inside a letter. -/
theorem not_cuttable_sampleAccents (h : maxTextBytes < 37 + count * 2) :
    ¬sampleLineTools.DiffCuttable "/etc/x" "" (sampleAccents count) := by
  have hsize : 'é'.utf8Size = 2 := by decide
  have hjoin : "--- " ++ "/etc/x" ++ "\n+++ " ++ "/etc/x" ++ "\n@@ -0,0 +1 @@\n+" =
      "--- /etc/x\n+++ /etc/x\n@@ -0,0 +1 @@\n+" := by decide
  have hhead : utf8Len "--- /etc/x\n+++ /etc/x\n@@ -0,0 +1 @@\n+".toList = 37 := by decide
  have hdiff : sampleLineTools.lineDiff "/etc/x" "" (sampleAccents count) =
      String.ofList ("--- /etc/x\n+++ /etc/x\n@@ -0,0 +1 @@\n+".toList ++
        (List.replicate count 'é' ++ ['\n'])) := by
    rw [String.ofList_append, String.ofList_toList, ← hjoin]
    rfl
  unfold maxTextBytes at h
  rw [DriftTools.DiffCuttable, Cuttable, hdiff, not_or, maxTextBytes]
  refine ⟨?_, not_isCharBoundary_replicate ?_ ?_ ?_⟩
  · rw [utf8ByteSize_ofList, utf8Len_append, utf8Len_append, utf8Len_replicate, hhead, hsize]
    omega
  · omega
  · rw [hhead, hsize]
    omega
  · rw [hhead, hsize]
    omega

/-- A file within the cap whose diff cannot be cut. -/
theorem unifiedDiff_sampleAccents :
    (sampleAccents 131071).utf8ByteSize ≤ maxTextBytes ∧
      ¬sampleLineTools.Truncates "/etc/x" "" (sampleAccents 131071) := by
  rw [utf8ByteSize_sampleAccents, DriftTools.Truncates, DriftTools.unifiedDiff, exists_cutAt_iff]
  exact ⟨by decide, not_cuttable_sampleAccents (by decide)⟩

end Ravn
