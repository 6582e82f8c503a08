import Ravn.Theory.Transition

/-! Tasks over a shared state. A task is a value that says where it stands; advancing it makes its
next access to the shared state, which is atomic, and moves it on. Tasks are spawned at any time,
advanced in any order and may be left standing forever. -/

namespace Ravn.Theory

structure Pool (σ : Type u) (τ : Type v) where
  shared : σ
  tasks : List τ

inductive PoolLabel (ρ : Type u) (ε : Type v) (ι : Type w) where
  /-- A request arrives and becomes a task. -/
  | spawn (request : ρ)
  /-- An access with no task of its own. -/
  | access (e : ε)
  | advance (i : Nat) (input : ι)

/-- An access that either takes effect or fails. -/
theorem of_ite_eq {ok : Bool} {a b r : α} (h : (if ok then a else b) = r) :
    ok = true ∧ a = r ∨ ok = false ∧ b = r := by
  cases ok with
  | false => exact .inr ⟨rfl, h⟩
  | true => exact .inl ⟨rfl, h⟩

namespace Pool

variable {σ : Type u} {τ : Type v} {ρ : Type w} {ε : Type x} {ι : Type y}
variable (start : ρ → τ) (access : σ → ε → σ) (advance : σ → τ → ι → Option (σ × τ))

def step (s : Pool σ τ) : PoolLabel ρ ε ι → Option (Pool σ τ)
  | .spawn request => some ⟨s.shared, s.tasks ++ [start request]⟩
  | .access e => some ⟨access s.shared e, s.tasks⟩
  | .advance i input =>
    s.tasks[i]?.bind fun task =>
      (advance s.shared task input).map fun (shared, task') => ⟨shared, s.tasks.set i task'⟩

/-- A task that is advanced with nothing in between, as long as it makes accesses. -/
def alone : σ → τ → List ι → σ × τ
  | s, task, [] => (s, task)
  | s, task, input :: inputs =>
    match advance s task input with
    | none => (s, task)
    | some (s', task') => alone s' task' inputs

variable {start access advance}

/-- What a step can do. The advanced task is replaced where it stands. -/
theorem step_cases {s s' : Pool σ τ} {l : PoolLabel ρ ε ι}
    (h : step start access advance s l = some s') :
    (∃ request, l = .spawn request ∧ s' = ⟨s.shared, s.tasks ++ [start request]⟩) ∨
    (∃ e, l = .access e ∧ s' = ⟨access s.shared e, s.tasks⟩) ∨
    ∃ i input pre task post shared task', l = .advance i input ∧ s.tasks[i]? = some task ∧
      s.tasks = pre ++ task :: post ∧ advance s.shared task input = some (shared, task') ∧
      s' = ⟨shared, pre ++ task' :: post⟩ := by
  cases l with
  | spawn request => exact .inl ⟨request, rfl, (Option.some.inj h).symm⟩
  | access e => exact .inr (.inl ⟨e, rfl, (Option.some.inj h).symm⟩)
  | advance i input =>
    obtain ⟨task, htask, h⟩ := Option.bind_eq_some_iff.mp h
    obtain ⟨⟨shared, task'⟩, hadvance, rfl⟩ := Option.map_eq_some_iff.mp h
    obtain ⟨hi, hget⟩ := List.getElem?_eq_some_iff.mp htask
    have hsplit : s.tasks = s.tasks.take i ++ task :: s.tasks.drop (i + 1) := by
      rw [← hget, List.getElem_cons_drop, List.take_append_drop]
    refine .inr (.inr ⟨i, input, s.tasks.take i, task, s.tasks.drop (i + 1), shared, task', rfl,
      htask, hsplit, hadvance, ?_⟩)
    simp only [List.set_eq_take_append_cons_drop, if_pos hi]

/-- The tasks that stand after one was replaced stood before, or are the new one. -/
theorem mem_replaced {pre post : List τ} {task task' : τ} (h : t ∈ pre ++ task' :: post) :
    t = task' ∨ t ∈ pre ++ task :: post := by
  rcases List.mem_append.mp h with h | h
  · exact .inr (List.mem_append_left _ h)
  · rcases List.mem_cons.mp h with h | h
    · exact .inl h
    · exact .inr (List.mem_append_right _ (List.mem_cons_of_mem _ h))

/-- What the tasks count for, with one of them set apart. -/
theorem countP_replaced (p : τ → Bool) (pre post : List τ) (task : τ) :
    (pre ++ task :: post).countP p = pre.countP p + post.countP p + (p task).toNat := by
  rw [List.countP_append, List.countP_cons, ← Nat.add_assoc]
  cases p task <;> rfl

end Pool

end Ravn.Theory
