import Mathlib.Logic.Basic

/-! Programs that ask their surroundings. A program ends with a value, panics, or asks a question and
goes on with the answer; it is run against surroundings that answer from a state of their own. What such
a run does to that state is what its questions do. -/

namespace Ravn.Theory

inductive Exchange (κ : Type u) (ρ : Type v) (α : Type w) where
  | done (a : α)
  | panic
  | ask (question : κ) (next : ρ → Exchange κ ρ α)

namespace Exchange

def bind : Exchange κ ρ α → (α → Exchange κ ρ β) → Exchange κ ρ β
  | done a, f => f a
  | panic, _ => panic
  | ask q next, f => ask q fun r => (next r).bind f

instance : Monad (Exchange κ ρ) where
  pure := done
  bind := bind

/-- A run: the value, unless it panics, and the state after it. -/
def run (send : σ → κ → ρ × σ) : Exchange κ ρ α → σ → Option α × σ
  | done a, s => (some a, s)
  | panic, s => (none, s)
  | ask q next, s => (next (send s q).1).run send (send s q).2

/-- The state after questions that are asked one after another. -/
def sendAll (send : σ → κ → ρ × σ) (s : σ) (qs : List κ) : σ := qs.foldl (fun s q => (send s q).2) s

/-- What such questions are answered with. -/
def received (send : σ → κ → ρ × σ) : σ → List κ → List ρ
  | _, [] => []
  | s, q :: qs => (send s q).1 :: received send (send s q).2 qs

@[simp] theorem bind_done (a : α) (f : α → Exchange κ ρ β) : (done a >>= f) = f a := rfl

@[simp] theorem bind_panic (f : α → Exchange κ ρ β) : (panic >>= f) = (panic : Exchange κ ρ β) := rfl

@[simp] theorem bind_ask (q : κ) (next : ρ → Exchange κ ρ α) (f : α → Exchange κ ρ β) :
    (ask q next >>= f) = ask q fun r => next r >>= f := rfl

/-! ## Programs that ask once -/

/-- The program has ended with a value. -/
def Ended (x : Exchange κ ρ α) : Prop := ∃ a, x = done a

/-- The program asks the one question, or none if there is none, and then ends; it panics on the answers
that it does not survive. -/
def Asks (survives : ρ → Prop) (q : Option κ) (x : Exchange κ ρ α) : Prop :=
  match q with
  | none => x.Ended
  | some q => ∃ next, x = ask q next ∧
    ∀ r, (survives r → (next r).Ended) ∧ (¬survives r → next r = panic)

theorem Ended.bind {x : Exchange κ ρ α} {f : α → Exchange κ ρ β} (hx : x.Ended)
    (hf : ∀ a, (f a).Ended) : (x >>= f).Ended := by
  obtain ⟨a, rfl⟩ := hx
  exact hf a

theorem Asks.bind {survives : ρ → Prop} {q : Option κ} {x : Exchange κ ρ α}
    {f : α → Exchange κ ρ β} (hx : x.Asks survives q) (hf : ∀ a, (f a).Ended) :
    (x >>= f).Asks survives q := by
  cases q with
  | none => exact Ended.bind hx hf
  | some q =>
    obtain ⟨next, rfl, hnext⟩ := hx
    refine ⟨_, rfl, fun r => ⟨fun hr => ((hnext r).1 hr).bind hf, fun hr => ?_⟩⟩
    rw [(hnext r).2 hr]
    rfl

theorem Asks.map {survives : ρ → Prop} {q : Option κ} {x : Exchange κ ρ α}
    (hx : x.Asks survives q) (f : α → β) : (x >>= fun a => done (f a)).Asks survives q :=
  hx.bind fun a => ⟨f a, rfl⟩

/-- A run changes the state as its question does. -/
theorem run_of_asks {survives : ρ → Prop} {q : Option κ} {x : Exchange κ ρ α}
    (hx : x.Asks survives q) (send : σ → κ → ρ × σ) (s : σ) :
    (x.run send s).2 = sendAll send s q.toList := by
  cases q with
  | none =>
    obtain ⟨a, rfl⟩ := hx
    rfl
  | some q =>
    obtain ⟨next, rfl, hnext⟩ := hx
    rw [run]
    by_cases hr : survives (send s q).1
    · obtain ⟨a, ha⟩ := (hnext _).1 hr
      rw [ha]
      rfl
    · rw [(hnext _).2 hr]
      rfl

/-- A run panics exactly on the answer that it does not survive. -/
theorem run_eq_none_iff {survives : ρ → Prop} {q : Option κ} {x : Exchange κ ρ α}
    (hx : x.Asks survives q) (send : σ → κ → ρ × σ) (s : σ) :
    (x.run send s).1 = none ↔ ∃ r ∈ received send s q.toList, ¬survives r := by
  cases q with
  | none =>
    obtain ⟨a, rfl⟩ := hx
    simp [run, received]
  | some q =>
    obtain ⟨next, rfl, hnext⟩ := hx
    simp only [run, Option.toList_some, received, List.mem_singleton, exists_eq_left]
    by_cases hr : survives (send s q).1
    · obtain ⟨a, ha⟩ := (hnext _).1 hr
      simp [ha, run, hr]
    · simp [(hnext _).2 hr, run, hr]

theorem received_append (send : σ → κ → ρ × σ) (s : σ) (qs qs' : List κ) :
    received send s (qs ++ qs') = received send s qs ++ received send (sendAll send s qs) qs' := by
  induction qs generalizing s with
  | nil => rfl
  | cons q qs ih => exact congrArg ((send s q).1 :: ·) (ih _)

theorem sendAll_append (send : σ → κ → ρ × σ) (s : σ) (qs qs' : List κ) :
    sendAll send s (qs ++ qs') = sendAll send (sendAll send s qs) qs' :=
  List.foldl_append

/-! ## Values -/

/-- Every value that the program can end with. -/
def Yields (p : α → Prop) : Exchange κ ρ α → Prop
  | done a => p a
  | panic => True
  | ask _ next => ∀ r, (next r).Yields p

theorem yields_of_forall {p : α → Prop} (h : ∀ a, p a) (x : Exchange κ ρ α) : x.Yields p := by
  induction x with
  | done a => exact h a
  | panic => trivial
  | ask q next ih => exact ih

theorem Yields.bind {p : α → Prop} {p' : β → Prop} {x : Exchange κ ρ α} {f : α → Exchange κ ρ β}
    (hx : x.Yields p) (hf : ∀ a, p a → (f a).Yields p') : (x >>= f).Yields p' := by
  induction x with
  | done a => exact hf a hx
  | panic => trivial
  | ask q next ih => exact fun r => ih r (hx r)

theorem run_of_yields {p : α → Prop} {x : Exchange κ ρ α} (hx : x.Yields p)
    (send : σ → κ → ρ × σ) (s : σ) (h : (x.run send s).1 = some a) : p a := by
  induction x generalizing s with
  | done a' =>
    cases h
    exact hx
  | panic => cases h
  | ask q next ih => exact ih _ (hx _) _ h

end Exchange

end Ravn.Theory
