import Mathlib.Data.List.Induction

/-! List-watch streams. A watcher is told of the objects of a collection by a stream of events: each
list of the collection comes as `init`, an `initApply` for every object and `initDone`, changes after it
as `apply` and `delete`. A stream that has lost track gives an error and lists again; a watcher that
gives up at an error is started again with nothing remembered. A watcher whose lists are silent and that
takes no notice of deletions loses no alarm exactly if no list after the first raises one and none is
hidden by what it recalls of an object that was deleted (`NoneHidden`). -/

namespace Ravn.Theory

variable {α : Type u} {σ : Type v} {μ : Type w} {β : Type x}

inductive WatchEvent (α : Type u) where
  | apply (a : α)
  | delete (a : α)
  | init
  | initApply (a : α)
  | initDone

/-- What a watcher takes from its stream. -/
inductive WatchItem (α : Type u) where
  | event (e : WatchEvent α)
  | error

/-- The object whose state an item shows. -/
def WatchItem.sighting : WatchItem α → Option α
  | event (.apply a) => some a
  | event (.initApply a) => some a
  | _ => none

/-! ## Streams -/

/-- Where a stream stands. -/
inductive WatchPhase where
  | start
  | listing
  | watching

/-- What can come next: a list at the start and after every error, changes after a list. -/
def WatchPhase.next : WatchPhase → WatchItem α → Option WatchPhase
  | start, .event .init => some listing
  | listing, .event (.initApply _) => some listing
  | listing, .event .initDone => some watching
  | watching, .event (.apply _) => some watching
  | watching, .event (.delete _) => some watching
  | _, .error => some start
  | _, _ => none

/-- A stream as it is delivered: a list begins at the start or after an error, and nowhere else. -/
def Delivered (items : List (WatchItem α)) : Prop := (items.foldlM WatchPhase.next .start).isSome

/-- The first list of the collection is complete. -/
def Listed (items : List (WatchItem α)) : Prop := .event .initDone ∈ items

/-- The last state that was shown of an object, if it was not deleted since. -/
def WatchItem.track (p : α → Bool) (last : Option α) : WatchItem α → Option α
  | event (.apply a) => if p a then some a else last
  | event (.initApply a) => if p a then some a else last
  | event (.delete a) => if p a then none else last
  | _ => last

def lastState (p : α → Bool) (items : List (WatchItem α)) : Option α :=
  items.foldl (WatchItem.track p) none

/-- The last state that was shown of an object since the last error, deleted or not. -/
def WatchItem.recall (p : α → Bool) (last : Option α) : WatchItem α → Option α
  | event (.apply a) => if p a then some a else last
  | event (.initApply a) => if p a then some a else last
  | error => none
  | _ => last

def recalled (p : α → Bool) (items : List (WatchItem α)) : Option α :=
  items.foldl (WatchItem.recall p) none

theorem lastState_snoc (p : α → Bool) (items : List (WatchItem α)) (i : WatchItem α) :
    lastState p (items ++ [i]) = i.track p (lastState p items) := by
  simp [lastState]

theorem recalled_snoc (p : α → Bool) (items : List (WatchItem α)) (i : WatchItem α) :
    recalled p (items ++ [i]) = i.recall p (recalled p items) := by
  simp [recalled]

/-- An object that was not deleted is recalled in its last state, or not at all. -/
theorem recalled_eq_of_lastState {p : α → Bool} {items : List (WatchItem α)}
    (h : lastState p items = some a) : recalled p items = none ∨ recalled p items = some a := by
  induction items using List.reverseRecOn generalizing a with
  | nil => exact .inl rfl
  | append_singleton items i ih =>
    rw [lastState_snoc] at h
    rw [recalled_snoc]
    have hsight : ∀ b, (if p b then some b else lastState p items) = some a →
        (if p b then some b else recalled p items) = none ∨
          (if p b then some b else recalled p items) = some a := by
      intro b hb
      by_cases hp : p b
      · rw [if_pos hp] at hb ⊢
        exact .inr hb
      · rw [if_neg hp] at hb ⊢
        exact ih hb
    cases i with
    | error => exact .inl rfl
    | event e =>
      cases e with
      | apply b => exact hsight b h
      | initApply b => exact hsight b h
      | delete b =>
        obtain ⟨-, hlast⟩ := Option.ite_none_left_eq_some.mp h
        exact ih hlast
      | init => exact ih h
      | initDone => exact ih h

/-! ## Watchers -/

section

variable (step : σ → WatchItem α → Option (σ × List μ)) (start : σ)

/-- One item for a watcher that is started again where it gives up. -/
def restarting (s : σ) (i : WatchItem α) : σ × List μ := (step s i).getD (start, [])

/-- The state of a watcher after a stream. -/
def watchState (items : List (WatchItem α)) : σ :=
  items.foldl (fun s i => (restarting step start s i).1) start

@[simp] theorem watchState_nil : watchState step start [] = start := rfl

theorem watchState_snoc (items : List (WatchItem α)) (i : WatchItem α) :
    watchState step start (items ++ [i]) =
      (restarting step start (watchState step start items) i).1 := by
  simp [watchState]

end

section

variable (same : α → α → Bool) (raises : Option α → α → β → Prop)

/-- `raises` says which alarms the state of an object raises after its last state, if there is one, and
`tells` which of them a message tells. Once the first list is complete, every alarm is told at the item
that raises it. -/
def LosesNone (step : σ → WatchItem α → Option (σ × List μ)) (start : σ) (tells : μ → α → β → Prop)
    (items : List (WatchItem α)) : Prop :=
  ∀ pre i post, items = pre ++ i :: post → Listed pre → ∀ a b, i.sighting = some a →
    raises (lastState (same a) pre) a b →
    ∃ m ∈ (restarting step start (watchState step start pre) i).2, tells m a b

/-- No list after the first raises an alarm, and none is raised by an object that was deleted, is made
again, and is recalled in a state that hides the alarm. -/
structure NoneHidden (hides : α → α → β → Prop) (items : List (WatchItem α)) : Prop where
  lists : ∀ pre a post, items = pre ++ .event (.initApply a) :: post → Listed pre →
    ∀ b, ¬raises (lastState (same a) pre) a b
  remade : ∀ pre a post p, items = pre ++ .event (.apply a) :: post → Listed pre →
    lastState (same a) pre = none → recalled (same a) pre = some p →
    ∀ b, raises none a b → ¬hides p a b

end

section

variable {step : σ → WatchItem α → Option (σ × List μ)} {start : σ} {tells : μ → α → β → Prop}
  {same : α → α → Bool} {raises : Option α → α → β → Prop} {hides : α → α → β → Prop}

/-- An alarm that an object raises after its last state is not hidden by that state. -/
theorem NoneHidden.losesNone {items : List (WatchItem α)}
    (h : NoneHidden same raises hides items)
    (hweak : ∀ p a b, raises (some p) a b → raises none a b ∧ ¬hides p a b)
    (htells : ∀ pre a b, raises none a b → (∀ p, recalled (same a) pre = some p → ¬hides p a b) →
      ∃ m ∈ (restarting step start (watchState step start pre) (.event (.apply a))).2, tells m a b) :
    LosesNone same raises step start tells items := by
  intro pre i post hitems hlisted a b ha hraises
  cases i with
  | error => cases ha
  | event e =>
    cases e with
    | delete | init | initDone => cases ha
    | initApply a' =>
      cases ha
      exact absurd hraises (h.lists pre a post hitems hlisted b)
    | apply a' =>
      cases ha
      cases hlast : lastState (same a) pre with
      | none =>
        rw [hlast] at hraises
        refine htells pre a b hraises fun p hp => ?_
        exact h.remade pre a post p hitems hlisted hlast hp b hraises
      | some q =>
        rw [hlast] at hraises
        obtain ⟨hnone, hhides⟩ := hweak q a b hraises
        refine htells pre a b hnone fun p hp => ?_
        obtain hrec | hrec := recalled_eq_of_lastState hlast
        · exact absurd (hrec.symm.trans hp) nofun
        · cases hrec.symm.trans hp
          exact hhides

theorem LosesNone.noneHidden {items : List (WatchItem α)}
    (h : LosesNone same raises step start tells items)
    (hsilent : ∀ s a, (restarting step start s (.event (.initApply a))).2 = [])
    (hhides : ∀ pre a post p b, items = pre ++ .event (.apply a) :: post →
      recalled (same a) pre = some p → hides p a b →
      ∀ m ∈ (restarting step start (watchState step start pre) (.event (.apply a))).2, ¬tells m a b) :
    NoneHidden same raises hides items where
  lists pre a post hitems hlisted b hraises := by
    obtain ⟨m, hm, -⟩ := h pre (.event (.initApply a)) post hitems hlisted a b rfl hraises
    rw [hsilent] at hm
    exact absurd hm List.not_mem_nil
  remade pre a post p hitems hlisted hlast hrec b hraises hp := by
    obtain ⟨m, hm, htells⟩ := h pre (.event (.apply a)) post hitems hlisted a b rfl (hlast ▸ hraises)
    exact hhides pre a post p b hitems hrec hp m hm htells

end

end Ravn.Theory
