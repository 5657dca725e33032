import Mixfix.Parse.Trail

/-!
# Results of parse actions

A parse action starts from a trail and leaves a trail. The trail decides which failure is reported,
never whether there is a result nor which one. Two readings of an action say this without naming a
trail: `Ends` says that the action can end with a result, from some trail, and `Always` that it ends
with the result from every trail. `Step.Gives` and `Step.Yields` are the same for steps that may
fail, and speak about their successes only.

What an action made of two parts gives, the parts give one after the other (`Step.Gives.bind`), and
what the parts yield, the whole yields (`Step.Yields.bind`).
-/

set_option autoImplicit false

namespace Mixfix

variable {α β : Type}

/-- The action can end with the result. -/
def Ends (action : StateM Trail α) (result : α) : Prop :=
  ∃ before, (action.run before).1 = result

/-- The action ends with the result whatever the trail is. -/
def Always (action : StateM Trail α) (result : α) : Prop :=
  ∀ before, (action.run before).1 = result

namespace Ends

theorem of_pure {a b : α} (ends : Ends (pure a) b) : b = a := by
  obtain ⟨_, same⟩ := ends
  exact same.symm

theorem bind {first : StateM Trail α} {next : α → StateM Trail β} {result : β}
    (ends : Ends (first >>= next) result) :
    ∃ middle, Ends first middle ∧ Ends (next middle) result := by
  obtain ⟨before, same⟩ := ends
  exact ⟨_, ⟨before, rfl⟩, ⟨_, same⟩⟩

end Ends

namespace Always

theorem of_pure (a : α) : Always (pure a) a := fun _ => rfl

theorem bind {first : StateM Trail α} {next : α → StateM Trail β} {middle : α} {result : β}
    (start : Always first middle) (rest : Always (next middle) result) :
    Always (first >>= next) result := by
  intro before
  have same := rest (first.run before).2
  rw [← start before] at same
  exact same

/-- What an action always ends with it can end with. -/
theorem ends {action : StateM Trail α} {result : α} (always : Always action result) :
    Ends action result :=
  ⟨.empty, always .empty⟩

end Always

namespace Step

/-- The step can succeed with the result. -/
def Gives (step : Step α) (result : α) : Prop := Ends step.run (.ok result)

/-- The step succeeds with the result whatever the trail is. -/
def Yields (step : Step α) (result : α) : Prop := Always step.run (.ok result)

/-! ## Steps made of steps -/

theorem Gives.of_pure {a b : α} (gives : Gives (pure a) b) : b = a := by
  have same : Except.ok b = Except.ok a := Ends.of_pure (α := Except Failure α) gives
  exact Except.ok.inj same

/-- A step made of two runs the second from the trail of the first, unless the first fails. -/
theorem run_bind (first : Step α) (next : α → Step β) (before : Trail) :
    (first >>= next).run.run before =
      match first.run.run before with
      | (.ok middle, after) => (next middle).run.run after
      | (.error failure, after) => (.error failure, after) := by
  have unfolded : (first >>= next).run.run before =
      (ExceptT.bindCont next (first.run.run before).1).run (first.run.run before).2 := rfl
  rw [unfolded]
  rcases first.run.run before with ⟨_ | _, after⟩ <;> rfl

theorem Gives.bind {first : Step α} {next : α → Step β} {result : β}
    (gives : Gives (first >>= next) result) :
    ∃ middle, Gives first middle ∧ Gives (next middle) result := by
  obtain ⟨before, same⟩ := gives
  rw [run_bind] at same
  rcases start : first.run.run before with ⟨failure | middle, after⟩
  · rw [start] at same
    cases same
  · rw [start] at same
    exact ⟨middle, ⟨before, congrArg Prod.fst start⟩, ⟨after, same⟩⟩

theorem Yields.of_pure (a : α) : Yields (pure a) a := Always.of_pure (Except.ok a)

theorem Yields.bind {first : Step α} {next : α → Step β} {middle : α} {result : β}
    (start : Yields first middle) (rest : Yields (next middle) result) :
    Yields (first >>= next) result := by
  intro before
  have same : (first.run.run before).1 = .ok middle := start before
  rw [run_bind]
  rcases ran : first.run.run before with ⟨outcome, after⟩
  rw [ran] at same
  cases same
  exact rest after

theorem Yields.gives {step : Step α} {result : α} (yields : Yields step result) :
    Gives step result :=
  Always.ends yields

/-! ## Actions as steps -/

theorem Gives.lift {action : StateM Trail α} {result : α}
    (gives : Gives (ExceptT.lift action : Step α) result) : Ends action result := by
  obtain ⟨before, same⟩ := gives
  exact ⟨before, Except.ok.inj same⟩

theorem Yields.lift {action : StateM Trail α} {result : α} (always : Always action result) :
    Yields (ExceptT.lift action : Step α) result :=
  fun before => congrArg Except.ok (always before)

/-! ## Steps that fail -/

theorem not_gives_raise (failure : Failure) (result : α) : ¬ Gives (raise failure) result := by
  rintro ⟨_, same⟩
  cases same

theorem not_gives_settle (failure : Failure) (result : α) : ¬ Gives (settle failure) result := by
  rintro ⟨_, same⟩
  cases same

theorem not_gives_raiseSettled (failure : Failure) (result : α) :
    ¬ Gives (raiseSettled failure) result := by
  rintro ⟨_, same⟩
  cases same

/-! ## Steps that only leave a trail -/

theorem yields_note (failure : Failure) : Yields (note failure) () := fun _ => rfl

end Step

end Mixfix
