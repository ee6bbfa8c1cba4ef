import Mathlib

/-!
# Computations on fuel

- A computation that fails has an answer too. Only one that runs out of fuel has none.
- That a computation has an answer, and what holds of it when it succeeds, follows a computation step by step.
-/

namespace AlLanguage.Library.Fueled

universe u

variable {ε ε' α β : Type u}

/-- There is an answer, and what is asked of a result holds if it is one. -/
def Ends (holds : α → Prop) (computed : ExceptT ε Option α) : Prop :=
  ∃ answer, computed.run = some answer ∧ ∀ a, answer = .ok a → holds a

variable {holds holds' : α → Prop} {later : β → Prop} {computed : ExceptT ε Option α}

theorem ends_pure {a : α} (here : holds a) : Ends (ε := ε) holds (pure a) := by
  refine ⟨.ok a, rfl, ?_⟩
  rintro b same
  cases same
  exact here

theorem ends_throw (e : ε) : Ends holds (throw e) := by
  refine ⟨.error e, rfl, ?_⟩
  rintro b same
  cases same

theorem ends_mk {answer : Except ε α} (each : ∀ a, answer = .ok a → holds a) : Ends holds (ExceptT.mk (some answer)) :=
  ⟨answer, rfl, each⟩

theorem ends_mono (ends : Ends holds computed) (weaker : ∀ a, holds a → holds' a) : Ends holds' computed := by
  obtain ⟨answer, done, each⟩ := ends
  exact ⟨answer, done, fun a same => weaker a (each a same)⟩

theorem ends_bind {next : α → ExceptT ε Option β} (first : Ends holds computed) (rest : ∀ a, holds a → Ends later (next a)) :
    Ends later (computed >>= next) := by
  obtain ⟨answer, done, each⟩ := first
  rw [Ends, ExceptT.run_bind, done]
  cases answer with
  | error e => exact ⟨.error e, rfl, fun b same => by cases same⟩
  | ok a => exact rest a (each a rfl)

theorem ends_adapt {change : ε → ε'} (ends : Ends holds computed) : Ends holds (computed.adapt change) := by
  obtain ⟨answer, done, each⟩ := ends
  have adapted : (computed.adapt change).run = computed.run.map (Except.mapError change) := rfl
  refine ⟨answer.mapError change, ?_, ?_⟩
  · rw [adapted, done]
    rfl
  · intro a same
    cases answer with
    | error e => cases same
    | ok b =>
      cases same
      exact each a rfl

/-- What holds of a result. -/
theorem Ends.holds_ok {a : α} (ends : Ends holds computed) (done : computed.run = some (.ok a)) : holds a := by
  obtain ⟨answer, is, each⟩ := ends
  rw [is] at done
  cases done
  exact each a rfl

end AlLanguage.Library.Fueled
