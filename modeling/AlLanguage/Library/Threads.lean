import AlLanguage.Library.Machine
import Mathlib.Logic.Function.Basic

/-!
# Interleaved threads

- A `System` says what one thread does next to a shared state, and what happens around the threads.
- A run takes one step of one thread at a time, in any order.
- An invariant of the shared state and an assertion for each thread, which the steps of the others keep true, hold
  after every run.
-/

namespace AlLanguage.Library.Threads

universe u v w x

/-- A thread takes atomic steps. It takes up a request when it rests. -/
structure System (σ : Type u) (θ : Type v) (ρ : Type w) (ε : Type x) where
  next : σ → θ → σ × θ
  rests : θ → Bool
  start : ρ → θ
  environment : σ → ε → σ

structure World (σ : Type u) (θ : Type v) where
  shared : σ
  threads : Nat → θ

inductive Action (ρ : Type w) (ε : Type x) where
  | start (t : Nat) (request : ρ)
  | step (t : Nat)
  | environment (event : ε)

variable {σ : Type u} {θ : Type v} {ρ : Type w} {ε : Type x}

/-- The thread that an action is about. -/
def Action.thread : Action ρ ε → Option Nat
  | .start t _ | .step t => some t
  | .environment _ => none

namespace World

def goto (world : World σ θ) (t : Nat) (state : θ) : World σ θ :=
  { world with threads := Function.update world.threads t state }

@[simp] theorem goto_shared (world : World σ θ) (t : Nat) (state : θ) : (world.goto t state).shared = world.shared := rfl

@[simp] theorem goto_self (world : World σ θ) (t : Nat) (state : θ) : (world.goto t state).threads t = state := by
  simp [goto]

theorem goto_other (world : World σ θ) {t other : Nat} (apart : other ≠ t) (state : θ) :
    (world.goto t state).threads other = world.threads other := by
  simp [goto, apart]

end World

namespace System

variable (system : System σ θ ρ ε)

def after (world : World σ θ) : Action ρ ε → World σ θ
  | .start t request => if system.rests (world.threads t) then world.goto t (system.start request) else world
  | .step t =>
      let (shared, state) := system.next world.shared (world.threads t)
      { world with shared }.goto t state
  | .environment event => { world with shared := system.environment world.shared event }

/-- Every step of the run is allowed where it is taken. -/
def Allowed (allows : World σ θ → Action ρ ε → Prop) (world : World σ θ) : List (Action ρ ε) → Prop
  | [] => True
  | action :: rest => allows world action ∧ Allowed allows (system.after world action) rest

instance decidableAllowed {allows : World σ θ → Action ρ ε → Prop} [∀ world action, Decidable (allows world action)]
    (world : World σ θ) : (actions : List (Action ρ ε)) → Decidable (system.Allowed allows world actions)
  | [] => .isTrue trivial
  | action :: rest => @instDecidableAnd _ _ _ (decidableAllowed (system.after world action) rest)

/-- The shared state is as it should be, and every thread is where its state says. -/
def Sound (inv : σ → Prop) (holds : σ → θ → Prop) (world : World σ θ) : Prop :=
  inv world.shared ∧ ∀ t, holds world.shared (world.threads t)

/-- What is to be shown of the single steps. -/
structure Stable (allows : World σ θ → Action ρ ε → Prop) (inv : σ → Prop) (holds : σ → θ → Prop) : Prop where
  start : ∀ world request, Sound inv holds world → holds world.shared (system.start request)
  step : ∀ world t shared state, Sound inv holds world → allows world (.step t) →
    system.next world.shared (world.threads t) = (shared, state) →
    inv shared ∧ holds shared state ∧ ∀ other, other ≠ t → holds shared (world.threads other)
  environment : ∀ world event, Sound inv holds world → allows world (.environment event) →
    inv (system.environment world.shared event) ∧ ∀ t, holds (system.environment world.shared event) (world.threads t)

variable {system} {allows : World σ θ → Action ρ ε → Prop} {inv : σ → Prop} {holds : σ → θ → Prop}

theorem Stable.after (stable : system.Stable allows inv holds) {world : World σ θ} (sound : Sound inv holds world)
    (action : Action ρ ε) (allowed : allows world action) : Sound inv holds (system.after world action) := by
  cases action with
  | start t request =>
      rw [System.after]
      split
      · refine ⟨sound.1, ?_⟩
        intro other
        by_cases same : other = t
        · subst same
          rw [World.goto_self]
          exact stable.start world request sound
        · rw [World.goto_other _ same]
          exact sound.2 other
      · exact sound
  | step t =>
      rcases stepped : system.next world.shared (world.threads t) with ⟨shared, state⟩
      obtain ⟨kept, own, others⟩ := stable.step world t shared state sound allowed stepped
      rw [System.after, stepped]
      refine ⟨kept, ?_⟩
      intro other
      by_cases same : other = t
      · subst same
        rw [World.goto_self]
        exact own
      · rw [World.goto_other _ same]
        exact others other same
  | environment event => exact stable.environment world event sound allowed

theorem Stable.run (stable : system.Stable allows inv holds) {world : World σ θ} (sound : Sound inv holds world)
    (actions : List (Action ρ ε)) (allowed : system.Allowed allows world actions) :
    Sound inv holds (Machine.run system.after world actions) := by
  induction actions generalizing world with
  | nil => exact sound
  | cons action rest ih =>
      obtain ⟨now, later⟩ := allowed
      exact ih (stable.after sound action now) later

/-- The run rule for an invariant that looks at several threads at once. -/
theorem run_world {Inv : World σ θ → Prop}
    (kept : ∀ world action, Inv world → allows world action → Inv (system.after world action)) {world : World σ θ}
    (initial : Inv world) (actions : List (Action ρ ε)) (allowed : system.Allowed allows world actions) :
    Inv (Machine.run system.after world actions) := by
  induction actions generalizing world with
  | nil => exact initial
  | cons action rest ih =>
      obtain ⟨now, later⟩ := allowed
      exact ih (kept world action initial now) later

theorem allowed_append {world : World σ θ} (first second : List (Action ρ ε)) :
    system.Allowed allows world (first ++ second) ↔
      system.Allowed allows world first ∧ system.Allowed allows (Machine.run system.after world first) second := by
  induction first generalizing world with
  | nil => simp [Allowed]
  | cons action rest ih => simp only [List.cons_append, Allowed, ih, Machine.run_cons, and_assoc]

theorem allowed_imp {allows' : World σ θ → Action ρ ε → Prop} (weaker : ∀ world action, allows world action → allows' world action)
    {world : World σ θ} {actions : List (Action ρ ε)} (allowed : system.Allowed allows world actions) :
    system.Allowed allows' world actions := by
  induction actions generalizing world with
  | nil => trivial
  | cons action rest ih => exact ⟨weaker world action allowed.1, ih allowed.2⟩

/-- A thread that takes no step stays where it is. -/
theorem run_other {world : World σ θ} {t : Nat} {actions : List (Action ρ ε)}
    (others : ∀ action ∈ actions, action.thread ≠ some t) :
    (Machine.run system.after world actions).threads t = world.threads t := by
  induction actions generalizing world with
  | nil => rfl
  | cons action rest ih =>
      rw [Machine.run_cons, ih fun other member => others other (List.mem_cons_of_mem _ member)]
      have apart := others action List.mem_cons_self
      cases action with
      | start u request =>
          have different : t ≠ u := fun same => apart (congrArg some same.symm)
          rw [System.after]
          split
          · exact World.goto_other _ different _
          · rfl
      | step u =>
          have different : t ≠ u := fun same => apart (congrArg some same.symm)
          exact World.goto_other _ different _
      | environment event => rfl

end System

end AlLanguage.Library.Threads
