import Mathlib

/-!
# Runs of a machine

- `run`: a step function over a list of actions.
- `Reachable`: the states a step relation reaches.
- Invariants and simulations are shown for one step and hold over runs.
-/

namespace AlLanguage.Library.Machine

universe u v w

variable {σ : Type u} {α : Type v} {τ : Type w}

def run (step : σ → α → σ) (start : σ) (actions : List α) : σ := actions.foldl step start

@[simp] theorem run_nil (step : σ → α → σ) (start : σ) : run step start [] = start := rfl

@[simp] theorem run_cons (step : σ → α → σ) (start : σ) (action : α) (rest : List α) :
    run step start (action :: rest) = run step (step start action) rest := rfl

theorem run_append (step : σ → α → σ) (start : σ) (first second : List α) :
    run step start (first ++ second) = run step (run step start first) second := List.foldl_append

/-- What every step preserves holds after every run. -/
theorem run_invariant {step : σ → α → σ} {Inv : σ → Prop} (preserved : ∀ s a, Inv s → Inv (step s a))
    {start : σ} (initial : Inv start) (actions : List α) : Inv (run step start actions) := by
  induction actions generalizing start with
  | nil => exact initial
  | cons action rest ih => exact ih (preserved start action initial)

/-- Only the actions of the run need to preserve it. -/
theorem run_invariant_mem {step : σ → α → σ} {Inv : σ → Prop} {actions : List α}
    (preserved : ∀ s, ∀ a ∈ actions, Inv s → Inv (step s a)) {start : σ} (initial : Inv start) :
    Inv (run step start actions) := by
  induction actions generalizing start with
  | nil => exact initial
  | cons action rest ih =>
      apply ih
      · exact fun s a member => preserved s a (List.mem_cons_of_mem _ member)
      · exact preserved start action List.mem_cons_self initial

/-- Every action of the run is allowed where it is taken. -/
def Allowed (step : σ → α → σ) (allows : σ → α → Prop) (start : σ) : List α → Prop
  | [] => True
  | action :: rest => allows start action ∧ Allowed step allows (step start action) rest

instance decidableAllowed {step : σ → α → σ} {allows : σ → α → Prop} [∀ s a, Decidable (allows s a)] (start : σ) :
    (actions : List α) → Decidable (Allowed step allows start actions)
  | [] => .isTrue trivial
  | action :: rest => @instDecidableAnd _ _ _ (decidableAllowed (step start action) rest)

theorem allowed_append {step : σ → α → σ} {allows : σ → α → Prop} {start : σ} (first second : List α) :
    Allowed step allows start (first ++ second) ↔
      Allowed step allows start first ∧ Allowed step allows (run step start first) second := by
  induction first generalizing start with
  | nil => simp [Allowed]
  | cons action rest ih => simp only [List.cons_append, Allowed, ih, run_cons, and_assoc]

/-- What the invariant says of every action holds at each action of a run. -/
theorem allowed_of_invariant {step : σ → α → σ} {Inv : σ → Prop} {allows : σ → α → Prop}
    (preserved : ∀ s a, Inv s → Inv (step s a)) (permits : ∀ s a, Inv s → allows s a) {start : σ} (initial : Inv start)
    (actions : List α) : Allowed step allows start actions := by
  induction actions generalizing start with
  | nil => trivial
  | cons action rest ih => exact ⟨permits start action initial, ih (preserved start action initial)⟩

/-- A condition that implies another one where the invariant holds allows no other runs. -/
theorem allowed_mono {step : σ → α → σ} {Inv : σ → Prop} {allows allows' : σ → α → Prop}
    (preserved : ∀ s a, Inv s → Inv (step s a)) (implies : ∀ s a, Inv s → allows s a → allows' s a) {start : σ}
    (initial : Inv start) (actions : List α) (allowed : Allowed step allows start actions) :
    Allowed step allows' start actions := by
  induction actions generalizing start with
  | nil => trivial
  | cons action rest ih =>
      obtain ⟨now, later⟩ := allowed
      exact ⟨implies start action initial now, ih (preserved start action initial) later⟩

/-- Two conditions that agree where the invariant holds allow the same runs. -/
theorem allowed_congr {step : σ → α → σ} {Inv : σ → Prop} {allows allows' : σ → α → Prop}
    (preserved : ∀ s a, Inv s → Inv (step s a)) (agree : ∀ s a, Inv s → (allows s a ↔ allows' s a)) {start : σ}
    (initial : Inv start) (actions : List α) : Allowed step allows start actions ↔ Allowed step allows' start actions :=
  ⟨allowed_mono preserved (fun s a inv => (agree s a inv).mp) initial actions,
    allowed_mono preserved (fun s a inv => (agree s a inv).mpr) initial actions⟩

/-- What every allowed step preserves holds after every run of such steps. -/
theorem run_allowed {step : σ → α → σ} {allows : σ → α → Prop} {Inv : σ → Prop}
    (preserved : ∀ s a, Inv s → allows s a → Inv (step s a)) {start : σ} (initial : Inv start) (actions : List α)
    (allowed : Allowed step allows start actions) : Inv (run step start actions) := by
  induction actions generalizing start with
  | nil => exact initial
  | cons action rest ih =>
      obtain ⟨now, later⟩ := allowed
      exact ih (preserved start action initial now) later

/-- What an action has done, later actions do not undo. -/
theorem run_done {step : σ → α → σ} {Inv : σ → Prop} {Done : α → σ → Prop} {actions : List α}
    (preserved : ∀ s, ∀ a ∈ actions, Inv s → Inv (step s a)) (does : ∀ s, ∀ a ∈ actions, Inv s → Done a (step s a))
    (kept : ∀ s a, ∀ b ∈ actions, Inv s → Done a s → Done a (step s b)) {start : σ} (initial : Inv start) :
    ∀ a, Done a start ∨ a ∈ actions → Done a (run step start actions) := by
  induction actions generalizing start with
  | nil =>
      rintro a (done | inside)
      · exact done
      · cases inside
  | cons action rest ih =>
      have now := preserved start action List.mem_cons_self initial
      have later := ih (fun s a member => preserved s a (List.mem_cons_of_mem _ member))
        (fun s a member => does s a (List.mem_cons_of_mem _ member))
        (fun s a b member => kept s a b (List.mem_cons_of_mem _ member)) now
      rintro a (done | inside)
      · exact later a (.inl (kept start a action List.mem_cons_self initial done))
      · rcases List.mem_cons.mp inside with rfl | inside
        · exact later a (.inl (does start a List.mem_cons_self initial))
        · exact later a (.inr inside)

/-- Actions that change nothing where the run starts leave it there. -/
theorem run_idle {step : σ → α → σ} {start : σ} {actions : List α} (idle : ∀ a ∈ actions, step start a = start) :
    run step start actions = start := by
  induction actions with
  | nil => rfl
  | cons action rest ih =>
      rw [run_cons, idle action List.mem_cons_self]
      exact ih fun a member => idle a (List.mem_cons_of_mem _ member)

/-- Steps that can fail, and none does. -/
theorem foldlM_done {ε : Type*} {step : σ → α → Except ε σ} {Inv : σ → Prop} {Later : σ → σ → Prop} {Done : α → σ → Prop}
    (refl : ∀ s, Later s s) (trans : ∀ s t u, Later s t → Later t u → Later s u)
    (kept : ∀ a s t, Later s t → Done a s → Done a t) {items : List α}
    (does : ∀ s, ∀ a ∈ items, ∀ t, Inv s → step s a = .ok t → Inv t ∧ Later s t ∧ Done a t) {start answer : σ} (initial : Inv start)
    (answered : items.foldlM step start = .ok answer) : Inv answer ∧ Later start answer ∧ ∀ a ∈ items, Done a answer := by
  induction items generalizing start with
  | nil =>
      cases answered
      exact ⟨initial, refl _, fun a inside => by cases inside⟩
  | cons action rest ih =>
      rw [List.foldlM_cons] at answered
      cases now : step start action with
      | error e =>
          rw [now] at answered
          cases answered
      | ok next =>
          rw [now] at answered
          obtain ⟨inv, later, done⟩ := does start action List.mem_cons_self next initial now
          obtain ⟨inv', later', rest'⟩ := ih (fun s a member => does s a (List.mem_cons_of_mem _ member)) inv answered
          refine ⟨inv', trans _ _ _ later later', fun a member => ?_⟩
          rcases List.mem_cons.mp member with rfl | member
          · exact kept a _ _ later' done
          · exact rest' a member

end AlLanguage.Library.Machine
