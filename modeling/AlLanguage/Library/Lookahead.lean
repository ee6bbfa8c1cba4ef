import Mathlib

/-!
# Machines that look one item ahead

A machine gives each item of a list a kind. It sees the item, the next one and its own mode.
-/

namespace AlLanguage.Library

universe u

variable {α κ σ : Type u} (step : σ → α → Option α → κ × σ)

/-- The kinds of the items and the mode behind them. -/
def labels : σ → List α → List κ × σ
  | mode, [] => ([], mode)
  | mode, item :: rest =>
      let (kind, next) := step mode item rest.head?
      let (kinds, last) := labels next rest
      (kind :: kinds, last)

variable {step}

@[simp] theorem labels_nil (mode : σ) : labels step mode [] = ([], mode) := rfl

theorem labels_cons (mode : σ) (item : α) (rest : List α) : labels step mode (item :: rest) =
    ((step mode item rest.head?).1 :: (labels step (step mode item rest.head?).2 rest).1,
      (labels step (step mode item rest.head?).2 rest).2) := rfl

theorem length_labels (mode : σ) (items : List α) : (labels step mode items).1.length = items.length := by
  induction items generalizing mode with
  | nil => rfl
  | cons item rest ih => rw [labels_cons, List.length_cons, List.length_cons, ih]

/-- The machine goes on behind an item that it sees ahead like the end. -/
theorem labels_append {border : α} (blind : ∀ mode item, step mode item (some border) = step mode item none) (mode : σ)
    (front rest : List α) : labels step mode (front ++ border :: rest) =
      ((labels step mode front).1 ++ (labels step (labels step mode front).2 (border :: rest)).1,
        (labels step (labels step mode front).2 (border :: rest)).2) := by
  induction front generalizing mode with
  | nil => rfl
  | cons item front ih =>
      have ahead : step mode item (front ++ border :: rest).head? = step mode item front.head? := by
        cases front with
        | nil => exact blind mode item
        | cons next front => rfl
      rw [List.cons_append, labels_cons, labels_cons, ahead, ih, List.cons_append]

/-- A mode that waits for the item ahead is left again before the end. -/
theorem labels_settled {Settled : σ → Prop} (settles : ∀ mode item ahead, Settled (step mode item ahead).2 ∨ ahead.isSome)
    {mode : σ} {items : List α} (start : Settled mode ∨ items ≠ []) : Settled (labels step mode items).2 := by
  induction items generalizing mode with
  | nil => exact start.resolve_right (fun nonempty => nonempty rfl)
  | cons item rest ih =>
      rw [labels_cons]
      apply ih
      rcases settles mode item rest.head? with settled | more
      · exact .inl settled
      · right
        rintro rfl
        cases more

end AlLanguage.Library
