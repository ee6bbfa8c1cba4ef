import Mathlib

/-!
# Closed intervals of an order

When two intervals, seen through the values of a function, hold the same values.
-/

namespace AlLanguage.Library

universe u v

variable {α : Type u} {β : Type v} [Ord α] [Std.TransOrd α]

/-- Whether `x` is in the closed interval. -/
def between (low high x : α) : Bool := (compare x low).isGE && (compare x high).isLE

theorem between_iff {low high x : α} :
    between low high x = true ↔ (compare low x).isLE = true ∧ (compare x high).isLE = true := by
  rw [between, Bool.and_eq_true, Std.OrientedCmp.isGE_iff_isLE]

theorem between_le {low high x : α} (inside : between low high x = true) : (compare low high).isLE = true :=
  Std.TransCmp.isLE_trans (between_iff.mp inside).1 (between_iff.mp inside).2

theorem between_low {low high : α} (ordered : (compare low high).isLE = true) : between low high low = true :=
  between_iff.mpr ⟨Std.ReflCmp.isLE_rfl, ordered⟩

variable {f : β → α} {low high low' high' : β}

theorem between_empty_iff : (∀ b, between (f low) (f high) (f b) = false) ↔ (compare (f low) (f high)).isLE = false := by
  constructor
  · intro empty
    rw [Bool.eq_false_iff]
    intro ordered
    have inside := between_low ordered
    rw [empty low] at inside
    cases inside
  · intro reversed b
    rw [Bool.eq_false_iff]
    intro inside
    rw [between_le inside] at reversed
    cases reversed

/-- Intervals with different lower ends agree only when both are empty. -/
theorem between_eq_iff (apart : compare (f low) (f low') ≠ .eq) :
    (∀ b, between (f low') (f high') (f b) = between (f low) (f high) (f b)) ↔
      (compare (f low) (f high)).isLE = false ∧ (compare (f low') (f high')).isLE = false := by
  constructor
  · intro same
    have nothing : (compare (f low) (f high)).isLE = false := by
      rw [Bool.eq_false_iff]
      intro ordered
      have inside : between (f low') (f high') (f low) = true := by rw [same, between_low ordered]
      have inside' : between (f low) (f high) (f low') = true := by rw [← same, between_low (between_le inside)]
      exact apart (Std.OrientedCmp.isLE_antisymm (between_iff.mp inside').1 (between_iff.mp inside).1)
    refine ⟨nothing, ?_⟩
    rw [Bool.eq_false_iff]
    intro ordered
    have inside : between (f low) (f high) (f low') = true := by rw [← same, between_low ordered]
    rw [between_le inside] at nothing
    cases nothing
  · rintro ⟨empty, empty'⟩ b
    rw [between_empty_iff.mpr empty, between_empty_iff.mpr empty']

end AlLanguage.Library
