import Mathlib

/-!
# The best item of a list

A scan keeps an item until a later one beats it. If the items are ordered totally, the one that is kept is a greatest one.
-/

namespace AlLanguage.Library

universe u

variable {α : Type u}

/-- The item that is kept in the end. -/
def champion (beats : α → α → Bool) : (best : α) → List α → α
  | best, [] => best
  | best, item :: rest => champion beats (if beats item best then item else best) rest

theorem champion_append (beats : α → α → Bool) (best : α) (items : List α) (item : α) :
    champion beats best (items ++ [item]) =
      if beats item (champion beats best items) then item else champion beats best items := by
  induction items generalizing best with
  | nil => rfl
  | cons first rest ih => exact ih _

theorem champion_mem (beats : α → α → Bool) (best : α) (items : List α) : champion beats best items ∈ best :: items := by
  induction items generalizing best with
  | nil => exact List.mem_singleton_self best
  | cons item rest ih =>
      rw [champion]
      rcases List.mem_cons.mp (ih (if beats item best then item else best)) with here | later
      · rw [here]
        split <;> simp
      · exact List.mem_cons_of_mem _ (List.mem_cons_of_mem _ later)

section Order

variable (atLeast : α → α → Bool)

/-- One item beats another if it is at least as good and not the other way round. -/
def beats (a b : α) : Bool := atLeast a b && !atLeast b a

variable {atLeast} (refl : ∀ a, atLeast a a = true) (trans : ∀ {a b c}, atLeast a b = true → atLeast b c = true → atLeast a c = true)

include refl trans

theorem champion_atLeast_best (best : α) (items : List α) : atLeast (champion (beats atLeast) best items) best = true := by
  induction items generalizing best with
  | nil => exact refl best
  | cons item rest ih =>
      rw [champion]
      apply trans (ih _)
      split
      next beaten =>
        simp only [beats, Bool.and_eq_true] at beaten
        exact beaten.1
      next => exact refl best

/-- Among items that all compare, the champion is at least as good as each one. -/
theorem champion_atLeast {best : α} {items : List α}
    (total : ∀ a ∈ best :: items, ∀ b ∈ best :: items, atLeast a b = true ∨ atLeast b a = true) {item : α}
    (member : item ∈ best :: items) : atLeast (champion (beats atLeast) best items) item = true := by
  induction items generalizing best with
  | nil =>
      rw [List.mem_singleton.mp member]
      exact refl best
  | cons next rest ih =>
      have kept : (if beats atLeast next best then next else best) ∈ best :: next :: rest := by
        split <;> simp
      have inside {a : α} (later : a ∈ (if beats atLeast next best then next else best) :: rest) : a ∈ best :: next :: rest := by
        rcases List.mem_cons.mp later with rfl | inRest
        · exact kept
        · exact List.mem_cons_of_mem _ (List.mem_cons_of_mem _ inRest)
      have laterTotal : ∀ a ∈ (if beats atLeast next best then next else best) :: rest,
          ∀ b ∈ (if beats atLeast next best then next else best) :: rest, atLeast a b = true ∨ atLeast b a = true :=
        fun a first b second => total a (inside first) b (inside second)
      have step {a : α} (both : a = best ∨ a = next) : atLeast (if beats atLeast next best then next else best) a = true := by
        have compared := total next (by simp) best (by simp)
        have nextRefl := refl next
        have bestRefl := refl best
        simp only [beats, Bool.and_eq_true, Bool.not_eq_true']
        rcases both with rfl | rfl
        · split
          next won => exact won.1
          next => exact bestRefl
        · split
          next => exact nextRefl
          next lost =>
            by_contra worse
            rw [Bool.not_eq_true] at worse
            exact lost ⟨compared.resolve_right (by rw [worse]; decide), worse⟩
      rw [champion]
      have start := champion_atLeast_best refl trans (if beats atLeast next best then next else best) rest
      rcases List.mem_cons.mp member with rfl | later
      · exact trans start (step (.inl rfl))
      · rcases List.mem_cons.mp later with rfl | inRest
        · exact trans start (step (.inr rfl))
        · exact ih laterTotal (List.mem_cons_of_mem _ inRest)

end Order

end AlLanguage.Library
