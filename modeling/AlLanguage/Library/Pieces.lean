import Mathlib

/-!
# Texts cut into pieces

A text is in the language of a pattern when it can be cut into one piece for each item of the pattern.
-/

namespace AlLanguage.Library

universe u v w x

variable {α : Type u} {β : Type v} {ρ : Type w} {ς : Type x} {takes : ρ → List α → Prop}

/-- The text is cut into consecutive pieces, and each item of the pattern takes its own. -/
def Cut (takes : ρ → List α → Prop) (pattern : List ρ) (text : List α) : Prop :=
  ∃ pieces : List (List α), pieces.flatten = text ∧ List.Forall₂ takes pattern pieces

theorem cut_nil (text : List α) : Cut takes [] text ↔ text = [] := by
  constructor
  · rintro ⟨pieces, rfl, each⟩
    cases each
    rfl
  · rintro rfl
    exact ⟨[], rfl, .nil⟩

theorem cut_cons (item : ρ) (pattern : List ρ) (text : List α) :
    Cut takes (item :: pattern) text ↔ ∃ piece rest, text = piece ++ rest ∧ takes item piece ∧ Cut takes pattern rest := by
  constructor
  · rintro ⟨pieces, rfl, each⟩
    cases each with
    | cons first others => exact ⟨_, _, rfl, first, _, rfl, others⟩
  · rintro ⟨piece, rest, rfl, first, pieces, rfl, others⟩
    exact ⟨piece :: pieces, rfl, .cons first others⟩

theorem cut_append (first second : List ρ) (text : List α) :
    Cut takes (first ++ second) text ↔ ∃ s t, text = s ++ t ∧ Cut takes first s ∧ Cut takes second t := by
  induction first generalizing text with
  | nil => simp [cut_nil]
  | cons item rest ih =>
      simp only [List.cons_append, cut_cons, ih]
      constructor
      · rintro ⟨piece, _, rfl, took, s, t, rfl, left, right⟩
        exact ⟨piece ++ s, t, (List.append_assoc piece s t).symm, ⟨piece, s, rfl, took, left⟩, right⟩
      · rintro ⟨_, t, rfl, ⟨piece, s, rfl, took, left⟩, right⟩
        exact ⟨piece, s ++ t, List.append_assoc piece s t, took, s, t, rfl, left, right⟩

theorem cut_concat (pattern : List ρ) (item : ρ) (text : List α) :
    Cut takes (pattern ++ [item]) text ↔ ∃ s piece, text = s ++ piece ∧ Cut takes pattern s ∧ takes item piece := by
  simp [cut_append, cut_cons, cut_nil]

/-- An image of the pattern takes the image of the text, if its items take images as the items do. -/
theorem cut_map {takes' : ς → List β → Prop} {f : ρ → ς} {g : α → β} {pattern : List ρ} {text : List α}
    (same : ∀ item ∈ pattern, ∀ piece, piece ⊆ text → (takes' (f item) (piece.map g) ↔ takes item piece)) :
    Cut takes' (pattern.map f) (text.map g) ↔ Cut takes pattern text := by
  induction pattern generalizing text with
  | nil => simp [cut_nil]
  | cons item rest ih =>
      have others (piece left : List α) (split : text = piece ++ left) :
          Cut takes' (rest.map f) (left.map g) ↔ Cut takes rest left := by
        apply ih
        intro item' member piece' inside
        apply same item' (List.mem_cons_of_mem _ member)
        intro x found
        rw [split]
        exact List.mem_append_right _ (inside found)
      have first (piece left : List α) (split : text = piece ++ left) : takes' (f item) (piece.map g) ↔ takes item piece := by
        apply same item List.mem_cons_self
        rw [split]
        exact List.subset_append_left piece left
      simp only [List.map_cons, cut_cons]
      constructor
      · rintro ⟨piece, left, split, took, kept⟩
        obtain ⟨piece', left', split', rfl, rfl⟩ := List.map_eq_append_iff.mp split
        exact ⟨piece', left', split', (first piece' left' split').mp took, (others piece' left' split').mp kept⟩
      · rintro ⟨piece, left, split, took, kept⟩
        refine ⟨piece.map g, left.map g, ?_, (first piece left split).mpr took, (others piece left split).mpr kept⟩
        rw [split, List.map_append]

end AlLanguage.Library
