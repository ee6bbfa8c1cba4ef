import Mathlib

/-!
# Carrying rows over

Partial functions from keys to rows, with equal keys one key, and what it means that one of them holds the
rows of another, changed and filed anew.
-/

namespace AlLanguage.Library

universe u v w

variable {κ : Type u} {ρ : Type v} {ε : Type w} [Ord κ]

/-- Every row of `before` is in `after`, changed by `change`, under the key `move` gives, and `after` has no
other rows. A row keeps its key or lies under the key of its new cells. -/
structure Carried (keyOf : ρ → Except ε κ) (before after : κ → Option ρ) (change : ρ → ρ) (move : κ → κ) : Prop where
  congr : ∀ k k', compare k k' = .eq → compare (move k) (move k') = .eq
  kept : ∀ k row, before k = some row → after (move k) = some (change row)
  onto : ∀ k' row', after k' = some row' → ∃ k row, before k = some row ∧ compare (move k) k' = .eq ∧ row' = change row
  apart : ∀ k k' row row', before k = some row → before k' = some row' → compare (move k) (move k') = .eq →
    compare k k' = .eq
  key : ∀ k row, before k = some row → (compare (move k) k = .eq ∧ keyOf (change row) = keyOf row) ∨
    ∃ own, keyOf (change row) = .ok own ∧ compare (move k) own = .eq

namespace Carried

variable [Std.TransOrd κ] {keyOf : ρ → Except ε κ} {first second third : κ → Option ρ}

/-- Rows changed in place. -/
theorem inPlace {change : ρ → ρ} (sameKey : ∀ row, keyOf (change row) = keyOf row) :
    Carried keyOf first (fun k => (first k).map change) change id where
  congr _ _ same := same
  kept k row stored := by simp [stored]
  onto k' row' stored := by
    obtain ⟨row, found, rfl⟩ := Option.map_eq_some_iff.mp stored
    exact ⟨k', row, found, Std.ReflCmp.compare_self, rfl⟩
  apart _ _ _ _ _ _ same := same
  key _ row _ := .inl ⟨Std.ReflCmp.compare_self, sameKey row⟩

theorem refl (keyOf : ρ → Except ε κ) (store : κ → Option ρ) : Carried keyOf store store id id where
  congr _ _ same := same
  kept _ _ stored := stored
  onto k row stored := ⟨k, row, stored, Std.ReflCmp.compare_self, rfl⟩
  apart _ _ _ _ _ _ same := same
  key _ _ _ := .inl ⟨Std.ReflCmp.compare_self, rfl⟩

theorem trans {change change' : ρ → ρ} {move move' : κ → κ} (left : Carried keyOf first second change move)
    (right : Carried keyOf second third change' move') : Carried keyOf first third (change' ∘ change) (move' ∘ move) where
  congr k k' same := right.congr _ _ (left.congr k k' same)
  kept k row stored := right.kept _ _ (left.kept k row stored)
  onto k' row' stored := by
    obtain ⟨middle, row, found, same, rfl⟩ := right.onto k' row' stored
    obtain ⟨k, before, start, same', rfl⟩ := left.onto middle row found
    exact ⟨k, before, start, Std.TransCmp.eq_trans (right.congr _ _ same') same, rfl⟩
  apart k k' row row' stored stored' same :=
    left.apart k k' row row' stored stored' (right.apart _ _ _ _ (left.kept k row stored) (left.kept k' row' stored') same)
  key k row stored := by
    rcases right.key _ _ (left.kept k row stored) with ⟨still, keyStill⟩ | moved
    · rcases left.key k row stored with ⟨still', keyStill'⟩ | ⟨own, ownKey, same⟩
      · exact .inl ⟨Std.TransCmp.eq_trans still still', keyStill.trans keyStill'⟩
      · exact .inr ⟨own, keyStill.trans ownKey, Std.TransCmp.eq_trans still same⟩
    · exact .inr moved

end Carried

end AlLanguage.Library
