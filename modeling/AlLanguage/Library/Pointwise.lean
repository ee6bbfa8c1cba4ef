import Mathlib

/-!
# Lists that are related place by place

What is changed at one place of both lists leaves them related.
-/

namespace AlLanguage.Library

universe u v

variable {α : Type u} {β : Type v} {r : α → β → Prop} {xs : List α} {ys : List β} {x : α} {y : β}

theorem forall₂_concat (all : List.Forall₂ r xs ys) (here : r x y) : List.Forall₂ r (xs ++ [x]) (ys ++ [y]) :=
  List.rel_append all (.cons here .nil)

theorem forall₂_insertIdx (all : List.Forall₂ r xs ys) (here : r x y) (place : Nat) :
    List.Forall₂ r (xs.insertIdx place x) (ys.insertIdx place y) := by
  induction all generalizing place with
  | nil =>
      cases place with
      | zero => exact .cons here .nil
      | succ place => exact .nil
  | cons first rest ih =>
      cases place with
      | zero => exact .cons here (.cons first rest)
      | succ place => exact .cons first (ih place)

theorem forall₂_set (all : List.Forall₂ r xs ys) (here : r x y) (place : Nat) : List.Forall₂ r (xs.set place x) (ys.set place y) := by
  induction all generalizing place with
  | nil => exact .nil
  | cons first rest ih =>
      cases place with
      | zero => exact .cons here rest
      | succ place => exact .cons first (ih place)

theorem forall₂_eraseIdx (all : List.Forall₂ r xs ys) (place : Nat) : List.Forall₂ r (xs.eraseIdx place) (ys.eraseIdx place) := by
  induction all generalizing place with
  | nil => exact .nil
  | cons first rest ih =>
      cases place with
      | zero => exact rest
      | succ place => exact .cons first (ih place)

theorem forall₂_modify {f : α → α} {g : β → β} (all : List.Forall₂ r xs ys) (maps : ∀ x y, r x y → r (f x) (g y)) (place : Nat) :
    List.Forall₂ r (xs.modify place f) (ys.modify place g) := by
  induction all generalizing place with
  | nil =>
      rw [List.modify_nil, List.modify_nil]
      exact .nil
  | cons first rest ih =>
      cases place with
      | zero => exact .cons (maps _ _ first) rest
      | succ place => exact .cons first (ih place)

end AlLanguage.Library
