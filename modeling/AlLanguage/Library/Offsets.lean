import Mathlib

/-!
# Offsets into a list of items with sizes

An offset belongs to the item that it falls into, or to the first item that starts there or behind it. An offset in one unit of size
is translated to another one through the index of the item.
-/

namespace AlLanguage.Library

universe u

variable {α : Type u} (size size' : α → Nat)

/-- Where the item with the index starts. -/
def startOf (items : List α) (index : Nat) : Nat := ((items.take index).map size).sum

/-- The first item that starts at the offset or behind it. -/
def indexFrom : List α → (offset : Nat) → Nat
  | [], _ => 0
  | item :: rest, offset => if offset = 0 then 0 else indexFrom rest (offset - size item) + 1

/-- The item that the offset falls into. -/
def indexAt : List α → (offset : Nat) → Nat
  | [], _ => 0
  | item :: rest, offset => if offset < size item then 0 else indexAt rest (offset - size item) + 1

/-- The offset in the other unit, of the first item that starts there or behind. -/
def translate (items : List α) (offset : Nat) : Nat := startOf size' items (indexFrom size items offset)

variable {size size'}

@[simp] theorem startOf_zero (items : List α) : startOf size items 0 = 0 := by
  simp [startOf]

@[simp] theorem startOf_nil (index : Nat) : startOf size [] index = 0 := by
  simp [startOf]

@[simp] theorem startOf_cons (item : α) (rest : List α) (index : Nat) :
    startOf size (item :: rest) (index + 1) = size item + startOf size rest index := by
  simp [startOf]

theorem startOf_length (items : List α) : startOf size items items.length = (items.map size).sum := by
  rw [startOf, List.take_length]

theorem startOf_mono (items : List α) {i j : Nat} (le : i ≤ j) : startOf size items i ≤ startOf size items j := by
  induction items generalizing i j with
  | nil => simp
  | cons item rest ih =>
      cases i with
      | zero => simp
      | succ i =>
          cases j with
          | zero => omega
          | succ j =>
              have later := ih (Nat.le_of_succ_le_succ le)
              simp only [startOf_cons]
              omega

theorem indexFrom_le_length (items : List α) (offset : Nat) : indexFrom size items offset ≤ items.length := by
  induction items generalizing offset with
  | nil => exact Nat.le_refl 0
  | cons item rest ih =>
      rw [indexFrom]
      split
      · exact Nat.zero_le _
      · exact Nat.succ_le_succ (ih _)

/-- An item starts at the offset or behind it just when it is not before the index. -/
theorem indexFrom_le_iff (items : List α) (offset index : Nat) :
    indexFrom size items offset ≤ index ↔ offset ≤ startOf size items index ∨ items.length ≤ index := by
  induction items generalizing offset index with
  | nil => simp [indexFrom]
  | cons item rest ih =>
      rw [indexFrom]
      split
      next zero => simp [zero]
      next positive =>
          cases index with
          | zero => simp [positive]
          | succ index =>
              rw [Nat.add_le_add_iff_right, ih, startOf_cons, List.length_cons]
              omega

theorem indexFrom_mono (items : List α) {offset offset' : Nat} (le : offset ≤ offset') :
    indexFrom size items offset ≤ indexFrom size items offset' := by
  rw [indexFrom_le_iff]
  rcases (indexFrom_le_iff items offset' _).mp (Nat.le_refl (indexFrom size items offset')) with behind | all
  · exact .inl (Nat.le_trans le behind)
  · exact .inr all

theorem indexFrom_past (items : List α) {offset : Nat} (past : (items.map size).sum ≤ offset) (positive : ∀ item, 0 < size item) :
    indexFrom size items offset = items.length := by
  induction items generalizing offset with
  | nil => rfl
  | cons item rest ih =>
      have wide := positive item
      rw [List.map_cons, List.sum_cons] at past
      rw [indexFrom, if_neg (by omega), ih (by omega), List.length_cons]

theorem indexFrom_clamped (items : List α) (offset : Nat) (positive : ∀ item, 0 < size item) :
    indexFrom size items (min offset (items.map size).sum) = indexFrom size items offset := by
  rcases Nat.le_total offset (items.map size).sum with within | past
  · rw [Nat.min_eq_left within]
  · rw [Nat.min_eq_right past, indexFrom_past items (Nat.le_refl _) positive, indexFrom_past items past positive]

theorem indexFrom_startOf {items : List α} {index : Nat} (within : index ≤ items.length) (positive : ∀ item, 0 < size item) :
    indexFrom size items (startOf size items index) = index := by
  induction items generalizing index with
  | nil => exact (Nat.le_zero.mp within).symm
  | cons item rest ih =>
      cases index with
      | zero => simp [indexFrom]
      | succ index =>
          have wide := positive item
          rw [startOf_cons, indexFrom, if_neg (by omega), Nat.add_sub_cancel_left, ih (Nat.le_of_succ_le_succ within)]

/-- Both indices agree unless the offset lies strictly inside an item. -/
theorem indexAt_eq_indexFrom_iff (items : List α) (offset : Nat) (positive : ∀ item, 0 < size item) :
    indexAt size items offset = indexFrom size items offset ↔
      ¬∃ index < items.length, startOf size items index < offset ∧ offset < startOf size items (index + 1) := by
  induction items generalizing offset with
  | nil => simp [indexAt, indexFrom]
  | cons item rest ih =>
      have wide := positive item
      rw [indexAt, indexFrom]
      by_cases zero : offset = 0
      · simp [zero, wide]
      · rw [if_neg zero]
        by_cases inside : offset < size item
        · rw [if_pos inside]
          constructor
          · intro same
            omega
          · intro none
            exact absurd ⟨0, by simp, by simp; omega, by simp; omega⟩ none
        · rw [if_neg inside, Nat.add_right_cancel_iff, ih]
          apply not_congr
          constructor
          · rintro ⟨index, within, low, high⟩
            refine ⟨index + 1, by simpa using within, ?_, ?_⟩
            · rw [startOf_cons]
              omega
            · rw [startOf_cons]
              omega
          · rintro ⟨index, within, low, high⟩
            cases index with
            | zero =>
                rw [startOf_cons, startOf_zero] at high
                omega
            | succ index =>
                rw [startOf_cons] at low high
                exact ⟨index, by simpa using within, by omega, by omega⟩

/-- What follows the items does not count up to their end. -/
theorem indexAt_append (front back : List α) (offset : Nat) (positive : ∀ item, 0 < size item) :
    indexAt size (front ++ back) (min offset (front.map size).sum) = indexAt size front offset := by
  induction front generalizing offset with
  | nil =>
      cases back with
      | nil => simp [indexAt]
      | cons item back => simp [indexAt, positive item]
  | cons item front ih =>
      have wide := positive item
      rw [List.cons_append, indexAt, indexAt, List.map_cons, List.sum_cons]
      by_cases inside : offset < size item
      · rw [if_pos inside, if_pos (by omega)]
      · have past : min offset (size item + (front.map size).sum) - size item = min (offset - size item) (front.map size).sum := by omega
        rw [if_neg inside, if_neg (by omega), past, ih]

/-! ## Translated offsets -/

theorem translate_mono (items : List α) {offset offset' : Nat} (le : offset ≤ offset') :
    translate size size' items offset ≤ translate size size' items offset' :=
  startOf_mono items (indexFrom_mono items le)

section Positive

variable (positive : ∀ item, 0 < size item)

include positive

theorem translate_startOf {items : List α} {index : Nat} (within : index ≤ items.length) :
    translate size size' items (startOf size items index) = startOf size' items index := by
  rw [translate, indexFrom_startOf within positive]

theorem translate_past {items : List α} {offset : Nat} (past : (items.map size).sum ≤ offset) :
    translate size size' items offset = (items.map size').sum := by
  rw [translate, indexFrom_past items past positive, startOf_length]

end Positive

end AlLanguage.Library
