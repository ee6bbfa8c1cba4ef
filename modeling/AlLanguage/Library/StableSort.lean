import Mathlib

/-!
# Stable sorting by a key

- The sorted list has the items of each key in their order.
- So two lists sort to the same list when they agree on the items of each key.
-/

namespace AlLanguage.Library

universe u v

variable {α : Type u} {κ : Type v} [LinearOrder κ] (key : α → κ)

def sortBy (items : List α) : List α := items.insertionSort (key · ≤ key ·)

theorem sortBy_perm (items : List α) : (sortBy key items).Perm items := List.perm_insertionSort _ items

theorem mem_sortBy {items : List α} {a : α} : a ∈ sortBy key items ↔ a ∈ items := List.mem_insertionSort _

theorem sortBy_ordered (items : List α) : (sortBy key items).Pairwise (key · ≤ key ·) := by
  have total : Std.Total fun a b : α => key a ≤ key b := ⟨fun a b => le_total _ _⟩
  have transitive : IsTrans α fun a b => key a ≤ key b := ⟨fun a b c => le_trans⟩
  exact List.pairwise_insertionSort _ items

theorem filter_orderedInsert_key (k : κ) (a : α) (items : List α) :
    (items.orderedInsert (key · ≤ key ·) a).filter (key · = k) = (a :: items).filter (key · = k) := by
  induction items with
  | nil => rfl
  | cons b rest ih =>
      rw [List.orderedInsert_cons]
      split
      · rfl
      next after =>
          have less : key b < key a := not_le.mp after
          rw [List.filter_cons, ih]
          by_cases here : key b = k
          · have other : ¬key a = k := fun same => absurd less (by rw [here, same]; exact lt_irrefl _)
            simp [here, other]
          · simp [List.filter_cons, here]

/-- The order of items with one key is kept. -/
theorem filter_sortBy (k : κ) (items : List α) : (sortBy key items).filter (key · = k) = items.filter (key · = k) := by
  induction items with
  | nil => rfl
  | cons a rest ih =>
      rw [sortBy, List.insertionSort_cons, filter_orderedInsert_key, List.filter_cons, List.filter_cons, ← sortBy, ih]

/-- Ordered lists that agree on the items of each key are equal. -/
theorem ordered_ext {items items' : List α} (ordered : items.Pairwise (key · ≤ key ·))
    (ordered' : items'.Pairwise (key · ≤ key ·))
    (same : ∀ k, items.filter (key · = k) = items'.filter (key · = k)) : items = items' := by
  induction items generalizing items' with
  | nil =>
      cases items' with
      | nil => rfl
      | cons b rest' =>
          have first := same (key b)
          simp at first
  | cons a rest ih =>
      obtain ⟨low, behind⟩ := List.pairwise_cons.mp ordered
      cases items' with
      | nil =>
          have first := same (key a)
          simp at first
      | cons b rest' =>
          obtain ⟨low', behind'⟩ := List.pairwise_cons.mp ordered'
          have keys : key a = key b := by
            apply le_antisymm
            · have member : b ∈ (a :: rest).filter (key · = key b) := by
                rw [same]
                simp
              rcases List.mem_cons.mp (List.mem_filter.mp member).1 with rfl | later
              · exact le_refl _
              · exact low b later
            · have member : a ∈ (b :: rest').filter (key · = key a) := by
                rw [← same]
                simp
              rcases List.mem_cons.mp (List.mem_filter.mp member).1 with rfl | later
              · exact le_refl _
              · exact low' a later
          have heads := same (key a)
          rw [List.filter_cons_of_pos (by simp), List.filter_cons_of_pos (by simp [keys])] at heads
          obtain ⟨rfl, _⟩ := List.cons.inj heads
          congr 1
          apply ih behind behind'
          intro k
          have parts := same k
          by_cases here : key a = k
          · rw [List.filter_cons_of_pos (by simp [here]), List.filter_cons_of_pos (by simp [here])] at parts
            exact (List.cons.inj parts).2
          · rwa [List.filter_cons_of_neg (by simp [here]), List.filter_cons_of_neg (by simp [here])] at parts

theorem sortBy_congr {items items' : List α} (same : ∀ k, items.filter (key · = k) = items'.filter (key · = k)) :
    sortBy key items = sortBy key items' := by
  apply ordered_ext key (sortBy_ordered key items) (sortBy_ordered key items')
  intro k
  rw [filter_sortBy, filter_sortBy, same]

end AlLanguage.Library
