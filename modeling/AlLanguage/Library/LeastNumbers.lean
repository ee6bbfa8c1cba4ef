import Mathlib

/-!
# The least members of a set

- `Least count numbers free`: the list holds the first `count` members of a set in ascending order, or all of them.
- A list that grows by the members of larger and larger sets stays one of least members.
- When a set loses members, the list is still right if enough members lie below each lost one.
-/

namespace AlLanguage.Library

variable {α : Type*} [LinearOrder α] {count : Nat} {numbers more : Set α} {free : List α}

structure Least (count : Nat) (numbers : Set α) (free : List α) : Prop where
  ascending : free.Pairwise (· < ·)
  inside : ∀ n ∈ free, n ∈ numbers
  few : free.length ≤ count
  below : ∀ n ∈ numbers, n ∉ free → free.length = count ∧ ∀ m ∈ free, m < n

theorem encard_members (ascending : free.Pairwise (· < ·)) : {n | n ∈ free}.encard = free.length := by
  have distinct : free.Nodup := ascending.imp fun {a b} less => ne_of_lt less
  rw [← List.coe_toFinset, Set.encard_coe_eq_coe_finsetCard, List.toFinset_card_of_nodup distinct]

namespace Least

theorem nil (count : Nat) : Least count (∅ : Set α) [] where
  ascending := List.Pairwise.nil
  inside n member := by cases member
  few := Nat.zero_le count
  below n member := by cases member

theorem push {c : α} (least : Least count numbers free) (room : free.length < count) (above : ∀ m ∈ free, m < c) :
    Least count (insert c numbers) (free ++ [c]) where
  ascending := by
    rw [List.pairwise_append]
    refine ⟨least.ascending, List.pairwise_singleton .., ?_⟩
    intro m member n last
    obtain rfl := List.mem_singleton.mp last
    exact above m member
  inside n member := by
    rcases List.mem_append.mp member with old | last
    · exact .inr (least.inside n old)
    · exact .inl (List.mem_singleton.mp last)
  few := by
    rw [List.length_append, List.length_singleton]
    exact room
  below n member absent := by
    rw [List.mem_append, not_or, List.mem_singleton] at absent
    have full := (least.below n (member.resolve_left absent.2) absent.1).1
    omega

/-- Members above a full list change nothing. -/
theorem extend (least : Least count numbers free) (full : free.length = count) (larger : numbers ⊆ more)
    (above : ∀ n ∈ more, n ∉ numbers → ∀ m ∈ free, m < n) : Least count more free where
  ascending := least.ascending
  inside n member := larger (least.inside n member)
  few := least.few
  below n member absent := by
    refine ⟨full, ?_⟩
    by_cases old : n ∈ numbers
    · exact (least.below n old absent).2
    · exact above n member old

theorem members (least : Least count numbers free) (room : free.length < count) : numbers = {n | n ∈ free} := by
  ext n
  constructor
  · intro member
    by_contra absent
    have full := (least.below n member absent).1
    omega
  · exact least.inside n

theorem short_iff (least : Least count numbers free) : free.length < count ↔ numbers.encard < count := by
  constructor
  · intro room
    rw [least.members room, encard_members least.ascending]
    exact_mod_cast room
  · intro small
    have within := Set.encard_le_encard (show {n | n ∈ free} ⊆ numbers from least.inside)
    rw [encard_members least.ascending] at within
    exact_mod_cast within.trans_lt small

theorem eq_nil_iff (least : Least count numbers free) (positive : 0 < count) : free = [] ↔ numbers = ∅ := by
  constructor
  · intro nothing
    have all := least.members (by rw [nothing]; exact positive)
    rw [all, nothing]
    exact Set.eq_empty_of_forall_notMem fun n member => by cases member
  · intro nothing
    apply List.eq_nil_iff_forall_not_mem.mpr
    intro n member
    have inside := least.inside n member
    rw [nothing] at inside
    exact inside

theorem of_lost_iff (least : Least count more free) (smaller : numbers ⊆ more) :
    Least count numbers free ↔ ∀ n ∈ more, n ∉ numbers → (count : ℕ∞) ≤ {m ∈ numbers | m < n}.encard := by
  constructor
  · intro kept n member lost
    have absent : n ∉ free := fun inside => lost (kept.inside n inside)
    obtain ⟨full, above⟩ := least.below n member absent
    have within : {m | m ∈ free} ⊆ {m ∈ numbers | m < n} := fun m inside => ⟨kept.inside m inside, above m inside⟩
    have size := Set.encard_le_encard within
    rwa [encard_members least.ascending, full] at size
  · intro enough
    constructor
    · exact least.ascending
    · intro n inside
      by_contra lost
      have within : {m ∈ numbers | m < n} ⊆ {m | m ∈ free.filter (· < n)} := by
        intro m member
        have listed : m ∈ free := by
          by_contra absent
          exact absurd member.2 (not_lt_of_gt ((least.below m (smaller member.1) absent).2 n inside))
        exact List.mem_filter.mpr ⟨listed, decide_eq_true member.2⟩
      have size := (enough n (least.inside n inside) lost).trans (Set.encard_le_encard within)
      rw [encard_members (least.ascending.filter _)] at size
      have fewer : (free.filter (· < n)).length < free.length := by
        apply List.length_filter_lt_length_iff_exists.mpr
        exact ⟨n, inside, by simp⟩
      have bound := least.few
      have listed : count ≤ (free.filter (· < n)).length := by exact_mod_cast size
      omega
    · exact least.few
    · exact fun n member absent => least.below n (smaller member) absent

end Least

omit [LinearOrder α] in
/-- The sizes of the parts of a union add up when no two of them meet. -/
theorem sum_card_iff [DecidableEq α] (parts : List (Finset α)) :
    (parts.foldr (· ∪ ·) ∅).card ≤ (parts.map Finset.card).sum ∧
      ((parts.map Finset.card).sum = (parts.foldr (· ∪ ·) ∅).card ↔ parts.Pairwise Disjoint) := by
  induction parts with
  | nil => simp
  | cons part rest ih =>
      obtain ⟨atMost, exact_iff⟩ := ih
      have joined := Finset.card_union_le part (rest.foldr (· ∪ ·) ∅)
      have apart : Disjoint part (rest.foldr (· ∪ ·) ∅) ↔ ∀ other ∈ rest, Disjoint part other := by
        clear exact_iff atMost joined
        induction rest with
        | nil => simp
        | cons other rest ih => rw [List.foldr_cons, Finset.disjoint_union_right, ih, List.forall_mem_cons]
      rw [List.map_cons, List.sum_cons, List.foldr_cons, List.pairwise_cons, ← apart, ← exact_iff,
        ← Finset.card_union_eq_card_add_card]
      refine ⟨by omega, ?_⟩
      omega

end AlLanguage.Library
