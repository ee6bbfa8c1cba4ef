import Mathlib

/-!
# Ranks in an increasing list

How many members are not beyond a mark, and which is the first one beyond it.
-/

namespace AlLanguage.Library

universe u

variable {α : Type u} [LinearOrder α]

/-- The members up to a mark, counted. -/
def rank (items : List α) (mark : WithBot α) : Nat := (items.takeWhile fun a : α => (a : WithBot α) ≤ mark).length

def Beyond (items : List α) (mark : WithBot α) : Set α := { a | a ∈ items ∧ mark < a }

variable {items : List α} {mark : WithBot α} {a : α}

@[simp] theorem rank_of_bot (items : List α) : rank items ⊥ = 0 := by
  cases items <;> simp [rank]

theorem isLeast_beyond_cons {first : α} (later : ∀ b ∈ items, first < b) (above : mark < first) : IsLeast (Beyond (first :: items) mark) first := by
  refine ⟨⟨List.mem_cons_self, above⟩, fun b member => ?_⟩
  rcases List.mem_cons.mp member.1 with rfl | inside
  · exact le_rfl
  · exact (later b inside).le

/-- The member after those up to a mark is the first one beyond it. -/
theorem getElem?_rank (ordered : items.Pairwise (· < ·)) : items[rank items mark]? = some a ↔ IsLeast (Beyond items mark) a := by
  induction items with
  | nil => simp [IsLeast, Beyond]
  | cons first rest ih =>
      obtain ⟨later, ordered⟩ := List.pairwise_cons.mp ordered
      by_cases within : (first : WithBot α) ≤ mark
      · have same : Beyond (first :: rest) mark = Beyond rest mark := by
          ext b
          constructor
          · rintro ⟨member, above⟩
            rcases List.mem_cons.mp member with rfl | inside
            · exact absurd above (not_lt.mpr within)
            · exact ⟨inside, above⟩
          · rintro ⟨member, above⟩
            exact ⟨List.mem_cons_of_mem _ member, above⟩
        rw [rank, List.takeWhile_cons_of_pos (by simpa using within), List.length_cons, List.getElem?_cons_succ, same]
        exact ih ordered
      · have least := isLeast_beyond_cons later (not_le.mp within)
        rw [rank, List.takeWhile_cons_of_neg (by simpa using within), List.length_nil, List.getElem?_cons_zero, Option.some.injEq]
        exact ⟨fun same => same ▸ least, fun other => least.unique other⟩

theorem beyond_eq_empty (missing : items[rank items mark]? = none) : Beyond items mark = ∅ := by
  have all : items.takeWhile (fun a : α => (a : WithBot α) ≤ mark) = items :=
    (List.takeWhile_prefix _).eq_of_length_le (List.getElem?_eq_none_iff.mp missing)
  refine Set.eq_empty_iff_forall_notMem.mpr fun a ⟨member, above⟩ => ?_
  rw [← all] at member
  have within := List.mem_takeWhile_imp (p := fun a : α => decide ((a : WithBot α) ≤ mark)) member
  exact absurd (of_decide_eq_true within) (not_le.mpr above)

/-- The least of the least members of some sets. -/
theorem min?_leasts {κ : Type*} {keys : List κ} {least : κ → Option α} {S : κ → Set α}
    (leasts : ∀ k a, least k = some a ↔ IsLeast (S k) a) (empty : ∀ k, least k = none → S k = ∅) (a : α) :
    (keys.filterMap least).min? = some a ↔ IsLeast { b | ∃ k ∈ keys, b ∈ S k } a := by
  rw [List.min?_eq_some_iff]
  constructor
  · rintro ⟨member, below⟩
    obtain ⟨k, inside, found⟩ := List.mem_filterMap.mp member
    refine ⟨⟨k, inside, ((leasts k a).mp found).1⟩, fun b ⟨k', inside', there⟩ => ?_⟩
    cases found' : least k' with
    | none =>
        rw [empty k' found'] at there
        cases there
    | some a' => exact (below a' (List.mem_filterMap.mpr ⟨k', inside', found'⟩)).trans (((leasts k' a').mp found').2 there)
  · rintro ⟨⟨k, inside, there⟩, below⟩
    have first : IsLeast (S k) a := ⟨there, fun b there' => below ⟨k, inside, there'⟩⟩
    refine ⟨List.mem_filterMap.mpr ⟨k, inside, (leasts k a).mpr first⟩, fun b member => ?_⟩
    obtain ⟨k', inside', found'⟩ := List.mem_filterMap.mp member
    exact below ⟨k', inside', ((leasts k' b).mp found').1⟩

theorem leasts_empty {κ : Type*} {keys : List κ} {least : κ → Option α} {S : κ → Set α} (empty : ∀ k, least k = none → S k = ∅)
    (missing : (keys.filterMap least).min? = none) : { b | ∃ k ∈ keys, b ∈ S k } = ∅ := by
  refine Set.eq_empty_iff_forall_notMem.mpr fun b ⟨k, inside, there⟩ => ?_
  rw [empty k (List.filterMap_eq_nil_iff.mp (List.min?_eq_none_iff.mp missing) k inside)] at there
  cases there

/-- The members after the first `n`. -/
theorem mem_drop_iff (ordered : items.Pairwise (· < ·)) (n : Nat) : a ∈ items.drop n ↔ a ∈ items ∧ ∀ b ∈ items.take n, b < a := by
  have apart : ∀ b ∈ items.take n, ∀ c ∈ items.drop n, b < c := by
    rw [← List.take_append_drop n items, List.pairwise_append] at ordered
    exact ordered.2.2
  constructor
  · exact fun later => ⟨List.mem_of_mem_drop later, fun b first => apart b first a later⟩
  · rintro ⟨member, after⟩
    rw [← List.take_append_drop n items, List.mem_append] at member
    exact member.resolve_left fun first => lt_irrefl a (after a first)

theorem isLeast_drop (ordered : items.Pairwise (· < ·)) {n : Nat} (found : items[n]? = some a) : IsLeast { b | b ∈ items.drop n } a := by
  obtain ⟨within, rfl⟩ := List.getElem?_eq_some_iff.mp found
  have here : items.drop n = items[n] :: items.drop (n + 1) := List.drop_eq_getElem_cons within
  have later := (List.pairwise_cons.mp (here ▸ ordered.sublist (List.drop_sublist n items))).1
  rw [here]
  refine ⟨List.mem_cons_self, fun b member => ?_⟩
  rcases List.mem_cons.mp member with rfl | inside
  · exact le_rfl
  · exact (later b inside).le

theorem rank_monotone (items : List α) : Monotone (rank items) := by
  intro mark mark' le
  induction items with
  | nil => exact le_rfl
  | cons first rest ih =>
      unfold rank at ih ⊢
      by_cases within : (first : WithBot α) ≤ mark
      · rw [List.takeWhile_cons_of_pos (by simpa using within), List.takeWhile_cons_of_pos (by simpa using within.trans le)]
        simpa using ih
      · rw [List.takeWhile_cons_of_neg (by simpa using within)]
        exact Nat.zero_le _

theorem rank_of_max (items : List α) (mark mark' : WithBot α) : rank items (max mark mark') = max (rank items mark) (rank items mark') :=
  (rank_monotone items).map_max

end AlLanguage.Library
