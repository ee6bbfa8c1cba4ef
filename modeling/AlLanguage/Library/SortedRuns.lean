import AlLanguage.Library.StableSort
import Mathlib.Data.List.SplitBy

/-!
# Sorting the runs of a list

Some items of a list move. Each maximal run of them is sorted by a key, and the other items stay where they are.
-/

namespace AlLanguage.Library

universe u v

variable {α : Type u} {κ : Type v} [LinearOrder κ] (moves : α → Bool) (key : α → κ)

/-- The maximal runs of items that move. Each other item is a run of its own. -/
def runsOf (items : List α) : List (List α) := items.splitBy fun a b => moves a && moves b

def sortRuns (items : List α) : List α := (runsOf moves items).flatMap (sortBy key)

/-- A rearrangement of a run: in the order of the keys, and stable. -/
structure Arranges (run sorted : List α) : Prop where
  perm : sorted.Perm run
  ordered : sorted.Pairwise (key · ≤ key ·)
  stable : ∀ k, sorted.filter (key · = k) = run.filter (key · = k)

theorem arranges_sortBy (run : List α) : Arranges key run (sortBy key run) :=
  ⟨sortBy_perm key run, sortBy_ordered key run, fun k => filter_sortBy key k run⟩

/-! ## The sort of one run -/

@[simp] theorem sortBy_single (a : α) : sortBy key [a] = [a] := rfl

theorem sortBy_of_ordered {items : List α} (ordered : items.Pairwise (key · ≤ key ·)) : sortBy key items = items := by
  apply ordered_ext key (sortBy_ordered key items) ordered
  intro k
  exact filter_sortBy key k items

/-- A last item that no other one sorts behind stays the last one. -/
theorem sortBy_concat {front : List α} {a : α} (last : ∀ b ∈ front, key b ≤ key a) :
    sortBy key (front ++ [a]) = sortBy key front ++ [a] := by
  apply ordered_ext key (sortBy_ordered key _)
  · rw [List.pairwise_append]
    refine ⟨sortBy_ordered key front, List.pairwise_singleton _ a, ?_⟩
    intro b inside c single
    rw [List.mem_singleton.mp single]
    exact last b ((mem_sortBy key).mp inside)
  · intro k
    rw [filter_sortBy, List.filter_append, List.filter_append, filter_sortBy]

theorem map_sortBy {β : Type u} (f : β → α) (items : List β) :
    (sortBy (fun b => key (f b)) items).map f = sortBy key (items.map f) :=
  List.map_insertionSort _ _ f items fun _ _ _ _ => Iff.rfl

variable {moves}

/-! ## Cutting into runs -/

theorem runsOf_flatten (items : List α) : (runsOf moves items).flatten = items := List.flatten_splitBy _ items

theorem runsOf_of_all {run : List α} (all : ∀ a ∈ run, moves a) (filled : run ≠ []) : runsOf moves run = [run] := by
  apply List.splitBy_of_isChain filled
  apply List.Pairwise.isChain
  rw [List.pairwise_iff_forall_sublist]
  intro a b inside
  have first := all a (inside.subset (by simp))
  have second := all b (inside.subset (by simp))
  rw [first, second]
  rfl

theorem runsOf_append {front back : List α} {b : α} (stays : moves b = false) :
    runsOf moves (front ++ b :: back) = runsOf moves front ++ [b] :: runsOf moves back := by
  rw [runsOf, List.splitBy_append_cons back fun a _ => by rw [stays, Bool.and_false]]
  congr 1
  rw [← List.singleton_append, List.splitBy_append]
  · rfl
  · intro a single c _
    obtain rfl : b = a := by simpa using single
    rw [stays, Bool.false_and]

/-- A list is one run, or a run that ends at an item that stays. -/
theorem exists_firstRun (items : List α) :
    (∀ a ∈ items, moves a) ∨ ∃ run b rest, items = run ++ b :: rest ∧ (∀ a ∈ run, moves a) ∧ moves b = false := by
  induction items with
  | nil => exact .inl nofun
  | cons a items ih =>
      cases here : moves a with
      | false => exact .inr ⟨[], a, items, rfl, nofun, here⟩
      | true =>
          rcases ih with all | ⟨run, b, rest, rfl, all, stays⟩
          · exact .inl (List.forall_mem_cons.mpr ⟨here, all⟩)
          · exact .inr ⟨a :: run, b, rest, rfl, List.forall_mem_cons.mpr ⟨here, all⟩, stays⟩

@[elab_as_elim] theorem run_induction {motive : List α → Prop} (items : List α) (all : ∀ run, (∀ a ∈ run, moves a) → motive run)
    (stays : ∀ run b rest, (∀ a ∈ run, moves a) → moves b = false → motive rest → motive (run ++ b :: rest)) : motive items := by
  induction size : items.length using Nat.strong_induction_on generalizing items with
  | _ n ih =>
      rcases exists_firstRun items with one | ⟨run, b, rest, rfl, front, still⟩
      · exact all items one
      · apply stays run b rest front still
        apply ih rest.length _ rest rfl
        rw [← size, List.length_append, List.length_cons]
        omega

/-! ## The sorted runs -/

theorem sortRuns_of_all {run : List α} (all : ∀ a ∈ run, moves a) : sortRuns moves key run = sortBy key run := by
  cases run with
  | nil => rfl
  | cons a run => rw [sortRuns, runsOf_of_all all (List.cons_ne_nil a run), List.flatMap_singleton]

/-- An item that stays cuts the list into two parts that are sorted on their own. -/
theorem sortRuns_append {front back : List α} {b : α} (stays : moves b = false) :
    sortRuns moves key (front ++ b :: back) = sortRuns moves key front ++ b :: sortRuns moves key back := by
  rw [sortRuns, runsOf_append stays, List.flatMap_append, List.flatMap_cons]
  rfl

theorem sortRuns_run {run rest : List α} {b : α} (all : ∀ a ∈ run, moves a) (stays : moves b = false) :
    sortRuns moves key (run ++ b :: rest) = sortBy key run ++ b :: sortRuns moves key rest := by
  rw [sortRuns_append key stays, sortRuns_of_all key all]

theorem sortRuns_perm (items : List α) : (sortRuns moves key items).Perm items := by
  induction items using run_induction with
  | all run all =>
      rw [sortRuns_of_all key all]
      exact sortBy_perm key run
  | stays run b rest all stays ih =>
      rw [sortRuns_run key all stays]
      exact (sortBy_perm key run).append (ih.cons b)

theorem sortRuns_sortRuns (items : List α) : sortRuns moves key (sortRuns moves key items) = sortRuns moves key items := by
  have sorted (run : List α) (all : ∀ a ∈ run, moves a) : ∀ a ∈ sortBy key run, moves a :=
    fun a inside => all a ((mem_sortBy key).mp inside)
  have twice (run : List α) : sortBy key (sortBy key run) = sortBy key run := sortBy_of_ordered key (sortBy_ordered key run)
  induction items using run_induction with
  | all run all => rw [sortRuns_of_all key all, sortRuns_of_all key (sorted run all), twice]
  | stays run b rest all stays ih => rw [sortRuns_run key all stays, sortRuns_run key (sorted run all) stays, twice, ih]

end AlLanguage.Library
