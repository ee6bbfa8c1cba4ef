import Mathlib

/-!
# Breadth-first searches

A node is put on the queue when it is first met. The queue runs empty, and then the nodes that were met are those that can be
reached.
-/

namespace AlLanguage.Library.Breadth

open Relation (ReflTransGen)

universe u

variable {α : Type u} [DecidableEq α]

structure Front (α : Type u) where
  met : Finset α
  queue : List α

def meet (front : Front α) (a : α) : Front α :=
  if a ∈ front.met then front else { met := insert a front.met, queue := front.queue ++ [a] }

/-- The loop, for as many turns as are given. -/
def close (targets : α → List α) : (turns : Nat) → Front α → Front α
  | 0, front => front
  | turns + 1, front =>
    match front.queue with
    | [] => front
    | node :: rest => close targets turns ((targets node).foldl meet { front with queue := rest })

def search (targets : α → List α) (turns : Nat) (seeds : List α) : Finset α :=
  (close targets turns (seeds.foldl meet { met := ∅, queue := [] })).met

variable {targets : α → List α} {seeds : List α} {front : Front α} {a b : α}

theorem mem_meet : a ∈ (meet front b).met ↔ a = b ∨ a ∈ front.met := by
  unfold meet
  split
  next there =>
    constructor
    · exact .inr
    · rintro (rfl | inside)
      · exact there
      · exact inside
  next => exact Finset.mem_insert

theorem mem_meets (nodes : List α) (front : Front α) : a ∈ (nodes.foldl meet front).met ↔ a ∈ nodes ∨ a ∈ front.met := by
  induction nodes generalizing front with
  | nil => simp
  | cons node rest ih =>
      rw [List.foldl_cons, ih, mem_meet, List.mem_cons]
      tauto

theorem queue_subset (nodes : List α) (front : Front α) : front.queue ⊆ (nodes.foldl meet front).queue := by
  induction nodes generalizing front with
  | nil => exact fun _ inside => inside
  | cons node rest ih =>
      refine List.Subset.trans ?_ (ih (meet front node))
      unfold meet
      split
      · exact fun _ inside => inside
      · exact List.subset_append_left _ _

/-- A node that is met for the first time is queued. -/
theorem queue_meets (nodes : List α) (front : Front α) :
    ∀ a ∈ (nodes.foldl meet front).met, a ∈ front.met ∨ a ∈ (nodes.foldl meet front).queue := by
  induction nodes generalizing front with
  | nil => exact fun a inside => .inl inside
  | cons node rest ih =>
      intro a inside
      rcases ih (meet front node) a inside with before | queued
      · by_cases old : a ∈ front.met
        · exact .inl old
        · rcases mem_meet.mp before with rfl | old'
          · right
            apply queue_subset rest (meet front a)
            unfold meet
            rw [if_neg old]
            exact List.mem_append_right _ List.mem_cons_self
          · exact absurd old' old
      · exact .inr queued

theorem queued_met (nodes : List α) (front : Front α) (queued : ∀ a ∈ front.queue, a ∈ front.met) :
    ∀ a ∈ (nodes.foldl meet front).queue, a ∈ (nodes.foldl meet front).met := by
  induction nodes generalizing front with
  | nil => exact queued
  | cons node rest ih =>
      apply ih
      unfold meet
      split
      · exact queued
      · intro a inside
        rcases List.mem_append.mp inside with old | new
        · exact Finset.mem_insert_of_mem (queued a old)
        · rw [List.mem_singleton.mp new]
          exact Finset.mem_insert_self ..

/-- The nodes on the queue and those that may still get there. -/
def pending (all : Finset α) (front : Front α) : Nat := front.queue.length + (all \ front.met).card

theorem pending_meets {all : Finset α} (nodes : List α) (within : ∀ a ∈ nodes, a ∈ all) (front : Front α) :
    pending all (nodes.foldl meet front) ≤ pending all front := by
  induction nodes generalizing front with
  | nil => exact Nat.le_refl _
  | cons node rest ih =>
      refine (ih (fun a inside => within a (List.mem_cons_of_mem _ inside)) _).trans ?_
      unfold meet
      split
      · exact Nat.le_refl _
      next fresh =>
        have fewer : (all \ insert node front.met).card < (all \ front.met).card := by
          apply Finset.card_lt_card
          rw [Finset.ssubset_iff_of_subset (Finset.sdiff_subset_sdiff (Finset.Subset.refl _) (Finset.subset_insert _ _))]
          exact ⟨node, Finset.mem_sdiff.mpr ⟨within node List.mem_cons_self, fresh⟩, by simp⟩
        rw [pending, pending, List.length_append, List.length_singleton]
        dsimp only
        omega

/-- What every turn keeps. -/
structure Sound (targets : α → List α) (seeds : List α) (front : Front α) : Prop where
  first : ∀ s ∈ seeds, s ∈ front.met
  queued : ∀ a ∈ front.queue, a ∈ front.met
  reached : ∀ a ∈ front.met, ∃ s ∈ seeds, ReflTransGen (fun a b => b ∈ targets a) s a
  settled : ∀ a ∈ front.met, a ∈ front.queue ∨ ∀ b ∈ targets a, b ∈ front.met

theorem sound_turn {node : α} {rest : List α} (sound : Sound targets seeds front) (queue : front.queue = node :: rest) :
    Sound targets seeds ((targets node).foldl meet { front with queue := rest }) where
  first s inside := (mem_meets _ _).mpr (.inr (sound.first s inside))
  queued := by
    apply queued_met
    intro a inside
    apply sound.queued
    rw [queue]
    exact List.mem_cons_of_mem _ inside
  reached a inside := by
    rcases (mem_meets _ _).mp inside with new | old
    · obtain ⟨s, first, walk⟩ := sound.reached node (sound.queued node (by rw [queue]; exact List.mem_cons_self))
      exact ⟨s, first, walk.tail new⟩
    · exact sound.reached a old
  settled a inside := by
    rcases queue_meets (targets node) { front with queue := rest } a inside with old | queued
    · rcases sound.settled a old with waiting | done
      · rw [queue] at waiting
        rcases List.mem_cons.mp waiting with rfl | later
        · exact .inr fun b edge => (mem_meets _ _).mpr (.inl edge)
        · exact .inl (queue_subset (targets node) { front with queue := rest } later)
      · exact .inr fun b edge => (mem_meets _ _).mpr (.inr (done b edge))
    · exact .inl queued

/-- The queue runs empty. -/
theorem sound_close {all : Finset α} (within : ∀ a, ∀ b ∈ targets a, b ∈ all) {turns : Nat} (sound : Sound targets seeds front)
    (enough : pending all front ≤ turns) : Sound targets seeds (close targets turns front) ∧ (close targets turns front).queue = [] := by
  induction turns generalizing front with
  | zero =>
      refine ⟨sound, List.eq_nil_of_length_eq_zero ?_⟩
      rw [pending] at enough
      exact (Nat.add_eq_zero_iff.mp (Nat.le_zero.mp enough)).1
  | succ turns ih =>
      rw [close]
      cases queue : front.queue with
      | nil => exact ⟨sound, queue⟩
      | cons node rest =>
          apply ih (sound_turn sound queue)
          refine (pending_meets _ (within node) _).trans ?_
          rw [pending, queue, List.length_cons] at enough
          rw [pending]
          dsimp only
          omega

theorem sound_start : Sound targets seeds (seeds.foldl meet { met := ∅, queue := [] }) where
  first s inside := (mem_meets _ _).mpr (.inl inside)
  queued := queued_met _ _ fun a inside => by cases inside
  reached a inside := by
    rcases (mem_meets _ _).mp inside with seed | old
    · exact ⟨a, seed, .refl⟩
    · exact absurd old (Finset.notMem_empty a)
  settled a inside := by
    rcases queue_meets _ _ a inside with old | queued
    · exact absurd old (Finset.notMem_empty a)
    · exact .inl queued

theorem queue_length (nodes : List α) (front : Front α) : (nodes.foldl meet front).queue.length ≤ front.queue.length + nodes.length := by
  induction nodes generalizing front with
  | nil => exact Nat.le_refl _
  | cons node rest ih =>
      refine (ih _).trans ?_
      unfold meet
      split
      · rw [List.length_cons]
        omega
      · rw [List.length_append, List.length_singleton, List.length_cons]
        omega

/-- A search meets what can be reached from its seeds. -/
theorem mem_search {all : Finset α} (within : ∀ a, ∀ b ∈ targets a, b ∈ all) {turns : Nat} (enough : seeds.length + all.card ≤ turns) :
    a ∈ search targets turns seeds ↔ ∃ s ∈ seeds, ReflTransGen (fun a b => b ∈ targets a) s a := by
  have room : pending all (seeds.foldl meet { met := ∅, queue := [] }) ≤ turns := by
    have queue := queue_length seeds { met := ∅, queue := [] }
    have fewer := Finset.card_le_card (Finset.sdiff_subset (s := all) (t := (seeds.foldl meet { met := ∅, queue := [] }).met))
    rw [pending]
    dsimp only [List.length_nil] at queue
    omega
  obtain ⟨sound, empty⟩ := sound_close within sound_start room
  constructor
  · exact sound.reached a
  · rintro ⟨s, first, walk⟩
    induction walk with
    | refl => exact sound.first s first
    | tail _ edge ih =>
        rcases sound.settled _ ih with queued | done
        · rw [empty] at queued
          cases queued
        · exact done _ edge

end AlLanguage.Library.Breadth
