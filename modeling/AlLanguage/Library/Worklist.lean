import Mathlib

/-!
# Closures with a queue

- A closure takes the first node of a queue and visits its targets. A target that is new is marked, and put on the queue
  when it has targets of its own.
- The queue runs empty. Then the nodes that were put on it are those that can be reached from the first ones.
-/

namespace AlLanguage.Library.Worklist

open Relation (ReflTransGen TransGen)

universe u

variable {α : Type u} [DecidableEq α]

structure Work (α : Type u) where
  visited : Finset α
  queue : List α
  reached : Finset α

/-- A target is skipped, or it is marked and put on the queue if it is to be kept. -/
def visit (skip : α) (keeps : α → Bool) (work : Work α) (target : α) : Work α :=
  if target = skip ∨ target ∈ work.visited then work
  else if keeps target then
    { visited := insert target work.visited, queue := work.queue ++ [target], reached := insert target work.reached }
  else { work with visited := insert target work.visited }

/-- The loop, for as many turns as are given. -/
def close (skip : α) (keeps : α → Bool) (targets : α → List α) : (turns : Nat) → Work α → Work α
  | 0, work => work
  | turns + 1, work =>
    match work.queue with
    | [] => work
    | node :: rest => close skip keeps targets turns ((targets node).foldl (visit skip keeps) { work with queue := rest })

/-- A step to a target that is not skipped. -/
def Step (skip : α) (targets : α → List α) (a b : α) : Prop := b ∈ targets a ∧ b ≠ skip

section Closure

variable {skip : α} {keeps : α → Bool} {targets : α → List α} {start : Finset α}

/-- What every turn keeps. -/
structure Sound (start : Finset α) (skip : α) (keeps : α → Bool) (targets : α → List α) (work : Work α) : Prop where
  first : start ⊆ work.visited
  queued : ∀ a ∈ work.queue, a ∈ work.visited
  reached_iff : ∀ a, a ∈ work.reached ↔ a ∈ work.visited ∧ a ∉ start ∧ keeps a = true
  reachable : ∀ a ∈ work.visited, a ∈ start ∨ ∃ s ∈ start, TransGen (Step skip targets) s a

/-- A node whose targets were all visited. -/
def Expanded (skip : α) (targets : α → List α) (visited : Finset α) (a : α) : Prop :=
  ∀ b ∈ targets a, b ≠ skip → b ∈ visited

theorem visit_visited (work : Work α) (target : α) :
    (visit skip keeps work target).visited = if target = skip then work.visited else insert target work.visited := by
  rw [visit]
  by_cases skipped : target = skip
  · rw [if_pos (.inl skipped), if_pos skipped]
  · by_cases old : target ∈ work.visited
    · rw [if_pos (.inr old), if_neg skipped, Finset.insert_eq_of_mem old]
    · rw [if_neg (by simp [skipped, old]), if_neg skipped]
      split <;> rfl

theorem visit_sound {work : Work α} {node target : α} (sound : Sound start skip keeps targets work)
    (known : node ∈ work.visited) (edge : target ∈ targets node) : Sound start skip keeps targets (visit skip keeps work target) := by
  by_cases settled : target = skip ∨ target ∈ work.visited
  · rw [visit, if_pos settled]
    exact sound
  obtain ⟨passed, fresh⟩ := not_or.mp settled
  have outside : target ∉ start := fun member => fresh (sound.first member)
  have visited : (visit skip keeps work target).visited = insert target work.visited := by
    rw [visit_visited, if_neg passed]
  have reachable : ∀ a ∈ insert target work.visited, a ∈ start ∨ ∃ s ∈ start, TransGen (Step skip targets) s a := by
    intro a member
    rcases Finset.mem_insert.mp member with rfl | old
    · right
      rcases sound.reachable node known with first | ⟨s, inside, path⟩
      · exact ⟨node, first, .single ⟨edge, passed⟩⟩
      · exact ⟨s, inside, path.tail ⟨edge, passed⟩⟩
    · exact sound.reachable a old
  constructor
  · rw [visited]
    exact sound.first.trans (Finset.subset_insert _ _)
  · intro a queued
    rw [visited]
    rw [visit, if_neg settled] at queued
    split at queued
    · rcases List.mem_append.mp queued with old | last
      · exact Finset.mem_insert_of_mem (sound.queued a old)
      · rw [List.mem_singleton.mp last]
        exact Finset.mem_insert_self ..
    · exact Finset.mem_insert_of_mem (sound.queued a queued)
  · intro a
    rw [visited, visit, if_neg settled, Finset.mem_insert]
    by_cases here : a = target
    · subst here
      split
      next kept => simp [kept, outside]
      next dropped =>
          rw [sound.reached_iff]
          simp [fresh, dropped]
    · split
      · rw [Finset.mem_insert, sound.reached_iff]
        simp [here]
      · rw [sound.reached_iff]
        simp [here]
  · rw [visited]
    exact reachable

theorem visits_sound {work : Work α} {node : α} {edges : List α} (sound : Sound start skip keeps targets work)
    (known : node ∈ work.visited) (edge : ∀ b ∈ edges, b ∈ targets node) :
    Sound start skip keeps targets (edges.foldl (visit skip keeps) work) ∧
      work.visited ⊆ (edges.foldl (visit skip keeps) work).visited ∧
      ∀ b ∈ edges, b ≠ skip → b ∈ (edges.foldl (visit skip keeps) work).visited := by
  induction edges generalizing work with
  | nil => exact ⟨sound, Finset.Subset.refl _, fun b member => absurd member List.not_mem_nil⟩
  | cons target rest ih =>
      have larger : work.visited ⊆ (visit skip keeps work target).visited := by
        rw [visit_visited]
        split
        · exact Finset.Subset.refl _
        · exact Finset.subset_insert _ _
      obtain ⟨sound', larger', all⟩ := ih (visit_sound sound known (edge target List.mem_cons_self)) (larger known)
        fun b member => edge b (List.mem_cons_of_mem _ member)
      refine ⟨sound', larger.trans larger', ?_⟩
      intro b member passed
      rcases List.mem_cons.mp member with rfl | later
      · apply larger'
        rw [visit_visited, if_neg passed]
        exact Finset.mem_insert_self ..
      · exact all b later passed

/-- The nodes on the queue and those that may still get there. -/
def pending (all : Finset α) (work : Work α) : Nat := work.queue.length + (all \ work.visited).card

theorem visits_pending {all : Finset α} (kept : ∀ a, keeps a = true → a ∈ all) (work : Work α) (edges : List α) :
    pending all (edges.foldl (visit skip keeps) work) ≤ pending all work := by
  induction edges generalizing work with
  | nil => exact Nat.le_refl _
  | cons target rest ih =>
      apply (ih _).trans
      rw [visit]
      split
      · exact Nat.le_refl _
      next settled =>
          obtain ⟨_, fresh⟩ := not_or.mp settled
          split
          next keeping =>
              have fewer : (all \ insert target work.visited).card < (all \ work.visited).card := by
                apply Finset.card_lt_card
                rw [Finset.ssubset_iff_of_subset (Finset.sdiff_subset_sdiff (Finset.Subset.refl _) (Finset.subset_insert _ _))]
                exact ⟨target, Finset.mem_sdiff.mpr ⟨kept target keeping, fresh⟩, by simp⟩
              rw [pending, pending, List.length_append, List.length_singleton]
              dsimp only
              omega
          · rw [pending, pending]
            dsimp only
            apply Nat.add_le_add_left
            apply Finset.card_le_card
            exact Finset.sdiff_subset_sdiff (Finset.Subset.refl _) (Finset.subset_insert _ _)

/-- Whatever is visited is on the queue or was expanded, the excepted nodes apart. -/
def Settles (skip : α) (targets : α → List α) (excepted : α → Prop) (work : Work α) : Prop :=
  ∀ a ∈ work.visited, excepted a ∨ a ∈ work.queue ∨ Expanded skip targets work.visited a

theorem visit_settles {excepted : α → Prop} {work : Work α} (target : α) (leaf : ∀ a, keeps a = false → targets a = [])
    (settles : Settles skip targets excepted work) : Settles skip targets excepted (visit skip keeps work target) := by
  have grown {a b : α} (expanded : Expanded skip targets work.visited a) :
      Expanded skip targets (insert b work.visited) a :=
    fun c edge passed => Finset.mem_insert_of_mem (expanded c edge passed)
  rw [visit]
  split
  · exact settles
  · split
    · intro a member
      rcases Finset.mem_insert.mp member with rfl | old
      · exact .inr (.inl (List.mem_append_right _ List.mem_cons_self))
      · rcases settles a old with spared | queued | expanded
        · exact .inl spared
        · exact .inr (.inl (List.mem_append_left _ queued))
        · exact .inr (.inr (grown expanded))
    next dropped =>
        intro a member
        rcases Finset.mem_insert.mp member with rfl | old
        · right
          right
          intro b edge
          rw [leaf a (Bool.eq_false_iff.mpr dropped)] at edge
          cases edge
        · rcases settles a old with spared | queued | expanded
          · exact .inl spared
          · exact .inr (.inl queued)
          · exact .inr (.inr (grown expanded))

theorem visits_settles {excepted : α → Prop} {work : Work α} (edges : List α) (leaf : ∀ a, keeps a = false → targets a = [])
    (settles : Settles skip targets excepted work) :
    Settles skip targets excepted (edges.foldl (visit skip keeps) work) := by
  induction edges generalizing work with
  | nil => exact settles
  | cons target rest ih => exact ih (visit_settles target leaf settles)

/-- The turns are enough, and the closure ends with an empty queue. -/
theorem close_settled {all : Finset α} {turns : Nat} {work : Work α} (leaf : ∀ a, keeps a = false → targets a = [])
    (kept : ∀ a, keeps a = true → a ∈ all) (sound : Sound start skip keeps targets work)
    (settles : Settles skip targets (fun _ => False) work) (enough : pending all work ≤ turns) :
    Sound start skip keeps targets (close skip keeps targets turns work) ∧
      (close skip keeps targets turns work).queue = [] ∧
      Settles skip targets (fun _ => False) (close skip keeps targets turns work) := by
  induction turns generalizing work with
  | zero =>
      have empty : work.queue = [] := by
        apply List.eq_nil_of_length_eq_zero
        rw [pending] at enough
        omega
      exact ⟨sound, empty, settles⟩
  | succ turns ih =>
      rw [close]
      cases queue : work.queue with
      | nil => exact ⟨sound, queue, settles⟩
      | cons node rest =>
          dsimp only
          have known : node ∈ work.visited := sound.queued node (by rw [queue]; exact List.mem_cons_self)
          have taken : Sound start skip keeps targets { work with queue := rest } :=
            ⟨sound.first, fun a member => sound.queued a (by rw [queue]; exact List.mem_cons_of_mem _ member),
              sound.reached_iff, sound.reachable⟩
          have open_node : Settles skip targets (· = node) { work with queue := rest } := by
            intro a member
            rcases settles a member with spared | queued | expanded
            · exact spared.elim
            · rw [queue] at queued
              rcases List.mem_cons.mp queued with here | later
              · exact .inl here
              · exact .inr (.inl later)
            · exact .inr (.inr expanded)
          obtain ⟨sound', _, all_visited⟩ := visits_sound taken known fun b member => member
          apply ih sound'
          · intro a member
            rcases visits_settles (targets node) leaf open_node a member with rfl | queued | expanded
            · exact .inr (.inr all_visited)
            · exact .inr (.inl queued)
            · exact .inr (.inr expanded)
          · apply (visits_pending kept _ _).trans
            rw [pending, queue, List.length_cons] at enough
            rw [pending]
            dsimp only
            omega

section Start

variable {all : Finset α} {turns : Nat} {queue : List α} (leaf : ∀ a, keeps a = false → targets a = [])
  (kept : ∀ a, keeps a = true → a ∈ all) (first : ∀ a, a ∈ queue ↔ a ∈ start) (enough : queue.length + all.card ≤ turns)
include leaf kept first enough

theorem close_start_settled :
    Sound start skip keeps targets (close skip keeps targets turns { visited := start, queue, reached := ∅ }) ∧
      (close skip keeps targets turns { visited := start, queue, reached := ∅ }).queue = [] ∧
      Settles skip targets (fun _ => False) (close skip keeps targets turns { visited := start, queue, reached := ∅ }) := by
  have sound : Sound start skip keeps targets { visited := start, queue, reached := ∅ } := by
    constructor
    · exact Finset.Subset.refl _
    · exact fun a member => (first a).mp member
    · intro a
      apply iff_of_false (Finset.notMem_empty a)
      exact fun member => member.2.1 member.1
    · exact fun a member => .inl member
  have settles : Settles skip targets (fun _ => False) { visited := start, queue, reached := ∅ } :=
    fun a member => .inr (.inl ((first a).mpr member))
  have bound : pending all { visited := start, queue, reached := ∅ } ≤ turns := by
    have fewer := Finset.card_le_card (@Finset.sdiff_subset _ _ all start)
    rw [pending]
    dsimp only
    omega
  exact close_settled leaf kept sound settles bound

/-- What a closure reaches from a queue of the first nodes. -/
theorem close_reached (a : α) :
    a ∈ (close skip keeps targets turns { visited := start, queue, reached := ∅ }).reached ↔
      keeps a = true ∧ a ∉ start ∧ ∃ s ∈ start, TransGen (Step skip targets) s a := by
  obtain ⟨sound', empty, settles'⟩ := close_start_settled leaf kept first enough
  rw [sound'.reached_iff]
  constructor
  · rintro ⟨visited, outside, keeping⟩
    exact ⟨keeping, outside, (sound'.reachable a visited).resolve_left outside⟩
  · rintro ⟨keeping, outside, s, inside, path⟩
    refine ⟨?_, outside, keeping⟩
    have next {b c : α} (visited : b ∈ (close skip keeps targets turns { visited := start, queue, reached := ∅ }).visited)
        (step : Step skip targets b c) :
        c ∈ (close skip keeps targets turns { visited := start, queue, reached := ∅ }).visited := by
      rcases settles' b visited with spared | queued | expanded
      · exact spared.elim
      · rw [empty] at queued
        cases queued
      · exact expanded c step.1 step.2
    clear outside keeping
    induction path with
    | single step => exact next (sound'.first inside) step
    | tail _ step ih => exact next ih step

end Start

end Closure

end AlLanguage.Library.Worklist
