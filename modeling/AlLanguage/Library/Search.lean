import Mathlib

/-!
# Searches with a stack

- A search takes the top of a stack, passes over what it has seen, and puts the children on the stack.
- It ends because what is on the stack and what is below the unseen nodes get fewer.
- Containment without cycles keeps that when a node is put below another one that it does not hold.
-/

namespace AlLanguage.Library.Search

open Relation (TransGen ReflTransGen)

universe u

variable {α : Type u}

/-! ## Containment -/

section Containment

variable {r r' : α → α → Prop}

theorem acyclic_mono (acyclic : ∀ a, ¬ TransGen r a a) (step : ∀ a b, r' a b → r a b) (a : α) : ¬ TransGen r' a a :=
  fun cycle => acyclic a (TransGen.mono step a a cycle)

/-- New edges from one node make no cycle when there is no way back from their ends. -/
theorem acyclic_link {parent : α} (acyclic : ∀ a, ¬ TransGen r a a)
    (step : ∀ a b, r' a b → r a b ∨ a = parent ∧ ¬ ReflTransGen r b parent) (a : α) : ¬ TransGen r' a a := by
  have path : ∀ b, TransGen r' a b → TransGen r a b ∨
      ReflTransGen r a parent ∧ ∃ child, ¬ ReflTransGen r child parent ∧ ReflTransGen r child b := by
    intro b walk
    induction walk with
    | single first =>
        rcases step _ _ first with old | ⟨rfl, apart⟩
        · exact .inl (.single old)
        · exact .inr ⟨.refl, _, apart, .refl⟩
    | tail _ last ih =>
        rcases step _ _ last with old | ⟨rfl, apart⟩
        · rcases ih with before | ⟨up, child, away, down⟩
          · exact .inl (before.tail old)
          · exact .inr ⟨up, child, away, down.tail old⟩
        · rcases ih with before | ⟨up, _⟩
          · exact .inr ⟨before.to_reflTransGen, _, apart, .refl⟩
          · exact .inr ⟨up, _, apart, .refl⟩
  intro cycle
  rcases path a cycle with old | ⟨up, child, apart, down⟩
  · exact acyclic a old
  · exact apart (down.trans up)

/-- A node that nothing holds is on no cycle, whatever it holds. -/
theorem acyclic_fresh {fresh : α} (acyclic : ∀ a, ¬ TransGen r a a) (step : ∀ a b, r' a b → r a b ∨ a = fresh)
    (unheld : ∀ a, ¬ r' a fresh) (a : α) : ¬ TransGen r' a a := by
  have path : ∀ b, TransGen r' a b → a ≠ fresh → TransGen r a b ∧ b ≠ fresh := by
    intro b walk apart
    induction walk with
    | single first =>
        refine ⟨.single ((step _ _ first).resolve_right apart), ?_⟩
        rintro rfl
        exact unheld _ first
    | tail _ last ih =>
        refine ⟨ih.1.tail ((step _ _ last).resolve_right ih.2), ?_⟩
        rintro rfl
        exact unheld _ last
  intro cycle
  have apart : a ≠ fresh := by
    rintro rfl
    obtain ⟨b, _, last⟩ := TransGen.tail'_iff.mp cycle
    exact unheld b last
  exact acyclic a (path a cycle apart).1

end Containment

/-! ## The search -/

variable [DecidableEq α] (children : α → List α)

/-- What is seen, in the order of the search. -/
def visit : Nat → List α → List α → List α
  | 0, _, seen => seen
  | _ + 1, [], seen => seen
  | turns + 1, a :: pending, seen =>
      if a ∈ seen then visit turns pending seen else visit turns (children a ++ pending) (seen ++ [a])

/-- The search for one node. -/
def finds (wanted : α) : Nat → List α → List α → Bool
  | 0, _, _ => false
  | _ + 1, [], _ => false
  | turns + 1, a :: pending, seen =>
      if a = wanted then true
      else if a ∈ seen then finds wanted turns pending seen
      else finds wanted turns (children a ++ pending) (a :: seen)

/-- Turns that are enough for what is on the stack and for what is below the unseen nodes. -/
def turnsFor (nodes : Finset α) (pending seen : List α) : Nat :=
  pending.length + ∑ a ∈ nodes with a ∉ seen, (children a).length

variable {children} {nodes : Finset α} {pending seen seen' : List α} {a wanted : α}

theorem turnsFor_seen : turnsFor children nodes (a :: pending) seen = turnsFor children nodes pending seen + 1 := by
  simp only [turnsFor, List.length_cons]
  omega

/-- An unseen node pays for its children. -/
theorem turnsFor_unseen (leaf : ∀ b ∉ nodes, children b = []) (unseen : a ∉ seen)
    (same : ∀ b, b ∈ seen' ↔ b = a ∨ b ∈ seen) :
    turnsFor children nodes (children a ++ pending) seen' + 1 = turnsFor children nodes (a :: pending) seen := by
  have split : ∑ b ∈ nodes with b ∉ seen, (children b).length =
      (children a).length + ∑ b ∈ nodes with b ∉ seen', (children b).length := by
    by_cases member : a ∈ nodes
    · have apart : {b ∈ nodes | b ∉ seen'} = {b ∈ nodes | b ∉ seen}.erase a := by
        ext b
        simp only [Finset.mem_filter, Finset.mem_erase, same]
        tauto
      rw [apart]
      exact (Finset.add_sum_erase _ _ (Finset.mem_filter.mpr ⟨member, unseen⟩)).symm
    · have kept : {b ∈ nodes | b ∉ seen'} = {b ∈ nodes | b ∉ seen} := by
        ext b
        simp only [Finset.mem_filter, same, not_or]
        constructor
        · rintro ⟨inside, _, fresh⟩
          exact ⟨inside, fresh⟩
        · rintro ⟨inside, fresh⟩
          refine ⟨inside, ?_, fresh⟩
          rintro rfl
          exact member inside
      rw [kept, leaf a member, List.length_nil, Nat.zero_add]
  simp only [turnsFor, List.length_append, List.length_cons, split]
  omega

/-- More turns than enough change nothing. -/
theorem visit_add (leaf : ∀ b ∉ nodes, children b = []) {turns : Nat} (enough : turnsFor children nodes pending seen ≤ turns)
    (more : Nat) : visit children (turns + more) pending seen = visit children turns pending seen := by
  induction turns generalizing pending seen with
  | zero =>
      have none_left : pending = [] := by
        apply List.eq_nil_of_length_eq_zero
        rw [turnsFor] at enough
        omega
      rw [none_left, Nat.zero_add]
      cases more <;> rfl
  | succ turns ih =>
      rw [Nat.succ_add]
      cases pending with
      | nil => rfl
      | cons a pending =>
          rw [visit, visit]
          split
          next => exact ih (by rw [turnsFor_seen] at enough; omega)
          next unseen =>
            have fewer := @turnsFor_unseen _ _ children nodes pending seen (seen ++ [a]) a leaf unseen (by simp [or_comm])
            exact ih (by omega)

theorem mem_visit {turns : Nat} {b : α} (member : b ∈ visit children turns pending seen) :
    b ∈ seen ∨ ∃ p ∈ pending, ReflTransGen (fun x y => y ∈ children x) p b := by
  induction turns generalizing pending seen with
  | zero => exact .inl member
  | succ turns ih =>
      cases pending with
      | nil => exact .inl member
      | cons a pending =>
          rw [visit] at member
          split at member
          next =>
            rcases ih member with before | ⟨p, inside, walk⟩
            · exact .inl before
            · exact .inr ⟨p, List.mem_cons_of_mem _ inside, walk⟩
          next =>
            rcases ih member with before | ⟨p, inside, walk⟩
            · rcases List.mem_append.mp before with before | here
              · exact .inl before
              · rw [List.mem_singleton.mp here]
                exact .inr ⟨a, List.mem_cons_self, .refl⟩
            · rcases List.mem_append.mp inside with below | later
              · exact .inr ⟨a, List.mem_cons_self, .head below walk⟩
              · exact .inr ⟨p, List.mem_cons_of_mem _ later, walk⟩

omit [DecidableEq α] in
/-- What is wanted below a seen node is below the stack as well. -/
theorem below_pending (closed : ∀ s ∈ seen, s ≠ wanted ∧ ∀ c ∈ children s, c ∈ seen ∨ c ∈ pending) (member : a ∈ seen)
    (walk : ReflTransGen (fun x y => y ∈ children x) a wanted) :
    ∃ p ∈ pending, ReflTransGen (fun x y => y ∈ children x) p wanted := by
  induction walk using ReflTransGen.head_induction_on with
  | refl => exact absurd rfl (closed _ member).1
  | head first rest ih =>
      rcases (closed _ member).2 _ first with old | waits
      · exact ih old
      · exact ⟨_, waits, rest⟩

theorem finds_iff (leaf : ∀ b ∉ nodes, children b = []) {turns : Nat} (enough : turnsFor children nodes pending seen ≤ turns)
    (closed : ∀ s ∈ seen, s ≠ wanted ∧ ∀ c ∈ children s, c ∈ seen ∨ c ∈ pending) :
    finds children wanted turns pending seen = true ↔
      ∃ p ∈ pending, ReflTransGen (fun x y => y ∈ children x) p wanted := by
  induction turns generalizing pending seen with
  | zero =>
      have none_left : pending = [] := by
        apply List.eq_nil_of_length_eq_zero
        rw [turnsFor] at enough
        omega
      simp [none_left, finds]
  | succ turns ih =>
      cases pending with
      | nil => simp [finds]
      | cons a pending =>
          rw [finds]
          split
          next here =>
            rw [here]
            exact iff_of_true rfl ⟨wanted, List.mem_cons_self, .refl⟩
          next apart =>
            split
            next old =>
              have closed' : ∀ s ∈ seen, s ≠ wanted ∧ ∀ c ∈ children s, c ∈ seen ∨ c ∈ pending := by
                intro s inside
                refine ⟨(closed s inside).1, ?_⟩
                intro c below
                rcases (closed s inside).2 c below with before | waits
                · exact .inl before
                · rcases List.mem_cons.mp waits with rfl | later
                  · exact .inl old
                  · exact .inr later
              rw [ih (by rw [turnsFor_seen] at enough; omega) closed']
              constructor
              · rintro ⟨p, inside, walk⟩
                exact ⟨p, List.mem_cons_of_mem _ inside, walk⟩
              · rintro ⟨p, inside, walk⟩
                rcases List.mem_cons.mp inside with rfl | later
                · exact below_pending closed' old walk
                · exact ⟨p, later, walk⟩
            next unseen =>
              have fewer := @turnsFor_unseen _ _ children nodes pending seen (a :: seen) a leaf unseen (by simp)
              rw [ih (by omega)]
              · constructor
                · rintro ⟨p, inside, walk⟩
                  rcases List.mem_append.mp inside with below | later
                  · exact ⟨a, List.mem_cons_self, .head below walk⟩
                  · exact ⟨p, List.mem_cons_of_mem _ later, walk⟩
                · rintro ⟨p, inside, walk⟩
                  rcases List.mem_cons.mp inside with rfl | later
                  · rcases ReflTransGen.cases_head walk with same | ⟨c, first, rest⟩
                    · exact absurd same apart
                    · exact ⟨c, List.mem_append_left _ first, rest⟩
                  · exact ⟨p, List.mem_append_right _ later, walk⟩
              · intro s inside
                rcases List.mem_cons.mp inside with rfl | old
                · exact ⟨apart, fun c below => .inr (List.mem_append_left _ below)⟩
                · refine ⟨(closed s old).1, ?_⟩
                  intro c below
                  rcases (closed s old).2 c below with before | waits
                  · exact .inl (List.mem_cons_of_mem _ before)
                  · rcases List.mem_cons.mp waits with rfl | later
                    · exact .inl List.mem_cons_self
                    · exact .inr (List.mem_append_right _ later)

omit [DecidableEq α] in
/-- The walk from a seen node leaves what is seen through the stack. -/
theorem seen_or_pending {b : α} (closed : ∀ s ∈ seen, ∀ c ∈ children s, c ∈ seen ∨ c ∈ pending) (member : a ∈ seen)
    (walk : ReflTransGen (fun x y => y ∈ children x) a b) :
    b ∈ seen ∨ ∃ p ∈ pending, ReflTransGen (fun x y => y ∈ children x) p b := by
  induction walk using ReflTransGen.head_induction_on with
  | refl => exact .inl member
  | head first rest ih =>
      rcases closed _ member _ first with old | waits
      · exact ih old
      · exact .inr ⟨_, waits, rest⟩

/-- With turns enough, a search sees what is below its stack and nothing else. -/
theorem mem_visit_iff (leaf : ∀ b ∉ nodes, children b = []) {turns : Nat} (enough : turnsFor children nodes pending seen ≤ turns)
    (closed : ∀ s ∈ seen, ∀ c ∈ children s, c ∈ seen ∨ c ∈ pending) (b : α) :
    b ∈ visit children turns pending seen ↔ b ∈ seen ∨ ∃ p ∈ pending, ReflTransGen (fun x y => y ∈ children x) p b := by
  refine ⟨mem_visit, ?_⟩
  induction turns generalizing pending seen with
  | zero =>
      have none_left : pending = [] := by
        apply List.eq_nil_of_length_eq_zero
        rw [turnsFor] at enough
        omega
      rintro (old | ⟨p, inside, _⟩)
      · exact old
      · rw [none_left] at inside
        cases inside
  | succ turns ih =>
      cases pending with
      | nil =>
          rintro (old | ⟨p, inside, _⟩)
          · exact old
          · cases inside
      | cons a pending =>
          intro below
          rw [visit]
          split
          next old =>
            have closed' : ∀ s ∈ seen, ∀ c ∈ children s, c ∈ seen ∨ c ∈ pending := by
              intro s inside c child
              rcases closed s inside c child with before | waits
              · exact .inl before
              · rcases List.mem_cons.mp waits with rfl | later
                · exact .inl old
                · exact .inr later
            apply ih (by rw [turnsFor_seen] at enough; omega) closed'
            rcases below with seen_before | ⟨p, inside, walk⟩
            · exact .inl seen_before
            · rcases List.mem_cons.mp inside with rfl | later
              · exact seen_or_pending closed' old walk
              · exact .inr ⟨p, later, walk⟩
          next unseen =>
            have fewer := @turnsFor_unseen _ _ children nodes pending seen (seen ++ [a]) a leaf unseen (by simp [or_comm])
            apply ih (by omega)
            · intro s inside c child
              rcases List.mem_append.mp inside with old | here
              · rcases closed s old c child with before | waits
                · exact .inl (List.mem_append_left _ before)
                · rcases List.mem_cons.mp waits with rfl | later
                  · exact .inl (List.mem_append_right _ List.mem_cons_self)
                  · exact .inr (List.mem_append_right _ later)
              · rw [List.mem_singleton.mp here] at child
                exact .inr (List.mem_append_left _ child)
            · rcases below with old | ⟨p, inside, walk⟩
              · exact .inl (List.mem_append_left _ old)
              · rcases List.mem_cons.mp inside with rfl | later
                · rcases ReflTransGen.cases_head walk with rfl | ⟨c, first, rest⟩
                  · exact .inl (List.mem_append_right _ List.mem_cons_self)
                  · exact .inr ⟨c, List.mem_append_left _ first, rest⟩
                · exact .inr ⟨p, List.mem_append_right _ later, walk⟩

/-- Nothing is seen twice. -/
theorem nodup_visit {turns : Nat} (nodup : seen.Nodup) : (visit children turns pending seen).Nodup := by
  induction turns generalizing pending seen with
  | zero => exact nodup
  | succ turns ih =>
      cases pending with
      | nil => exact nodup
      | cons a pending =>
          rw [visit]
          split
          next => exact ih nodup
          next unseen =>
            apply ih
            rw [List.nodup_append]
            refine ⟨nodup, List.nodup_singleton _, ?_⟩
            rintro b inside c here rfl
            exact unseen (List.mem_singleton.mp here ▸ inside)

end AlLanguage.Library.Search
