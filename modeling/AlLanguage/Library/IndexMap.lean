import Mathlib

/-!
# Maps in the order of insertion

- A key keeps its place when its value is replaced, and a new key comes last.
- The weight of a map is the sum of the weights of its entries.
-/

namespace AlLanguage.Library

universe u v

/-! ## Lists of entries -/

namespace Entries

variable {κ : Type u} {ν : Type v} [DecidableEq κ]

def get? : List (κ × ν) → κ → Option ν
  | [], _ => none
  | (key, value) :: rest, k => if key = k then some value else get? rest k

def insert : List (κ × ν) → κ → ν → List (κ × ν)
  | [], k, v => [(k, v)]
  | (key, value) :: rest, k, v => if key = k then (key, v) :: rest else (key, value) :: insert rest k v

def erase : List (κ × ν) → κ → List (κ × ν)
  | [], _ => []
  | (key, value) :: rest, k => if key = k then rest else (key, value) :: erase rest k

def weight (f : κ → ν → Nat) (entries : List (κ × ν)) : Nat := (entries.map fun entry => f entry.1 entry.2).sum

example (k : κ) (v old : ν) (rest : List (κ × ν)) : insert ((k, old) :: rest) k v = (k, v) :: rest := by
  rw [insert]
  split
  · rfl
  · contradiction

example (k : κ) (v : ν) (rest : List (κ × ν)) : erase ((k, v) :: rest) k = rest := by
  rw [erase]
  split
  · rfl
  · contradiction

example (k : κ) (v : ν) (rest : List (κ × ν)) : get? ((k, v) :: rest) k = some v := by simp [get?]

omit [DecidableEq κ] in
@[simp] theorem weight_cons (f : κ → ν → Nat) (entry : κ × ν) (rest : List (κ × ν)) :
    weight f (entry :: rest) = f entry.1 entry.2 + weight f rest := rfl

variable {entries : List (κ × ν)}

theorem keys_insert (k : κ) (v : ν) (key : κ) :
    key ∈ (insert entries k v).map (·.1) ↔ key = k ∨ key ∈ entries.map (·.1) := by
  induction entries with
  | nil => simp [insert]
  | cons entry rest ih =>
      rw [insert]
      split
      next same =>
        simp only [List.map_cons, List.mem_cons, same]
        tauto
      next =>
        simp only [List.map_cons, List.mem_cons, ih]
        tauto

theorem keys_erase {k key : κ} (member : key ∈ (erase entries k).map (·.1)) : key ∈ entries.map (·.1) := by
  induction entries with
  | nil => exact member
  | cons entry rest ih =>
      rw [erase] at member
      split at member
      · exact List.mem_cons_of_mem _ member
      · rcases List.mem_cons.mp member with here | later
        · rw [here]
          exact List.mem_cons_self
        · exact List.mem_cons_of_mem _ (ih later)

theorem nodup_insert (distinct : (entries.map (·.1)).Nodup) (k : κ) (v : ν) :
    ((insert entries k v).map (·.1)).Nodup := by
  induction entries with
  | nil => simp [insert]
  | cons entry rest ih =>
      obtain ⟨fresh, tail⟩ := List.nodup_cons.mp distinct
      rw [insert]
      split
      next => exact distinct
      next apart =>
        rw [List.map_cons, List.nodup_cons, keys_insert]
        refine ⟨?_, ih tail⟩
        rintro (same | before)
        · exact apart same
        · exact fresh before

theorem nodup_erase (distinct : (entries.map (·.1)).Nodup) (k : κ) : ((erase entries k).map (·.1)).Nodup := by
  induction entries with
  | nil => exact distinct
  | cons entry rest ih =>
      obtain ⟨fresh, tail⟩ := List.nodup_cons.mp distinct
      rw [erase]
      split
      next => exact tail
      next =>
        rw [List.map_cons, List.nodup_cons]
        exact ⟨fun member => fresh (keys_erase member), ih tail⟩

theorem get?_insert (k : κ) (v : ν) (other : κ) :
    get? (insert entries k v) other = if k = other then some v else get? entries other := by
  induction entries with
  | nil => rfl
  | cons entry rest ih =>
      rw [insert]
      split
      next same =>
        subst same
        rw [get?, get?]
        split <;> rfl
      next apart =>
        rw [get?, ih, get?]
        by_cases here : entry.1 = other
        · rw [if_pos here, if_pos here, if_neg (fun same => apart (here.trans same.symm))]
        · rw [if_neg here, if_neg here]

theorem get?_eq_none {k : κ} (absent : k ∉ entries.map (·.1)) : get? entries k = none := by
  induction entries with
  | nil => rfl
  | cons entry rest ih =>
      rw [List.map_cons, List.mem_cons, not_or] at absent
      rw [get?, if_neg (Ne.symm absent.1)]
      exact ih absent.2

theorem get?_erase (distinct : (entries.map (·.1)).Nodup) (k other : κ) :
    get? (erase entries k) other = if k = other then none else get? entries other := by
  induction entries with
  | nil => simp [erase, get?]
  | cons entry rest ih =>
      obtain ⟨fresh, tail⟩ := List.nodup_cons.mp distinct
      rw [erase]
      split
      next same =>
        by_cases here : k = other
        · rw [if_pos here]
          exact get?_eq_none (here ▸ same ▸ fresh)
        · rw [if_neg here, get?, if_neg (fun found => here (same.symm.trans found))]
      next apart =>
        rw [get?, ih tail, get?]
        by_cases here : entry.1 = other
        · rw [if_pos here, if_pos here, if_neg (fun same => apart (here.trans same.symm))]
        · rw [if_neg here, if_neg here]

theorem weight_insert (f : κ → ν → Nat) (k : κ) (v : ν) :
    weight f (insert entries k v) + (get? entries k).elim 0 (f k) = weight f entries + f k v := by
  induction entries with
  | nil => simp [insert, get?, weight]
  | cons entry rest ih =>
      rw [insert, get?]
      split
      next same =>
        simp only [weight_cons, Option.elim, same]
        omega
      next =>
        simp only [weight_cons]
        omega

theorem weight_erase (f : κ → ν → Nat) (k : κ) :
    weight f (erase entries k) + (get? entries k).elim 0 (f k) = weight f entries := by
  induction entries with
  | nil => rfl
  | cons entry rest ih =>
      rw [erase, get?]
      split
      next same =>
        simp only [weight_cons, Option.elim, same]
        omega
      next =>
        simp only [weight_cons]
        omega

theorem get?_eq_some_of_mem {k : κ} {v : ν} (distinct : (entries.map (·.1)).Nodup) (member : (k, v) ∈ entries) :
    get? entries k = some v := by
  induction entries with
  | nil => cases member
  | cons entry rest ih =>
      obtain ⟨fresh, tail⟩ := List.nodup_cons.mp distinct
      rw [get?]
      rcases List.mem_cons.mp member with here | later
      · rw [← here, if_pos rfl]
      · rw [if_neg, ih tail later]
        intro same
        apply fresh
        show entry.1 ∈ rest.map (·.1)
        rw [same]
        exact List.mem_map_of_mem later

theorem mem_of_get? {k : κ} {v : ν} (found : get? entries k = some v) : (k, v) ∈ entries := by
  induction entries with
  | nil => cases found
  | cons entry rest ih =>
      rw [get?] at found
      split at found
      next same =>
        cases found
        rw [← same]
        exact List.mem_cons_self
      next => exact List.mem_cons_of_mem _ (ih found)

theorem insert_insert (k : κ) (v w : ν) : insert (insert entries k w) k v = insert entries k v := by
  induction entries with
  | nil => simp [insert]
  | cons entry rest ih =>
      rw [insert, insert]
      split
      next here => rw [insert, if_pos here]
      next apart => rw [insert, if_neg apart, ih]

theorem insert_same {k : κ} {v : ν} (found : get? entries k = some v) : insert entries k v = entries := by
  induction entries with
  | nil => cases found
  | cons entry rest ih =>
      obtain ⟨key, value⟩ := entry
      rw [get?] at found
      split at found
      next here =>
        cases found
        rw [insert, if_pos here]
      next apart => rw [insert, if_neg apart, ih found]

end Entries

/-! ## Maps -/

structure IndexMap (κ : Type u) (ν : Type v) where
  entries : List (κ × ν)
  distinct : (entries.map (·.1)).Nodup

namespace IndexMap

variable {κ : Type u} {ν : Type v} [DecidableEq κ]

def empty : IndexMap κ ν := ⟨[], List.nodup_nil⟩

def get? (m : IndexMap κ ν) (k : κ) : Option ν := Entries.get? m.entries k

def insert (m : IndexMap κ ν) (k : κ) (v : ν) : IndexMap κ ν := ⟨Entries.insert m.entries k v, Entries.nodup_insert m.distinct k v⟩

def erase (m : IndexMap κ ν) (k : κ) : IndexMap κ ν := ⟨Entries.erase m.entries k, Entries.nodup_erase m.distinct k⟩

def size (m : IndexMap κ ν) : Nat := m.entries.length

def values (m : IndexMap κ ν) : List ν := m.entries.map (·.2)

def weight (f : κ → ν → Nat) (m : IndexMap κ ν) : Nat := Entries.weight f m.entries

omit [DecidableEq κ] in
@[simp] theorem weight_empty (f : κ → ν → Nat) : (empty : IndexMap κ ν).weight f = 0 := rfl

@[simp] theorem get?_empty (k : κ) : (empty : IndexMap κ ν).get? k = none := rfl

@[simp] theorem get?_insert (m : IndexMap κ ν) (k : κ) (v : ν) (other : κ) :
    (m.insert k v).get? other = if k = other then some v else m.get? other := Entries.get?_insert k v other

@[simp] theorem get?_erase (m : IndexMap κ ν) (k other : κ) :
    (m.erase k).get? other = if k = other then none else m.get? other := Entries.get?_erase m.distinct k other

theorem weight_insert (f : κ → ν → Nat) (m : IndexMap κ ν) (k : κ) (v : ν) :
    (m.insert k v).weight f + (m.get? k).elim 0 (f k) = m.weight f + f k v := Entries.weight_insert f k v

theorem weight_erase (f : κ → ν → Nat) (m : IndexMap κ ν) (k : κ) :
    (m.erase k).weight f + (m.get? k).elim 0 (f k) = m.weight f := Entries.weight_erase f k

theorem mem_entries_iff (m : IndexMap κ ν) (k : κ) (v : ν) : (k, v) ∈ m.entries ↔ m.get? k = some v :=
  ⟨Entries.get?_eq_some_of_mem m.distinct, Entries.mem_of_get?⟩

omit [DecidableEq κ] in
theorem weight_add (f g : κ → ν → Nat) (m : IndexMap κ ν) :
    m.weight (fun k v => f k v + g k v) = m.weight f + m.weight g := by
  rw [weight, weight, weight]
  induction m.entries with
  | nil => rfl
  | cons entry rest ih =>
      simp only [Entries.weight_cons, ih]
      omega

/-- One entry is at most the whole. -/
theorem le_weight (f : κ → ν → Nat) {m : IndexMap κ ν} {k : κ} {v : ν} (found : m.get? k = some v) :
    f k v ≤ m.weight f := by
  have split := m.weight_erase f k
  rw [found] at split
  simp only [Option.elim] at split
  omega

/-- A positive whole has a positive part. -/
theorem exists_of_weight_pos {f : κ → ν → Nat} {m : IndexMap κ ν} (positive : 0 < m.weight f) :
    ∃ k v, m.get? k = some v ∧ 0 < f k v := by
  rw [weight, Entries.weight] at positive
  obtain ⟨part, member, some_⟩ := List.sum_pos_iff_exists_pos_nat.mp positive
  obtain ⟨entry, listed, same⟩ := List.mem_map.mp member
  refine ⟨entry.1, entry.2, (m.mem_entries_iff entry.1 entry.2).mp listed, ?_⟩
  rw [same]
  exact some_

theorem weight_congr {f g : κ → ν → Nat} {m : IndexMap κ ν} (same : ∀ k v, m.get? k = some v → f k v = g k v) :
    m.weight f = m.weight g := by
  rw [weight, weight, Entries.weight, Entries.weight]
  congr 1
  apply List.map_congr_left
  intro entry member
  exact same entry.1 entry.2 ((m.mem_entries_iff entry.1 entry.2).mp member)

/-- What is left of a map weighs the same as before, and what is gone weighs the rest. -/
theorem weight_rest {g : ν → Nat} {m m' : IndexMap κ ν}
    (kept : ∀ k v', m'.get? k = some v' → ∃ v, m.get? k = some v ∧ g v = g v') :
    m.weight (fun _ v => g v) =
      m'.weight (fun _ v => g v) + m.weight fun k v => if m'.get? k = none then g v else 0 := by
  obtain ⟨entries, distinct⟩ := m'
  induction entries generalizing m with
  | nil => simp [weight, Entries.weight, get?, Entries.get?]
  | cons entry rest ih =>
      obtain ⟨k, v'⟩ := entry
      obtain ⟨fresh, tail⟩ := List.nodup_cons.mp distinct
      have absent : (⟨rest, tail⟩ : IndexMap κ ν).get? k = none := Entries.get?_eq_none fresh
      have head : (⟨(k, v') :: rest, distinct⟩ : IndexMap κ ν).get? k = some v' := if_pos rfl
      have others : ∀ other, other ≠ k →
          (⟨(k, v') :: rest, distinct⟩ : IndexMap κ ν).get? other = (⟨rest, tail⟩ : IndexMap κ ν).get? other :=
        fun other apart => if_neg (Ne.symm apart)
      obtain ⟨v, found, same⟩ := kept k v' head
      have rest' := @ih (m.erase k) tail (by
        intro other w there
        have apart : other ≠ k := by
          intro here
          rw [here, absent] at there
          cases there
        rw [get?_erase, if_neg (Ne.symm apart)]
        exact kept other w ((others other apart).trans there))
      have split := m.weight_erase (fun _ v => g v) k
      have gone := m.weight_erase
        (fun other v => if (⟨(k, v') :: rest, distinct⟩ : IndexMap κ ν).get? other = none then g v else 0) k
      have agree : (m.erase k).weight
            (fun other v => if (⟨(k, v') :: rest, distinct⟩ : IndexMap κ ν).get? other = none then g v else 0) =
          (m.erase k).weight (fun other v => if (⟨rest, tail⟩ : IndexMap κ ν).get? other = none then g v else 0) := by
        apply weight_congr
        intro other w there
        have apart : other ≠ k := by
          intro here
          rw [here, get?_erase, if_pos rfl] at there
          cases there
        rw [others other apart]
      have cons : (⟨(k, v') :: rest, distinct⟩ : IndexMap κ ν).weight (fun _ v => g v) =
          g v' + (⟨rest, tail⟩ : IndexMap κ ν).weight (fun _ v => g v) := rfl
      rw [found] at split gone
      simp only [Option.elim, head, reduceCtorEq, if_false] at split gone
      omega

theorem insert_insert (m : IndexMap κ ν) (k : κ) (v w : ν) : (m.insert k w).insert k v = m.insert k v := by
  have same := @Entries.insert_insert _ _ _ m.entries k v w
  unfold insert
  congr 1

/-- Putting a value back leaves the map as it was. -/
theorem insert_same (m : IndexMap κ ν) {k : κ} {v : ν} (found : m.get? k = some v) : m.insert k v = m := by
  have same := Entries.insert_same found
  unfold insert
  congr 1

end IndexMap

end AlLanguage.Library
