import AlLanguage.Library.IndexMap
import Mathlib.Data.Finset.Card
import Mathlib.Data.Finset.Filter

/-!
# Items filed under their keys

A map from keys to lists holds each item of a set once, in the list of its key.
-/

namespace AlLanguage.Library

universe u v

variable {κ : Type u} {α : Type v} [DecidableEq κ]

namespace Filing

/-- The items filed under a key. -/
def filed (m : IndexMap κ (List α)) (k : κ) : List α := (m.get? k).getD []

def push (m : IndexMap κ (List α)) (k : κ) (a : α) : IndexMap κ (List α) := m.insert k (filed m k ++ [a])

/-- Only some items stay under a key. -/
def retainAt (keep : α → Bool) (m : IndexMap κ (List α)) (k : κ) : IndexMap κ (List α) :=
  match m.get? k with
  | some items => m.insert k (items.filter keep)
  | none => m

structure Files (m : IndexMap κ (List α)) (key : α → κ) (items : Finset α) : Prop where
  mem : ∀ k a, a ∈ filed m k ↔ a ∈ items ∧ key a = k
  once : ∀ k, (filed m k).Nodup

variable {m : IndexMap κ (List α)} {key : α → κ} {items : Finset α}

theorem files_empty : Files .empty key (∅ : Finset α) where
  mem k a := by simp [filed]
  once k := List.nodup_nil

theorem filed_push (m : IndexMap κ (List α)) (k : κ) (a : α) (other : κ) :
    filed (push m k a) other = if k = other then filed m other ++ [a] else filed m other := by
  unfold filed push
  rw [IndexMap.get?_insert]
  split
  next same => rw [same]; rfl
  next => rfl

theorem files_push [DecidableEq α] (files : Files m key items) {a : α} (fresh : a ∉ items) : Files (push m (key a) a) key (insert a items) where
  mem k b := by
    rw [filed_push, Finset.mem_insert]
    split
    next same =>
      rw [List.mem_append, List.mem_singleton, files.mem]
      constructor
      · rintro (⟨there, keyed⟩ | rfl)
        · exact ⟨.inr there, keyed⟩
        · exact ⟨.inl rfl, same⟩
      · rintro ⟨rfl | there, keyed⟩
        · exact .inr rfl
        · exact .inl ⟨there, keyed⟩
    next apart =>
      rw [files.mem]
      constructor
      · exact fun ⟨there, keyed⟩ => ⟨.inr there, keyed⟩
      · rintro ⟨rfl | there, keyed⟩
        · exact absurd keyed apart
        · exact ⟨there, keyed⟩
  once k := by
    rw [filed_push]
    split
    · refine List.nodup_append.mpr ⟨files.once k, List.nodup_singleton _, ?_⟩
      rintro b inside _ here rfl
      exact fresh (List.mem_singleton.mp here ▸ ((files.mem _ _).mp inside).1)
    · exact files.once k

theorem files_erase (files : Files m key items) (k : κ) : Files (m.erase k) key (items.filter fun a => key a ≠ k) where
  mem other a := by
    unfold filed
    rw [IndexMap.get?_erase, Finset.mem_filter]
    split
    next same =>
      refine iff_of_false List.not_mem_nil ?_
      rintro ⟨⟨_, apart⟩, keyed⟩
      exact apart (keyed.trans same.symm)
    next apart =>
      refine (files.mem other a).trans ?_
      constructor
      · rintro ⟨there, rfl⟩
        exact ⟨⟨there, fun same => apart same.symm⟩, rfl⟩
      · rintro ⟨⟨there, _⟩, keyed⟩
        exact ⟨there, keyed⟩
  once other := by
    unfold filed
    rw [IndexMap.get?_erase]
    split
    · exact List.nodup_nil
    · exact files.once other

theorem filed_retainAt (keep : α → Bool) (m : IndexMap κ (List α)) (k other : κ) :
    filed (retainAt keep m k) other = if k = other then (filed m other).filter keep else filed m other := by
  unfold filed retainAt
  split
  next found =>
    rw [IndexMap.get?_insert]
    split
    next same => rw [← same, found]; rfl
    next => rfl
  next missing =>
    split
    next same => rw [← same, missing]; rfl
    next => rfl

theorem filed_retainAts (keep : α → Bool) (ks : List κ) (other : κ) : ∀ m : IndexMap κ (List α),
    filed (ks.foldl (retainAt keep) m) other = if other ∈ ks then (filed m other).filter keep else filed m other := by
  induction ks with
  | nil => exact fun m => rfl
  | cons k rest ih =>
      intro m
      rw [List.foldl_cons, ih, filed_retainAt]
      by_cases here : k = other
      · subst here
        rw [if_pos rfl, if_pos List.mem_cons_self, List.filter_filter]
        simp
      · rw [if_neg here]
        simp [Ne.symm here]

theorem files_retainAts (files : Files m key items) (keep : α → Bool) (ks : List κ) :
    Files (ks.foldl (retainAt keep) m) key (items.filter fun a => keep a = true ∨ key a ∉ ks) where
  mem k a := by
    rw [filed_retainAts, Finset.mem_filter]
    split
    next inside =>
      rw [List.mem_filter, files.mem]
      constructor
      · exact fun ⟨⟨there, keyed⟩, kept⟩ => ⟨⟨there, .inl kept⟩, keyed⟩
      · rintro ⟨⟨there, kept | apart⟩, rfl⟩
        · exact ⟨⟨there, rfl⟩, kept⟩
        · exact absurd inside apart
    next outside =>
      rw [files.mem]
      constructor
      · rintro ⟨there, rfl⟩
        exact ⟨⟨there, .inr outside⟩, rfl⟩
      · exact fun ⟨⟨there, _⟩, keyed⟩ => ⟨there, keyed⟩
  once k := by
    rw [filed_retainAts]
    split
    · exact (files.once k).filter _
    · exact files.once k

/-- The lists together are as long as the set is large. -/
theorem Files.card_eq [DecidableEq α] (files : Files m key items) : items.card = m.weight fun _ list => list.length := by
  have lists (entry : κ × List α) (inside : entry ∈ m.entries) : filed m entry.1 = entry.2 := by
    rw [filed, (IndexMap.mem_entries_iff m entry.1 entry.2).mp inside]
    rfl
  have nodup : (m.entries.flatMap (·.2)).Nodup := by
    rw [List.nodup_flatMap]
    constructor
    · intro entry inside
      rw [← lists entry inside]
      exact files.once _
    · apply (List.pairwise_map.mp m.distinct).imp_of_mem
      intro first second inside inside' apart a member member'
      dsimp only at member member'
      rw [← lists first inside] at member
      rw [← lists second inside'] at member'
      exact apart (((files.mem _ _).mp member).2.symm.trans ((files.mem _ _).mp member').2)
  have same : items = (m.entries.flatMap (·.2)).toFinset := by
    ext a
    rw [List.mem_toFinset, List.mem_flatMap]
    constructor
    · intro there
      have member := (files.mem (key a) a).mpr ⟨there, rfl⟩
      unfold filed at member
      cases found : m.get? (key a) with
      | none =>
          rw [found] at member
          cases member
      | some list =>
          rw [found] at member
          exact ⟨(key a, list), (IndexMap.mem_entries_iff m _ _).mpr found, member⟩
    · rintro ⟨entry, inside, member⟩
      rw [← lists entry inside] at member
      exact ((files.mem _ _).mp member).1
  rw [same, List.toFinset_card_of_nodup nodup, List.length_flatMap]
  rfl

end Filing

end AlLanguage.Library
