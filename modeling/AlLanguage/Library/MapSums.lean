import AlLanguage.Library.OrderedMap
import Mathlib.Algebra.BigOperators.Group.List.Basic
import Mathlib.Algebra.Group.Nat.Defs
import Mathlib.Algebra.Group.PUnit

/-!
# Sums of ordered maps

- `upsert` changes the value under a key, which is a default when the key is new.
- Maps into a commutative monoid form one themselves: their sum adds the values of common keys.
- Merging map after map, in any order, is a sum, and so is every single change that adds to a value.
-/

namespace AlLanguage.Library.OrderedMap

universe u v

variable {κ : Type u} {ν : Type v} [Ord κ]

def filterKeys (m : OrderedMap κ ν) (p : κ → Bool) : OrderedMap κ ν := m.filter fun k _ => p k

variable [Std.TransOrd κ]

/-- Change the value under a key, as `entry(key).or_insert(default)` gives it. -/
def upsert (m : OrderedMap κ ν) (k : κ) (default : ν) (f : ν → ν) : OrderedMap κ ν :=
  m.insert k (f ((m.get? k).getD default))

/-- Fold the entries of another map into a map. -/
def mergeWith (add : ν → ν → ν) (default : ν) (m other : OrderedMap κ ν) : OrderedMap κ ν :=
  other.entries.foldl (fun acc e => acc.upsert e.1 default fun v => add v e.2) m

/-- The map of one entry. -/
def single (k : κ) (v : ν) : OrderedMap κ ν := empty.insert k v

variable [Std.LawfulEqOrd κ]

omit [Std.TransOrd κ] in
theorem compare_eq_iff {k k' : κ} : compare k k' = .eq ↔ k = k' := Std.LawfulEqCmp.compare_eq_iff_eq

theorem mem_entries_iff {m : OrderedMap κ ν} {k : κ} {v : ν} : (k, v) ∈ m.entries ↔ m.get? k = some v := by
  constructor
  · exact fun member => m.get?_of_mem member
  · intro found
    obtain ⟨k', member, same⟩ := (m.get?_eq_some_iff k v).mp found
    obtain rfl := compare_eq_iff.mp same
    exact member

theorem ext_get? {m m' : OrderedMap κ ν} (same : ∀ k, m.get? k = m'.get? k) : m = m' := by
  have distinct (m : OrderedMap κ ν) : m.entries.Nodup := by
    apply m.sorted.imp
    rintro a b before rfl
    simp [Std.ReflCmp.compare_self] at before
  apply eq_of_entries
  apply List.Perm.eq_of_pairwise _ m.sorted m'.sorted
  · rw [List.perm_ext_iff_of_nodup (distinct m) (distinct m')]
    rintro ⟨k, v⟩
    rw [mem_entries_iff, mem_entries_iff, same]
  · intro a b _ _ before after
    have reversed : compare b.1 a.1 = .gt := Std.OrientedCmp.gt_iff_lt.mpr before
    rw [after] at reversed
    cases reversed

theorem get?_upsert (m : OrderedMap κ ν) (k k' : κ) (default : ν) (f : ν → ν) [Decidable (k = k')] :
    (m.upsert k default f).get? k' = if k = k' then some (f ((m.get? k').getD default)) else m.get? k' := by
  rw [upsert, get?_insert]
  by_cases same : k = k'
  · subst same
    rw [if_pos Std.ReflCmp.compare_self, if_pos rfl]
  · rw [if_neg (fun equal => same (compare_eq_iff.mp equal)), if_neg same]

theorem get?_single (k k' : κ) (v : ν) [Decidable (k = k')] :
    (single k v).get? k' = if k = k' then some v else none := by
  rw [single, get?_insert, get?_empty]
  by_cases same : k = k'
  · rw [if_pos (compare_eq_iff.mpr same), if_pos same]
  · rw [if_neg (fun equal => same (compare_eq_iff.mp equal)), if_neg same]

theorem get?_filterKeys (m : OrderedMap κ ν) (p : κ → Bool) (k : κ) :
    (m.filterKeys p).get? k = if p k then m.get? k else none := by
  apply Option.ext
  intro v
  rw [← mem_entries_iff, filterKeys, filter_entries, List.mem_filter, mem_entries_iff]
  split
  next kept => exact and_iff_left kept
  next dropped => exact iff_of_false (fun both => dropped both.2) (by simp)

theorem get?_mergeWith (add : ν → ν → ν) (default : ν) (m other : OrderedMap κ ν) (k : κ) :
    (mergeWith add default m other).get? k =
      (other.get? k).elim (m.get? k) fun v => some (add ((m.get? k).getD default) v) := by
  classical
  have folded (entries : List (κ × ν)) (sorted : entries.Pairwise fun a b => compare a.1 b.1 = .lt) :
      ∀ m : OrderedMap κ ν,
        (∀ v, (k, v) ∈ entries →
          (entries.foldl (fun acc e => acc.upsert e.1 default fun v => add v e.2) m).get? k =
            some (add ((m.get? k).getD default) v)) ∧
        ((∀ v, (k, v) ∉ entries) →
          (entries.foldl (fun acc e => acc.upsert e.1 default fun v => add v e.2) m).get? k = m.get? k) := by
    induction entries with
    | nil => exact fun m => ⟨fun v member => absurd member List.not_mem_nil, fun _ => rfl⟩
    | cons e rest ih =>
        obtain ⟨first, sorted⟩ := List.pairwise_cons.mp sorted
        intro m
        obtain ⟨present, absent⟩ := ih sorted (m.upsert e.1 default fun v => add v e.2)
        rw [get?_upsert] at present absent
        by_cases here : e.1 = k
        · have fresh : ∀ v, (k, v) ∉ rest := by
            intro v member
            have before := first (k, v) member
            rw [here, compare_eq_iff.mpr rfl] at before
            cases before
          constructor
          · intro v member
            have head : (k, v) = e := (List.mem_cons.mp member).resolve_right (fresh v)
            rw [List.foldl_cons, absent fresh, if_pos here, ← head]
          · intro missing
            exact absurd (List.mem_cons.mpr (.inl (by rw [← here]))) (missing e.2)
        · rw [if_neg here] at present absent
          constructor
          · intro v member
            apply present v
            apply (List.mem_cons.mp member).resolve_left
            rintro rfl
            exact here rfl
          · intro missing
            exact absent fun v member => missing v (List.mem_cons_of_mem _ member)
  obtain ⟨present, absent⟩ := folded other.entries other.sorted m
  cases found : other.get? k with
  | none =>
      apply absent
      intro v member
      rw [mem_entries_iff, found] at member
      cases member
  | some v => exact present v (mem_entries_iff.mpr found)

/-! ## The monoid of maps -/

section Sums

variable [AddCommMonoid ν]

instance : Zero (OrderedMap κ ν) := ⟨empty⟩

instance : Add (OrderedMap κ ν) := ⟨mergeWith (· + ·) 0⟩

/-- The values of one key in two maps, added. -/
def joined : Option ν → Option ν → Option ν
  | none, b => b
  | some a, none => some a
  | some a, some b => some (a + b)

omit [Std.TransOrd κ] [Std.LawfulEqOrd κ] [AddCommMonoid ν] in
theorem get?_zero (k : κ) : (0 : OrderedMap κ ν).get? k = none := rfl

theorem get?_add (m m' : OrderedMap κ ν) (k : κ) : (m + m').get? k = joined (m.get? k) (m'.get? k) := by
  change (mergeWith (· + ·) 0 m m').get? k = _
  rw [get?_mergeWith]
  cases m'.get? k <;> cases m.get? k <;> simp [joined]

instance : AddCommMonoid (OrderedMap κ ν) where
  add_assoc a b c := by
    apply ext_get?
    intro k
    simp only [get?_add]
    cases a.get? k <;> cases b.get? k <;> cases c.get? k <;> simp [joined, add_assoc]
  zero_add a := by
    apply ext_get?
    intro k
    rw [get?_add, get?_zero, joined]
  add_zero a := by
    apply ext_get?
    intro k
    rw [get?_add, get?_zero]
    cases a.get? k <;> rfl
  add_comm a b := by
    apply ext_get?
    intro k
    simp only [get?_add]
    cases a.get? k <;> cases b.get? k <;> simp [joined, add_comm]
  nsmul := nsmulRec

/-- A change that adds to a value is a sum. -/
theorem upsert_eq_add (m : OrderedMap κ ν) (k : κ) {f : ν → ν} {v : ν} (adds : ∀ w, f w = w + v) :
    m.upsert k 0 f = m + single k v := by
  classical
  apply ext_get?
  intro k'
  rw [get?_upsert, get?_add, get?_single, adds]
  split
  · cases m.get? k' <;> simp [joined]
  · cases m.get? k' <;> rfl

theorem sum_single_entries (m : OrderedMap κ ν) : (m.entries.map fun e => single e.1 e.2).sum = m := by
  have folded (entries : List (κ × ν)) (start : OrderedMap κ ν) :
      entries.foldl (fun acc e => acc.upsert e.1 0 fun v => v + e.2) start =
        start + (entries.map fun e => single e.1 e.2).sum := by
    induction entries generalizing start with
    | nil => simp
    | cons e rest ih =>
        rw [List.foldl_cons, ih, upsert_eq_add start e.1 fun _ => rfl, List.map_cons, List.sum_cons, add_assoc]
  have merged : m.entries.foldl (fun acc e => acc.upsert e.1 0 fun v => v + e.2) 0 = 0 + m := rfl
  rw [folded, zero_add, zero_add] at merged
  exact merged

theorem filterKeys_add (a b : OrderedMap κ ν) (p : κ → Bool) :
    (a + b).filterKeys p = a.filterKeys p + b.filterKeys p := by
  apply ext_get?
  intro k
  simp only [get?_filterKeys, get?_add]
  split <;> rfl

theorem filterKeys_sum (maps : List (OrderedMap κ ν)) (p : κ → Bool) :
    maps.sum.filterKeys p = (maps.map (·.filterKeys p)).sum := by
  induction maps with
  | nil => rfl
  | cons m rest ih => rw [List.sum_cons, filterKeys_add, ih, List.map_cons, List.sum_cons]

theorem contains_add_iff (a b : OrderedMap κ ν) (k : κ) :
    (a + b).contains k = true ↔ a.contains k = true ∨ b.contains k = true := by
  simp only [contains, get?_add]
  cases a.get? k <;> cases b.get? k <;> simp [joined]

theorem contains_sum_iff (maps : List (OrderedMap κ ν)) (k : κ) :
    maps.sum.contains k = true ↔ ∃ m ∈ maps, m.contains k = true := by
  induction maps with
  | nil => simp [contains, get?_zero]
  | cons m rest ih => rw [List.sum_cons, contains_add_iff, ih, List.exists_mem_cons_iff]

end Sums

end AlLanguage.Library.OrderedMap
