import AlLanguage.Library.Lists

/-!
# Ordered maps

A map held as its entries in increasing key order, which is what a B-tree map iterates over.

- Two keys are the same key when they compare equal, whether or not they are equal terms.
- Inserting under a key that is present keeps the stored key and replaces its value.
-/

namespace AlLanguage.Library

universe u v w

/-- Entries in strictly increasing key order. -/
structure OrderedMap (κ : Type u) (ν : Type v) [Ord κ] where
  entries : List (κ × ν)
  sorted : entries.Pairwise fun a b => compare a.1 b.1 = .lt

namespace OrderedMap

variable {κ : Type u} {ν : Type v} [Ord κ]

def empty : OrderedMap κ ν := ⟨[], List.Pairwise.nil⟩

instance : Inhabited (OrderedMap κ ν) := ⟨empty⟩

/-- The value of the entry whose key compares equal to `k`. -/
def get? (m : OrderedMap κ ν) (k : κ) : Option ν :=
  (m.entries.find? fun e => compare k e.1 == .eq).map (·.2)

def contains (m : OrderedMap κ ν) (k : κ) : Bool := (m.get? k).isSome

def keys (m : OrderedMap κ ν) : List κ := m.entries.map (·.1)

def values (m : OrderedMap κ ν) : List ν := m.entries.map (·.2)

def insertEntry (k : κ) (v : ν) : List (κ × ν) → List (κ × ν)
  | [] => [(k, v)]
  | e :: rest =>
    match compare k e.1 with
    | .lt => (k, v) :: e :: rest
    | .eq => (e.1, v) :: rest
    | .gt => e :: insertEntry k v rest

def erase (m : OrderedMap κ ν) (k : κ) : OrderedMap κ ν where
  entries := m.entries.filter fun e => compare k e.1 != .eq
  sorted := m.sorted.filter _

def filter (m : OrderedMap κ ν) (p : κ → ν → Bool) : OrderedMap κ ν where
  entries := m.entries.filter fun e => p e.1 e.2
  sorted := m.sorted.filter _

/-- Change the values in place, keys kept. -/
def mapValues (m : OrderedMap κ ν) (f : κ → ν → ν) : OrderedMap κ ν where
  entries := m.entries.map fun e => (e.1, f e.1 e.2)
  sorted := List.pairwise_map.mpr m.sorted

/-- Change or drop the values in place. -/
def retain (m : OrderedMap κ ν) (f : ν → Option ν) : OrderedMap κ ν where
  entries := m.entries.filterMap fun e => (f e.2).map fun v => (e.1, v)
  sorted := by
    apply m.sorted.filterMap
    intro a b before a' kept b' kept'
    obtain ⟨v, _, rfl⟩ := Option.map_eq_some_iff.mp kept
    obtain ⟨v', _, rfl⟩ := Option.map_eq_some_iff.mp kept'
    exact before

theorem eq_of_entries {m m' : OrderedMap κ ν} (same : m.entries = m'.entries) : m = m' := by
  cases m
  cases m'
  cases same
  rfl

@[simp] theorem empty_entries : (empty : OrderedMap κ ν).entries = [] := rfl

@[simp] theorem get?_empty (k : κ) : (empty : OrderedMap κ ν).get? k = none := rfl

@[simp] theorem erase_entries (m : OrderedMap κ ν) (k : κ) :
    (m.erase k).entries = m.entries.filter fun e => compare k e.1 != .eq := rfl

@[simp] theorem filter_entries (m : OrderedMap κ ν) (p : κ → ν → Bool) :
    (m.filter p).entries = m.entries.filter fun e => p e.1 e.2 := rfl

@[simp] theorem mapValues_entries (m : OrderedMap κ ν) (f : κ → ν → ν) :
    (m.mapValues f).entries = m.entries.map fun e => (e.1, f e.1 e.2) := rfl

theorem get?_eq_none_iff (m : OrderedMap κ ν) (k : κ) :
    m.get? k = none ↔ ∀ e ∈ m.entries, compare k e.1 ≠ .eq := by
  simp [get?]

theorem contains_iff (m : OrderedMap κ ν) (k : κ) : m.contains k = true ↔ ∃ v, m.get? k = some v := by
  simp [contains, Option.isSome_iff_exists]

theorem contains_eq_false_iff (m : OrderedMap κ ν) (k : κ) : m.contains k = false ↔ m.get? k = none := by
  simp [contains]

theorem get?_mapValues (m : OrderedMap κ ν) (f : ν → ν) (k : κ) :
    (m.mapValues fun _ v => f v).get? k = (m.get? k).map f := by
  simp [get?, List.find?_map, Function.comp_def]

theorem keys_sorted (m : OrderedMap κ ν) : m.keys.Pairwise fun a b => compare a b = .lt :=
  List.pairwise_map.mpr m.sorted

theorem keys_distinct (m : OrderedMap κ ν) : m.keys.Pairwise fun a b => compare a b ≠ .eq :=
  m.keys_sorted.imp fun lt => by simp [lt]

theorem mem_insertEntry {k : κ} {v : ν} {entries : List (κ × ν)} {e : κ × ν}
    (member : e ∈ insertEntry k v entries) :
    e = (k, v) ∨ (e.2 = v ∧ compare k e.1 = .eq ∧ ∃ old, (e.1, old) ∈ entries) ∨ e ∈ entries := by
  induction entries with
  | nil => exact .inl (by simpa [insertEntry] using member)
  | cons head rest ih =>
      rw [insertEntry] at member
      split at member
      case h_1 order =>
        rcases List.mem_cons.mp member with rfl | old
        · exact .inl rfl
        · exact .inr (.inr old)
      case h_2 order =>
        rcases List.mem_cons.mp member with rfl | tail
        · exact .inr (.inl ⟨rfl, order, head.2, List.mem_cons_self ..⟩)
        · exact .inr (.inr (List.mem_cons_of_mem _ tail))
      case h_3 order =>
        rcases List.mem_cons.mp member with rfl | tail
        · exact .inr (.inr (List.mem_cons_self ..))
        · rcases ih tail with fresh | ⟨value, same, old, stored⟩ | kept
          · exact .inl fresh
          · exact .inr (.inl ⟨value, same, old, List.mem_cons_of_mem _ stored⟩)
          · exact .inr (.inr (List.mem_cons_of_mem _ kept))

section Ordered

variable [Std.TransOrd κ]

theorem insertEntry_sorted (k : κ) (v : ν) {entries : List (κ × ν)}
    (sorted : entries.Pairwise fun a b => compare a.1 b.1 = .lt) :
    (insertEntry k v entries).Pairwise fun a b => compare a.1 b.1 = .lt := by
  induction entries with
  | nil => simp [insertEntry]
  | cons head rest ih =>
      obtain ⟨below, tail⟩ := List.pairwise_cons.mp sorted
      rw [insertEntry]
      split
      case h_1 order =>
        refine List.pairwise_cons.mpr ⟨fun e member => ?_, sorted⟩
        rcases List.mem_cons.mp member with rfl | inside
        · exact order
        · exact Std.TransCmp.lt_trans order (below e inside)
      case h_2 order => exact List.pairwise_cons.mpr ⟨below, tail⟩
      case h_3 order =>
        refine List.pairwise_cons.mpr ⟨fun e member => ?_, ih tail⟩
        rcases mem_insertEntry member with rfl | ⟨_, _, old, stored⟩ | kept
        · exact Std.OrientedCmp.gt_iff_lt.mp order
        · exact below (_, old) stored
        · exact below e kept

def insert (m : OrderedMap κ ν) (k : κ) (v : ν) : OrderedMap κ ν :=
  ⟨insertEntry k v m.entries, insertEntry_sorted k v m.sorted⟩

@[simp] theorem insert_entries (m : OrderedMap κ ν) (k : κ) (v : ν) :
    (m.insert k v).entries = insertEntry k v m.entries := rfl

theorem insertEntry_insertEntry (k : κ) (v v' : ν) (entries : List (κ × ν)) :
    insertEntry k v' (insertEntry k v entries) = insertEntry k v' entries := by
  induction entries with
  | nil => simp [insertEntry]
  | cons head rest ih => cases order : compare k head.1 <;> simp [insertEntry, order, ih]

theorem insert_insert (m : OrderedMap κ ν) (k : κ) (v v' : ν) : (m.insert k v).insert k v' = m.insert k v' := by
  simp only [insert, insertEntry_insertEntry]

/-! ## Entries and lookups -/

/-- Two entries whose keys compare equal are one entry. -/
theorem entry_unique (m : OrderedMap κ ν) {a b : κ × ν} (left : a ∈ m.entries) (right : b ∈ m.entries)
    (same : compare a.1 b.1 = .eq) : a = b := by
  rcases pairwise_eq_or m.sorted left right with equal | before | after
  · exact equal
  · simp [before] at same
  · have reversed : compare b.1 a.1 = .eq := Std.OrientedCmp.eq_symm same
    simp [after] at reversed

theorem get?_eq_some_iff (m : OrderedMap κ ν) (k : κ) (v : ν) :
    m.get? k = some v ↔ ∃ k', (k', v) ∈ m.entries ∧ compare k k' = .eq := by
  constructor
  · intro found
    obtain ⟨e, search, rfl⟩ := Option.map_eq_some_iff.mp found
    exact ⟨e.1, List.mem_of_find?_eq_some search, by simpa using List.find?_some search⟩
  · rintro ⟨k', member, same⟩
    cases search : m.entries.find? fun e => compare k e.1 == .eq with
    | none =>
        have missed := List.find?_eq_none.mp search _ member
        simp [same] at missed
    | some e =>
        have matched : compare k e.1 = .eq := by simpa using List.find?_some search
        have joined : compare e.1 k' = .eq := Std.TransCmp.eq_trans (Std.OrientedCmp.eq_symm matched) same
        have unique := m.entry_unique (List.mem_of_find?_eq_some search) member joined
        simp [get?, search, unique]

theorem get?_of_mem (m : OrderedMap κ ν) {e : κ × ν} (member : e ∈ m.entries) : m.get? e.1 = some e.2 :=
  (m.get?_eq_some_iff e.1 e.2).mpr ⟨e.1, member, Std.ReflCmp.compare_self⟩

theorem get?_congr (m : OrderedMap κ ν) {k k' : κ} (same : compare k k' = .eq) : m.get? k = m.get? k' := by
  simp only [get?, Std.TransCmp.congr_left same]

theorem mem_insert_self (m : OrderedMap κ ν) (k : κ) (v : ν) :
    ∃ k', (k', v) ∈ (m.insert k v).entries ∧ compare k k' = .eq := by
  simp only [insert_entries]
  induction m.entries with
  | nil => exact ⟨k, by simp [insertEntry], Std.ReflCmp.compare_self⟩
  | cons head rest ih =>
      rw [insertEntry]
      split
      case h_1 order => exact ⟨k, by simp, Std.ReflCmp.compare_self⟩
      case h_2 order => exact ⟨head.1, by simp, order⟩
      case h_3 order =>
        obtain ⟨k', member, same⟩ := ih
        exact ⟨k', List.mem_cons_of_mem _ member, same⟩

theorem mem_insertEntry_other {k : κ} {v : ν} {entries : List (κ × ν)} {e : κ × ν}
    (different : compare k e.1 ≠ .eq) : e ∈ insertEntry k v entries ↔ e ∈ entries := by
  induction entries with
  | nil =>
      have fresh : e ≠ (k, v) := by rintro rfl; exact different Std.ReflCmp.compare_self
      simp [insertEntry, fresh]
  | cons head rest ih =>
      have fresh : e ≠ (k, v) := by rintro rfl; exact different Std.ReflCmp.compare_self
      rw [insertEntry]
      split
      case h_1 order => simp [fresh]
      case h_2 order =>
        have replaced : e ≠ (head.1, v) := by rintro rfl; exact different order
        have passed : e ≠ head := by rintro rfl; exact different order
        simp [replaced, passed]
      case h_3 order => simp [ih]

theorem mem_insert {m : OrderedMap κ ν} {k : κ} {v : ν} {e : κ × ν} (member : e ∈ (m.insert k v).entries) :
    (compare k e.1 = .eq ∧ e.2 = v) ∨ (e ∈ m.entries ∧ compare k e.1 ≠ .eq) := by
  by_cases same : compare k e.1 = .eq
  · obtain ⟨k', stored, equal⟩ := m.mem_insert_self k v
    have joined : compare e.1 k' = .eq := Std.TransCmp.eq_trans (Std.OrientedCmp.eq_symm same) equal
    have unique := (m.insert k v).entry_unique member stored joined
    exact .inl ⟨same, by rw [unique]⟩
  · exact .inr ⟨(mem_insertEntry_other same).mp member, same⟩

theorem get?_insert (m : OrderedMap κ ν) (k k' : κ) (v : ν) :
    (m.insert k v).get? k' = if compare k k' = .eq then some v else m.get? k' := by
  split
  next same =>
    obtain ⟨stored, member, equal⟩ := m.mem_insert_self k v
    exact (get?_eq_some_iff ..).mpr
      ⟨stored, member, Std.TransCmp.eq_trans (Std.OrientedCmp.eq_symm same) equal⟩
  next different =>
    refine Option.ext fun w => ?_
    rw [get?_eq_some_iff, get?_eq_some_iff]
    refine exists_congr fun stored => and_congr_left fun equal => ?_
    refine mem_insertEntry_other fun same => different ?_
    exact Std.TransCmp.eq_trans same (Std.OrientedCmp.eq_symm equal)

theorem get?_insert_self (m : OrderedMap κ ν) (k : κ) (v : ν) : (m.insert k v).get? k = some v := by
  simp [get?_insert, Std.ReflCmp.compare_self]

theorem get?_erase (m : OrderedMap κ ν) (k k' : κ) :
    (m.erase k).get? k' = if compare k k' = .eq then none else m.get? k' := by
  split
  next same =>
    rw [get?_eq_none_iff]
    intro e member equal
    have kept : compare k e.1 ≠ .eq := by simpa using (List.mem_filter.mp member).2
    exact kept (Std.TransCmp.eq_trans same equal)
  next different =>
    refine Option.ext fun w => ?_
    rw [get?_eq_some_iff, get?_eq_some_iff]
    refine exists_congr fun stored => and_congr_left fun equal => ?_
    have kept : compare k stored ≠ .eq := fun same =>
      different (Std.TransCmp.eq_trans same (Std.OrientedCmp.eq_symm equal))
    simp [kept]

theorem erase_congr (m : OrderedMap κ ν) {k k' : κ} (same : compare k k' = .eq) : m.erase k = m.erase k' := by
  simp only [erase, Std.TransCmp.congr_left same]

theorem get?_filter (m : OrderedMap κ ν) (p : ν → Bool) (k : κ) :
    (m.filter fun _ v => p v).get? k = (m.get? k).filter p := by
  refine Option.ext fun w => ?_
  rw [get?_eq_some_iff, Option.filter_eq_some_iff, get?_eq_some_iff]
  simp only [filter_entries, List.mem_filter]
  constructor
  · rintro ⟨stored, ⟨member, chosen⟩, equal⟩
    exact ⟨⟨stored, member, equal⟩, chosen⟩
  · rintro ⟨⟨stored, member, equal⟩, chosen⟩
    exact ⟨stored, ⟨member, chosen⟩, equal⟩

theorem get?_retain (m : OrderedMap κ ν) (f : ν → Option ν) (k : κ) : (m.retain f).get? k = (m.get? k).bind f := by
  refine Option.ext fun w => ?_
  rw [get?_eq_some_iff, Option.bind_eq_some_iff]
  constructor
  · rintro ⟨stored, member, equal⟩
    obtain ⟨e, inside, kept⟩ := List.mem_filterMap.mp member
    obtain ⟨v, chosen, same⟩ := Option.map_eq_some_iff.mp kept
    cases same
    exact ⟨e.2, (get?_eq_some_iff ..).mpr ⟨e.1, inside, equal⟩, chosen⟩
  · rintro ⟨v, found, chosen⟩
    obtain ⟨stored, inside, equal⟩ := (get?_eq_some_iff ..).mp found
    exact ⟨stored, List.mem_filterMap.mpr ⟨(stored, v), inside, by simp [chosen]⟩, equal⟩

/-- Change the value under a key that is present. -/
def update (m : OrderedMap κ ν) (k : κ) (f : ν → ν) : OrderedMap κ ν :=
  match m.get? k with
  | some v => m.insert k (f v)
  | none => m

theorem get?_update (m : OrderedMap κ ν) (k k' : κ) (f : ν → ν) :
    (m.update k f).get? k' = if compare k k' = .eq then (m.get? k').map f else m.get? k' := by
  unfold update
  split
  next v stored =>
    rw [get?_insert]
    split
    next same => rw [← m.get?_congr same, stored]; rfl
    next => rfl
  next absent =>
    split
    next same => rw [← m.get?_congr same, absent]; rfl
    next => rfl

/-- A key behind all others comes last. -/
theorem insert_last (m : OrderedMap κ ν) (k : κ) (v : ν) (last : ∀ e ∈ m.entries, compare e.1 k = .lt) :
    (m.insert k v).entries = m.entries ++ [(k, v)] := by
  rw [insert_entries]
  revert last
  induction m.entries with
  | nil => exact fun _ => rfl
  | cons head rest ih =>
      intro last
      have after : compare k head.1 = .gt := Std.OrientedCmp.gt_iff_lt.mpr (last head List.mem_cons_self)
      rw [insertEntry, after]
      dsimp only
      rw [ih fun e member => last e (List.mem_cons_of_mem _ member), List.cons_append]

theorem mem_keys_iff (m : OrderedMap κ ν) [Std.LawfulEqOrd κ] (k : κ) : k ∈ m.keys ↔ m.contains k = true := by
  rw [contains_iff, keys, List.mem_map]
  constructor
  · rintro ⟨e, member, rfl⟩
    exact ⟨e.2, m.get?_of_mem member⟩
  · rintro ⟨v, found⟩
    obtain ⟨k', member, same⟩ := (m.get?_eq_some_iff k v).mp found
    obtain rfl := Std.LawfulEqCmp.eq_of_compare same
    exact ⟨(k, v), member, rfl⟩

/-! ## Many keys at once -/

/-- A map that is filled with the entries of another is that map. -/
theorem foldl_insert_entries (m : OrderedMap κ ν) : m.entries.foldl (fun filled e => filled.insert e.1 e.2) empty = m := by
  have filled : ∀ (rest : List (κ × ν)) (done : OrderedMap κ ν),
      (done.entries ++ rest).Pairwise (fun a b => compare a.1 b.1 = .lt) →
        (rest.foldl (fun filled e => filled.insert e.1 e.2) done).entries = done.entries ++ rest := by
    intro rest
    induction rest with
    | nil => simp
    | cons e rest ih =>
        intro done sorted
        have last := (List.pairwise_append.mp sorted).2.2
        have inserted := done.insert_last e.1 e.2 fun other member => last other member e List.mem_cons_self
        rw [List.foldl_cons, ih _ (by rwa [inserted, List.append_assoc]), inserted, List.append_assoc]
        rfl
  exact eq_of_entries (filled m.entries empty m.sorted)

omit [Std.TransOrd κ] in
theorem entries_foldl_erase (keys : List κ) (m : OrderedMap κ ν) :
    (keys.foldl erase m).entries = m.entries.filter fun e => keys.all fun k => compare k e.1 != .eq := by
  induction keys generalizing m with
  | nil => simp
  | cons k rest ih =>
      rw [List.foldl_cons, ih, erase_entries, List.filter_filter]
      congr 1
      funext e
      rw [List.all_cons, Bool.and_comm]

theorem exists_keys_filter (m : OrderedMap κ ν) (p : ν → Bool) (k : κ) :
    (∃ key ∈ (m.filter fun _ v => p v).keys, compare key k = .eq) ↔ ∃ v, m.get? k = some v ∧ p v = true := by
  constructor
  · rintro ⟨key, member, same⟩
    obtain ⟨e, entry, rfl⟩ := List.mem_map.mp member
    obtain ⟨stored, chosen⟩ := List.mem_filter.mp entry
    exact ⟨e.2, (m.get?_eq_some_iff k e.2).mpr ⟨e.1, stored, Std.OrientedCmp.eq_symm same⟩, chosen⟩
  · rintro ⟨v, found, chosen⟩
    obtain ⟨key, stored, same⟩ := (m.get?_eq_some_iff k v).mp found
    exact ⟨key, List.mem_map.mpr ⟨(key, v), List.mem_filter.mpr ⟨stored, chosen⟩, rfl⟩,
      Std.OrientedCmp.eq_symm same⟩

theorem get?_foldl_erase (keys : List κ) (m : OrderedMap κ ν) (k : κ) :
    (keys.foldl erase m).get? k = if ∃ key ∈ keys, compare key k = .eq then none else m.get? k := by
  induction keys generalizing m with
  | nil => simp
  | cons key rest ih =>
      rw [List.foldl_cons, ih, get?_erase]
      by_cases same : compare key k = .eq <;> simp [same]

/-- Erasing the keys of the entries that satisfy `p` keeps the others. -/
theorem get?_foldl_erase_filter (m : OrderedMap κ ν) (p : ν → Bool) (k : κ) :
    ((m.filter fun _ v => p v).keys.foldl erase m).get? k = (m.get? k).filter fun v => !p v := by
  rw [get?_foldl_erase]
  by_cases chosen : ∃ v, m.get? k = some v ∧ p v = true
  · rw [if_pos ((m.exists_keys_filter p k).mpr chosen)]
    obtain ⟨v, stored, holds⟩ := chosen
    simp [stored, holds, Option.filter_some]
  · rw [if_neg fun selected => chosen ((m.exists_keys_filter p k).mp selected)]
    cases stored : m.get? k with
    | none => rfl
    | some v =>
        have fails : p v = false := by simpa [stored] using chosen
        simp [fails, Option.filter_some]

theorem get?_foldl_update (f : ν → ν) {keys : List κ} (distinct : keys.Pairwise fun a b => compare a b ≠ .eq)
    (m : OrderedMap κ ν) (k : κ) :
    (keys.foldl (fun m key => m.update key f) m).get? k =
      if ∃ key ∈ keys, compare key k = .eq then (m.get? k).map f else m.get? k := by
  induction keys generalizing m with
  | nil => simp
  | cons key rest ih =>
      obtain ⟨apart, tail⟩ := List.pairwise_cons.mp distinct
      rw [List.foldl_cons, ih tail, get?_update]
      by_cases same : compare key k = .eq
      · have once : ¬∃ other ∈ rest, compare other k = .eq := by
          rintro ⟨other, member, equal⟩
          exact apart other member (Std.TransCmp.eq_trans same (Std.OrientedCmp.eq_symm equal))
        simp [same, once]
      · simp [same]

theorem get?_foldl_insert {added : List (κ × ν)} (distinct : added.Pairwise fun a b => compare a.1 b.1 ≠ .eq)
    (m : OrderedMap κ ν) (k : κ) (v : ν) :
    (added.foldl (fun m e => m.insert e.1 e.2) m).get? k = some v ↔
      (∃ e ∈ added, compare e.1 k = .eq ∧ e.2 = v) ∨
        ((∀ e ∈ added, compare e.1 k ≠ .eq) ∧ m.get? k = some v) := by
  induction added generalizing m with
  | nil => simp
  | cons head rest ih =>
      obtain ⟨apart, tail⟩ := List.pairwise_cons.mp distinct
      rw [List.foldl_cons, ih tail, get?_insert]
      by_cases same : compare head.1 k = .eq
      · have once : ∀ e ∈ rest, compare e.1 k ≠ .eq := fun e member equal =>
          apart e member (Std.TransCmp.eq_trans same (Std.OrientedCmp.eq_symm equal))
        constructor
        · rintro (⟨e, member, equal, _⟩ | ⟨_, stored⟩)
          · exact absurd equal (once e member)
          · rw [if_pos same] at stored
            exact .inl ⟨head, List.mem_cons_self .., same, Option.some.inj stored⟩
        · rintro (⟨e, member, equal, rfl⟩ | ⟨none, _⟩)
          · rcases List.mem_cons.mp member with rfl | later
            · exact .inr ⟨once, if_pos same⟩
            · exact absurd equal (once e later)
          · exact absurd same (none head (List.mem_cons_self ..))
      · simp [same]

end Ordered

end OrderedMap

end AlLanguage.Library
