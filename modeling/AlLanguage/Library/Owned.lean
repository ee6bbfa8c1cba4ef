import AlLanguage.Library.Groups

/-!
# Members with owners

A map from a name to members, each of which has an owner. The members of one owner are replaced name by name, and the
names it no longer has are cleared afterwards.
-/

namespace AlLanguage.Library

open OrderedMap

universe u v

variable {κ : Type u} {α : Type v}

/-! ## Items by name -/

section Named

variable [DecidableEq κ]

/-- One item more under its name. Names are in the order in which they first came. -/
def addNamed (name : κ) (item : α) : List (κ × List α) → List (κ × List α)
  | [] => [(name, [item])]
  | slot :: rest => if slot.1 = name then (slot.1, slot.2 ++ [item]) :: rest else slot :: addNamed name item rest

/-- The items by their names. -/
def groupNamed (named : List (κ × α)) : List (κ × List α) :=
  named.foldl (fun byName item => addNamed item.1 item.2 byName) []

def names (named : List (κ × α)) : List κ := (groupNamed named).map (·.1)

def itemsNamed (name : κ) (named : List (κ × α)) : List α := (named.filter (·.1 = name)).map (·.2)

theorem mem_addNamed {name : κ} {item : α} {byName : List (κ × List α)} {other : κ} :
    other ∈ (addNamed name item byName).map (·.1) ↔ other = name ∨ other ∈ byName.map (·.1) := by
  induction byName with
  | nil => simp [addNamed]
  | cons slot rest ih =>
      rw [addNamed]
      split
      next same => simp [← same]
      next => rw [List.map_cons, List.mem_cons, ih, List.map_cons, List.mem_cons, or_left_comm]

theorem nodup_addNamed {name : κ} {item : α} {byName : List (κ × List α)} (nodup : (byName.map (·.1)).Nodup) :
    ((addNamed name item byName).map (·.1)).Nodup := by
  induction byName with
  | nil => simp [addNamed]
  | cons slot rest ih =>
      obtain ⟨absent, tail⟩ := List.nodup_cons.mp nodup
      rw [addNamed]
      split
      next => exact nodup
      next apart =>
        refine List.nodup_cons.mpr ⟨?_, ih tail⟩
        intro member
        rcases mem_addNamed.mp member with same | inside
        · exact apart same
        · exact absent inside

/-- The slots hold the items of their names. -/
def Slots (named : List (κ × α)) (byName : List (κ × List α)) : Prop :=
  (byName.map (·.1)).Nodup ∧ (∀ name, name ∈ byName.map (·.1) ↔ ∃ item, (name, item) ∈ named) ∧
    ∀ slot ∈ byName, slot.2 = itemsNamed slot.1 named

theorem itemsNamed_append (name : κ) (named named' : List (κ × α)) :
    itemsNamed name (named ++ named') = itemsNamed name named ++ itemsNamed name named' := by
  simp [itemsNamed]

theorem itemsNamed_eq_nil {name : κ} {named : List (κ × α)} (absent : ∀ item, (name, item) ∉ named) :
    itemsNamed name named = [] := by
  rw [itemsNamed, List.map_eq_nil_iff, List.filter_eq_nil_iff]
  rintro ⟨other, item⟩ member chosen
  exact absent item (by simpa [← of_decide_eq_true chosen] using member)

theorem slot_addNamed {name : κ} {item : α} {byName : List (κ × List α)} {slot : κ × List α}
    (nodup : (byName.map (·.1)).Nodup) (member : slot ∈ addNamed name item byName) :
    (slot.1 ≠ name ∧ slot ∈ byName) ∨ (slot = (name, [item]) ∧ name ∉ byName.map (·.1)) ∨
      ∃ items, (name, items) ∈ byName ∧ slot = (name, items ++ [item]) := by
  induction byName with
  | nil => exact .inr (.inl ⟨by simpa [addNamed] using member, by simp⟩)
  | cons head rest ih =>
      obtain ⟨absent, tail⟩ := List.nodup_cons.mp nodup
      rw [addNamed] at member
      split at member
      next same =>
        subst same
        rcases List.mem_cons.mp member with rfl | inside
        · exact .inr (.inr ⟨head.2, List.mem_cons_self, rfl⟩)
        · refine .inl ⟨?_, List.mem_cons_of_mem _ inside⟩
          intro same
          have repeated : slot.1 ∈ rest.map (·.1) := List.mem_map_of_mem inside
          rw [same] at repeated
          exact absent repeated
      next apart =>
        rcases List.mem_cons.mp member with rfl | inside
        · exact .inl ⟨apart, List.mem_cons_self⟩
        rcases ih tail inside with ⟨other, old⟩ | ⟨new, none⟩ | ⟨items, old, new⟩
        · exact .inl ⟨other, List.mem_cons_of_mem _ old⟩
        · refine .inr (.inl ⟨new, ?_⟩)
          rw [List.map_cons, List.mem_cons, not_or]
          exact ⟨Ne.symm apart, none⟩
        · exact .inr (.inr ⟨items, List.mem_cons_of_mem _ old, new⟩)

theorem Slots.add {named : List (κ × α)} {byName : List (κ × List α)} (slots : Slots named byName) (name : κ) (item : α) :
    Slots (named ++ [(name, item)]) (addNamed name item byName) := by
  obtain ⟨nodup, members, items⟩ := slots
  refine ⟨nodup_addNamed nodup, ?_, ?_⟩
  · intro other
    rw [mem_addNamed, members]
    simp only [List.mem_append, List.mem_singleton, Prod.mk.injEq, exists_or]
    grind
  · intro slot member
    rw [itemsNamed_append]
    rcases slot_addNamed nodup member with ⟨other, old⟩ | ⟨rfl, none⟩ | ⟨before, old, rfl⟩
    · rw [items slot old]
      simp [itemsNamed, Ne.symm other]
    · rw [itemsNamed_eq_nil fun item inside => none ((members name).mpr ⟨item, inside⟩)]
      simp [itemsNamed]
    · have found : before = itemsNamed name named := items _ old
      simp [itemsNamed, found]

theorem slots_groupNamed (named : List (κ × α)) : Slots named (groupNamed named) := by
  have filled : ∀ (rest done : List (κ × α)) (byName : List (κ × List α)), Slots done byName →
      Slots (done ++ rest) (rest.foldl (fun byName item => addNamed item.1 item.2 byName) byName) := by
    intro rest
    induction rest with
    | nil =>
        intro done byName slots
        simpa using slots
    | cons item rest ih =>
        intro done byName slots
        have added := ih _ _ (slots.add item.1 item.2)
        simpa using added
  exact filled named [] [] ⟨List.nodup_nil, by simp, by simp⟩

theorem nodup_names (named : List (κ × α)) : (names named).Nodup := (slots_groupNamed named).1

theorem mem_names_iff {named : List (κ × α)} {name : κ} : name ∈ names named ↔ ∃ item, (name, item) ∈ named :=
  (slots_groupNamed named).2.1 name

theorem itemsNamed_eq_nil_iff {name : κ} {named : List (κ × α)} : itemsNamed name named = [] ↔ name ∉ names named := by
  constructor
  · intro none present
    obtain ⟨item, member⟩ := mem_names_iff.mp present
    have inside : item ∈ itemsNamed name named :=
      List.mem_map_of_mem (f := Prod.snd) (List.mem_filter.mpr ⟨member, by simp⟩)
    rw [none] at inside
    cases inside
  · intro absent
    apply itemsNamed_eq_nil
    exact fun item member => absent (mem_names_iff.mpr ⟨item, member⟩)

theorem find?_groupNamed (named : List (κ × α)) (name : κ) :
    (groupNamed named).find? (·.1 = name) = (nonempty (itemsNamed name named)).map fun items => (name, items) := by
  cases search : (groupNamed named).find? (·.1 = name) with
  | none =>
      have absent : name ∉ names named := by
        intro present
        obtain ⟨slot, member, same⟩ := List.mem_map.mp present
        exact List.find?_eq_none.mp search slot member (decide_eq_true same)
      rw [itemsNamed_eq_nil_iff.mpr absent]
      rfl
  | some slot =>
      have member := List.mem_of_find?_eq_some search
      have same : slot.1 = name := by simpa using List.find?_some search
      have filled : itemsNamed name named ≠ [] := by
        rw [Ne, itemsNamed_eq_nil_iff, not_not]
        exact same ▸ List.mem_map_of_mem member
      have items := (slots_groupNamed named).2.2 slot member
      rw [same] at items
      obtain ⟨first, rest, split⟩ := List.exists_cons_of_ne_nil filled
      rw [split, nonempty, Option.map_some, ← split, ← items, ← same]

end Named

/-! ## Members under a name -/

section Owners

variable [Ord κ] [Std.TransOrd κ]

/-- The members under a name, with those of one owner replaced. -/
def swapOwned (owned : α → Bool) (m : OrderedMap κ (List α)) (name : κ) (items : List α) : OrderedMap κ (List α) :=
  m.insert name (((m.get? name).getD []).filter (fun a => !owned a) ++ items)

/-- The members under a name without those of one owner. The name goes with its last member. -/
def removeOwned (owned : α → Bool) (m : OrderedMap κ (List α)) (name : κ) : OrderedMap κ (List α) :=
  match m.get? name with
  | none => m
  | some members =>
    let kept := members.filter fun a => !owned a
    if kept.isEmpty then m.erase name else m.insert name kept

variable [Std.LawfulEqOrd κ] [DecidableEq κ] {owned : α → Bool}

theorem get?_swapOwned (m : OrderedMap κ (List α)) (name other : κ) (items : List α) :
    (swapOwned owned m name items).get? other =
      if name = other then some (((m.get? other).getD []).filter (fun a => !owned a) ++ items) else m.get? other := by
  rw [swapOwned, get?_insert]
  by_cases same : name = other
  · subst same
    rw [if_pos Std.ReflCmp.compare_self, if_pos rfl]
  · rw [if_neg fun equal => same (Std.LawfulEqCmp.eq_of_compare equal), if_neg same]

theorem get?_removeOwned (m : OrderedMap κ (List α)) (name other : κ) :
    (removeOwned owned m name).get? other =
      if name = other then (m.get? other).bind fun members => nonempty (members.filter fun a => !owned a)
      else m.get? other := by
  by_cases same : name = other
  · subst same
    rw [if_pos rfl, removeOwned]
    cases found : m.get? name with
    | none => exact found
    | some members =>
        dsimp only
        cases kept : members.filter fun a => !owned a with
        | nil => simp [nonempty, kept, get?_erase, Std.ReflCmp.compare_self]
        | cons a rest => simp [nonempty, kept, get?_insert, Std.ReflCmp.compare_self]
  · rw [if_neg same, removeOwned]
    have apart : compare name other ≠ .eq := fun equal => same (Std.LawfulEqCmp.eq_of_compare equal)
    split
    · rfl
    dsimp only
    split
    · rw [get?_erase, if_neg apart]
    · rw [get?_insert, if_neg apart]

/-- Many names, one after the other. -/
def swapAll (owned : α → Bool) (m : OrderedMap κ (List α)) (byName : List (κ × List α)) : OrderedMap κ (List α) :=
  byName.foldl (fun m slot => swapOwned owned m slot.1 slot.2) m

def removeAll (owned : α → Bool) (m : OrderedMap κ (List α)) (cleared : List κ) : OrderedMap κ (List α) :=
  cleared.foldl (removeOwned owned) m

theorem get?_swapAll {byName : List (κ × List α)} (nodup : (byName.map (·.1)).Nodup) (m : OrderedMap κ (List α)) (name : κ) :
    (swapAll owned m byName).get? name =
      match byName.find? (·.1 = name) with
      | some slot => some (((m.get? name).getD []).filter (fun a => !owned a) ++ slot.2)
      | none => m.get? name := by
  induction byName generalizing m with
  | nil => rfl
  | cons slot rest ih =>
      obtain ⟨absent, tail⟩ := List.nodup_cons.mp nodup
      have folded : swapAll owned m (slot :: rest) = swapAll owned (swapOwned owned m slot.1 slot.2) rest := rfl
      rw [folded, ih tail, get?_swapOwned]
      by_cases same : slot.1 = name
      · have once : rest.find? (·.1 = name) = none := by
          rw [List.find?_eq_none]
          intro other member chosen
          have repeated : other.1 ∈ rest.map (·.1) := List.mem_map_of_mem member
          rw [of_decide_eq_true chosen, ← same] at repeated
          exact absent repeated
        simp [once, same]
      · simp [same]

theorem get?_removeAll (m : OrderedMap κ (List α)) (cleared : List κ) (name : κ) :
    (removeAll owned m cleared).get? name =
      if name ∈ cleared then (m.get? name).bind fun members => nonempty (members.filter fun a => !owned a)
      else m.get? name := by
  induction cleared generalizing m with
  | nil => simp [removeAll]
  | cons head rest ih =>
      have folded : removeAll owned m (head :: rest) = removeAll owned (removeOwned owned m head) rest := rfl
      rw [folded, ih, get?_removeOwned]
      by_cases same : head = name
      · subst same
        rw [if_pos rfl, if_pos List.mem_cons_self]
        split
        next =>
          cases m.get? head with
          | none => rfl
          | some members =>
              cases kept : members.filter fun a => !owned a with
              | nil => simp [nonempty, kept]
              | cons a others =>
                  have again : (a :: others).filter (fun a => !owned a) = a :: others := by
                    rw [← kept, List.filter_filter]
                    simp
                  simp [nonempty, kept, again]
        next => rfl
      · rw [if_neg same]
        have listed : name ∈ head :: rest ↔ name ∈ rest := by simp [Ne.symm same]
        simp only [listed]

variable {members : κ → List α} {m : OrderedMap κ (List α)}

/-- The names of an owner are cleared of its members. -/
theorem get?_cleared (before : ∀ name, m.get? name = nonempty (members name)) {cleared : List κ}
    (all : ∀ name, ∀ a ∈ members name, owned a = true → name ∈ cleared) (name : κ) :
    (removeAll owned m cleared).get? name = nonempty ((members name).filter fun a => !owned a) := by
  rw [get?_removeAll, before]
  split
  next =>
    cases members name with
    | nil => rfl
    | cons a rest => rfl
  next unlisted =>
    have kept : (members name).filter (fun a => !owned a) = members name := by
      rw [List.filter_eq_self]
      intro a member
      rw [Bool.not_eq_true']
      by_contra own
      exact unlisted (all name a member (by simpa using own))
    rw [kept]

/-- The members of an owner are swapped for new ones, and the names without a new one are cleared. -/
theorem get?_replaced (before : ∀ name, m.get? name = nonempty (members name)) {old : List κ}
    (all : ∀ name, ∀ a ∈ members name, owned a = true → name ∈ old) (named : List (κ × α)) (name : κ) :
    (removeAll owned (swapAll owned m (groupNamed named)) (old.filter (· ∉ names named))).get? name =
      nonempty ((members name).filter (fun a => !owned a) ++ itemsNamed name named) := by
  rw [get?_removeAll, get?_swapAll (nodup_names named), find?_groupNamed]
  cases items : itemsNamed name named with
  | nil =>
      have absent := itemsNamed_eq_nil_iff.mp items
      have cleared := get?_cleared before all name
      have listed : name ∈ old.filter (· ∉ names named) ↔ name ∈ old := by simp [absent]
      rw [List.append_nil, ← cleared, get?_removeAll]
      simp only [listed]
      rfl
  | cons first rest =>
      have present : name ∈ names named := by
        by_contra absent
        rw [itemsNamed_eq_nil_iff.mpr absent] at items
        cases items
      have unlisted : name ∉ old.filter (· ∉ names named) := by simp [present]
      rw [if_neg unlisted, before, getD_nonempty]
      dsimp only [nonempty, Option.map_some]
      cases (members name).filter fun a => !owned a <;> rfl

end Owners

end AlLanguage.Library
