import AlLanguage.Library.OrderedMap

/-!
# Grouped members

A map from a key to the members with that key, in the order of the members. No group is empty.
-/

namespace AlLanguage.Library

universe u v

variable {κ : Type u} {α : Type v} [Ord κ]

namespace OrderedMap

/-- The group under a key, with one member more. -/
def push [Std.TransOrd κ] (m : OrderedMap κ (List α)) (k : κ) (a : α) : OrderedMap κ (List α) :=
  m.insert k ((m.get? k).getD [] ++ [a])

def nonempty : List α → Option (List α)
  | [] => none
  | a :: rest => some (a :: rest)

/-- The groups with the members that are kept. A group that gets empty goes. -/
def retainMembers (m : OrderedMap κ (List α)) (keep : α → Bool) : OrderedMap κ (List α) :=
  m.retain fun members => nonempty (members.filter keep)

end OrderedMap

open OrderedMap

/-- Whether a member is in the group of a key. -/
def inGroup (key : α → Option κ) (k : κ) (a : α) : Bool :=
  match key a with
  | none => false
  | some k' => compare k' k == .eq

/-- The map holds the groups of the members and nothing else. -/
def Groups (key : α → Option κ) (members : List α) (m : OrderedMap κ (List α)) : Prop :=
  ∀ k, m.get? k = nonempty (members.filter (inGroup key k))

theorem nonempty_append_singleton (members : List α) (a : α) : nonempty (members ++ [a]) = some (members ++ [a]) := by
  cases members <;> rfl

theorem getD_nonempty (members : List α) : (nonempty members).getD [] = members := by
  cases members <;> rfl

theorem groups_empty (key : α → Option κ) : Groups key [] OrderedMap.empty := fun _ => rfl

section Keys

variable {key : α → Option κ} {members : List α} {m : OrderedMap κ (List α)}

theorem Groups.skip (groups : Groups key members m) {a : α} (keyless : key a = none) : Groups key (members ++ [a]) m := by
  intro k
  rw [groups k, List.filter_append, List.filter_cons_of_neg (by simp [inGroup, keyless]), List.filter_nil, List.append_nil]

theorem Groups.retainMembers [Std.TransOrd κ] (groups : Groups key members m) (keep : α → Bool) :
    Groups key (members.filter keep) (m.retainMembers keep) := by
  intro k
  rw [OrderedMap.retainMembers, get?_retain, groups k, List.filter_filter]
  have swapped : members.filter (fun a => inGroup key k a && keep a) = (members.filter (inGroup key k)).filter keep := by
    rw [List.filter_filter]
    congr 1
    funext a
    exact Bool.and_comm ..
  rw [swapped]
  cases members.filter (inGroup key k) <;> rfl

theorem Groups.push [Std.TransOrd κ] (groups : Groups key members m) {a : α} {k : κ} (keyed : key a = some k) :
    Groups key (members ++ [a]) (m.push k a) := by
  intro k'
  rw [OrderedMap.push, get?_insert, List.filter_append]
  split
  next same =>
    have chosen : inGroup key k' a = true := by simp [inGroup, keyed, same]
    have filtered : members.filter (inGroup key k) = members.filter (inGroup key k') := by
      congr 1
      funext b
      unfold inGroup
      split
      · rfl
      · rw [Std.TransCmp.congr_right same]
    rw [List.filter_cons_of_pos chosen, List.filter_nil, nonempty_append_singleton, groups k, getD_nonempty, filtered]
  next other =>
    have passed : ¬inGroup key k' a = true := by simp [inGroup, keyed, other]
    rw [List.filter_cons_of_neg passed, List.filter_nil, List.append_nil, groups k']

theorem Groups.add [Std.TransOrd κ] (groups : Groups key members m) (a : α) :
    Groups key (members ++ [a]) (match key a with | none => m | some k => m.push k a) := by
  split
  next keyless => exact groups.skip keyless
  next k keyed => exact groups.push keyed

/-- A key has a group when a member has it. -/
theorem Groups.contains_iff (groups : Groups key members m) (k : κ) :
    m.contains k = true ↔ ∃ a ∈ members, inGroup key k a = true := by
  rw [OrderedMap.contains, groups k]
  constructor
  · intro present
    cases group : members.filter (inGroup key k) with
    | nil =>
        rw [group] at present
        cases present
    | cons a rest =>
        have member : a ∈ members.filter (inGroup key k) := group ▸ List.mem_cons_self
        exact ⟨a, List.mem_filter.mp member⟩
  · rintro ⟨a, member, chosen⟩
    have inside : a ∈ members.filter (inGroup key k) := List.mem_filter.mpr ⟨member, chosen⟩
    cases group : members.filter (inGroup key k) with
    | nil =>
        rw [group] at inside
        cases inside
    | cons first rest => rfl

end Keys

end AlLanguage.Library
