import AlLanguage.Library.Lists
import AlLanguage.Symbols.Updates

/-!
# Names in order

What inserting and removing a name do to a list of names in strictly increasing order.
-/

namespace AlLanguage.Symbols

open Library

/-- In strictly increasing order. -/
def Increasing (names : List String) : Prop := names.Pairwise fun a b => compare a b = .lt

theorem not_before_itself (name : String) : compare name name ≠ .lt := by simp

theorem increasing_unique {names names' : List String} (increasing : Increasing names) (increasing' : Increasing names')
    (members : ∀ name, name ∈ names ↔ name ∈ names') : names = names' := by
  apply eq_of_ordered _ increasing increasing' members
  intro a b before after
  rw [Std.OrientedCmp.gt_iff_lt.mpr before] at after
  cases after

theorem binarySearch_before {head name : String} (before : compare head name = .lt) (rest : List String) :
    binarySearch (head :: rest) name =
      match binarySearch rest name with
      | .ok position => .ok (position + 1)
      | .error position => .error (position + 1) := by
  have through : (compare head name == .lt) = true := by simpa using before
  simp only [binarySearch, List.takeWhile_cons, through, if_true, List.length_cons, List.getElem?_cons_succ]
  by_cases found : rest[(rest.takeWhile fun other => compare other name == .lt).length]? = some name
  · rw [if_pos found, if_pos found]
  · rw [if_neg found, if_neg found]

theorem binarySearch_here {head name : String} (here : ¬compare head name = .lt) (rest : List String) :
    binarySearch (head :: rest) name = if head = name then .ok 0 else .error 0 := by
  have stops : (compare head name == .lt) = false := by simpa using here
  simp [binarySearch, stops]

theorem insertName_nil (name : String) : insertName [] name = [name] := rfl

theorem insertName_cons (head : String) (rest : List String) (name : String) :
    insertName (head :: rest) name =
      if compare head name = .lt then head :: insertName rest name
      else if head = name then head :: rest else name :: head :: rest := by
  by_cases before : compare head name = .lt
  · rw [if_pos before, insertName, insertName, binarySearch_before before]
    cases binarySearch rest name <;> rfl
  · rw [if_neg before, insertName, binarySearch_here before]
    by_cases same : head = name
    · rw [if_pos same, if_pos same]
    · rw [if_neg same, if_neg same]
      rfl

theorem removeName_nil (name : String) : removeName [] name = [] := rfl

theorem removeName_cons (head : String) (rest : List String) (name : String) :
    removeName (head :: rest) name =
      if compare head name = .lt then head :: removeName rest name else if head = name then rest else head :: rest := by
  by_cases before : compare head name = .lt
  · rw [if_pos before, removeName, removeName, binarySearch_before before]
    cases binarySearch rest name <;> rfl
  · rw [if_neg before, removeName, binarySearch_here before]
    by_cases same : head = name
    · rw [if_pos same, if_pos same]
      rfl
    · rw [if_neg same, if_neg same]

theorem mem_insertName {names : List String} {name other : String} :
    other ∈ insertName names name ↔ other = name ∨ other ∈ names := by
  induction names with
  | nil => simp [insertName_nil]
  | cons head rest ih =>
      rw [insertName_cons]
      split
      · rw [List.mem_cons, ih, List.mem_cons]
        exact or_left_comm
      split
      next same => simp [same]
      next => simp

theorem increasing_insertName {names : List String} (increasing : Increasing names) (name : String) :
    Increasing (insertName names name) := by
  induction names with
  | nil => simp [insertName_nil, Increasing]
  | cons head rest ih =>
      obtain ⟨below, tail⟩ := List.pairwise_cons.mp increasing
      rw [insertName_cons]
      split
      next before =>
        refine List.pairwise_cons.mpr ⟨?_, ih tail⟩
        intro other member
        rcases mem_insertName.mp member with rfl | inside
        · exact before
        · exact below other inside
      next notBefore =>
      split
      · exact increasing
      next apart =>
        have first : compare name head = .lt := by
          cases order : compare head name with
          | lt => exact absurd order notBefore
          | eq => exact absurd (Std.LawfulEqCmp.eq_of_compare order) apart
          | gt => exact Std.OrientedCmp.gt_iff_lt.mp order
        refine List.pairwise_cons.mpr ⟨?_, increasing⟩
        intro other member
        rcases List.mem_cons.mp member with rfl | inside
        · exact first
        · exact Std.TransCmp.lt_trans first (below other inside)

theorem mem_removeName {names : List String} (increasing : Increasing names) {name other : String} :
    other ∈ removeName names name ↔ other ≠ name ∧ other ∈ names := by
  induction names with
  | nil => simp [removeName_nil]
  | cons head rest ih =>
      obtain ⟨below, tail⟩ := List.pairwise_cons.mp increasing
      have absent : head ∉ rest := by
        intro member
        exact not_before_itself head (below head member)
      rw [removeName_cons]
      split
      next before =>
        have apart : head ≠ name := by
          rintro rfl
          exact not_before_itself head before
        rw [List.mem_cons, ih tail, List.mem_cons]
        constructor
        · rintro (rfl | ⟨different, inside⟩)
          · exact ⟨apart, .inl rfl⟩
          · exact ⟨different, .inr inside⟩
        · rintro ⟨different, rfl | inside⟩
          · exact .inl rfl
          · exact .inr ⟨different, inside⟩
      next notBefore =>
      split
      next same =>
        subst same
        constructor
        · intro inside
          refine ⟨?_, List.mem_cons_of_mem _ inside⟩
          rintro rfl
          exact absent inside
        · rintro ⟨different, inside⟩
          exact (List.mem_cons.mp inside).resolve_left different
      next apart =>
        constructor
        · intro inside
          refine ⟨?_, inside⟩
          rintro rfl
          rcases List.mem_cons.mp inside with same | later
          · exact apart same.symm
          · exact notBefore (below other later)
        · exact fun kept => kept.2

theorem increasing_removeName {names : List String} (increasing : Increasing names) (name : String) :
    Increasing (removeName names name) := by
  have kept : (removeName names name).Sublist names := by
    unfold removeName
    split
    · exact List.eraseIdx_sublist ..
    · exact List.Sublist.refl _
  exact increasing.sublist kept

end AlLanguage.Symbols
