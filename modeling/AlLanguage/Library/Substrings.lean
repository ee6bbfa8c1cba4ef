import Mathlib

/-!
# Finding and replacing in lists

- `find` gives the position of the first occurrence of a pattern.
- `replace` goes from left to right, and what it inserts is not looked at again.
- A text of marked pieces keeps its pieces under a replacement: no pattern with a single mark in front is found
  across them.
-/

namespace AlLanguage.Library.Substrings

universe u v

variable {α : Type u} [DecidableEq α]

/-! ## The first occurrence -/

def find (pattern : List α) : List α → Option Nat
  | [] => if pattern = [] then some 0 else none
  | a :: rest => if pattern.isPrefixOf (a :: rest) then some 0 else (find pattern rest).map (· + 1)

variable {pattern text before rest : List α} {mark a : α}

theorem find_at_start (starts : pattern <+: text) : find pattern text = some 0 := by
  cases text with
  | nil => rw [find, if_pos (List.prefix_nil.mp starts)]
  | cons a rest => rw [find, if_pos (List.isPrefixOf_iff_prefix.mpr starts)]

theorem find_later (apart : ¬pattern <+: a :: rest) :
    find pattern (a :: rest) = (find pattern rest).map (· + 1) := by
  rw [find, if_neg fun starts => apart (List.isPrefixOf_iff_prefix.mp starts)]

/-- A pattern is not found where an item of it is missing. -/
theorem find_eq_none (inside : mark ∈ pattern) (missing : mark ∉ text) : find pattern text = none := by
  induction text with
  | nil => rw [find, if_neg (List.ne_nil_of_mem inside)]
  | cons a rest ih =>
      rw [find_later fun starts => missing (starts.subset inside), ih fun later => missing (.tail _ later)]
      rfl

/-- A pattern is found behind a text without its first item. -/
theorem find_headed (pattern : List α) (missing : mark ∉ before) (rest : List α) :
    find (mark :: pattern) (before ++ mark :: (pattern ++ rest)) = some before.length := by
  induction before with
  | nil => exact find_at_start (List.prefix_append (mark :: pattern) rest)
  | cons a before ih =>
      obtain ⟨apart, later⟩ := not_or.mp (List.mem_cons.not.mp missing)
      rw [List.cons_append, find_later, ih later]
      · rfl
      · intro starts
        exact apart (List.cons_prefix_cons.mp starts).1

theorem find_mark (missing : mark ∉ before) (rest : List α) : find [mark] (before ++ mark :: rest) = some before.length :=
  find_headed [] missing rest

/-- A pattern that ends at its only mark is found in front of the first mark, or behind it. -/
theorem find_terminated (unmarked : mark ∉ pattern) (missing : mark ∉ before) (rest : List α) :
    find (pattern ++ [mark]) (before ++ mark :: rest) =
      if pattern <:+ before then some (before.length - pattern.length)
      else (find (pattern ++ [mark]) rest).map (· + (before.length + 1)) := by
  induction before with
  | nil =>
      by_cases empty : pattern = []
      · rw [empty, if_pos List.suffix_rfl]
        exact find_at_start ⟨rest, rfl⟩
      · rw [if_neg (fun ends => empty (List.suffix_nil.mp ends)), List.nil_append, find_later]
        · rfl
        · intro starts
          obtain ⟨a, more, rfl⟩ := List.exists_cons_of_ne_nil empty
          rw [List.cons_append] at starts
          exact unmarked ((List.cons_prefix_cons.mp starts).1 ▸ List.mem_cons_self)
  | cons a before ih =>
      obtain ⟨_, later⟩ := not_or.mp (List.mem_cons.not.mp missing)
      have whole : pattern ++ [mark] <+: (a :: before) ++ mark :: rest ↔ pattern = a :: before := by
        constructor
        · rintro ⟨tail, same⟩
          rw [List.append_assoc, List.singleton_append] at same
          have split := congrArg (List.splitOn mark) same
          rw [List.splitOn_append_cons_self_of_not_mem unmarked, List.splitOn_append_cons_self_of_not_mem missing] at split
          exact (List.cons.inj split).1
        · intro same
          rw [same]
          exact ⟨rest, by simp⟩
      by_cases same : pattern = a :: before
      · rw [find_at_start (whole.mpr same), same, if_pos List.suffix_rfl, Nat.sub_self]
      · have next : find (pattern ++ [mark]) (a :: before ++ mark :: rest) =
            (find (pattern ++ [mark]) (before ++ mark :: rest)).map (· + 1) :=
          find_later fun starts => same (whole.mp starts)
        rw [next, ih later]
        by_cases ends : pattern <:+ before
        · rw [if_pos ends, if_pos (ends.trans (List.suffix_cons _ _)), Option.map_some, List.length_cons,
            Nat.succ_sub ends.length_le]
        · rw [if_neg ends, if_neg fun more => (List.suffix_cons_iff.mp more).elim same ends, Option.map_map,
            List.length_cons]
          rfl

/-- A pattern whose last item is missing behind a text is found in the text or nowhere. -/
theorem find_append_eq_none (nowhere : find (pattern ++ [mark]) text = none) (missing : mark ∉ rest) :
    find (pattern ++ [mark]) (text ++ rest) = none := by
  induction text with
  | nil => exact find_eq_none (by simp) missing
  | cons a text ih =>
      have apart : ¬pattern ++ [mark] <+: a :: text := by
        intro starts
        rw [find_at_start starts] at nowhere
        cases nowhere
      have later : find (pattern ++ [mark]) text = none := by
        rw [find_later apart] at nowhere
        exact Option.map_eq_none_iff.mp nowhere
      rw [List.cons_append, find_later, ih later]
      · rfl
      · rintro ⟨tail, same⟩
        rw [← List.cons_append] at same
        rcases List.append_eq_append_iff.mp same with ⟨more, inside, _⟩ | ⟨more, across, behind⟩
        · exact apart ⟨more, inside.symm⟩
        · rcases List.eq_nil_or_concat more with rfl | ⟨front, last, rfl⟩
          · rw [List.append_nil] at across
            exact apart (across ▸ List.prefix_rfl)
          · rw [List.concat_eq_append, ← List.append_assoc] at across
            have same : mark = last := List.singleton_inj.mp (List.append_inj_right' across rfl)
            exact missing (by simp [behind, same])

/-- The first position that the pattern starts at. -/
theorem find_eq_some {position : Nat} (found : find pattern text = some position) :
    pattern <+: text.drop position ∧ ∀ earlier < position, ¬pattern <+: text.drop earlier := by
  induction text generalizing position with
  | nil =>
      rw [find] at found
      split at found
      next empty =>
          cases found
          rw [empty]
          exact ⟨List.nil_prefix, fun earlier less => absurd less (Nat.not_lt_zero _)⟩
      · cases found
  | cons a rest ih =>
      by_cases starts : pattern <+: a :: rest
      · rw [find_at_start starts] at found
        cases found
        exact ⟨starts, fun earlier less => absurd less (Nat.not_lt_zero _)⟩
      · rw [find_later starts] at found
        obtain ⟨behind, later, rfl⟩ := Option.map_eq_some_iff.mp found
        obtain ⟨here, before⟩ := ih later
        refine ⟨here, ?_⟩
        intro earlier less
        cases earlier with
        | zero => exact starts
        | succ earlier => exact before earlier (Nat.lt_of_succ_lt_succ less)

theorem find_isSome {position : Nat} (starts : pattern <+: text.drop position) (filled : pattern ≠ []) :
    ∃ first ≤ position, find pattern text = some first := by
  induction text generalizing position with
  | nil => exact absurd (List.prefix_nil.mp (by simpa using starts)) filled
  | cons a rest ih =>
      by_cases here : pattern <+: a :: rest
      · exact ⟨0, Nat.zero_le _, find_at_start here⟩
      · cases position with
        | zero => exact absurd starts here
        | succ position =>
            obtain ⟨first, before, found⟩ := ih starts
            refine ⟨first + 1, Nat.succ_le_succ before, ?_⟩
            rw [find_later here, found]
            rfl

omit [DecidableEq α] in
theorem concat_suffix_concat {b : α} : text ++ [a] <:+ rest ++ [b] ↔ text <:+ rest ∧ a = b := by
  rw [List.suffix_concat_iff]
  constructor
  · rintro (empty | ⟨front, same, ends⟩)
    · simp at empty
    · obtain ⟨rfl, last⟩ := List.append_inj' same rfl
      exact ⟨ends, List.singleton_inj.mp last⟩
  · rintro ⟨ends, rfl⟩
    exact .inr ⟨text, rfl, ends⟩

/-! ## Replacing -/

/-- The rest of a text behind `skip` items, with every occurrence of the pattern replaced. -/
def replaceFrom (pattern into : List α) : Nat → List α → List α
  | _, [] => []
  | skip + 1, _ :: rest => replaceFrom pattern into skip rest
  | 0, a :: rest =>
    if pattern.isPrefixOf (a :: rest) then into ++ replaceFrom pattern into (pattern.length - 1) rest
    else a :: replaceFrom pattern into 0 rest

def replace (pattern into text : List α) : List α := replaceFrom pattern into 0 text

variable {into body : List α}

theorem replaceFrom_append (text rest : List α) : replaceFrom pattern into text.length (text ++ rest) = replace pattern into rest := by
  induction text with
  | nil => rfl
  | cons a text ih => rw [List.length_cons, List.cons_append, replaceFrom, ih]

theorem replace_occurrence (rest : List α) :
    replace (mark :: pattern) into (mark :: pattern ++ rest) = into ++ replace (mark :: pattern) into rest := by
  have starts : (mark :: pattern).isPrefixOf (mark :: (pattern ++ rest)) = true :=
    List.isPrefixOf_iff_prefix.mpr (List.prefix_append (mark :: pattern) rest)
  rw [replace, List.cons_append, replaceFrom, if_pos starts, List.length_cons, Nat.add_sub_cancel, replaceFrom_append]

theorem replace_unmarked (missing : mark ∉ text) (rest : List α) :
    replace (mark :: pattern) into (text ++ rest) = text ++ replace (mark :: pattern) into rest := by
  induction text with
  | nil => rfl
  | cons a text ih =>
      obtain ⟨apart, later⟩ := not_or.mp (List.mem_cons.not.mp missing)
      rw [List.cons_append, replace, replaceFrom, if_neg]
      · exact congrArg (a :: ·) (ih later)
      · intro starts
        exact apart (List.cons_prefix_cons.mp (List.isPrefixOf_iff_prefix.mp starts)).1

theorem replace_other (apart : ¬pattern <+: body ++ rest) (missing : mark ∉ body) :
    replace (mark :: pattern) into (mark :: body ++ rest) = mark :: body ++ replace (mark :: pattern) into rest := by
  rw [List.cons_append, replace, replaceFrom, if_neg, ← replace, replace_unmarked missing, List.cons_append]
  intro starts
  exact apart (List.cons_prefix_cons.mp (List.isPrefixOf_iff_prefix.mp starts)).2

/-- One piece of a coded text under a replacement: the pattern itself, a piece without the mark, or one that begins
with the mark and goes on in another way. -/
def Replaces (mark : α) (pattern into piece piece' : List α) : Prop :=
  piece = mark :: pattern ∧ piece' = into ∨ mark ∉ piece ∧ piece' = piece ∨
    ∃ body, piece = mark :: body ∧ mark ∉ body ∧ (∀ rest, ¬pattern <+: body ++ rest) ∧ piece' = piece

theorem replace_flatMap {β : Type v} {code code' : β → List α}
    (each : ∀ b, Replaces mark pattern into (code b) (code' b)) (text : List β) :
    replace (mark :: pattern) into (text.flatMap code) = text.flatMap code' := by
  induction text with
  | nil => rfl
  | cons b text ih =>
      rw [List.flatMap_cons, List.flatMap_cons, ← ih]
      rcases each b with ⟨same, same'⟩ | ⟨missing, same⟩ | ⟨body, coded, missing, apart, same⟩
      · rw [same, same', replace_occurrence]
      · rw [same, replace_unmarked missing]
      · rw [same, coded, replace_other (apart _) missing]

end AlLanguage.Library.Substrings
