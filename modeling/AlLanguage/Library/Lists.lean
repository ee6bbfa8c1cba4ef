import Mathlib

/-!
# Lists in a given order

Facts about lists that are pairwise related and about stable insertion sort.
-/

namespace AlLanguage.Library

universe u v w

variable {α : Type w}

theorem pairwise_eq_or {R : α → α → Prop} {entries : List α} (ordered : entries.Pairwise R)
    {a b : α} (left : a ∈ entries) (right : b ∈ entries) : a = b ∨ R a b ∨ R b a := by
  induction ordered with
  | nil => simp at left
  | cons below _ ih =>
      rcases List.mem_cons.mp left with rfl | leftTail <;> rcases List.mem_cons.mp right with rfl | rightTail
      · exact .inl rfl
      · exact .inr (.inl (below b rightTail))
      · exact .inr (.inr (below a leftTail))
      · exact ih leftTail rightTail

/-- What holds of each member and the members behind it. -/
theorem forall_cons_split {P : α → List α → Prop} {a : α} {entries : List α} :
    (∀ front b behind, a :: entries = front ++ b :: behind → P b behind) ↔
      P a entries ∧ ∀ front b behind, entries = front ++ b :: behind → P b behind := by
  constructor
  · intro all
    refine ⟨all [] a entries rfl, ?_⟩
    intro front b behind split
    exact all (a :: front) b behind (congrArg (a :: ·) split)
  · rintro ⟨first, later⟩ front b behind split
    cases front with
    | nil =>
        obtain ⟨rfl, rfl⟩ := List.cons.inj split
        exact first
    | cons c front => exact later front b behind (List.cons.inj split).2

/-- A filter that lets one more member through keeps more. -/
theorem length_filter_lt {p q : α → Bool} {entries : List α} (within : ∀ a ∈ entries, p a = true → q a = true) {a : α}
    (member : a ∈ entries) (kept : q a = true) (dropped : ¬p a = true) :
    (entries.filter p).length < (entries.filter q).length := by
  have both : entries.filter p = (entries.filter q).filter p := by
    rw [List.filter_filter]
    apply List.filter_congr
    intro b inside
    cases here : p b with
    | true => rw [within b inside here]; rfl
    | false => rfl
  rw [both, List.length_filter_lt_length_iff_exists]
  exact ⟨a, List.mem_filter.mpr ⟨member, kept⟩, dropped⟩

theorem pairwise_iff_of_ordered {R P : α → α → Prop} {entries : List α} (ordered : entries.Pairwise R)
    (asymmetric : ∀ a b, R a b → ¬R b a) :
    entries.Pairwise P ↔ ∀ a ∈ entries, ∀ b ∈ entries, R a b → P a b := by
  constructor
  · intro related a left b right before
    rcases pairwise_eq_or (ordered.and related) left right with rfl | ⟨_, here⟩ | ⟨after, _⟩
    · exact absurd before (asymmetric a a before)
    · exact here
    · exact absurd after (asymmetric a b before)
  · intro each
    apply ordered.imp_of_mem
    intro a b left right before
    exact each a left b right before

/-- An order without ties leaves one way to list the members. -/
theorem eq_of_ordered {R : α → α → Prop} {entries entries' : List α} (asymmetric : ∀ a b, R a b → ¬R b a)
    (ordered : entries.Pairwise R) (ordered' : entries'.Pairwise R) (members : ∀ a, a ∈ entries ↔ a ∈ entries') :
    entries = entries' := by
  have distinct {items : List α} (pairs : items.Pairwise R) : items.Nodup := by
    apply pairs.imp
    rintro a _ before rfl
    exact asymmetric a a before before
  have permuted : entries.Perm entries' := (List.perm_ext_iff_of_nodup (distinct ordered) (distinct ordered')).mpr members
  exact permuted.eq_of_pairwise (fun a b _ _ before after => absurd after (asymmetric a b before)) ordered ordered'

/-- An item of joined lists, in the list that it comes from. -/
theorem split_flatMap {β : Type v} {f : α → List β} {items : List α} {before after : List β} {b : β}
    (split : items.flatMap f = before ++ b :: after) :
    ∃ a ∈ items, ∃ front back, f a = front ++ b :: back ∧ ∀ c ∈ front, c ∈ before := by
  induction items generalizing before with
  | nil => simp at split
  | cons a rest ih =>
      rw [List.flatMap_cons] at split
      have later : ∀ {front}, rest.flatMap f = front ++ b :: after → (∀ c ∈ front, c ∈ before) →
          ∃ a' ∈ a :: rest, ∃ front back, f a' = front ++ b :: back ∧ ∀ c ∈ front, c ∈ before := by
        intro front split within
        obtain ⟨a', member, front', back, own, early⟩ := ih split
        exact ⟨a', List.mem_cons_of_mem _ member, front', back, own, fun c inside => within c (early c inside)⟩
      rcases List.append_eq_append_iff.mp split with ⟨front, rfl, tail⟩ | ⟨front, own, tail⟩
      · exact later tail fun c inside => List.mem_append_right _ inside
      · cases front with
        | nil => exact @later [] tail.symm fun c inside => nomatch inside
        | cons first back =>
            obtain ⟨rfl, -⟩ := List.cons.inj tail
            exact ⟨a, List.mem_cons_self, before, back, own, fun c inside => inside⟩

theorem mapM_congr {m : Type u → Type v} [Monad m] [LawfulMonad m] {β : Type u} {f g : α → m β} {items : List α}
    (agree : ∀ a ∈ items, f a = g a) : items.mapM f = items.mapM g := by
  induction items with
  | nil => rfl
  | cons head rest ih =>
      rw [List.mapM_cons, List.mapM_cons, agree head (List.mem_cons_self ..),
        ih fun a member => agree a (List.mem_cons_of_mem _ member)]

/-- A successful `mapM` has one result for each item. -/
theorem forall₂_of_mapM_ok {ε : Type u} {β : Type v} {f : α → Except ε β} {items : List α} {results : List β}
    (done : items.mapM f = .ok results) : List.Forall₂ (fun a b => f a = .ok b) items results := by
  induction items generalizing results with
  | nil =>
      cases done
      exact .nil
  | cons head rest ih =>
      rw [List.mapM_cons] at done
      cases first : f head with
      | error e => simp [first, bind, Except.bind] at done
      | ok b =>
          cases later : rest.mapM f with
          | error e => simp [first, later, bind, Except.bind] at done
          | ok bs =>
              simp only [first, later, bind, Except.bind, pure, Except.pure, Except.ok.injEq] at done
              subst done
              exact .cons first (ih later)

theorem exists_mapM_ok {ε : Type u} {β : Type v} {f : α → Except ε β} {items : List α}
    (each : ∀ a ∈ items, ∃ b, f a = .ok b) : ∃ results, items.mapM f = .ok results := by
  induction items with
  | nil => exact ⟨[], rfl⟩
  | cons head rest ih =>
      obtain ⟨b, first⟩ := each head (List.mem_cons_self ..)
      obtain ⟨bs, later⟩ := ih fun a member => each a (List.mem_cons_of_mem _ member)
      exact ⟨b :: bs, by rw [List.mapM_cons, first, later]; rfl⟩

theorem exists_of_forall₂ {β : Type v} {R : α → β → Prop} {items : List α} {results : List β}
    (related : List.Forall₂ R items results) :
    (∀ a ∈ items, ∃ b ∈ results, R a b) ∧ ∀ b ∈ results, ∃ a ∈ items, R a b := by
  induction related with
  | nil => simp
  | cons head _ ih => simp_all

theorem map_eq_of_forall₂ {β : Type v} {R : α → β → Prop} {g : β → α} {items : List α} {results : List β}
    (related : List.Forall₂ R items results) (inverse : ∀ a b, R a b → g b = a) : results.map g = items := by
  induction related with
  | nil => rfl
  | cons head _ ih => rw [List.map_cons, inverse _ _ head, ih]

/-! ## Stable sorting -/

section Sorting

variable {r r' : α → α → Prop} [DecidableRel r] [DecidableRel r']

theorem orderedInsert_congr {a : α} {items : List α} (agree : ∀ b ∈ items, r a b ↔ r' a b) :
    items.orderedInsert r a = items.orderedInsert r' a := by
  induction items with
  | nil => rfl
  | cons head rest ih =>
      rw [List.orderedInsert_cons, List.orderedInsert_cons, ih fun b member => agree b (List.mem_cons_of_mem _ member)]
      exact if_congr (agree head (List.mem_cons_self ..)) rfl rfl

-- Insertion asks for each pair once, the earlier item on the left.
theorem insertionSort_eq_iff [Std.Total r] [IsTrans α r] [Std.Total r'] [IsTrans α r'] {items : List α} :
    items.insertionSort r = items.insertionSort r' ↔ items.Pairwise fun a b => r a b ↔ r' a b := by
  constructor
  · intro equal
    rw [List.pairwise_iff_forall_sublist]
    intro a b sublist
    have sorted := List.pairwise_insertionSort r items
    have sorted' := List.pairwise_insertionSort r' items
    constructor
    · intro before
      have inside := List.pair_sublist_insertionSort before sublist
      rw [equal] at inside
      exact List.pairwise_iff_forall_sublist.mp sorted' inside
    · intro before
      have inside := List.pair_sublist_insertionSort before sublist
      rw [← equal] at inside
      exact List.pairwise_iff_forall_sublist.mp sorted inside
  · intro agree
    induction items with
    | nil => rfl
    | cons head rest ih =>
        obtain ⟨first, later⟩ := List.pairwise_cons.mp agree
        rw [List.insertionSort_cons, List.insertionSort_cons, ih later]
        apply orderedInsert_congr
        intro b member
        exact first b ((List.mem_insertionSort r').mp member)

theorem head?_orderedInsert (a : α) (items : List α) :
    (items.orderedInsert r a).head? = some (items.head?.elim a fun b => if r a b then a else b) := by
  cases items with
  | nil => rfl
  | cons b rest =>
      rw [List.orderedInsert_cons, List.head?_cons, Option.elim_some]
      split <;> rfl

/-- A sorted list begins with the first of the least items. -/
theorem head?_insertionSort [Std.Total r] [IsTrans α r] {items : List α} {a : α} :
    (items.insertionSort r).head? = some a ↔
      ∃ before after, items = before ++ a :: after ∧ (∀ b ∈ items, r a b) ∧ ∀ b ∈ before, ¬r b a := by
  have itself : ∀ b, r b b := fun b => (Std.Total.total b b).elim id id
  induction items generalizing a with
  | nil => simp
  | cons first rest ih =>
      rw [List.insertionSort_cons, head?_orderedInsert, Option.some_inj]
      constructor
      · intro found
        cases order : (rest.insertionSort r).head? with
        | none =>
            have none : rest = [] := by
              simpa [← List.length_eq_zero_iff] using List.head?_eq_none_iff.mp order
            rw [order, Option.elim_none] at found
            obtain rfl := found
            exact ⟨[], rest, rfl, by simp [none, itself], by simp⟩
        | some least =>
            obtain ⟨before, after, split, below, later⟩ := ih.mp order
            rw [order, Option.elim_some] at found
            split at found
            next ahead =>
              obtain rfl := found
              refine ⟨[], rest, rfl, ?_, by simp⟩
              intro b inside
              rcases List.mem_cons.mp inside with rfl | later
              · exact itself b
              · exact Trans.trans ahead (below b later)
            next behind =>
              obtain rfl := found
              refine ⟨first :: before, after, by rw [split, List.cons_append], ?_, ?_⟩
              · intro b inside
                rcases List.mem_cons.mp inside with rfl | rest
                · exact (Std.Total.total b least).resolve_left behind
                · exact below b rest
              · intro b inside
                rcases List.mem_cons.mp inside with rfl | rest
                · exact behind
                · exact later b rest
      · rintro ⟨_ | ⟨front, before⟩, after, split, below, later⟩
        · obtain ⟨rfl, rfl⟩ := List.cons.inj split
          cases order : (rest.insertionSort r).head? with
          | none => rfl
          | some b =>
              have inside : b ∈ rest := (List.mem_insertionSort r).mp (List.mem_of_head? order)
              exact if_pos (below b (List.mem_cons_of_mem _ inside))
        · obtain ⟨rfl, rfl⟩ := List.cons.inj split
          have found := ih.mpr ⟨before, after, rfl, fun b inside => below b (List.mem_cons_of_mem _ inside),
            fun b inside => later b (List.mem_cons_of_mem _ inside)⟩
          rw [found]
          exact if_neg (later first List.mem_cons_self)

end Sorting

/-! ## Sums over a list that changes -/

section Sums

variable (f : α → Nat) (entries : List α)

theorem sum_perm {f : α → Nat} {a b : List α} (perm : a.Perm b) : (a.map f).sum = (b.map f).sum :=
  (perm.map f).sum_nat

theorem sum_eraseIdx {n : Nat} (within : n < entries.length) :
    f entries[n] + ((entries.eraseIdx n).map f).sum = (entries.map f).sum := by
  have perm := sum_perm (f := f) (List.getElem_cons_eraseIdx_perm within)
  rw [List.map_cons, List.sum_cons] at perm
  exact perm

theorem sum_set {n : Nat} (within : n < entries.length) (a : α) :
    ((entries.set n a).map f).sum + f entries[n] = (entries.map f).sum + f a := by
  have erased := sum_eraseIdx f entries within
  have perm := sum_perm (f := f) (List.set_perm_cons_eraseIdx within a)
  rw [List.map_cons, List.sum_cons] at perm
  omega

theorem sum_insertIdx {n : Nat} (within : n ≤ entries.length) (a : α) :
    ((entries.insertIdx n a).map f).sum = f a + (entries.map f).sum := by
  have perm := sum_perm (f := f) (List.perm_insertIdx a entries within)
  rw [List.map_cons, List.sum_cons] at perm
  exact perm

/-- A range is taken out of the middle. -/
theorem sum_range (start count : Nat) :
    (((entries.drop start).take count).map f).sum + ((entries.take start ++ entries.drop (start + count)).map f).sum =
      (entries.map f).sum := by
  have whole : entries = entries.take start ++ ((entries.drop start).take count ++ entries.drop (start + count)) := by
    rw [← List.drop_drop, List.take_append_drop, List.take_append_drop]
  have sums := congrArg (fun list => (list.map f).sum) whole
  simp only [List.map_append, List.sum_append] at sums ⊢
  omega

end Sums

end AlLanguage.Library
