import AlLanguage.Library.Lists

/-!
# Items in conflict

- One after the other, an item is chosen when no earlier chosen one is in conflict with it.
- Items with a number and a name are in conflict when they share one of them, and the smaller number comes first.
- What a base keeps, and what is chosen of the items that are added to it.
-/

namespace AlLanguage.Library

universe u v w

variable {α : Type u}

/-! ## Choosing -/

section Choosing

variable (conflict : α → α → Prop) [DecidableRel conflict]

/-- The items that are chosen after the others. -/
def choose (chosen : List α) : List α → List α
  | [] => []
  | a :: rest => if ∃ b ∈ chosen, conflict b a then choose chosen rest else a :: choose (a :: chosen) rest

theorem choose_sublist (chosen items : List α) : (choose conflict chosen items).Sublist items := by
  induction items generalizing chosen with
  | nil => exact List.Sublist.refl _
  | cons a rest ih =>
      rw [choose]
      split
      · exact (ih chosen).cons a
      · exact (ih (a :: chosen)).cons_cons a

theorem choose_free {chosen items : List α} {a : α} (member : a ∈ choose conflict chosen items) :
    ∀ b ∈ chosen, ¬conflict b a := by
  induction items generalizing chosen with
  | nil => cases member
  | cons first rest ih =>
      rw [choose] at member
      split at member
      · exact ih member
      next free =>
        rcases List.mem_cons.mp member with rfl | later
        · exact fun b inside clash => free ⟨b, inside, clash⟩
        · exact fun b inside => ih later b (List.mem_cons_of_mem _ inside)

theorem choose_pairwise (chosen items : List α) : (choose conflict chosen items).Pairwise fun a b => ¬conflict a b := by
  induction items generalizing chosen with
  | nil => exact List.Pairwise.nil
  | cons a rest ih =>
      rw [choose]
      split
      · exact ih chosen
      · refine List.Pairwise.cons ?_ (ih (a :: chosen))
        intro b member
        exact choose_free conflict member a List.mem_cons_self

/-- An item that is not chosen is in conflict with an earlier chosen one. -/
theorem choose_blocked {chosen before after : List α} {a : α}
    (dropped : a ∉ choose conflict chosen (before ++ a :: after)) :
    (∃ b ∈ chosen, conflict b a) ∨
      ∃ b ∈ before, b ∈ choose conflict chosen (before ++ a :: after) ∧ conflict b a := by
  induction before generalizing chosen with
  | nil =>
      left
      by_contra free
      rw [List.nil_append, choose, if_neg free] at dropped
      exact dropped List.mem_cons_self
  | cons first before ih =>
      rw [List.cons_append, choose] at dropped ⊢
      split at dropped
      next clash =>
        rw [if_pos clash]
        rcases ih dropped with early | ⟨b, inside, kept, blocks⟩
        · exact .inl early
        · exact .inr ⟨b, List.mem_cons_of_mem _ inside, kept, blocks⟩
      next free =>
        rw [if_neg free]
        rcases ih fun inside => dropped (List.mem_cons_of_mem _ inside) with ⟨b, inside, blocks⟩ | ⟨b, inside, kept, blocks⟩
        · rcases List.mem_cons.mp inside with rfl | early
          · exact .inr ⟨b, List.mem_cons_self, List.mem_cons_self, blocks⟩
          · exact .inl ⟨b, early, blocks⟩
        · exact .inr ⟨b, List.mem_cons_of_mem _ inside, List.mem_cons_of_mem _ kept, blocks⟩

end Choosing

section Numbered

variable {ν : Type v} {κ : Type w} [LinearOrder ν] (number : α → ν)

/-! ## Stable sorting -/

/-- By number; items with one number stay in their order. -/
def byNumber (items : List α) : List α := items.insertionSort fun a b => number a ≤ number b

theorem filter_orderedInsert (a : α) (items : List α) (n : ν) :
    (items.orderedInsert (fun a b => number a ≤ number b) a).filter (number · = n) =
      (a :: items).filter (number · = n) := by
  induction items with
  | nil => rfl
  | cons b rest ih =>
      rw [List.orderedInsert_cons]
      split
      · rfl
      next above =>
        by_cases same : number b = n
        · have other : number a ≠ n := fun equal => above (equal.trans same.symm).le
          simp_all
        · simp only [List.filter_cons] at ih ⊢
          simp [same, ih]

theorem filter_byNumber (items : List α) (n : ν) :
    (byNumber number items).filter (number · = n) = items.filter (number · = n) := by
  induction items with
  | nil => rfl
  | cons a rest ih =>
      rw [byNumber, List.insertionSort_cons, filter_orderedInsert]
      simp only [List.filter_cons]
      rw [← byNumber, ih]

theorem mem_byNumber {items : List α} {a : α} : a ∈ byNumber number items ↔ a ∈ items :=
  List.mem_insertionSort _

theorem byNumber_pairwise (items : List α) : (byNumber number items).Pairwise fun a b => number a ≤ number b :=
  have : Std.Total fun a b : α => number a ≤ number b := ⟨fun a b => le_total (number a) (number b)⟩
  have : IsTrans α fun a b => number a ≤ number b := ⟨fun _ _ _ => le_trans⟩
  List.pairwise_insertionSort _ _

/-! ## Numbers and names -/

variable [DecidableEq κ] (name : α → κ)

/-- Two items with one number or one name. -/
def Conflict (a b : α) : Prop := number a = number b ∨ name a = name b

instance : DecidableRel (Conflict number name) := fun _ _ => inferInstanceAs (Decidable (_ ∨ _))

/-- The items that stay. -/
def stays (items : List α) : List α := choose (Conflict number name) [] (byNumber number items)

variable {number name} {items : List α}

omit [LinearOrder ν] [DecidableEq κ] in
theorem Conflict.symm {a b : α} (clash : Conflict number name a b) : Conflict number name b a :=
  clash.imp Eq.symm Eq.symm

theorem mem_of_stays {a : α} (kept : a ∈ stays number name items) : a ∈ items :=
  (mem_byNumber number).mp ((choose_sublist ..).subset kept)

theorem stays_ascending : (stays number name items).Pairwise fun a b => number a < number b := by
  have ordered := (byNumber_pairwise number items).sublist (choose_sublist (Conflict number name) [] _)
  apply (ordered.and (choose_pairwise (Conflict number name) [] (byNumber number items))).imp
  intro a b both
  exact lt_of_le_of_ne both.1 fun same => both.2 (.inl same)

/-- No two items that stay share a number or a name. -/
theorem eq_of_conflict {a b : α} (keptA : a ∈ stays number name items) (keptB : b ∈ stays number name items)
    (clash : Conflict number name a b) : a = b := by
  rcases pairwise_eq_or (choose_pairwise (Conflict number name) [] (byNumber number items)) keptA keptB with
    same | apart | apart
  · exact same
  · exact absurd clash apart
  · exact absurd clash.symm apart

omit [DecidableEq κ] in
theorem le_of_before {before after : List α} {a b : α} (sorted : byNumber number items = before ++ a :: after)
    (inside : b ∈ before) : number b ≤ number a := by
  have ordered := byNumber_pairwise number items
  rw [sorted] at ordered
  exact (List.pairwise_append.mp ordered).2.2 b inside a List.mem_cons_self

theorem blocked {before after : List α} {a : α} (sorted : byNumber number items = before ++ a :: after)
    (dropped : a ∉ stays number name items) : ∃ b ∈ before, b ∈ stays number name items ∧ Conflict number name b a := by
  rw [stays, sorted] at dropped ⊢
  rcases choose_blocked _ dropped with ⟨b, inside, -⟩ | found
  · cases inside
  · exact found

/-- An item that does not stay is in conflict with one that does. -/
theorem conflict_of_dropped {a : α} (member : a ∈ items) (dropped : a ∉ stays number name items) :
    ∃ b ∈ stays number name items, number b ≤ number a ∧ Conflict number name b a := by
  obtain ⟨before, after, sorted⟩ := List.append_of_mem ((mem_byNumber number).mpr member)
  obtain ⟨b, inside, kept, clash⟩ := blocked sorted dropped
  exact ⟨b, kept, le_of_before sorted inside, clash⟩

/-- The first item with its number gives way to a smaller number with its name only. -/
theorem smaller_of_dropped {a : α} {rest : List α} (first : items.filter (number · = number a) = a :: rest)
    (dropped : a ∉ stays number name items) :
    ∃ b ∈ stays number name items, number b < number a ∧ name b = name a := by
  rw [← filter_byNumber] at first
  obtain ⟨before, after, sorted, others, -⟩ := List.filter_eq_cons_iff.mp first
  obtain ⟨b, inside, kept, clash⟩ := blocked sorted dropped
  have other : number b ≠ number a := by simpa using others b inside
  exact ⟨b, kept, lt_of_le_of_ne (le_of_before sorted inside) other, clash.resolve_left other⟩

theorem stays_congr {others : List α} (same : ∀ a, a ∈ stays number name items ↔ a ∈ stays number name others) :
    stays number name items = stays number name others :=
  eq_of_ordered (fun _ _ before after => lt_asymm before after) stays_ascending stays_ascending same

/-! ## A base and what is added to it -/

section Base

variable (number name) (base added : List α)

/-- An added item that neither the base nor a smaller number with its name keeps out. -/
structure Leads (a : α) : Prop where
  offered : a ∈ added
  free : ∀ b ∈ base, ¬Conflict number name b a
  ahead : ∀ c ∈ added, number c < number a → name c = name a → ∃ b ∈ base, Conflict number name b c

/-- A smaller number with a name of the base is a number of the base, and no number has two leading items. -/
structure Undisturbed : Prop where
  numbered : ∀ b ∈ base, ∀ a ∈ added, name a = name b → number a < number b → ∃ c ∈ base, number c = number a
  leaders : ∀ a c, Leads number name base added a → Leads number name base added c → number a = number c → a = c

variable {number name base added}

omit [DecidableEq κ] in
theorem by_number (number : α → ν) {P : α → Prop} {items : List α}
    (step : ∀ a ∈ items, (∀ b ∈ items, number b < number a → P b) → P a) : ∀ a ∈ items, P a := by
  have smaller : ∀ n, ∀ a ∈ items, (items.filter fun b => number b < number a).length < n → P a := by
    intro n
    induction n with
    | zero => exact fun a _ few => absurd few (Nat.not_lt_zero _)
    | succ n ih =>
        intro a member few
        apply step a member
        intro b inside below
        apply ih b inside
        have fewer := length_filter_lt (p := fun c => number c < number b) (q := fun c => number c < number a)
          (fun c _ under => by simpa using (of_decide_eq_true under).trans below) inside
          (by simpa using below) (by simp)
        omega
  exact fun a member => smaller _ a member (Nat.lt_succ_self _)

omit [DecidableEq κ] in
/-- The first item with a number. -/
theorem filter_first (after : List α) {before : List α} {a : α} (others : ∀ b ∈ before, number b ≠ number a) :
    ∃ rest, (before ++ a :: after).filter (number · = number a) = a :: rest := by
  refine ⟨_, List.filter_eq_cons_iff.mpr ⟨before, after, rfl, ?_, by simp, rfl⟩⟩
  intro b inside
  simpa using others b inside

omit [LinearOrder ν] [DecidableEq κ] in
theorem eq_of_apart (distinct : base.Pairwise fun a b => ¬Conflict number name a b) {a b : α} (left : a ∈ base)
    (right : b ∈ base) (clash : Conflict number name a b) : a = b := by
  rcases pairwise_eq_or distinct left right with same | apart | apart
  · exact same
  · exact absurd clash apart
  · exact absurd clash.symm apart

theorem base_stays (distinct : base.Pairwise fun a b => ¬Conflict number name a b)
    (undisturbed : Undisturbed number name base added) : ∀ b ∈ base, b ∈ stays number name (base ++ added) := by
  refine by_number number ?_
  intro b member ih
  by_contra dropped
  obtain ⟨before, after, rfl⟩ := List.append_of_mem member
  have others : ∀ c ∈ before, number c ≠ number b :=
    fun c inside same => (List.pairwise_append.mp distinct).2.2 c inside b List.mem_cons_self (.inl same)
  obtain ⟨rest, first⟩ := filter_first (after ++ added) others
  obtain ⟨x, kept, below, named⟩ := smaller_of_dropped (by simpa using first) dropped
  have outside : x ∉ before ++ b :: after := by
    intro inside
    rw [eq_of_apart distinct inside member (.inr named)] at below
    exact lt_irrefl _ below
  have among : x ∈ added := (List.mem_append.mp (mem_of_stays kept)).resolve_left outside
  obtain ⟨c, inside, same⟩ := undisturbed.numbered b member x among named below
  have both := eq_of_conflict (ih c inside (same ▸ below)) kept (.inl same)
  exact outside (both ▸ inside)

/-- An added item that the base leaves free leads, or a smaller number with its name does. -/
theorem exists_leader : ∀ a ∈ added, (∀ b ∈ base, ¬Conflict number name b a) →
    ∃ c, Leads number name base added c ∧ name c = name a ∧ (c = a ∨ number c < number a) := by
  refine by_number number ?_
  intro a member ih free
  by_cases ahead : ∀ c ∈ added, number c < number a → name c = name a → ∃ b ∈ base, Conflict number name b c
  · exact ⟨a, ⟨member, free, ahead⟩, rfl, .inl rfl⟩
  · push Not at ahead
    obtain ⟨c, inside, below, named, open_⟩ := ahead
    obtain ⟨d, leads, same, order⟩ := ih c inside below open_
    refine ⟨d, leads, same.trans named, .inr ?_⟩
    rcases order with rfl | under
    · exact below
    · exact under.trans below

theorem leads_stays (distinct : base.Pairwise fun a b => ¬Conflict number name a b)
    (undisturbed : Undisturbed number name base added) :
    ∀ a ∈ added, Leads number name base added a → a ∈ stays number name (base ++ added) := by
  refine by_number number ?_
  intro a member ih leads
  by_contra dropped
  obtain ⟨x, kept, below, clash⟩ := conflict_of_dropped (List.mem_append_right base member) dropped
  have outside : x ∉ base := fun inside => leads.free x inside clash
  have among : x ∈ added := (List.mem_append.mp (mem_of_stays kept)).resolve_left outside
  have free : ∀ b ∈ base, ¬Conflict number name b x := by
    intro b inside blocks
    have same := eq_of_conflict (base_stays distinct undisturbed b inside) kept blocks
    exact outside (same ▸ inside)
  obtain ⟨c, first, named, rfl | under⟩ := exists_leader x among free
  · by_cases same : number c = number a
    · rw [undisturbed.leaders c a first leads same] at kept
      exact dropped kept
    · obtain ⟨b, inside, blocks⟩ := leads.ahead c among (lt_of_le_of_ne below same) (clash.resolve_left same)
      exact free b inside blocks
  · have early := ih c first.offered (under.trans_le below) first
    rw [eq_of_conflict early kept (.inr named)] at under
    exact lt_irrefl _ under

/-- What stays of an undisturbed base and the added items does not depend on their order. -/
theorem mem_stays_iff (distinct : base.Pairwise fun a b => ¬Conflict number name a b)
    (undisturbed : Undisturbed number name base added) (a : α) :
    a ∈ stays number name (base ++ added) ↔ a ∈ base ∨ Leads number name base added a := by
  constructor
  · intro kept
    by_cases inside : a ∈ base
    · exact .inl inside
    · have among : a ∈ added := (List.mem_append.mp (mem_of_stays kept)).resolve_left inside
      have free : ∀ b ∈ base, ¬Conflict number name b a := by
        intro b member blocks
        have same := eq_of_conflict (base_stays distinct undisturbed b member) kept blocks
        exact inside (same ▸ member)
      obtain ⟨c, first, named, rfl | under⟩ := exists_leader a among free
      · exact .inr first
      · have early := leads_stays distinct undisturbed c first.offered first
        rw [eq_of_conflict early kept (.inr named)] at under
        exact absurd under (lt_irrefl _)
  · rintro (inside | leads)
    · exact base_stays distinct undisturbed a inside
    · exact leads_stays distinct undisturbed a leads.offered leads

omit [DecidableEq κ] in
theorem Leads.congr {others : List α} (same : ∀ a, a ∈ added ↔ a ∈ others) {a : α}
    (leads : Leads number name base added a) : Leads number name base others a :=
  ⟨(same a).mp leads.offered, leads.free, fun c inside => leads.ahead c ((same c).mpr inside)⟩

omit [DecidableEq κ] in
theorem Undisturbed.congr {others : List α} (same : ∀ a, a ∈ added ↔ a ∈ others)
    (undisturbed : Undisturbed number name base added) : Undisturbed number name base others := by
  constructor
  · intro b member a inside
    exact undisturbed.numbered b member a ((same a).mpr inside)
  · intro a c leadsA leadsC
    exact undisturbed.leaders a c (leadsA.congr fun x => (same x).symm) (leadsC.congr fun x => (same x).symm)

/-! ### Whatever comes first -/

variable {settled : List α}

/-- Any added item can come before all others with its number. -/
def Foremost (number : α → ν) (name : α → κ) (base added settled : List α) : Prop :=
  ∀ a ∈ added, ∃ front rest, a ∈ front ∧ front.Pairwise (number · ≠ number ·) ∧ (∀ c ∈ front ++ rest, c ∈ added) ∧
    stays number name (base ++ (front ++ rest)) = settled

theorem foremost_stays (foremost : Foremost number name base added settled) {a : α} (member : a ∈ added)
    (unnumbered : ∀ b ∈ base, number b ≠ number a) (dropped : a ∉ settled) :
    ∃ b ∈ settled, b ∈ base ++ added ∧ number b < number a ∧ name b = name a := by
  obtain ⟨front, rest, inside, distinct, within, rfl⟩ := foremost a member
  obtain ⟨before, after, rfl⟩ := List.append_of_mem inside
  have others : ∀ c ∈ base ++ before, number c ≠ number a := by
    intro c early
    rcases List.mem_append.mp early with base | front
    · exact unnumbered c base
    · exact (List.pairwise_append.mp distinct).2.2 c front a List.mem_cons_self
  obtain ⟨tail, first⟩ := filter_first (after ++ rest) others
  obtain ⟨b, kept, below, named⟩ := smaller_of_dropped (by simpa using first) dropped
  refine ⟨b, kept, ?_, below, named⟩
  rcases List.mem_append.mp (mem_of_stays kept) with inBase | later
  · exact List.mem_append_left _ inBase
  · exact List.mem_append_right _ (within b later)

/-- A base that stays, with one outcome whatever comes first, is undisturbed. -/
theorem undisturbed_of_foremost (foremost : Foremost number name base added settled)
    (apart : settled.Pairwise fun a b => ¬Conflict number name a b) (held : ∀ b ∈ base, b ∈ settled) :
    Undisturbed number name base added := by
  constructor
  · intro b member a inside named below
    by_contra none
    push Not at none
    by_cases kept : a ∈ settled
    · rw [eq_of_apart apart kept (held b member) (.inr named)] at below
      exact lt_irrefl _ below
    · obtain ⟨x, early, -, under, same⟩ := foremost_stays foremost inside none kept
      rw [eq_of_apart apart early (held b member) (.inr (same.trans named))] at under
      exact lt_asymm under below
  · have kept : ∀ a, Leads number name base added a → a ∈ settled := by
      intro a leads
      by_contra dropped
      obtain ⟨x, early, member, under, named⟩ := foremost_stays foremost leads.offered
        (fun b inside same => leads.free b inside (.inl same)) dropped
      have outside : x ∉ base := fun inside => leads.free x inside (.inr named)
      have among : x ∈ added := (List.mem_append.mp member).resolve_left outside
      obtain ⟨b, inside, clash⟩ := leads.ahead x among under named
      exact outside (eq_of_apart apart (held b inside) early clash ▸ inside)
    intro a c leadsA leadsC same
    exact eq_of_apart apart (kept a leadsA) (kept c leadsC) (.inl same)

end Base

end Numbered

end AlLanguage.Library
