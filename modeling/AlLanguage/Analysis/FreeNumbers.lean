import AlLanguage.Analysis.FreeIds
import AlLanguage.Library.LeastNumbers
import Mathlib.Data.Int.Interval
import Mathlib.Order.Interval.Set.Infinite

/-!
# Which numbers an allocation returns

- The scans return the least free numbers, whatever the order of the ranges and whether they overlap.
- The number of free ones is summed range by range, so it is right when no free number lies in two ranges.
- Of several objects with one label the first one counts, so the numbers are right when the others add none that matters.
-/

namespace AlLanguage.Analysis

open Library AlLanguage.Runtime AlLanguage.Symbols

/-! ## The scan of the ranges -/

/-- The numbers from `start` up to `stop` that are not used. -/
def span (used : Finset Int) (start stop : Int) : Set Int := {n | start ≤ n ∧ n < stop ∧ n ∉ used}

/-- From `start` on, what lies below a member and is not used is a member. -/
def Filled (used : Finset Int) (start : Int) (numbers : Set Int) : Prop :=
  ∀ m ∈ numbers, ∀ n, start ≤ n → n ≤ m → n ∉ used → n ∈ numbers

theorem Filled.later {used : Finset Int} {start later : Int} {numbers : Set Int} (filled : Filled used start numbers)
    (order : start ≤ later) : Filled used later numbers :=
  fun m member n from_later below unused => filled m member n (order.trans from_later) below unused

/-- What the scan of one range leads to. -/
def Scanned (used : Finset Int) (count : Nat) (numbers : Set Int) (start stop : Int) : Except (List Int) Scan → Prop
  | .ok scan => Least count (numbers ∪ span used start stop) scan.free ∧ scan.free.length < count ∧
      ∀ n, n ∈ scan.emitted ↔ n ∈ scan.free
  | .error free => ∀ more, numbers ⊆ more → span used start stop ⊆ more →
      (∀ n ∈ more, n ∉ numbers → start ≤ n ∧ n ∉ used) → Least count more free

section Scans

variable {used : Finset Int} {count : Nat}

theorem scanned_skip {numbers : Set Int} {start stop : Int} {result : Except (List Int) Scan}
    (settled : start ∈ used ∨ start ∈ numbers) (scanned : Scanned used count numbers (start + 1) stop result)
    (more_room : start < stop) : Scanned used count numbers start stop result := by
  have same : numbers ∪ span used (start + 1) stop = numbers ∪ span used start stop := by
    ext n
    simp only [Set.mem_union, span, Set.mem_ofPred_eq]
    constructor
    · rintro (old | ⟨from_next, below, unused⟩)
      · exact .inl old
      · exact .inr ⟨by omega, below, unused⟩
    · rintro (old | ⟨from_start, below, unused⟩)
      · exact .inl old
      · by_cases here : n = start
        · subst here
          exact .inl (settled.resolve_left unused)
        · exact .inr ⟨by omega, below, unused⟩
  cases result with
  | ok scan =>
      rw [Scanned, same] at scanned
      exact scanned
  | error free =>
      intro more old new rest
      apply scanned more old
      · intro n member
        exact new ⟨by have := member.1; omega, member.2⟩
      · intro n member fresh
        obtain ⟨from_start, unused⟩ := rest n member fresh
        have other : n ≠ start := by
          rintro rfl
          exact settled.elim unused fresh
        exact ⟨by omega, unused⟩

theorem scanned_push {numbers : Set Int} {start stop : Int} {result : Except (List Int) Scan} (unused : start ∉ used)
    (scanned : Scanned used count (insert start numbers) (start + 1) stop result) (more_room : start < stop) :
    Scanned used count numbers start stop result := by
  have same : insert start numbers ∪ span used (start + 1) stop = numbers ∪ span used start stop := by
    ext n
    simp only [Set.mem_union, Set.mem_insert_iff, span, Set.mem_ofPred_eq]
    constructor
    · rintro ((rfl | old) | ⟨from_next, below, free⟩)
      · exact .inr ⟨Int.le_refl n, more_room, unused⟩
      · exact .inl old
      · exact .inr ⟨by omega, below, free⟩
    · rintro (old | ⟨from_start, below, free⟩)
      · exact .inl (.inr old)
      · by_cases here : n = start
        · exact .inl (.inl here)
        · exact .inr ⟨by omega, below, free⟩
  cases result with
  | ok scan =>
      rw [Scanned, same] at scanned
      exact scanned
  | error free =>
      intro more old new rest
      apply scanned more
      · exact Set.insert_subset (new ⟨Int.le_refl start, more_room, unused⟩) old
      · intro n member
        exact new ⟨by have := member.1; omega, member.2⟩
      · intro n member fresh
        rw [Set.mem_insert_iff, not_or] at fresh
        obtain ⟨from_start, free⟩ := rest n member fresh.2
        exact ⟨by have := fresh.1; omega, free⟩

theorem scanRange_scanned {todo : Nat} {candidate : Int} {scan : Scan} {numbers : Set Int}
    (least : Least count numbers scan.free) (room : scan.free.length < count)
    (same : ∀ n, n ∈ scan.emitted ↔ n ∈ scan.free) (filled : Filled used candidate numbers) :
    Scanned used count numbers candidate (candidate + todo) (scanRange used count todo candidate scan) := by
  induction todo generalizing candidate scan numbers with
  | zero =>
      have nothing : span used candidate (candidate + (0 : Nat)) = ∅ := by
        apply Set.eq_empty_of_forall_notMem
        intro n member
        have low := member.1
        have high := member.2.1
        omega
      rw [scanRange, Scanned, nothing, Set.union_empty]
      exact ⟨least, room, same⟩
  | succ todo ih =>
      have next : candidate + ((todo + 1 : Nat) : Int) = candidate + 1 + todo := by omega
      rw [scanRange, next]
      by_cases settled : candidate ∈ used ∨ candidate ∈ numbers
      · have kept : ¬(candidate ∉ used ∧ candidate ∉ scan.emitted) := by
          rintro ⟨unused, absent⟩
          have member := settled.resolve_left unused
          have full := (least.below candidate member fun listed => absent ((same candidate).mpr listed)).1
          omega
        rw [if_neg kept]
        apply scanned_skip settled _ (by omega)
        exact ih least room same (filled.later (by omega))
      · obtain ⟨unused, fresh⟩ := not_or.mp settled
        have absent : candidate ∉ scan.emitted := fun listed => fresh (least.inside _ ((same candidate).mp listed))
        have above : ∀ m ∈ scan.free, m < candidate := by
          intro m listed
          by_contra reached
          exact fresh (filled m (least.inside m listed) candidate (Int.le_refl _) (Int.not_lt.mp reached) unused)
        have pushed := least.push room above
        have filled' : Filled used candidate (insert candidate numbers) := by
          intro m member n from_candidate below free
          rcases member with rfl | old
          · exact .inl (by omega)
          · exact .inr (filled m old n from_candidate below free)
        rw [if_pos ⟨unused, absent⟩]
        dsimp only
        split
        next full =>
            intro more old new rest
            apply pushed.extend full
            · exact Set.insert_subset (new ⟨Int.le_refl _, by omega, unused⟩) old
            · intro n member fresh' m listed
              have outside : n ∉ numbers := fun old => fresh' (.inr old)
              obtain ⟨from_candidate, free⟩ := rest n member outside
              by_contra reached
              exact fresh' (filled' m (pushed.inside m listed) n from_candidate (Int.not_lt.mp reached) free)
        next open_ended =>
            apply scanned_push unused _ (by omega)
            apply ih pushed
            · exact Nat.lt_of_le_of_ne pushed.few open_ended
            · intro n
              simp only [Finset.mem_insert, List.mem_append, List.mem_singleton, same, or_comm]
            · exact filled'.later (by omega)

/-- The free numbers of some ranges. -/
def freeOf (used : Finset Int) (ranges : List IdRange) : Set Int :=
  {n | (∃ range ∈ ranges, range.contains n) ∧ n ∉ used}

theorem contains_iff {range : IdRange} {n : Int} : range.contains n = true ↔ range.fromId ≤ n ∧ n ≤ range.toId :=
  decide_eq_true_iff

theorem mem_span_range {range : IdRange} (forward : range.fromId ≤ range.toId) {n : Int} :
    n ∈ span used range.fromId (range.fromId + (range.toId + 1 - range.fromId).toNat) ↔
      range.contains n = true ∧ n ∉ used := by
  rw [contains_iff, span, Set.mem_ofPred_eq]
  have size : ((range.toId + 1 - range.fromId).toNat : Int) = range.toId + 1 - range.fromId := by omega
  rw [size]
  constructor
  · rintro ⟨low, high, unused⟩
    exact ⟨⟨low, by omega⟩, unused⟩
  · rintro ⟨⟨low, high⟩, unused⟩
    exact ⟨low, by omega, unused⟩

theorem scanRanges_least {ranges : List IdRange} {scan : Scan} {numbers : Set Int}
    (forward : ∀ range ∈ ranges, range.fromId ≤ range.toId) (ordered : ranges.Pairwise (·.fromId ≤ ·.fromId))
    (least : Least count numbers scan.free) (room : scan.free.length < count)
    (same : ∀ n, n ∈ scan.emitted ↔ n ∈ scan.free) (filled : ∀ range ∈ ranges, Filled used range.fromId numbers) :
    Least count (numbers ∪ freeOf used ranges)
      (match scanRanges used count ranges scan with
        | .error free => free
        | .ok scan => scan.free) := by
  induction ranges generalizing scan numbers with
  | nil =>
      have nothing : freeOf used [] = ∅ := by
        apply Set.eq_empty_of_forall_notMem
        rintro n ⟨⟨range, member, _⟩, _⟩
        cases member
      rw [scanRanges, nothing, Set.union_empty]
      exact least
  | cons range rest ih =>
      obtain ⟨later, ordered⟩ := List.pairwise_cons.mp ordered
      have forward' := forward range List.mem_cons_self
      have scanned : Scanned used count numbers range.fromId
          (range.fromId + (range.toId + 1 - range.fromId).toNat)
          (scanRange used count (range.toId + 1 - range.fromId).toNat range.fromId scan) :=
        scanRange_scanned least room same (filled range List.mem_cons_self)
      have joined : numbers ∪ span used range.fromId (range.fromId + (range.toId + 1 - range.fromId).toNat) ∪
          freeOf used rest = numbers ∪ freeOf used (range :: rest) := by
        ext n
        simp only [Set.mem_union, mem_span_range forward', freeOf, Set.mem_ofPred_eq, List.exists_mem_cons_iff]
        tauto
      rw [scanRanges]
      cases result : scanRange used count (range.toId + 1 - range.fromId).toNat range.fromId scan with
      | error free =>
          rw [result] at scanned
          apply scanned
          · exact Set.subset_union_left
          · rw [← joined]
            exact Set.subset_union_right.trans Set.subset_union_left
          · intro n member fresh
            obtain ⟨⟨other, inside, holds⟩, unused⟩ := member.resolve_left fresh
            refine ⟨?_, unused⟩
            have low := (contains_iff.mp holds).1
            rcases List.mem_cons.mp inside with rfl | behind
            · exact low
            · exact (later other behind).trans low
      | ok scan' =>
          rw [result] at scanned
          obtain ⟨least', room', same'⟩ := scanned
          dsimp only
          rw [← joined]
          apply ih _ ordered least' room' same'
          · intro other behind m member n from_other below unused
            rcases member with old | ⟨low, high, _⟩
            · exact .inl (filled other (List.mem_cons_of_mem _ behind) m old n from_other below unused)
            · exact .inr ⟨(later other behind).trans from_other, by omega, unused⟩
          · exact fun other behind => forward other (List.mem_cons_of_mem _ behind)

theorem normalizedRanges_ordered (ranges : List IdRange) : (normalizedRanges ranges).Pairwise (·.fromId ≤ ·.fromId) := by
  have total : Std.Total fun a b : IdRange => a.fromId < b.fromId ∨ a.fromId = b.fromId ∧ a.toId ≤ b.toId :=
    ⟨fun a b => by omega⟩
  have transitive : IsTrans IdRange fun a b => a.fromId < b.fromId ∨ a.fromId = b.fromId ∧ a.toId ≤ b.toId :=
    ⟨fun a b c => by omega⟩
  have sorted := List.pairwise_insertionSort (fun a b : IdRange => a.fromId < b.fromId ∨ a.fromId = b.fromId ∧ a.toId ≤ b.toId)
    (ranges.filter fun r => r.fromId ≤ r.toId)
  exact sorted.imp fun {a b} order => by omega

theorem mem_normalizedRanges {ranges : List IdRange} {range : IdRange} :
    range ∈ normalizedRanges ranges ↔ range ∈ ranges ∧ range.fromId ≤ range.toId := by
  rw [normalizedRanges, List.mem_insertionSort, List.mem_filter, decide_eq_true_iff]

theorem freeInRanges_least (ranges : List IdRange) (positive : 0 < count) :
    Least count (freeOf used ranges) (freeInRanges ranges used count) := by
  have all : (∅ : Set Int) ∪ freeOf used (normalizedRanges ranges) = freeOf used ranges := by
    rw [Set.empty_union]
    ext n
    simp only [freeOf, Set.mem_ofPred_eq, mem_normalizedRanges]
    constructor
    · rintro ⟨⟨range, ⟨member, _⟩, holds⟩, unused⟩
      exact ⟨⟨range, member, holds⟩, unused⟩
    · rintro ⟨⟨range, member, holds⟩, unused⟩
      obtain ⟨low, high⟩ := contains_iff.mp holds
      exact ⟨⟨range, ⟨member, low.trans high⟩, holds⟩, unused⟩
  rw [freeInRanges, if_neg (by omega), ← all]
  apply scanRanges_least
  · exact fun range member => (mem_normalizedRanges.mp member).2
  · exact normalizedRanges_ordered ranges
  · exact Least.nil count
  · exact positive
  · intro n
    simp
  · intro range _ m member
    cases member

/-- The free numbers from `first` on. -/
def freeFrom (used : Finset Int) (first : Int) : Set Int := {n | first ≤ n ∧ n ∉ used}

theorem least_full {first candidate : Int} {free : List Int} (least : Least count (span used first candidate) free)
    (full : free.length = count) : Least count (freeFrom used first) free := by
  apply least.extend full
  · exact fun n member => ⟨member.1, member.2.2⟩
  · intro n member fresh m listed
    have below := (least.inside m listed).2.1
    have behind : candidate ≤ n := by
      by_contra before
      exact fresh ⟨member.1, Int.not_le.mp before, member.2⟩
    omega

theorem span_succ_used {first candidate : Int} (taken : candidate ∈ used) :
    span used first (candidate + 1) = span used first candidate := by
  ext n
  simp only [span, Set.mem_ofPred_eq]
  constructor
  · rintro ⟨low, high, unused⟩
    have other : n ≠ candidate := by
      rintro rfl
      exact unused taken
    exact ⟨low, by omega, unused⟩
  · rintro ⟨low, high, unused⟩
    exact ⟨low, by omega, unused⟩

theorem span_succ_free {first candidate : Int} (reached : first ≤ candidate) (unused : candidate ∉ used) :
    span used first (candidate + 1) = insert candidate (span used first candidate) := by
  ext n
  simp only [span, Set.mem_insert_iff, Set.mem_ofPred_eq]
  constructor
  · rintro ⟨low, high, free⟩
    by_cases here : n = candidate
    · exact .inl here
    · exact .inr ⟨low, by omega, free⟩
  · rintro (rfl | ⟨low, high, free⟩)
    · exact ⟨reached, by omega, unused⟩
    · exact ⟨low, by omega, free⟩

/-- The steps are enough: each one finds a number or passes a used one. -/
theorem scanUpward_least {first candidate : Int} {steps : Nat} {free : List Int} (reached : first ≤ candidate)
    (least : Least count (span used first candidate) free)
    (enough : count + (used.filter (candidate ≤ ·)).card ≤ free.length + steps) :
    Least count (freeFrom used first) (scanUpward used count steps candidate free) := by
  have few := least.few
  induction steps generalizing candidate free with
  | zero =>
      rw [scanUpward]
      exact least_full least (by omega)
  | succ steps ih =>
      have passed : used.filter (candidate + 1 ≤ ·) ⊆ used.filter (candidate ≤ ·) := by
        intro n member
        rw [Finset.mem_filter] at member ⊢
        exact ⟨member.1, by omega⟩
      rw [scanUpward]
      by_cases room : free.length < count
      · rw [if_pos room]
        by_cases taken : candidate ∈ used
        · have fewer : (used.filter (candidate + 1 ≤ ·)).card < (used.filter (candidate ≤ ·)).card := by
            apply Finset.card_lt_card
            rw [Finset.ssubset_iff_of_subset passed]
            exact ⟨candidate, by simp [taken], by simp⟩
          rw [← span_succ_used taken] at least
          rw [if_neg (not_not.mpr taken)]
          exact ih (by omega) least (by omega) few
        · have pushed := least.push room fun m listed => (least.inside m listed).2.1
          have fewer := Finset.card_le_card passed
          rw [← span_succ_free reached taken] at pushed
          rw [if_pos taken]
          apply ih (by omega) pushed _ pushed.few
          rw [List.length_append, List.length_singleton]
          omega
      · rw [if_neg room]
        exact least_full least (by omega)

/-! ## The sizes of the ranges -/

/-- The free numbers of one range. -/
noncomputable def freePart (used : Finset Int) (range : IdRange) : Finset Int := Finset.Icc range.fromId range.toId \ used

theorem mem_freePart {range : IdRange} {n : Int} : n ∈ freePart used range ↔ range.contains n = true ∧ n ∉ used := by
  rw [freePart, Finset.mem_sdiff, Finset.mem_Icc, contains_iff]

theorem free_rangeUsage (range : IdRange) :
    max (range.capacity - ((used.filter fun id => range.contains id).card : Int)) 0 = (freePart used range).card := by
  have inside : used.filter (fun id => range.contains id) = Finset.Icc range.fromId range.toId ∩ used := by
    ext n
    rw [Finset.mem_filter, Finset.mem_inter, Finset.mem_Icc, contains_iff, and_comm]
  have parts := Finset.card_inter_add_card_sdiff (Finset.Icc range.fromId range.toId) used
  have size : (Finset.Icc range.fromId range.toId).card = (range.toId + 1 - range.fromId).toNat := Int.card_Icc ..
  rw [inside, freePart, IdRange.capacity]
  omega

/-- No free number lies in two ranges of the list. -/
def Apart (used : Finset Int) (ranges : List IdRange) : Prop :=
  ranges.Pairwise fun a b => ∀ n, a.contains n → b.contains n → n ∈ used

theorem freeCount_iff (ranges : List IdRange) :
    ∃ size : Nat, ((rangeUsage ranges used).map (·.free)).sum = size ∧ (freeOf used ranges).encard ≤ size ∧
      ((freeOf used ranges).encard = size ↔ Apart used ranges) := by
  have sizes : ((rangeUsage ranges used).map (·.free)).sum = (((ranges.map (freePart used)).map Finset.card).sum : Nat) := by
    induction ranges with
    | nil => rfl
    | cons range rest ih =>
        rw [rangeUsage, List.map_cons, List.map_cons, List.sum_cons, ← rangeUsage, ih, List.map_cons, List.map_cons,
          List.sum_cons, Int.natCast_add]
        dsimp only
        rw [free_rangeUsage]
  have union : freeOf used ranges = ((ranges.map (freePart used)).foldr (· ∪ ·) ∅ : Finset Int) := by
    clear sizes
    induction ranges with
    | nil =>
        ext n
        simp [freeOf]
    | cons range rest ih =>
        rw [List.map_cons, List.foldr_cons, Finset.coe_union, ← ih]
        ext n
        simp only [freeOf, Set.mem_ofPred_eq, Set.mem_union, Finset.mem_coe, mem_freePart, List.exists_mem_cons_iff]
        tauto
  have disjoint : (ranges.map (freePart used)).Pairwise Disjoint ↔ Apart used ranges := by
    rw [List.pairwise_map, Apart]
    apply List.Pairwise.iff
    intro a b
    rw [Finset.disjoint_left]
    simp only [mem_freePart]
    constructor
    · intro apart n left right
      by_contra unused
      exact apart ⟨left, unused⟩ ⟨right, unused⟩
    · intro settled n left right
      exact left.2 (settled n left.1 right.1)
  obtain ⟨atMost, exact_iff⟩ := sum_card_iff (ranges.map (freePart used))
  refine ⟨_, sizes, ?_, ?_⟩
  · rw [union, Set.encard_coe_eq_coe_finsetCard]
    exact_mod_cast atMost
  · rw [union, Set.encard_coe_eq_coe_finsetCard, ← disjoint, ← exact_iff, Nat.cast_inj, eq_comm]

end Scans

/-! ## One object for each label -/

section Labels

variable {α κ : Type} [LinearOrder κ] (key : α → κ)

theorem find?_destutter' (k : κ) (a : α) (items : List α) :
    (items.destutter' (fun a b => key a ≠ key b) a).find? (key · = k) = (a :: items).find? (key · = k) := by
  induction items generalizing a with
  | nil => rfl
  | cons b rest ih =>
      by_cases same : key a = key b
      · rw [List.destutter'_cons_neg rest (not_not.mpr same), ih, List.find?_cons, List.find?_cons, List.find?_cons, same]
        cases decide (key b = k) <;> rfl
      · rw [List.destutter'_cons_pos rest same, List.find?_cons, ih]
        rfl

theorem destutter'_ascending {a : α} {items : List α} (ordered : (a :: items).Pairwise (key · ≤ key ·)) :
    (items.destutter' (fun a b => key a ≠ key b) a).Pairwise (key · < key ·) ∧
      ∀ b ∈ items.destutter' (fun a b => key a ≠ key b) a, key a ≤ key b := by
  induction items generalizing a with
  | nil => simp
  | cons b rest ih =>
      obtain ⟨first, ordered⟩ := List.pairwise_cons.mp ordered
      by_cases same : key a = key b
      · rw [List.destutter'_cons_neg rest (not_not.mpr same)]
        apply ih
        rw [List.pairwise_cons]
        exact ⟨fun c member => first c (List.mem_cons_of_mem _ member), (List.pairwise_cons.mp ordered).2⟩
      · obtain ⟨ascending, least⟩ := ih ordered
        have less : key a < key b := lt_of_le_of_ne (first b List.mem_cons_self) same
        rw [List.destutter'_cons_pos rest same, List.pairwise_cons]
        refine ⟨⟨fun c member => less.trans_le (least c member), ascending⟩, ?_⟩
        intro c member
        rcases List.mem_cons.mp member with rfl | later
        · exact le_refl _
        · exact (less.trans_le (least c later)).le

theorem find?_orderedInsert (k : κ) (a : α) (items : List α) :
    (items.orderedInsert (key · ≤ key ·) a).find? (key · = k) = (a :: items).find? (key · = k) := by
  induction items with
  | nil => rfl
  | cons b rest ih =>
      rw [List.orderedInsert_cons]
      split
      · rfl
      next after =>
          have less : key b < key a := not_le.mp after
          rw [List.find?_cons, ih, List.find?_cons, List.find?_cons, List.find?_cons]
          by_cases here : key a = k
          · have other : key b ≠ k := fun same => absurd less (by rw [here, same]; exact lt_irrefl _)
            rw [decide_eq_true here, decide_eq_false other]
          · rw [decide_eq_false here]

theorem find?_insertionSort (k : κ) (items : List α) :
    (items.insertionSort (key · ≤ key ·)).find? (key · = k) = items.find? (key · = k) := by
  induction items with
  | nil => rfl
  | cons a rest ih =>
      rw [List.insertionSort_cons, find?_orderedInsert, List.find?_cons, ih]
      rfl

/-- After a stable sort one item of each run is left, the first one with its key. -/
theorem mem_destutter_iff (items : List α) (a : α) :
    a ∈ (items.insertionSort (key · ≤ key ·)).destutter (fun a b => key a ≠ key b) ↔
      items.find? (key · = key a) = some a := by
  have total : Std.Total fun a b : α => key a ≤ key b := ⟨fun a b => le_total _ _⟩
  have transitive : IsTrans α fun a b => key a ≤ key b := ⟨fun a b c => le_trans⟩
  have ordered := List.pairwise_insertionSort (fun a b : α => key a ≤ key b) items
  rw [← find?_insertionSort]
  cases sorted : items.insertionSort (key · ≤ key ·) with
  | nil => simp
  | cons b rest =>
      rw [sorted] at ordered
      have ascending := (destutter'_ascending key ordered).1
      rw [List.destutter_cons', ← find?_destutter']
      constructor
      · intro member
        cases found : (rest.destutter' (fun a b => key a ≠ key b) b).find? (key · = key a) with
        | none => exact absurd (decide_eq_true rfl) (List.find?_eq_none.mp found a member)
        | some c =>
            have same : key c = key a := by simpa using List.find?_some found
            have symmetric : Std.Symm fun a b : α => key a ≠ key b := ⟨fun a b => Ne.symm⟩
            have distinct : (rest.destutter' (fun a b => key a ≠ key b) b).Pairwise (key · ≠ key ·) :=
              ascending.imp fun less => ne_of_lt less
            by_contra other
            exact distinct.forall (List.mem_of_find?_eq_some found) member (fun equal => other (congrArg some equal)) same
      · exact List.mem_of_find?_eq_some

end Labels

/-- The object at a label that counts, the first one. -/
def FirstOfLabel (objects : List ObjectRecord) (mode : FreeIdsMode) (baseName : String) (object : ObjectRecord) : Prop :=
  (objects.filter (contributes mode baseName)).find? (·.sourceLabel = object.sourceLabel) = some object

theorem mem_contributors_iff {objects : List ObjectRecord} {mode : FreeIdsMode} {baseName : String}
    {object : ObjectRecord} : object ∈ contributors objects mode baseName ↔ FirstOfLabel objects mode baseName object :=
  mem_destutter_iff ObjectRecord.sourceLabel _ object

theorem mem_memberNumbers {objects : List ObjectRecord} {n : Int} :
    n ∈ memberNumbers objects ↔ ∃ object ∈ objects, n ∈ object.members.map (·.1) := by
  rw [memberNumbers, List.mem_toFinset, List.mem_flatMap]

/-! ## The numbers of a query -/

/-- A number that some object of the space uses. -/
def UsedMember (objects : List ObjectRecord) (mode : FreeIdsMode) (baseName : String) (n : Int) : Prop :=
  ∃ object ∈ objects, contributes mode baseName object ∧ n ∈ object.members.map (·.1)

/-- A number that is used, but by no object that counts. -/
def Lost (objects : List ObjectRecord) (mode : FreeIdsMode) (baseName : String) (n : Int) : Prop :=
  UsedMember objects mode baseName n ∧
    ∀ object, FirstOfLabel objects mode baseName object → n ∉ object.members.map (·.1)

def InRanges (ranges : List IdRange) (n : Int) : Prop := ∃ range ∈ ranges, range.contains n

def freeObjectNumbers (objects : List ObjectRecord) (ranges : List IdRange) (kind : ObjectKind) : Set Int :=
  {n | InRanges ranges n ∧ ¬∃ object ∈ objects, object.kind = kind ∧ object.id = n}

def freeMemberNumbers (objects : List ObjectRecord) (ranges : List IdRange) (mode : FreeIdsMode) (baseName : String)
    (constrained : Bool) : Set Int :=
  {n | (if constrained then InRanges ranges n else firstNumber mode ≤ n) ∧ ¬UsedMember objects mode baseName n}

/-- What a query allocates from: the numbers of a kind, or of the fields or values of a base object. -/
inductive Space where
  | objects (kind : ObjectKind)
  | members (mode : FreeIdsMode) (baseName : String) (constrained : Bool)

/-- A summary, a kind without numbers and an object that is not found have no space. -/
def spaceOf (objects : List ObjectRecord) (query : FreeIdsQuery) : Option Space :=
  match query.object, query.kind with
  | some name, kind =>
    match resolveObject objects name kind with
    | .error _ => none
    | .ok target =>
      match memberSpace target with
      | .error _ => none
      | .ok (mode, baseName, constrained) => some (.members mode baseName constrained)
  | none, some kind => if kind.requiresNumericId then some (.objects kind) else none
  | none, none => none

def freeNumbers (objects : List ObjectRecord) (ranges : List IdRange) : Space → Set Int
  | .objects kind => freeObjectNumbers objects ranges kind
  | .members mode baseName constrained => freeMemberNumbers objects ranges mode baseName constrained

def clampedCount (query : FreeIdsQuery) : Nat := min (max query.count 1) maxCount

/-- An allocation reports the least free numbers, their number and whether there are any. -/
structure Exact (count : Nat) (numbers : Set Int) (answer : Except FreeIdsError FreeIdsReport) : Prop where
  free : ∀ report, answer = .ok report → Least count numbers report.free
  truncated : ∀ report, answer = .ok report → (report.truncated = true ↔ numbers.encard < count)
  freeCount : ∀ report size, answer = .ok report → report.freeCount = some size → ∃ n : Nat, size = n ∧ numbers.encard = n
  exhausted : (∃ message, answer = .error (.exhausted message)) ↔ numbers = ∅

/-- No free number lies in two ranges. -/
def OnceIn (ranges : List IdRange) (numbers : Set Int) : Prop :=
  ranges.Pairwise fun a b => ∀ n ∈ numbers, a.contains n → ¬b.contains n

/-- When an allocation is exact. -/
def Counted (objects : List ObjectRecord) (ranges : List IdRange) (count : Nat) : Space → Prop
  | .objects kind =>
    freeObjectNumbers objects ranges kind = ∅ ∨ OnceIn ranges (freeObjectNumbers objects ranges kind)
  | .members mode baseName true =>
    (∀ n, InRanges ranges n → UsedMember objects mode baseName n ∧ ¬Lost objects mode baseName n) ∨
      (∀ n, InRanges ranges n → ¬Lost objects mode baseName n) ∧
        OnceIn ranges (freeMemberNumbers objects ranges mode baseName true)
  | .members mode baseName false =>
    ∀ n, Lost objects mode baseName n → firstNumber mode ≤ n →
      (count : ℕ∞) ≤ {m ∈ freeMemberNumbers objects ranges mode baseName false | m < n}.encard

section Allocations

variable {objects : List ObjectRecord} {ranges : List IdRange} {query : FreeIdsQuery}

theorem mem_counted_iff {mode : FreeIdsMode} {baseName : String} {n : Int} :
    n ∈ memberNumbers (contributors objects mode baseName) ↔
      UsedMember objects mode baseName n ∧ ¬Lost objects mode baseName n := by
  rw [mem_memberNumbers]
  constructor
  · rintro ⟨object, member, uses⟩
    have first := mem_contributors_iff.mp member
    have inside := List.mem_filter.mp (List.mem_of_find?_eq_some first)
    refine ⟨⟨object, inside.1, inside.2, uses⟩, ?_⟩
    intro lost
    exact lost.2 object first uses
  · rintro ⟨used, kept⟩
    by_contra absent
    apply kept
    refine ⟨used, ?_⟩
    intro object first uses
    exact absent ⟨object, mem_contributors_iff.mpr first, uses⟩

theorem freeObjectNumbers_eq (kind : ObjectKind) :
    freeObjectNumbers objects ranges kind = freeOf (usedIds objects kind) ranges := by
  ext n
  simp [freeObjectNumbers, freeOf, InRanges, usedIds, and_assoc]

theorem apart_iff {used : Finset Int} : Apart used ranges ↔ OnceIn ranges (freeOf used ranges) := by
  apply List.Pairwise.iff_of_mem
  intro a b left _
  constructor
  · intro settled n member held held'
    exact member.2 (settled n held held')
  · intro once n held held'
    by_contra unused
    exact once n ⟨⟨a, left, held⟩, unused⟩ held held'

/-- What an allocation inside the ranges reports, for the numbers that are free and the ones it takes to be free. -/
theorem exact_ranges_iff {used : Finset Int} {count : Nat} {numbers : Set Int} {answer : Except FreeIdsError FreeIdsReport}
    (positive : 0 < count) (smaller : numbers ⊆ freeOf used ranges)
    (refused : freeInRanges ranges used count = [] → ∃ message, answer = .error (.exhausted message))
    (answered : freeInRanges ranges used count ≠ [] → ∃ report, answer = .ok report ∧
      report.free = freeInRanges ranges used count ∧
      report.truncated = decide ((freeInRanges ranges used count).length < count) ∧
      report.freeCount = some ((rangeUsage ranges used).map (·.free)).sum) :
    Exact count numbers answer ↔
      freeOf used ranges = ∅ ∨ numbers = freeOf used ranges ∧ OnceIn ranges (freeOf used ranges) := by
  have least : Least count (freeOf used ranges) (freeInRanges ranges used count) := freeInRanges_least ranges positive
  obtain ⟨size, sum, atMost, exact_iff⟩ := @freeCount_iff used ranges
  by_cases nothing : freeOf used ranges = ∅
  · obtain ⟨message, failed⟩ := refused ((least.eq_nil_iff positive).mpr nothing)
    have none_free : numbers = ∅ := Set.subset_empty_iff.mp (nothing ▸ smaller)
    subst failed
    refine iff_of_true ⟨?_, ?_, ?_, ?_⟩ (.inl nothing)
    · intro report same
      cases same
    · intro report same
      cases same
    · intro report size same
      cases same
    · exact iff_of_true ⟨message, rfl⟩ none_free
  obtain ⟨report, succeeded, free, truncated, freeCount⟩ := answered fun empty => nothing ((least.eq_nil_iff positive).mp empty)
  subst succeeded
  rw [or_iff_right nothing]
  constructor
  · intro holds
    obtain ⟨n, same, cardinal⟩ := holds.freeCount report _ rfl freeCount
    have sizes : (n : ℕ∞) = size := by
      rw [sum] at same
      exact_mod_cast same.symm
    have all : freeOf used ranges ⊆ numbers := by
      have bound : (freeOf used ranges).encard ≤ numbers.encard := by
        rw [cardinal, sizes]
        exact atMost
      have finite : (freeOf used ranges).Finite := Set.finite_of_encard_le_coe atMost
      exact ((finite.subset smaller).eq_of_subset_of_encard_le smaller bound).ge
    have equal := smaller.antisymm all
    refine ⟨equal, apart_iff.mp (exact_iff.mp ?_)⟩
    rw [← equal, cardinal, sizes]
  · rintro ⟨equal, once⟩
    have cardinal := exact_iff.mpr (apart_iff.mpr once)
    rw [equal]
    constructor
    · intro other same
      cases same
      rw [free]
      exact least
    · intro other same
      cases same
      rw [truncated, decide_eq_true_iff]
      exact least.short_iff
    · intro other total same counted
      cases same
      rw [freeCount, Option.some_inj, sum] at counted
      exact ⟨size, counted.symm, cardinal⟩
    · apply iff_of_false _ nothing
      rintro ⟨message, same⟩
      cases same

theorem exhausted_message (domain : String) (ranges : List IdRange) :
    ∃ message, exhausted domain ranges = .exhausted message := by
  rw [exhausted]
  split
  · exact ⟨_, rfl⟩
  · exact ⟨_, rfl⟩

theorem exact_objects_iff {kind : ObjectKind} {count : Nat} (positive : 0 < count) (warnings : List String)
    (numeric : kind.requiresNumericId = true) :
    Exact count (freeObjectNumbers objects ranges kind) (allocateObjectIds objects ranges kind count query warnings) ↔
      Counted objects ranges count (.objects kind) := by
  rw [freeObjectNumbers_eq, Counted, freeObjectNumbers_eq]
  rw [exact_ranges_iff positive (Set.Subset.refl (freeOf (usedIds objects kind) ranges)), eq_self, true_and]
  · intro empty
    obtain ⟨message, text⟩ := exhausted_message (kind.alKeyword ++ " ID") ranges
    rw [allocateObjectIds, numeric, Bool.not_true, if_neg Bool.false_ne_true]
    dsimp only
    rw [empty, List.isEmpty_nil, if_pos rfl, text]
    exact ⟨message, rfl⟩
  · intro found
    have shown : ¬(freeInRanges ranges (usedIds objects kind) count).isEmpty = true :=
      fun empty => found (List.isEmpty_iff.mp empty)
    rw [allocateObjectIds, numeric, Bool.not_true, if_neg Bool.false_ne_true]
    dsimp only
    rw [if_neg shown]
    exact ⟨_, rfl, rfl, rfl, rfl⟩

theorem freeMemberNumbers_subset {mode : FreeIdsMode} {baseName : String} :
    freeMemberNumbers objects ranges mode baseName true ⊆
      freeOf (memberNumbers (contributors objects mode baseName)) ranges :=
  fun _ member => ⟨member.1, fun counted => member.2 (mem_counted_iff.mp counted).1⟩

theorem not_counted_iff {mode : FreeIdsMode} {baseName : String} {n : Int} :
    n ∉ memberNumbers (contributors objects mode baseName) ↔
      ¬UsedMember objects mode baseName n ∨ Lost objects mode baseName n := by
  rw [mem_counted_iff, not_and_or, not_not]

theorem infinite_free {mode : FreeIdsMode} {baseName : String} :
    (freeMemberNumbers objects ranges mode baseName false).Infinite := by
  have finite : {n | UsedMember objects mode baseName n}.Finite := by
    apply (memberNumbers objects).finite_toSet.subset
    rintro n ⟨object, member, _, uses⟩
    exact mem_memberNumbers.mpr ⟨object, member, uses⟩
  exact (Set.Ici_infinite (firstNumber mode)).sdiff finite

section Members

variable {mode : FreeIdsMode} {baseName name : String} {target : ObjectRecord} {count : Nat} (positive : 0 < count)
  (warnings : List String) (resolved : resolveObject objects name query.kind = .ok target)

include positive resolved

theorem exact_constrained_iff (spaced : memberSpace target = .ok (mode, baseName, true)) :
    Exact count (freeMemberNumbers objects ranges mode baseName true)
        (allocateMembers objects ranges name query count warnings) ↔
      Counted objects ranges count (.members mode baseName true) := by
  rw [exact_ranges_iff positive freeMemberNumbers_subset, Counted]
  · have nothing : freeOf (memberNumbers (contributors objects mode baseName)) ranges = ∅ ↔
        ∀ n, InRanges ranges n → UsedMember objects mode baseName n ∧ ¬Lost objects mode baseName n := by
      rw [Set.eq_empty_iff_forall_notMem]
      apply forall_congr'
      intro n
      rw [← mem_counted_iff]
      constructor
      · intro taken inside
        by_contra unused
        exact taken ⟨inside, unused⟩
      · intro taken member
        exact member.2 (taken member.1)
    have equal : freeMemberNumbers objects ranges mode baseName true =
          freeOf (memberNumbers (contributors objects mode baseName)) ranges ↔
        ∀ n, InRanges ranges n → ¬Lost objects mode baseName n := by
      constructor
      · intro same n inside lost
        have member : n ∈ freeOf (memberNumbers (contributors objects mode baseName)) ranges :=
          ⟨inside, not_counted_iff.mpr (.inr lost)⟩
        rw [← same] at member
        exact member.2 lost.1
      · intro kept
        apply freeMemberNumbers_subset.antisymm
        rintro n ⟨inside, unused⟩
        exact ⟨inside, (not_counted_iff.mp unused).resolve_right (kept n inside)⟩
    rw [nothing]
    apply or_congr_right
    constructor
    · rintro ⟨same, once⟩
      exact ⟨equal.mp same, same ▸ once⟩
    · rintro ⟨kept, once⟩
      have same := equal.mpr kept
      exact ⟨same, same ▸ once⟩
  · intro empty
    obtain ⟨message, text⟩ := exhausted_message (if mode = .field then "field number" else "enum value ordinal") ranges
    simp only [allocateMembers, resolved, spaced, bind, Except.bind, empty, List.isEmpty_nil, if_true, text]
    exact ⟨message, rfl⟩
  · intro found
    have shown : ¬(freeInRanges ranges (memberNumbers (contributors objects mode baseName)) count).isEmpty = true :=
      fun empty => found (List.isEmpty_iff.mp empty)
    simp only [allocateMembers, resolved, spaced, bind, Except.bind, if_true, if_neg shown]
    exact ⟨_, rfl, rfl, rfl, rfl⟩

omit positive in
theorem exact_own_iff (spaced : memberSpace target = .ok (mode, baseName, false)) :
    Exact count (freeMemberNumbers objects ranges mode baseName false)
        (allocateMembers objects ranges name query count warnings) ↔
      Counted objects ranges count (.members mode baseName false) := by
  let used := memberNumbers (contributors objects mode baseName)
  have smaller : freeMemberNumbers objects ranges mode baseName false ⊆ freeFrom used (firstNumber mode) :=
    fun n member => ⟨member.1, not_counted_iff.mpr (.inl member.2)⟩
  have least : Least count (freeFrom used (firstNumber mode))
      (scanUpward used count (count + used.card) (firstNumber mode) []) := by
    have nothing : span used (firstNumber mode) (firstNumber mode) = ∅ := by
      apply Set.eq_empty_of_forall_notMem
      intro n member
      exact absurd (member.1.trans_lt member.2.1) (lt_irrefl _)
    apply scanUpward_least (Int.le_refl _)
    · rw [nothing]
      exact Least.nil count
    · have few := Finset.card_filter_le used (firstNumber mode ≤ ·)
      rw [List.length_nil]
      omega
  have large : ¬(freeMemberNumbers objects ranges mode baseName false).encard < count := by
    rw [infinite_free.encard_eq]
    exact not_top_lt
  have full : ¬(scanUpward used count (count + used.card) (firstNumber mode) []).length < count := by
    rw [least.short_iff, (infinite_free.mono smaller).encard_eq]
    exact not_top_lt
  have lost_iff : Counted objects ranges count (.members mode baseName false) ↔
      Least count (freeMemberNumbers objects ranges mode baseName false)
        (scanUpward used count (count + used.card) (firstNumber mode) []) := by
    rw [least.of_lost_iff smaller, Counted]
    apply forall_congr'
    intro n
    constructor
    · intro enough member absent
      have lost : Lost objects mode baseName n := by
        apply (not_counted_iff.mp member.2).resolve_left
        exact fun unused => absent ⟨member.1, unused⟩
      exact enough lost member.1
    · intro enough lost low
      exact enough ⟨low, not_counted_iff.mpr (.inr lost)⟩ fun member => member.2 lost.1
  rw [lost_iff]
  simp only [allocateMembers, resolved, spaced, bind, Except.bind]
  rw [if_neg Bool.false_ne_true]
  constructor
  · intro holds
    exact holds.free _ rfl
  · intro right
    constructor
    · intro report same
      cases same
      exact right
    · intro report same
      cases same
      exact iff_of_false (fun short => full (of_decide_eq_true short)) large
    · intro report size same counted
      cases same
      cases counted
    · apply iff_of_false
      · rintro ⟨message, same⟩
        cases same
      · exact infinite_free.nonempty.ne_empty

end Members

/-- An allocation is exact when each label of the numbering space stands for all numbers that its objects use, and each
free number lies in one range. -/
theorem allocate_exact_iff {space : Space} (allocates : spaceOf objects query = some space) :
    Exact (clampedCount query) (freeNumbers objects ranges space) (allocate objects ranges query) ↔
      Counted objects ranges (clampedCount query) space := by
  have positive : 0 < clampedCount query := by
    rw [clampedCount, maxCount]
    omega
  rw [spaceOf] at allocates
  rw [allocate]
  cases named : query.object with
  | some name =>
      rw [named] at allocates
      dsimp only at allocates ⊢
      cases resolved : resolveObject objects name query.kind with
      | error e =>
          rw [resolved] at allocates
          cases allocates
      | ok target =>
          rw [resolved] at allocates
          dsimp only at allocates
          cases spaced : memberSpace target with
          | error e =>
              rw [spaced] at allocates
              cases allocates
          | ok parts =>
              obtain ⟨mode, baseName, constrained⟩ := parts
              rw [spaced] at allocates
              cases allocates
              cases constrained with
              | true => exact exact_constrained_iff positive _ resolved spaced
              | false => exact exact_own_iff _ resolved spaced
  | none =>
      rw [named] at allocates
      cases kinded : query.kind with
      | none =>
          rw [kinded] at allocates
          cases allocates
      | some kind =>
          rw [kinded] at allocates
          dsimp only at allocates ⊢
          split at allocates
          next numeric =>
              cases allocates
              exact exact_objects_iff positive _ numeric
          · cases allocates

end Allocations

/-! ## Examples -/

def codeunit (id : Int) : ObjectRecord := ⟨.codeunit, id, "C", none, [], ""⟩

theorem allocate_exact_codeunits :
    Exact 3 (freeObjectNumbers [codeunit 50000] [⟨60000, 60002⟩, ⟨50000, 50001⟩] .codeunit)
      (allocate [codeunit 50000] [⟨60000, 60002⟩, ⟨50000, 50001⟩] ⟨some .codeunit, none, 3, false⟩) := by
  have exact_iff : Exact _ (freeNumbers _ _ (.objects .codeunit)) _ ↔ _ :=
    @allocate_exact_iff [codeunit 50000] [⟨60000, 60002⟩, ⟨50000, 50001⟩] ⟨some .codeunit, none, 3, false⟩
      (.objects .codeunit) rfl
  apply exact_iff.mpr
  right
  apply List.Pairwise.cons
  · intro range member n free held held'
    obtain rfl := List.mem_singleton.mp member
    have low := (contains_iff.mp held).1
    have high := (contains_iff.mp held').2
    dsimp only at low high
    omega
  · exact List.pairwise_singleton ..

def statusEnum : ObjectRecord := ⟨.enum, 50000, "Status", none, [(0, "Open")], ""⟩

/-- An extension under the name of its base. -/
def statusExtension : ObjectRecord := ⟨.enumExtension, 50001, "Status", some "Status", [(50000, "Closed")], ""⟩

/-- Numbers in two ranges are counted twice, and of two objects with one label the second one's numbers are given out. -/
theorem allocations_off :
    (allocate [] [⟨50000, 50002⟩, ⟨50001, 50003⟩] ⟨some .codeunit, none, 9, false⟩).map
        (fun report => (report.free, report.freeCount)) = .ok ([50000, 50001, 50002, 50003], some 6) ∧
      (allocate [statusEnum, statusExtension] [⟨50000, 50009⟩] ⟨some .enumExtension, some "Status", 1, false⟩).map
        (fun report => (report.free, report.sources)) = .ok ([50000], ["Status"]) ∧
      UsedMember [statusEnum, statusExtension] .value "Status" 50000 := by
  refine ⟨by decide +kernel, by decide +kernel, ?_⟩
  exact ⟨statusExtension, by decide, by decide +kernel, by decide⟩

end AlLanguage.Analysis
