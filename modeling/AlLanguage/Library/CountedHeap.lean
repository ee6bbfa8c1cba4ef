import AlLanguage.Library.IndexMap

/-!
# Heaps with counted handles and counted bytes

- A cell is freed when its last handle is dropped, and the handles in its contents are dropped with it.
- Each cell says how many bytes it counts for, and the heap says how many are counted in all.
-/

namespace AlLanguage.Library

universe u v

/-- A handle says of which kind the contents are that it leads to. -/
structure Address (κ : Type v) where
  serial : Nat
  kind : κ
  deriving DecidableEq

/-- The kind of contents, the handles that they hold, and the bytes they take. -/
class HeapContents (γ : Type u) (κ : outParam (Type v)) where
  kind : γ → κ
  handles : γ → List (Address κ)
  bytes : γ → Nat

structure Cell (γ : Type u) where
  contents : γ
  held : Nat
  strong : Nat

structure CountedHeap (γ : Type u) (κ : Type v) where
  cells : IndexMap (Address κ) (Cell γ)
  next : Nat
  total : Nat

namespace CountedHeap

open HeapContents

variable {γ : Type u} {κ : Type v} [DecidableEq κ]

/-- No cells, with some bytes counted already. -/
def start (total : Nat) : CountedHeap γ κ := ⟨.empty, 0, total⟩

/-- Change a cell, if it is there. -/
def change (heap : CountedHeap γ κ) (a : Address κ) (f : Cell γ → Cell γ) : CountedHeap γ κ :=
  match heap.cells.get? a with
  | none => heap
  | some cell => { heap with cells := heap.cells.insert a (f cell) }

/-- Clone a handle. -/
def retain (heap : CountedHeap γ κ) (a : Address κ) : CountedHeap γ κ :=
  heap.change a fun cell => { cell with strong := cell.strong + 1 }

def retainAll (heap : CountedHeap γ κ) (as : List (Address κ)) : CountedHeap γ κ := as.foldl retain heap

def put (heap : CountedHeap γ κ) (a : Address κ) (contents : γ) : CountedHeap γ κ :=
  heap.change a fun cell => { cell with contents := contents }

/-- Count more bytes for a cell. -/
def add (heap : CountedHeap γ κ) (a : Address κ) (bytes : Nat) : CountedHeap γ κ :=
  { heap.change a fun cell => { cell with held := cell.held + bytes } with total := heap.total + bytes }

def heldBy (heap : CountedHeap γ κ) (a : Address κ) : Nat := (heap.cells.get? a).elim 0 (·.held)

/-- Count fewer bytes for a cell, at most what it counts. -/
def release (heap : CountedHeap γ κ) (a : Address κ) (bytes : Nat) : CountedHeap γ κ :=
  { heap.change a fun cell => { cell with held := cell.held - bytes } with total := heap.total - min (heap.heldBy a) bytes }

section Dropping

variable [HeapContents γ κ]

/-- A new cell with one handle. Its serial number is the next one. -/
def alloc (heap : CountedHeap γ κ) (contents : γ) : CountedHeap γ κ where
  cells := heap.cells.insert ⟨heap.next, kind contents⟩ ⟨contents, bytes contents, 1⟩
  next := heap.next + 1
  total := heap.total + bytes contents

/-- The handles in all contents. -/
def handleCount (heap : CountedHeap γ κ) : Nat := heap.cells.weight fun _ cell => (handles cell.contents).length

/-- Drop the handles of a work list, to which those of a freed cell are added. -/
def dropLoop : Nat → CountedHeap γ κ → List (Address κ) → CountedHeap γ κ
  | _, heap, [] => heap
  | 0, heap, _ => heap
  | fuel + 1, heap, a :: work =>
    match heap.cells.get? a with
    | none => dropLoop fuel heap work
    | some cell =>
      if cell.strong ≤ 1 then
        dropLoop fuel { heap with cells := heap.cells.erase a, total := heap.total - cell.held } (handles cell.contents ++ work)
      else dropLoop fuel (heap.change a fun cell => { cell with strong := cell.strong - 1 }) work

def dropAll (heap : CountedHeap γ κ) (as : List (Address κ)) : CountedHeap γ κ := heap.dropLoop (heap.handleCount + as.length) as

end Dropping

/-! ## What is counted -/

def strong (heap : CountedHeap γ κ) (a : Address κ) : Nat := (heap.cells.get? a).elim 0 (·.strong)

variable [HeapContents γ κ]

/-- The handles to a cell in all contents. -/
def inside (heap : CountedHeap γ κ) (a : Address κ) : Nat := heap.cells.weight fun _ cell => (handles cell.contents).count a

/-- The handles are counted, and the bytes of the cells and `extra` others are. A cell may count for more than its contents
take. -/
structure Sound (heap : CountedHeap γ κ) (outside : List (Address κ)) (extra : Nat) (excess : Address κ → Nat) : Prop where
  counted : ∀ a, heap.strong a = outside.count a + heap.inside a
  live : ∀ a cell, heap.cells.get? a = some cell → 0 < cell.strong
  balanced : heap.total = (heap.cells.weight fun _ cell => cell.held) + extra
  exact : ∀ a cell, heap.cells.get? a = some cell → cell.held = bytes cell.contents + excess a
  fresh : ∀ a cell, heap.cells.get? a = some cell → a.serial < heap.next
  typed : ∀ a cell, heap.cells.get? a = some cell → kind cell.contents = a.kind

variable {heap : CountedHeap γ κ} {outside : List (Address κ)} {extra : Nat} {excess : Address κ → Nat}

theorem sound_start (total : Nat) : Sound (start total : CountedHeap γ κ) [] total excess where
  counted := by
    intro a
    rfl
  live := by
    intro a cell none
    cases none
  balanced := by simp [start]
  exact := by
    intro a cell none
    cases none
  fresh := by
    intro a cell none
    cases none
  typed := by
    intro a cell none
    cases none

theorem Sound.perm (sound : Sound heap outside extra excess) {outside' : List (Address κ)}
    (same : ∀ a, outside.count a = outside'.count a) : Sound heap outside' extra excess where
  counted := by
    intro a
    rw [sound.counted, same]
  live := sound.live
  balanced := sound.balanced
  exact := sound.exact
  fresh := sound.fresh
  typed := sound.typed

/-- A handle leads to a cell. -/
theorem Sound.found (sound : Sound heap outside extra excess) {a : Address κ} (member : a ∈ outside) :
    ∃ cell, heap.cells.get? a = some cell := by
  have counted := sound.counted a
  have positive := List.count_pos_iff.mpr member
  rw [strong] at counted
  cases found : heap.cells.get? a with
  | none =>
      rw [found] at counted
      simp only [Option.elim] at counted
      omega
  | some cell => exact ⟨cell, rfl⟩

/-- So do the handles in contents. -/
theorem Sound.found_inside (sound : Sound heap outside extra excess) {a b : Address κ} {cell : Cell γ}
    (at_ : heap.cells.get? b = some cell) (member : a ∈ handles cell.contents) :
    ∃ cell, heap.cells.get? a = some cell := by
  have counted := sound.counted a
  have positive := List.count_pos_iff.mpr member
  have within := IndexMap.le_weight (fun _ cell => (handles cell.contents).count a) at_
  rw [strong, inside] at counted
  cases found : heap.cells.get? a with
  | none =>
      rw [found] at counted
      simp only [Option.elim] at counted
      omega
  | some cell => exact ⟨cell, rfl⟩

/-- A cell is changed. What it gains in handles is lost outside, and its count of handles and of bytes is right. -/
theorem Sound.replace (sound : Sound heap outside extra excess) {a : Address κ} {cell : Cell γ}
    (found : heap.cells.get? a = some cell) (cell' : Cell γ) (outside' : List (Address κ)) (excess' : Address κ → Nat) (total : Nat)
    (positive : 0 < cell'.strong) (kinds : kind cell'.contents = a.kind)
    (counts : ∀ b, outside'.count b + (handles cell'.contents).count b + (if a = b then cell.strong else 0) =
      outside.count b + (handles cell.contents).count b + (if a = b then cell'.strong else 0))
    (paid : total + cell.held = heap.total + cell'.held) (exactly : cell'.held = bytes cell'.contents + excess' a)
    (others : ∀ b, b ≠ a → excess' b = excess b) :
    Sound { heap with cells := heap.cells.insert a cell', total := total } outside' extra excess' where
  counted := by
    intro b
    have before := sound.counted b
    have moved := heap.cells.weight_insert (fun _ cell => (handles cell.contents).count b) a cell'
    have exchanged := counts b
    rw [found] at moved
    simp only [Option.elim] at moved
    simp only [strong, inside, IndexMap.get?_insert] at before ⊢
    by_cases here : a = b
    · subst here
      rw [found] at before
      simp only [if_true, Option.elim] at before exchanged ⊢
      omega
    · simp only [if_neg here] at exchanged ⊢
      omega
  live := by
    intro b other
    simp only [IndexMap.get?_insert]
    split
    next =>
      intro same
      cases same
      exact positive
    next => exact sound.live b other
  balanced := by
    have before := sound.balanced
    have moved := heap.cells.weight_insert (fun _ cell => cell.held) a cell'
    rw [found] at moved
    simp only [Option.elim] at moved
    dsimp only
    omega
  exact := by
    intro b other
    simp only [IndexMap.get?_insert]
    split
    next same =>
      intro this
      cases this
      rw [← same]
      exact exactly
    next apart =>
      rw [others b (Ne.symm apart)]
      exact sound.exact b other
  fresh := by
    intro b other
    simp only [IndexMap.get?_insert]
    split
    next same =>
      intro _
      rw [← same]
      exact sound.fresh a cell found
    next => exact sound.fresh b other
  typed := by
    intro b other
    simp only [IndexMap.get?_insert]
    split
    next same =>
      intro this
      cases this
      rw [← same]
      exact kinds
    next => exact sound.typed b other

/-! ## Handles -/

theorem Sound.retain (sound : Sound heap outside extra excess) {a : Address κ} (live : ∃ cell, heap.cells.get? a = some cell) :
    Sound (heap.retain a) (a :: outside) extra excess := by
  obtain ⟨cell, found⟩ := live
  rw [CountedHeap.retain, change, found]
  apply sound.replace found { cell with strong := cell.strong + 1 } (a :: outside) excess heap.total
  · exact Nat.succ_pos _
  · exact sound.typed a cell found
  · intro b
    rw [List.count_cons]
    by_cases here : a = b
    · simp [here]
      omega
    · simp [here]
  · rfl
  · exact sound.exact a cell found
  · exact fun _ _ => rfl

omit [HeapContents γ κ] in
theorem find_change {a b : Address κ} {f : Cell γ → Cell γ} (live : ∃ cell, heap.cells.get? b = some cell) :
    ∃ cell, (heap.change a f).cells.get? b = some cell := by
  obtain ⟨cell, found⟩ := live
  unfold change
  split
  next => exact ⟨cell, found⟩
  next other there =>
    dsimp only
    rw [IndexMap.get?_insert]
    split
    next => exact ⟨_, rfl⟩
    next => exact ⟨cell, found⟩

omit [HeapContents γ κ] in
theorem find_retainAll {as : List (Address κ)} {b : Address κ} (live : ∃ cell, heap.cells.get? b = some cell) :
    ∃ cell, (heap.retainAll as).cells.get? b = some cell := by
  induction as generalizing heap with
  | nil => exact live
  | cons a rest ih => exact ih (find_change live)

theorem Sound.retainAll (sound : Sound heap outside extra excess) {as : List (Address κ)}
    (live : ∀ a ∈ as, ∃ cell, heap.cells.get? a = some cell) : Sound (heap.retainAll as) (as ++ outside) extra excess := by
  induction as generalizing heap outside with
  | nil => exact sound
  | cons a rest ih =>
      have retained := sound.retain (live a List.mem_cons_self)
      have all := ih retained fun b member => find_change (live b (List.mem_cons_of_mem _ member))
      apply all.perm
      intro b
      simp only [List.count_append, List.count_cons]
      omega

/-- A dropped handle that is not the last one. -/
theorem Sound.forget {a : Address κ} (sound : Sound heap (a :: outside) extra excess) {cell : Cell γ}
    (found : heap.cells.get? a = some cell) (shared : 1 < cell.strong) :
    Sound (heap.change a fun cell => { cell with strong := cell.strong - 1 }) outside extra excess := by
  rw [change, found]
  apply sound.replace found { cell with strong := cell.strong - 1 } outside excess heap.total
  · exact Nat.sub_pos_of_lt shared
  · exact sound.typed a cell found
  · intro b
    rw [List.count_cons]
    by_cases here : a = b
    · simp [here]
      omega
    · simp [here]
  · rfl
  · exact sound.exact a cell found
  · exact fun _ _ => rfl

/-- The last handle is dropped. The handles in the contents are outside now. -/
theorem Sound.free {a : Address κ} (sound : Sound heap (a :: outside) extra excess) {cell : Cell γ}
    (found : heap.cells.get? a = some cell) (last : cell.strong ≤ 1) :
    Sound { heap with cells := heap.cells.erase a, total := heap.total - cell.held } (handles cell.contents ++ outside) extra
      excess where
  counted := by
    intro b
    have before := sound.counted b
    have moved := heap.cells.weight_erase (fun _ cell => (handles cell.contents).count b) a
    rw [found] at moved
    simp only [Option.elim] at moved
    simp only [strong, inside, IndexMap.get?_erase, List.count_append, List.count_cons] at before ⊢
    by_cases here : a = b
    · subst here
      rw [found] at before
      simp only [if_true, Option.elim, beq_self_eq_true] at before ⊢
      omega
    · simp only [if_neg here, beq_iff_eq] at before ⊢
      omega
  live := by
    intro b other
    rw [IndexMap.get?_erase]
    split
    next =>
      intro none
      cases none
    next => exact sound.live b other
  balanced := by
    have before := sound.balanced
    have moved := heap.cells.weight_erase (fun _ cell => cell.held) a
    rw [found] at moved
    simp only [Option.elim] at moved
    dsimp only
    omega
  exact := by
    intro b other
    rw [IndexMap.get?_erase]
    split
    next =>
      intro none
      cases none
    next => exact sound.exact b other
  fresh := by
    intro b other
    rw [IndexMap.get?_erase]
    split
    next =>
      intro none
      cases none
    next => exact sound.fresh b other
  typed := by
    intro b other
    rw [IndexMap.get?_erase]
    split
    next =>
      intro none
      cases none
    next => exact sound.typed b other

theorem handleCount_change (a : Address κ) {f : Cell γ → Cell γ} (same : ∀ cell, (f cell).contents = cell.contents) :
    (heap.change a f).handleCount = heap.handleCount := by
  unfold change
  split
  next => rfl
  next cell found =>
    have moved := heap.cells.weight_insert (fun _ cell => (handles cell.contents).length) a (f cell)
    rw [found, same] at moved
    simp only [Option.elim] at moved
    rw [handleCount, handleCount]
    dsimp only
    omega

/-- The work list is empty in the end: with each step there is one handle less. -/
theorem Sound.dropLoop {fuel : Nat} {work : List (Address κ)} (sound : Sound heap (work ++ outside) extra excess)
    (enough : heap.handleCount + work.length ≤ fuel) : Sound (heap.dropLoop fuel work) outside extra excess := by
  induction fuel generalizing heap work with
  | zero =>
      have none : work = [] := List.length_eq_zero_iff.mp (by omega)
      rw [none] at sound ⊢
      exact sound
  | succ fuel ih =>
      cases work with
      | nil => exact sound
      | cons a work =>
          obtain ⟨cell, found⟩ := sound.found (a := a) (by simp)
          rw [CountedHeap.dropLoop, found]
          dsimp only
          rw [List.length_cons] at enough
          split
          next last =>
            apply ih
            · rw [List.append_assoc]
              exact sound.free found last
            · have moved := heap.cells.weight_erase (fun _ cell => (handles cell.contents).length) a
              rw [found] at moved
              simp only [Option.elim] at moved
              rw [handleCount] at enough ⊢
              rw [List.length_append]
              dsimp only
              omega
          next shared =>
            apply ih
            · exact sound.forget found (Nat.lt_of_not_le shared)
            · have same : (heap.change a fun cell => { cell with strong := cell.strong - 1 }).handleCount = heap.handleCount :=
                handleCount_change a fun _ => rfl
              omega

theorem Sound.dropAll {as : List (Address κ)} (sound : Sound heap (as ++ outside) extra excess) :
    Sound (heap.dropAll as) outside extra excess := sound.dropLoop (Nat.le_refl _)

/-- Dropping handles leaves the cells that remain as they were. -/
theorem get?_dropLoop (fuel : Nat) (heap : CountedHeap γ κ) (work : List (Address κ)) {a : Address κ} {cell : Cell γ}
    (found : (heap.dropLoop fuel work).cells.get? a = some cell) :
    ∃ before, heap.cells.get? a = some before ∧ before.contents = cell.contents ∧ before.held = cell.held := by
  induction fuel generalizing heap work with
  | zero =>
      cases work <;> exact ⟨cell, found, rfl, rfl⟩
  | succ fuel ih =>
      cases work with
      | nil => exact ⟨cell, found, rfl, rfl⟩
      | cons b work =>
          rw [CountedHeap.dropLoop] at found
          split at found
          next => exact ih heap work found
          next other there =>
            split at found
            next =>
              obtain ⟨before, kept, same⟩ := ih _ _ found
              rw [IndexMap.get?_erase] at kept
              split at kept
              next => cases kept
              next => exact ⟨before, kept, same⟩
            next =>
              obtain ⟨before, kept, same⟩ := ih _ _ found
              rw [change, there] at kept
              dsimp only at kept
              rw [IndexMap.get?_insert] at kept
              split at kept
              next here =>
                cases kept
                subst here
                exact ⟨other, there, same⟩
              next => exact ⟨before, kept, same⟩

theorem dropAll_nil : heap.dropAll [] = heap := by
  rw [dropAll]
  cases heap.handleCount + ([] : List (Address κ)).length <;> rfl

theorem Sound.alloc {contents : γ} (sound : Sound heap (handles contents ++ outside) extra excess)
    (plain : excess ⟨heap.next, kind contents⟩ = 0) :
    Sound (heap.alloc contents) (⟨heap.next, kind contents⟩ :: outside) extra excess := by
  have new : heap.cells.get? ⟨heap.next, kind contents⟩ = none := by
    cases found : heap.cells.get? ⟨heap.next, kind contents⟩ with
    | none => rfl
    | some cell => exact absurd (sound.fresh _ cell found) (Nat.lt_irrefl _)
  generalize at_ : (⟨heap.next, kind contents⟩ : Address κ) = address at new plain
  have cells : (heap.alloc contents).cells = heap.cells.insert address ⟨contents, bytes contents, 1⟩ := by
    rw [CountedHeap.alloc, at_]
  constructor
  · intro b
    have before := sound.counted b
    have moved := heap.cells.weight_insert (fun _ cell => (handles cell.contents).count b) address
      ⟨contents, bytes contents, 1⟩
    rw [new] at moved
    simp only [Option.elim] at moved
    simp only [strong, inside, cells, IndexMap.get?_insert, List.count_append, List.count_cons] at before ⊢
    by_cases here : address = b
    · subst here
      rw [new] at before
      simp only [if_true, Option.elim, beq_self_eq_true] at before ⊢
      omega
    · simp only [if_neg here, beq_iff_eq] at before ⊢
      omega
  · intro b other
    simp only [cells, IndexMap.get?_insert]
    split
    next =>
      intro same
      cases same
      exact Nat.one_pos
    next => exact sound.live b other
  · have before := sound.balanced
    have moved := heap.cells.weight_insert (fun _ cell => cell.held) address ⟨contents, bytes contents, 1⟩
    rw [new] at moved
    simp only [Option.elim] at moved
    simp only [CountedHeap.alloc, at_]
    omega
  · intro b other
    simp only [cells, IndexMap.get?_insert]
    split
    next same =>
      intro this
      cases this
      rw [← same, plain]
      rfl
    next => exact sound.exact b other
  · intro b other
    simp only [cells, IndexMap.get?_insert]
    split
    next same =>
      intro _
      rw [← same, ← at_]
      exact Nat.lt_succ_self _
    next =>
      intro found
      exact Nat.lt_succ_of_lt (sound.fresh b other found)
  · intro b other
    simp only [cells, IndexMap.get?_insert]
    split
    next same =>
      intro this
      cases this
      rw [← same, ← at_]
    next => exact sound.typed b other

/-! ## Bytes -/

/-- What a cell counts for beyond its contents. -/
def slack (a : Address κ) (bytes : Nat) : Address κ → Nat := fun b => if b = a then bytes else 0

theorem Sound.add {a : Address κ} {before : Nat} (sound : Sound heap outside extra (slack a before)) (live : ∃ cell, heap.cells.get? a = some cell)
    (bytes : Nat) : Sound (heap.add a bytes) outside extra (slack a (before + bytes)) := by
  obtain ⟨cell, found⟩ := live
  have exactly := sound.exact a cell found
  rw [CountedHeap.add, change, found]
  apply sound.replace found { cell with held := cell.held + bytes } outside (slack a (before + bytes)) (heap.total + bytes)
  · exact sound.live a cell found
  · exact sound.typed a cell found
  · intro b
    rfl
  · dsimp only
    omega
  · simp only [slack, if_true] at exactly ⊢
    omega
  · intro b apart
    simp [slack, apart]

theorem Sound.release {a : Address κ} {before : Nat} (sound : Sound heap outside extra (slack a before)) (live : ∃ cell, heap.cells.get? a = some cell)
    {bytes : Nat} (enough : bytes ≤ before) : Sound (heap.release a bytes) outside extra (slack a (before - bytes)) := by
  obtain ⟨cell, found⟩ := live
  have exactly := sound.exact a cell found
  have part := IndexMap.le_weight (fun _ cell => cell.held) found
  have balanced := sound.balanced
  simp only [slack, if_true] at exactly
  rw [CountedHeap.release, heldBy, change, found]
  apply sound.replace found { cell with held := cell.held - bytes } outside (slack a (before - bytes))
  · exact sound.live a cell found
  · exact sound.typed a cell found
  · intro b
    rfl
  · simp only [Option.elim]
    omega
  · simp only [slack, if_true]
    omega
  · intro b apart
    simp [slack, apart]

omit [HeapContents γ κ] in
/-- Counting more bytes and replacing the contents commute. -/
theorem add_put (heap : CountedHeap γ κ) {a : Address κ} (live : ∃ cell, heap.cells.get? a = some cell) (bytes : Nat) (contents : γ) :
    (heap.put a contents).add a bytes = (heap.add a bytes).put a contents := by
  obtain ⟨cell, found⟩ := live
  simp only [put, add, change, found, IndexMap.get?_insert, if_true, IndexMap.insert_insert]

/-- The contents are replaced. Handles move into them and out of them, and bytes that they do not take any more are slack. -/
theorem Sound.put {a : Address κ} {before : Nat} (sound : Sound heap outside extra (slack a before)) {cell : Cell γ}
    (found : heap.cells.get? a = some cell) (contents : γ) (after : Nat) (outside' : List (Address κ))
    (moved : ∀ b, outside'.count b + (handles contents).count b = outside.count b + (handles cell.contents).count b)
    (paid : bytes contents + after = bytes cell.contents + before) (kinds : kind contents = kind cell.contents) :
    Sound (heap.put a contents) outside' extra (slack a after) := by
  have exactly := sound.exact a cell found
  simp only [slack, if_true] at exactly
  rw [CountedHeap.put, change, found]
  apply sound.replace found { cell with contents := contents } outside' (slack a after) heap.total
  · exact sound.live a cell found
  · exact kinds.trans (sound.typed a cell found)
  · intro b
    have exchanged := moved b
    dsimp only
    omega
  · rfl
  · simp only [slack, if_true]
    omega
  · intro b apart
    simp [slack, apart]

/-! ## Contents -/

/-- What a cell holds. -/
def contentsAt (heap : CountedHeap γ κ) (a : Address κ) : Option γ := (heap.cells.get? a).map (·.contents)

section Contents

omit [HeapContents γ κ]

variable (heap)

theorem contentsAt_change (a b : Address κ) {f : Cell γ → Cell γ} (same : ∀ cell, (f cell).contents = cell.contents) :
    (heap.change a f).contentsAt b = heap.contentsAt b := by
  unfold change
  split
  next => rfl
  next cell found =>
    rw [contentsAt, contentsAt, IndexMap.get?_insert]
    split
    next here =>
      subst here
      rw [found, Option.map_some, Option.map_some, same]
    next => rfl

theorem contentsAt_add (a : Address κ) (bytes : Nat) (b : Address κ) : (heap.add a bytes).contentsAt b = heap.contentsAt b :=
  heap.contentsAt_change a b fun _ => rfl

theorem contentsAt_release (a : Address κ) (bytes : Nat) (b : Address κ) : (heap.release a bytes).contentsAt b = heap.contentsAt b :=
  heap.contentsAt_change a b fun _ => rfl

theorem contentsAt_retainAll (as : List (Address κ)) (b : Address κ) : (heap.retainAll as).contentsAt b = heap.contentsAt b := by
  induction as generalizing heap with
  | nil => rfl
  | cons a rest ih => exact (ih (heap.retain a)).trans (heap.contentsAt_change a b fun _ => rfl)

end Contents

/-- A later heap has no new cell, and the cells that remain are as they were. -/
def Steady (before after : CountedHeap γ κ) : Prop :=
  ∀ a cell, after.cells.get? a = some cell →
    ∃ old, before.cells.get? a = some old ∧ old.contents = cell.contents ∧ old.held = cell.held

section Steady

omit [HeapContents γ κ]

variable {first second third : CountedHeap γ κ}

theorem Steady.refl (heap : CountedHeap γ κ) : Steady heap heap := fun _ cell found => ⟨cell, found, rfl, rfl⟩

theorem Steady.trans (left : Steady first second) (right : Steady second third) : Steady first third := by
  intro a cell found
  obtain ⟨middle, there, contents, held⟩ := right a cell found
  obtain ⟨old, here, contents', held'⟩ := left a middle there
  exact ⟨old, here, contents'.trans contents, held'.trans held⟩

theorem steady_change (heap : CountedHeap γ κ) (a : Address κ) {f : Cell γ → Cell γ}
    (same : ∀ cell, (f cell).contents = cell.contents ∧ (f cell).held = cell.held) : Steady heap (heap.change a f) := by
  intro b cell found
  unfold change at found
  split at found
  next => exact ⟨cell, found, rfl, rfl⟩
  next old there =>
    dsimp only at found
    rw [IndexMap.get?_insert] at found
    split at found
    next here =>
      cases found
      subst here
      exact ⟨old, there, (same old).1.symm, (same old).2.symm⟩
    next => exact ⟨cell, found, rfl, rfl⟩

theorem steady_retainAll (heap : CountedHeap γ κ) (as : List (Address κ)) : Steady heap (heap.retainAll as) := by
  induction as generalizing heap with
  | nil => exact Steady.refl heap
  | cons a rest ih =>
      have one : Steady heap (heap.retain a) := steady_change heap a fun _ => ⟨rfl, rfl⟩
      exact one.trans (ih (heap.retain a))

/-- What was counted can be given back. -/
theorem release_add (heap : CountedHeap γ κ) {a : Address κ} (live : ∃ cell, heap.cells.get? a = some cell) (bytes : Nat) :
    (heap.add a bytes).release a bytes = heap := by
  obtain ⟨cell, found⟩ := live
  have back := (heap.cells.insert_insert a cell { cell with held := cell.held + bytes }).trans (heap.cells.insert_same found)
  have stored : (heap.add a bytes).cells = heap.cells.insert a { cell with held := cell.held + bytes } := by
    rw [add, change, found]
  have again : (heap.add a bytes).cells.get? a = some { cell with held := cell.held + bytes } := by
    rw [stored, IndexMap.get?_insert, if_pos rfl]
  rw [release, heldBy, change, again]
  simp only [Option.elim, stored, Nat.add_sub_cancel, back]
  rw [add, change, found]
  simp

end Steady

theorem steady_dropAll (heap : CountedHeap γ κ) (as : List (Address κ)) : Steady heap (heap.dropAll as) :=
  fun _ _ found => get?_dropLoop _ heap as found

/-- The bytes of the cells that are gone from a later heap. -/
def freed (before after : CountedHeap γ κ) : Nat :=
  before.cells.weight fun a cell => if after.cells.get? a = none then cell.held else 0

omit [HeapContents γ κ] in
theorem weight_steady {before after : CountedHeap γ κ} (steady : Steady before after) :
    (before.cells.weight fun _ cell => cell.held) = (after.cells.weight fun _ cell => cell.held) + before.freed after := by
  have rest := @IndexMap.weight_rest _ _ _ Cell.held before.cells after.cells (by
    intro a cell found
    obtain ⟨old, there, -, held⟩ := steady a cell found
    exact ⟨old, there, held⟩)
  exact rest

end CountedHeap

end AlLanguage.Library
