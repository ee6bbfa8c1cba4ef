import AlLanguage.Runtime.HeldRuns

/-!
# Refused calls

A List or Dictionary method that fails, and a store that fails, has changed nothing.
-/

namespace AlLanguage.Runtime

open Library CountedHeap

variable {heap : SharedHeap} {a : Handle}

/-! ## Methods -/

/-- A call that fails leaves the heap as it was. -/
def Outcome.Untouched (outcome : Outcome) (heap : SharedHeap) : Prop :=
  ∀ message, outcome.result = .error message → outcome.heap = heap ∧ outcome.writebacks = []

theorem untouched_error (message : String) (heap : SharedHeap) : Outcome.Untouched ⟨.error message, heap, []⟩ heap :=
  fun _ _ => ⟨rfl, rfl⟩

theorem untouched_normal (value : SharedValue) (later : SharedHeap) (writebacks : List (Nat × SharedValue))
    (heap : SharedHeap) : Outcome.Untouched ⟨.normal value, later, writebacks⟩ heap := by
  intro message failed
  cases failed

theorem listMethodOn_untouched (heap : SharedHeap) (a : Handle) (memberType : Option String) (lower : String)
    (args : List SharedValue) (statement : Bool) (items : List SharedValue) :
    (listMethodOn heap a memberType lower args statement items).Untouched heap := by
  unfold listMethodOn insertItem
  repeat' split
  all_goals first
    | exact untouched_error _ _
    | exact untouched_normal _ _ _ _

theorem searchList_untouched [ValueOrder] (heap : SharedHeap) (a : Handle) (lower : String) (items : List SharedValue)
    (needle : SharedValue) (cancelled : Bool) : (searchList heap a lower items needle cancelled).Untouched heap := by
  unfold searchList
  dsimp only
  repeat' split
  all_goals first
    | exact untouched_error _ _
    | exact untouched_normal _ _ _ _

/-- What a call that fails was charged is given back. -/
theorem listCharged_untouched (live : ∃ cell, heap.cells.get? a = some cell) (memberType : Option String) (method : String)
    (args : List SharedValue) (statement : Bool) (items : List SharedValue) :
    (listCharged heap a memberType method args statement items).Untouched heap := by
  unfold listCharged
  dsimp only
  split
  next => exact untouched_error _ _
  next =>
    split
    next => exact untouched_error _ _
    next charged paid =>
      have called := listMethodOn_untouched charged a memberType (toAsciiLowercase method) args statement items
      intro message failed
      split at failed
      next added =>
        rw [failed] at added
        cases added
      next notAdded =>
        obtain ⟨same, nothing⟩ := called message failed
        rw [if_neg notAdded]
        refine ⟨?_, nothing⟩
        dsimp only
        rw [same, charge_ok paid]
        exact release_add heap live _

theorem listCall_untouched [CaseMapping] [ValueOrder] (live : ∃ cell, heap.cells.get? a = some cell)
    (memberType : Option String) (method : String) (args : List SharedValue) (statement cancelled : Bool) :
    (listCall heap a memberType method args statement cancelled).Untouched heap := by
  unfold listCall
  dsimp only
  split
  next => exact untouched_error _ _
  next =>
    split
    next => exact untouched_error _ _
    next =>
      split
      next => exact searchList_untouched heap a _ _ _ cancelled
      next => exact listCharged_untouched live memberType method _ statement _

theorem dictMethodOn_untouched [CaseMapping] (heap : SharedHeap) (a : Handle) (keyType valueType : Option String) (lower : String)
    (args : List SharedValue) (entries : DictEntries) :
    (dictMethodOn heap a keyType valueType lower args entries).Untouched heap := by
  unfold dictMethodOn newList
  dsimp only
  repeat' split
  all_goals first
    | exact untouched_error _ _
    | exact untouched_normal _ _ _ _

/-! ## Dropped arguments -/

/-- A call that fails drops its arguments, and changes no contents that are left. -/
def Outcome.Steady (outcome : Outcome) (heap : SharedHeap) : Prop :=
  ∀ message, outcome.result = .error message → CountedHeap.Steady heap outcome.heap ∧ outcome.writebacks = []

theorem steady_dropping {outcome : Outcome} (untouched : outcome.Untouched heap) (args : List SharedValue) :
    Outcome.Steady { outcome with heap := SharedHeap.dropValues outcome.heap args } heap := by
  intro message failed
  obtain ⟨same, nothing⟩ := untouched message failed
  refine ⟨?_, nothing⟩
  dsimp only
  rw [same]
  exact steady_dropAll heap (SharedValue.handlesAll args)

theorem listMethod_steady [CaseMapping] [ValueOrder] (live : ∃ cell, heap.cells.get? a = some cell)
    (memberType : Option String) (method : String) (args : List SharedValue) (statement cancelled : Bool) :
    (listMethod heap a memberType method args statement cancelled).Steady heap := by
  unfold listMethod
  dsimp only
  split
  next other otherType _ =>
    split
    next =>
      have live' := @find_retainAll _ _ _ _ (SharedValue.handlesAll (SharedHeap.items heap ⟨other, .list⟩)) _ live
      have untouched := listCall_untouched live' memberType method (SharedHeap.items heap ⟨other, .list⟩) statement cancelled
      intro message failed
      obtain ⟨dropped, nothing⟩ := steady_dropping untouched _ message failed
      exact ⟨(steady_retainAll heap _).trans dropped, nothing⟩
    next => exact steady_dropping (listCall_untouched live memberType method _ statement cancelled) _
  next => exact steady_dropping (listCall_untouched live memberType method _ statement cancelled) _

theorem dictMethod_steady [CaseMapping] (heap : SharedHeap) (a : Handle) (keyType valueType : Option String) (method : String)
    (args : List SharedValue) : (dictMethod heap a keyType valueType method args).Steady heap := by
  unfold dictMethod
  dsimp only
  split
  next => exact steady_dropping (untouched_error _ heap) args
  next =>
    split
    next => exact steady_dropping (untouched_error _ heap) args
    next => exact steady_dropping (dictMethodOn_untouched heap a keyType valueType _ _ _) args

/-! ## Calls -/

namespace Interp

/-- The frames and the contents that are left are as they were, and the account counts the bytes less that the dropped
arguments held. -/
structure Unchanged (interp later : Interp) : Prop where
  frames : later.frames = interp.frames
  contents : CountedHeap.Steady interp.heap later.heap
  account : later.heap.total + interp.heap.freed later.heap = interp.heap.total

variable {interp : Interp} {start : Nat}

theorem Accounted.unchanged (accounted : interp.Accounted start) {later : Interp} (after : later.Accounted start)
    (frames : later.frames = interp.frames) (steady : CountedHeap.Steady interp.heap later.heap) :
    interp.Unchanged later where
  frames := frames
  contents := steady
  account := by
    have before := accounted.heap.balanced
    have now := after.heap.balanced
    have left := weight_steady steady
    have bytes : later.frameBytes = interp.frameBytes := by rw [frameBytes, frameBytes, frames]
    omega

theorem steady_clear (interp : Interp) : CountedHeap.Steady interp.heap interp.clearWritebacks.heap := steady_dropAll _ _

theorem steady_discard (interp : Interp) (count : Nat) : CountedHeap.Steady interp.heap (interp.discard count).heap :=
  steady_dropAll _ _

theorem returned_steady {outcome : Outcome} (steady : outcome.Steady interp.heap) {count : Nat} {message : String}
    (failed : (interp.returned count outcome).1 = .error message) :
    CountedHeap.Steady interp.heap (interp.returned count outcome).2.heap ∧
      (interp.returned count outcome).2.frames = interp.frames := by
  unfold Interp.returned at failed ⊢
  dsimp only at failed ⊢
  split at failed
  next error result => exact ⟨(steady error result).1, rfl⟩
  next => cases failed

section Refusals

variable [CaseMapping] [ValueOrder] [Rendering]

omit [Rendering] in
theorem Accounted.callList_refused (accounted : interp.Accounted start) {recv method message : String} {count : Nat}
    {statement cancelled : Bool} (failed : (interp.callList recv method count statement cancelled).1 = .error message) :
    interp.Unchanged (interp.callList recv method count statement cancelled).2 := by
  have after := accounted.callList recv method count statement cancelled
  suffices kept : CountedHeap.Steady interp.heap (interp.callList recv method count statement cancelled).2.heap ∧
      (interp.callList recv method count statement cancelled).2.frames = interp.frames from
    accounted.unchanged after kept.2 kept.1
  have cleared := accounted.clearWritebacks
  clear after
  unfold Interp.callList at failed ⊢
  dsimp only at failed ⊢
  split at failed
  next => exact ⟨(steady_clear interp).trans (steady_discard _ count), rfl⟩
  next serial memberType found =>
    have here := mem_handles (lookup_handles found ⟨serial, .list⟩ List.mem_cons_self) interp.clearWritebacks.values
    obtain ⟨steady, frames⟩ :=
      returned_steady (listMethod_steady (cleared.heap.found here) memberType method _ statement cancelled) failed
    exact ⟨(steady_clear interp).trans steady, frames⟩
  next => exact ⟨(steady_clear interp).trans (steady_discard _ count), rfl⟩

omit [ValueOrder] [Rendering] in
theorem Accounted.callDict_refused (accounted : interp.Accounted start) {recv method message : String} {count : Nat}
    (failed : (interp.callDict recv method count).1 = .error message) :
    interp.Unchanged (interp.callDict recv method count).2 := by
  have after := accounted.callDict recv method count
  suffices kept : CountedHeap.Steady interp.heap (interp.callDict recv method count).2.heap ∧
      (interp.callDict recv method count).2.frames = interp.frames from
    accounted.unchanged after kept.2 kept.1
  clear after
  unfold Interp.callDict at failed ⊢
  dsimp only at failed ⊢
  split at failed
  next => exact ⟨(steady_clear interp).trans (steady_discard _ count), rfl⟩
  next serial keyType valueType found =>
    obtain ⟨steady, frames⟩ := returned_steady (dictMethod_steady _ _ keyType valueType method _) failed
    exact ⟨(steady_clear interp).trans steady, frames⟩
  next => exact ⟨(steady_clear interp).trans (steady_discard _ count), rfl⟩

omit [ValueOrder] [Rendering] in
theorem Accounted.lookupDict_refused (accounted : interp.Accounted start) {recv message : String}
    (failed : (interp.lookupDict recv).1 = .error message) : interp.Unchanged (interp.lookupDict recv).2 := by
  have after := accounted.lookupDict recv
  suffices kept : CountedHeap.Steady interp.heap (interp.lookupDict recv).2.heap ∧
      (interp.lookupDict recv).2.frames = interp.frames from
    accounted.unchanged after kept.2 kept.1
  clear after
  unfold Interp.lookupDict at failed ⊢
  dsimp only at failed ⊢
  split at failed
  next => cases failed
  next =>
    split at failed
    next =>
      split at failed
      next => exact ⟨steady_discard _ 1, rfl⟩
      next => cases failed
      next => cases failed
    next => exact ⟨steady_discard _ 1, rfl⟩

omit [CaseMapping] [ValueOrder] [Rendering] in
theorem store_steady {frame : CallFrame} {heap : SharedHeap} {operation name message : String} {old value : SharedValue}
    (failed : (frame.store heap operation name old value).1 = .error message) :
    CountedHeap.Steady heap (frame.store heap operation name old value).2.2 ∧
      (frame.store heap operation name old value).2.1 = frame := by
  unfold CallFrame.store at failed ⊢
  dsimp only at failed ⊢
  split at failed
  next => exact ⟨steady_dropAll heap value.handles, rfl⟩
  next => cases failed

omit [CaseMapping] [ValueOrder] [Rendering] in
theorem Accounted.store_refused (accounted : interp.Accounted start) {operation name message : String}
    (failed : (interp.store operation name).1 = .error message) : interp.Unchanged (interp.store operation name).2 := by
  have after := accounted.store operation name
  suffices kept : CountedHeap.Steady interp.heap (interp.store operation name).2.heap ∧
      (interp.store operation name).2.frames = interp.frames from
    accounted.unchanged after kept.2 kept.1
  clear after
  unfold Interp.store at failed ⊢
  split at failed
  next value values index old listed found =>
    obtain ⟨frame, at_, here⟩ := lookupFrame_some found
    rw [at_] at failed ⊢
    dsimp only at failed ⊢
    obtain ⟨steady, same⟩ := store_steady failed
    rw [same]
    have placed : interp.frames[index]? = some frame := by
      rw [Interp.frames, List.getElem?_append_left (List.getElem?_eq_some_iff.mp at_).1]
      exact at_
    refine ⟨?_, ?_⟩
    · rw [(putFrame_eq _ index frame).1]
      exact steady
    · rw [putFrame_frames]
      obtain ⟨within, there⟩ := List.getElem?_eq_some_iff.mp placed
      rw [← there]
      exact List.set_getElem_self within
  next => cases failed

/-! ## Runs -/

omit [CaseMapping] [ValueOrder] [Rendering] in
theorem accounted_initial (start : Nat) : (Interp.initial start).Accounted start where
  heap := sound_start start
  frames := by
    intro frame none
    cases none

theorem run_accounted (start : Nat) (actions : List HeldAction) :
    (Machine.run Interp.after (Interp.initial start) actions).Accounted start := by
  apply Machine.run_invariant
  · intro interp action accounted
    exact accounted.after action
  · exact accounted_initial start

omit [CaseMapping] [ValueOrder] [Rendering] in
/-- A cell is there as long as a handle leads to it. -/
theorem Accounted.live_iff (accounted : interp.Accounted start) (a : Handle) :
    (∃ cell, interp.heap.cells.get? a = some cell) ↔
      a ∈ interp.handles ∨ ∃ b cell, interp.heap.cells.get? b = some cell ∧ a ∈ cell.contents.handles := by
  constructor
  · rintro ⟨cell, found⟩
    have counted := accounted.heap.counted a
    have live := accounted.heap.live a cell found
    rw [strong, found] at counted
    by_cases outside : a ∈ interp.handles
    · exact .inl outside
    · rw [List.count_eq_zero_of_not_mem outside] at counted
      have some_ : 0 < interp.heap.inside a := by
        simp only [Option.elim] at counted
        omega
      obtain ⟨b, cell', there, inside⟩ := IndexMap.exists_of_weight_pos some_
      exact .inr ⟨b, cell', there, List.count_pos_iff.mp inside⟩
  · rintro (outside | ⟨b, cell, there, inside⟩)
    · exact accounted.heap.found outside
    · exact accounted.heap.found_inside there inside

omit [CaseMapping] [ValueOrder] [Rendering] in
theorem Accounted.all_dropped (accounted : interp.Accounted start) (handles : interp.handles = []) (frames : interp.frames = [])
    (inside : ∀ a cell, interp.heap.cells.get? a = some cell → cell.contents.handles = []) : interp.heap.total = start := by
  have none : ∀ a cell, interp.heap.cells.get? a = some cell → False := by
    intro a cell found
    rcases (accounted.live_iff a).mp ⟨cell, found⟩ with outside | ⟨b, cell', there, member⟩
    · rw [handles] at outside
      cases outside
    · rw [inside b cell' there] at member
      cases member
  have balanced := accounted.heap.balanced
  have empty : (interp.heap.cells.weight fun _ cell => cell.held) = 0 := by
    by_contra some_
    obtain ⟨a, cell, found, -⟩ := IndexMap.exists_of_weight_pos (Nat.pos_of_ne_zero some_)
    exact none a cell found
  have bytes : interp.frameBytes = 0 := by
    rw [frameBytes, frames]
    rfl
  omega

/-- After every run the account counts the live contents and the frames, each by what it holds, and a List, Dictionary or
store operation that fails changes neither contents nor variables. -/
theorem held_bytes_exact (start : Nat) (actions : List HeldAction) :
    let interp := Machine.run Interp.after (Interp.initial start) actions
    interp.heap.total = start + (interp.heap.cells.weight fun _ cell => cell.held) + (interp.frames.map (·.held)).sum ∧
      (∀ a, (∃ cell, interp.heap.cells.get? a = some cell) ↔
        a ∈ interp.handles ∨ ∃ b cell, interp.heap.cells.get? b = some cell ∧ a ∈ cell.contents.handles) ∧
      (∀ a cell, interp.heap.cells.get? a = some cell → cell.held = cell.contents.heldBytes) ∧
      (∀ frame ∈ interp.frames, frame.held = frame.locals.weight fun _ value => ownedBytes value) ∧
      (∀ recv method count statement cancelled message,
        (interp.callList recv method count statement cancelled).1 = .error message →
          interp.Unchanged (interp.callList recv method count statement cancelled).2) ∧
      (∀ recv method count message, (interp.callDict recv method count).1 = .error message →
        interp.Unchanged (interp.callDict recv method count).2) ∧
      (∀ recv message, (interp.lookupDict recv).1 = .error message → interp.Unchanged (interp.lookupDict recv).2) ∧
      (∀ operation name message, (interp.store operation name).1 = .error message →
        interp.Unchanged (interp.store operation name).2) ∧
      (interp.handles = [] → interp.frames = [] →
        (∀ a cell, interp.heap.cells.get? a = some cell → cell.contents.handles = []) → interp.heap.total = start) := by
  intro interp
  have accounted : interp.Accounted start := run_accounted start actions
  refine ⟨?_, accounted.live_iff, ?_, accounted.frames, ?_, ?_, ?_, ?_, accounted.all_dropped⟩
  · have balanced := accounted.heap.balanced
    rw [frameBytes] at balanced
    omega
  · intro a cell found
    exact accounted.heap.exact a cell found
  · intro recv method count statement cancelled message failed
    exact accounted.callList_refused failed
  · intro recv method count message failed
    exact accounted.callDict_refused failed
  · intro recv message failed
    exact accounted.lookupDict_refused failed
  · intro operation name message failed
    exact accounted.store_refused failed

end Refusals

section Examples

attribute [local instance] CaseMapping.latin1 ValueOrder.byText Rendering.byText

/-- The test holds all it may, and an empty TextBuilder is given a text. -/
theorem append_refused_changes :
    let interp := Machine.run Interp.after (Interp.initial maxHeldBytes)
      [.makeTextBuilder "", .newFrame "Codeunit" "Test", .bind 0 "Builder", .pushFrame 0, .literal (.text "A")]
    let refused := interp.callTextBuilder "Builder" "Append" 1
    (refused.1 matches .error _) ∧ interp.heap.text ⟨0, .text⟩ = "" ∧ refused.2.heap.text ⟨0, .text⟩ = "A" ∧
      interp.heap.total = maxHeldBytes ∧ refused.2.heap.total = maxHeldBytes + 1 := by
  decide +kernel

end Examples

end Interp

end AlLanguage.Runtime
