import AlLanguage.Library.Machine
import AlLanguage.Runtime.Frames
import AlLanguage.Runtime.HeldEntries

/-!
# The account of held bytes

The bytes of the live contents and of the frames are what the account says, after any run.
-/

namespace AlLanguage.Runtime

open Library CountedHeap

/-! ## Frames -/

namespace CallFrame

def handles (frame : CallFrame) : List Handle := SharedValue.handlesAll frame.locals.values

/-- The frame counts what its variables own. -/
def Exact (frame : CallFrame) : Prop := frame.held = frame.locals.weight fun _ value => ownedBytes value

theorem count_handles (frame : CallFrame) (x : Handle) :
    frame.handles.count x = frame.locals.weight fun _ value => value.handles.count x := by
  rw [handles, count_handlesAll, IndexMap.values, List.map_map]
  rfl

end CallFrame

section Bytes

variable {heap : SharedHeap} {outside : List Handle} {extra : Nat} {excess : Handle → Nat}

theorem sound_pay (sound : Sound heap outside extra excess) (bytes : Nat) :
    Sound { heap with total := heap.total + bytes } outside (extra + bytes) excess where
  counted := sound.counted
  live := sound.live
  balanced := by
    have before := sound.balanced
    dsimp only
    omega
  exact := sound.exact
  fresh := sound.fresh
  typed := sound.typed

theorem sound_refund {bytes : Nat} (sound : Sound heap outside (extra + bytes) excess) :
    Sound { heap with total := heap.total - bytes } outside extra excess where
  counted := sound.counted
  live := sound.live
  balanced := by
    have before := sound.balanced
    dsimp only
    omega
  exact := sound.exact
  fresh := sound.fresh
  typed := sound.typed

theorem holdBytes_ok {operation : String} {bytes : Nat} {held : SharedHeap}
    (ok : heap.holdBytes operation bytes = .ok held) : held = { heap with total := heap.total + bytes } := by
  unfold SharedHeap.holdBytes at ok
  dsimp only at ok
  split at ok
  · cases ok
  · cases ok
    rfl

variable {frame : CallFrame}

/-- The frame gives back the bytes of a variable that it counts for. -/
theorem releaseBytes_eq {bytes : Nat} (counted : bytes ≤ frame.held) :
    frame.releaseBytes heap bytes =
      ({ frame with held := frame.held - bytes }, { heap with total := heap.total - bytes }) := by
  rw [CallFrame.releaseBytes, Nat.min_eq_left counted]

/-- The value takes the place of the one that the name held, whose handles are dropped. -/
theorem sound_rebind {old value : SharedValue} {name : String} (exact_ : frame.Exact)
    (found : frame.locals.get? name = some old)
    (sound : Sound heap (frame.handles ++ (value.handles ++ outside)) (frame.held + extra) excess) :
    let bound := { frame with held := frame.held + ownedBytes value - ownedBytes old, locals := frame.locals.insert name value }
    bound.Exact ∧
      Sound (SharedHeap.dropValue { heap with total := heap.total + ownedBytes value - ownedBytes old } old)
        (bound.handles ++ outside) (bound.held + extra) excess := by
  intro bound
  have bytes := frame.locals.weight_insert (fun _ value => ownedBytes value) name value
  have part := IndexMap.le_weight (fun _ value => ownedBytes value) found
  rw [found] at bytes
  simp only [Option.elim] at bytes
  rw [CallFrame.Exact] at exact_
  refine ⟨?_, ?_⟩
  · rw [CallFrame.Exact]
    dsimp only [bound]
    omega
  · apply sound_dropValue
    have paid := sound_pay sound (ownedBytes value)
    have same : frame.held + extra + ownedBytes value = bound.held + extra + ownedBytes old := by
      dsimp only [bound]
      omega
    rw [same] at paid
    apply (sound_refund paid).perm
    intro x
    have moved := frame.locals.weight_insert (fun _ value => value.handles.count x) name value
    rw [found] at moved
    simp only [Option.elim] at moved
    simp only [List.count_append, CallFrame.count_handles]
    dsimp only [bound]
    omega

theorem sound_bind {value : SharedValue} (name : String) (exact_ : frame.Exact)
    (sound : Sound heap (frame.handles ++ (value.handles ++ outside)) (frame.held + extra) excess) :
    (frame.bind heap name value).1.Exact ∧
      Sound (frame.bind heap name value).2 ((frame.bind heap name value).1.handles ++ outside)
        ((frame.bind heap name value).1.held + extra) excess := by
  unfold CallFrame.bind
  dsimp only
  split
  next none =>
    have bytes := frame.locals.weight_insert (fun _ value => ownedBytes value) (toAsciiLowercase name) value
    rw [none] at bytes
    refine ⟨?_, ?_⟩
    · rw [CallFrame.Exact] at exact_ ⊢
      simp only [Option.elim] at bytes
      dsimp only
      omega
    · have paid := sound_pay sound (ownedBytes value)
      rw [Nat.add_right_comm] at paid
      apply paid.perm
      intro x
      have moved := frame.locals.weight_insert (fun _ value => value.handles.count x) (toAsciiLowercase name) value
      rw [none] at moved
      simp only [Option.elim] at moved
      simp only [List.count_append, CallFrame.count_handles]
      omega
  next old found =>
    have part := IndexMap.le_weight (fun _ value => ownedBytes value) found
    rw [← exact_] at part
    rw [releaseBytes_eq (Nat.le_trans part (Nat.le_add_right _ _))]
    exact sound_rebind exact_ found sound

theorem sound_unbind {name : String} (exact_ : frame.Exact)
    (sound : Sound heap (frame.handles ++ outside) (frame.held + extra) excess) {old : SharedValue} {left : CallFrame}
    {released : SharedHeap} (unbound : frame.unbind heap name = some (old, left, released)) :
    left.Exact ∧ Sound released (left.handles ++ (old.handles ++ outside)) (left.held + extra) excess := by
  obtain ⟨value, found, same⟩ := Option.map_eq_some_iff.mp unbound
  have part := IndexMap.le_weight (fun _ value => ownedBytes value) found
  rw [← exact_] at part
  rw [@releaseBytes_eq _ { frame with locals := frame.locals.erase (toAsciiLowercase name) } _ part] at same
  cases same
  have bytes := frame.locals.weight_erase (fun _ value => ownedBytes value) (toAsciiLowercase name)
  rw [found] at bytes
  simp only [Option.elim] at bytes
  rw [CallFrame.Exact] at exact_
  refine ⟨?_, ?_⟩
  · rw [CallFrame.Exact]
    dsimp only
    omega
  · have same : frame.held + extra = frame.held - ownedBytes old + extra + ownedBytes old := by omega
    rw [same] at sound
    apply (sound_refund sound).perm
    intro x
    have moved := frame.locals.weight_erase (fun _ value => value.handles.count x) (toAsciiLowercase name)
    rw [found] at moved
    simp only [Option.elim] at moved
    simp only [List.count_append, CallFrame.count_handles]
    omega

theorem sound_store (operation : String) {name : String} {old value : SharedValue} (exact_ : frame.Exact)
    (found : frame.locals.get? (toAsciiLowercase name) = some old)
    (sound : Sound heap (frame.handles ++ (value.handles ++ outside)) (frame.held + extra) excess) :
    (frame.store heap operation name old value).2.1.Exact ∧
      Sound (frame.store heap operation name old value).2.2
        ((frame.store heap operation name old value).2.1.handles ++ outside)
        ((frame.store heap operation name old value).2.1.held + extra) excess := by
  unfold CallFrame.store
  dsimp only
  split
  next =>
    refine ⟨exact_, sound_dropValue (sound.perm ?_)⟩
    intro x
    simp only [List.count_append]
    omega
  next held ok =>
    have part := IndexMap.le_weight (fun _ value => ownedBytes value) found
    rw [← exact_] at part
    rw [releaseBytes_eq (Nat.le_trans part (Nat.le_add_right _ _)), holdBytes_ok ok]
    exact sound_rebind exact_ found sound

theorem live_locals (sound : Sound heap (frame.handles ++ outside) extra excess) :
    ∀ value ∈ frame.locals.values, Live heap value := by
  intro value member
  apply live_outside sound
  intro x handle
  exact List.mem_append_left _ (mem_handlesAll.mpr ⟨value, member, handle⟩)

theorem sound_cloneFrame (sound : Sound heap outside extra excess) (live : ∀ value ∈ frame.locals.values, Live heap value) :
    Sound (frame.clone heap) (frame.handles ++ outside) (extra + frame.held) excess :=
  sound_cloneValues (sound_pay sound frame.held) live

theorem sound_dropFrame (sound : Sound heap (frame.handles ++ outside) (extra + frame.held) excess) :
    Sound (frame.drop heap) outside extra excess := sound_dropValues (sound_refund sound)

end Bytes

/-! ## The interpreter -/

namespace Interp

def handles (interp : Interp) : List Handle :=
  SharedValue.handlesAll interp.values ++ (SharedValue.handlesAll (interp.writebacks.map (·.2)) ++
    interp.frames.flatMap CallFrame.handles)

/-- The bytes that the frames count. -/
def frameBytes (interp : Interp) : Nat := (interp.frames.map (·.held)).sum

/-- The account starts at `start`, and counts the live contents and the frames. -/
structure Accounted (start : Nat) (interp : Interp) : Prop where
  heap : Sound interp.heap interp.handles (start + interp.frameBytes) fun _ => 0
  frames : ∀ frame ∈ interp.frames, frame.Exact

theorem count_handles (interp : Interp) (x : Handle) :
    interp.handles.count x = (SharedValue.handlesAll interp.values).count x +
      (SharedValue.handlesAll (interp.writebacks.map (·.2))).count x +
      (interp.frames.map fun frame => frame.handles.count x).sum := by
  rw [handles, List.count_append, List.count_append, List.count_flatMap, Nat.add_assoc]
  rfl

variable {interp : Interp} {start : Nat}

/-- The handles that are not in the frame at a place. -/
def beside (interp : Interp) (place : Nat) : List Handle :=
  SharedValue.handlesAll interp.values ++ (SharedValue.handlesAll (interp.writebacks.map (·.2)) ++
    (interp.frames.eraseIdx place).flatMap CallFrame.handles)

def bytesBeside (interp : Interp) (place : Nat) : Nat := ((interp.frames.eraseIdx place).map (·.held)).sum

theorem frames_at (f : CallFrame → Nat) {place : Nat} {frame : CallFrame} (at_ : interp.frames[place]? = some frame) :
    (interp.frames.map f).sum = f frame + ((interp.frames.eraseIdx place).map f).sum := by
  obtain ⟨within, same⟩ := List.getElem?_eq_some_iff.mp at_
  rw [← sum_eraseIdx f interp.frames within, same]

theorem count_beside (interp : Interp) (place : Nat) (x : Handle) :
    (interp.beside place).count x = (SharedValue.handlesAll interp.values).count x +
      (SharedValue.handlesAll (interp.writebacks.map (·.2))).count x +
      ((interp.frames.eraseIdx place).map fun frame => frame.handles.count x).sum := by
  rw [beside, List.count_append, List.count_append, List.count_flatMap, Nat.add_assoc]
  rfl

/-- A frame is looked at on its own. -/
theorem Accounted.focus (accounted : interp.Accounted start) {place : Nat} {frame : CallFrame}
    (at_ : interp.frames[place]? = some frame) :
    frame.Exact ∧ Sound interp.heap (frame.handles ++ interp.beside place) (frame.held + (start + interp.bytesBeside place))
      fun _ => 0 := by
  refine ⟨accounted.frames frame (List.mem_of_getElem? at_), ?_⟩
  have bytes := frames_at (·.held) at_
  have same : start + interp.frameBytes = frame.held + (start + interp.bytesBeside place) := by
    rw [frameBytes, bytesBeside]
    omega
  rw [← same]
  apply accounted.heap.perm
  intro x
  have handles := frames_at (fun frame => frame.handles.count x) at_
  rw [List.count_append, count_handles, count_beside]
  omega

theorem putFrame_frames (interp : Interp) (place : Nat) (frame : CallFrame) :
    (interp.putFrame place frame).frames = interp.frames.set place frame := by
  rw [putFrame, frames, frames, List.set_append]
  split <;> rfl

theorem putFrame_eq (interp : Interp) (place : Nat) (frame : CallFrame) :
    (interp.putFrame place frame).heap = interp.heap ∧ (interp.putFrame place frame).values = interp.values ∧
      (interp.putFrame place frame).writebacks = interp.writebacks := by
  rw [putFrame]
  split <;> exact ⟨rfl, rfl, rfl⟩

/-- The frame is put back. -/
theorem Accounted.put {place : Nat} {old frame : CallFrame} (at_ : interp.frames[place]? = some old)
    (others : ∀ frame ∈ interp.frames, frame.Exact) (exact_ : frame.Exact)
    (sound : Sound interp.heap (frame.handles ++ interp.beside place) (frame.held + (start + interp.bytesBeside place))
      fun _ => 0) : (interp.putFrame place frame).Accounted start := by
  obtain ⟨heap, values, writebacks⟩ := interp.putFrame_eq place frame
  obtain ⟨within, same⟩ := List.getElem?_eq_some_iff.mp at_
  constructor
  · have bytes := sum_set (·.held) interp.frames within frame
    have before := frames_at (·.held) at_
    rw [same] at bytes
    have counted : start + (interp.putFrame place frame).frameBytes = frame.held + (start + interp.bytesBeside place) := by
      rw [frameBytes, bytesBeside, putFrame_frames]
      omega
    rw [heap, counted]
    apply sound.perm
    intro x
    have moved := sum_set (fun frame => frame.handles.count x) interp.frames within frame
    have found := frames_at (fun frame => frame.handles.count x) at_
    rw [same] at moved
    rw [List.count_append, count_handles, count_beside, values, writebacks, putFrame_frames]
    omega
  · intro other member
    rw [putFrame_frames] at member
    rcases List.mem_or_eq_of_mem_set member with before | here
    · exact others other before
    · rw [here]
      exact exact_

theorem Accounted.of (accounted : interp.Accounted start) {later : Interp} {outside : List Handle}
    (frames : later.frames = interp.frames) (sound : Sound later.heap outside (start + interp.frameBytes) fun _ => 0)
    (counts : ∀ x, outside.count x = later.handles.count x) : later.Accounted start where
  heap := by
    have same : later.frameBytes = interp.frameBytes := by rw [frameBytes, frameBytes, frames]
    rw [same]
    exact sound.perm counts
  frames := by
    rw [frames]
    exact accounted.frames

theorem count_split (values : List SharedValue) (count : Nat) (x : Handle) :
    (SharedValue.handlesAll (values.take count)).count x + (SharedValue.handlesAll (values.drop count)).count x =
      (SharedValue.handlesAll values).count x := by
  rw [← List.count_append, ← handlesAll_append, List.take_append_drop]

/-- The first values are on their own, for a call that takes them. -/
theorem Accounted.take (accounted : interp.Accounted start) (count : Nat) :
    Sound interp.heap (SharedValue.handlesAll (interp.values.take count) ++
        ({ interp with values := interp.values.drop count } : Interp).handles) (start + interp.frameBytes) fun _ => 0 := by
  apply accounted.heap.perm
  intro x
  have split := count_split interp.values count x
  rw [List.count_append, count_handles, count_handles]
  dsimp only [Interp.frames]
  omega

theorem Accounted.discard (accounted : interp.Accounted start) (count : Nat) : (interp.discard count).Accounted start :=
  accounted.of rfl (sound_dropValues (accounted.take count)) fun _ => rfl

theorem Accounted.clearWritebacks (accounted : interp.Accounted start) : interp.clearWritebacks.Accounted start := by
  have apart : Sound interp.heap (SharedValue.handlesAll (interp.writebacks.map (·.2)) ++
      ({ interp with writebacks := [] } : Interp).handles) (start + interp.frameBytes) fun _ => 0 := by
    apply accounted.heap.perm
    intro x
    rw [List.count_append, count_handles, count_handles]
    dsimp only [Interp.frames]
    simp [SharedValue.handlesAll]
    omega
  exact accounted.of rfl (sound_dropValues apart) fun _ => rfl

theorem Accounted.returned (accounted : interp.Accounted start) (count : Nat) {outcome : Outcome}
    (sound : Sound outcome.heap
      (outcome.handles ++ ({ interp with values := interp.values.drop count } : Interp).handles)
      (start + interp.frameBytes) fun _ => 0) : (interp.returned count outcome).2.Accounted start := by
  unfold Interp.returned
  dsimp only
  split
  next error failed =>
    refine accounted.of ?_ sound ?_
    · rfl
    intro x
    rw [Outcome.handles, failed, List.count_append, count_handles, count_handles]
    dsimp only [Interp.frames]
    simp only [List.map_append, handlesAll_append, Eval.handles, List.nil_append, List.count_append]
    omega
  next value result =>
    refine accounted.of ?_ sound ?_
    · rfl
    intro x
    rw [Outcome.handles, result, List.count_append, count_handles, count_handles]
    dsimp only [Interp.frames]
    simp only [List.map_append, handlesAll_append, SharedValue.handlesAll, Eval.handles, List.count_append]
    omega

/-! ### Variables -/

theorem lookupFrame_some {stack : List CallFrame} {name : String} {index : Nat} {value : SharedValue}
    (found : lookupFrame stack name = some (index, value)) :
    ∃ frame, stack[index]? = some frame ∧ frame.locals.get? (toAsciiLowercase name) = some value := by
  unfold lookupFrame at found
  dsimp only at found
  split at found
  next => cases found
  next current callers =>
    split at found
    next value' here =>
      cases found
      exact ⟨current, rfl, here⟩
    next =>
      obtain ⟨⟨frame, place⟩, member, chosen⟩ := List.exists_of_findSome?_eq_some found
      dsimp only at chosen
      split at chosen
      next =>
        obtain ⟨value', here, same⟩ := Option.map_eq_some_iff.mp chosen
        cases same
        obtain ⟨least, at_⟩ := List.mk_mem_zipIdx_iff_le_and_getElem?_sub.mp member
        refine ⟨frame, ?_, here⟩
        obtain ⟨below, rfl⟩ := Nat.exists_eq_add_of_le' least
        simpa using at_
      next => cases chosen

theorem handles_of_frame {frame : CallFrame} {name : String} {value : SharedValue} (member : frame ∈ interp.frames)
    (found : frame.locals.get? name = some value) : ∀ x ∈ value.handles, x ∈ interp.frames.flatMap CallFrame.handles := by
  intro x handle
  apply List.mem_flatMap.mpr
  refine ⟨frame, member, mem_handlesAll.mpr ⟨value, ?_, handle⟩⟩
  exact List.mem_map.mpr ⟨(name, value), (frame.locals.mem_entries_iff name value).mpr found, rfl⟩

/-- The handles of a variable are in a frame. -/
theorem lookup_handles {name : String} {value : SharedValue} (found : interp.lookup name = some value) :
    ∀ x ∈ value.handles, x ∈ interp.frames.flatMap CallFrame.handles := by
  obtain ⟨⟨index, value'⟩, there, same⟩ := Option.map_eq_some_iff.mp found
  cases same
  obtain ⟨frame, at_, here⟩ := lookupFrame_some there
  exact handles_of_frame (List.mem_append_left _ (List.mem_of_getElem? at_)) here

theorem mem_handles {x : Handle} (member : x ∈ interp.frames.flatMap CallFrame.handles) (values : List SharedValue) :
    x ∈ ({ interp with values := values } : Interp).handles :=
  List.mem_append_right _ (List.mem_append_right _ member)

section Calls

variable [CaseMapping] [ValueOrder] [Rendering]

omit [Rendering] in
theorem Accounted.callList (accounted : interp.Accounted start) (recv method : String) (count : Nat)
    (statement cancelled : Bool) : (interp.callList recv method count statement cancelled).2.Accounted start := by
  have cleared := accounted.clearWritebacks
  unfold Interp.callList
  dsimp only
  split
  next => exact cleared.discard count
  next serial memberType found =>
    have here := mem_handles (lookup_handles found ⟨serial, .list⟩ List.mem_cons_self)
      (interp.clearWritebacks.values.drop count)
    have taken := cleared.take count
    obtain ⟨contents, at_, kind⟩ := typed_contents taken (List.mem_append_right _ here)
    cases contents with
    | items items => exact cleared.returned count (listMethod_sound taken here at_ memberType method statement cancelled)
    | entries | text => cases kind
  next => exact cleared.discard count

omit [ValueOrder] [Rendering] in
theorem Accounted.callDict (accounted : interp.Accounted start) (recv method : String) (count : Nat) :
    (interp.callDict recv method count).2.Accounted start := by
  have cleared := accounted.clearWritebacks
  unfold Interp.callDict
  dsimp only
  split
  next => exact cleared.discard count
  next serial keyType valueType found =>
    have here := mem_handles (lookup_handles found ⟨serial, .dict⟩ List.mem_cons_self)
      (interp.clearWritebacks.values.drop count)
    have taken := cleared.take count
    obtain ⟨contents, at_, kind⟩ := typed_contents taken (List.mem_append_right _ here)
    cases contents with
    | entries map => exact cleared.returned count (dictMethod_sound taken here at_ keyType valueType method)
    | items | text => cases kind
  next => exact cleared.discard count

omit [CaseMapping] [ValueOrder] in
theorem Accounted.callTextBuilder (accounted : interp.Accounted start) (recv method : String) (count : Nat) :
    (interp.callTextBuilder recv method count).2.Accounted start := by
  unfold Interp.callTextBuilder
  split
  next serial found =>
    have here := mem_handles (lookup_handles found ⟨serial, .text⟩ List.mem_cons_self) (interp.values.drop count)
    have taken := accounted.take count
    obtain ⟨contents, at_, kind⟩ := typed_contents taken (List.mem_append_right _ here)
    cases contents with
    | text text => exact accounted.returned count (textBuilderMethod_sound taken here at_ method)
    | items | entries => cases kind
  next => exact accounted.discard count

end Calls

end Interp

end AlLanguage.Runtime
