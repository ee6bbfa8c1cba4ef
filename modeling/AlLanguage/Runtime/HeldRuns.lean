import AlLanguage.Runtime.HeldAccount

/-!
# Runs of methods, stores and frames

Every action keeps the account exact, and a refused one takes nothing but its arguments.
-/

namespace AlLanguage.Runtime

open Library CountedHeap

namespace Interp

variable {interp : Interp} {start : Nat}

/-! ## Values -/

theorem Accounted.alloc (accounted : interp.Accounted start) {contents : Contents} {count : Nat}
    (same : contents.handles = SharedValue.handlesAll (interp.values.take count)) {value : SharedValue}
    (handle : value.handles = [⟨interp.heap.next, contents.kind⟩]) :
    ({ interp with heap := interp.heap.alloc contents, values := value :: interp.values.drop count } : Interp).Accounted
      start := by
  have taken := accounted.take count
  rw [← same] at taken
  refine accounted.of ?_ (taken.alloc rfl) ?_
  · rfl
  · intro x
    rw [List.count_cons, count_handles, count_handles, SharedValue.handlesAll, handle]
    dsimp only [Interp.frames, HeapContents.kind]
    rw [List.count_append, List.count_singleton]
    omega

/-- A live value is cloned. -/
theorem Accounted.clone (accounted : interp.Accounted start) {value : SharedValue}
    (held : ∀ x ∈ value.handles, x ∈ interp.handles) :
    ({ interp with heap := interp.heap.cloneValue value, values := value :: interp.values } : Interp).Accounted start := by
  refine accounted.of ?_ (sound_cloneValue accounted.heap (live_outside accounted.heap held)) ?_
  · rfl
  · intro x
    rw [List.count_append, count_handles, count_handles, SharedValue.handlesAll, List.count_append]
    dsimp only [Interp.frames]
    omega

theorem Accounted.drop (accounted : interp.Accounted start) {index : Nat} {value : SharedValue}
    (at_ : interp.values[index]? = some value) :
    ({ interp with heap := interp.heap.dropValue value, values := interp.values.eraseIdx index } : Interp).Accounted start := by
  have apart : Sound interp.heap
      (value.handles ++ ({ interp with values := interp.values.eraseIdx index } : Interp).handles)
      (start + interp.frameBytes) fun _ => 0 := by
    apply accounted.heap.perm
    intro x
    obtain ⟨within, same⟩ := List.getElem?_eq_some_iff.mp at_
    have erased := sum_eraseIdx (fun value => value.handles.count x) interp.values within
    rw [same] at erased
    rw [List.count_append, count_handles, count_handles]
    dsimp only [Interp.frames]
    simp only [count_handlesAll]
    omega
  refine accounted.of ?_ (sound_dropValue apart) ?_
  · rfl
  · exact fun _ => rfl

theorem mem_values {value : SharedValue} (member : value ∈ interp.values) : ∀ x ∈ value.handles, x ∈ interp.handles :=
  fun _ handle => List.mem_append_left _ (mem_handlesAll.mpr ⟨value, member, handle⟩)

/-- The same values in other places. -/
theorem Accounted.move (accounted : interp.Accounted start) {values : List SharedValue} {writebacks : List (Nat × SharedValue)}
    (same : ∀ x, (SharedValue.handlesAll values).count x + (SharedValue.handlesAll (writebacks.map (·.2))).count x =
      (SharedValue.handlesAll interp.values).count x + (SharedValue.handlesAll (interp.writebacks.map (·.2))).count x) :
    ({ interp with values := values, writebacks := writebacks } : Interp).Accounted start := by
  refine accounted.of ?_ accounted.heap ?_
  · rfl
  · intro x
    have counts := same x
    rw [count_handles, count_handles]
    dsimp only [Interp.frames]
    omega

/-! ## Frames -/

/-- The same frames in other places. -/
theorem Accounted.shuffle (accounted : interp.Accounted start) {later : Interp} (heap : later.heap = interp.heap)
    (values : later.values = interp.values) (writebacks : later.writebacks = interp.writebacks)
    (frames : later.frames.Perm interp.frames) : later.Accounted start where
  heap := by
    have same : later.frameBytes = interp.frameBytes := sum_perm frames
    rw [heap, same]
    apply accounted.heap.perm
    intro x
    have handles := sum_perm (f := fun frame : CallFrame => frame.handles.count x) frames
    rw [count_handles, count_handles, values, writebacks]
    omega
  frames := fun frame member => accounted.frames frame (frames.mem_iff.mp member)

theorem Accounted.addFrame (accounted : interp.Accounted start) {frame : CallFrame} (exact_ : frame.Exact)
    {heap : SharedHeap} (sound : Sound heap (frame.handles ++ interp.handles) (start + interp.frameBytes + frame.held) fun _ => 0) :
    ({ interp with heap := heap, spare := frame :: interp.spare } : Interp).Accounted start where
  heap := by
    have bytes : start + ({ interp with heap := heap, spare := frame :: interp.spare } : Interp).frameBytes =
        start + interp.frameBytes + frame.held := by
      rw [frameBytes, frameBytes]
      dsimp only [Interp.frames]
      simp only [List.map_append, List.map_cons, List.sum_append, List.sum_cons]
      omega
    rw [bytes]
    apply sound.perm
    intro x
    rw [List.count_append, count_handles, count_handles]
    dsimp only [Interp.frames]
    simp only [List.map_append, List.map_cons, List.sum_append, List.sum_cons]
    omega
  frames := by
    intro other member
    rcases List.mem_append.mp member with before | later
    · exact accounted.frames other (List.mem_append_left _ before)
    · rcases List.mem_cons.mp later with here | after
      · rw [here]
        exact exact_
      · exact accounted.frames other (List.mem_append_right _ after)

theorem Accounted.dropFrame (accounted : interp.Accounted start) {index : Nat} {frame : CallFrame}
    (at_ : interp.spare[index]? = some frame) :
    ({ interp with heap := frame.drop interp.heap, spare := interp.spare.eraseIdx index } : Interp).Accounted start where
  heap := by
    obtain ⟨within, same⟩ := List.getElem?_eq_some_iff.mp at_
    have bytes := sum_eraseIdx (·.held) interp.spare within
    rw [same] at bytes
    apply sound_dropFrame
    have counted : start + ({ interp with heap := frame.drop interp.heap, spare := interp.spare.eraseIdx index } :
        Interp).frameBytes + frame.held = start + interp.frameBytes := by
      rw [frameBytes, frameBytes]
      dsimp only [Interp.frames]
      simp only [List.map_append, List.sum_append]
      omega
    rw [counted]
    apply accounted.heap.perm
    intro x
    have handles := sum_eraseIdx (fun frame => frame.handles.count x) interp.spare within
    rw [same] at handles
    rw [List.count_append, count_handles, count_handles]
    dsimp only [Interp.frames]
    simp only [List.map_append, List.sum_append]
    omega
  frames := by
    intro other member
    apply accounted.frames other
    rcases List.mem_append.mp member with before | later
    · exact List.mem_append_left _ before
    · exact List.mem_append_right _ (List.mem_of_mem_eraseIdx later)

theorem Accounted.bind (accounted : interp.Accounted start) {place : Nat} {frame : CallFrame}
    (at_ : interp.frames[place]? = some frame) (name : String) {value : SharedValue} {values : List SharedValue}
    (listed : interp.values = value :: values) :
    (({ interp with heap := (frame.bind interp.heap name value).2, values := values } : Interp).putFrame place
      (frame.bind interp.heap name value).1).Accounted start := by
  obtain ⟨exact_, sound⟩ := accounted.focus at_
  rw [beside, listed, SharedValue.handlesAll, List.append_assoc] at sound
  have bound := sound_bind name exact_ sound
  exact @Accounted.put { interp with heap := (frame.bind interp.heap name value).2, values := values } _ _ _ _ at_
    accounted.frames bound.1 bound.2

theorem Accounted.unbind (accounted : interp.Accounted start) {place : Nat} {frame : CallFrame}
    (at_ : interp.frames[place]? = some frame) {name : String} {old : SharedValue} {left : CallFrame} {heap : SharedHeap}
    (unbound : frame.unbind interp.heap name = some (old, left, heap)) :
    (({ interp with heap := heap, values := old :: interp.values } : Interp).putFrame place left).Accounted start := by
  obtain ⟨exact_, sound⟩ := accounted.focus at_
  have taken := sound_unbind exact_ sound unbound
  refine @Accounted.put { interp with heap := heap, values := old :: interp.values } _ _ _ _ at_ accounted.frames taken.1 ?_
  rw [beside, ← List.append_assoc old.handles] at taken
  exact taken.2

theorem Accounted.store (accounted : interp.Accounted start) (operation name : String) :
    (interp.store operation name).2.Accounted start := by
  unfold Interp.store
  split
  next value values index old listed found =>
    obtain ⟨frame, at_, here⟩ := lookupFrame_some found
    have placed : interp.frames[index]? = some frame := by
      rw [Interp.frames, List.getElem?_append_left (List.getElem?_eq_some_iff.mp at_).1]
      exact at_
    obtain ⟨exact_, sound⟩ := accounted.focus placed
    rw [beside, listed, SharedValue.handlesAll, List.append_assoc] at sound
    rw [at_]
    have stored := sound_store operation exact_ here sound
    exact @Accounted.put { interp with heap := (frame.store interp.heap operation name old value).2.2, values := values } _ _ _
      _ placed accounted.frames stored.1 stored.2
  next => exact accounted

/-- A frame moves to the top of the stack. -/
theorem pushed_perm {stack spare : List CallFrame} {index : Nat} {frame : CallFrame} (at_ : spare[index]? = some frame) :
    (frame :: stack ++ spare.eraseIdx index).Perm (stack ++ spare) := by
  obtain ⟨within, same⟩ := List.getElem?_eq_some_iff.mp at_
  have front := List.getElem_cons_eraseIdx_perm within
  rw [same] at front
  exact List.perm_middle.symm.trans (front.append_left stack)

/-- A value in a live Dictionary is live. -/
theorem lookedUp_live [CaseMapping] {heap : SharedHeap} {outside : List Handle} {extra : Nat} {excess : Handle → Nat}
    (sound : Sound heap outside extra excess) {a : Handle} {keyType : Option String} {key value : SharedValue}
    (found : dictLookup heap a keyType key = .ok (some value)) : Live heap value := by
  have entry : ∃ keyText, ((SharedHeap.entries heap a).get? keyText).map (·.2) = some value := by
    unfold dictLookup at found
    cases declared : declaredMember key keyType with
    | error => rw [declared] at found; cases found
    | ok key' =>
        cases text : dictKey key' with
        | error => rw [declared] at found; simp only [bind, Except.bind, text] at found; cases found
        | ok keyText =>
            rw [declared] at found
            simp only [bind, Except.bind, text] at found
            exact ⟨keyText, Except.ok.inj found⟩
  obtain ⟨keyText, there⟩ := entry
  obtain ⟨⟨key', value'⟩, at_, same⟩ := Option.map_eq_some_iff.mp there
  cases same
  unfold SharedHeap.entries at at_
  split at at_
  next map held strong cell =>
    have here : heap.contentsAt a = some (.entries map) := by rw [contentsAt, cell]; rfl
    exact (live_entry sound here ((map.mem_entries_iff keyText (key', value')).mpr at_)).2
  next => cases at_

/-! ## Actions -/

section Perform

variable [CaseMapping] [ValueOrder] [Rendering]

omit [ValueOrder] [Rendering] in
theorem Accounted.lookupDict (accounted : interp.Accounted start) (recv : String) :
    (interp.lookupDict recv).2.Accounted start := by
  unfold Interp.lookupDict
  split
  next => exact accounted
  next key values listed =>
    split
    next serial keyType _ found =>
      split
      next => exact accounted.discard 1
      next => exact accounted.discard 1
      next value there =>
        have live := lookedUp_live accounted.heap there
        have cloned := sound_cloneValue (accounted.take 1) live
        let kept := ({ interp with values := interp.values.drop 1 } : Interp).handles
        have apart : Sound (interp.heap.cloneValue value)
            (SharedValue.handlesAll (interp.values.take 1) ++ (value.handles ++ kept)) (start + interp.frameBytes) fun _ => 0 := by
          apply cloned.perm
          intro x
          simp only [List.count_append, kept]
          omega
        refine accounted.of ?_ (sound_dropValues apart) ?_
        · rfl
        · intro x
          rw [List.count_append, count_handles, count_handles]
          dsimp only [Interp.discard, Interp.frames]
          rw [SharedValue.handlesAll, List.count_append]
          omega
    next => exact accounted.discard 1

theorem Accounted.after (accounted : interp.Accounted start) (action : HeldAction) : (interp.after action).Accounted start := by
  unfold Interp.after
  cases action with
  | literal value =>
      apply accounted.move
      intro x
      rfl
  | makeList count memberType => exact @Accounted.alloc _ _ accounted (.items _) count rfl _ rfl
  | makeDict keyType valueType => exact @Accounted.alloc _ _ accounted (.entries .empty) 0 rfl _ rfl
  | makeTextBuilder text => exact @Accounted.alloc _ _ accounted (.text text) 0 rfl _ rfl
  | makeVariant =>
      dsimp only [Interp.perform]
      split
      next => exact accounted
      next value values listed =>
        apply accounted.move
        intro x
        rw [listed]
        rfl
  | makeArray count =>
      apply accounted.move
      intro x
      have split := count_split interp.values count x
      rw [SharedValue.handlesAll, List.count_append, SharedValue.handles]
      omega
  | clone index =>
      dsimp only [Interp.perform]
      split
      next => exact accounted
      next value at_ => exact accounted.clone (mem_values (List.mem_of_getElem? at_))
  | drop index =>
      dsimp only [Interp.perform]
      split
      next => exact accounted
      next value at_ => exact accounted.drop at_
  | read name =>
      dsimp only [Interp.perform]
      split
      next => exact accounted
      next value found =>
        exact accounted.clone fun x handle => mem_handles (lookup_handles found x handle) interp.values
  | takeWritebacks =>
      apply accounted.move
      intro x
      rw [handlesAll_append, List.count_append, List.map_nil, SharedValue.handlesAll, List.count_nil]
      omega
  | newFrame object procedure =>
      refine accounted.addFrame ?_ accounted.heap
      rfl
  | pushFrame index =>
      dsimp only [Interp.perform]
      split
      next => exact accounted
      next frame at_ =>
        refine accounted.shuffle rfl rfl rfl ?_
        exact pushed_perm at_
  | popFrame =>
      dsimp only [Interp.perform]
      split
      next => exact accounted
      next frame stack listed =>
        refine accounted.shuffle rfl rfl rfl ?_
        rw [Interp.frames, Interp.frames, listed]
        exact List.perm_middle
  | cloneFrame place =>
      dsimp only [Interp.perform]
      split
      next => exact accounted
      next frame at_ =>
        obtain ⟨exact_, sound⟩ := accounted.focus at_
        exact accounted.addFrame exact_ (sound_cloneFrame accounted.heap (live_locals sound))
  | dropFrame index =>
      dsimp only [Interp.perform]
      split
      next => exact accounted
      next frame at_ => exact accounted.dropFrame at_
  | bind place name =>
      dsimp only [Interp.perform]
      split
      next value values frame listed at_ => exact accounted.bind at_ name listed
      next => exact accounted
  | unbind place name =>
      dsimp only [Interp.perform]
      split
      next => exact accounted
      next frame at_ =>
        split
        next => exact accounted
        next old left heap unbound => exact accounted.unbind at_ unbound
  | store operation name => exact accounted.store operation name
  | callList recv method count statement cancelled => exact accounted.callList recv method count statement cancelled
  | callDict recv method count => exact accounted.callDict recv method count
  | lookupDict recv => exact accounted.lookupDict recv
  | callTextBuilder recv method count => exact accounted.callTextBuilder recv method count

end Perform

end Interp

end AlLanguage.Runtime
