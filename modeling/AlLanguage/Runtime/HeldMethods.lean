import AlLanguage.Library.Lists
import AlLanguage.Runtime.Collections

/-!
# What methods hold

Every path of every method leaves the handles counted and the bytes charged.
-/

namespace AlLanguage.Runtime

open Library CountedHeap

/-! ## Handles -/

theorem count_handlesAll (values : List SharedValue) (x : Handle) :
    (SharedValue.handlesAll values).count x = (values.map fun value => value.handles.count x).sum := by
  induction values with
  | nil => rfl
  | cons value rest ih => rw [SharedValue.handlesAll, List.count_append, ih, List.map_cons, List.sum_cons]

theorem mem_handlesAll {values : List SharedValue} {x : Handle} :
    x ∈ SharedValue.handlesAll values ↔ ∃ value ∈ values, x ∈ value.handles := by
  induction values with
  | nil => simp [SharedValue.handlesAll]
  | cons value rest ih => simp [SharedValue.handlesAll, ih]

theorem handlesAll_append (first second : List SharedValue) :
    SharedValue.handlesAll (first ++ second) = SharedValue.handlesAll first ++ SharedValue.handlesAll second := by
  induction first with
  | nil => rfl
  | cons value rest ih => simp [SharedValue.handlesAll, ih]

theorem handlesAll_singleton (value : SharedValue) : SharedValue.handlesAll [value] = value.handles := by
  simp [SharedValue.handlesAll]

theorem count_entries (map : DictEntries) (x : Handle) :
    (Contents.entries map).handles.count x =
      map.weight fun _ entry => entry.1.handles.count x + entry.2.handles.count x := by
  rw [Contents.handles, IndexMap.weight, Entries.weight, List.count_flatMap]
  congr 1
  apply List.map_congr_left
  intro entry _
  simp

section Rules

variable {heap : SharedHeap} {outside : List Handle} {extra : Nat} {excess : Handle → Nat} {a : Handle} {before : Nat}

/-- The handles of a value lead to cells. -/
def Live (heap : SharedHeap) (value : SharedValue) : Prop := ∀ x ∈ value.handles, ∃ cell, heap.cells.get? x = some cell

/-- A handle leads to contents of its kind. -/
theorem typed_contents (sound : Sound heap outside extra excess) (here : a ∈ outside) :
    ∃ contents, heap.contentsAt a = some contents ∧ contents.kind = a.kind := by
  obtain ⟨cell, found⟩ := sound.found here
  exact ⟨cell.contents, by rw [contentsAt, found]; rfl, sound.typed a cell found⟩

theorem find_contents {contents : Contents} (here : heap.contentsAt a = some contents) :
    ∃ cell, heap.cells.get? a = some cell ∧ cell.contents = contents := Option.map_eq_some_iff.mp here

theorem live_outside (sound : Sound heap outside extra excess) {value : SharedValue}
    (held : ∀ x ∈ value.handles, x ∈ outside) : Live heap value := fun x member => sound.found (held x member)

theorem live_item (sound : Sound heap outside extra excess) {items : List SharedValue}
    (here : heap.contentsAt a = some (.items items)) {value : SharedValue} (member : value ∈ items) : Live heap value := by
  intro x handle
  obtain ⟨cell, found, same⟩ := find_contents here
  apply sound.found_inside found
  rw [same]
  exact mem_handlesAll.mpr ⟨value, member, handle⟩

theorem live_entry (sound : Sound heap outside extra excess) {map : DictEntries}
    (here : heap.contentsAt a = some (.entries map)) {keyText : String} {key value : SharedValue}
    (member : (keyText, key, value) ∈ map.entries) : Live heap key ∧ Live heap value := by
  obtain ⟨cell, found, same⟩ := find_contents here
  have inside : ∀ x, x ∈ key.handles ++ value.handles → ∃ cell, heap.cells.get? x = some cell := by
    intro x handle
    apply sound.found_inside found
    rw [same]
    exact List.mem_flatMap.mpr ⟨_, member, handle⟩
  exact ⟨fun x handle => inside x (List.mem_append_left _ handle), fun x handle => inside x (List.mem_append_right _ handle)⟩

theorem sound_cloneValues (sound : Sound heap outside extra excess) {values : List SharedValue}
    (live : ∀ value ∈ values, Live heap value) :
    Sound (heap.cloneValues values) (SharedValue.handlesAll values ++ outside) extra excess := by
  apply sound.retainAll
  intro x member
  obtain ⟨value, listed, handle⟩ := mem_handlesAll.mp member
  exact live value listed x handle

theorem sound_cloneValue (sound : Sound heap outside extra excess) {value : SharedValue} (live : Live heap value) :
    Sound (heap.cloneValue value) (value.handles ++ outside) extra excess := sound.retainAll live

theorem sound_dropValues {values : List SharedValue}
    (sound : Sound heap (SharedValue.handlesAll values ++ outside) extra excess) :
    Sound (heap.dropValues values) outside extra excess := sound.dropAll

theorem sound_dropValue {value : SharedValue} (sound : Sound heap (value.handles ++ outside) extra excess) :
    Sound (heap.dropValue value) outside extra excess := sound.dropAll

theorem charge_ok {operation : String} {bytes : Nat} {charged : SharedHeap}
    (ok : heap.charge operation a bytes = .ok charged) : charged = heap.add a bytes := by
  unfold SharedHeap.charge at ok
  dsimp only at ok
  split at ok
  · cases ok
  · cases ok
    rfl

/-- The items of a list are replaced. -/
theorem sound_putItems (sound : Sound heap outside extra (slack a before)) {items : List SharedValue}
    (here : heap.contentsAt a = some (.items items)) (items' : List SharedValue) (after : Nat) (outside' : List Handle)
    (moved : ∀ x, outside'.count x + (items'.map fun value => value.handles.count x).sum =
      outside.count x + (items.map fun value => value.handles.count x).sum)
    (paid : (items'.map elementBytes).sum + after = (items.map elementBytes).sum + before) :
    Sound (putItems heap a items') outside' extra (slack a after) := by
  obtain ⟨cell, found, same⟩ := find_contents here
  apply sound.put found
  · intro x
    have exchanged := moved x
    rw [← count_handlesAll, ← count_handlesAll] at exchanged
    rw [same]
    exact exchanged
  · rw [same]
    exact paid
  · rw [same]
    rfl

/-- The entries of a dictionary are replaced. -/
theorem sound_putEntries (sound : Sound heap outside extra (slack a before)) {map : DictEntries}
    (here : heap.contentsAt a = some (.entries map)) (map' : DictEntries) (after : Nat) (outside' : List Handle)
    (moved : ∀ x, outside'.count x + (map'.weight fun _ entry => entry.1.handles.count x + entry.2.handles.count x) =
      outside.count x + map.weight fun _ entry => entry.1.handles.count x + entry.2.handles.count x)
    (paid : (map'.weight fun keyText entry => entryBytes keyText entry.1 entry.2) + after =
      (map.weight fun keyText entry => entryBytes keyText entry.1 entry.2) + before) :
    Sound (putEntries heap a map') outside' extra (slack a after) := by
  obtain ⟨cell, found, same⟩ := find_contents here
  apply sound.put found
  · intro x
    have exchanged := moved x
    rw [← count_entries, ← count_entries] at exchanged
    rw [same]
    exact exchanged
  · rw [same]
    exact paid
  · rw [same]
    rfl

theorem slack_zero (a : Handle) : slack a 0 = fun _ => 0 := by
  funext b
  simp [slack]

theorem sound_newList (sound : Sound heap outside extra (slack a before)) (here : a ∈ outside)
    {values : List SharedValue} (live : ∀ value ∈ values, Live heap value) (memberType : Option String) :
    ∃ serial, (newList heap values memberType).result = .normal (.list serial memberType) ∧
      Sound (newList heap values memberType).heap (⟨serial, .list⟩ :: outside) extra (slack a before) := by
  have cloned := sound_cloneValues sound live
  obtain ⟨cell, found⟩ := cloned.found (List.mem_append_right _ here)
  have made := @Sound.alloc _ _ _ _ _ _ _ _ (Contents.items values) cloned ?_
  · exact ⟨_, rfl, made⟩
  · rw [slack, if_neg]
    intro same
    have older := cloned.fresh a cell found
    rw [← same] at older
    exact absurd older (Nat.lt_irrefl _)

theorem sound_takeOut (sound : Sound heap outside extra (slack a before)) (here : a ∈ outside) {items : List SharedValue}
    (contents : heap.contentsAt a = some (.items items)) (index : Fin items.length) :
    Sound (takeOut heap a items index) outside extra (slack a before) := by
  have out := sound_putItems sound contents (items.eraseIdx index) (before + elementBytes (items.get index))
    ((items.get index).handles ++ outside) ?_ ?_
  · have released := out.release (out.found (List.mem_append_right _ here)) (Nat.le_add_left _ _)
    rw [Nat.add_sub_cancel] at released
    exact sound_dropValue released
  · intro x
    have erased := sum_eraseIdx (fun value => value.handles.count x) items index.isLt
    rw [List.count_append, List.get_eq_getElem]
    omega
  · have erased := sum_eraseIdx elementBytes items index.isLt
    rw [List.get_eq_getElem]
    omega

theorem sound_setItem (value : SharedValue) (sound : Sound heap outside extra (slack a (elementBytes value)))
    (here : a ∈ outside) {items : List SharedValue} (contents : heap.contentsAt a = some (.items items))
    (live : Live heap value) (index : Fin items.length) :
    Sound (setItem heap a items index value) ((items.get index).handles ++ outside) extra (slack a 0) := by
  have cloned := sound_cloneValue sound live
  have kept : (heap.cloneValue value).contentsAt a = some (.items items) :=
    (heap.contentsAt_retainAll value.handles a).trans contents
  have put := sound_putItems cloned kept (items.set index value) (elementBytes (items.get index))
    ((items.get index).handles ++ outside) ?_ ?_
  · have released := put.release (put.found (List.mem_append_right _ here)) (Nat.le_refl _)
    rw [Nat.sub_self] at released
    exact released
  · intro x
    have set := sum_set (fun value => value.handles.count x) items index.isLt value
    rw [List.count_append, List.count_append, List.get_eq_getElem]
    omega
  · have set := sum_set elementBytes items index.isLt value
    rw [List.get_eq_getElem]
    omega

end Rules

/-! ## Lists -/

def Eval.handles : Eval → List Handle
  | normal value => value.handles
  | error _ => []

/-- The handles that a call gives to its caller. -/
def Outcome.handles (outcome : Outcome) : List Handle :=
  outcome.result.handles ++ SharedValue.handlesAll (outcome.writebacks.map (·.2))

/-- A call that was charged has added the bytes, or still counts them. -/
def Outcome.Kept (outcome : Outcome) (a : Handle) (outside : List Handle) (extra adding : Nat) : Prop :=
  Sound outcome.heap (outcome.handles ++ outside) extra (slack a (if outcome.result.added then 0 else adding))

section Lists

variable {heap : SharedHeap} {outside : List Handle} {extra adding : Nat} {a : Handle}

theorem kept_error (sound : Sound heap outside extra (slack a adding)) (message : String) :
    Outcome.Kept ⟨.error message, heap, []⟩ a outside extra adding := sound

theorem kept_false (sound : Sound heap outside extra (slack a adding)) :
    Outcome.Kept ⟨.boolean false, heap, []⟩ a outside extra adding := sound

/-- A call that adds no bytes may give any value. -/
theorem kept_free {outcome : Outcome} (sound : Sound outcome.heap (outcome.handles ++ outside) extra (slack a 0)) :
    outcome.Kept a outside extra 0 := by
  rw [Outcome.Kept, ite_self]
  exact sound

theorem kept_getRange {items : List SharedValue} (sound : Sound heap outside extra (slack a 0)) (here : a ∈ outside)
    (live : ∀ value ∈ items, Live heap value) (memberType : Option String) :
    (newList heap items memberType).Kept a outside extra 0 := by
  obtain ⟨b, result, made⟩ := sound_newList sound here live memberType
  apply kept_free
  rw [Outcome.handles, result]
  exact made

/-- Elements are taken out of the list, dropped and released. -/
theorem kept_removed {items : List SharedValue} (gone left : List SharedValue)
    (sound : Sound heap outside extra (slack a 0)) (here : a ∈ outside) (contents : heap.contentsAt a = some (.items items))
    (sums : ∀ f : SharedValue → Nat, (gone.map f).sum + (left.map f).sum = (items.map f).sum) :
    Sound ((SharedHeap.dropValues (putItems heap a left) gone).release a (gone.map elementBytes).sum) outside extra
      (slack a 0) := by
  have put := sound_putItems sound contents left (gone.map elementBytes).sum (SharedValue.handlesAll gone ++ outside) ?_ ?_
  · have dropped := sound_dropValues put
    have released := dropped.release (dropped.found here) (Nat.le_refl _)
    rw [Nat.sub_self] at released
    exact released
  · intro x
    have handles := sums fun value => value.handles.count x
    rw [List.count_append, count_handlesAll]
    omega
  · have bytes := sums elementBytes
    omega

/-- An element is cloned for the caller. -/
theorem kept_item {items : List SharedValue} (sound : Sound heap outside extra (slack a 0))
    (contents : heap.contentsAt a = some (.items items)) (index : Fin items.length) :
    Sound (heap.cloneValue (items.get index)) ((items.get index).handles ++ outside) extra (slack a 0) :=
  sound_cloneValue sound (live_item sound contents (List.get_mem items index))

/-- New elements are cloned into the list. -/
theorem kept_added {items : List SharedValue} (added items' : List SharedValue)
    (sound : Sound heap outside extra (slack a (added.map elementBytes).sum))
    (contents : heap.contentsAt a = some (.items items)) (live : ∀ value ∈ added, Live heap value)
    (sums : ∀ f : SharedValue → Nat, (items'.map f).sum = (added.map f).sum + (items.map f).sum) :
    Sound (putItems (heap.cloneValues added) a items') outside extra (slack a 0) := by
  have cloned := sound_cloneValues sound live
  have kept : (heap.cloneValues added).contentsAt a = some (.items items) :=
    (heap.contentsAt_retainAll (SharedValue.handlesAll added) a).trans contents
  apply sound_putItems cloned kept
  · intro x
    have handles := sums fun value => value.handles.count x
    rw [List.count_append, count_handlesAll]
    omega
  · have bytes := sums elementBytes
    omega

theorem listMethodOn_kept {lower : String} {args items : List SharedValue} (memberType : Option String) (statement : Bool)
    (sound : Sound heap outside extra (slack a (listAdding (.ofName lower) args))) (here : a ∈ outside)
    (contents : heap.contentsAt a = some (.items items)) (live : ∀ value ∈ args, Live heap value) :
    (listMethodOn heap a memberType lower args statement items).Kept a outside extra (listAdding (.ofName lower) args) := by
  unfold listMethodOn
  generalize ListMethod.ofName lower = method at sound ⊢
  cases method with
  | other | contains | indexOf | lastIndexOf | remove => exact kept_error sound _
  | add =>
      rcases args with _ | ⟨value, _ | ⟨second, rest⟩⟩
      · exact kept_error sound _
      · have put := kept_added [value] (items ++ [value]) sound contents live (by intro f; simp; omega)
        rw [SharedHeap.cloneValues, handlesAll_singleton] at put
        exact put
      · exact kept_error sound _
  | addRange =>
      rcases args with _ | ⟨first, rest⟩
      · exact kept_error sound _
      · exact kept_added (first :: rest) _ sound contents live (by intro f; simp; omega)
  | count =>
      rcases args with _ | ⟨first, rest⟩
      · dsimp only
        split
        · exact kept_free sound
        · exact kept_error sound _
      · exact kept_error sound _
  | reverse =>
      rcases args with _ | ⟨first, rest⟩
      · apply sound_putItems sound contents
        · intro x
          simp [Outcome.handles, Eval.handles, Eval.empty, SharedValue.handles, SharedValue.handlesAll]
        · simp [listAdding]
      · exact kept_error sound _
  | getRange =>
      dsimp only
      split
      next start count _ =>
        have within : ∀ value ∈ (items.drop start).take count, Live heap value := by
          intro value member
          exact live_item sound contents (List.mem_of_mem_drop (List.mem_of_mem_take member))
        exact kept_getRange sound here within memberType
      next => exact kept_error sound _
  | removeRange =>
      dsimp only
      split
      next start count _ => exact kept_removed _ _ sound here contents fun f => sum_range f items start count
      next =>
        cases statement with
        | true => exact kept_error sound _
        | false => exact kept_false sound
  | get =>
      rcases args with _ | ⟨index, _ | ⟨place, _ | ⟨more, rest⟩⟩⟩
      case cons.cons.nil =>
        dsimp only
        split
        next index _ =>
          have cloned := kept_item sound contents index
          apply kept_free
          rw [Outcome.handles]
          simp only [List.map_cons, List.map_nil, handlesAll_singleton]
          exact cloned
        next =>
          cases statement with
          | true => exact kept_error sound _
          | false => exact kept_false sound
      all_goals
        dsimp only
        split
        next index _ =>
          have cloned := kept_item sound contents index
          apply kept_free
          rw [Outcome.handles]
          simp only [List.map_nil, SharedValue.handlesAll, List.append_nil]
          exact cloned
        next => exact kept_error sound _
  | removeAt =>
      dsimp only
      split
      next index _ => exact sound_takeOut sound here contents index
      next => exact kept_error sound _
  | set =>
      rcases args with _ | ⟨index, _ | ⟨value, _ | ⟨place, _ | ⟨more, rest⟩⟩⟩⟩
      · exact kept_error sound _
      · exact kept_error sound _
      · dsimp only
        split
        next index _ =>
          have live' := live value (by simp)
          exact sound_dropValue (sound_setItem value sound here contents live' index)
        next => exact kept_error sound _
      · dsimp only
        split
        next index _ =>
          have set := sound_setItem value sound here contents (live value (by simp)) index
          rw [Outcome.Kept, Outcome.handles]
          simp only [List.map_cons, List.map_nil, handlesAll_singleton]
          exact set
        next =>
          cases statement with
          | true => exact kept_error sound _
          | false => exact kept_false sound
      · exact kept_error sound _
  | insert =>
      dsimp only
      unfold insertItem
      split
      next index value =>
        split
        next within =>
          have put := kept_added [value] (items.insertIdx (index.toInt - 1).toNat value) sound contents
            (fun other member => live other (List.mem_cons_of_mem _ member))
            (by
              intro f
              rw [sum_insertIdx f items within.2]
              simp)
          rw [SharedHeap.cloneValues, handlesAll_singleton] at put
          exact put
        next => exact kept_error sound _
      next => exact kept_error sound _

omit heap outside extra a adding in
theorem declaredMember_handles [CaseMapping] {value converted : SharedValue} {memberType : Option String}
    (ok : declaredMember value memberType = .ok converted) : converted.handles = value.handles := by
  unfold declaredMember at ok
  split at ok
  next memberType v =>
    cases plain : declaredPlain v memberType with
    | error message =>
        rw [plain] at ok
        cases ok
    | ok w =>
        rw [plain] at ok
        cases ok
        rfl
  next =>
    cases ok
    rfl

theorem mem_mapM {f : SharedValue → Except String SharedValue} {values converted : List SharedValue}
    (ok : values.mapM f = .ok converted) : ∀ w ∈ converted, ∃ v ∈ values, f v = .ok w := by
  induction values generalizing converted with
  | nil =>
      cases ok
      intro w none
      cases none
  | cons value rest ih =>
      rw [List.mapM_cons] at ok
      cases first : f value with
      | error message =>
          rw [first] at ok
          cases ok
      | ok head =>
          rw [first] at ok
          cases others : rest.mapM f with
          | error message =>
              rw [others] at ok
              cases ok
          | ok tail =>
              rw [others] at ok
              cases ok
              intro w member
              rcases List.mem_cons.mp member with here | later
              · exact ⟨value, List.mem_cons_self, by rw [here]; exact first⟩
              · obtain ⟨v, there, same⟩ := ih others w later
                exact ⟨v, List.mem_cons_of_mem _ there, same⟩

/-- One argument is converted. -/
theorem declaredMember_among [CaseMapping] {value : SharedValue} {memberType : Option String}
    (first : List SharedValue) {rest converted : List SharedValue}
    (ok : (declaredMember value memberType).map (fun w => first ++ w :: rest) = .ok converted) :
    ∀ w ∈ converted, ∃ v ∈ first ++ value :: rest, w.handles = v.handles := by
  cases member : declaredMember value memberType with
  | error message =>
      rw [member] at ok
      cases ok
  | ok w =>
      rw [member] at ok
      cases ok
      intro other listed
      rcases List.mem_append.mp listed with before | later
      · exact ⟨other, List.mem_append_left _ before, rfl⟩
      · rcases List.mem_cons.mp later with here | after
        · exact ⟨value, by simp, by rw [here, declaredMember_handles member]⟩
        · exact ⟨other, by simp [after], rfl⟩

/-- Converted arguments have the handles of those that were given. -/
theorem declaredElements_handles [CaseMapping] {method : ListMethod} {args converted : List SharedValue}
    {elementType : Option String} (ok : declaredElements method args elementType = .ok converted) :
    ∀ w ∈ converted, ∃ v ∈ args, w.handles = v.handles := by
  unfold declaredElements at ok
  split at ok
  next => exact declaredMember_among [] ok
  next => exact declaredMember_among [] ok
  next => exact declaredMember_among [] ok
  next => exact declaredMember_among [] ok
  next => exact declaredMember_among [] ok
  next index value rest => exact declaredMember_among [index] ok
  next index value rest => exact declaredMember_among [index] ok
  next =>
    intro w member
    obtain ⟨v, there, same⟩ := mem_mapM ok w member
    exact ⟨v, there, declaredMember_handles same⟩
  next =>
    cases ok
    exact fun w member => ⟨w, member, rfl⟩

theorem items_eq {items : List SharedValue} (contents : heap.contentsAt a = some (.items items)) :
    SharedHeap.items heap a = items := by
  obtain ⟨cell, found, same⟩ := find_contents contents
  obtain ⟨_, held, strong⟩ := cell
  cases same
  rw [SharedHeap.items, found]

theorem searchList_sound [CaseMapping] [ValueOrder] {items : List SharedValue} (sound : Sound heap outside extra (slack a 0))
    (here : a ∈ outside) (contents : heap.contentsAt a = some (.items items)) (lower : String) (needle : SharedValue)
    (cancelled : Bool) :
    Sound (searchList heap a lower items needle cancelled).heap
      ((searchList heap a lower items needle cancelled).handles ++ outside) extra (slack a 0) := by
  unfold searchList
  split
  next => exact sound
  next =>
    dsimp only
    split
    next => exact sound
    next position _ _ => exact sound_takeOut sound here contents position
    next => exact sound
    next => exact sound
    next => split <;> exact sound

theorem listCharged_sound [CaseMapping] {items args : List SharedValue} (sound : Sound heap outside extra (slack a 0))
    (here : a ∈ outside) (contents : heap.contentsAt a = some (.items items)) (live : ∀ value ∈ args, Live heap value)
    (memberType : Option String) (method : String) (statement : Bool) :
    Sound (listCharged heap a memberType method args statement items).heap
      ((listCharged heap a memberType method args statement items).handles ++ outside) extra (slack a 0) := by
  unfold listCharged
  dsimp only
  split
  next => exact sound
  next =>
    split
    next => exact sound
    next charged ok =>
      rw [charge_ok ok]
      have added := sound.add (sound.found here) (listAdding (.ofName (toAsciiLowercase method)) args)
      rw [Nat.zero_add] at added
      have live' : ∀ value ∈ args, Live (heap.add a (listAdding (.ofName (toAsciiLowercase method)) args)) value :=
        fun value member x handle => find_change (live value member x handle)
      have kept := listMethodOn_kept memberType statement added here ((heap.contentsAt_add a _ a).trans contents) live'
      split
      next success =>
        rw [Outcome.Kept, if_pos success] at kept
        exact kept
      next failure =>
        rw [Outcome.Kept, if_neg failure] at kept
        have released := kept.release (kept.found (List.mem_append_right _ here)) (Nat.le_refl _)
        rw [Nat.sub_self] at released
        exact released

/-- A call of a list method leaves the list with what it holds charged. -/
theorem listCall_sound [CaseMapping] [ValueOrder] {items args : List SharedValue}
    (sound : Sound heap outside extra (slack a 0)) (here : a ∈ outside) (contents : heap.contentsAt a = some (.items items))
    (live : ∀ value ∈ args, Live heap value) (memberType : Option String) (method : String) (statement cancelled : Bool) :
    Sound (listCall heap a memberType method args statement cancelled).heap
      ((listCall heap a memberType method args statement cancelled).handles ++ outside) extra (slack a 0) := by
  unfold listCall
  dsimp only
  split
  next => exact sound
  next converted ok =>
    have live' : ∀ value ∈ converted, Live heap value := by
      intro value member
      obtain ⟨given, there, same⟩ := declaredElements_handles ok value member
      intro x handle
      exact live given there x (same ▸ handle)
    split
    next => exact sound
    next =>
      rw [items_eq contents]
      split
      next => exact searchList_sound sound here contents _ _ cancelled
      next => exact listCharged_sound sound here contents live' memberType method statement

/-- The arguments are dropped after the call. -/
theorem sound_dropping {outcome : Outcome} {args : List SharedValue} {excess : Handle → Nat}
    (sound : Sound outcome.heap (outcome.handles ++ (SharedValue.handlesAll args ++ outside)) extra excess) :
    Sound (SharedHeap.dropValues outcome.heap args) (outcome.handles ++ outside) extra excess := by
  apply sound_dropValues
  apply sound.perm
  intro x
  simp only [List.count_append]
  omega

/-- The handles in any list lead to cells. -/
theorem live_items {excess : Handle → Nat} (sound : Sound heap outside extra excess) (b : Handle) :
    ∀ value ∈ SharedHeap.items heap b, Live heap value := by
  unfold SharedHeap.items
  split
  next items held strong found =>
    have contents : heap.contentsAt b = some (.items items) := by
      rw [contentsAt, found]
      rfl
    exact fun value member => live_item sound contents member
  next =>
    intro value none
    cases none

theorem listMethod_sound [CaseMapping] [ValueOrder] {items args : List SharedValue}
    (sound : Sound heap (SharedValue.handlesAll args ++ outside) extra fun _ => 0) (here : a ∈ outside)
    (contents : heap.contentsAt a = some (.items items)) (memberType : Option String) (method : String)
    (statement cancelled : Bool) :
    Sound (listMethod heap a memberType method args statement cancelled).heap
      ((listMethod heap a memberType method args statement cancelled).handles ++ outside) extra fun _ => 0 := by
  rw [← slack_zero a] at sound ⊢
  have live : ∀ value ∈ args, Live heap value := by
    intro value member
    apply live_outside sound
    intro x handle
    exact List.mem_append_left _ (mem_handlesAll.mpr ⟨value, member, handle⟩)
  have here' := List.mem_append_right (SharedValue.handlesAll args) here
  unfold listMethod
  dsimp only
  split
  next serial _ _ =>
    split
    next =>
      have all := live_items sound ⟨serial, .list⟩
      have cloned := sound_cloneValues sound all
      have called := listCall_sound cloned (List.mem_append_right _ here')
        ((heap.contentsAt_retainAll _ a).trans contents) (fun value member => live_outside cloned fun x handle =>
          List.mem_append_left _ (mem_handlesAll.mpr ⟨value, member, handle⟩)) memberType method statement cancelled
      apply sound_dropping
      rw [handlesAll_append, List.append_assoc]
      exact called
    next => exact sound_dropping (listCall_sound sound here' contents live memberType method statement cancelled)
  next => exact sound_dropping (listCall_sound sound here' contents live memberType method statement cancelled)

end Lists

end AlLanguage.Runtime
