import AlLanguage.Runtime.HeldMethods

/-!
# What Dictionaries and TextBuilders hold

As for Lists, every path leaves the handles counted and the bytes charged.
-/

namespace AlLanguage.Runtime

open Library CountedHeap

variable {heap : SharedHeap} {outside : List Handle} {extra : Nat} {a : Handle}

/-! ## Dictionaries -/

/-- The handles of an entry that may be there. -/
def entryHandles : Option (SharedValue × SharedValue) → List Handle
  | some (key, value) => key.handles ++ value.handles
  | none => []

theorem handlesAll_pair (key value : SharedValue) : SharedValue.handlesAll [key, value] = key.handles ++ value.handles := by
  simp [SharedValue.handlesAll]

theorem live_found {excess : Handle → Nat} {map : DictEntries} (sound : Sound heap outside extra excess)
    (contents : heap.contentsAt a = some (.entries map)) {keyText : String} {key value : SharedValue}
    (found : map.get? keyText = some (key, value)) : Live heap key ∧ Live heap value :=
  live_entry sound contents ((map.mem_entries_iff keyText (key, value)).mpr found)

theorem putEntry_sound {map : DictEntries} {operation keyText : String} {key value : SharedValue} {done : SharedHeap}
    (sound : Sound heap outside extra (slack a 0)) (here : a ∈ outside) (contents : heap.contentsAt a = some (.entries map))
    (liveKey : Live heap key) (liveValue : Live heap value)
    (ok : putEntry heap a operation map keyText key value = .ok done) :
    Sound done (entryHandles (map.get? keyText) ++ outside) extra (slack a 0) := by
  unfold putEntry at ok
  cases charging : heap.charge operation a (entryBytes keyText key value) with
  | error message =>
      rw [charging] at ok
      cases ok
  | ok charged =>
      rw [charging] at ok
      have added := sound.add (sound.found here) (entryBytes keyText key value)
      rw [Nat.zero_add, ← charge_ok charging] at added
      have live : ∀ other ∈ [key, value], Live charged other := by
        intro other member x handle
        rw [charge_ok charging]
        apply find_change
        rcases List.mem_cons.mp member with same | same
        · exact liveKey x (same ▸ handle)
        · exact liveValue x (List.mem_singleton.mp same ▸ handle)
      have cloned := sound_cloneValues added live
      have kept : (charged.cloneValues [key, value]).contentsAt a = some (.entries map) := by
        rw [SharedHeap.cloneValues, contentsAt_retainAll, charge_ok charging, contentsAt_add]
        exact contents
      have put := sound_putEntries cloned kept (map.insert keyText (key, value))
        ((map.get? keyText).elim 0 fun old => entryBytes keyText old.1 old.2) (entryHandles (map.get? keyText) ++ outside) ?_ ?_
      · dsimp only [bind, Except.bind] at ok
        cases found : map.get? keyText with
        | none =>
            rw [found] at ok put
            cases ok
            exact put
        | some old =>
            rw [found] at ok put
            cases ok
            have released := put.release (put.found (List.mem_append_right _ here)) (Nat.le_refl _)
            rw [Nat.sub_self] at released
            exact released
      · intro x
        have moved := map.weight_insert (fun _ entry => entry.1.handles.count x + entry.2.handles.count x) keyText (key, value)
        rw [handlesAll_pair]
        cases found : map.get? keyText with
        | none =>
            rw [found] at moved
            simp only [Option.elim, entryHandles, List.nil_append, List.count_append] at moved ⊢
            omega
        | some old =>
            rw [found] at moved
            simp only [Option.elim, entryHandles, List.count_append] at moved ⊢
            omega
      · have moved := map.weight_insert (fun keyText entry => entryBytes keyText entry.1 entry.2) keyText (key, value)
        cases found : map.get? keyText with
        | none =>
            rw [found] at moved
            simp only [Option.elim] at moved ⊢
            omega
        | some old =>
            rw [found] at moved
            simp only [Option.elim] at moved ⊢
            omega

/-- An entry is taken out of the map, released and dropped. -/
theorem sound_removeEntry {map : DictEntries} {keyText : String} {key value : SharedValue}
    (sound : Sound heap outside extra (slack a 0)) (here : a ∈ outside) (contents : heap.contentsAt a = some (.entries map))
    (found : map.get? keyText = some (key, value)) :
    Sound (SharedHeap.dropValues ((putEntries heap a (map.erase keyText)).release a (entryBytes keyText key value)) [key, value])
      outside extra (slack a 0) := by
  have put := sound_putEntries sound contents (map.erase keyText) (entryBytes keyText key value)
    (SharedValue.handlesAll [key, value] ++ outside) ?_ ?_
  · have released := put.release (put.found (List.mem_append_right _ here)) (Nat.le_refl _)
    rw [Nat.sub_self] at released
    exact sound_dropValues released
  · intro x
    have moved := map.weight_erase (fun _ entry => entry.1.handles.count x + entry.2.handles.count x) keyText
    rw [found] at moved
    rw [handlesAll_pair]
    simp only [Option.elim, List.count_append] at moved ⊢
    omega
  · have moved := map.weight_erase (fun keyText entry => entryBytes keyText entry.1 entry.2) keyText
    rw [found] at moved
    simp only [Option.elim] at moved
    omega

theorem live_column {map : DictEntries} (sound : Sound heap outside extra (slack a 0))
    (contents : heap.contentsAt a = some (.entries map)) (column : SharedValue × SharedValue → SharedValue)
    (among : ∀ entry, column entry = entry.1 ∨ column entry = entry.2) :
    ∀ value ∈ map.values.map column, Live heap value := by
  intro value member
  obtain ⟨entry, listed, rfl⟩ := List.mem_map.mp member
  obtain ⟨⟨keyText, key, value⟩, there, rfl⟩ := List.mem_map.mp listed
  obtain ⟨liveKey, liveValue⟩ := live_entry sound contents there
  rcases among (key, value) with first | second
  · rw [first]
    exact liveKey
  · rw [second]
    exact liveValue

theorem dictMethodOn_sound [CaseMapping] {map : DictEntries} {args : List SharedValue}
    (sound : Sound heap outside extra (slack a 0)) (here : a ∈ outside) (contents : heap.contentsAt a = some (.entries map))
    (live : ∀ value ∈ args, Live heap value) (keyType valueType : Option String) (lower : String) :
    Sound (dictMethodOn heap a keyType valueType lower args map).heap
      ((dictMethodOn heap a keyType valueType lower args map).handles ++ outside) extra (slack a 0) := by
  unfold dictMethodOn
  generalize DictMethod.ofName lower = method
  cases method with
  | other => exact sound
  | add =>
      rcases args with _ | ⟨key, _ | ⟨value, _ | ⟨more, rest⟩⟩⟩
      · exact sound
      · exact sound
      · dsimp only
        split
        next => exact sound
        next keyText _ =>
          split
          next => exact sound
          next absent =>
            split
            next => exact sound
            next done ok =>
              have put := putEntry_sound sound here contents (live key (by simp)) (live value (by simp)) ok
              have none : map.get? keyText = none := by simpa using absent
              rw [none] at put
              exact put
      · exact sound
  | set =>
      rcases args with _ | ⟨key, _ | ⟨value, rest⟩⟩
      · exact sound
      · exact sound
      · dsimp only
        split
        next => exact sound
        next =>
          split
          next => exact sound
          next keyText _ =>
            split
            next => exact sound
            next done ok =>
              have put := putEntry_sound sound here contents (live key (by simp)) (live value (by simp)) ok
              cases there : map.get? keyText with
              | none =>
                  rw [there] at put
                  cases rest <;> exact put
              | some old =>
                  obtain ⟨oldKey, oldValue⟩ := old
                  rw [there] at put
                  cases rest with
                  | nil =>
                      rw [entryHandles, ← handlesAll_pair] at put
                      exact sound_dropValues put
                  | cons place rest =>
                      rw [entryHandles, List.append_assoc] at put
                      rw [Outcome.handles]
                      simp only [List.map_cons, List.map_nil, handlesAll_singleton]
                      exact sound_dropValue put
  | get =>
      rcases args with _ | ⟨key, _ | ⟨second, rest⟩⟩
      · exact sound
      · dsimp only
        split
        next => exact sound
        next =>
          split
          next value found =>
            have cloned := sound_cloneValue sound (live_found sound contents found).2
            rw [Outcome.handles]
            simp only [List.map_nil, SharedValue.handlesAll, List.append_nil]
            exact cloned
          next => exact sound
      · exact sound
  | containsKey =>
      rcases args with _ | ⟨key, _ | ⟨second, rest⟩⟩
      · exact sound
      · dsimp only
        split <;> exact sound
      · exact sound
  | remove =>
      rcases args with _ | ⟨key, _ | ⟨second, rest⟩⟩
      · exact sound
      · dsimp only
        split
        next => exact sound
        next =>
          split
          next found => exact sound_removeEntry sound here contents found
          next => exact sound
      · exact sound
  | count =>
      rcases args with _ | ⟨first, rest⟩
      · dsimp only
        split <;> exact sound
      · exact sound
  | keys =>
      rcases args with _ | ⟨first, rest⟩
      · obtain ⟨b, result, made⟩ :=
          sound_newList sound here (live_column sound contents (·.1) fun _ => .inl rfl) keyType
        dsimp only
        rw [Outcome.handles, result]
        exact made
      · exact sound
  | values =>
      rcases args with _ | ⟨first, rest⟩
      · obtain ⟨b, result, made⟩ :=
          sound_newList sound here (live_column sound contents (·.2) fun _ => .inr rfl) valueType
        dsimp only
        rw [Outcome.handles, result]
        exact made
      · exact sound

theorem declaredKey_handles [CaseMapping] {method : DictMethod} {args converted : List SharedValue}
    {keyType : Option String} (ok : declaredKey method args keyType = .ok converted) :
    ∀ w ∈ converted, ∃ v ∈ args, w.handles = v.handles := by
  unfold declaredKey at ok
  split at ok
  next => exact declaredMember_among [] ok
  next => exact declaredMember_among [] ok
  next => exact declaredMember_among [] ok
  next => exact declaredMember_among [] ok
  next => exact declaredMember_among [] ok
  next =>
    cases ok
    exact fun w member => ⟨w, member, rfl⟩

theorem entries_eq {map : DictEntries} (contents : heap.contentsAt a = some (.entries map)) :
    SharedHeap.entries heap a = map := by
  obtain ⟨cell, found, same⟩ := find_contents contents
  obtain ⟨_, held, strong⟩ := cell
  cases same
  rw [SharedHeap.entries, found]

theorem dictMethod_sound [CaseMapping] {map : DictEntries} {args : List SharedValue}
    (sound : Sound heap (SharedValue.handlesAll args ++ outside) extra fun _ => 0) (here : a ∈ outside)
    (contents : heap.contentsAt a = some (.entries map)) (keyType valueType : Option String) (method : String) :
    Sound (dictMethod heap a keyType valueType method args).heap
      ((dictMethod heap a keyType valueType method args).handles ++ outside) extra fun _ => 0 := by
  rw [← slack_zero a] at sound ⊢
  have here' := List.mem_append_right (SharedValue.handlesAll args) here
  unfold dictMethod
  apply sound_dropping
  rw [entries_eq contents]
  split
  next => exact sound
  next converted ok =>
    have live : ∀ value ∈ converted, Live heap value := by
      intro value member
      obtain ⟨given, there, same⟩ := declaredKey_handles ok value member
      apply live_outside sound
      intro x handle
      exact List.mem_append_left _ (mem_handlesAll.mpr ⟨given, there, same ▸ handle⟩)
    split
    next => exact sound
    next => exact dictMethodOn_sound sound here' contents live keyType valueType _

/-! ## TextBuilders -/

theorem text_eq {text : String} (contents : heap.contentsAt a = some (.text text)) : SharedHeap.text heap a = text := by
  obtain ⟨cell, found, same⟩ := find_contents contents
  obtain ⟨_, held, strong⟩ := cell
  cases same
  rw [SharedHeap.text, found]

/-- The text is changed and its bytes are counted as they are then. -/
theorem sound_recount {text : String} (sound : Sound heap outside extra (slack a 0)) (here : a ∈ outside)
    (contents : heap.contentsAt a = some (.text text)) (operation changed : String) :
    Sound (SharedHeap.recount (heap.put a (.text changed)) operation a changed.utf8ByteSize).2 outside extra (slack a 0) := by
  obtain ⟨cell, found, same⟩ := find_contents contents
  have held : cell.held = text.utf8ByteSize := by
    have exactly := sound.exact a cell found
    rw [slack_zero, same] at exactly
    exact exactly
  have heldBy : (heap.put a (.text changed)).heldBy a = text.utf8ByteSize := by
    rw [CountedHeap.heldBy, put, change, found]
    simp only [IndexMap.get?_insert, if_true, Option.elim, held]
  unfold SharedHeap.recount
  dsimp only
  rw [heldBy]
  split
  next fewer =>
    have put := sound.put found (.text changed) (text.utf8ByteSize - changed.utf8ByteSize) outside ?_ ?_ ?_
    · have released := put.release (put.found here) (Nat.le_refl _)
      rw [Nat.sub_self] at released
      exact released
    · intro x
      rw [same]
      rfl
    · rw [same]
      simp only [HeapContents.bytes, Contents.heldBytes]
      omega
    · rw [same]
      rfl
  next more =>
    dsimp only
    rw [add_put heap ⟨cell, found⟩]
    have added := sound.add ⟨cell, found⟩ (changed.utf8ByteSize - text.utf8ByteSize)
    obtain ⟨later, found', same'⟩ := find_contents ((heap.contentsAt_add a _ a).trans contents)
    apply added.put found'
    · intro x
      rw [same']
      rfl
    · rw [same']
      simp only [HeapContents.bytes, Contents.heldBytes]
      omega
    · rw [same']
      rfl

theorem textBuilderMethod_sound [Rendering] {text : String} {args : List SharedValue}
    (sound : Sound heap (SharedValue.handlesAll args ++ outside) extra fun _ => 0) (here : a ∈ outside)
    (contents : heap.contentsAt a = some (.text text)) (method : String) :
    Sound (textBuilderMethod heap a method args).heap ((textBuilderMethod heap a method args).handles ++ outside) extra
      fun _ => 0 := by
  rw [← slack_zero a] at sound ⊢
  have here' := List.mem_append_right (SharedValue.handlesAll args) here
  unfold textBuilderMethod
  apply sound_dropping
  split
  next => exact sound
  next result changed _ =>
    have counted := sound_recount sound here' contents s!"TextBuilder.{method}" changed
    dsimp only
    split
    next recounted =>
      rw [recounted] at counted
      exact counted
    next recounted =>
      rw [recounted] at counted
      cases result <;> exact counted

end AlLanguage.Runtime
