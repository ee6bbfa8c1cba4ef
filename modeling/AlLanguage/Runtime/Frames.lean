import AlLanguage.Runtime.Collections

/-!
# Frames and their variables

A frame counts the text and the array elements that its variables hold.
-/

namespace AlLanguage.Runtime

open Library

structure CallFrame where
  object : String
  procedure : String
  locals : IndexMap String SharedValue := .empty
  held : Nat := 0

namespace CallFrame

def isObjectGlobals (frame : CallFrame) : Bool := frame.procedure = "<globals>"

/-- `release_frame_bytes`: at most what the frame counts. -/
def releaseBytes (frame : CallFrame) (heap : SharedHeap) (bytes : Nat) : CallFrame × SharedHeap :=
  let bytes := min bytes frame.held
  ({ frame with held := frame.held - bytes }, { heap with total := heap.total - bytes })

/-- The bytes of the value take the place of those of the value that the name held, and are not refused. -/
def bind (frame : CallFrame) (heap : SharedHeap) (name : String) (value : SharedValue) : CallFrame × SharedHeap :=
  let bytes := ownedBytes value
  let heap : SharedHeap := { heap with total := heap.total + bytes }
  let bound := { frame with
    held := frame.held + bytes
    locals := frame.locals.insert (toAsciiLowercase name) value }
  match frame.locals.get? (toAsciiLowercase name) with
  | none => (bound, heap)
  | some old =>
    let (bound, heap) := bound.releaseBytes heap (ownedBytes old)
    (bound, SharedHeap.dropValue heap old)

/-- The variable is removed, and its value is the caller's. -/
def unbind (frame : CallFrame) (heap : SharedHeap) (name : String) : Option (SharedValue × CallFrame × SharedHeap) :=
  (frame.locals.get? (toAsciiLowercase name)).map fun old =>
    (old, { frame with locals := frame.locals.erase (toAsciiLowercase name) }.releaseBytes heap (ownedBytes old))

/-- A copy holds copies of the values, and counts them again. -/
def clone (frame : CallFrame) (heap : SharedHeap) : SharedHeap :=
  SharedHeap.cloneValues { heap with total := heap.total + frame.held } frame.locals.values

def drop (frame : CallFrame) (heap : SharedHeap) : SharedHeap :=
  SharedHeap.dropValues { heap with total := heap.total - frame.held } frame.locals.values

/-- `Slot::store` into a variable that is there. A refused value is dropped. -/
def store (frame : CallFrame) (heap : SharedHeap) (operation name : String) (old value : SharedValue) :
    Except String Unit × CallFrame × SharedHeap :=
  let bytes := ownedBytes value
  match heap.holdBytes operation bytes with
  | .error error => (.error error, frame, heap.dropValue value)
  | .ok heap =>
    let (stored, heap) := { frame with held := frame.held + bytes }.releaseBytes heap (ownedBytes old)
    let stored := { stored with locals := stored.locals.insert (toAsciiLowercase name) value }
    (.ok (), stored, SharedHeap.dropValue heap old)

end CallFrame

/-- The frame in which a name is looked up: the newest, or globals of its object. The newest frame is first. -/
def lookupFrame (stack : List CallFrame) (name : String) : Option (Nat × SharedValue) :=
  let key := toAsciiLowercase name
  match stack with
  | [] => none
  | current :: callers =>
    match current.locals.get? key with
    | some value => some (0, value)
    | none =>
      (callers.zipIdx 1).findSome? fun (frame, index) =>
        if frame.isObjectGlobals && eqIgnoreAsciiCase frame.object current.object then
          (frame.locals.get? key).map fun value => (index, value)
        else none

/-! ## The interpreter -/

/-- The frames on the stack and those beside it, the values that are not in a variable, and the values for `var`
arguments. -/
structure Interp where
  heap : SharedHeap
  stack : List CallFrame := []
  spare : List CallFrame := []
  values : List SharedValue := []
  writebacks : List (Nat × SharedValue) := []

def Interp.initial (total : Nat) : Interp where heap := CountedHeap.start total

inductive HeldAction where
  | literal (value : Value)
  /-- A new List of the first values. -/
  | makeList (count : Nat) (memberType : Option String)
  | makeDict (keyType valueType : Option String)
  | makeTextBuilder (text : String)
  | makeVariant
  | makeArray (count : Nat)
  | clone (index : Nat)
  | drop (index : Nat)
  | read (name : String)
  | takeWritebacks
  | newFrame (object procedure : String)
  | pushFrame (index : Nat)
  | popFrame
  | cloneFrame (place : Nat)
  | dropFrame (index : Nat)
  /-- The first value is bound in the frame at a place, counted over the stack and the frames beside it. -/
  | bind (place : Nat) (name : String)
  | unbind (place : Nat) (name : String)
  | store (operation name : String)
  /-- A method is called with the first values. -/
  | callList (recv method : String) (count : Nat) (statement cancelled : Bool)
  | callDict (recv method : String) (count : Nat)
  | lookupDict (recv : String)
  | callTextBuilder (recv method : String) (count : Nat)

namespace Interp

variable (interp : Interp)

def frames : List CallFrame := interp.stack ++ interp.spare

def putFrame (place : Nat) (frame : CallFrame) : Interp :=
  if place < interp.stack.length then { interp with stack := interp.stack.set place frame }
  else { interp with spare := interp.spare.set (place - interp.stack.length) frame }

def lookup (name : String) : Option SharedValue := (lookupFrame interp.stack name).map (·.2)

/-- The first values are dropped. -/
def discard (count : Nat) : Interp :=
  { interp with
    heap := interp.heap.dropValues (interp.values.take count)
    values := interp.values.drop count }

/-- `ctx.var_writebacks.clear()`. -/
def clearWritebacks : Interp :=
  { interp with heap := interp.heap.dropValues (interp.writebacks.map (·.2)), writebacks := [] }

/-- A call has taken the first values and dropped them. Its result is the first value now. -/
def returned (count : Nat) (outcome : Outcome) : Except String Unit × Interp :=
  let interp := { interp with
    heap := outcome.heap
    values := interp.values.drop count
    writebacks := interp.writebacks ++ outcome.writebacks }
  match outcome.result with
  | .error error => (.error error, interp)
  | .normal value => (.ok (), { interp with values := value :: interp.values })

/-- A call that fails before it begins drops its arguments. -/
def refused (count : Nat) (message : String) : Except String Unit × Interp := (.error message, interp.discard count)

section Perform

variable [CaseMapping] [ValueOrder] [Rendering]

def callList (recv method : String) (count : Nat) (statement cancelled : Bool) : Except String Unit × Interp :=
  let interp := interp.clearWritebacks
  match interp.lookup recv with
  | none => interp.refused count s!"list variable '{recv}' is not bound"
  | some (.list serial memberType) =>
    interp.returned count (listMethod interp.heap ⟨serial, .list⟩ memberType method (interp.values.take count) statement cancelled)
  | some _ => interp.refused count s!"'{recv}' is not a List"

def callDict (recv method : String) (count : Nat) : Except String Unit × Interp :=
  let interp := interp.clearWritebacks
  match interp.lookup recv with
  | none => interp.refused count s!"dictionary variable '{recv}' is not bound"
  | some (.dict serial keyType valueType) =>
    interp.returned count (dictMethod interp.heap ⟨serial, .dict⟩ keyType valueType method (interp.values.take count))
  | some _ => interp.refused count s!"'{recv}' is not a Dictionary"

def callTextBuilder (recv method : String) (count : Nat) : Except String Unit × Interp :=
  match interp.lookup recv with
  | some (.textBuilder serial) => interp.returned count (textBuilderMethod interp.heap ⟨serial, .text⟩ method (interp.values.take count))
  | _ => interp.refused count s!"'{recv}' is not a TextBuilder"

/-- The value under the key that is the first value. -/
def lookupDict (recv : String) : Except String Unit × Interp :=
  match interp.values with
  | [] => (.ok (), interp)
  | key :: _ =>
    match interp.lookup recv with
    | some (.dict serial keyType _) =>
      match dictLookup interp.heap ⟨serial, .dict⟩ keyType key with
      | .error error => interp.refused 1 error
      | .ok none => (.ok (), interp.discard 1)
      | .ok (some value) =>
        let interp := { interp with heap := interp.heap.cloneValue value }
        let interp := interp.discard 1
        (.ok (), { interp with values := value :: interp.values })
    | _ => interp.refused 1 s!"'{recv}' is not a Dictionary"

def store (operation name : String) : Except String Unit × Interp :=
  match interp.values, lookupFrame interp.stack name with
  | value :: values, some (index, old) =>
    match interp.stack[index]? with
    | none => (.ok (), interp)
    | some frame =>
      let (result, frame, heap) := frame.store interp.heap operation name old value
      (result, { interp with heap, values }.putFrame index frame)
  | _, _ => (.ok (), interp)

/-- What an action does, with the message of its error. -/
def perform : HeldAction → Except String Unit × Interp
  | .literal value => (.ok (), { interp with values := .plain value :: interp.values })
  | .makeList count memberType =>
    (.ok (), { interp with
      heap := interp.heap.alloc (.items (interp.values.take count))
      values := .list interp.heap.next memberType :: interp.values.drop count })
  | .makeDict keyType valueType =>
    (.ok (), { interp with
      heap := interp.heap.alloc (.entries .empty)
      values := .dict interp.heap.next keyType valueType :: interp.values })
  | .makeTextBuilder text =>
    (.ok (), { interp with
      heap := interp.heap.alloc (.text text)
      values := .textBuilder interp.heap.next :: interp.values })
  | .makeVariant =>
    match interp.values with
    | [] => (.ok (), interp)
    | value :: values => (.ok (), { interp with values := .variant value :: values })
  | .makeArray count =>
    (.ok (), { interp with values := .array (interp.values.take count) :: interp.values.drop count })
  | .clone index =>
    match interp.values[index]? with
    | none => (.ok (), interp)
    | some value => (.ok (), { interp with heap := interp.heap.cloneValue value, values := value :: interp.values })
  | .drop index =>
    match interp.values[index]? with
    | none => (.ok (), interp)
    | some value => (.ok (), { interp with heap := interp.heap.dropValue value, values := interp.values.eraseIdx index })
  | .read name =>
    match interp.lookup name with
    | none => (.ok (), interp)
    | some value => (.ok (), { interp with heap := interp.heap.cloneValue value, values := value :: interp.values })
  | .takeWritebacks =>
    (.ok (), { interp with values := interp.writebacks.map (·.2) ++ interp.values, writebacks := [] })
  | .newFrame object procedure => (.ok (), { interp with spare := ⟨object, procedure, .empty, 0⟩ :: interp.spare })
  | .pushFrame index =>
    match interp.spare[index]? with
    | none => (.ok (), interp)
    | some frame => (.ok (), { interp with stack := frame :: interp.stack, spare := interp.spare.eraseIdx index })
  | .popFrame =>
    match interp.stack with
    | [] => (.ok (), interp)
    | frame :: stack => (.ok (), { interp with stack := stack, spare := frame :: interp.spare })
  | .cloneFrame place =>
    match interp.frames[place]? with
    | none => (.ok (), interp)
    | some frame => (.ok (), { interp with heap := frame.clone interp.heap, spare := frame :: interp.spare })
  | .dropFrame index =>
    match interp.spare[index]? with
    | none => (.ok (), interp)
    | some frame => (.ok (), { interp with heap := frame.drop interp.heap, spare := interp.spare.eraseIdx index })
  | .bind place name =>
    match interp.values, interp.frames[place]? with
    | value :: values, some frame =>
      let (frame, heap) := frame.bind interp.heap name value
      (.ok (), { interp with heap, values }.putFrame place frame)
    | _, _ => (.ok (), interp)
  | .unbind place name =>
    match interp.frames[place]? with
    | none => (.ok (), interp)
    | some frame =>
      match frame.unbind interp.heap name with
      | none => (.ok (), interp)
      | some (old, frame, heap) => (.ok (), { interp with heap, values := old :: interp.values }.putFrame place frame)
  | .store operation name => interp.store operation name
  | .callList recv method count statement cancelled => interp.callList recv method count statement cancelled
  | .callDict recv method count => interp.callDict recv method count
  | .lookupDict recv => interp.lookupDict recv
  | .callTextBuilder recv method count => interp.callTextBuilder recv method count

def after (interp : Interp) (action : HeldAction) : Interp := (interp.perform action).2

end Perform

end Interp

end AlLanguage.Runtime
