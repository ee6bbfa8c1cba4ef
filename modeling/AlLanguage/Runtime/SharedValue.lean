import AlLanguage.Library.CountedHeap
import AlLanguage.Runtime.Slot
import AlLanguage.Runtime.Tables

/-!
# Values with shared contents

A List, a Dictionary or a TextBuilder is a handle to contents on a heap. Cloning the value shares the contents.
-/

namespace AlLanguage.Runtime

open Library

/-- The kinds of contents. -/
inductive ContentsKind where
  | list | dict | text
  deriving DecidableEq

abbrev Handle := Address ContentsKind

inductive SharedValue where
  /-- A value without a handle in it. -/
  | plain (v : Value)
  | variant (inner : SharedValue)
  | array (items : List SharedValue)
  | list (serial : Nat) (memberType : Option String)
  | dict (serial : Nat) (memberType valueType : Option String)
  | textBuilder (serial : Nat)

namespace SharedValue

def typeName : SharedValue → String
  | plain v => v.typeName
  | variant _ => "Variant"
  | array _ => "Array"
  | list .. => "List"
  | dict .. => "Dict"
  | textBuilder _ => "TextBuilder"

mutual

def handles : SharedValue → List Handle
  | plain _ => []
  | variant inner => handles inner
  | array items => handlesAll items
  | list serial _ => [⟨serial, .list⟩]
  | dict serial _ _ => [⟨serial, .dict⟩]
  | textBuilder serial => [⟨serial, .text⟩]

def handlesAll : List SharedValue → List Handle
  | [] => []
  | value :: rest => handles value ++ handlesAll rest

end

end SharedValue

/-! ## Bytes -/

/-- The size of a `Value` in memory. -/
def sizeOfValue : Nat := 56

/-- `text_bytes` in `owned_bytes`. -/
def plainTextBytes : Value → Nat
  | .text s | .code s | .guid s => s.utf8ByteSize
  | .blob bytes => bytes.length
  | _ => 0

def plainOwnedBytes : Value → Nat
  | .variant inner => plainOwnedBytes inner
  | .array items => (items.map fun item => sizeOfValue + plainTextBytes item).sum
  | other => plainTextBytes other

def textBytes : SharedValue → Nat
  | .plain v => plainTextBytes v
  | _ => 0

/-- The bytes of text or data that a value owns, as they are counted for a variable. -/
def ownedBytes : SharedValue → Nat
  | .plain v => plainOwnedBytes v
  | .variant inner => ownedBytes inner
  | .array items => (items.map fun item => sizeOfValue + textBytes item).sum
  | .list .. | .dict .. | .textBuilder _ => 0

def elementBytes (value : SharedValue) : Nat := sizeOfValue + ownedBytes value

def entryBytes (keyText : String) (key value : SharedValue) : Nat :=
  keyText.utf8ByteSize + elementBytes key + elementBytes value

/-! ## Contents -/

abbrev DictEntries := IndexMap String (SharedValue × SharedValue)

inductive Contents where
  | items (values : List SharedValue)
  | entries (map : DictEntries)
  | text (s : String)

namespace Contents

def kind : Contents → ContentsKind
  | .items _ => .list
  | .entries _ => .dict
  | .text _ => .text

def handles : Contents → List Handle
  | .items values => SharedValue.handlesAll values
  | .entries map => map.entries.flatMap fun entry => entry.2.1.handles ++ entry.2.2.handles
  | .text _ => []

/-- `held_bytes` of the contents. -/
def heldBytes : Contents → Nat
  | .items values => (values.map elementBytes).sum
  | .entries map => map.weight fun keyText entry => entryBytes keyText entry.1 entry.2
  | .text s => s.utf8ByteSize

end Contents

instance heapContents : HeapContents Contents ContentsKind := ⟨Contents.kind, Contents.handles, Contents.heldBytes⟩

abbrev SharedHeap := CountedHeap Contents ContentsKind

/-! ## Limits -/

def maxCollectionLen : Nat := 1000000

def maxHeldBytes : Nat := 256 * 1024 * 1024

def overHeldBudget (operation : String) (total : Nat) : String :=
  s!"{operation} would make the variables, Lists, Dictionaries, arrays, TextBuilders and JSON values of this test hold " ++
    s!"{total} bytes, over the local test runtime's limit of {maxHeldBytes / (1024 * 1024)} MiB for one test"

def checkCollectionLen (operation : String) (len : Nat) : Except String Unit :=
  if len ≤ maxCollectionLen then .ok ()
  else .error (s!"{operation} would make {len} elements, over the local test runtime's limit of {maxCollectionLen} " ++
    "elements for one List, Dictionary or array")

namespace SharedHeap

/-- `hold_bytes`: more bytes in all, or the refusal. -/
def holdBytes (heap : SharedHeap) (operation : String) (bytes : Nat) : Except String SharedHeap :=
  let total := heap.total + bytes
  if 0 < bytes ∧ maxHeldBytes < total then .error (overHeldBudget operation total)
  else .ok { heap with total := total }

/-- `check_held_bytes`. -/
def checkHeldBytes (heap : SharedHeap) (operation : String) : Except String Unit :=
  if maxHeldBytes < heap.total then .error (overHeldBudget operation heap.total) else .ok ()

/-- `Shared::charge`. -/
def charge (heap : SharedHeap) (operation : String) (a : Handle) (bytes : Nat) : Except String SharedHeap :=
  let total := heap.total + bytes
  if 0 < bytes ∧ maxHeldBytes < total then .error (overHeldBudget operation total) else .ok (heap.add a bytes)

/-- `Shared::recount`: the contents count as so many bytes from now on, also when the test's total is past the limit. -/
def recount (heap : SharedHeap) (operation : String) (a : Handle) (bytes : Nat) : Except String Unit × SharedHeap :=
  let before := heap.heldBy a
  if bytes ≤ before then (.ok (), heap.release a (before - bytes))
  else
    let heap : SharedHeap := heap.add a (bytes - before)
    (heap.checkHeldBytes operation, heap)

def items (heap : SharedHeap) (a : Handle) : List SharedValue :=
  match heap.cells.get? a with
  | some ⟨.items values, _, _⟩ => values
  | _ => []

def entries (heap : SharedHeap) (a : Handle) : DictEntries :=
  match heap.cells.get? a with
  | some ⟨.entries map, _, _⟩ => map
  | _ => .empty

def text (heap : SharedHeap) (a : Handle) : String :=
  match heap.cells.get? a with
  | some ⟨.text s, _, _⟩ => s
  | _ => ""

def cloneValue (heap : SharedHeap) (value : SharedValue) : SharedHeap := heap.retainAll value.handles

def cloneValues (heap : SharedHeap) (values : List SharedValue) : SharedHeap := heap.retainAll (SharedValue.handlesAll values)

def dropValue (heap : SharedHeap) (value : SharedValue) : SharedHeap := heap.dropAll value.handles

def dropValues (heap : SharedHeap) (values : List SharedValue) : SharedHeap := heap.dropAll (SharedValue.handlesAll values)

end SharedHeap

end AlLanguage.Runtime
