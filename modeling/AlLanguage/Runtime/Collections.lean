import AlLanguage.Runtime.SharedValue

/-!
# Methods of Lists, Dictionaries and TextBuilders

The bytes that a method adds to its contents are charged and those that it takes away are released by hand, path by path.
-/

namespace AlLanguage.Runtime

open Library

inductive Eval where
  | normal (value : SharedValue)
  | error (message : String)

/-- What a method leaves: its result, the heap, and the values for its `var` arguments by their places. -/
structure Outcome where
  result : Eval
  heap : SharedHeap
  writebacks : List (Nat × SharedValue) := []

/-- The order of values, which looks into their contents. -/
class ValueOrder where
  compare : SharedHeap → SharedValue → SharedValue → Ordering

/-- Texts by their characters, for examples without other values. -/
@[reducible] def ValueOrder.byText : ValueOrder where
  compare _
    | .plain (.text s), .plain (.text t) => Ord.compare s t
    | _, _ => .eq

/-- How values that are no texts are shown in a text. -/
class Rendering where
  renderValue : SharedHeap → SharedValue → String

@[reducible] def Rendering.byText : Rendering where
  renderValue _
    | .plain (.text s) => s
    | _ => ""

namespace Eval

def empty : Eval := normal (.plain .empty)

def boolean (b : Bool) : Eval := normal (.plain (.boolean b))

def ofNat (n : Nat) : Eval := normal (.plain (.integer (Int64.ofNat n)))

def ofPlain : Except String Value → Eval
  | .ok value => normal (.plain value)
  | .error message => error message

/-- The call has added what it was charged for. -/
def added : Eval → Bool
  | normal (.plain (.boolean true)) | normal (.plain .empty) => true
  | _ => false

end Eval

/-! ## Declared types -/

/-- The value of a type that stores convert to. Stores into TextBuilder and JSON variables convert nothing. -/
def defaultFor (typeName : String) : Option Value :=
  match toAsciiLowercase typeName with
  | "integer" => some (.integer 0)
  | "biginteger" => some (.bigInteger 0)
  | "decimal" => some (.decimal .zero)
  | "boolean" => some (.boolean false)
  | "text" => some (.text "")
  | "code" => some (.code "")
  | "date" => some (.date 0)
  | "time" => some (.time 0)
  | "datetime" => some (.dateTime 0)
  | "duration" => some (.duration 0)
  | "guid" => some (.guid "\x7b00000000-0000-0000-0000-000000000000\x7d")
  | "char" => some (.char (Char.ofNat 0))
  | _ => none

/-- `str::parse::<usize>`, with its plus sign. -/
def parseSignedUsize (s : String) : Option Nat :=
  let digits := match s.toList with
    | '+' :: digits => digits
    | digits => digits
  (digitsValue digits).filter (· < 2 ^ 64)

/-- The type text before its length. -/
def typeBase (typeText : String) : String := trim (String.ofList (typeText.toList.takeWhile (· ≠ '[')))

def declaredTextLength (typeText : String) : Option Nat :=
  let trimmed := trim typeText
  if toAsciiLowercase (typeBase trimmed) ∉ ["text", "code"] then none
  else
    match trimmed.toList.dropWhile (· ≠ '[') with
    | [] => none
    | _ :: rest =>
      if ']' ∈ rest then parseSignedUsize (trim (String.ofList (rest.takeWhile (· ≠ ']')))) else none

section Methods

variable [CaseMapping]

/-- A value without handles, converted to a declared type. -/
def declaredPlain (value : Value) (memberType : String) : Except String Value :=
  let capacity := declaredTextLength memberType
  match defaultFor (typeBase memberType), value with
  | none, value => .ok value
  | some (.char _), .text s | some (.char _), .code s => do
    checkStringCapacity s (some 1)
    return .char (s.toList.head?.getD (Char.ofNat 0))
  | some (.text slot), .char c => coerceIntoSlot (.text slot) (.text (String.singleton c)) capacity
  | some (.code slot), .char c => coerceIntoSlot (.code slot) (.text (String.singleton c)) capacity
  | some (.integer slot), .char c => coerceIntoSlot (.integer slot) (.integer (Int64.ofNat c.toNat)) none
  | some (.bigInteger slot), .char c => coerceIntoSlot (.bigInteger slot) (.integer (Int64.ofNat c.toNat)) none
  | some slot, value => coerceIntoSlot slot value capacity

/-- The value, converted to the declared element type of a List or key type of a Dictionary. -/
def declaredMember (value : SharedValue) (memberType : Option String) : Except String SharedValue :=
  match memberType, value with
  | some memberType, .plain v => (declaredPlain v memberType).map .plain
  | _, value => .ok value

/-! ## Lists -/

inductive ListMethod where
  | add | addRange | get | getRange | count | contains | indexOf | lastIndexOf | insert | remove | removeAt
  | removeRange | reverse | set | other
  deriving DecidableEq

omit [CaseMapping] in
def ListMethod.ofName (lower : String) : ListMethod :=
  match lower with
  | "add" => .add
  | "addrange" => .addRange
  | "get" => .get
  | "getrange" => .getRange
  | "count" => .count
  | "contains" => .contains
  | "indexof" => .indexOf
  | "lastindexof" => .lastIndexOf
  | "insert" => .insert
  | "remove" => .remove
  | "removeat" => .removeAt
  | "removerange" => .removeRange
  | "reverse" => .reverse
  | "set" => .set
  | _ => .other

/-- The elements of the other list are added, and not the list as one element. -/
def addsElements (heap : SharedHeap) (memberType : Option String) (other : Nat) (otherType : Option String) : Bool :=
  let isListType (typeText : String) : Bool :=
    "list of".toList.isPrefixOf ((typeText.toList.dropWhile isWhitespace).map Char.toLower)
  let normalised (typeText : String) : List Char := (typeText.toList.filter fun c => !isWhitespace c).map Char.toLower
  match memberType, otherType with
  | none, _ => true
  | some element, otherType =>
    if isListType element then
      match otherType with
      | some otherElement => normalised element = normalised otherElement
      | none => (SharedHeap.items heap ⟨other, .list⟩).any fun item => item matches .list ..
    else true

/-- The element arguments of a method, converted to the element type. -/
def declaredElements (method : ListMethod) (args : List SharedValue) (elementType : Option String) :
    Except String (List SharedValue) :=
  match method, args with
  | .add, value :: rest | .contains, value :: rest | .indexOf, value :: rest | .lastIndexOf, value :: rest
  | .remove, value :: rest => (declaredMember value elementType).map (· :: rest)
  | .insert, index :: value :: rest | .set, index :: value :: rest =>
    (declaredMember value elementType).map (index :: · :: rest)
  | .addRange, args => args.mapM (declaredMember · elementType)
  | _, args => .ok args

/-- Where a range of so many elements from a 1-based index starts, and their number. -/
def listRange (method : String) (args : List SharedValue) (len : Nat) : Except String (Nat × Nat) :=
  match args with
  | [.plain (.integer index), .plain (.integer count)] =>
    let start := index.toInt - 1
    if 0 ≤ start ∧ 0 ≤ count.toInt ∧ start.toNat + count.toInt.toNat ≤ len then .ok (start.toNat, count.toInt.toNat)
    else .error (s!"{method}: index {index.toInt} and count {count.toInt} are out of range for {len} elements")
  | _ => .error s!"{method} expects an Integer index and count"

def listIndex (method : String) (args : List SharedValue) (len : Nat) : Except String (Fin len) :=
  match args with
  | [.plain (.integer index)] =>
    if h : 1 ≤ index.toInt ∧ (index.toInt - 1).toNat < len then .ok ⟨(index.toInt - 1).toNat, h.2⟩
    else .error s!"{method}: index {index.toInt} out of range 1..{len}"
  | _ => .error s!"{method} expects exactly one Integer index"

/-- A new list of the values, with the handles in them cloned. -/
def newList (heap : SharedHeap) (values : List SharedValue) (memberType : Option String) : Outcome where
  result := .normal (.list (heap.cloneValues values).next memberType)
  heap := (heap.cloneValues values).alloc (.items values)

def putItems (heap : SharedHeap) (a : Handle) (values : List SharedValue) : SharedHeap := heap.put a (.items values)

/-- An element of the list is taken out of it, released and dropped. -/
def takeOut (heap : SharedHeap) (a : Handle) (items : List SharedValue) (index : Fin items.length) : SharedHeap :=
  let old := items.get index
  let heap : SharedHeap := putItems heap a (items.eraseIdx index)
  let heap : SharedHeap := heap.release a (elementBytes old)
  heap.dropValue old

/-- The value replaces an element of the list, which is released. The element is the caller's to drop. -/
def setItem (heap : SharedHeap) (a : Handle) (items : List SharedValue) (index : Fin items.length) (value : SharedValue) :
    SharedHeap :=
  let heap : SharedHeap := putItems (heap.cloneValue value) a (items.set index value)
  heap.release a (elementBytes (items.get index))

/-- `Insert(index, value)`: up to one past the end. -/
def insertItem (heap : SharedHeap) (a : Handle) (items args : List SharedValue) : Outcome :=
  match args with
  | [.plain (.integer index), value] =>
    if 1 ≤ index.toInt ∧ (index.toInt - 1).toNat ≤ items.length then
      ⟨.boolean true, putItems (heap.cloneValue value) a (items.insertIdx (index.toInt - 1).toNat value), []⟩
    else ⟨.error s!"List.Insert: index {index.toInt} out of range 1..{items.length + 1}", heap, []⟩
  | _ => ⟨.error "List.Insert expects an Integer index and one value", heap, []⟩

/-- `list_method_on`, with the arguments left to the caller to drop. -/
def listMethodOn (heap : SharedHeap) (a : Handle) (memberType : Option String) (lower : String) (args : List SharedValue)
    (statement : Bool) (items : List SharedValue) : Outcome :=
  match ListMethod.ofName lower, args with
  | .addRange, [] => ⟨.error "List.AddRange expects at least one value or a List", heap, []⟩
  | .addRange, args => ⟨.empty, putItems (heap.cloneValues args) a (items ++ args), []⟩
  | .getRange, args =>
    match listRange "List.GetRange" args items.length with
    | .ok (start, count) => newList heap ((items.drop start).take count) memberType
    | .error error => ⟨.error error, heap, []⟩
  | .removeRange, args =>
    match listRange "List.RemoveRange" args items.length with
    | .ok (start, count) =>
      let gone := (items.drop start).take count
      let heap : SharedHeap := putItems heap a (items.take start ++ items.drop (start + count))
      let heap : SharedHeap := heap.dropValues gone
      ⟨.boolean true, heap.release a (gone.map elementBytes).sum, []⟩
    | .error error => ⟨if statement then .error error else .boolean false, heap, []⟩
  | .reverse, [] => ⟨.empty, putItems heap a items.reverse, []⟩
  | .reverse, _ => ⟨.error "List.Reverse expects no arguments", heap, []⟩
  | .lastIndexOf, _ => ⟨.error "List.LastIndexOf expects exactly one value", heap, []⟩
  | .add, [value] => ⟨.boolean true, putItems (heap.cloneValue value) a (items ++ [value]), []⟩
  | .add, _ => ⟨.error "List.Add expects exactly one value", heap, []⟩
  | .count, [] =>
    if items.length < 2 ^ 63 then ⟨.ofNat items.length, heap, []⟩
    else ⟨.error "List.Count exceeds the supported Integer range", heap, []⟩
  | .count, _ => ⟨.error "List.Count expects no arguments", heap, []⟩
  | .get, [index, _] =>
    match listIndex "List.Get" [index] items.length with
    | .ok index => ⟨.boolean true, heap.cloneValue (items.get index), [(1, items.get index)]⟩
    | .error error => ⟨if statement then .error error else .boolean false, heap, []⟩
  | .get, args =>
    match listIndex "List.Get" args items.length with
    | .ok index => ⟨.normal (items.get index), heap.cloneValue (items.get index), []⟩
    | .error error => ⟨.error error, heap, []⟩
  | .contains, _ => ⟨.error "List.Contains expects exactly one value", heap, []⟩
  | .indexOf, _ => ⟨.error "List.IndexOf expects exactly one value", heap, []⟩
  | .removeAt, args =>
    match listIndex "List.RemoveAt" args items.length with
    | .ok index => ⟨.boolean true, takeOut heap a items index, []⟩
    | .error error => ⟨.error error, heap, []⟩
  | .remove, _ => ⟨.error "List.Remove expects exactly one value", heap, []⟩
  | .set, [index, value] =>
    match listIndex "List.Set" [index] items.length with
    | .ok index => ⟨.boolean true, (setItem heap a items index value).dropValue (items.get index), []⟩
    | .error error => ⟨.error error, heap, []⟩
  | .set, [index, value, _] =>
    match listIndex "List.Set" [index] items.length with
    | .ok index => ⟨.boolean true, setItem heap a items index value, [(2, items.get index)]⟩
    | .error error => ⟨if statement then .error error else .boolean false, heap, []⟩
  | .set, _ =>
    ⟨.error "List.Set expects an Integer index, a value and an optional var for the old value", heap, []⟩
  | .insert, args => insertItem heap a items args
  | .other, _ => ⟨.error s!"unsupported List method: {lower}", heap, []⟩

/-- Comparing the value can look into a List or Dictionary. -/
def searchPosition [ValueOrder] (heap : SharedHeap) (last : Bool) (items : List SharedValue) (needle : SharedValue) :
    Option (Fin items.length) :=
  let found := (List.finRange items.length).filter fun index => ValueOrder.compare heap (items.get index) needle = .eq
  if last then found.getLast? else found.head?

/-- `search_list`. A search that is cancelled on its way ends in an error. -/
def searchList [ValueOrder] (heap : SharedHeap) (a : Handle) (lower : String) (items : List SharedValue)
    (needle : SharedValue) (cancelled : Bool) : Outcome :=
  if cancelled then ⟨.error s!"interpreter cancelled in List.{lower}", heap, []⟩
  else
    let method := ListMethod.ofName lower
    match method, searchPosition heap (method = .lastIndexOf) items needle with
    | .contains, position => ⟨.boolean position.isSome, heap, []⟩
    | .remove, some position => ⟨.boolean true, takeOut heap a items position, []⟩
    | .remove, none => ⟨.boolean false, heap, []⟩
    | _, none => ⟨.ofNat 0, heap, []⟩
    | _, some position =>
      if position.val + 1 < 2 ^ 63 then ⟨.ofNat (position.val + 1), heap, []⟩
      else ⟨.error "List.IndexOf result exceeds the supported Integer range", heap, []⟩

def ListMethod.searches : ListMethod → Bool
  | contains | indexOf | lastIndexOf | remove => true
  | _ => false

/-- The elements that a method adds to a list. -/
def listAdded (method : ListMethod) (args : List SharedValue) : Nat :=
  match method with
  | .addRange => args.length
  | .add | .insert => 1
  | _ => 0

/-- The bytes that a method adds to a list, for Set without those of the old element. -/
def listAdding (method : ListMethod) (args : List SharedValue) : Nat :=
  match method, args with
  | .addRange, args => (args.map elementBytes).sum
  | .add, [value] | .insert, [_, value] | .set, _ :: value :: _ => elementBytes value
  | _, _ => 0

/-- The list is an argument. -/
def isArgument (a : Handle) (args : List SharedValue) : Bool :=
  args.any fun arg =>
    match arg with
    | .list serial _ => (⟨serial, .list⟩ : Handle) = a
    | _ => false

/-- A call that is charged for what it adds. What it does not add is released again. -/
def listCharged (heap : SharedHeap) (a : Handle) (memberType : Option String) (method : String) (args : List SharedValue)
    (statement : Bool) (items : List SharedValue) : Outcome :=
  let lower := toAsciiLowercase method
  let name := ListMethod.ofName lower
  match checkCollectionLen s!"List.{method}" (items.length + listAdded name args) with
  | .error error => ⟨.error error, heap, []⟩
  | .ok () =>
    let adding := listAdding name args
    match heap.charge s!"List.{method}" a adding with
    | .error error => ⟨.error error, heap, []⟩
    | .ok charged =>
      let outcome := listMethodOn charged a memberType lower args statement items
      if outcome.result.added then outcome else { outcome with heap := outcome.heap.release a adding }

/-- A call of a list method, with the arguments left to the caller to drop. -/
def listCall [ValueOrder] (heap : SharedHeap) (a : Handle) (memberType : Option String) (method : String)
    (args : List SharedValue) (statement cancelled : Bool) : Outcome :=
  let lower := toAsciiLowercase method
  let name := ListMethod.ofName lower
  match declaredElements name args memberType with
  | .error error => ⟨.error error, heap, []⟩
  | .ok args =>
    if isArgument a args then
      ⟨.error s!"List.{method} with the list itself as an argument is not supported by the local runtime", heap, []⟩
    else
      let items := SharedHeap.items heap a
      match name.searches, args with
      | true, [needle] => searchList heap a lower items needle cancelled
      | _, args => listCharged heap a memberType method args statement items

/-- `dispatch_list_method` on the list at an address. `AddRange` of another list adds copies of its elements. -/
def listMethod [ValueOrder] (heap : SharedHeap) (a : Handle) (memberType : Option String) (method : String)
    (args : List SharedValue) (statement cancelled : Bool) : Outcome :=
  let dropping (outcome : Outcome) (args : List SharedValue) : Outcome :=
    { outcome with heap := SharedHeap.dropValues outcome.heap args }
  match ListMethod.ofName (toAsciiLowercase method), args with
  | .addRange, [.list other otherType] =>
    if addsElements heap memberType other otherType then
      let elements := SharedHeap.items heap ⟨other, .list⟩
      let outcome := listCall (heap.cloneValues elements) a memberType method elements statement cancelled
      dropping outcome (elements ++ args)
    else dropping (listCall heap a memberType method args statement cancelled) args
  | _, args => dropping (listCall heap a memberType method args statement cancelled) args

/-! ## Dictionaries -/

inductive DictMethod where
  | add | get | set | containsKey | remove | count | keys | values | other
  deriving DecidableEq

omit [CaseMapping] in
def DictMethod.ofName (lower : String) : DictMethod :=
  match lower with
  | "add" => .add
  | "get" => .get
  | "set" => .set
  | "containskey" => .containsKey
  | "remove" => .remove
  | "count" => .count
  | "keys" => .keys
  | "values" => .values
  | _ => .other

/-- A key in the text by which its entry is found. -/
def dictKey (value : SharedValue) : Except String String :=
  match value with
  | .plain (.text s) => .ok s
  | .plain (.code s) => .ok (toUppercase s)
  | .plain (.integer n) | .plain (.bigInteger n) => .ok (renderI64 n)
  | .plain (.decimal d) => .ok d.normalize.render
  | .plain (.boolean b) => .ok (toString b)
  | .plain (.date n) => .ok ("D" ++ renderI64 n)
  | .plain (.time n) => .ok ("T" ++ renderI64 n)
  | .plain (.dateTime n) => .ok ("DT" ++ renderI64 n)
  | .plain (.guid s) => .ok (toUppercase s)
  | .plain (.char c) => .ok ("C" ++ String.singleton c)
  | .plain (.option typeName _ ordinal) => .ok ("O" ++ toAsciiLowercase typeName ++ ":" ++ renderI64 ordinal)
  | other => .error s!"Dictionary keys of type {other.typeName} are not supported by the local runtime"

/-- The key argument of a method, converted to the key type. -/
def declaredKey (method : DictMethod) (args : List SharedValue) (keyType : Option String) :
    Except String (List SharedValue) :=
  match method, args with
  | .add, key :: rest | .set, key :: rest | .get, key :: rest | .containsKey, key :: rest | .remove, key :: rest =>
    (declaredMember key keyType).map (· :: rest)
  | _, args => .ok args

def putEntries (heap : SharedHeap) (a : Handle) (map : DictEntries) : SharedHeap := heap.put a (.entries map)

/-- A full Dictionary takes no new key. -/
def dictRoom (method : String) (entries : DictEntries) (args : List SharedValue) : Except String Unit :=
  let replaces : Bool :=
    match DictMethod.ofName (toAsciiLowercase method), args with
    | .set, key :: _ =>
      match dictKey key with
      | .ok key => (entries.get? key).isSome
      | .error _ => false
    | _, _ => false
  if DictMethod.ofName (toAsciiLowercase method) ∈ [.add, .set] ∧ !replaces then
    checkCollectionLen s!"Dictionary.{method}" (entries.size + 1)
  else .ok ()

/-- Charge a new entry, put it into the map, and release the entry that it replaces, which is the caller's to drop. -/
def putEntry (heap : SharedHeap) (a : Handle) (operation : String) (entries : DictEntries) (keyText : String)
    (key value : SharedValue) : Except String SharedHeap := do
  let heap ← heap.charge operation a (entryBytes keyText key value)
  let heap : SharedHeap := putEntries (heap.cloneValues [key, value]) a (entries.insert keyText (key, value))
  match entries.get? keyText with
  | some (oldKey, oldValue) => return heap.release a (entryBytes keyText oldKey oldValue)
  | none => return heap

/-- The part of `dispatch_dict_method` behind the conversion of the key, with the arguments left to the caller to drop. -/
def dictMethodOn (heap : SharedHeap) (a : Handle) (keyType valueType : Option String) (lower : String)
    (args : List SharedValue) (entries : DictEntries) : Outcome :=
  match DictMethod.ofName lower, args with
  | .add, [key, value] =>
    match dictKey key with
    | .error error => ⟨.error error, heap, []⟩
    | .ok keyText =>
      if (entries.get? keyText).isSome then ⟨.error "Dictionary.Add: the key already exists", heap, []⟩
      else
        match putEntry heap a "Dictionary.Add" entries keyText key value with
        | .error error => ⟨.error error, heap, []⟩
        | .ok heap => ⟨.empty, heap, []⟩
  | .add, _ => ⟨.error "Dictionary.Add expects exactly a key and a value", heap, []⟩
  | .set, key :: value :: rest =>
    if 1 < rest.length then
      ⟨.error "Dictionary.Set expects a key, a value and an optional var for the old value", heap, []⟩
    else
      match dictKey key with
      | .error error => ⟨.error error, heap, []⟩
      | .ok keyText =>
        match putEntry heap a "Dictionary.Set" entries keyText key value with
        | .error error => ⟨.error error, heap, []⟩
        | .ok heap =>
          match rest, entries.get? keyText with
          | [], some (oldKey, oldValue) => ⟨.empty, heap.dropValues [oldKey, oldValue], []⟩
          | [], none => ⟨.empty, heap, []⟩
          -- the old value goes to the `var` argument
          | _, some (oldKey, oldValue) => ⟨.boolean true, heap.dropValue oldKey, [(2, oldValue)]⟩
          | _, none => ⟨.boolean false, heap, []⟩
  | .set, _ => ⟨.error "Dictionary.Set expects a key, a value and an optional var for the old value", heap, []⟩
  | .get, [key] =>
    match dictKey key with
    | .error error => ⟨.error error, heap, []⟩
    | .ok keyText =>
      match entries.get? keyText with
      | some (_, value) => ⟨.normal value, heap.cloneValue value, []⟩
      | none => ⟨.error "Dictionary.Get: the key does not exist", heap, []⟩
  | .get, _ =>
    ⟨.error ("Dictionary.Get with a var out-parameter requires live BC; " ++
      "only the one-argument returning form runs locally"), heap, []⟩
  | .containsKey, [key] =>
    match dictKey key with
    | .error error => ⟨.error error, heap, []⟩
    | .ok keyText => ⟨.boolean (entries.get? keyText).isSome, heap, []⟩
  | .containsKey, _ => ⟨.error "Dictionary.ContainsKey expects exactly one key", heap, []⟩
  | .remove, [key] =>
    match dictKey key with
    | .error error => ⟨.error error, heap, []⟩
    | .ok keyText =>
      match entries.get? keyText with
      | some (oldKey, oldValue) =>
        let heap : SharedHeap := putEntries heap a (entries.erase keyText)
        let heap : SharedHeap := heap.release a (entryBytes keyText oldKey oldValue)
        ⟨.boolean true, heap.dropValues [oldKey, oldValue], []⟩
      | none => ⟨.boolean false, heap, []⟩
  | .remove, _ => ⟨.error "Dictionary.Remove expects exactly one key", heap, []⟩
  | .count, [] =>
    if entries.size < 2 ^ 63 then ⟨.ofNat entries.size, heap, []⟩
    else ⟨.error "Dictionary.Count exceeds the supported Integer range", heap, []⟩
  | .count, _ => ⟨.error "Dictionary.Count expects no arguments", heap, []⟩
  | .keys, [] => newList heap (entries.values.map (·.1)) keyType
  | .keys, _ => ⟨.error "Dictionary.Keys expects no arguments", heap, []⟩
  | .values, [] => newList heap (entries.values.map (·.2)) valueType
  | .values, _ => ⟨.error "Dictionary.Values expects no arguments", heap, []⟩
  | .other, _ => ⟨.error s!"unsupported Dictionary method: {lower}", heap, []⟩

/-- `dispatch_dict_method` on the dictionary at an address. -/
def dictMethod (heap : SharedHeap) (a : Handle) (keyType valueType : Option String) (method : String)
    (args : List SharedValue) : Outcome :=
  let lower := toAsciiLowercase method
  let entries := SharedHeap.entries heap a
  let outcome : Outcome :=
    match declaredKey (DictMethod.ofName lower) args keyType with
    | .error error => ⟨.error error, heap, []⟩
    | .ok converted =>
      match dictRoom method entries converted with
      | .error error => ⟨.error error, heap, []⟩
      | .ok () => dictMethodOn heap a keyType valueType lower converted entries
  { outcome with heap := SharedHeap.dropValues outcome.heap args }

/-- `dict_lookup`, for `Dictionary.Get(key, var value)`. The value is the caller's, and so is the key. -/
def dictLookup (heap : SharedHeap) (a : Handle) (keyType : Option String) (key : SharedValue) :
    Except String (Option SharedValue) := do
  let key ← declaredMember key keyType
  let keyText ← dictKey key
  return ((SharedHeap.entries heap a).get? keyText).map (·.2)

/-! ## TextBuilders -/

omit [CaseMapping] in
/-- The text with each match replaced, and the number of matches. `skip` characters belong to a match. -/
def replaceMatches (old new : List Char) : (skip : Nat) → List Char → List Char × Nat
  | _, [] => ([], 0)
  | skip + 1, _ :: rest => replaceMatches old new skip rest
  | 0, c :: rest =>
    if old.isPrefixOf (c :: rest) then
      let (replaced, count) := replaceMatches old new (old.length - 1) rest
      (new ++ replaced, count + 1)
    else
      let (replaced, count) := replaceMatches old new 0 rest
      (c :: replaced, count)

omit [CaseMapping] in
/-- A bound on the growth is tried before the matches are counted. -/
def checkReplaceSize (operation text old new : String) : Except String Unit :=
  if new.utf8ByteSize ≤ old.utf8ByteSize then .ok ()
  else
    let most := text.utf8ByteSize / old.utf8ByteSize * (new.utf8ByteSize - old.utf8ByteSize)
    match checkTextSize operation (text.utf8ByteSize + most) with
    | .ok () => .ok ()
    | .error _ =>
      let growth := (replaceMatches old.toList [] 0 text.toList).2 * (new.utf8ByteSize - old.utf8ByteSize)
      checkTextSize operation (text.utf8ByteSize + growth)

omit [CaseMapping] in
/-- The place of a 1-based index in a text, up to its end. -/
def charPlace (text : List Char) (index : Int64) : Option Nat :=
  if 1 ≤ index.toInt ∧ (index.toInt - 1).toNat ≤ text.length then some (index.toInt - 1).toNat else none

omit [CaseMapping] in
def argumentText [Rendering] (heap : SharedHeap) : SharedValue → String
  | .plain (.text s) | .plain (.code s) => s
  | .plain (.char c) => String.singleton c
  | other => Rendering.renderValue heap other

inductive TextBuilderMethod where
  | append | appendLine | length | toText | clear | insert | remove | replace | other
  deriving DecidableEq

omit [CaseMapping] in
def TextBuilderMethod.ofName (lower : String) : TextBuilderMethod :=
  match lower with
  | "append" => .append
  | "appendline" => .appendLine
  | "length" => .length
  | "totext" => .toText
  | "clear" => .clear
  | "insert" => .insert
  | "remove" => .remove
  | "replace" => .replace
  | _ => .other

/-- What a TextBuilder method does to the text, or the error that ends it before its bytes are counted anew. -/
def textBuilderMethodOn [Rendering] (heap : SharedHeap) (method : String) (args : List SharedValue) (text : String) :
    Except String (Except String Value × String) := do
  let chars := text.toList
  let growBy (added : Nat) : Except String Unit := checkTextSize s!"TextBuilder.{method}" (text.utf8ByteSize + added)
  match TextBuilderMethod.ofName (toAsciiLowercase method), args with
  | .append, [value] =>
    let value := argumentText heap value
    growBy value.utf8ByteSize
    return (.ok (.boolean true), text ++ value)
  | .appendLine, [] =>
    growBy 2
    return (.ok (.boolean true), text ++ "\r\n")
  | .appendLine, [value] =>
    let value := argumentText heap value
    growBy (value.utf8ByteSize + 2)
    return (.ok (.boolean true), text ++ value ++ "\r\n")
  | .length, [] => return (.ok (.integer (Int64.ofNat chars.length)), text)
  | .toText, [] => return (.ok (.text text), text)
  | .toText, [.plain (.integer start), .plain (.integer count)] =>
    let first := (start - 1).toInt
    if 0 ≤ first ∧ 0 ≤ count.toInt ∧ first.toNat + count.toInt.toNat ≤ chars.length then
      return (.ok (.text (String.ofList ((chars.drop first.toNat).take count.toInt.toNat))), text)
    else
      return (.error (s!"TextBuilder.ToText: {count.toInt} characters from {start.toInt} are outside the " ++
        s!"{chars.length}-character text"), text)
  | .clear, [] => return (.ok .empty, "")
  | .insert, [.plain (.integer index), value] =>
    match charPlace chars index with
    | some place =>
      let value := argumentText heap value
      growBy value.utf8ByteSize
      return (.ok (.boolean true), String.ofList (chars.take place ++ value.toList ++ chars.drop place))
    | none => return (.error s!"TextBuilder.Insert: index {index.toInt} is out of range", text)
  | .remove, [.plain (.integer index), .plain (.integer count)] =>
    match charPlace chars index, charPlace chars (index + count) with
    | some start, some stop =>
      if 0 ≤ count.toInt then return (.ok (.boolean true), String.ofList (chars.take start ++ chars.drop stop))
      else
        return (.error s!"TextBuilder.Remove: {count.toInt} characters from {index.toInt} are out of range", text)
    | _, _ => return (.error s!"TextBuilder.Remove: {count.toInt} characters from {index.toInt} are out of range", text)
  | .replace, [old, new] =>
    let old := argumentText heap old
    let new := argumentText heap new
    if old.isEmpty then throw "TextBuilder.Replace: the old value cannot be empty"
    checkReplaceSize "TextBuilder.Replace" text old new
    return (.ok (.boolean true), String.ofList (replaceMatches old.toList new.toList 0 chars).1)
  | _, _ =>
    return (.error s!"TextBuilder.{method} with these arguments is not supported by the local runtime", text)

/-- A TextBuilder argument is read before the receiver is changed, since it may be the receiver. -/
def builderTexts (heap : SharedHeap) (args : List SharedValue) : List SharedValue :=
  args.map fun arg =>
    match arg with
    | .textBuilder other => .plain (.text (SharedHeap.text heap ⟨other, .text⟩))
    | other => other

/-- `dispatch_textbuilder_method` on the builder at an address: the text is changed, then counted as it is now. -/
def textBuilderMethod [Rendering] (heap : SharedHeap) (a : Handle) (method : String) (args : List SharedValue) : Outcome :=
  let outcome : Outcome :=
    match textBuilderMethodOn heap method (builderTexts heap args) (SharedHeap.text heap a) with
    | .error error => ⟨.error error, heap, []⟩
    | .ok (result, text) =>
      let changed : SharedHeap := heap.put a (.text text)
      match changed.recount s!"TextBuilder.{method}" a text.utf8ByteSize with
      | (.error error, counted) => ⟨.error error, counted, []⟩
      | (.ok (), counted) => ⟨.ofPlain result, counted, []⟩
  { outcome with heap := SharedHeap.dropValues outcome.heap args }

end Methods

end AlLanguage.Runtime
