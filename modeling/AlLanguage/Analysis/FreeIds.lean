import AlLanguage.Library.OrderedMap
import AlLanguage.Symbols.Model
import Mathlib.Data.Finset.Sort
import Mathlib.Data.List.Destutter
import Mathlib.Data.List.Sort
import Mathlib.Data.String.Basic

/-!
# Allocation of object, field and enum value numbers

The decision over the objects that were collected and the ranges of the manifest. Numbers are integers: the bounds do not
overflow.
-/

namespace AlLanguage.Analysis

open Library AlLanguage.Runtime AlLanguage.Symbols

def maxCount : Nat := 100

structure IdRange where
  fromId : Int
  toId : Int
  deriving DecidableEq

namespace IdRange

def capacity (range : IdRange) : Int := max (range.toId - range.fromId + 1) 0

def contains (range : IdRange) (id : Int) : Bool := decide (range.fromId ≤ id ∧ id ≤ range.toId)

end IdRange

structure RangeUsage where
  fromId : Int
  toId : Int
  used : Int
  free : Int
  deriving DecidableEq

/-! ## Ranges -/

/-- Ranges in ascending order, without the reversed ones. -/
def normalizedRanges (ranges : List IdRange) : List IdRange :=
  (ranges.filter fun r => r.fromId ≤ r.toId).insertionSort fun a b =>
    a.fromId < b.fromId ∨ a.fromId = b.fromId ∧ a.toId ≤ b.toId

structure Scan where
  free : List Int
  emitted : Finset Int

/-- The loop over the candidates of one range. Enough numbers are returned at once. -/
def scanRange (used : Finset Int) (count : Nat) : (todo : Nat) → (candidate : Int) → Scan → Except (List Int) Scan
  | 0, _, scan => .ok scan
  | todo + 1, candidate, scan =>
    if candidate ∉ used ∧ candidate ∉ scan.emitted then
      let free := scan.free ++ [candidate]
      if free.length = count then .error free
      else scanRange used count todo (candidate + 1) { free, emitted := insert candidate scan.emitted }
    else scanRange used count todo (candidate + 1) scan

def scanRanges (used : Finset Int) (count : Nat) : List IdRange → Scan → Except (List Int) Scan
  | [], scan => .ok scan
  | range :: rest, scan =>
    match scanRange used count (range.toId + 1 - range.fromId).toNat range.fromId scan with
    | .error free => .error free
    | .ok scan => scanRanges used count rest scan

/-- The first `count` unused numbers of the ranges. -/
def freeInRanges (ranges : List IdRange) (used : Finset Int) (count : Nat) : List Int :=
  if count = 0 then []
  else
    match scanRanges used count (normalizedRanges ranges) { free := [], emitted := ∅ } with
    | .error free => free
    | .ok scan => scan.free

def rangeUsage (ranges : List IdRange) (used : Finset Int) : List RangeUsage :=
  ranges.map fun range =>
    let usedHere : Int := (used.filter fun id => range.contains id).card
    {
      fromId := range.fromId
      toId := range.toId
      used := min usedHere range.capacity
      free := max (range.capacity - usedHere) 0 }

def addCapacity (state : Int × Option Int) (range : IdRange) : Int × Option Int :=
  let start := match state.2 with
    | some stop => if range.fromId ≤ stop then stop + 1 else range.fromId
    | none => range.fromId
  if start ≤ range.toId then (state.1 + (range.toId - start + 1), some range.toId)
  else (state.1, state.2.map (max · range.toId))

def totalCapacity (ranges : List IdRange) : Int := ((normalizedRanges ranges).foldl addCapacity (0, none)).1

/-- The first `count` unused numbers from a candidate on, within the steps that the loop can take. -/
def scanUpward (used : Finset Int) (count : Nat) : (steps : Nat) → (candidate : Int) → List Int → List Int
  | 0, _, free => free
  | steps + 1, candidate, free =>
    if free.length < count then
      scanUpward used count steps (candidate + 1) (if candidate ∉ used then free ++ [candidate] else free)
    else free

/-! ## Objects and queries -/

structure ObjectRecord where
  kind : ObjectKind
  id : Int
  name : String
  base : Option String
  members : List (Int × String)
  package : String
  deriving DecidableEq

namespace ObjectRecord

def isWorkspace (object : ObjectRecord) : Bool := object.package == ""

def sourceLabel (object : ObjectRecord) : String :=
  if object.isWorkspace then object.name else object.name ++ " (" ++ object.package ++ ")"

end ObjectRecord

structure FreeIdsQuery where
  kind : Option ObjectKind
  object : Option String
  count : Nat
  includeUsed : Bool

inductive FreeIdsError where
  | nameScopedKind (kind : ObjectKind)
  | objectNotFound (object : String)
  | ambiguousObject (object kinds : String)
  | unsupportedObjectKind (object : String) (kind : ObjectKind)
  | exhausted (message : String)
  deriving DecidableEq

inductive FreeIdsMode where
  | object
  | summary
  | field
  | value
  deriving DecidableEq

structure KindUsage where
  kind : String
  used : Int
  free : Int
  nextFree : Option Int
  deriving DecidableEq

structure FreeIdsReport where
  mode : FreeIdsMode
  kind : Option String
  object : Option String
  baseObject : Option String
  ranges : List RangeUsage
  kinds : List KindUsage
  nextFree : Option Int
  free : List Int
  usedCount : Int
  freeCount : Option Int
  sources : List String
  used : List Int
  truncated : Bool
  warnings : List String
  deriving DecidableEq

def noRangesWarning : String :=
  "app.json declares no idRanges, so no ID can be checked against a range; add an idRanges entry to app.json"

def describeRanges (ranges : List IdRange) : String :=
  ", ".intercalate (ranges.map fun range => toString range.fromId ++ "-" ++ toString range.toId)

def exhausted (domain : String) (ranges : List IdRange) : FreeIdsError :=
  if ranges.isEmpty then
    .exhausted ("app.json declares no idRanges, so no " ++ domain ++
      " can be allocated; add an idRanges entry to app.json")
  else
    .exhausted ("no free " ++ domain ++ " left in the declared app.json idRanges (" ++ describeRanges ranges ++
      "); widen idRanges in app.json or reuse the number of a removed object")

/-! ## Object numbers -/

def usedIds (objects : List ObjectRecord) (kind : ObjectKind) : Finset Int :=
  ((objects.filter (·.kind = kind)).map (·.id)).toFinset

def inRanges (ranges : List IdRange) (used : Finset Int) : Finset Int :=
  used.filter fun id => ranges.any (·.contains id)

def allocateObjectIds (objects : List ObjectRecord) (ranges : List IdRange) (kind : ObjectKind) (count : Nat)
    (query : FreeIdsQuery) (warnings : List String) : Except FreeIdsError FreeIdsReport :=
  if !kind.requiresNumericId then .error (.nameScopedKind kind)
  else
    let used := usedIds objects kind
    let usage := rangeUsage ranges used
    let free := freeInRanges ranges used count
    if free.isEmpty then .error (exhausted (kind.alKeyword ++ " ID") ranges)
    else
      let inRangeUsed := inRanges ranges used
      .ok {
        mode := .object
        kind := some kind.alKeyword
        object := none
        baseObject := none
        ranges := usage
        kinds := []
        nextFree := free.head?
        free
        usedCount := inRangeUsed.card
        freeCount := some (usage.map (·.free)).sum
        sources := []
        used := if query.includeUsed then inRangeUsed.sort (· ≤ ·) else []
        truncated := decide (free.length < count)
        warnings }

/-- The used numbers of each kind, by its keyword. -/
def perKind (objects : List ObjectRecord) : OrderedMap String (Finset Int) :=
  objects.foldl
    (fun kinds object =>
      if object.kind.requiresNumericId then
        kinds.insert object.kind.alKeyword (insert object.id ((kinds.get? object.kind.alKeyword).getD ∅))
      else kinds)
    OrderedMap.empty

def kindUsage (ranges : List IdRange) (kind : String × Finset Int) : Option KindUsage :=
  let inRange : Int := (inRanges ranges kind.2).card
  if inRange = 0 then none
  else some {
    kind := kind.1
    used := inRange
    free := max (totalCapacity ranges - inRange) 0
    nextFree := (freeInRanges ranges kind.2 1).head? }

def summarize (objects : List ObjectRecord) (ranges : List IdRange) (warnings : List String) : FreeIdsReport :=
  let kinds := (perKind objects).entries.filterMap (kindUsage ranges)
  {
    mode := .summary
    kind := none
    object := none
    baseObject := none
    ranges := ranges.map fun range => { fromId := range.fromId, toId := range.toId, used := 0, free := range.capacity }
    kinds
    nextFree := none
    free := []
    usedCount := (kinds.map (·.used)).sum
    freeCount := none
    sources := []
    used := []
    truncated := false
    warnings }

/-! ## Member numbers -/

def resolveObject (objects : List ObjectRecord) (name : String) (kind : Option ObjectKind) :
    Except FreeIdsError ObjectRecord :=
  let found := (objects.filter fun object => eqIgnoreAsciiCase object.name name).filter fun object =>
    kind.all (object.kind = ·)
  match found with
  | [] => .error (.objectNotFound name)
  | [only] => .ok only
  | first :: _ =>
    match found.filter (·.isWorkspace) with
    | [only] => .ok only
    | _ =>
      let kinds := ((found.map (·.kind.alKeyword)).insertionSort (· ≤ ·)).destutter (· ≠ ·)
      if kinds.length = 1 then .ok first else .error (.ambiguousObject name (", ".intercalate kinds))

/-- The mode, the base object and whether the ranges apply. -/
def memberSpace (target : ObjectRecord) : Except FreeIdsError (FreeIdsMode × String × Bool) :=
  match target.kind with
  | .table => .ok (.field, target.name, !target.isWorkspace)
  | .tableExtension => .ok (.field, target.base.getD target.name, true)
  | .enum => .ok (.value, target.name, !target.isWorkspace)
  | .enumExtension => .ok (.value, target.base.getD target.name, true)
  | kind => .error (.unsupportedObjectKind target.name kind)

def baseKind : FreeIdsMode → ObjectKind
  | .field => .table
  | _ => .enum

def extensionKind : FreeIdsMode → ObjectKind
  | .field => .tableExtension
  | _ => .enumExtension

/-- The base object itself and every extension of it. -/
def contributes (mode : FreeIdsMode) (baseName : String) (object : ObjectRecord) : Bool :=
  (object.kind = baseKind mode && eqIgnoreAsciiCase object.name baseName) ||
    (object.kind = extensionKind mode && object.base.any (eqIgnoreAsciiCase · baseName))

/-- One object for each label. -/
def contributors (objects : List ObjectRecord) (mode : FreeIdsMode) (baseName : String) : List ObjectRecord :=
  ((objects.filter (contributes mode baseName)).insertionSort fun a b => a.sourceLabel ≤ b.sourceLabel).destutter
    fun a b => a.sourceLabel ≠ b.sourceLabel

def memberNumbers (objects : List ObjectRecord) : Finset Int :=
  (objects.flatMap fun object => object.members.map (·.1)).toFinset

/-- Field numbers start at 1, enum ordinals at 0. -/
def firstNumber (mode : FreeIdsMode) : Int := if mode = .field then 1 else 0

def allocateMembers (objects : List ObjectRecord) (ranges : List IdRange) (name : String) (query : FreeIdsQuery)
    (count : Nat) (warnings : List String) : Except FreeIdsError FreeIdsReport := do
  let target ← resolveObject objects name query.kind
  let (mode, baseName, constrained) ← memberSpace target
  let contributors := contributors objects mode baseName
  let used := memberNumbers contributors
  let domain := if mode = .field then "field number" else "enum value ordinal"
  let (free, usage, freeCount) ←
    if constrained then
      let usage := rangeUsage ranges used
      let free := freeInRanges ranges used count
      if free.isEmpty then .error (exhausted domain ranges)
      else .ok (free, usage, some (usage.map (·.free)).sum)
    else .ok (scanUpward used count (count + used.card) (firstNumber mode) [], [], none)
  let unseen := constrained && !eqIgnoreAsciiCase baseName target.name && contributors.length == 1
  return {
    mode
    kind := some target.kind.alKeyword
    object := some target.name
    baseObject := if baseName ≠ target.name then some baseName else none
    ranges := usage
    kinds := []
    nextFree := free.head?
    free
    usedCount := used.card
    freeCount
    sources := contributors.map (·.sourceLabel)
    used := if query.includeUsed then used.sort (· ≤ ·) else []
    truncated := decide (free.length < count)
    warnings := if unseen then
      warnings ++ ["base " ++ (baseKind mode).alKeyword ++ " '" ++ baseName ++
        "' is not visible in the workspace or any loaded package, so its own numbers could not be checked"]
    else warnings }

def allocate (objects : List ObjectRecord) (ranges : List IdRange) (query : FreeIdsQuery) :
    Except FreeIdsError FreeIdsReport :=
  let count := min (max query.count 1) maxCount
  let warnings := if ranges.isEmpty then [noRangesWarning] else []
  match query.object, query.kind with
  | some name, _ => allocateMembers objects ranges name query count warnings
  | none, some kind => allocateObjectIds objects ranges kind count query warnings
  | none, none => .ok (summarize objects ranges warnings)

end AlLanguage.Analysis
