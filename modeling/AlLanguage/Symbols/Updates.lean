import AlLanguage.Symbols.Composition
import AlLanguage.Symbols.Events

/-!
# Updates of the index

Adding a batch of entries and removing selected ones. What they do to the maps is a list of single changes.
-/

namespace AlLanguage.Symbols

open Library AlLanguage.Runtime

/-! ## Changes of the maps -/

inductive MapWrite where
  | insertEntry (seq : Nat) (entry : IndexedEntry)
  | pushName (arc : Arc)
  | pushPackage (arc : Arc)
  | pushKindId (arc : Arc)
  | pushKind (arc : Arc)
  | pushExtends (arc : Arc)
  | removeEntry (seq : Nat)
  | retainName (ptrs : List Nat)
  | retainKindId (ptrs : List Nat)
  | retainKind (ptrs : List Nat)
  | retainExtends (ptrs : List Nat)
  | retainPackage (ptrs : List Nat)

def pushUnder {κ : Type} [Ord κ] [Std.TransOrd κ] (m : OrderedMap κ (List Arc)) (key : Option κ) (arc : Arc) :
    OrderedMap κ (List Arc) :=
  match key with
  | none => m
  | some k => m.push k arc

def retainArcsNotIn {κ : Type} [Ord κ] (m : OrderedMap κ (List Arc)) (ptrs : List Nat) : OrderedMap κ (List Arc) :=
  m.retainMembers fun arc => arc.address ∉ ptrs

section Writes

variable [CaseMapping]

def MapWrite.apply (index : SymbolIndex) : MapWrite → SymbolIndex
  | insertEntry seq entry => { index with all := index.all.insert seq entry }
  | pushName arc => { index with byName := pushUnder index.byName (nameOf arc) arc }
  | pushPackage arc => { index with byPackage := pushUnder index.byPackage (packageOf arc) arc }
  | pushKindId arc => { index with byKindId := pushUnder index.byKindId (kindIdOf arc) arc }
  | pushKind arc => { index with byKind := pushUnder index.byKind (kindOf arc) arc }
  | pushExtends arc => { index with byExtends := pushUnder index.byExtends (extendsOf arc) arc }
  | removeEntry seq => { index with all := index.all.erase seq }
  | retainName ptrs => { index with byName := retainArcsNotIn index.byName ptrs }
  | retainKindId ptrs => { index with byKindId := retainArcsNotIn index.byKindId ptrs }
  | retainKind ptrs => { index with byKind := retainArcsNotIn index.byKind ptrs }
  | retainExtends ptrs => { index with byExtends := retainArcsNotIn index.byExtends ptrs }
  | retainPackage ptrs => { index with byPackage := retainArcsNotIn index.byPackage ptrs }

/-- What `add_arc` writes, in its order. -/
def addArcWrites (seq : Nat) (arc : Arc) (packageKey : String) : List MapWrite :=
  [.insertEntry seq ⟨arc, foldName arc.value.name, packageKey⟩, .pushName arc, .pushPackage arc, .pushKindId arc,
    .pushKind arc, .pushExtends arc]

/-- What a removal writes, in its order. -/
def removalWrites (toRemove : List (Nat × Arc)) : List MapWrite :=
  let ptrs := toRemove.map (·.2.address)
  toRemove.map (fun entry => .removeEntry entry.1) ++
    [.retainName ptrs, .retainKindId ptrs, .retainKind ptrs, .retainExtends ptrs, .retainPackage ptrs]

end Writes

/-! ## Sorted names -/

/-- `slice::binary_search` on a sorted slice. -/
def binarySearch (names : List String) (name : String) : Except Nat Nat :=
  let position := (names.takeWhile fun other => compare other name == .lt).length
  if names[position]? = some name then .ok position else .error position

def insertName (names : List String) (name : String) : List String :=
  match binarySearch names name with
  | .ok _ => names
  | .error position => names.insertIdx position name

def removeName (names : List String) (name : String) : List String :=
  match binarySearch names name with
  | .ok position => names.eraseIdx position
  | .error _ => names

namespace SymbolIndex

variable [CaseMapping] (index : SymbolIndex)

def updateSortedNamesAfterAdd (entries : List Arc) (updateInPlace : Bool) : SymbolIndex :=
  if !updateInPlace then { index with sortedNames := none }
  else
    { index with
      sortedNames := index.sortedNames.map fun names =>
        entries.foldl (fun names entry => insertName names (toLowercase entry.value.name)) names }

def updateSortedNamesAfterRemoval (removedNames : Option (List String)) : SymbolIndex :=
  match removedNames with
  | none => { index with sortedNames := none }
  | some removedNames =>
    { index with
      sortedNames := index.sortedNames.map fun names =>
        removedNames.foldl (fun names name => if index.byName.contains name then names else removeName names name) names }

/-! ## Compositions -/

/-- The names whose compositions an entry takes part in. -/
def affectedNames (entries : List SymbolEntry) : List String :=
  entries.flatMap fun entry => toLowercase entry.name :: (entry.extends_.map toLowercase).toList

def invalidateComposedForEntries (entries : List SymbolEntry) : SymbolIndex :=
  if index.composedCache.entries.isEmpty then index
  else
    let affected := affectedNames entries
    if affected.isEmpty then index
    else { index with composedCache := index.composedCache.filter fun key _ => key.2 ∉ affected }

def clearComposed : SymbolIndex := { index with composedCache := .empty }

/-! ## Adding -/

/-- A new shared entry. -/
def alloc (entry : SymbolEntry) : Arc × SymbolIndex :=
  (⟨index.nextAddress, entry⟩, { index with nextAddress := index.nextAddress + 1 })

def takeId : Nat × SymbolIndex := (index.nextId, { index with nextId := index.nextId + 1 })

def writeAll (writes : List MapWrite) : SymbolIndex := writes.foldl MapWrite.apply index

def addArc (arc : Arc) (packageKey : String) : SymbolIndex :=
  let (seq, index) := index.takeId
  index.writeAll (addArcWrites seq arc packageKey)

/-- The package of an entry that is added without one. -/
def keyFor (packageKey : Option String) (entry : SymbolEntry) : String :=
  packageKey.getD (packageIdentityKey "" entry.package)

def updatesSortedNames (count : Nat) : Bool := count ≤ 64 && index.sortedNames.isSome

def addNewEntries (packageKey : Option String) (entries : List SymbolEntry) : SymbolIndex × List Arc :=
  entries.foldl (fun (index, arcs) entry =>
    let (arc, index) := index.alloc entry
    (index.addArc arc (keyFor packageKey entry), arcs ++ [arc])) (index, [])

def addEntriesOwnedWithKey (entries : List SymbolEntry) (packageKey : Option String) : SymbolIndex :=
  let index := index.invalidateComposedForEntries entries
  let updateSortedNames := index.updatesSortedNames entries.length
  let (index, newArcs) := index.addNewEntries packageKey entries
  (index.updateSortedNamesAfterAdd newArcs updateSortedNames).noteMutation

def addEntries (entries : List SymbolEntry) : SymbolIndex := index.addEntriesOwnedWithKey entries none

/-! ## Removing -/

def select (chosen : IndexedEntry → Bool) : List (Nat × Arc) :=
  (index.all.entries.filter fun entry => chosen entry.2).map fun entry => (entry.1, entry.2.arc)

def removedNames (toRemove : List (Nat × Arc)) : Option (List String) :=
  if index.updatesSortedNames toRemove.length then some (toRemove.map fun entry => toLowercase entry.2.value.name)
  else none

def removeSelectedEntries (toRemove : List (Nat × Arc)) : SymbolIndex :=
  if toRemove.isEmpty then index
  else
    let removedNames := index.removedNames toRemove
    let index := index.writeAll (removalWrites toRemove)
    (index.updateSortedNamesAfterRemoval removedNames).clearComposed.noteMutation

end SymbolIndex

end AlLanguage.Symbols
