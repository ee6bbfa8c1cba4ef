import AlLanguage.Library.Threads
import AlLanguage.Symbols.Updates

/-!
# Concurrent calls on the index

Any number of updates and queries on one index, one access to one map or cache at a time.
-/

namespace AlLanguage.Symbols

open Library Threads AlLanguage.Runtime

inductive Call where
  | addEntries (entries : List SymbolEntry) (packageKey : Option String)
  | remove (chosen : IndexedEntry → Bool)
  | getComposedCached (kind : ObjectKind) (name : String)
  | eventCatalog

/-- Where a call is. Each state but the last four names the access that comes next. -/
inductive Worker where
  | invalidating (entries : List SymbolEntry) (packageKey : Option String)
  /-- The affected compositions are gone. -/
  | probing (entries : List SymbolEntry) (packageKey : Option String)
  | adding (pending : List SymbolEntry) (packageKey : Option String) (writes : List MapWrite) (added : List Arc)
      (updateSortedNames : Bool)
  | sorting (added : List Arc) (updateSortedNames : Bool)
  | selecting (chosen : IndexedEntry → Bool)
  | selected (toRemove : List (Nat × Arc))
  | removing (writes : List MapWrite) (removedNames : Option (List String))
  | clearing
  | bumping
  | looking (kind : ObjectKind) (name : String)
  | composing (kind : ObjectKind) (name : String)
  | extending (kind : ObjectKind) (name : String) (named : List Arc)
  | inserting (kind : ObjectKind) (name : String) (named extending : List Arc)
  | dating
  | recalling (generation : Nat)
  | collecting (generation : Nat)
  | extracting (generation : Nat) (remaining : List Arc) (catalog : EventCatalog)
  | filing (generation : Nat) (catalog : EventCatalog)
  | composed (kind : ObjectKind) (name : String) (result : Option ComposedObject)
  | catalogued (catalog : EventCatalog)
  | done
  | idle

namespace Worker

def start : Call → Worker
  | .addEntries entries packageKey => invalidating entries packageKey
  | .remove chosen => selecting chosen
  | .getComposedCached kind name => looking kind name
  | .eventCatalog => dating

def rests : Worker → Bool
  | composed .. | catalogued .. | done | idle => true
  | _ => false

/-- An update is in progress. -/
def updates : Worker → Bool
  | invalidating .. | probing .. | adding .. | sorting .. | selecting .. | selected .. | removing .. | clearing | bumping =>
      true
  | _ => false

end Worker

namespace SymbolIndex

variable [CaseMapping] [LanguageData]

def withComposed (index : SymbolIndex) (key : ObjectKind × String) (object : ComposedObject) : SymbolIndex :=
  { index with composedCache := index.composedCache.insert key object }

def withCatalog (index : SymbolIndex) (generation : Nat) (catalog : EventCatalog) : SymbolIndex :=
  { index with eventCatalogCache := some ⟨generation, catalog⟩ }

def next (index : SymbolIndex) : Worker → SymbolIndex × Worker
  | .invalidating entries packageKey => (index.invalidateComposedForEntries entries, .probing entries packageKey)
  | .probing entries packageKey => (index, .adding entries packageKey [] [] (index.updatesSortedNames entries.length))
  | .adding pending packageKey (write :: writes) added update =>
      (write.apply index, .adding pending packageKey writes added update)
  | .adding (entry :: pending) packageKey [] added update =>
      let (arc, index) := index.alloc entry
      let (seq, index) := index.takeId
      (index, .adding pending packageKey (addArcWrites seq arc (keyFor packageKey entry)) (added ++ [arc]) update)
  | .adding [] _ [] added update => (index, .sorting added update)
  | .sorting added update => (index.updateSortedNamesAfterAdd added update, .bumping)
  | .selecting chosen => (index, .selected (index.select chosen))
  | .selected toRemove =>
      if toRemove.isEmpty then (index, .done)
      else (index, .removing (removalWrites toRemove) (index.removedNames toRemove))
  | .removing (write :: writes) removedNames => (write.apply index, .removing writes removedNames)
  | .removing [] removedNames => (index.updateSortedNamesAfterRemoval removedNames, .clearing)
  | .clearing => (index.clearComposed, .bumping)
  | .bumping => (index.noteMutation, .done)
  | .looking kind name =>
    match index.composedCache.get? (kind, toLowercase name) with
    | some cached => (index, .composed kind name (some cached))
    | none => (index, .composing kind name)
  | .composing kind name => (index, .extending kind name (index.getByName name))
  | .extending kind name named => (index, .inserting kind name named (index.getExtensionsOf name))
  | .inserting kind name named extending =>
    match composeFrom kind named extending with
    | none => (index, .composed kind name none)
    | some object =>
      match index.composedCache.get? (kind, toLowercase name) with
      | some stored => (index, .composed kind name (some stored))
      | none => (index.withComposed (kind, toLowercase name) object, .composed kind name (some object))
  | .dating => (index, .recalling index.mutation)
  | .recalling generation =>
    match index.eventCatalogCache with
    | none => (index, .collecting generation)
    | some cached =>
      if cached.generation = generation then (index, .catalogued cached.catalog) else (index, .collecting generation)
  | .collecting generation => (index, .extracting generation index.allEntries {})
  | .extracting generation (object :: remaining) catalog =>
      (index, .extracting generation remaining (addEvents index catalog object))
  | .extracting generation [] catalog => (index, .filing generation catalog.sorted)
  | .filing generation catalog => (index.withCatalog generation catalog, .catalogued catalog)
  | .composed kind name result => (index, .composed kind name result)
  | .catalogued catalog => (index, .catalogued catalog)
  | .done => (index, .done)
  | .idle => (index, .idle)

end SymbolIndex

/-- Nothing happens around the calls. -/
def indexCalls [CaseMapping] [LanguageData] : System SymbolIndex Worker Call Empty where
  next := SymbolIndex.next
  rests := Worker.rests
  start := Worker.start
  environment index _ := index

def freshIndex : World SymbolIndex Worker := ⟨{}, fun _ => .idle⟩

end AlLanguage.Symbols
