import AlLanguage.Library.OrderedMap
import AlLanguage.Source.Positions

/-!
# The document store

The open documents and their cached parse trees. Each function that takes several locks is the sequence of its
steps under one lock. The locks that keep two requests from parsing one document at a time are left out.
-/

namespace AlLanguage.Source

open Library

abbrev Uri := String

structure TextRange where
  startLine : UInt32
  startCharacter : UInt32
  endLine : UInt32
  endCharacter : UInt32
deriving DecidableEq

/-- Without a range the text replaces the document. -/
structure TextChange where
  range : Option TextRange
  text : String
deriving DecidableEq

inductive DocumentMutationError where
  | tooLarge (uri : Uri) (bytes cap : Nat)
  | notOpen (uri : Uri)
  | rangeOutOfBounds (uri : Uri) (range : TextRange) (documentLines : Nat)
  | backwardRange (uri : Uri) (start stop : Nat)
  | staleClientVersion (uri : Uri) (received current : Int32)
  | sizeOverflow (uri : Uri)
  | renameSourceNotOpen (sourceUri : Uri)
  | renameDestinationOpen (sourceUri destinationUri : Uri)
deriving DecidableEq

structure Document where
  text : Rope
  textCache : String
  /-- Counts the edits and keys the tree cache. -/
  version : Int32
  /-- What the client last sent. -/
  clientVersion : Int32
deriving DecidableEq

/-- `lastAccess` is a stamp; the lowest are evicted first. -/
structure CachedTree (τ : Type) where
  version : Int32
  tree : τ
  lastAccess : Nat

/-- A cap of zero is none. -/
structure DocumentStore (τ : Type) where
  docs : OrderedMap Uri Document
  trees : OrderedMap Uri (CachedTree τ)
  treeAccessCounter : Nat
  maxCachedTrees : Nat
  maxDocBytes : Nat

def DEFAULT_MAX_CACHED_TREES : Nat := 256

def byteLen (text : String) : Nat := Rope.lenBytes text.toList

def Document.new (text : String) (clientVersion : Int32) : Document := ⟨text.toList, text, 0, clientVersion⟩

namespace DocumentStore

variable {τ : Type}

def new : DocumentStore τ := ⟨.empty, .empty, 0, DEFAULT_MAX_CACHED_TREES, 0⟩

def docCap (store : DocumentStore τ) : Option Nat := if store.maxDocBytes = 0 then none else some store.maxDocBytes

def validateSize (store : DocumentStore τ) (uri : Uri) (len : Nat) : Except DocumentMutationError Unit :=
  match store.docCap with
  | some cap => if cap < len then .error (.tooLarge uri len cap) else .ok ()
  | none => .ok ()

/-! ## Opening and closing -/

def putDoc (store : DocumentStore τ) (uri : Uri) (document : Document) : DocumentStore τ :=
  { store with docs := store.docs.insert uri document }

def removeDoc (store : DocumentStore τ) (uri : Uri) : DocumentStore τ := { store with docs := store.docs.erase uri }

def removeTree (store : DocumentStore τ) (uri : Uri) : DocumentStore τ := { store with trees := store.trees.erase uri }

def openWithClientVersion (store : DocumentStore τ) (uri : Uri) (text : String) (clientVersion : Int32) :
    Except DocumentMutationError Unit × DocumentStore τ :=
  match store.validateSize uri (byteLen text) with
  | .error e => (.error e, store)
  | .ok () => (.ok (), store.putDoc uri (.new text clientVersion))

def openDoc (store : DocumentStore τ) (uri : Uri) (text : String) : Except DocumentMutationError Unit × DocumentStore τ :=
  store.openWithClientVersion uri text 0

/-- What `replace_or_open` does under the lock of the entry. -/
def replaceOrInsert (store : DocumentStore τ) (uri : Uri) (text : String) : Int32 × DocumentStore τ :=
  match store.docs.get? uri with
  | some document =>
      let version := document.version + 1
      (version, store.putDoc uri { document with text := text.toList, textCache := text, version })
  | none => (0, store.putDoc uri (.new text 0))

def replaceOrOpen (store : DocumentStore τ) (uri : Uri) (text : String) :
    Except DocumentMutationError (String × Int32) × DocumentStore τ :=
  match store.validateSize uri (byteLen text) with
  | .error e => (.error e, store)
  | .ok () =>
      let (version, store) := store.replaceOrInsert uri text
      (.ok (text, version), store.removeTree uri)

def close (store : DocumentStore τ) (uri : Uri) : Bool × DocumentStore τ :=
  (store.docs.contains uri, (store.removeDoc uri).removeTree uri)

/-- The tree of a renamed document goes along. -/
def moveTree (store : DocumentStore τ) (oldUri newUri : Uri) : DocumentStore τ :=
  match store.trees.get? oldUri with
  | some tree => { store with trees := (store.trees.erase oldUri).insert newUri tree }
  | none => store

/-- Without other requests the destination is still free when the document gets there. -/
def rename (store : DocumentStore τ) (oldUri newUri : Uri) : Except DocumentMutationError Unit × DocumentStore τ :=
  if oldUri = newUri then
    (if store.docs.contains oldUri then .ok () else .error (.renameSourceNotOpen oldUri), store)
  else if store.docs.contains newUri then (.error (.renameDestinationOpen oldUri newUri), store)
  else
    match store.docs.get? oldUri with
    | none => (.error (.renameSourceNotOpen oldUri), store)
    | some document => (.ok (), ((store.removeDoc oldUri).putDoc newUri document).moveTree oldUri newUri)

/-! ## Changes -/

/-- One change of a batch on the candidate text. -/
def applyChange (store : DocumentStore τ) (uri : Uri) (candidate : Rope) (change : TextChange) :
    Except DocumentMutationError Rope :=
  match change.range with
  | some range =>
    match positionToOffset candidate range.startLine range.startCharacter,
        positionToOffset candidate range.endLine range.endCharacter with
    | some start, some stop =>
        if stop < start then .error (.backwardRange uri start stop)
        else
          let removedBytes := (candidate.slice start stop).lenBytes
          let nextLen := candidate.lenBytes - removedBytes + byteLen change.text
          if 2 ^ 64 ≤ nextLen then .error (.sizeOverflow uri)
          else
            match store.validateSize uri nextLen with
            | .error e => .error e
            | .ok () => .ok ((candidate.remove start stop).insert start change.text)
    | _, _ => .error (.rangeOutOfBounds uri range candidate.lenLines)
  | none =>
    match store.validateSize uri (byteLen change.text) with
    | .error e => .error e
    | .ok () => .ok change.text.toList

def isStale (document : Document) (clientVersion : Option Int32) : Option Int32 :=
  match clientVersion with
  | some received => if received ≤ document.clientVersion then some received else none
  | none => none

def applyChangesInner (store : DocumentStore τ) (uri : Uri) (changes : List TextChange) (clientVersion : Option Int32) :
    Except DocumentMutationError (String × Int32) × DocumentStore τ :=
  match store.docs.get? uri with
  | none => (.error (.notOpen uri), store)
  | some document =>
    match isStale document clientVersion with
    | some received => (.error (.staleClientVersion uri received document.clientVersion), store)
    | none =>
      match changes.foldlM (store.applyChange uri) document.text with
      | .error e => (.error e, store)
      | .ok candidate =>
          let text := String.ofList candidate
          let version := document.version + 1
          let edited := ⟨candidate, text, version, clientVersion.getD document.clientVersion⟩
          (.ok (text, version), (store.putDoc uri edited).removeTree uri)

def applyChanges (store : DocumentStore τ) (uri : Uri) (changes : List TextChange) :
    Except DocumentMutationError Unit × DocumentStore τ :=
  match store.applyChangesInner uri changes none with
  | (.error e, store) => (.error e, store)
  | (.ok _, store) => (.ok (), store)

end DocumentStore

end AlLanguage.Source
