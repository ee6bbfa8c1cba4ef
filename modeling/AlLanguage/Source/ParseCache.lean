import AlLanguage.Library.Threads
import AlLanguage.Source.Documents

/-!
# The parse-tree cache

Any number of requests on one document store, step by step. The texts of the document last put under a URI are
remembered by version, so that a tree can be compared with the text its version had.
-/

namespace AlLanguage.Source

open Library Threads

variable {τ : Type}

namespace DocumentStore

/-! ## The tree cache -/

/-- The trees that an eviction removes, those not read for longest first. -/
def victims (store : DocumentStore τ) : List Uri :=
  let len := store.trees.entries.length
  if store.maxCachedTrees = 0 ∨ len ≤ store.maxCachedTrees then []
  else
    let stamps := store.trees.entries.map fun entry => (entry.2.lastAccess, entry.1)
    ((stamps.insertionSort fun a b => a.1 ≤ b.1).take (len - store.maxCachedTrees)).map (·.2)

def nextTreeStamp (store : DocumentStore τ) : Nat × DocumentStore τ :=
  (store.treeAccessCounter, { store with treeAccessCounter := store.treeAccessCounter + 1 })

def putTree (store : DocumentStore τ) (uri : Uri) (tree : CachedTree τ) : DocumentStore τ :=
  { store with trees := store.trees.insert uri tree }

end DocumentStore

/-! ## Requests -/

/-- The texts of a document by version. -/
abbrev History := Int32 → Option String

def History.begun (text : String) : History := fun version => if version = 0 then some text else none

def History.extended (history : History) (version : Int32) (text : String) : History := Function.update history version text

/-- The store, with the history of the document last put under each URI. -/
structure Shared (τ : Type) where
  store : DocumentStore τ
  life : Uri → History

inductive Request where
  | openDoc (uri : Uri) (text : String) (clientVersion : Int32)
  | replaceOrOpen (uri : Uri) (text : String)
  | applyChanges (uri : Uri) (changes : List TextChange) (clientVersion : Option Int32)
  | rename (oldUri newUri : Uri)
  | close (uri : Uri)
  | getOrParse (uri : Uri)

/-- Where a request is. Each state but the last three names the step that comes next. -/
inductive Thread (τ : Type) where
  | opening (uri : Uri) (text : String) (clientVersion : Int32)
  | replacing (uri : Uri) (text : String)
  | applying (uri : Uri) (changes : List TextChange) (clientVersion : Option Int32)
  | checking (oldUri newUri : Uri)
  /-- The destination was free. -/
  | leaving (oldUri newUri : Uri)
  /-- The document is in neither place. -/
  | carrying (oldUri newUri : Uri) (document : Document) (history : History)
  /-- The document is at the destination, its tree is not. -/
  | arrived (oldUri newUri : Uri)
  | moving (newUri : Uri) (tree : CachedTree τ)
  | closing (uri : Uri)
  | removing (uri : Uri)
  | reading (uri : Uri)
  | probing (uri : Uri) (text : String) (version : Int32) (again : Bool)
  /-- Stamped, with the live version read. -/
  | comparing (uri : Uri) (text : String) (version live : Int32) (stamp : Nat) (again : Bool)
  /-- The lock for parsing is held. -/
  | rereading (uri : Uri)
  | parsing (uri : Uri) (text : String) (version : Int32)
  | scanning (text : String) (tree : τ)
  | evicting (text : String) (tree : τ) (victims : List Uri)
  | returned (text : String) (tree : τ)
  | failed
  | idle

namespace Thread

def start : Request → Thread τ
  | .openDoc uri text clientVersion => opening uri text clientVersion
  | .replaceOrOpen uri text => replacing uri text
  | .applyChanges uri changes clientVersion => applying uri changes clientVersion
  | .rename oldUri newUri => checking oldUri newUri
  | .close uri => closing uri
  | .getOrParse uri => reading uri

def rests : Thread τ → Bool
  | returned .. | failed | idle => true
  | _ => false

end Thread

namespace Shared

def withStore (shared : Shared τ) (store : DocumentStore τ) : Shared τ := ⟨store, shared.life⟩

@[simp] theorem withStore_life (shared : Shared τ) (store : DocumentStore τ) :
    (shared.withStore store).life = shared.life := rfl

@[simp] theorem withStore_store (shared : Shared τ) (store : DocumentStore τ) :
    (shared.withStore store).store = store := rfl

def putDoc (shared : Shared τ) (uri : Uri) (document : Document) (history : History) : Shared τ :=
  ⟨shared.store.putDoc uri document, Function.update shared.life uri history⟩

@[simp] theorem putDoc_life_self (shared : Shared τ) (uri : Uri) (document : Document) (history : History) :
    (shared.putDoc uri document history).life uri = history := Function.update_self ..

theorem putDoc_life_other (shared : Shared τ) {uri other : Uri} (apart : other ≠ uri) (document : Document)
    (history : History) : (shared.putDoc uri document history).life other = shared.life other :=
  Function.update_of_ne apart ..

/-- The history of a document that was edited in place. -/
def record (shared : Shared τ) (store : DocumentStore τ) (uri : Uri) (version : Int32) (text : String) : Shared τ :=
  ⟨store, Function.update shared.life uri ((shared.life uri).extended version text)⟩

/-- What follows when the cache has no tree for the text that was read. -/
def missed (uri : Uri) (text : String) (version : Int32) (again : Bool) : Thread τ :=
  if again then .parsing uri text version else .rereading uri

/-- One step of a request under one lock. -/
def next (parse : String → τ) (shared : Shared τ) : Thread τ → Shared τ × Thread τ
  | .opening uri text clientVersion =>
    match shared.store.openWithClientVersion uri text clientVersion with
    | (.error _, _) => (shared, .failed)
    | (.ok (), _) => (shared.putDoc uri (.new text clientVersion) (.begun text), .idle)
  | .replacing uri text =>
    match shared.store.validateSize uri (byteLen text) with
    | .error _ => (shared, .failed)
    | .ok () =>
      match shared.store.docs.get? uri, shared.store.replaceOrInsert uri text with
      | some _, (version, store) => (shared.record store uri version text, .removing uri)
      | none, _ => (shared.putDoc uri (.new text 0) (.begun text), .removing uri)
  | .applying uri changes clientVersion =>
    match shared.store.applyChangesInner uri changes clientVersion with
    | (.error _, _) => (shared, .failed)
    | (.ok (text, version), store) => (shared.record store uri version text, .idle)
  | .checking oldUri newUri =>
      if oldUri = newUri ∨ shared.store.docs.contains newUri then (shared, .idle) else (shared, .leaving oldUri newUri)
  | .leaving oldUri newUri =>
    match shared.store.docs.get? oldUri with
    | none => (shared, .failed)
    | some document =>
        (shared.withStore (shared.store.removeDoc oldUri), .carrying oldUri newUri document (shared.life oldUri))
  | .carrying oldUri newUri document history =>
    match shared.store.docs.get? newUri with
    | none => (shared.putDoc newUri document history, .arrived oldUri newUri)
    | some _ => (shared.putDoc oldUri document history, .failed)
  | .arrived oldUri newUri =>
    match shared.store.trees.get? oldUri with
    | none => (shared, .idle)
    | some tree => (shared.withStore (shared.store.removeTree oldUri), .moving newUri tree)
  | .moving newUri tree => (shared.withStore (shared.store.putTree newUri tree), .idle)
  | .closing uri => (shared.withStore (shared.store.removeDoc uri), .removing uri)
  | .removing uri => (shared.withStore (shared.store.removeTree uri), .idle)
  | .reading uri =>
    match shared.store.docs.get? uri with
    | none => (shared, .failed)
    | some document => (shared, .probing uri document.textCache document.version false)
  | .rereading uri =>
    match shared.store.docs.get? uri with
    | none => (shared, .failed)
    | some document => (shared, .probing uri document.textCache document.version true)
  | .probing uri text version again =>
    match shared.store.nextTreeStamp with
    | (stamp, store) =>
      match store.docs.get? uri with
      | none => (shared.withStore store, missed uri text version again)
      | some document => (shared.withStore store, .comparing uri text version document.version stamp again)
  | .comparing uri text version live stamp again =>
    match shared.store.trees.get? uri with
    | none => (shared, missed uri text version again)
    | some cached =>
        if cached.version = live ∧ cached.version = version then
          (shared.withStore (shared.store.putTree uri { cached with lastAccess := stamp }), .returned text cached.tree)
        else (shared, missed uri text version again)
  | .parsing uri text version =>
    match shared.store.nextTreeStamp with
    | (stamp, store) => (shared.withStore (store.putTree uri ⟨version, parse text, stamp⟩), .scanning text (parse text))
  | .scanning text tree => (shared, .evicting text tree shared.store.victims)
  | .evicting text tree [] => (shared, .returned text tree)
  | .evicting text tree (uri :: rest) => (shared.withStore (shared.store.removeTree uri), .evicting text tree rest)
  | .returned text tree => (shared, .returned text tree)
  | .failed => (shared, .failed)
  | .idle => (shared, .idle)

end Shared

/-- The caps are configured at any time. -/
inductive Setting where
  | maxCachedTrees (cap : Nat)
  | maxDocBytes (cap : Nat)

def Shared.configure (shared : Shared τ) : Setting → Shared τ
  | .maxCachedTrees cap => shared.withStore { shared.store with maxCachedTrees := cap }
  | .maxDocBytes cap => shared.withStore { shared.store with maxDocBytes := cap }

def documents (parse : String → τ) : System (Shared τ) (Thread τ) Request Setting where
  next := Shared.next parse
  rests := Thread.rests
  start := Thread.start
  environment := Shared.configure

/-- A store that no request has used. -/
def freshWorld : World (Shared τ) (Thread τ) := ⟨⟨.new, fun _ _ => none⟩, fun _ => .idle⟩

/-! ## What is to hold -/

/-- The tree is the parse of the text that its version had. -/
def Covers (parse : String → τ) (history : History) (tree : CachedTree τ) : Prop :=
  ∃ text, history tree.version = some text ∧ tree.tree = parse text

/-- The history ends with the document. -/
structure Describes (history : History) (document : Document) : Prop where
  current : history document.version = some document.textCache
  bounded : ∀ version text, history version = some text → version ≤ document.version

def Within (history history' : History) : Prop := ∀ version text, history version = some text → history' version = some text

structure Inv (parse : String → τ) (shared : Shared τ) : Prop where
  described : ∀ uri document, shared.store.docs.get? uri = some document → Describes (shared.life uri) document
  covered : ∀ uri tree, shared.store.trees.get? uri = some tree → Covers parse (shared.life uri) tree

/-- What each request knows of the shared state. -/
def Holds (parse : String → τ) (shared : Shared τ) : Thread τ → Prop
  | .leaving oldUri newUri => oldUri ≠ newUri
  | .carrying oldUri newUri document history =>
      oldUri ≠ newUri ∧ shared.store.docs.get? oldUri = none ∧ Describes history document ∧
        Within (shared.life oldUri) history
  | .arrived oldUri newUri => shared.store.docs.get? oldUri = none ∧ Within (shared.life oldUri) (shared.life newUri)
  | .moving newUri tree => Covers parse (shared.life newUri) tree
  | .probing uri text version _ | .comparing uri text version _ _ _ | .parsing uri text version =>
      shared.life uri version = some text
  | .scanning text tree | .evicting text tree _ | .returned text tree => tree = parse text
  | _ => True

/-! ## The condition -/

/-- A call that has read this text of the document under `uri`. -/
def Thread.Reads (uri : Uri) (version : Int32) (text : String) : Thread τ → Prop
  | .probing uri' text' version' _ | .comparing uri' text' version' _ _ _ | .parsing uri' text' version' =>
      uri' = uri ∧ text' = text ∧ version' = version
  | _ => False

/-- A rename that has a tree to take from `uri` or to bring there. -/
def Thread.Moves (uri : Uri) : Thread τ → Prop
  | .carrying oldUri _ _ _ => oldUri = uri
  | .arrived oldUri newUri => oldUri = uri ∨ newUri = uri
  | .moving newUri _ => newUri = uri
  | _ => False

/-- Nothing is left of another document that was under `uri`: no tree, no call that has read it, no rename. -/
structure Vacant (parse : String → τ) (world : World (Shared τ) (Thread τ)) (t : Nat) (uri : Uri) (history : History) :
    Prop where
  tree : ∀ tree, world.shared.store.trees.get? uri = some tree → Covers parse history tree
  reads : ∀ other version text, other ≠ t → (world.threads other).Reads uri version text → history version = some text
  moves : ∀ other, other ≠ t → ¬(world.threads other).Moves uri

def Countable (document : Document) : Prop := document.version < Int32.maxValue

/-- A document is put only where nothing is left of another one, and the count of its edits does not overflow. -/
def Clean (parse : String → τ) (world : World (Shared τ) (Thread τ)) : Action Request Setting → Prop
  | .step t =>
    match world.threads t with
    | .opening uri text _ => Vacant parse world t uri (.begun text)
    | .replacing uri text =>
      match world.shared.store.docs.get? uri with
      | some document => Countable document
      | none => Vacant parse world t uri (.begun text)
    | .applying uri _ _ => ∀ document, world.shared.store.docs.get? uri = some document → Countable document
    | .carrying oldUri newUri _ history =>
        Vacant parse world t (if world.shared.store.docs.contains newUri then oldUri else newUri) history
    | _ => True
  | _ => True

/-! ## Steps that keep the histories -/

section Steps

variable {parse : String → τ} {shared shared' : Shared τ} {uri : Uri} {document : Document} {history : History}

theorem holds_kept (life : shared'.life = shared.life)
    (absent : ∀ uri, shared.store.docs.get? uri = none → shared'.store.docs.get? uri = none) {thread : Thread τ}
    (holds : Holds parse shared thread) : Holds parse shared' thread := by
  cases thread with
  | carrying oldUri newUri document history =>
      obtain ⟨apart, gone, described, within⟩ := holds
      refine ⟨apart, absent _ gone, described, ?_⟩
      rw [life]
      exact within
  | arrived oldUri newUri =>
      obtain ⟨gone, within⟩ := holds
      refine ⟨absent _ gone, ?_⟩
      rw [life]
      exact within
  | moving | probing | comparing | parsing =>
      simp only [Holds, life] at holds ⊢
      exact holds
  | leaving | scanning | evicting | returned => exact holds
  | _ => trivial

theorem within_extended {version : Int32} {text : String} (fresh : ∀ old, history version ≠ some old) :
    Within history (history.extended version text) := by
  intro other old found
  rw [History.extended, Function.update_of_ne]
  · exact found
  · rintro rfl
    exact fresh old found

theorem not_le_succ {version : Int32} (below : version < Int32.maxValue) : version ≤ version + 1 ∧ ¬version + 1 ≤ version := by
  have bound : version.toInt < 2147483647 := by
    rw [Int32.lt_iff_toInt_lt, Int32.toInt_maxValue] at below
    exact below
  have least := Int32.le_toInt version
  have sum : (version + 1).toInt = version.toInt + 1 := by
    rw [Int32.toInt_add, show (1 : Int32).toInt = 1 from rfl]
    exact Int.bmod_eq_of_le (by omega) (by omega)
  rw [Int32.le_iff_toInt_le, Int32.le_iff_toInt_le, sum]
  omega

theorem Describes.extended (described : Describes history document) (countable : Countable document) (text : String)
    (document' : Document) (version : document'.version = document.version + 1) (cache : document'.textCache = text) :
    Describes (history.extended (document.version + 1) text) document' ∧
      Within history (history.extended (document.version + 1) text) := by
  obtain ⟨above, next⟩ := not_le_succ countable
  refine ⟨⟨?_, ?_⟩, within_extended fun old found => next (described.bounded _ _ found)⟩
  · rw [version, cache, History.extended, Function.update_self]
  · intro other old found
    rw [version]
    by_cases same : other = document.version + 1
    · rw [same]
      exact Int32.le_refl _
    · rw [History.extended, Function.update_of_ne same] at found
      exact Int32.le_trans (described.bounded _ _ found) above

theorem Covers.within {history history' : History} {tree : CachedTree τ} (covers : Covers parse history tree)
    (within : Within history history') : Covers parse history' tree := by
  obtain ⟨text, found, parsed⟩ := covers
  exact ⟨text, within _ _ found, parsed⟩

/-- Steps that put no document and add no tree. -/
theorem Inv.kept (inv : Inv parse shared) (life : shared'.life = shared.life)
    (docs : ∀ uri document, shared'.store.docs.get? uri = some document → shared.store.docs.get? uri = some document)
    (trees : ∀ uri tree, shared'.store.trees.get? uri = some tree → Covers parse (shared.life uri) tree) :
    Inv parse shared' where
  described uri document opened := by
    rw [life]
    exact inv.described uri document (docs uri document opened)
  covered uri tree cached := by
    rw [life]
    exact trees uri tree cached

/-- What an edit of the document under `uri` does. -/
structure Edits (shared shared' : Shared τ) (uri : Uri) (document document' : Document) (text : String) : Prop where
  opened : shared.store.docs.get? uri = some document
  docs : shared'.store.docs = shared.store.docs.insert uri document'
  trees : ∀ other tree, shared'.store.trees.get? other = some tree → shared.store.trees.get? other = some tree
  life : shared'.life = Function.update shared.life uri ((shared.life uri).extended (document.version + 1) text)
  version : document'.version = document.version + 1
  cache : document'.textCache = text

variable {document' : Document} {text : String}

theorem Edits.within (edits : Edits shared shared' uri document document' text) (inv : Inv parse shared)
    (countable : Countable document) (other : Uri) : Within (shared.life other) (shared'.life other) := by
  rw [edits.life]
  by_cases same : other = uri
  · subst same
    rw [Function.update_self]
    exact ((inv.described _ _ edits.opened).extended countable text document' edits.version edits.cache).2
  · rw [Function.update_of_ne same]
    exact fun _ _ found => found

theorem Edits.inv (edits : Edits shared shared' uri document document' text) (inv : Inv parse shared)
    (countable : Countable document) : Inv parse shared' where
  described other stored opened := by
    rw [edits.docs, OrderedMap.get?_insert] at opened
    rw [edits.life]
    split at opened
    next same =>
      obtain rfl : uri = other := Std.LawfulEqOrd.compare_eq_iff_eq.mp same
      cases opened
      rw [Function.update_self]
      exact ((inv.described _ _ edits.opened).extended countable text document' edits.version edits.cache).1
    next apart =>
      rw [Function.update_of_ne]
      · exact inv.described other stored opened
      · rintro rfl
        exact apart Std.ReflCmp.compare_self
  covered other tree cached := (inv.covered other tree (edits.trees other tree cached)).within (edits.within inv countable other)

theorem Edits.holds (edits : Edits shared shared' uri document document' text) (inv : Inv parse shared)
    (countable : Countable document) {thread : Thread τ} (holds : Holds parse shared thread) : Holds parse shared' thread := by
  have within := edits.within inv countable
  have absent {other : Uri} (gone : shared.store.docs.get? other = none) :
      shared'.store.docs.get? other = none ∧ shared'.life other = shared.life other := by
    have apart : other ≠ uri := by
      rintro rfl
      rw [edits.opened] at gone
      cases gone
    rw [edits.docs, edits.life, OrderedMap.get?_insert, if_neg (by simpa using apart.symm), Function.update_of_ne apart]
    exact ⟨gone, rfl⟩
  cases thread with
  | carrying oldUri newUri document history =>
      obtain ⟨apart, gone, described, inside⟩ := holds
      refine ⟨apart, (absent gone).1, described, ?_⟩
      rw [(absent gone).2]
      exact inside
  | arrived oldUri newUri =>
      obtain ⟨gone, inside⟩ := holds
      refine ⟨(absent gone).1, ?_⟩
      rw [(absent gone).2]
      exact fun version text found => within newUri version text (inside version text found)
  | moving newUri tree => exact Covers.within holds (within newUri)
  | probing uri text version | comparing uri text version | parsing uri text version => exact within uri version text holds
  | leaving | scanning | evicting | returned => exact holds
  | _ => trivial

variable {world : World (Shared τ) (Thread τ)} {t : Nat}

theorem Vacant.inv (vacant : Vacant parse world t uri history) (inv : Inv parse world.shared)
    (described : Describes history document) : Inv parse (world.shared.putDoc uri document history) where
  described other stored opened := by
    rw [Shared.putDoc, DocumentStore.putDoc, OrderedMap.get?_insert] at opened
    split at opened
    next same =>
      obtain rfl : uri = other := Std.LawfulEqOrd.compare_eq_iff_eq.mp same
      cases opened
      rw [Shared.putDoc_life_self]
      exact described
    next apart =>
      rw [Shared.putDoc_life_other]
      · exact inv.described other stored opened
      · rintro rfl
        exact apart Std.ReflCmp.compare_self
  covered other tree cached := by
    by_cases same : other = uri
    · subst same
      rw [Shared.putDoc_life_self]
      exact vacant.tree tree cached
    · rw [Shared.putDoc_life_other _ same]
      exact inv.covered other tree cached

theorem Vacant.holds (vacant : Vacant parse world t uri history) {other : Nat} (apart : other ≠ t)
    (holds : Holds parse world.shared (world.threads other)) :
    Holds parse (world.shared.putDoc uri document history) (world.threads other) := by
  have still := vacant.moves other apart
  have reads := fun version text => vacant.reads other version text apart
  have kept {old : Uri} (elsewhere : old ≠ uri) (gone : world.shared.store.docs.get? old = none) :
      (world.shared.putDoc uri document history).store.docs.get? old = none := by
    rw [Shared.putDoc, DocumentStore.putDoc, OrderedMap.get?_insert, if_neg (by simpa using elsewhere.symm)]
    exact gone
  have same {old : Uri} (elsewhere : old ≠ uri) :
      (world.shared.putDoc uri document history).life old = world.shared.life old :=
    world.shared.putDoc_life_other elsewhere ..
  have read {uri' : Uri} {version : Int32} {text : String} (found : world.shared.life uri' version = some text)
      (new : uri' = uri → history version = some text) :
      (world.shared.putDoc uri document history).life uri' version = some text := by
    by_cases here : uri' = uri
    · rw [here, Shared.putDoc_life_self]
      exact new here
    · rw [same here]
      exact found
  cases state : world.threads other with
  | carrying oldUri newUri document' history' =>
      rw [state] at holds still
      obtain ⟨apart, gone, described, within⟩ := holds
      refine ⟨apart, kept still gone, described, ?_⟩
      rw [same still]
      exact within
  | arrived oldUri newUri =>
      rw [state] at holds still
      obtain ⟨fromElsewhere, toElsewhere⟩ := not_or.mp still
      refine ⟨kept fromElsewhere holds.1, ?_⟩
      rw [same fromElsewhere, same toElsewhere]
      exact holds.2
  | moving newUri tree =>
      rw [state] at holds still
      rw [Holds, same still]
      exact holds
  | probing uri' text version again =>
      rw [state] at holds reads
      exact read holds fun here => reads version text ⟨here, rfl, rfl⟩
  | comparing uri' text version live stamp again =>
      rw [state] at holds reads
      exact read holds fun here => reads version text ⟨here, rfl, rfl⟩
  | parsing uri' text version =>
      rw [state] at holds reads
      exact read holds fun here => reads version text ⟨here, rfl, rfl⟩
  | leaving | scanning | evicting | returned =>
      rw [state] at holds
      exact holds
  | _ => trivial

/-! ## Every step -/

/-- The step of thread `t` that ends in `after` keeps what is to hold. -/
def Keeps (parse : String → τ) (world : World (Shared τ) (Thread τ)) (t : Nat) (after : Shared τ × Thread τ) : Prop :=
  Inv parse after.1 ∧ Holds parse after.1 after.2 ∧ ∀ other, other ≠ t → Holds parse after.1 (world.threads other)

variable {state : Thread τ}

theorem keeps_of_trees (sound : System.Sound (Inv parse) (Holds parse) world) (life : shared'.life = world.shared.life)
    (docs : shared'.store.docs = world.shared.store.docs)
    (trees : ∀ uri tree, shared'.store.trees.get? uri = some tree → Covers parse (world.shared.life uri) tree)
    (own : Holds parse shared' state) : Keeps parse world t (shared', state) := by
  refine ⟨sound.1.kept life ?_ trees, own, ?_⟩
  · intro uri document opened
    rw [← docs]
    exact opened
  · intro other _
    apply holds_kept life _ (sound.2 other)
    intro uri gone
    rw [docs]
    exact gone

theorem keeps_of_unchanged (sound : System.Sound (Inv parse) (Holds parse) world) (own : Holds parse world.shared state) :
    Keeps parse world t (world.shared, state) := keeps_of_trees sound rfl rfl sound.1.covered own

theorem get?_erase_some {κ ν : Type} [Ord κ] [Std.TransOrd κ] {entries : OrderedMap κ ν} {key other : κ} {value : ν}
    (found : (entries.erase key).get? other = some value) : entries.get? other = some value := by
  rw [OrderedMap.get?_erase] at found
  split at found
  · cases found
  · exact found

theorem keeps_of_putTree (sound : System.Sound (Inv parse) (Holds parse) world) {store : DocumentStore τ} {tree : CachedTree τ}
    (docs : store.docs = world.shared.store.docs) (trees : store.trees = world.shared.store.trees.insert uri tree)
    (covers : Covers parse (world.shared.life uri) tree) (own : Holds parse (world.shared.withStore store) state) :
    Keeps parse world t (world.shared.withStore store, state) := by
  apply keeps_of_trees sound (Shared.withStore_life ..) docs _ own
  intro other found cached
  rw [Shared.withStore_store, trees, OrderedMap.get?_insert] at cached
  split at cached
  next same =>
    obtain rfl : uri = other := Std.LawfulEqOrd.compare_eq_iff_eq.mp same
    cases cached
    exact covers
  next => exact sound.1.covered other found cached

theorem keeps_of_removeTree (sound : System.Sound (Inv parse) (Holds parse) world) (uri : Uri)
    (own : Holds parse (world.shared.withStore (world.shared.store.removeTree uri)) state) :
    Keeps parse world t (world.shared.withStore (world.shared.store.removeTree uri), state) := by
  apply keeps_of_trees sound (Shared.withStore_life ..) (by rfl) _ own
  intro other tree cached
  exact sound.1.covered other tree (get?_erase_some cached)

theorem keeps_of_removeDoc (sound : System.Sound (Inv parse) (Holds parse) world) (uri : Uri)
    (own : Holds parse (world.shared.withStore (world.shared.store.removeDoc uri)) state) :
    Keeps parse world t (world.shared.withStore (world.shared.store.removeDoc uri), state) := by
  refine ⟨sound.1.kept (Shared.withStore_life ..) ?_ sound.1.covered, own, ?_⟩
  · intro other document opened
    exact get?_erase_some opened
  · intro other _
    apply holds_kept (Shared.withStore_life ..) _ (sound.2 other)
    intro uri' gone
    simp only [Shared.withStore_store, DocumentStore.removeDoc, OrderedMap.get?_erase, gone, ite_self]

theorem keeps_of_vacant (sound : System.Sound (Inv parse) (Holds parse) world) (vacant : Vacant parse world t uri history)
    (described : Describes history document) (own : Holds parse (world.shared.putDoc uri document history) state) :
    Keeps parse world t (world.shared.putDoc uri document history, state) :=
  ⟨vacant.inv sound.1 described, own, fun other apart => vacant.holds apart (sound.2 other)⟩

theorem keeps_of_edits (sound : System.Sound (Inv parse) (Holds parse) world) (countable : Countable document)
    (edits : Edits world.shared shared' uri document document' text) (own : Holds parse shared' state) :
    Keeps parse world t (shared', state) :=
  ⟨edits.inv sound.1 countable, own, fun other _ => edits.holds sound.1 countable (sound.2 other)⟩

theorem describes_begun (text : String) (clientVersion : Int32) :
    Describes (.begun text) (Document.new text clientVersion) := by
  constructor
  · simp [History.begun, Document.new]
  · intro version other found
    unfold History.begun at found
    split at found
    next same =>
      rw [same]
      exact Int32.le_refl _
    next => cases found

theorem holds_missed (version : Int32) (again : Bool) (read : shared.life uri version = some text) :
    Holds parse shared (Shared.missed uri text version again) := by
  cases again with
  | true => exact read
  | false => trivial

/-- An edit that is not rejected. -/
theorem edits_of_applyChangesInner {changes : List TextChange} {clientVersion : Option Int32} {version : Int32}
    {store : DocumentStore τ} (done : shared.store.applyChangesInner uri changes clientVersion = (.ok (text, version), store)) :
    ∃ document document', Edits shared (shared.record store uri version text) uri document document' text := by
  unfold DocumentStore.applyChangesInner at done
  split at done
  · cases done
  next document opened =>
  split at done
  · cases done
  split at done
  · cases done
  cases done
  refine ⟨document, _, opened, rfl, ?_, rfl, rfl, rfl⟩
  intro other tree cached
  exact get?_erase_some cached

theorem next_replacing (sound : System.Sound (Inv parse) (Holds parse) world) (at_ : world.threads t = .replacing uri text)
    (clean : Clean parse world (.step t)) : Keeps parse world t (world.shared.next parse (.replacing uri text)) := by
  simp only [Clean, at_] at clean
  rw [Shared.next]
  split
  · exact keeps_of_unchanged sound trivial
  cases opened : world.shared.store.docs.get? uri with
  | none =>
      simp only [opened] at clean
      exact keeps_of_vacant sound clean (describes_begun text 0) trivial
  | some document =>
      simp only [opened] at clean
      rw [DocumentStore.replaceOrInsert, opened]
      let edited := { document with text := text.toList, textCache := text, version := document.version + 1 }
      have edits : Edits world.shared
          (world.shared.record (world.shared.store.putDoc uri edited) uri (document.version + 1) text) uri document edited text :=
        ⟨opened, rfl, fun _ _ cached => cached, rfl, rfl, rfl⟩
      exact keeps_of_edits sound clean edits trivial

theorem next_arrived {oldUri newUri : Uri} (sound : System.Sound (Inv parse) (Holds parse) world)
    (own : Holds parse world.shared (.arrived oldUri newUri)) :
    Keeps parse world t (world.shared.next parse (.arrived oldUri newUri)) := by
  rw [Shared.next]
  split
  · exact keeps_of_unchanged sound trivial
  next tree cached =>
    apply keeps_of_removeTree sound
    exact (sound.1.covered oldUri tree cached).within own.2

theorem next_carrying {oldUri newUri : Uri} (sound : System.Sound (Inv parse) (Holds parse) world)
    (at_ : world.threads t = .carrying oldUri newUri document history)
    (clean : Clean parse world (.step t)) :
    Keeps parse world t (world.shared.next parse (.carrying oldUri newUri document history)) := by
  have own := sound.2 t
  rw [at_] at own
  obtain ⟨apart, gone, described, within⟩ := own
  simp only [Clean, at_] at clean
  rw [Shared.next]
  split
  next free =>
    simp only [(OrderedMap.contains_eq_false_iff ..).mpr free, Bool.false_eq_true, if_false] at clean
    apply keeps_of_vacant sound clean described
    refine ⟨?_, ?_⟩
    · rw [Shared.putDoc, DocumentStore.putDoc, OrderedMap.get?_insert, if_neg (by simpa using apart.symm)]
      exact gone
    · rw [Shared.putDoc_life_other _ apart, Shared.putDoc_life_self]
      exact within
  next taken =>
    simp only [(OrderedMap.contains_iff ..).mpr ⟨_, taken⟩, if_true] at clean
    exact keeps_of_vacant sound clean described trivial

theorem next_comparing {version live : Int32} {stamp : Nat} {again : Bool}
    (sound : System.Sound (Inv parse) (Holds parse) world)
    (own : Holds parse world.shared (.comparing uri text version live stamp again)) :
    Keeps parse world t (world.shared.next parse (.comparing uri text version live stamp again)) := by
  rw [Shared.next]
  split
  · exact keeps_of_unchanged sound (holds_missed version again own)
  next cached found =>
  split
  next fits =>
    obtain ⟨text', history, parsed⟩ := sound.1.covered uri cached found
    have covers : Covers parse (world.shared.life uri) { cached with lastAccess := stamp } := ⟨text', history, parsed⟩
    apply keeps_of_putTree sound (by rfl) (by rfl) covers
    -- both texts are the one of the same version
    rw [fits.2, own] at history
    cases history
    exact parsed
  next => exact keeps_of_unchanged sound (holds_missed version again own)

theorem documents_stable (parse : String → τ) :
    (documents parse).Stable (Clean parse) (Inv parse) (Holds parse) where
  start world request sound := by cases request <;> trivial
  step world t shared state sound clean stepped := by
    have own := sound.2 t
    change world.shared.next parse (world.threads t) = (shared, state) at stepped
    suffices keeps : Keeps parse world t (world.shared.next parse (world.threads t)) by
      rw [stepped] at keeps
      exact keeps
    cases at_ : world.threads t with
    | opening uri text clientVersion =>
        simp only [Clean, at_] at clean
        rw [Shared.next]
        split
        · exact keeps_of_unchanged sound trivial
        · exact keeps_of_vacant sound clean (describes_begun text clientVersion) trivial
    | replacing uri text => exact next_replacing sound at_ clean
    | applying uri changes clientVersion =>
        simp only [Clean, at_] at clean
        rw [Shared.next]
        split
        · exact keeps_of_unchanged sound trivial
        next text version store done =>
          obtain ⟨document, document', edits⟩ := edits_of_applyChangesInner done
          exact keeps_of_edits sound (clean document edits.opened) edits trivial
    | checking oldUri newUri =>
        rw [Shared.next]
        split
        · exact keeps_of_unchanged sound trivial
        next free => exact keeps_of_unchanged sound (not_or.mp free).1
    | leaving oldUri newUri =>
        rw [at_] at own
        rw [Shared.next]
        split
        · exact keeps_of_unchanged sound trivial
        next document opened =>
          apply keeps_of_removeDoc sound
          refine ⟨own, ?_, sound.1.described oldUri document opened, fun _ _ found => found⟩
          simp [DocumentStore.removeDoc, OrderedMap.get?_erase]
    | carrying oldUri newUri document history => exact next_carrying sound at_ clean
    | arrived oldUri newUri =>
        rw [at_] at own
        exact next_arrived sound own
    | moving newUri tree =>
        rw [at_] at own
        exact keeps_of_putTree sound (by rfl) (by rfl) own trivial
    | closing uri => exact keeps_of_removeDoc sound uri trivial
    | removing uri => exact keeps_of_removeTree sound uri trivial
    | reading uri =>
        rw [Shared.next]
        split
        · exact keeps_of_unchanged sound trivial
        next document opened => exact keeps_of_unchanged sound (sound.1.described uri document opened).current
    | rereading uri =>
        rw [Shared.next]
        split
        · exact keeps_of_unchanged sound trivial
        next document opened => exact keeps_of_unchanged sound (sound.1.described uri document opened).current
    | probing uri text version again =>
        rw [at_] at own
        rw [Shared.next]
        dsimp only [DocumentStore.nextTreeStamp]
        split
        · exact keeps_of_trees sound (Shared.withStore_life ..) (by rfl) sound.1.covered (holds_missed version again own)
        · exact keeps_of_trees sound (Shared.withStore_life ..) (by rfl) sound.1.covered own
    | comparing uri text version live stamp again =>
        rw [at_] at own
        exact next_comparing sound own
    | parsing uri text version =>
        rw [at_] at own
        have covers : Covers parse (world.shared.life uri) ⟨version, parse text, world.shared.store.treeAccessCounter⟩ :=
          ⟨text, own, rfl⟩
        exact keeps_of_putTree sound (by rfl) (by rfl) covers rfl
    | scanning text tree =>
        rw [at_] at own
        exact keeps_of_unchanged sound own
    | evicting text tree victims =>
        rw [at_] at own
        cases victims with
        | nil => exact keeps_of_unchanged sound own
        | cons uri rest => exact keeps_of_removeTree sound uri own
    | returned text tree =>
        rw [at_] at own
        exact keeps_of_unchanged sound own
    | failed => exact keeps_of_unchanged sound trivial
    | idle => exact keeps_of_unchanged sound trivial
  environment world event sound _ := by
    have kept : Keeps parse world 0 ((world.shared.configure event), .idle) := by
      cases event with
      | maxCachedTrees cap => exact keeps_of_trees sound (Shared.withStore_life ..) (by rfl) sound.1.covered trivial
      | maxDocBytes cap => exact keeps_of_trees sound (Shared.withStore_life ..) (by rfl) sound.1.covered trivial
    refine ⟨kept.1, ?_⟩
    intro t
    apply holds_kept _ _ (sound.2 t)
    · cases event <;> rfl
    · intro uri gone
      cases event <;> exact gone

end Steps

/-! ## Runs -/

/-- A call that has returned got the tree of its text, and the cached tree of an open document is the parse of the
text that the document had at the tree's version. -/
def Paired (parse : String → τ) (world : World (Shared τ) (Thread τ)) : Prop :=
  (∀ t text tree, world.threads t = .returned text tree → tree = parse text) ∧
    ∀ uri document tree, world.shared.store.docs.get? uri = some document → world.shared.store.trees.get? uri = some tree →
      Covers parse (world.shared.life uri) tree ∧ (tree.version = document.version → tree.tree = parse document.textCache)

theorem paired_of_sound {parse : String → τ} {world : World (Shared τ) (Thread τ)}
    (sound : System.Sound (Inv parse) (Holds parse) world) : Paired parse world := by
  constructor
  · intro t text tree returned
    have own := sound.2 t
    rw [returned] at own
    exact own
  · intro uri document tree opened cached
    have covers := sound.1.covered uri tree cached
    refine ⟨covers, ?_⟩
    intro live
    obtain ⟨text, found, parsed⟩ := covers
    rw [live, (sound.1.described uri document opened).current] at found
    cases found
    exact parsed

theorem sound_fresh (parse : String → τ) : System.Sound (Inv parse) (Holds parse) freshWorld := by
  refine ⟨⟨?_, ?_⟩, fun _ => trivial⟩
  · intro uri document opened
    simp [freshWorld, DocumentStore.new] at opened
  · intro uri tree cached
    simp [freshWorld, DocumentStore.new] at cached

/-- No call gets another text's tree as long as documents are put only where nothing is left of another one. -/
theorem documents_paired (parse : String → τ) (actions : List (Action Request Setting))
    (clean : (documents parse).Allowed (Clean parse) freshWorld actions) :
    Paired parse (Machine.run (documents parse).after freshWorld actions) :=
  paired_of_sound ((documents_stable parse).run (sound_fresh parse) actions clean)

/-- Opens a document and parses it. -/
def openAndParse : List (Action Request Setting) :=
  [.start 0 (.openDoc "u" "a" 1), .step 0, .start 1 (.getOrParse "u"), .step 1, .step 1, .step 1, .step 1, .step 1, .step 1]

theorem documents_paired_openAndParse : Paired id (Machine.run (documents id).after freshWorld openAndParse) := by
  apply documents_paired
  have others {other : Nat} (apart : other ≠ 0) :
      ((documents id).after freshWorld (.start 0 (.openDoc "u" "a" 1))).threads other = .idle :=
    World.goto_other freshWorld apart (.opening "u" "a" 1)
  have vacant : Vacant id ((documents id).after freshWorld (.start 0 (.openDoc "u" "a" 1))) 0 "u" (.begun "a") := by
    refine ⟨?_, ?_, ?_⟩
    · intro tree cached
      cases cached
    · intro other version text apart reads
      rw [others apart] at reads
      exact reads.elim
    · intro other apart moves
      rw [others apart] at moves
      exact moves.elim
  exact ⟨trivial, vacant, trivial, trivial, trivial, trivial, trivial, trivial, trivial, trivial⟩

/-- A parse of a closed document is stored after the URI was opened again. -/
def slowParse : List (Action Request Setting) :=
  openAndParse ++
    [.start 0 (.close "u"), .step 0, .step 0, .start 0 (.openDoc "u" "b" 1), .step 0, .step 1, .step 1, .step 1,
      .start 2 (.getOrParse "u"), .step 2, .step 2, .step 2]

def Thread.answer : Thread τ → Option (String × τ)
  | .returned text tree => some (text, tree)
  | _ => none

theorem documents_unpaired : ¬Paired id (Machine.run (documents id).after freshWorld slowParse) := by
  have answer : ((Machine.run (documents id).after freshWorld slowParse).threads 2).answer = some ("b", "a") := by
    decide +kernel
  rintro ⟨returned, _⟩
  cases state : (Machine.run (documents id).after freshWorld slowParse).threads 2 with
  | returned text tree =>
      have same := returned 2 text tree state
      rw [state] at answer
      cases answer
      exact absurd same (by decide)
  | _ =>
      rw [state] at answer
      cases answer

end AlLanguage.Source
