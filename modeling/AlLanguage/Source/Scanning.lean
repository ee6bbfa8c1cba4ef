import AlLanguage.Library.Machine
import AlLanguage.Source.IndexedFiles

/-!
# Scans of a workspace

The disk changes at any moment while a scan takes its steps. A file's time of modification is rounded down to a tick of
the clock of its file system.
-/

namespace AlLanguage.Source

open Library OrderedMap AlLanguage.Runtime

/-! ## The disk -/

/-- The bytes of a file: their number, and the text when they are UTF-8. -/
structure FileContent where
  text : Option String
  size : Nat
  sized : ∀ s, text = some s → size = s.utf8ByteSize

def FileContent.ofText (s : String) : FileContent := ⟨some s, s.utf8ByteSize, by simp⟩

structure DiskFile where
  content : FileContent
  modified : Nat

def DiskFile.metadata (file : DiskFile) : FileMetadata := ⟨file.modified, file.content.size⟩

abbrev Disk := FilePath → Option DiskFile

/-- The tick of a clock that is at most two seconds coarse. -/
structure Clock where
  tick : Nat
  positive : 0 < tick
  coarse : tick ≤ FileIndex.racyWindow

def Clock.stamp (clock : Clock) (now : Nat) : Nat := now - now % clock.tick

/-! ## Scans -/

def maxAlFileBytes : Nat := 50 * 1024 * 1024

def maxWorkspaceSourceBytes : Nat := 512 * 1024 * 1024

inductive ScanError where
  | readDirectory (path : FilePath)
  | readDirectoryEntry (path : FilePath)
  | inspectPath (path : FilePath)
  | fileLimit (limit : Nat)
  | fileTooLarge (path : FilePath) (size limit : Nat)
  | workspaceTooLarge (size limit : Nat)
  | readFile (path : FilePath)
  | changedDuringScan (path : FilePath)
  | notRegularFile (path : FilePath)
  deriving DecidableEq

structure ScanDelta where
  changed : List FilePath := []
  removed : List FilePath := []
  topologyChanged : Bool := false

/-- A file that was read and is not indexed yet. The source does not keep the time at which it was read. -/
structure Staged where
  path : FilePath
  content : String
  metadata : FileMetadata
  readAt : Nat

/-- The two scans and what they were called with: the root and the files found under it. -/
structure ScanCall where
  incremental : Bool
  root : FilePath
  paths : List FilePath
  deriving DecidableEq

/-- Where a scan is. -/
inductive Scanner where
  | idle
  | statting (call : ScanCall) (pending : List FilePath) (total : Nat) (metadata : List (FilePath × FileMetadata))
  | reading (call : ScanCall) (pending : List (FilePath × FileMetadata)) (staged : List Staged)
  | checking (call : ScanCall) (file : Staged) (unchanged : Bool) (pending : List (FilePath × FileMetadata))
      (staged : List Staged)
  | comparing (call : ScanCall) (file : Staged) (unchanged : Bool) (pending : List (FilePath × FileMetadata))
      (staged : List Staged)
  | indexing (call : ScanCall) (staged : List Staged) (delta : ScanDelta)
  | evicting (call : ScanCall) (delta : ScanDelta)
  | finished (call : ScanCall) (delta : ScanDelta)
  | failed (error : ScanError)

def Scanner.rests : Scanner → Bool
  | idle | finished .. | failed _ => true
  | _ => false

structure ScanWorld (τ : Type) where
  disk : Disk
  now : Nat
  index : FileIndex τ
  scanner : Scanner

inductive ScanAction where
  /-- A file is created or rewritten. -/
  | write (path : FilePath) (content : FileContent)
  | delete (path : FilePath)
  | advance (nanoseconds : Nat)
  /-- A scan begins, with what `collect_al_files` has found. -/
  | scan (incremental : Bool) (root : FilePath) (walk : Except ScanError (List FilePath))
  | step

/-- `strict_file_metadata`. -/
def strictFileMetadata (disk : Disk) (path : FilePath) : Except ScanError FileMetadata :=
  match disk path with
  | none => .error (.inspectPath path)
  | some file =>
    if maxAlFileBytes < file.content.size then .error (.fileTooLarge path file.content.size maxAlFileBytes)
    else .ok file.metadata

/-- The sum of the sizes in `strict_metadata_for_paths`. -/
def addSize (total size : Nat) : Except ScanError Nat :=
  let sum := total + size
  if 2 ^ 64 ≤ sum then .error (.workspaceTooLarge (2 ^ 64 - 1) maxWorkspaceSourceBytes)
  else if maxWorkspaceSourceBytes < sum then .error (.workspaceTooLarge sum maxWorkspaceSourceBytes)
  else .ok sum

theorem lawful_path : LawfulBEq FilePath := inferInstance

section Steps

attribute [local instance] lawful_path

variable {τ : Type} [CaseMapping] [AppFiles] [AlSyntax τ]

/-- The objects and procedures that a file declares, as far as other files depend on them. -/
def FileIndex.topologyOf (index : FileIndex τ) (path : FilePath) :
    List (String × Option Int × String) × List String :=
  (((index.objectInfos.get? path).getD []).map fun info =>
      (String.ofList (info.kind.toList.map Char.toLower), info.id, toLowercase info.name),
    (index.proceduresSnapshot path).insertionSort fun a b => compare a b ≠ .gt)

namespace ScanWorld

variable (world : ScanWorld τ)

/-- Read one file, unless its metadata say that it has not changed. -/
def readNext (call : ScanCall) (path : FilePath) (metadata : FileMetadata) (pending : List (FilePath × FileMetadata))
    (staged : List Staged) : Scanner :=
  let unchanged := world.index.fileMetadata.get? path = some metadata
  if call.incremental && unchanged && path ∉ world.index.racy then .reading call pending staged
  else
    match (world.disk path).bind (·.content.text) with
    | none => .failed (.readFile path)
    | some content => .checking call ⟨path, content, metadata, world.now⟩ unchanged pending staged

/-- The second look at the metadata of a file that was read. -/
def checkRead (call : ScanCall) (file : Staged) (unchanged : Bool) (pending : List (FilePath × FileMetadata))
    (staged : List Staged) : Scanner :=
  match strictFileMetadata world.disk file.path with
  | .error error => .failed error
  | .ok after =>
    if after ≠ file.metadata ∨ file.content.utf8ByteSize ≠ file.metadata.size then .failed (.changedDuringScan file.path)
    else if call.incremental then .comparing call file unchanged pending staged
    else .reading call pending (staged ++ [file])

/-- A file whose metadata and text are the indexed ones is not indexed again. -/
def compareRead (call : ScanCall) (file : Staged) (unchanged : Bool) (pending : List (FilePath × FileMetadata))
    (staged : List Staged) : ScanWorld τ :=
  if unchanged && world.index.files.get? file.path = some file.content then
    let index :=
      if FileIndex.isRacy file.metadata world.now then world.index else (IndexWrite.unmarkRacy file.path).apply world.index
    { world with index := index, scanner := .reading call pending staged }
  else { world with scanner := .reading call pending (staged ++ [file]) }

def indexStaged (call : ScanCall) (file : Staged) (staged : List Staged) (delta : ScanDelta) : ScanWorld τ :=
  let before := world.index.topologyOf file.path
  let index := world.index.addFileWithMeta file.path file.content (some file.metadata) world.now
  let after := index.topologyOf file.path
  let delta : ScanDelta := { delta with
    topologyChanged := delta.topologyChanged || before ≠ after
    changed := delta.changed ++ [file.path] }
  { world with index := index, scanner := .indexing call staged delta }

/-- The indexed files that are gone from the disk. An incremental scan looks at those it has read under its root. -/
def deleted (call : ScanCall) : List FilePath :=
  if call.incremental then
    world.index.fileMetadata.keys.filter fun path => call.root.isPrefixOf path && path ∉ call.paths
  else world.index.files.keys.filter fun path => path ∉ call.paths

def evict (call : ScanCall) (delta : ScanDelta) : ScanWorld τ :=
  let deleted := world.deleted call
  let delta : ScanDelta := { delta with
    topologyChanged := delta.topologyChanged || !deleted.isEmpty
    removed := delta.removed ++ deleted }
  { world with index := deleted.foldl FileIndex.removeFile world.index, scanner := .finished call delta }

def step : ScanWorld τ :=
  match world.scanner with
  | .statting call (path :: pending) total metadata =>
    match strictFileMetadata world.disk path with
    | .error error => { world with scanner := .failed error }
    | .ok found =>
      match addSize total found.size with
      | .error error => { world with scanner := .failed error }
      | .ok total => { world with scanner := .statting call pending total (metadata ++ [(path, found)]) }
  | .statting call [] _ metadata => { world with scanner := .reading call metadata [] }
  | .reading call ((path, metadata) :: pending) staged =>
    { world with scanner := world.readNext call path metadata pending staged }
  | .reading call [] staged => { world with scanner := .indexing call staged {} }
  | .checking call file unchanged pending staged =>
    { world with scanner := world.checkRead call file unchanged pending staged }
  | .comparing call file unchanged pending staged => world.compareRead call file unchanged pending staged
  | .indexing call (file :: staged) delta => world.indexStaged call file staged delta
  | .indexing call [] delta => { world with scanner := .evicting call delta }
  | .evicting call delta => world.evict call delta
  | .idle | .finished .. | .failed _ => world

def begin_ (incremental : Bool) (root : FilePath) (walk : Except ScanError (List FilePath)) : ScanWorld τ :=
  match walk with
  | .error error => { world with scanner := .failed error }
  | .ok paths => { world with scanner := .statting ⟨incremental, root, paths⟩ paths 0 [] }

def after (clock : Clock) (world : ScanWorld τ) : ScanAction → ScanWorld τ
  | .write path content =>
    { world with disk := Function.update world.disk path (some ⟨content, clock.stamp world.now⟩) }
  | .delete path => { world with disk := Function.update world.disk path none }
  | .advance nanoseconds => { world with now := world.now + nanoseconds }
  | .scan incremental root walk => if world.scanner.rests then world.begin_ incremental root walk else world
  | .step => world.step

end ScanWorld

/-- An empty disk and a new index. -/
def emptyDisk : ScanWorld τ := ⟨fun _ => none, 0, {}, .idle⟩

/-! ## The maps that a scan reads -/

namespace FileIndex

theorem addFileWithMeta_files (index : FileIndex τ) (path : FilePath) (content : String) (metadata : FileMetadata)
    (now : Nat) : (index.addFileWithMeta path content (some metadata) now).files = index.files.insert path content := by
  have replaced := replaceFileEntries_eq (index.writeAll (metadataWrites path (some metadata) now))
    ⟨path, content, AlSyntax.parseQuick content⟩
  rw [addFileWithMeta, replaced, indexFromResult_eq, metadataWrites]
  split <;> rfl

theorem addFileWithMeta_metadata (index : FileIndex τ) (path : FilePath) (content : String) (metadata : FileMetadata)
    (now : Nat) :
    (index.addFileWithMeta path content (some metadata) now).fileMetadata = index.fileMetadata.insert path metadata := by
  have replaced := replaceFileEntries_eq (index.writeAll (metadataWrites path (some metadata) now))
    ⟨path, content, AlSyntax.parseQuick content⟩
  rw [addFileWithMeta, replaced, indexFromResult_eq, metadataWrites]
  split <;> rfl

theorem addFileWithMeta_racy (index : FileIndex τ) (path : FilePath) (content : String) (metadata : FileMetadata)
    (now : Nat) :
    (index.addFileWithMeta path content (some metadata) now).racy =
      if isRacy metadata now then if path ∈ index.racy then index.racy else path :: index.racy
      else index.racy.filter (· ≠ path) := by
  have replaced := replaceFileEntries_eq (index.writeAll (metadataWrites path (some metadata) now))
    ⟨path, content, AlSyntax.parseQuick content⟩
  rw [addFileWithMeta, replaced, indexFromResult_eq, metadataWrites]
  by_cases racy : isRacy metadata now = true
  · rw [if_pos racy, if_pos racy]
    rfl
  · rw [if_neg racy, if_neg racy]
    rfl

omit [CaseMapping] [AppFiles] [AlSyntax τ] in
theorem isRacy_eq_false {metadata : FileMetadata} {now : Nat} :
    isRacy metadata now = false ↔ metadata.modified + racyWindow ≤ now := by
  unfold isRacy
  split <;> simp <;> omega

end FileIndex

omit [CaseMapping] [AppFiles] [AlSyntax τ] in
theorem get?_insert_path {ν : Type} (m : OrderedMap FilePath ν) (path other : FilePath) (v : ν) :
    (m.insert path v).get? other = if path = other then some v else m.get? other := by
  have put := get?_putOrErase m path other (some v)
  exact put

omit [CaseMapping] [AppFiles] [AlSyntax τ] in
theorem get?_erase_path {ν : Type} (m : OrderedMap FilePath ν) (path other : FilePath) :
    (m.erase path).get? other = if path = other then none else m.get? other := by
  have put := get?_putOrErase m path other none
  exact put

/-! ## What the metadata tell -/

/-- While the file has these metadata it has this text. -/
def Faithful (disk : Disk) (path : FilePath) (metadata : FileMetadata) (content : String) : Prop :=
  ∀ file, disk path = some file → file.metadata = metadata → file.content.text = some content

/-- The time in which the file could be rewritten without a change of its metadata is over. -/
def Settled (world : ScanWorld τ) (path : FilePath) (metadata : FileMetadata) (content : String) : Prop :=
  metadata.modified + FileIndex.racyWindow ≤ world.now ∧ Faithful world.disk path metadata content

/-- A file is settled, unless it was read when it could still be rewritten. -/
def SettledRead (world : ScanWorld τ) (file : Staged) : Prop :=
  FileIndex.isRacy file.metadata file.readAt = false → Settled world file.path file.metadata file.content

/-- The index trusts no metadata but those that tell a rewrite. -/
def Trusted (world : ScanWorld τ) : Prop :=
  ∀ path metadata, world.index.fileMetadata.get? path = some metadata →
    path ∈ world.index.racy ∨ ∃ content, world.index.files.get? path = some content ∧ Settled world path metadata content

/-- What a scan has read is settled, and a file that it takes for unchanged has the recorded metadata. -/
def ReadWell (world : ScanWorld τ) : Prop :=
  match world.scanner with
  | .reading _ _ staged | .indexing _ staged _ => ∀ file ∈ staged, SettledRead world file
  | .checking _ file unchanged _ staged | .comparing _ file unchanged _ staged =>
    SettledRead world file ∧ (unchanged = true → world.index.fileMetadata.get? file.path = some file.metadata) ∧
      ∀ file ∈ staged, SettledRead world file
  | _ => True

omit [CaseMapping] [AppFiles] [AlSyntax τ] in
theorem stamp_gt (clock : Clock) (now : Nat) : now < clock.stamp now + FileIndex.racyWindow := by
  have rest := Nat.mod_lt now clock.positive
  have whole := Nat.mod_le now clock.tick
  have coarse := clock.coarse
  rw [Clock.stamp]
  omega

section Settling

variable {world world' : ScanWorld τ}

omit [CaseMapping] [AppFiles] [AlSyntax τ]

theorem Trusted.mono (trusted : Trusted world) (index : world'.index = world.index)
    (settles : ∀ path metadata content, Settled world path metadata content → Settled world' path metadata content) :
    Trusted world' := by
  intro path metadata recorded
  rw [index] at recorded ⊢
  rcases trusted path metadata recorded with racy | ⟨content, stored, settled⟩
  · exact .inl racy
  · exact .inr ⟨content, stored, settles path metadata content settled⟩

theorem ReadWell.mono (readWell : ReadWell world) (index : world'.index = world.index)
    (scanner : world'.scanner = world.scanner)
    (settles : ∀ path metadata content, Settled world path metadata content → Settled world' path metadata content) :
    ReadWell world' := by
  have read : ∀ file, SettledRead world file → SettledRead world' file :=
    fun file settled late => settles _ _ _ (settled late)
  unfold ReadWell at readWell ⊢
  rw [scanner, index]
  revert readWell
  cases world.scanner with
  | reading call pending staged => exact fun all file member => read file (all file member)
  | indexing call staged delta => exact fun all file member => read file (all file member)
  | checking call file unchanged pending staged =>
      exact fun ⟨own, recorded, all⟩ => ⟨read file own, recorded, fun other member => read other (all other member)⟩
  | comparing call file unchanged pending staged =>
      exact fun ⟨own, recorded, all⟩ => ⟨read file own, recorded, fun other member => read other (all other member)⟩
  | _ => exact fun _ => trivial

theorem Settled.update {path : FilePath} {metadata : FileMetadata} {content : String}
    (settled : Settled world path metadata content) (other : FilePath) {file : Option DiskFile}
    (later : ∀ rewritten, file = some rewritten → world.now < rewritten.modified + FileIndex.racyWindow) :
    Settled { world with disk := Function.update world.disk other file } path metadata content := by
  obtain ⟨elapsed, faithful⟩ := settled
  refine ⟨elapsed, ?_⟩
  intro found there same
  by_cases here : path = other
  · subst here
    have rewritten : file = some found := by simpa using there
    have recent := later found rewritten
    have modified : found.modified = metadata.modified := congrArg FileMetadata.modified same
    exact absurd elapsed (by omega)
  · have before : world.disk path = some found := by simpa [here] using there
    exact faithful found before same

end Settling

/-- The file of which a step tells by the time of the step whether it is racy. -/
def ScanWorld.judged (world : ScanWorld τ) : ScanAction → Option Staged
  | .step =>
    match world.scanner with
    | .comparing _ file unchanged _ _ =>
      if unchanged && world.index.files.get? file.path = some file.content then some file else none
    | .indexing _ (file :: _) _ => some file
    | _ => none
  | _ => none

/-- A file that was racy when it was read is judged while it still is. -/
def Timely (world : ScanWorld τ) (action : ScanAction) : Prop :=
  ∀ file ∈ world.judged action,
    FileIndex.isRacy file.metadata file.readAt = true → FileIndex.isRacy file.metadata world.now = true

instance decidableTimely (world : ScanWorld τ) (action : ScanAction) : Decidable (Timely world action) :=
  inferInstanceAs (Decidable (∀ file ∈ world.judged action, _ → _))

section Running

variable {world : ScanWorld τ}

omit [CaseMapping] [AppFiles] [AlSyntax τ] in
theorem readWell_readNext (call : ScanCall) (path : FilePath) (metadata : FileMetadata)
    (pending : List (FilePath × FileMetadata)) {staged : List Staged} (all : ∀ file ∈ staged, SettledRead world file) :
    ReadWell { world with scanner := world.readNext call path metadata pending staged } := by
  unfold ScanWorld.readNext
  dsimp only
  split
  next => exact all
  next =>
    split
    next => trivial
    next content text =>
      refine ⟨?_, fun recorded => by simpa using recorded, all⟩
      intro late
      refine ⟨FileIndex.isRacy_eq_false.mp late, ?_⟩
      intro file there same
      have there' : world.disk path = some file := there
      rw [there'] at text
      exact text

omit [CaseMapping] [AppFiles] [AlSyntax τ] in
theorem readWell_checkRead (call : ScanCall) {file : Staged} {unchanged : Bool}
    (pending : List (FilePath × FileMetadata)) {staged : List Staged} (own : SettledRead world file)
    (recorded : unchanged = true → world.index.fileMetadata.get? file.path = some file.metadata)
    (all : ∀ file ∈ staged, SettledRead world file) :
    ReadWell { world with scanner := world.checkRead call file unchanged pending staged } := by
  unfold ScanWorld.checkRead
  split
  next => trivial
  next =>
    split
    next => trivial
    next =>
    split
    next => exact ⟨own, recorded, all⟩
    next =>
      intro other member
      rcases List.mem_append.mp member with before | last
      · exact all other before
      · rw [List.mem_singleton.mp last]
        exact own

omit [CaseMapping] [AppFiles] [AlSyntax τ] in
theorem compareRead_kept (trusted : Trusted world) {call : ScanCall} {file : Staged} {unchanged : Bool}
    {pending : List (FilePath × FileMetadata)} {staged : List Staged} (own : SettledRead world file)
    (recorded : unchanged = true → world.index.fileMetadata.get? file.path = some file.metadata)
    (all : ∀ file ∈ staged, SettledRead world file)
    (timely : unchanged = true → world.index.files.get? file.path = some file.content →
      FileIndex.isRacy file.metadata file.readAt = true → FileIndex.isRacy file.metadata world.now = true) :
    Trusted (world.compareRead call file unchanged pending staged) ∧
      ReadWell (world.compareRead call file unchanged pending staged) := by
  unfold ScanWorld.compareRead
  split
  next same =>
    obtain ⟨unchanged, indexed⟩ : unchanged = true ∧ world.index.files.get? file.path = some file.content := by
      simpa using same
    refine ⟨?_, all⟩
    dsimp only
    split
    next => exact trusted
    next elapsed =>
      have late : FileIndex.isRacy file.metadata file.readAt = false := by
        by_contra early
        exact elapsed (timely unchanged indexed (by simpa using early))
      intro path metadata stored
      by_cases here : path = file.path
      · subst here
        right
        have one : some file.metadata = some metadata := (recorded unchanged).symm.trans stored
        cases one
        exact ⟨file.content, indexed, own late⟩
      · rcases trusted path metadata stored with racy | kept
        · left
          exact List.mem_filter.mpr ⟨racy, by simpa using here⟩
        · exact .inr kept
  next =>
    refine ⟨trusted, ?_⟩
    intro other member
    rcases List.mem_append.mp member with before | last
    · exact all other before
    · rw [List.mem_singleton.mp last]
      exact own

theorem indexStaged_kept (trusted : Trusted world) {call : ScanCall} {file : Staged} {staged : List Staged}
    {delta : ScanDelta} (own : SettledRead world file) (all : ∀ file ∈ staged, SettledRead world file)
    (timely : FileIndex.isRacy file.metadata file.readAt = true → FileIndex.isRacy file.metadata world.now = true) :
    Trusted (world.indexStaged call file staged delta) ∧ ReadWell (world.indexStaged call file staged delta) := by
  refine ⟨?_, all⟩
  intro path metadata stored
  rw [ScanWorld.indexStaged] at stored ⊢
  dsimp only at stored ⊢
  rw [FileIndex.addFileWithMeta_metadata, get?_insert_path] at stored
  rw [FileIndex.addFileWithMeta_files, get?_insert_path, FileIndex.addFileWithMeta_racy]
  split at stored
  next here =>
    cases stored
    rw [if_pos here, ← here]
    by_cases racy : FileIndex.isRacy file.metadata world.now = true
    · left
      rw [if_pos racy]
      split
      next there => exact there
      next => exact List.mem_cons_self
    · right
      have late : FileIndex.isRacy file.metadata file.readAt = false := by
        by_contra early
        exact racy (timely (by simpa using early))
      exact ⟨file.content, rfl, own late⟩
  next apart =>
    rw [if_neg apart]
    rcases trusted path metadata stored with racy | kept
    · left
      split
      · split
        · exact racy
        · exact List.mem_cons_of_mem _ racy
      · exact List.mem_filter.mpr ⟨racy, by simpa using Ne.symm apart⟩
    · exact .inr kept

omit [CaseMapping] [AppFiles] [AlSyntax τ] in
theorem Trusted.removeFile (trusted : Trusted world) (path : FilePath) :
    Trusted { world with index := world.index.removeFile path } := by
  intro other metadata recorded
  rw [FileIndex.removeFile_eq] at recorded ⊢
  dsimp only at recorded ⊢
  rw [get?_erase_path] at recorded ⊢
  split at recorded
  next => cases recorded
  next apart =>
    rw [if_neg apart]
    rcases trusted other metadata recorded with racy | kept
    · left
      exact List.mem_filter.mpr ⟨racy, by simpa using Ne.symm apart⟩
    · exact .inr kept

omit [CaseMapping] [AppFiles] [AlSyntax τ] in
theorem Trusted.removeFiles (trusted : Trusted world) (paths : List FilePath) :
    Trusted { world with index := paths.foldl FileIndex.removeFile world.index } := by
  have removed : ∀ index : FileIndex τ, Trusted { world with index := index } →
      Trusted { world with index := paths.foldl FileIndex.removeFile index } := by
    induction paths with
    | nil => exact fun _ trusted => trusted
    | cons path rest ih => exact fun index trusted => ih _ (trusted.removeFile path)
  exact removed world.index trusted

theorem step_kept (trusted : Trusted world) (readWell : ReadWell world) (timely : Timely world .step) :
    Trusted world.step ∧ ReadWell world.step := by
  unfold ReadWell at readWell
  unfold Timely ScanWorld.judged at timely
  unfold ScanWorld.step
  revert readWell timely
  cases scanning : world.scanner with
  | idle | finished | failed =>
      intro _ _
      refine ⟨trusted, ?_⟩
      simp only [ReadWell, scanning]
  | statting call pending total metadata =>
      intro _ _
      cases pending with
      | nil => exact ⟨trusted, fun file member => absurd member List.not_mem_nil⟩
      | cons path pending =>
          dsimp only
          split
          next => exact ⟨trusted, trivial⟩
          next => split <;> exact ⟨trusted, trivial⟩
  | reading call pending staged =>
      intro all _
      cases pending with
      | nil => exact ⟨trusted, all⟩
      | cons next pending => exact ⟨trusted, readWell_readNext call next.1 next.2 pending all⟩
  | checking call file unchanged pending staged =>
      intro ⟨own, recorded, all⟩ _
      exact ⟨trusted, readWell_checkRead call pending own recorded all⟩
  | comparing call file unchanged pending staged =>
      intro ⟨own, recorded, all⟩ timely
      apply compareRead_kept trusted own recorded all
      intro same indexed
      exact timely file (by simp [same, indexed])
  | indexing call staged delta =>
      intro all timely
      cases staged with
      | nil => exact ⟨trusted, trivial⟩
      | cons file staged =>
          exact indexStaged_kept trusted (all file List.mem_cons_self)
            (fun other member => all other (List.mem_cons_of_mem _ member)) (timely file rfl)
  | evicting call delta =>
      intro _ _
      have evicted := trusted.removeFiles (world.deleted call)
      exact ⟨evicted.mono rfl fun _ _ _ settled => settled, trivial⟩

theorem after_kept (clock : Clock) (action : ScanAction) (kept : Trusted world ∧ ReadWell world)
    (timely : Timely world action) : Trusted (world.after clock action) ∧ ReadWell (world.after clock action) := by
  obtain ⟨trusted, readWell⟩ := kept
  cases action with
  | write path content =>
      have settles : ∀ other metadata text, Settled world other metadata text →
          Settled (world.after clock (.write path content)) other metadata text := by
        intro other metadata text settled
        apply settled.update
        intro rewritten same
        cases same
        exact stamp_gt clock world.now
      exact ⟨trusted.mono rfl settles, readWell.mono rfl rfl settles⟩
  | delete path =>
      have settles : ∀ other metadata text, Settled world other metadata text →
          Settled (world.after clock (.delete path)) other metadata text := by
        intro other metadata text settled
        exact settled.update path (fun rewritten none => by cases none)
      exact ⟨trusted.mono rfl settles, readWell.mono rfl rfl settles⟩
  | advance nanoseconds =>
      have settles : ∀ other metadata text, Settled world other metadata text →
          Settled (world.after clock (.advance nanoseconds)) other metadata text := by
        intro other metadata text ⟨elapsed, faithful⟩
        exact ⟨Nat.le_trans elapsed (Nat.le_add_right _ _), faithful⟩
      exact ⟨trusted.mono rfl settles, readWell.mono rfl rfl settles⟩
  | scan incremental root walk =>
      rw [ScanWorld.after]
      split
      next =>
        cases walk with
        | error error => exact ⟨trusted, trivial⟩
        | ok paths => exact ⟨trusted, trivial⟩
      next => exact ⟨trusted, readWell⟩
  | step => exact step_kept trusted readWell timely

/-- The index trusts only what it may trust, in every run whose scans take no file that was read too early for settled. -/
theorem run_kept (clock : Clock) (actions : List ScanAction)
    (timely : Machine.Allowed (ScanWorld.after clock) Timely (emptyDisk : ScanWorld τ) actions) :
    Trusted (Machine.run (ScanWorld.after clock) (emptyDisk : ScanWorld τ) actions) := by
  have empty : Trusted (emptyDisk : ScanWorld τ) := by
    intro path metadata recorded
    cases recorded
  have kept := Machine.run_allowed (fun world action => after_kept clock action)
    ⟨empty, trivial⟩ actions timely
  exact kept.1

end Running

end Steps

end AlLanguage.Source
