import AlLanguage.Source.FreshIndex
import AlLanguage.Source.Scanning

/-!
# Scans of a disk at rest

A scan during which no file changes ends with the text of every file that it found.
-/

namespace AlLanguage.Source

open Library OrderedMap AlLanguage.Runtime

namespace Scanner

def call : Scanner → Option ScanCall
  | statting call .. | reading call .. | checking call .. | comparing call .. | indexing call .. | evicting call _
  | finished call _ => some call
  | idle | failed _ => none

/-- The files that the scan is not through with. -/
def awaited : Scanner → List FilePath
  | statting _ pending _ metadata => pending ++ metadata.map (·.1)
  | reading _ pending staged => pending.map (·.1) ++ staged.map (·.path)
  | checking _ file _ pending staged | comparing _ file _ pending staged =>
    file.path :: (pending.map (·.1) ++ staged.map (·.path))
  | indexing _ staged _ => staged.map (·.path)
  | evicting .. | finished .. | idle | failed _ => []

/-- The metadata by which files are still to be read. -/
def expected : Scanner → List (FilePath × FileMetadata)
  | statting _ _ _ metadata => metadata
  | reading _ pending _ | checking _ _ _ pending _ | comparing _ _ _ pending _ => pending
  | _ => []

def staged : Scanner → List Staged
  | reading _ _ staged | indexing _ staged _ => staged
  | checking _ file _ _ staged | comparing _ file _ _ staged => file :: staged
  | _ => []

end Scanner

/-- What a scan is called with after it was begun, and what may happen while the disk rests. -/
def ScanAction.quiet : ScanAction → Prop
  | .step | .advance _ => True
  | _ => False

section Steps

variable {τ : Type} [CaseMapping] [AppFiles] [AlSyntax τ]

/-- The index holds what the file holds. -/
def Current (world : ScanWorld τ) (path : FilePath) : Prop :=
  ∃ file content, world.disk path = some file ∧ file.content.text = some content ∧
    world.index.files.get? path = some content

/-- The scan knows the files as they are, and is through with those that are current only. -/
structure Progress (world : ScanWorld τ) : Prop where
  through : ∀ call, world.scanner.call = some call → ∀ path ∈ call.paths, path ∈ world.scanner.awaited ∨ Current world path
  expected : ∀ entry ∈ world.scanner.expected, (world.disk entry.1).map DiskFile.metadata = some entry.2
  staged : ∀ file ∈ world.scanner.staged, (world.disk file.path).bind (·.content.text) = some file.content

variable {world : ScanWorld τ}

omit [CaseMapping] [AppFiles] [AlSyntax τ] in
/-- A scan that fails promises nothing. -/
theorem Progress.failed (error : ScanError) : Progress { world with scanner := .failed error } where
  through := by
    intro call none
    cases none
  expected := by
    intro entry none
    cases none
  staged := by
    intro file none
    cases none

omit [CaseMapping] [AppFiles] [AlSyntax τ] in
/-- A scan that goes on may be through with current files, and take up those that it knows as they are. -/
theorem Progress.goto (progress : Progress world) {scanner : Scanner} (call : scanner.call = world.scanner.call)
    (awaited : ∀ path ∈ world.scanner.awaited, path ∈ scanner.awaited ∨ Current world path)
    (expected : ∀ entry ∈ scanner.expected, entry ∈ world.scanner.expected ∨
      (world.disk entry.1).map DiskFile.metadata = some entry.2)
    (staged : ∀ file ∈ scanner.staged, file ∈ world.scanner.staged ∨
      (world.disk file.path).bind (·.content.text) = some file.content) : Progress { world with scanner := scanner } where
  through := by
    intro called same path found
    rcases progress.through called (call.symm.trans same) path found with before | current
    · exact awaited path before
    · exact .inr current
  expected := by
    intro entry member
    rcases expected entry member with before | known
    · exact progress.expected entry before
    · exact known
  staged := by
    intro file member
    rcases staged file member with before | known
    · exact progress.staged file before
    · exact known

omit [CaseMapping] [AppFiles] [AlSyntax τ] in
theorem strictFileMetadata_ok {disk : Disk} {path : FilePath} {metadata : FileMetadata}
    (ok : strictFileMetadata disk path = .ok metadata) : (disk path).map DiskFile.metadata = some metadata := by
  unfold strictFileMetadata at ok
  split at ok
  next => cases ok
  next file there =>
    split at ok
    next => cases ok
    next =>
      cases ok
      rw [there]
      rfl

omit [CaseMapping] [AppFiles] [AlSyntax τ] in
theorem current_of {path : FilePath} {content : String} (disk : (world.disk path).bind (·.content.text) = some content)
    (indexed : world.index.files.get? path = some content) : Current world path := by
  obtain ⟨file, there, text⟩ := Option.bind_eq_some_iff.mp disk
  exact ⟨file, content, there, text, indexed⟩

omit [CaseMapping] [AppFiles] [AlSyntax τ] in
/-- A file with metadata that the index trusts needs no reading. -/
theorem Trusted.current (trusted : Trusted world) {path : FilePath} {metadata : FileMetadata}
    (expected : (world.disk path).map DiskFile.metadata = some metadata)
    (unchanged : world.index.fileMetadata.get? path = some metadata) (calm : path ∉ world.index.racy) :
    Current world path := by
  obtain ⟨file, there, same⟩ := Option.map_eq_some_iff.mp expected
  rcases trusted path metadata unchanged with racy | ⟨content, stored, -, faithful⟩
  · exact absurd racy calm
  · exact ⟨file, content, there, faithful file there same, stored⟩

omit [CaseMapping] [AppFiles] [AlSyntax τ] in
theorem progress_statting (progress : Progress world) {call : ScanCall} {path : FilePath} {pending : List FilePath}
    {total sum : Nat} {metadata : List (FilePath × FileMetadata)} {found : FileMetadata}
    (scanning : world.scanner = .statting call (path :: pending) total metadata)
    (ok : strictFileMetadata world.disk path = .ok found) :
    Progress { world with scanner := .statting call pending sum (metadata ++ [(path, found)]) } := by
  apply progress.goto
  · rw [scanning]
    rfl
  · intro other awaited
    rw [scanning] at awaited
    left
    simp only [Scanner.awaited, List.map_append, List.map_cons, List.map_nil, List.mem_append, List.mem_cons] at awaited ⊢
    rcases awaited with (own | later) | before
    · exact .inr (.inr (.inl own))
    · exact .inl later
    · exact .inr (.inl before)
  · intro entry member
    rw [scanning]
    rcases List.mem_append.mp member with before | own
    · exact .inl before
    · right
      rw [List.mem_singleton.mp own]
      exact strictFileMetadata_ok ok
  · intro file none
    cases none

omit [CaseMapping] [AppFiles] [AlSyntax τ] in
theorem progress_readNext (trusted : Trusted world) (progress : Progress world) {call : ScanCall} {path : FilePath}
    {metadata : FileMetadata} {pending : List (FilePath × FileMetadata)} {staged : List Staged}
    (scanning : world.scanner = .reading call ((path, metadata) :: pending) staged) :
    Progress { world with scanner := world.readNext call path metadata pending staged } := by
  have expected : (world.disk path).map DiskFile.metadata = some metadata := by
    apply progress.expected (path, metadata)
    rw [scanning]
    exact List.mem_cons_self
  have called : world.scanner.call = some call := by
    rw [scanning]
    rfl
  unfold ScanWorld.readNext
  dsimp only
  split
  next skipped =>
    simp only [Bool.and_eq_true, decide_eq_true_eq] at skipped
    obtain ⟨⟨-, unchanged⟩, calm⟩ := skipped
    apply progress.goto
    · exact called.symm
    · intro other awaited
      rw [scanning] at awaited
      rcases List.mem_cons.mp awaited with here | later
      · right
        rw [here]
        exact trusted.current expected unchanged calm
      · exact .inl later
    · intro entry member
      rw [scanning]
      exact .inl (List.mem_cons_of_mem _ member)
    · intro file member
      rw [scanning]
      exact .inl member
  next =>
    split
    next => exact Progress.failed _
    next content text =>
      apply progress.goto
      · exact called.symm
      · intro other awaited
        rw [scanning] at awaited
        exact .inl awaited
      · intro entry member
        rw [scanning]
        exact .inl (List.mem_cons_of_mem _ member)
      · intro file member
        rw [scanning]
        rcases List.mem_cons.mp member with own | before
        · right
          rw [own]
          exact text
        · exact .inl before

omit [CaseMapping] [AppFiles] [AlSyntax τ] in
/-- A file that was read joins those that are to be indexed. -/
theorem Progress.stage (progress : Progress world) {call : ScanCall} {file : Staged}
    {pending : List (FilePath × FileMetadata)} {staged : List Staged} (called : world.scanner.call = some call)
    (awaited : world.scanner.awaited = file.path :: (pending.map (·.1) ++ staged.map (·.path)))
    (expected : world.scanner.expected = pending) (read : world.scanner.staged = file :: staged) :
    Progress { world with scanner := .reading call pending (staged ++ [file]) } := by
  apply progress.goto
  · exact called.symm
  · intro path before
    rw [awaited] at before
    left
    simp only [Scanner.awaited, List.map_append, List.map_cons, List.map_nil, List.mem_append, List.mem_cons] at before ⊢
    rcases before with own | later | staged
    · exact .inr (.inr (.inl own))
    · exact .inl later
    · exact .inr (.inl staged)
  · intro entry member
    rw [expected]
    exact .inl member
  · intro other member
    rw [read]
    left
    rcases List.mem_append.mp member with before | own
    · exact List.mem_cons_of_mem _ before
    · rw [List.mem_singleton.mp own]
      exact List.mem_cons_self

omit [CaseMapping] [AppFiles] [AlSyntax τ] in
theorem progress_checkRead (progress : Progress world) {call : ScanCall} {file : Staged} {unchanged : Bool}
    {pending : List (FilePath × FileMetadata)} {staged : List Staged}
    (scanning : world.scanner = .checking call file unchanged pending staged) :
    Progress { world with scanner := world.checkRead call file unchanged pending staged } := by
  unfold ScanWorld.checkRead
  split
  next => exact Progress.failed _
  next =>
    split
    next => exact Progress.failed _
    next =>
    split
    next =>
      apply progress.goto
      · rw [scanning]
        rfl
      · intro path awaited
        rw [scanning] at awaited
        exact .inl awaited
      · intro entry member
        rw [scanning]
        exact .inl member
      · intro other member
        rw [scanning]
        exact .inl member
    next => apply progress.stage <;> rw [scanning] <;> rfl

omit [CaseMapping] [AppFiles] [AlSyntax τ] in
theorem progress_compareRead (progress : Progress world) {call : ScanCall} {file : Staged} {unchanged : Bool}
    {pending : List (FilePath × FileMetadata)} {staged : List Staged}
    (scanning : world.scanner = .comparing call file unchanged pending staged) :
    Progress (world.compareRead call file unchanged pending staged) := by
  have read : (world.disk file.path).bind (·.content.text) = some file.content := by
    apply progress.staged file
    rw [scanning]
    exact List.mem_cons_self
  unfold ScanWorld.compareRead
  split
  next same =>
    have indexed : world.index.files.get? file.path = some file.content := by
      simp only [Bool.and_eq_true, decide_eq_true_eq] at same
      exact same.2
    have through : Progress { world with scanner := .reading call pending staged } := by
      apply progress.goto
      · rw [scanning]
        rfl
      · intro path awaited
        rw [scanning] at awaited
        rcases List.mem_cons.mp awaited with own | later
        · right
          rw [own]
          exact current_of read indexed
        · exact .inl later
      · intro entry member
        rw [scanning]
        exact .inl member
      · intro other member
        rw [scanning]
        exact .inl (List.mem_cons_of_mem _ member)
    dsimp only
    split
    · exact through
    -- taking a mark away leaves the texts as they are
    · exact ⟨through.through, through.expected, through.staged⟩
  next => apply progress.stage <;> rw [scanning] <;> rfl

/-- The file is current once it is indexed, and so are those that were. -/
theorem progress_indexStaged (progress : Progress world) {call : ScanCall} {file : Staged} {staged : List Staged}
    {delta : ScanDelta} (scanning : world.scanner = .indexing call (file :: staged) delta) :
    Progress (world.indexStaged call file staged delta) := by
  have read : (world.disk file.path).bind (·.content.text) = some file.content := by
    apply progress.staged file
    rw [scanning]
    exact List.mem_cons_self
  have files : (world.indexStaged call file staged delta).index.files = world.index.files.insert file.path file.content :=
    FileIndex.addFileWithMeta_files ..
  refine ⟨?_, ?_, ?_⟩
  · intro called same path found
    have before : world.scanner.call = some called := by
      rw [scanning]
      exact same
    have awaited := progress.through called before path found
    rw [scanning] at awaited
    by_cases own : path = file.path
    · right
      rw [own]
      refine current_of read ?_
      rw [files, get?_insert_path, if_pos rfl]
    · rcases awaited with later | ⟨held, content, there, text, indexed⟩
      · rcases List.mem_cons.mp later with here | later
        · exact absurd here own
        · exact .inl later
      · right
        refine ⟨held, content, there, text, ?_⟩
        rw [files, get?_insert_path, if_neg (Ne.symm own)]
        exact indexed
  · intro entry none
    cases none
  · intro other member
    apply progress.staged other
    rw [scanning]
    exact List.mem_cons_of_mem _ member

omit [CaseMapping] [AppFiles] [AlSyntax τ] in
theorem get?_files_removeFiles (index : FileIndex τ) (paths : List FilePath) {path : FilePath} (kept : path ∉ paths) :
    (paths.foldl FileIndex.removeFile index).files.get? path = index.files.get? path := by
  induction paths generalizing index with
  | nil => rfl
  | cons removed rest ih =>
      rw [List.foldl_cons, ih _ fun later => kept (List.mem_cons_of_mem _ later), FileIndex.removeFile_eq]
      dsimp only
      rw [get?_erase_path, if_neg fun same => kept (by simp [same])]

omit [CaseMapping] [AppFiles] [AlSyntax τ] in
/-- No file that was found is evicted. -/
theorem not_mem_deleted {call : ScanCall} {path : FilePath} (found : path ∈ call.paths) : path ∉ world.deleted call := by
  intro member
  unfold ScanWorld.deleted at member
  split at member
  · have gone := (List.mem_filter.mp member).2
    simp only [Bool.and_eq_true, decide_eq_true_eq] at gone
    exact gone.2 found
  · have gone := (List.mem_filter.mp member).2
    exact of_decide_eq_true gone found

omit [CaseMapping] [AppFiles] [AlSyntax τ] in
theorem progress_evict (progress : Progress world) {call : ScanCall} {delta : ScanDelta}
    (scanning : world.scanner = .evicting call delta) : Progress (world.evict call delta) := by
  refine ⟨?_, ?_, ?_⟩
  · intro called same path found
    cases same
    have before : world.scanner.call = some call := by
      rw [scanning]
      rfl
    have awaited := progress.through call before path found
    rw [scanning] at awaited
    rcases awaited with none | ⟨file, content, there, text, indexed⟩
    · cases none
    · right
      refine ⟨file, content, there, text, ?_⟩
      rw [ScanWorld.evict]
      dsimp only
      rw [get?_files_removeFiles _ _ (not_mem_deleted found)]
      exact indexed
  · intro entry none
    cases none
  · intro file none
    cases none

theorem progress_step (trusted : Trusted world) (progress : Progress world) : Progress world.step := by
  unfold ScanWorld.step
  cases scanning : world.scanner with
  | idle | finished | failed => exact progress
  | statting call pending total metadata =>
      cases pending with
      | nil =>
          apply progress.goto <;> rw [scanning]
          · rfl
          · intro path awaited
            left
            simpa [Scanner.awaited] using awaited
          · intro entry member
            exact .inl member
          · intro file none
            cases none
      | cons path pending =>
          dsimp only
          split
          next => exact Progress.failed _
          next found ok =>
            split
            next => exact Progress.failed _
            next => exact progress_statting progress scanning ok
  | reading call pending staged =>
      cases pending with
      | nil =>
          apply progress.goto <;> rw [scanning]
          · rfl
          · intro path awaited
            exact .inl awaited
          · intro entry none
            cases none
          · intro file member
            exact .inl member
      | cons next pending => exact progress_readNext trusted progress scanning
  | checking call file unchanged pending staged => exact progress_checkRead progress scanning
  | comparing call file unchanged pending staged => exact progress_compareRead progress scanning
  | indexing call staged delta =>
      cases staged with
      | nil =>
          apply progress.goto <;> rw [scanning]
          · rfl
          · intro path awaited
            exact .inl awaited
          · intro entry none
            cases none
          · intro file none
            cases none
      | cons file staged => exact progress_indexStaged progress scanning
  | evicting call delta => exact progress_evict progress scanning

theorem step_call : world.step.scanner.call = world.scanner.call ∨ world.step.scanner.call = none := by
  unfold ScanWorld.step
  cases scanning : world.scanner with
  | idle | finished | failed => exact .inl (by rw [scanning])
  | statting call pending total metadata =>
      cases pending with
      | nil => exact .inl rfl
      | cons path pending =>
          dsimp only
          split
          next => exact .inr rfl
          next => split <;> [exact .inr rfl; exact .inl rfl]
  | reading call pending staged =>
      cases pending with
      | nil => exact .inl rfl
      | cons next pending =>
          dsimp only [ScanWorld.readNext]
          split
          next => exact .inl rfl
          next => split <;> [exact .inr rfl; exact .inl rfl]
  | checking call file unchanged pending staged =>
      dsimp only [ScanWorld.checkRead]
      split
      next => exact .inr rfl
      next =>
        split
        next => exact .inr rfl
        next => split <;> exact .inl rfl
  | comparing call file unchanged pending staged =>
      dsimp only [ScanWorld.compareRead]
      split <;> exact .inl rfl
  | indexing call staged delta => cases staged <;> exact .inl rfl
  | evicting call delta => exact .inl rfl

/-- A scan of these files is under way, and the disk rests. -/
structure Scans (call : ScanCall) (world : ScanWorld τ) : Prop where
  trusted : Trusted world
  readWell : ReadWell world
  progress : Progress world
  called : ∀ other, world.scanner.call = some other → other = call

theorem Scans.after {call : ScanCall} (scans : Scans call world) (clock : Clock) {action : ScanAction}
    (quiet : action.quiet) (timely : Timely world action) : Scans call (world.after clock action) := by
  have kept := after_kept clock action ⟨scans.trusted, scans.readWell⟩ timely
  cases action with
  | write | delete | scan => exact quiet.elim
  | advance nanoseconds =>
      refine ⟨kept.1, kept.2, ?_, scans.called⟩
      exact ⟨scans.progress.through, scans.progress.expected, scans.progress.staged⟩
  | step =>
      refine ⟨kept.1, kept.2, progress_step scans.trusted scans.progress, ?_⟩
      intro other same
      have stepped : world.step.scanner.call = some other := same
      have call_eq : world.step.scanner.call = world.scanner.call ∨ world.step.scanner.call = none := step_call
      rcases call_eq with unchanged | gone
      · exact scans.called other (unchanged.symm.trans stepped)
      · rw [gone] at stepped
        cases stepped

theorem Scans.run {call : ScanCall} (scans : Scans call world) (clock : Clock) {during : List ScanAction}
    (quiet : ∀ action ∈ during, action.quiet) (timely : Machine.Allowed (ScanWorld.after clock) Timely world during) :
    Scans call (Machine.run (ScanWorld.after clock) world during) := by
  induction during generalizing world with
  | nil => exact scans
  | cons action rest ih =>
      apply ih
      · exact scans.after clock (quiet action List.mem_cons_self) timely.1
      · intro other member
        exact quiet other (List.mem_cons_of_mem _ member)
      · exact timely.2

omit [CaseMapping] [AppFiles] [AlSyntax τ] in
theorem Scans.begin (trusted : Trusted world) (incremental : Bool) (root : FilePath) (paths : List FilePath) :
    Scans ⟨incremental, root, paths⟩ (world.begin_ incremental root (.ok paths)) where
  trusted := trusted
  readWell := trivial
  progress := by
    refine ⟨?_, ?_, ?_⟩
    · intro call same path found
      cases same
      left
      simpa [ScanWorld.begin_, Scanner.awaited] using found
    · intro entry none
      cases none
    · intro file none
      cases none
  called := by
    intro other same
    cases same
    rfl

/-- A scan that ends, and during which no file changes, leaves every file that it found with the text on the disk, in every
history in which no file that was racy when it was read is judged later than that. -/
theorem scan_current (clock : Clock) (before during : List ScanAction) (root : FilePath) (paths : List FilePath)
    (timely : Machine.Allowed (ScanWorld.after clock) Timely (emptyDisk : ScanWorld τ)
      (before ++ .scan true root (.ok paths) :: during))
    (rests : (Machine.run (ScanWorld.after clock) (emptyDisk : ScanWorld τ) before).scanner.rests = true)
    (quiet : ∀ action ∈ during, action.quiet) (call : ScanCall) (delta : ScanDelta)
    (finished : (Machine.run (ScanWorld.after clock) (emptyDisk : ScanWorld τ)
      (before ++ .scan true root (.ok paths) :: during)).scanner = .finished call delta) :
    ∀ path ∈ paths, Current (Machine.run (ScanWorld.after clock) (emptyDisk : ScanWorld τ)
      (before ++ .scan true root (.ok paths) :: during)) path := by
  rw [Machine.allowed_append] at timely
  obtain ⟨timelyBefore, -, timelyDuring⟩ := timely
  have trusted := run_kept clock before timelyBefore
  rw [Machine.run_append, Machine.run_cons] at finished ⊢
  have begun : (Machine.run (ScanWorld.after clock) (emptyDisk : ScanWorld τ) before).after clock
        (.scan true root (.ok paths)) =
      (Machine.run (ScanWorld.after clock) emptyDisk before).begin_ true root (.ok paths) := if_pos rests
  rw [begun] at finished timelyDuring ⊢
  have scans := (Scans.begin trusted true root paths).run clock quiet timelyDuring
  intro path found
  have called := scans.called call (by rw [finished]; rfl)
  have through := scans.progress.through call (by rw [finished]; rfl) path (by rw [called]; exact found)
  rw [finished] at through
  rcases through with none | current
  · cases none
  · exact current

end Steps

/-! ## A rewrite before the file is indexed -/

/-- Times of modification are whole seconds. -/
def wholeSeconds : Clock := ⟨1000000000, by decide, by decide⟩

/-- A file is written, and a scan reads it. -/
def writtenAndRead : List ScanAction :=
  .write ["a.al"] (.ofText "// A") :: .scan true [] (.ok [["a.al"]]) :: List.replicate 4 .step

/-- The file is rewritten within the second, and indexed after more than two. -/
def rewrittenAndIndexed : List ScanAction :=
  .write ["a.al"] (.ofText "// B") :: .advance 3000000000 :: List.replicate 5 .step

section Examples

attribute [local instance] CaseMapping.latin1 installParser noApps

theorem scan_current_settled :
    Current (Machine.run (ScanWorld.after wholeSeconds) (emptyDisk : ScanWorld Unit)
      ([.write ["a.al"] (.ofText "// A"), .advance 3000000000] ++
        .scan true [] (.ok [["a.al"]]) :: List.replicate 9 .step)) ["a.al"] :=
  scan_current wholeSeconds _ _ [] [["a.al"]] (by decide +kernel) rfl
    (by
      intro action step
      rw [List.eq_of_mem_replicate step]
      trivial)
    ⟨true, [], [["a.al"]]⟩ _ rfl _ (List.mem_singleton_self _)

/-- The first scan judges by the time after it has read, and the second skips the file. -/
theorem scan_skips_rewritten :
    let before := Machine.run (ScanWorld.after wholeSeconds) (emptyDisk : ScanWorld Unit)
      (writtenAndRead ++ rewrittenAndIndexed)
    let world := Machine.run (ScanWorld.after wholeSeconds) before (.scan true [] (.ok [["a.al"]]) :: List.replicate 6 .step)
    before.scanner.rests = true ∧ world.scanner = .finished ⟨true, [], [["a.al"]]⟩ {} ∧
      world.index.files.get? ["a.al"] = some "// A" ∧
      (world.disk ["a.al"]).bind (·.content.text) = some "// B" := by
  refine ⟨?_, ?_, ?_, ?_⟩ <;> rfl

end Examples

end AlLanguage.Source
