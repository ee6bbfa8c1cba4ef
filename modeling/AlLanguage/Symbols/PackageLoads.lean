import AlLanguage.Symbols.DiskCache
import Mathlib.Tactic.Common

/-!
# What loads through the disk cache return

- A file that was saved is read back for the metadata it was stamped with and for no other.
- `Stamped` is what every cache file has to satisfy. A save keeps it when the package at the path is still the one that
  was parsed.
-/

namespace AlLanguage.Symbols

open Library Threads

/-! ## Saved files -/

theorem readU32_leBytes {n : Nat} (small : n < 2 ^ 32) (rest : Bytes) : readU32 (leBytes n ++ rest) 0 = n := by
  simp only [readU32, readLe, leBytes, List.drop_zero, List.cons_append, List.nil_append, List.take_succ_cons,
    List.take_zero, List.foldr_cons, List.foldr_nil, UInt8.toNat_ofNat']
  omega

theorem durationSinceEpoch_inj {time time' : SystemTime} {duration duration' : Duration}
    (since : time.durationSinceEpoch = some duration) (since' : time'.durationSinceEpoch = some duration')
    (secs : duration.secs = duration'.secs) (nanos : duration.nanos = duration'.nanos) : time = time' := by
  unfold SystemTime.durationSinceEpoch at since since'
  split at since
  · cases since
  split at since'
  · cases since'
  cases since
  cases since'
  have same : time.secs = time'.secs := by simpa using congrArg UInt64.toInt64 secs
  cases time
  cases time'
  simp only [SystemTime.mk.injEq]
  exact ⟨same, nanos⟩

section Saved

variable [CacheJson]

theorem decodeCache_saved {headerJson objectsJson objectsData : Bytes} {header : CacheHeader}
    (small : headerJson.length < 2 ^ 32)
    (decoded : decodeCache (leBytes headerJson.length ++ headerJson ++ objectsJson) = some (header, objectsData)) :
    CacheJson.readHeader headerJson = some header ∧ objectsData = objectsJson := by
  have prefixed : (leBytes headerJson.length).length = 4 := rfl
  unfold decodeCache at decoded
  rw [List.append_assoc, readU32_leBytes small] at decoded
  split at decoded
  · cases decoded
  dsimp only at decoded
  split at decoded
  · cases decoded
  have json : (List.take (4 + headerJson.length) (leBytes headerJson.length ++ (headerJson ++ objectsJson))).drop 4 =
      headerJson := by
    rw [List.drop_take, ← prefixed, List.drop_left, prefixed, Nat.add_sub_cancel_left, List.take_left]
  have objects : (leBytes headerJson.length ++ (headerJson ++ objectsJson)).drop (4 + headerJson.length) = objectsJson := by
    rw [← List.drop_drop, ← prefixed, List.drop_left, List.drop_left]
  rw [json, objects] at decoded
  split at decoded
  · cases decoded
  next header' read =>
    cases decoded
    exact ⟨read, rfl⟩

theorem readCache_saved {metadata metadata' : Metadata} {package package' : SymbolPackage} {data : Bytes}
    (saved : cacheData metadata package = .ok data) (read : readCache metadata' data = some package') :
    metadata' = metadata ∧
      package' = { package with objectCount := SymbolPackage.declaredObjectCount package.objects } := by
  unfold cacheData at saved
  split at saved
  · cases saved
  next mtime since =>
  dsimp only at saved
  split at saved
  · cases saved
  next small =>
  cases saved
  unfold readCache at read
  dsimp only at read
  split at read
  · cases read
  next whole =>
  rw [List.length_take] at whole
  rw [List.take_of_length_le (by omega)] at read
  split at read
  · cases read
  next header objectsData decoded =>
  obtain ⟨readHeader, rfl⟩ := decodeCache_saved (Nat.lt_of_not_le small) decoded
  have written := CacheJson.readHeader_written _ _ readHeader
  subst written
  split at read
  · cases read
  next mtime' since' =>
  dsimp only at read
  split at read
  · cases read
  split at read
  · cases read
  next matching =>
  simp only [Bool.or_eq_true, Bool.not_eq_true', Bool.and_eq_false_iff, beq_eq_false_iff_ne, decide_eq_true_eq,
    not_or, not_not] at matching
  obtain ⟨⟨secs, nanos⟩, len⟩ := matching
  split at read
  · cases read
  next objects readObjects =>
  have stored := CacheJson.readObjects_written _ _ readObjects
  subst stored
  cases read
  refine ⟨?_, rfl⟩
  cases metadata
  cases metadata'
  simp only [Metadata.mk.injEq]
  exact ⟨durationSinceEpoch_inj since' since secs.symm nanos.symm, len.symm⟩

end Saved

/-! ## What is to hold -/

section Loads

variable [CacheJson] [ArchiveLibrary]

/-- The files that there ever are at the paths. -/
abbrev Files := AppPath → AppFile → Prop

/-- Two different contents never share both modification time and size, among the paths of one cache file. -/
def ToldApart (files : Files) : Prop :=
  ∀ path path' file file', cachePathFor path = cachePathFor path' → files path file → files path' file' →
    file.metadata = file'.metadata → file.content = file'.content

/-- Whoever reads the cache file gets the package of the file whose metadata he comes with. -/
def Stamped (files : Files) (cachePath : String) (data : Bytes) : Prop :=
  ∀ path file package, cachePathFor path = cachePath → files path file → readCache file.metadata data = some package →
    parsePackage file.content = .ok package

structure Faithful (files : Files) (disk : Disk) : Prop where
  apps : ∀ path file, disk.apps path = some file → files path file
  caches : ∀ cachePath data, disk.caches cachePath = some data → Stamped files cachePath data

/-- What a load knows. -/
def Knows (files : Files) : Load → Prop
  | .measuring path metadata content | .opening path metadata content =>
      ∃ file, files path file ∧ file.metadata = metadata ∧ file.content = content
  | .loaded _ content package | .saving _ content package => parsePackage content = .ok package
  | .publishing path data _ => Stamped files (cachePathFor path) data
  | _ => True

/-- Only these files are put at the paths. -/
def Replaced (files : Files) (_world : World Disk Load) : Action AppPath DiskEvent → Prop
  | .environment (.replace path (some file)) => files path file
  | _ => True

instance (files : Files) [∀ path file, Decidable (files path file)] (world : World Disk Load)
    (action : Action AppPath DiskEvent) : Decidable (Replaced files world action) := by
  unfold Replaced
  split <;> infer_instance

/-- A save finds at the path the content that was parsed. -/
def Unmoved (files : Files) (world : World Disk Load) : Action AppPath DiskEvent → Prop
  | .environment (.replace path (some file)) => files path file
  | .step t =>
    match world.threads t with
    | .saving path content _ => ∀ file ∈ world.shared.apps path, file.content = content
    | _ => True
  | _ => True

instance (files : Files) [∀ path file, Decidable (files path file)] (world : World Disk Load) (action : Action AppPath DiskEvent) :
    Decidable (Unmoved files world action) := by
  unfold Unmoved
  split
  · infer_instance
  · split <;> infer_instance
  · infer_instance

section Steps

variable {files : Files} {disk : Disk}

theorem stamped_saved (told : ToldApart files) {path : AppPath} {file : AppFile} {package : SymbolPackage} {data : Bytes}
    (present : files path file) (parsed : parsePackage file.content = .ok package)
    (saved : cacheData file.metadata package = .ok data) : Stamped files (cachePathFor path) data := by
  intro path' file' package' shared present' read
  obtain ⟨metadata, rebuilt⟩ := readCache_saved saved read
  rw [told path' path file' file shared present' present metadata, parsed, rebuilt, ← objectCount_of_parsePackage parsed]

theorem Faithful.putCache (faithful : Faithful files disk) {cachePath : String} {data : Bytes}
    (stamped : Stamped files cachePath data) : Faithful files (disk.putCache cachePath data) := by
  refine ⟨faithful.apps, ?_⟩
  let Good (other : String) (found : Option Bytes) := ∀ data, found = some data → Stamped files other data
  have new : Good cachePath (some data) := by
    intro data' same
    cases same
    exact stamped
  exact (Function.forall_update_iff disk.caches (p := Good)).mpr ⟨new, fun other _ => faithful.caches other⟩

theorem Faithful.apply (faithful : Faithful files disk) (event : DiskEvent)
    (present : ∀ path file, event = .replace path (some file) → files path file) : Faithful files (disk.apply event) := by
  cases event with
  | replace path file =>
      refine ⟨?_, faithful.caches⟩
      let Good (other : AppPath) (found : Option AppFile) := ∀ file, found = some file → files other file
      have new : Good path file := by
        rintro file rfl
        exact present path file rfl
      exact (Function.forall_update_iff disk.apps (p := Good)).mpr ⟨new, fun other _ => faithful.apps other⟩
  | drop cachePath =>
      refine ⟨faithful.apps, ?_⟩
      let Good (other : String) (found : Option Bytes) := ∀ data, found = some data → Stamped files other data
      have new : Good cachePath none := by
        intro data found
        cases found
      exact (Function.forall_update_iff disk.caches (p := Good)).mpr ⟨new, fun other _ => faithful.caches other⟩
  | protect writable => exact ⟨faithful.apps, faithful.caches⟩

theorem next_opening (faithful : Faithful files disk) {path : AppPath} {metadata : Metadata} {content : Bytes}
    (knows : Knows files (.opening path metadata content)) :
    Knows files (disk.next (.opening path metadata content)).2 := by
  obtain ⟨file, present, rfl, rfl⟩ := knows
  rw [Disk.next]
  split
  · trivial
  next data found =>
  split
  · trivial
  next package read => exact faithful.caches (cachePathFor path) data found path file package rfl present read

theorem next_saving (told : ToldApart files) (faithful : Faithful files disk) {path : AppPath} {content : Bytes}
    {package : SymbolPackage} (parsed : parsePackage content = .ok package)
    (unmoved : ∀ file ∈ disk.apps path, file.content = content) :
    Knows files (disk.next (.saving path content package)).2 := by
  rw [Disk.next]
  split
  · trivial
  next file found =>
  split
  · trivial
  next data saved =>
  rw [← unmoved file found] at parsed
  exact stamped_saved told (faithful.apps path file found) parsed saved

/-- A step of a load changes the disk where it renames its file. -/
theorem next_disk (disk : Disk) (load : Load) :
    (disk.next load).1 = disk ∨
      ∃ path data package, load = .publishing path data package ∧ (disk.next load).1 = disk.putCache (cachePathFor path) data := by
  fun_cases Disk.next disk load
  case case19 path data package writable => exact .inr ⟨path, data, package, rfl, rfl⟩
  all_goals exact .inl rfl

theorem packageLoads_stable (told : ToldApart files) :
    packageLoads.Stable (Unmoved files) (Faithful files) (fun _ load => Knows files load) where
  start world path sound := trivial
  step world t disk load sound unmoved stepped := by
    change world.shared.next (world.threads t) = (disk, load) at stepped
    have knows := sound.2 t
    have kept : Faithful files (world.shared.next (world.threads t)).1 := by
      rcases next_disk world.shared (world.threads t) with same | ⟨path, data, package, at_, put⟩
      · rw [same]
        exact sound.1
      · rw [put]
        rw [at_] at knows
        exact sound.1.putCache knows
    rw [stepped] at kept
    refine ⟨kept, ?_, fun other _ => sound.2 other⟩
    suffices after : Knows files (world.shared.next (world.threads t)).2 by
      rw [stepped] at after
      exact after
    cases at_ : world.threads t with
    | statting path =>
        rw [Disk.next]
        split
        · trivial
        next file found => exact ⟨file, sound.1.apps path file found, rfl, rfl⟩
    | measuring path metadata content =>
        rw [at_] at knows
        rw [Disk.next]
        split
        · trivial
        split
        · trivial
        · exact knows
    | opening path metadata content =>
        rw [at_] at knows
        exact next_opening sound.1 knows
    | loaded path content package =>
        rw [at_] at knows
        exact knows
    | sizing path =>
        rw [Disk.next]
        split
        · trivial
        split <;> trivial
    | reading path fileSize =>
        rw [Disk.next]
        split
        · trivial
        split
        · trivial
        next package read => exact parsePackage_of_readOpenedFile read
    | saving path content package =>
        rw [at_] at knows
        simp only [Unmoved, at_] at unmoved
        exact next_saving told sound.1 knows unmoved
    | publishing path data package =>
        rw [Disk.next]
        split <;> trivial
    | parsed path package => trivial
    | failed path error => trivial
    | idle => trivial
  environment world event sound unmoved := by
    refine ⟨sound.1.apply event ?_, sound.2⟩
    rintro path file rfl
    exact unmoved

end Steps

/-! ## Runs -/

/-- Each package that `load` has returned is the parse of the content that the file had when its metadata were read. -/
def Serves (world : World Disk Load) : Prop :=
  ∀ t path content package, world.threads t = .loaded path content package → parsePackage content = .ok package

theorem packageLoads_serve {files : Files} (told : ToldApart files) (apps : AppPath → Option AppFile)
    (present : ∀ path file, apps path = some file → files path file) (actions : List (Action AppPath DiskEvent))
    (unmoved : packageLoads.Allowed (Unmoved files) (freshDisk apps) actions) :
    Serves (Machine.run packageLoads.after (freshDisk apps) actions) := by
  have fresh : System.Sound (Faithful files) (fun _ load => Knows files load) (freshDisk apps) := by
    refine ⟨⟨present, ?_⟩, fun _ => trivial⟩
    intro cachePath data found
    cases found
  intro t path content package loaded
  have knows := ((packageLoads_stable told).run fresh actions unmoved).2 t
  rw [loaded] at knows
  exact knows

end Loads

/-! ## A package that is replaced while it is loaded -/

/-- The bytes of a number, the highest first. -/
def beBytes : Nat → Nat → Bytes
  | 0, _ => []
  | len + 1, n => UInt8.ofNat (n >>> (8 * len)) :: beBytes len n

/-- A package `A` without objects: the digit of its version, and the checksum of its manifest. -/
def appContent (version : UInt8) (crc : Nat) : Bytes :=
  beBytes 18 0x4E415658504B030414000000000000002100 ++
  beBytes 4 crc ++
  beBytes 44 0x4500000045000000100000004E6176784D616E69666573742E786D6C3C5061636B6167653E3C417070204964 ++
  beBytes 37 0x3D226122204E616D653D224122205075626C69736865723D2250222056657273696F6E3D22 ++
  [version] ++
  beBytes 44 0x2E30222F3E3C2F5061636B6167653E504B03041400000000000000210043BFA6A30200000002000000140000 ++
  beBytes 39 0x0053796D626F6C5265666572656E63652E6A736F6E7B7D504B0102140014000000000000002100 ++
  beBytes 4 crc ++
  beBytes 44 0x45000000450000001000000000000000000000008001000000004E6176784D616E69666573742E786D6C504B ++
  beBytes 44 0x010214001400000000000000210043BFA6A30200000002000000140000000000000000000000800173000000 ++
  beBytes 42 0x53796D626F6C5265666572656E63652E6A736F6E504B0506000000000200020080000000A70000000000

def firstApp : AppFile := ⟨appContent 0x31 0xD605BF85, ⟨1700000000, 0⟩⟩

def secondApp : AppFile := ⟨appContent 0x32 0x24B177AC, ⟨1700000001, 0⟩⟩

/-- What the archive library makes of the two packages. -/
@[reducible] def twoArchives : ArchiveLibrary where
  zipArchive content :=
    let archive (version : String) : ZipArchive := ⟨2, some (.ok ⟨"a", "A", "P", version⟩), some fun _ => .ok []⟩
    if content = firstApp.content then .ok (archive "1.0")
    else if content = secondApp.content then .ok (archive "2.0")
    else .error (.other "ZIP error: invalid Zip archive")

/-- The header for the first package, stamped in the second that ends with a digit. -/
def headerText (digit : UInt8) : Bytes :=
  beBytes 42 0x7B22736368656D615F76657273696F6E223A312C226D74696D655F73656373223A313730303030303030 ++
  [digit] ++
  beBytes 44 0x2C226D74696D655F6E616E6F73223A302C2266696C655F73697A65223A3332312C227061636B6167655F6E61 ++
  beBytes 44 0x6D65223A2241222C227075626C6973686572223A2250222C226170705F6964223A2261222C2276657273696F ++
  beBytes 9 0x6E223A22312E30227D

/-- The JSON library on one header and on the empty list. -/
@[reducible] def oneHeader (header : CacheHeader) (digit : UInt8) : CacheJson where
  writeHeader other := if other = header then headerText digit else []
  readHeader text := if text = headerText digit then some header else none
  writeObjects objects := if objects.isEmpty then [0x5B, 0x5D] else []
  readObjects text := if text = [0x5B, 0x5D] then some [] else none
  readHeader_written other header' read := by
    split at read
    next same =>
      rw [if_pos rfl] at read
      cases read
      exact same.symm
    next => simp [headerText, beBytes] at read
  readObjects_written objects objects' read := by
    cases objects with
    | nil =>
        cases read
        rfl
    | cons object rest => cases read

def firstHeader (secs : UInt64) : CacheHeader := ⟨1, secs, 0, 321, "A", "P", "a", "1.0"⟩

def somePath : AppPath := ⟨beBytes 6 0x2F612E617070, some "a.app"⟩

def firstPresent (path : AppPath) : Option AppFile := if path = somePath then some firstApp else none

def steps (t n : Nat) : List (Action AppPath DiskEvent) := List.replicate n (.step t)

/-- The second load is served from the cache. -/
def loadTwice : List (Action AppPath DiskEvent) :=
  .start 0 somePath :: steps 0 6 ++ .start 1 somePath :: steps 1 3

theorem packageLoads_serve_loadTwice :
    @Serves twoArchives (Machine.run (@packageLoads (oneHeader (firstHeader 1700000000) 0x30) twoArchives).after
      (freshDisk firstPresent) loadTwice) := by
  apply @packageLoads_serve (oneHeader (firstHeader 1700000000) 0x30) twoArchives (fun _ file => file = firstApp)
  · rintro path path' file file' _ rfl rfl _
    rfl
  · intro path file present
    unfold firstPresent at present
    split at present
    · cases present
      rfl
    · cases present
  · decide +kernel

/-- The package is replaced after it was parsed, and loaded again. -/
def replaceWhileLoading : List (Action AppPath DiskEvent) :=
  .start 0 somePath :: steps 0 4 ++ .environment (.replace somePath (some secondApp)) :: steps 0 2 ++
    .start 1 somePath :: steps 1 3

def Load.answer : Load → Option (Bytes × String)
  | .loaded _ content package => some (content, package.version)
  | _ => none

def bothVersions (_path : AppPath) (file : AppFile) : Prop := file = firstApp ∨ file = secondApp

instance (path : AppPath) (file : AppFile) : Decidable (bothVersions path file) := by
  unfold bothVersions
  infer_instance

theorem packageLoads_misserve :
    ToldApart bothVersions ∧ (∀ path file, firstPresent path = some file → bothVersions path file) ∧
      (@packageLoads (oneHeader (firstHeader 1700000001) 0x31) twoArchives).Allowed (Replaced bothVersions)
        (freshDisk firstPresent) replaceWhileLoading ∧
      ¬@Serves twoArchives (Machine.run (@packageLoads (oneHeader (firstHeader 1700000001) 0x31) twoArchives).after
        (freshDisk firstPresent) replaceWhileLoading) := by
  refine ⟨?_, ?_, by decide +kernel, ?_⟩
  · intro path path' file file' _ version version' same
    have apart : firstApp.metadata ≠ secondApp.metadata := by decide +kernel
    rcases version with rfl | rfl <;> rcases version' with rfl | rfl
    · rfl
    · exact absurd same apart
    · exact absurd same.symm apart
    · rfl
  · intro path file present
    unfold firstPresent at present
    split at present
    · cases present
      exact .inl rfl
    · cases present
  have answer : ((Machine.run (@packageLoads (oneHeader (firstHeader 1700000001) 0x31) twoArchives).after
      (freshDisk firstPresent) replaceWhileLoading).threads 1).answer = some (secondApp.content, "1.0") := by decide +kernel
  have parse : (@parsePackage twoArchives secondApp.content).toOption.map (·.version) = some "2.0" := by decide +kernel
  intro serves
  cases state : (Machine.run (@packageLoads (oneHeader (firstHeader 1700000001) 0x31) twoArchives).after
      (freshDisk firstPresent) replaceWhileLoading).threads 1 with
  | loaded path content package =>
      have parsed := serves 1 path content package state
      rw [state] at answer
      obtain ⟨rfl, version⟩ : content = secondApp.content ∧ package.version = "1.0" := by
        simpa [Load.answer] using answer
      rw [parsed] at parse
      simp [Except.toOption, version] at parse
  | _ =>
      rw [state] at answer
      cases answer

end AlLanguage.Symbols
