import AlLanguage.Library.Threads
import AlLanguage.Symbols.AppReader

/-!
# The disk cache for packages

Any number of loads through one cache directory, step by step, while the packages are replaced. A load that has read
the metadata of a package keeps the content of that moment beside them, so that its answer can be compared with it.
-/

namespace AlLanguage.Symbols

open Library Threads

/-! ## Files -/

/-- The time since the epoch, negative before it. -/
structure SystemTime where
  secs : Int64
  nanos : UInt32
  deriving DecidableEq

structure Duration where
  secs : UInt64
  nanos : UInt32

def SystemTime.durationSinceEpoch (time : SystemTime) : Option Duration :=
  if time.secs < 0 then none else some ⟨time.secs.toUInt64, time.nanos⟩

structure Metadata where
  modified : SystemTime
  len : UInt64
  deriving DecidableEq

structure AppFile where
  content : Bytes
  modified : SystemTime
  deriving DecidableEq

def AppFile.metadata (file : AppFile) : Metadata := ⟨file.modified, UInt64.ofNat file.content.length⟩

/-- A path, as far as the cache looks at it: its encoding, and its last component when that is a text. -/
structure AppPath where
  encoded : Bytes
  fileName : Option String
  deriving DecidableEq

/-! ## Entries of the cache -/

def cacheSchemaVersion : UInt32 := 1

def maxCacheFileBytes : Nat := 256 * 1024 * 1024

structure CacheHeader where
  schemaVersion : UInt32
  mtimeSecs : UInt64
  mtimeNanos : UInt32
  fileSize : UInt64
  packageName : String
  publisher : String
  appId : String
  version : String
  deriving DecidableEq

/-- The JSON library. What it reads back is what it wrote, if it reads it at all. -/
class CacheJson where
  writeHeader : CacheHeader → Bytes
  readHeader : Bytes → Option CacheHeader
  writeObjects : List SymbolEntry → Bytes
  readObjects : Bytes → Option (List SymbolEntry)
  readHeader_written : ∀ header header', readHeader (writeHeader header) = some header' → header' = header
  readObjects_written : ∀ objects objects', readObjects (writeObjects objects) = some objects' → objects' = objects

def leBytes (n : Nat) : Bytes := [UInt8.ofNat n, UInt8.ofNat (n / 256), UInt8.ofNat (n / 65536), UInt8.ofNat (n / 16777216)]

/-- FNV-1a. -/
def simpleHash (path : AppPath) : UInt64 :=
  path.encoded.foldl (fun hash b => (hash ^^^ b.toUInt64) * 0x00000100000001b3) 0xcbf29ce484222325

def cachePathFor (path : AppPath) : String :=
  let filename := path.fileName.getD "unknown"
  let hash := String.ofList ((Nat.toDigits 16 (simpleHash path).toNat).leftpad 16 '0')
  filename ++ "." ++ hash ++ ".cache"

variable [CacheJson]

def decodeCache (data : Bytes) : Option (CacheHeader × Bytes) :=
  if data.length < 4 then none
  else
    let headerLen := readU32 data 0
    let objectsStart := 4 + headerLen
    if data.length < objectsStart then none
    else
      match CacheJson.readHeader ((data.take objectsStart).drop 4) with
      | none => none
      | some header => some (header, data.drop objectsStart)

/-- What `load` makes of a cache file, given the metadata of the package. -/
def readCache (metadata : Metadata) (file : Bytes) : Option SymbolPackage :=
  let cacheData := file.take (maxCacheFileBytes + 1)
  if maxCacheFileBytes < cacheData.length then none
  else
    match decodeCache cacheData with
    | none => none
    | some (header, objectsData) =>
      match metadata.modified.durationSinceEpoch with
      | none => none
      | some mtime =>
        let mtimeMatches := header.mtimeSecs == mtime.secs && header.mtimeNanos == mtime.nanos
        if header.schemaVersion ≠ cacheSchemaVersion then none
        else if !mtimeMatches || header.fileSize ≠ metadata.len then none
        else
          match CacheJson.readObjects objectsData with
          | none => none
          | some objects =>
            some {
              appId := header.appId
              name := header.packageName
              publisher := header.publisher
              version := header.version
              objectCount := SymbolPackage.declaredObjectCount objects
              objects }

/-- The file that `save` writes. -/
def cacheData (metadata : Metadata) (package : SymbolPackage) : Except String Bytes :=
  match metadata.modified.durationSinceEpoch with
  | none => .error "second time provided was later than self"
  | some mtime =>
    let header := {
      schemaVersion := cacheSchemaVersion
      mtimeSecs := mtime.secs
      mtimeNanos := mtime.nanos
      fileSize := metadata.len
      packageName := package.name
      publisher := package.publisher
      appId := package.appId
      version := package.version }
    let headerJson := CacheJson.writeHeader header
    let objectsJson := CacheJson.writeObjects package.objects
    if 2 ^ 32 ≤ headerJson.length then .error "header too large"
    else .ok (leBytes headerJson.length ++ headerJson ++ objectsJson)

/-! ## Loads -/

structure Disk where
  apps : AppPath → Option AppFile
  caches : String → Option Bytes
  writable : Bool

/-- Where a call of `load_package_via_cache` is. A content that was read is kept beside what was made of it. -/
inductive Load where
  | statting (path : AppPath)
  | measuring (path : AppPath) (metadata : Metadata) (content : Bytes)
  | opening (path : AppPath) (metadata : Metadata) (content : Bytes)
  /-- `load` has returned the package. -/
  | loaded (path : AppPath) (content : Bytes) (package : SymbolPackage)
  | sizing (path : AppPath)
  | reading (path : AppPath) (fileSize : UInt64)
  | saving (path : AppPath) (content : Bytes) (package : SymbolPackage)
  | publishing (path : AppPath) (data : Bytes) (package : SymbolPackage)
  | parsed (path : AppPath) (package : SymbolPackage)
  | failed (path : AppPath) (error : AppReaderError)
  | idle

namespace Load

def rests : Load → Bool
  | loaded .. | parsed .. | failed .. | idle => true
  | _ => false

end Load

namespace Disk

variable [ArchiveLibrary]

def notFound : AppReaderError := .other "I/O error: entity not found"

/-- A cache file is renamed into its place. -/
def putCache (disk : Disk) (cachePath : String) (data : Bytes) : Disk :=
  { disk with caches := Function.update disk.caches cachePath (some data) }

/-- One access of a load to the file system. -/
def next (disk : Disk) : Load → Disk × Load
  | .statting path =>
    match disk.apps path with
    | none => (disk, .sizing path)
    | some file => (disk, .measuring path file.metadata file.content)
  | .measuring path metadata content =>
    match disk.caches (cachePathFor path) with
    | none => (disk, .sizing path)
    | some data => if maxCacheFileBytes < data.length then (disk, .sizing path) else (disk, .opening path metadata content)
  | .opening path metadata content =>
    match disk.caches (cachePathFor path) with
    | none => (disk, .sizing path)
    | some data =>
      match readCache metadata data with
      | none => (disk, .sizing path)
      | some package => (disk, .loaded path content package)
  | .loaded path content package => (disk, .loaded path content package)
  | .sizing path =>
    match disk.apps path with
    | none => (disk, .failed path notFound)
    | some file =>
      match checkFileSize file.metadata.len with
      | .error e => (disk, .failed path e)
      | .ok () => (disk, .reading path file.metadata.len)
  | .reading path fileSize =>
    match disk.apps path with
    | none => (disk, .failed path notFound)
    | some file =>
      match readOpenedFile fileSize file.content with
      | .error e => (disk, .failed path e)
      | .ok package => (disk, .saving path file.content package)
  | .saving path _ package =>
    match disk.apps path with
    | none => (disk, .parsed path package)
    | some file =>
      match cacheData file.metadata package with
      | .error _ => (disk, .parsed path package)
      | .ok data => (disk, .publishing path data package)
  | .publishing path data package =>
    if disk.writable then (disk.putCache (cachePathFor path) data, .parsed path package)
    else (disk, .parsed path package)
  | .parsed path package => (disk, .parsed path package)
  | .failed path error => (disk, .failed path error)
  | .idle => (disk, .idle)

end Disk

/-- What happens around the loads: a package is put at a path or taken away, a cache file is collected, the directory
becomes writable or read-only. -/
inductive DiskEvent where
  | replace (path : AppPath) (file : Option AppFile)
  | drop (cachePath : String)
  | protect (writable : Bool)

def Disk.apply (disk : Disk) : DiskEvent → Disk
  | .replace path file => { disk with apps := Function.update disk.apps path file }
  | .drop cachePath => { disk with caches := Function.update disk.caches cachePath none }
  | .protect writable => { disk with writable }

def packageLoads [ArchiveLibrary] : System Disk Load AppPath DiskEvent where
  next := Disk.next
  rests := Load.rests
  start := .statting
  environment := Disk.apply

/-- Packages at their paths, and an empty cache directory. -/
def freshDisk (apps : AppPath → Option AppFile) : World Disk Load := ⟨⟨apps, fun _ => none, true⟩, fun _ => .idle⟩

end AlLanguage.Symbols
