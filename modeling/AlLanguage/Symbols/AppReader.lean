import AlLanguage.Symbols.Model

/-!
# Reading a package file

The archive library and the parsers of the two entries are parameters.
-/

namespace AlLanguage.Symbols

abbrev Bytes := List UInt8

structure NavxManifest where
  appId : String
  name : String
  publisher : String
  version : String

inductive AppReaderError where
  | notNavx
  | tooSmall (size : Nat)
  | tooLarge (size : UInt64)
  | tooManyEntries (count : Nat)
  | noSymbolReference
  | noManifest
  /-- An error of the archive library, of a parser or of the file system. -/
  | other (message : String)

/-- An opened archive: the entry that is found under each of the two names, as a reader of its content. -/
structure ZipArchive where
  len : Nat
  manifest : Option (Except AppReaderError NavxManifest)
  symbolReference : Option (String → Except AppReaderError (List SymbolEntry))

class ArchiveLibrary where
  zipArchive : Bytes → Except AppReaderError ZipArchive

def navxMagic : Bytes := [0x4E, 0x41, 0x56, 0x58]

def minHeaderSize : Nat := 4

def maxAppFileSize : UInt64 := 200 * 1024 * 1024

def maxArchiveEntries : Nat := 200000

/-! ## The trailer -/

def eocdSignature : Bytes := [0x50, 0x4B, 0x05, 0x06]

def eocdMinLen : Nat := 22

def maxEocdComment : Nat := 65535

def zip64EocdSignature : Bytes := [0x50, 0x4B, 0x06, 0x06]

def zip64EocdMinLen : Nat := 56

structure ZipTrailer where
  eocdPos : Nat
  entries : Nat
  cdSize : Nat
  cdOffset : Nat

/-- A little-endian number of `width` bytes. -/
def readLe (data : Bytes) (start width : Nat) : Nat :=
  ((data.drop start).take width).foldr (fun byte high => byte.toNat + 256 * high) 0

def readU16 (data : Bytes) (start : Nat) : Nat := readLe data start 2

def readU32 (data : Bytes) (start : Nat) : Nat := readLe data start 4

def readU64 (data : Bytes) (start : Nat) : Nat := readLe data start 8

/-- The last place from `pos` down to `floor` with the signature. -/
def scanBack (data signature : Bytes) (floor : Nat) : Nat → Option Nat
  | 0 => if data.take 4 = signature then some 0 else none
  | pos + 1 =>
    if (data.drop (pos + 1)).take 4 = signature then some (pos + 1)
    else if pos + 1 = floor then none
    else scanBack data signature floor pos

def readZipTrailer (data : Bytes) : Option ZipTrailer :=
  let scanFloor := data.length - (eocdMinLen + maxEocdComment)
  if data.length < eocdMinLen then none
  else
    match scanBack data eocdSignature scanFloor (data.length - eocdMinLen) with
    | none => none
    | some eocdPos =>
      let entries := readU16 data (eocdPos + 10)
      let cdSize := readU32 data (eocdPos + 12)
      let cdOffset := readU32 data (eocdPos + 16)
      let isZip64 := entries == 65535 || cdSize == 4294967295 || cdOffset == 4294967295
      if !isZip64 then some { eocdPos, entries, cdSize, cdOffset }
      else if eocdPos < zip64EocdMinLen then none
      else
        let zip64Floor := eocdPos - (maxEocdComment + zip64EocdMinLen)
        match scanBack data zip64EocdSignature zip64Floor (eocdPos - zip64EocdMinLen) with
        | none => none
        | some pos =>
          some {
            eocdPos
            entries := readU64 data (pos + 32)
            cdSize := readU64 data (pos + 40)
            cdOffset := readU64 data (pos + 48) }

/-- The tail is read from the opened file, as long as the size says that was asked for before. -/
def readTrailerFromFile (file : Bytes) (size : UInt64) : Option ZipTrailer :=
  let tailLen := min size.toNat (eocdMinLen + maxEocdComment + zip64EocdMinLen)
  if file.length < tailLen then none else readZipTrailer (file.drop (file.length - tailLen))

def rejectOversizedDirectory : Option ZipTrailer → Except AppReaderError Unit
  | some trailer => if maxArchiveEntries < trailer.entries then .error (.tooManyEntries trailer.entries) else .ok ()
  | none => .ok ()

/-! ## The package -/

def readArchive (archive : ZipArchive) : Except AppReaderError SymbolPackage :=
  if maxArchiveEntries < archive.len then .error (.tooManyEntries archive.len)
  else
    match archive.manifest, archive.symbolReference with
    | none, _ => .error .noManifest
    | some _, none => .error .noSymbolReference
    | some manifest, some symbolReference =>
      match manifest with
      | .error e => .error e
      | .ok manifest =>
        match symbolReference manifest.name with
        | .error e => .error e
        | .ok objects =>
          .ok {
            appId := manifest.appId
            name := manifest.name
            publisher := manifest.publisher
            version := manifest.version
            objectCount := SymbolPackage.declaredObjectCount objects
            objects }

/-- The first step of `read_app_file`, on the size of the file. -/
def checkFileSize (fileSize : UInt64) : Except AppReaderError Unit :=
  if maxAppFileSize < fileSize then .error (.tooLarge fileSize)
  else if fileSize.toNat < minHeaderSize then .error (.tooSmall fileSize.toNat)
  else .ok ()

variable [ArchiveLibrary]

/-- The package that the content of a file holds. -/
def parsePackage (content : Bytes) : Except AppReaderError SymbolPackage :=
  match ArchiveLibrary.zipArchive content with
  | .error e => .error e
  | .ok archive => readArchive archive

/-- The second step of `read_app_file`, on the file that was opened. -/
def readOpenedFile (fileSize : UInt64) (file : Bytes) : Except AppReaderError SymbolPackage :=
  if file.length < minHeaderSize then .error (.other "I/O error: failed to fill whole buffer")
  else if file.take 4 ≠ navxMagic then .error .notNavx
  else
    match rejectOversizedDirectory (readTrailerFromFile file fileSize) with
    | .error e => .error e
    | .ok () => parsePackage file

theorem parsePackage_of_readOpenedFile {fileSize : UInt64} {file : Bytes} {package : SymbolPackage}
    (read : readOpenedFile fileSize file = .ok package) : parsePackage file = .ok package := by
  unfold readOpenedFile at read
  split at read
  · cases read
  split at read
  · cases read
  split at read
  · cases read
  · exact read

theorem objectCount_of_parsePackage {content : Bytes} {package : SymbolPackage}
    (parsed : parsePackage content = .ok package) :
    package.objectCount = SymbolPackage.declaredObjectCount package.objects := by
  unfold parsePackage at parsed
  split at parsed
  · cases parsed
  unfold readArchive at parsed
  split at parsed
  · cases parsed
  split at parsed
  · cases parsed
  · cases parsed
  split at parsed
  · cases parsed
  split at parsed
  · cases parsed
  · cases parsed
    rfl

end AlLanguage.Symbols
