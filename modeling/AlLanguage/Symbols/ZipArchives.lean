import AlLanguage.Symbols.ZipOffset

/-!
# Archives behind a prefix

- An archive is its files, its central directory, the zip64 records if a field of the end record is saturated, and the
  end record.
- A plain archive is found behind every prefix. Behind the directory of a zip64 archive the end record does not follow at
  once, so the prefix comes out too long, and only the first local headers of the file are left to be tried.
-/

namespace AlLanguage.Symbols

/-- A little-endian field of `width` bytes. -/
def leOf : Nat → Nat → Bytes
  | 0, _ => []
  | width + 1, n => UInt8.ofNat (n % 256) :: leOf width (n / 256)

@[simp] theorem length_leOf (width n : Nat) : (leOf width n).length = width := by
  induction width generalizing n with
  | zero => rfl
  | succ width ih => rw [leOf, List.length_cons, ih]

theorem readLe_leOf {data rest : Bytes} {start width n : Nat} (small : n < 256 ^ width)
    (there : data.drop start = leOf width n ++ rest) : readLe data start width = n := by
  have read (n : Nat) : (leOf width n).foldr (fun byte high => byte.toNat + 256 * high) 0 = n % 256 ^ width := by
    clear small there
    induction width generalizing n with
    | zero => rw [leOf, List.foldr_nil, Nat.pow_zero, Nat.mod_one]
    | succ width ih =>
        have byte : n % 256 % 2 ^ 8 = n % 256 := Nat.mod_eq_of_lt (Nat.mod_lt n (by decide))
        rw [leOf, List.foldr_cons, ih, UInt8.toNat_ofNat', byte, Nat.pow_succ', Nat.mod_mul]
  rw [readLe, there, List.take_left' (length_leOf width n), read, Nat.mod_eq_of_lt small]

/-! ## The form of an archive -/

structure Zip64 where
  /-- From the size of the record up to the number of entries on the disk. -/
  versions : Bytes
  versions_length : versions.length = 28
  extensible : Bytes
  locator : Bytes
  locator_length : locator.length = 20

/-- A field of the end record that refers to the zip64 record. -/
def SaturatedFields (entries cdSize cdOffset : Nat) : Prop :=
  entries = 65535 ∨ cdSize = 4294967295 ∨ cdOffset = 4294967295

structure Archive where
  files : Bytes
  /-- The headers of the central directory. -/
  directory : List Bytes
  signed : ∀ header ∈ directory, header.take 4 = centralDirectorySignature
  zip64 : Option Zip64
  disks : Bytes
  disks_length : disks.length = 6
  entries : Nat
  cdSize : Nat
  cdOffset : Nat
  entries_given : entries = directory.length ∨ entries = 65535
  cdSize_given : cdSize = directory.flatten.length ∨ cdSize = 4294967295
  cdOffset_given : cdOffset = files.length ∨ cdOffset = 4294967295
  small : entries < 256 ^ 2 ∧ cdSize < 256 ^ 4 ∧ cdOffset < 256 ^ 4
  zip64_iff : zip64.isSome ↔ SaturatedFields entries cdSize cdOffset
  comment : Bytes
  comment_length : comment.length ≤ maxEocdComment
  comment_unsigned : ∀ place, ¬Signs comment eocdSignature place

namespace Archive

def zip64Bytes (archive : Archive) (zip64 : Zip64) : Bytes :=
  zip64EocdSignature ++ zip64.versions ++ leOf 8 archive.directory.length ++ leOf 8 archive.directory.flatten.length ++
    leOf 8 archive.files.length ++ zip64.extensible ++ zip64.locator

/-- What lies between the central directory and the end record. -/
def between (archive : Archive) : Bytes := archive.zip64.elim [] archive.zip64Bytes

def endRecord (archive : Archive) : Bytes :=
  eocdSignature ++ archive.disks ++ leOf 2 archive.entries ++ leOf 4 archive.cdSize ++ leOf 4 archive.cdOffset ++
    leOf 2 archive.comment.length ++ archive.comment

def bytes (archive : Archive) : Bytes :=
  archive.files ++ archive.directory.flatten ++ archive.between ++ archive.endRecord

/-- No other place that the scans visit has a signature. -/
structure Quiet (archive : Archive) : Prop where
  record : ∀ place, 0 < place → place < eocdMinLen → place ≤ archive.comment.length →
    ¬Signs archive.endRecord eocdSignature place
  zip64 : ∀ place, 0 < place → place + zip64EocdMinLen ≤ archive.between.length →
    ¬Signs archive.between zip64EocdSignature place

/-- The trailer of the archive behind a prefix. -/
def trailer (archive : Archive) (start : Bytes) : ZipTrailer where
  eocdPos := start.length + archive.files.length + archive.directory.flatten.length + archive.between.length
  entries := archive.directory.length
  cdSize := archive.directory.flatten.length
  cdOffset := archive.files.length

variable (archive : Archive) (start : Bytes)

theorem endRecord_length : archive.endRecord.length = eocdMinLen + archive.comment.length := by
  have signature : eocdSignature.length = 4 := rfl
  simp only [endRecord, List.length_append, length_leOf, archive.disks_length, signature, eocdMinLen]

theorem drop_endRecord : (start ++ archive.bytes).drop (archive.trailer start).eocdPos = archive.endRecord := by
  have split : start ++ archive.bytes =
      (start ++ archive.files ++ archive.directory.flatten ++ archive.between) ++ archive.endRecord := by
    simp only [bytes, List.append_assoc]
  rw [split]
  apply List.drop_left'
  simp only [List.length_append, trailer]

theorem length_eq : (start ++ archive.bytes).length = (archive.trailer start).eocdPos + archive.endRecord.length := by
  simp only [bytes, List.length_append, trailer]
  omega

theorem signs_record_iff {signature : Bytes} (place : Nat) :
    Signs (start ++ archive.bytes) signature ((archive.trailer start).eocdPos + place) ↔
      Signs archive.endRecord signature place := by
  rw [Signs, ← List.drop_drop, drop_endRecord]

theorem drop_comment : archive.endRecord.drop eocdMinLen = archive.comment := by
  apply List.drop_left'
  have signature : eocdSignature.length = 4 := rfl
  simp only [List.length_append, length_leOf, archive.disks_length, signature, eocdMinLen]

theorem Quiet.not_signs {archive : Archive} (quiet : archive.Quiet) {place : Nat} (inside : 0 < place)
    (within : place ≤ archive.comment.length) : ¬Signs archive.endRecord eocdSignature place := by
  by_cases early : place < eocdMinLen
  · exact quiet.record place inside early within
  · obtain ⟨rest, rfl⟩ := Nat.exists_eq_add_of_le (Nat.not_lt.mp early)
    rw [Signs, ← List.drop_drop, drop_comment]
    exact archive.comment_unsigned rest

/-- The scan for the end record ends at the record of the archive. -/
theorem scanBack_record (quiet : archive.Quiet) :
    scanBack (start ++ archive.bytes) eocdSignature ((start ++ archive.bytes).length - (eocdMinLen + maxEocdComment))
      ((start ++ archive.bytes).length - eocdMinLen) = some (archive.trailer start).eocdPos := by
  have length := length_eq archive start
  rw [endRecord_length] at length
  have bound := archive.comment_length
  apply scanBack_found
  · omega
  · omega
  · exact (signs_record_iff archive start 0).mpr rfl
  · intro place after within
    obtain ⟨rest, rfl⟩ := Nat.exists_eq_add_of_lt after
    rw [Nat.add_assoc, signs_record_iff]
    exact quiet.not_signs (Nat.succ_pos rest) (by omega)

/-! ## The fields -/

theorem readLe_record {width n : Nat} {before rest : Bytes} (parts : archive.endRecord = before ++ leOf width n ++ rest)
    (small : n < 256 ^ width) :
    readLe (start ++ archive.bytes) ((archive.trailer start).eocdPos + before.length) width = n := by
  apply readLe_leOf small
  rw [← List.drop_drop, drop_endRecord, parts, List.append_assoc, List.drop_left]

theorem readU16_entries :
    readU16 (start ++ archive.bytes) ((archive.trailer start).eocdPos + 10) = archive.entries := by
  have place : (eocdSignature ++ archive.disks).length = 10 := by
    rw [List.length_append, archive.disks_length]
    rfl
  have parts : archive.endRecord = (eocdSignature ++ archive.disks) ++ leOf 2 archive.entries ++
      (leOf 4 archive.cdSize ++ leOf 4 archive.cdOffset ++ leOf 2 archive.comment.length ++ archive.comment) := by
    simp only [endRecord, List.append_assoc]
  rw [readU16, ← place]
  exact readLe_record archive start parts archive.small.1

theorem readU32_cdSize :
    readU32 (start ++ archive.bytes) ((archive.trailer start).eocdPos + 12) = archive.cdSize := by
  have place : (eocdSignature ++ archive.disks ++ leOf 2 archive.entries).length = 12 := by
    rw [List.length_append, List.length_append, archive.disks_length, length_leOf]
    rfl
  have parts : archive.endRecord = (eocdSignature ++ archive.disks ++ leOf 2 archive.entries) ++ leOf 4 archive.cdSize ++
      (leOf 4 archive.cdOffset ++ leOf 2 archive.comment.length ++ archive.comment) := by
    simp only [endRecord, List.append_assoc]
  rw [readU32, ← place]
  exact readLe_record archive start parts archive.small.2.1

theorem readU32_cdOffset :
    readU32 (start ++ archive.bytes) ((archive.trailer start).eocdPos + 16) = archive.cdOffset := by
  have place : (eocdSignature ++ archive.disks ++ leOf 2 archive.entries ++ leOf 4 archive.cdSize).length = 16 := by
    simp only [List.length_append, archive.disks_length, length_leOf]
    rfl
  have parts : archive.endRecord = (eocdSignature ++ archive.disks ++ leOf 2 archive.entries ++ leOf 4 archive.cdSize) ++
      leOf 4 archive.cdOffset ++ (leOf 2 archive.comment.length ++ archive.comment) := by
    simp only [endRecord, List.append_assoc]
  rw [readU32, ← place]
  exact readLe_record archive start parts archive.small.2.2

theorem isZip64_eq (archive : Archive) :
    (archive.entries == 65535 || archive.cdSize == 4294967295 || archive.cdOffset == 4294967295) = archive.zip64.isSome := by
  rw [Bool.eq_iff_iff, archive.zip64_iff, SaturatedFields]
  simp only [Bool.or_eq_true, beq_iff_eq, or_assoc]

theorem headers_length_le (headers : List Bytes) (signed : ∀ header ∈ headers, header.take 4 = centralDirectorySignature) :
    headers.length ≤ headers.flatten.length := by
  induction headers with
  | nil => exact Nat.le_refl 0
  | cons header rest ih =>
      have first : (header.take 4).length = 4 := congrArg List.length (signed header List.mem_cons_self)
      have more := ih fun header member => signed header (List.mem_cons_of_mem _ member)
      rw [List.length_take] at first
      rw [List.length_cons, List.flatten_cons, List.length_append]
      omega

/-! ## The zip64 record -/

section Records

variable {zip64 : Zip64} (held : archive.zip64 = some zip64)

include held

theorem between_eq : archive.between = archive.zip64Bytes zip64 := by rw [between, held, Option.elim_some]

theorem between_length : archive.between.length = zip64EocdMinLen + zip64.extensible.length + 20 := by
  have signature : zip64EocdSignature.length = 4 := rfl
  rw [between_eq archive held]
  simp only [zip64Bytes, List.length_append, length_leOf, zip64.versions_length, zip64.locator_length, signature,
    zip64EocdMinLen]

omit held in
theorem drop_between (place : Nat) (within : place + 4 ≤ archive.between.length) {signature : Bytes} :
    Signs (start ++ archive.bytes) signature
        (start.length + archive.files.length + archive.directory.flatten.length + place) ↔
      Signs archive.between signature place := by
  have split : start ++ archive.bytes =
      (start ++ archive.files ++ archive.directory.flatten) ++ (archive.between ++ archive.endRecord) := by
    simp only [bytes, List.append_assoc]
  have before : start.length + archive.files.length + archive.directory.flatten.length =
      (start ++ archive.files ++ archive.directory.flatten).length := by
    simp only [List.length_append]
  rw [Signs, split, before, List.drop_length_add_append, List.drop_append_of_le_length (by omega),
    List.take_append_of_le_length (by rw [List.length_drop]; omega)]

theorem readLe_zip64 {n : Nat} {before rest : Bytes} (parts : archive.zip64Bytes zip64 = before ++ leOf 8 n ++ rest)
    (small : n < 256 ^ 8) :
    readLe (start ++ archive.bytes)
      (start.length + archive.files.length + archive.directory.flatten.length + before.length) 8 = n := by
  have split : start ++ archive.bytes = (start ++ archive.files ++ archive.directory.flatten ++ before) ++
      (leOf 8 n ++ (rest ++ archive.endRecord)) := by
    simp only [bytes, between_eq archive held, parts, List.append_assoc]
  apply readLe_leOf small
  rw [split]
  apply List.drop_left'
  simp only [List.length_append]

/-- The scan for the zip64 record reaches it when it lies near enough to the end record. -/
theorem scanBack_zip64 (quiet : archive.Quiet) :
    scanBack (start ++ archive.bytes) zip64EocdSignature
        ((archive.trailer start).eocdPos - (maxEocdComment + zip64EocdMinLen))
        ((archive.trailer start).eocdPos - zip64EocdMinLen) =
      if archive.between.length ≤ maxEocdComment + zip64EocdMinLen then
        some (start.length + archive.files.length + archive.directory.flatten.length) else none := by
  have length := between_length archive held
  have eocdPos : (archive.trailer start).eocdPos =
      start.length + archive.files.length + archive.directory.flatten.length + archive.between.length := rfl
  have minLen : zip64EocdMinLen = 56 := rfl
  have silent : ∀ place, start.length + archive.files.length + archive.directory.flatten.length < place →
      place ≤ (archive.trailer start).eocdPos - zip64EocdMinLen →
      ¬Signs (start ++ archive.bytes) zip64EocdSignature place := by
    intro place after within
    obtain ⟨rest, rfl⟩ := Nat.exists_eq_add_of_lt after
    rw [Nat.add_assoc, drop_between archive start _ (by omega)]
    exact quiet.zip64 _ (Nat.succ_pos rest) (by omega)
  split
  · apply scanBack_found (by omega) (by omega) _ silent
    rw [← Nat.add_zero (start.length + _ + _), drop_between archive start 0 (by omega), between_eq archive held]
    simp only [Signs, zip64Bytes, List.append_assoc, List.drop_zero]
    exact List.take_left' rfl
  · apply scanBack_missing (by omega)
    intro place from_floor within
    exact silent place (by omega) within

theorem readU64_zip64 (fits : (start ++ archive.bytes).length < 2 ^ 63) :
    let pos := start.length + archive.files.length + archive.directory.flatten.length
    readU64 (start ++ archive.bytes) (pos + 32) = archive.directory.length ∧
      readU64 (start ++ archive.bytes) (pos + 40) = archive.directory.flatten.length ∧
      readU64 (start ++ archive.bytes) (pos + 48) = archive.files.length := by
  have total := length_eq archive start
  have eocdPos : (archive.trailer start).eocdPos =
      start.length + archive.files.length + archive.directory.flatten.length + archive.between.length := rfl
  have headers := headers_length_le archive.directory archive.signed
  have bound : (2 : Nat) ^ 63 < 256 ^ 8 := by decide
  have signature : zip64EocdSignature.length = 4 := rfl
  have first : (zip64EocdSignature ++ zip64.versions).length = 32 := by
    rw [List.length_append, zip64.versions_length]
    rfl
  have second : (zip64EocdSignature ++ zip64.versions ++ leOf 8 archive.directory.length).length = 40 := by
    rw [List.length_append, first, length_leOf]
  have third : (zip64EocdSignature ++ zip64.versions ++ leOf 8 archive.directory.length ++
      leOf 8 archive.directory.flatten.length).length = 48 := by
    rw [List.length_append, second, length_leOf]
  refine ⟨?_, ?_, ?_⟩
  · have parts : archive.zip64Bytes zip64 = (zip64EocdSignature ++ zip64.versions) ++ leOf 8 archive.directory.length ++
        (leOf 8 archive.directory.flatten.length ++ leOf 8 archive.files.length ++ zip64.extensible ++ zip64.locator) := by
      simp only [zip64Bytes, List.append_assoc]
    rw [readU64, ← first]
    exact readLe_zip64 archive start held parts (by omega)
  · have parts : archive.zip64Bytes zip64 = (zip64EocdSignature ++ zip64.versions ++ leOf 8 archive.directory.length) ++
        leOf 8 archive.directory.flatten.length ++ (leOf 8 archive.files.length ++ zip64.extensible ++ zip64.locator) := by
      simp only [zip64Bytes, List.append_assoc]
    rw [readU64, ← second]
    exact readLe_zip64 archive start held parts (by omega)
  · have parts : archive.zip64Bytes zip64 = (zip64EocdSignature ++ zip64.versions ++ leOf 8 archive.directory.length ++
        leOf 8 archive.directory.flatten.length) ++ leOf 8 archive.files.length ++ (zip64.extensible ++ zip64.locator) := by
      simp only [zip64Bytes, List.append_assoc]
    rw [readU64, ← third]
    exact readLe_zip64 archive start held parts (by omega)

end Records

theorem readZipTrailer_eq (fits : (start ++ archive.bytes).length < 2 ^ 63) (quiet : archive.Quiet) :
    readZipTrailer (start ++ archive.bytes) =
      if archive.between.length ≤ maxEocdComment + zip64EocdMinLen then some (archive.trailer start) else none := by
  have total := length_eq archive start
  rw [endRecord_length] at total
  rw [readZipTrailer]
  dsimp only
  rw [if_neg (by omega), scanBack_record archive start quiet]
  dsimp only
  rw [readU16_entries, readU32_cdSize, readU32_cdOffset, isZip64_eq]
  cases held : archive.zip64 with
  | none =>
      have direct : ¬SaturatedFields archive.entries archive.cdSize archive.cdOffset := by
        rw [← archive.zip64_iff, held]
        decide
      obtain ⟨entries, sizes⟩ := not_or.mp direct
      obtain ⟨cdSize, cdOffset⟩ := not_or.mp sizes
      have nothing : archive.between = [] := by rw [between, held, Option.elim_none]
      rw [Option.isSome_none, Bool.not_false, if_pos rfl, nothing, List.length_nil, if_pos (Nat.zero_le _), trailer, archive.entries_given.resolve_right entries,
        archive.cdSize_given.resolve_right cdSize, archive.cdOffset_given.resolve_right cdOffset]
  | some zip64 =>
      have length := between_length archive held
      have eocdPos : (archive.trailer start).eocdPos =
          start.length + archive.files.length + archive.directory.flatten.length + archive.between.length := rfl
      rw [Option.isSome_some, Bool.not_true, if_neg Bool.false_ne_true, if_neg (by omega),
        scanBack_zip64 archive start held quiet]
      by_cases near : archive.between.length ≤ maxEocdComment + zip64EocdMinLen
      · obtain ⟨entries, cdSize, cdOffset⟩ := readU64_zip64 archive start held fits
        rw [if_pos near, if_pos near]
        dsimp only
        rw [entries, cdSize, cdOffset]
        rfl
      · rw [if_neg near, if_neg near]

/-! ## Where the search ends -/

section Found

variable [ArchiveLibrary]

/-- The trailer leads to a place behind the start of the archive, where the library opens no archive, and the first local
header that it opens is the one at the start. -/
structure Rescued (archive : Archive) (start : Bytes) : Prop where
  near : archive.between.length ≤ maxEocdComment + zip64EocdMinLen
  few : archive.directory.length ≤ maxArchiveEntries
  passed : ¬taken (start ++ archive.bytes) (archive.trailer start) (start.length + archive.between.length)
  tried : (headersTried (start ++ archive.bytes)).find? (opens (start ++ archive.bytes)) = some start.length

omit [ArchiveLibrary] in
theorem trailerPrefix_eq :
    trailerPrefix (start ++ archive.bytes) (archive.trailer start) = some (start.length + archive.between.length) := by
  have total := length_eq archive start
  have eocdPos : (archive.trailer start).eocdPos =
      start.length + archive.files.length + archive.directory.flatten.length + archive.between.length := rfl
  have cdSize : (archive.trailer start).cdSize = archive.directory.flatten.length := rfl
  have cdOffset : (archive.trailer start).cdOffset = archive.files.length := rfl
  rw [endRecord_length, eocdMinLen] at total
  rw [trailerPrefix, subtract, if_pos (by omega), Option.bind_some, subtract, if_pos (by omega),
    Option.filter_eq_some_iff]
  refine ⟨?_, ?_⟩
  · congr 1
    omega
  · apply decide_eq_true
    omega

omit [ArchiveLibrary] in
theorem directoryAt_start (nonempty : archive.directory ≠ []) :
    directoryAt (start ++ archive.bytes) (start.length + archive.files.length) = true := by
  obtain ⟨header, rest, parts⟩ := List.exists_cons_of_ne_nil nonempty
  have signed : header.take 4 = centralDirectorySignature := archive.signed header (by rw [parts]; exact List.mem_cons_self)
  have long : 4 ≤ header.length := by
    have first : (header.take 4).length = 4 := congrArg List.length signed
    rw [List.length_take] at first
    omega
  have split : start ++ archive.bytes =
      (start ++ archive.files) ++ (header ++ (rest.flatten ++ archive.between ++ archive.endRecord)) := by
    simp only [bytes, parts, List.flatten_cons, List.append_assoc]
  apply decide_eq_true
  rw [split, List.drop_left' (List.length_append ..), List.take_append_of_le_length long]
  exact signed

/-- Behind the directory of a plain archive the end record follows at once. -/
theorem taken_plain (accepted : opens archive.bytes 0) (plain : archive.zip64 = none) :
    taken (start ++ archive.bytes) (archive.trailer start) (start.length + archive.between.length) = true := by
  have nothing : archive.between = [] := by rw [between, plain, Option.elim_none]
  have opened : opens (start ++ archive.bytes) start.length = true := by
    rw [opens, List.drop_left]
    exact accepted
  rw [nothing, List.length_nil, Nat.add_zero, taken, opened, Bool.and_true, Bool.or_eq_true]
  by_cases empty : archive.directory = []
  · right
    rw [beq_iff_eq]
    exact List.length_eq_zero_iff.mpr empty
  · left
    exact directoryAt_start archive start empty

omit [ArchiveLibrary] in
theorem few_plain (plain : archive.zip64 = none) : archive.directory.length ≤ maxArchiveEntries := by
  have direct : ¬SaturatedFields archive.entries archive.cdSize archive.cdOffset := by
    rw [← archive.zip64_iff, plain]
    decide
  have given := archive.entries_given.resolve_right fun full => direct (.inl full)
  have small := archive.small.1
  rw [given] at small
  rw [maxArchiveEntries]
  omega

variable {archive start}

theorem located_iff (fits : (start ++ archive.bytes).length < 2 ^ 63) (accepted : opens archive.bytes 0)
    (quiet : archive.Quiet) :
    findZipOffset (start ++ archive.bytes) = .ok (some start.length) ↔ archive.zip64 = none ∨ archive.Rescued start := by
  rw [findZipOffset_eq fits, Except.ok.injEq, readZipTrailer_eq archive start fits quiet]
  have count : (archive.trailer start).entries = archive.directory.length := rfl
  constructor
  · intro found
    cases held : archive.zip64 with
    | none => exact .inl rfl
    | some zip64 =>
        right
        have length := between_length archive held
        by_cases near : archive.between.length ≤ maxEocdComment + zip64EocdMinLen
        · rw [if_pos near, Option.bind_some, foundBy, trailerPrefix_eq, Option.filter_some] at found
          by_cases many : maxArchiveEntries < (archive.trailer start).entries
          · rw [if_pos many] at found
            cases found
          rw [if_neg many] at found
          by_cases passed : taken (start ++ archive.bytes) (archive.trailer start) (start.length + archive.between.length) = true
          · rw [if_pos passed, Option.some_or, Option.some_inj] at found
            omega
          · rw [if_neg passed, Option.none_or] at found
            exact ⟨near, Nat.not_lt.mp many, passed, found⟩
        · rw [if_neg near, Option.bind_none] at found
          cases found
  · rintro (plain | rescued)
    · have nothing : archive.between = [] := by rw [between, plain, Option.elim_none]
      have few := few_plain archive plain
      rw [if_pos (by rw [nothing]; exact Nat.zero_le _), Option.bind_some, foundBy, if_neg (by omega), trailerPrefix_eq,
        Option.filter_some, if_pos (taken_plain archive start accepted plain), Option.some_or, nothing, List.length_nil,
        Nat.add_zero]
    · have few := rescued.few
      rw [if_pos rescued.near, Option.bind_some, foundBy, if_neg (by omega), trailerPrefix_eq, Option.filter_some,
        if_neg rescued.passed, Option.none_or]
      exact rescued.tried

end Found

end Archive

/-- No read and no difference of the search fails, and a plain archive is found at its start behind every prefix. Behind
the directory of a zip64 archive come its records, so one is found only when the first local headers lead to it. -/
theorem archive_located [ArchiveLibrary] (data : Bytes) (fits : data.length < 2 ^ 63) :
    (checkedReadZipTrailer data = .ok (readZipTrailer data) ∧ ∃ found, findZipOffset data = .ok found) ∧
      ∀ (archive : Archive) (start : Bytes), data = start ++ archive.bytes → opens archive.bytes 0 → archive.Quiet →
        (findZipOffset data = .ok (some start.length) ↔ archive.zip64 = none ∨ archive.Rescued start) := by
  refine ⟨⟨checkedReadZipTrailer_eq fits, _, findZipOffset_eq fits⟩, ?_⟩
  intro archive start split accepted quiet
  subst split
  exact Archive.located_iff fits accepted quiet

/-! ## Examples -/

/-- A library that opens one archive. -/
abbrev onlyOpens (bytes : Bytes) : ArchiveLibrary where
  zipArchive content := if content = bytes then .ok ⟨0, none, none⟩ else .error (.other "")

/-- One empty file. -/
def plainArchive : Archive where
  files := zipMagic ++ List.replicate 26 0
  directory := [centralDirectorySignature ++ List.replicate 42 0]
  signed := by decide
  zip64 := none
  disks := [0, 0, 0, 0, 1, 0]
  disks_length := rfl
  entries := 1
  cdSize := 46
  cdOffset := 30
  entries_given := by decide
  cdSize_given := by decide
  cdOffset_given := by decide
  small := by decide
  zip64_iff := by simp [SaturatedFields]
  comment := []
  comment_length := by decide
  comment_unsigned := by simp [Signs, eocdSignature]

theorem archive_located_plain :
    @findZipOffset (onlyOpens plainArchive.bytes) (navxMagic ++ plainArchive.bytes) = .ok (some navxMagic.length) := by
  have quiet : plainArchive.Quiet := by
    constructor
    · intro place inside _ within
      exact absurd inside (Nat.not_lt.mpr within)
    · intro place _ within
      exact absurd within (by simp [plainArchive, Archive.between, zip64EocdMinLen])
  apply ((@archive_located (onlyOpens plainArchive.bytes) (navxMagic ++ plainArchive.bytes) (by decide)).2
    plainArchive navxMagic rfl (by decide) quiet).mpr
  exact .inl rfl

/-- No file, with the sizes in the zip64 record. -/
def emptyZip64 : Archive where
  files := []
  directory := []
  signed := by decide
  zip64 := some {
    versions := [44, 0, 0, 0, 0, 0, 0, 0, 45, 0, 45, 0] ++ List.replicate 16 0
    versions_length := rfl
    extensible := []
    locator := [0x50, 0x4B, 0x06, 0x07] ++ List.replicate 12 0 ++ [1, 0, 0, 0]
    locator_length := rfl }
  disks := [0, 0, 0, 0, 0, 0]
  disks_length := rfl
  entries := 65535
  cdSize := 4294967295
  cdOffset := 4294967295
  entries_given := by decide
  cdSize_given := by decide
  cdOffset_given := by decide
  small := by decide
  zip64_iff := by simp [SaturatedFields]
  comment := []
  comment_length := by decide
  comment_unsigned := by simp [Signs, eocdSignature]

/-- The prefix of four bytes comes out as one of eighty, and no local header is there to be tried. -/
theorem zip64_not_located :
    @opens (onlyOpens emptyZip64.bytes) emptyZip64.bytes 0 = true ∧
      @findZipOffset (onlyOpens emptyZip64.bytes) (navxMagic ++ emptyZip64.bytes) = .ok none ∧
      trailerPrefix (navxMagic ++ emptyZip64.bytes) (emptyZip64.trailer navxMagic) = some 80 := by
  refine ⟨by decide +kernel, ?_, by decide +kernel⟩
  rw [@findZipOffset_eq (onlyOpens emptyZip64.bytes) _ (by decide)]
  apply congrArg
  decide +kernel

end AlLanguage.Symbols
