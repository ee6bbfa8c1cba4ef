import AlLanguage.Symbols.AppReader
import Mathlib.Tactic.Common

/-!
# Where the archive of a package begins

- The reads of the trailer and the search for the archive, with every index and every difference checked.
- No check fails, whatever the bytes are.
- An archive is found behind any prefix when the end record is the last one and none of its fields is saturated.
-/

namespace AlLanguage.Symbols

/-! ## Checked steps -/

inductive Fault where
  | index
  | underflow
  | overflow
  deriving DecidableEq

/-- A step that may panic. -/
abbrev Checked (α : Type) := Except Fault α

def checkedSlice (data : Bytes) (start stop : Nat) : Checked Bytes :=
  if start ≤ stop ∧ stop ≤ data.length then .ok ((data.drop start).take (stop - start)) else .error .index

/-- A sum of `usize` or `u64` numbers. -/
def checkedAdd (a b : Nat) : Checked Nat := if a + b < 2 ^ 64 then .ok (a + b) else .error .overflow

/-- `checked_sub`. -/
def subtract (a b : Nat) : Option Nat := if b ≤ a then some (a - b) else none

def window (data : Bytes) (pos : Nat) : Checked Bytes := do
  let stop ← checkedAdd pos 4
  checkedSlice data pos stop

def checkedReadLe (data : Bytes) (start width : Nat) : Checked Nat := do
  let stop ← checkedAdd start width
  let bytes ← checkedSlice data start stop
  return bytes.foldr (fun byte high => byte.toNat + 256 * high) 0

/-- The backward loop from `pos`. -/
def checkedScanBack (data signature : Bytes) (floor : Nat) : Nat → Checked (Option Nat)
  | 0 => do
    let here ← window data 0
    if here = signature then return some 0
    else if 0 = floor then return none
    else throw .underflow
  | pos + 1 => do
    let here ← window data (pos + 1)
    if here = signature then return some (pos + 1)
    else if pos + 1 = floor then return none
    else checkedScanBack data signature floor pos

/-- `read_zip_trailer`. -/
def checkedReadZipTrailer (data : Bytes) : Checked (Option ZipTrailer) :=
  let scanFloor := data.length - (eocdMinLen + maxEocdComment)
  match subtract data.length eocdMinLen with
  | none => return none
  | some pos => do
    match ← checkedScanBack data eocdSignature scanFloor pos with
    | none => return none
    | some eocdPos =>
      let entries ← checkedReadLe data (eocdPos + 10) 2
      let cdSize ← checkedReadLe data (eocdPos + 12) 4
      let cdOffset ← checkedReadLe data (eocdPos + 16) 4
      let isZip64 := entries == 65535 || cdSize == 4294967295 || cdOffset == 4294967295
      if !isZip64 then return some { eocdPos, entries, cdSize, cdOffset }
      else
        let zip64Floor := eocdPos - (maxEocdComment + zip64EocdMinLen)
        match subtract eocdPos zip64EocdMinLen with
        | none => return none
        | some pos =>
          match ← checkedScanBack data zip64EocdSignature zip64Floor pos with
          | none => return none
          | some pos =>
            let entries ← checkedReadLe data (pos + 32) 8
            let cdSize ← checkedReadLe data (pos + 40) 8
            let cdOffset ← checkedReadLe data (pos + 48) 8
            return some { eocdPos, entries, cdSize, cdOffset }

/-! ## The search -/

def zipMagic : Bytes := [0x50, 0x4B, 0x03, 0x04]

def centralDirectorySignature : Bytes := [0x50, 0x4B, 0x01, 0x02]

def standardHeader : Nat := 40

def maxNavxHeaderBytes : Nat := 1024 * 1024

def maxZipValidationAttempts : Nat := 8

/-- The prefix that the trailer gives. -/
def trailerPrefix (data : Bytes) (trailer : ZipTrailer) : Option Nat :=
  ((subtract trailer.eocdPos trailer.cdSize).bind (subtract · trailer.cdOffset)).filter (· < data.length)

/-- `directory_is_there`. -/
def directoryIsThere (data : Bytes) (cdPos : Nat) : Checked Bool := do
  let stop ← checkedAdd cdPos 4
  if stop ≤ data.length then return (data.drop cdPos).take 4 = centralDirectorySignature else return false

section Search

variable [ArchiveLibrary]

def isValidZip (data : Bytes) (offset : Nat) : Checked Bool := do
  let bytes ← checkedSlice data offset data.length
  return (ArchiveLibrary.zipArchive bytes).isOk

/-- The loop over the first bytes of the file. -/
def probe (data : Bytes) : (todo i attempts : Nat) → Checked (Option Nat)
  | 0, _, _ => return none
  | todo + 1, i, attempts => do
    let here ← window data i
    if here = zipMagic then
      if ← isValidZip data i then return some i
      else
        let attempts ← checkedAdd attempts 1
        if maxZipValidationAttempts ≤ attempts then return none else probe data todo (i + 1) attempts
    else probe data todo (i + 1) attempts

def standardHeaderHolds (data : Bytes) : Checked Bool := do
  if standardHeader + 3 < data.length then
    let here ← window data standardHeader
    if here = zipMagic then isValidZip data standardHeader else return false
  else return false

/-- The places of a local header that are tried when the trailer does not add up. -/
def probeHeaders (data : Bytes) : Checked (Option Nat) := do
  if ← standardHeaderHolds data then return some standardHeader
  else
    let searchEnd := min data.length maxNavxHeaderBytes - 3
    probe data (searchEnd - minHeaderSize) minHeaderSize 0

def prefixHolds (data : Bytes) (trailer : ZipTrailer) (start : Nat) : Checked Bool := do
  let cdPos ← checkedAdd start trailer.cdOffset
  if (← directoryIsThere data cdPos) || trailer.entries == 0 then isValidZip data start else return false

def findZipOffset (data : Bytes) : Checked (Option Nat) := do
  match ← checkedReadZipTrailer data with
  | none => return none
  | some trailer =>
    if maxArchiveEntries < trailer.entries then return none
    else
      match trailerPrefix data trailer with
      | none => probeHeaders data
      | some start => if ← prefixHolds data trailer start then return some start else probeHeaders data

end Search

/-! ## No check fails -/

theorem checkedAdd_eq {a b : Nat} (small : a + b < 2 ^ 64) : checkedAdd a b = .ok (a + b) := if_pos small

theorem checkedSlice_eq {data : Bytes} {start stop : Nat} (ordered : start ≤ stop) (within : stop ≤ data.length) :
    checkedSlice data start stop = .ok ((data.drop start).take (stop - start)) := if_pos ⟨ordered, within⟩

theorem ok_bind {α β : Type} (a : α) (f : α → Checked β) : ((Except.ok a : Checked α) >>= f) = f a := rfl

section Reads

variable {data : Bytes} (fits : data.length < 2 ^ 63)

include fits

theorem window_eq {pos : Nat} (within : pos + 4 ≤ data.length) : window data pos = .ok ((data.drop pos).take 4) := by
  rw [window, checkedAdd_eq (by omega), ok_bind, checkedSlice_eq (Nat.le_add_right ..) within, Nat.add_sub_cancel_left]

theorem checkedReadLe_eq {start width : Nat} (within : start + width ≤ data.length) :
    checkedReadLe data start width = .ok (readLe data start width) := by
  rw [checkedReadLe, checkedAdd_eq (by omega), ok_bind, checkedSlice_eq (Nat.le_add_right ..) within, ok_bind,
    Nat.add_sub_cancel_left]
  rfl

theorem checkedScanBack_eq {signature : Bytes} {floor pos : Nat} (above : floor ≤ pos) (within : pos + 4 ≤ data.length) :
    checkedScanBack data signature floor pos = .ok (scanBack data signature floor pos) := by
  induction pos with
  | zero =>
      obtain rfl : floor = 0 := Nat.le_zero.mp above
      rw [checkedScanBack, window_eq fits within, scanBack, ok_bind, List.drop_zero, if_pos rfl]
      split <;> rfl
  | succ pos ih =>
      rw [checkedScanBack, window_eq fits within, scanBack, ok_bind]
      split
      · rfl
      · split
        · rfl
        next more => exact ih (by omega) (by omega)

end Reads

/-- A place with the signature. -/
abbrev Signs (data signature : Bytes) (pos : Nat) : Prop := (data.drop pos).take 4 = signature

theorem scanBack_below {data signature : Bytes} {floor pos found : Nat}
    (scanned : scanBack data signature floor pos = some found) : found ≤ pos := by
  induction pos with
  | zero =>
      rw [scanBack] at scanned
      split at scanned
      · cases scanned
        exact Nat.le_refl 0
      · cases scanned
  | succ pos ih =>
      rw [scanBack] at scanned
      split at scanned
      · cases scanned
        exact Nat.le_refl _
      · split at scanned
        · cases scanned
        · exact Nat.le_succ_of_le (ih scanned)

theorem scanBack_found {data signature : Bytes} {floor pos found : Nat} (above : floor ≤ found) (below : found ≤ pos)
    (signs : Signs data signature found) (last : ∀ place, found < place → place ≤ pos → ¬Signs data signature place) :
    scanBack data signature floor pos = some found := by
  induction pos with
  | zero =>
      obtain rfl : found = 0 := Nat.le_zero.mp below
      rw [scanBack, if_pos]
      exact signs
  | succ pos ih =>
      rw [scanBack]
      rcases Nat.lt_or_eq_of_le below with less | rfl
      · rw [if_neg (last _ less (Nat.le_refl _)), if_neg (by omega)]
        exact ih (Nat.le_of_lt_succ less) fun place after within => last place after (Nat.le_succ_of_le within)
      · exact if_pos signs

theorem scanBack_missing {data signature : Bytes} {floor pos : Nat} (above : floor ≤ pos)
    (none_signs : ∀ place, floor ≤ place → place ≤ pos → ¬Signs data signature place) :
    scanBack data signature floor pos = none := by
  induction pos with
  | zero =>
      rw [scanBack, if_neg]
      exact none_signs 0 above (Nat.le_refl 0)
  | succ pos ih =>
      rw [scanBack, if_neg (none_signs _ above (Nat.le_refl _))]
      split
      · rfl
      next more =>
          apply ih (by omega)
          exact fun place from_floor within => none_signs place from_floor (Nat.le_succ_of_le within)

theorem checkedReadZipTrailer_eq {data : Bytes} (fits : data.length < 2 ^ 63) :
    checkedReadZipTrailer data = .ok (readZipTrailer data) := by
  rw [checkedReadZipTrailer, readZipTrailer]
  dsimp only
  by_cases short : data.length < eocdMinLen
  · rw [subtract, if_neg (Nat.not_le.mpr short), if_pos short]
    rfl
  have long : eocdMinLen ≤ data.length := Nat.not_lt.mp short
  have minLen : eocdMinLen = 22 := rfl
  rw [subtract, if_pos long, if_neg short]
  dsimp only
  rw [checkedScanBack_eq fits (by omega) (by omega), ok_bind]
  cases scanned : scanBack data eocdSignature (data.length - (eocdMinLen + maxEocdComment)) (data.length - eocdMinLen) with
  | none => rfl
  | some eocdPos =>
      have within := scanBack_below scanned
      dsimp only
      rw [checkedReadLe_eq fits (by omega), ok_bind, checkedReadLe_eq fits (by omega), ok_bind,
        checkedReadLe_eq fits (by omega), ok_bind]
      rw [readU16, readU32, readU32]
      by_cases plain : (!(readLe data (eocdPos + 10) 2 == 65535 || readLe data (eocdPos + 12) 4 == 4294967295 ||
          readLe data (eocdPos + 16) 4 == 4294967295)) = true
      · rw [if_pos plain, if_pos plain]
        rfl
      rw [if_neg plain, if_neg plain]
      have minLen64 : zip64EocdMinLen = 56 := rfl
      by_cases early : eocdPos < zip64EocdMinLen
      · rw [subtract, if_neg (Nat.not_le.mpr early), if_pos early]
        rfl
      rw [subtract, if_pos (Nat.not_lt.mp early), if_neg early]
      dsimp only
      rw [checkedScanBack_eq fits (by omega) (by omega), ok_bind]
      cases scanned64 : scanBack data zip64EocdSignature (eocdPos - (maxEocdComment + zip64EocdMinLen))
          (eocdPos - zip64EocdMinLen) with
      | none => rfl
      | some pos =>
          have within64 := scanBack_below scanned64
          dsimp only
          rw [checkedReadLe_eq fits (by omega), ok_bind, checkedReadLe_eq fits (by omega), ok_bind,
            checkedReadLe_eq fits (by omega), ok_bind]
          rfl

theorem readZipTrailer_eocdPos {data : Bytes} {trailer : ZipTrailer} (read : readZipTrailer data = some trailer) :
    trailer.eocdPos + eocdMinLen ≤ data.length := by
  rw [readZipTrailer] at read
  dsimp only at read
  split at read
  · cases read
  next long =>
  split at read
  · cases read
  next eocdPos scanned =>
  have within := scanBack_below scanned
  have place : trailer.eocdPos = eocdPos := by
    split at read
    · cases read
      rfl
    · split at read
      · cases read
      · split at read
        · cases read
        · cases read
          rfl
  omega

/-! ## Where the search ends -/

section Found

variable [ArchiveLibrary]

/-- Whether the library opens the file from a place on. -/
def opens (data : Bytes) (start : Nat) : Bool := (ArchiveLibrary.zipArchive (data.drop start)).isOk

def directoryAt (data : Bytes) (cdPos : Nat) : Bool := (data.drop cdPos).take 4 = centralDirectorySignature

def headerAt (data : Bytes) (pos : Nat) : Bool := (data.drop pos).take 4 = zipMagic

/-- The places of a local header, in the order in which they are tried. -/
def headersTried (data : Bytes) : List Nat :=
  [standardHeader].filter (headerAt data) ++
    ((List.range' minHeaderSize (min data.length maxNavxHeaderBytes - 3 - minHeaderSize)).filter (headerAt data)).take
      maxZipValidationAttempts

/-- The prefix that the trailer gives is taken. -/
def taken (data : Bytes) (trailer : ZipTrailer) (start : Nat) : Bool :=
  (directoryAt data (start + trailer.cdOffset) || trailer.entries == 0) && opens data start

variable {data : Bytes} (fits : data.length < 2 ^ 63)

theorem isValidZip_eq {offset : Nat} (within : offset ≤ data.length) : isValidZip data offset = .ok (opens data offset) := by
  rw [isValidZip, checkedSlice_eq within (Nat.le_refl _), ok_bind, ← List.length_drop, List.take_length]
  rfl

include fits

theorem probe_eq {todo i attempts : Nat} (within : i + todo + 3 ≤ data.length) (allowed : attempts < maxZipValidationAttempts) :
    probe data todo i attempts =
      .ok ((((List.range' i todo).filter (headerAt data)).take (maxZipValidationAttempts - attempts)).find? (opens data)) := by
  have most : maxZipValidationAttempts = 8 := rfl
  induction todo generalizing i attempts with
  | zero => rw [probe, List.range'_zero, List.filter_nil, List.take_nil, List.find?_nil]; rfl
  | succ todo ih =>
      rw [probe, window_eq fits (by omega), ok_bind, List.range'_succ, List.filter_cons]
      by_cases header : (data.drop i).take 4 = zipMagic
      · have shown : headerAt data i = true := decide_eq_true header
        have more : maxZipValidationAttempts - attempts = (maxZipValidationAttempts - (attempts + 1)) + 1 := by omega
        rw [if_pos header, isValidZip_eq (by omega), ok_bind, if_pos shown, more, List.take_succ_cons, List.find?_cons]
        cases opens data i with
        | true => rfl
        | false =>
            rw [if_neg (by decide), checkedAdd_eq (by omega), ok_bind]
            by_cases last : maxZipValidationAttempts ≤ attempts + 1
            · rw [if_pos last, Nat.sub_eq_zero_of_le last, List.take_zero]
              rfl
            · rw [if_neg last]
              exact ih (by omega) (by omega)
      · have hidden : ¬headerAt data i = true := fun shown => header (of_decide_eq_true shown)
        rw [if_neg header, if_neg hidden]
        exact ih (by omega) allowed

theorem standardHeaderHolds_eq : standardHeaderHolds data = .ok (headerAt data standardHeader && opens data standardHeader) := by
  have place : standardHeader = 40 := rfl
  rw [standardHeaderHolds]
  by_cases long : standardHeader + 3 < data.length
  · rw [if_pos long, window_eq fits (by omega), ok_bind, headerAt]
    by_cases header : (data.drop standardHeader).take 4 = zipMagic
    · rw [if_pos header, isValidZip_eq (by omega), decide_eq_true header, Bool.true_and]
    · rw [if_neg header, decide_eq_false header, Bool.false_and]
      rfl
  · have header : ¬(data.drop standardHeader).take 4 = zipMagic := by
      intro same
      have length : ((data.drop standardHeader).take 4).length = 4 := congrArg List.length same
      rw [List.length_take, List.length_drop] at length
      omega
    rw [if_neg long, headerAt, decide_eq_false header, Bool.false_and]
    rfl

theorem probeHeaders_eq : probeHeaders data = .ok ((headersTried data).find? (opens data)) := by
  rw [probeHeaders, standardHeaderHolds_eq fits, ok_bind, headersTried, List.find?_append, List.filter_singleton]
  have least : minHeaderSize = 4 := rfl
  have scanned : probe data (min data.length maxNavxHeaderBytes - 3 - minHeaderSize) minHeaderSize 0 =
      .ok ((((List.range' minHeaderSize (min data.length maxNavxHeaderBytes - 3 - minHeaderSize)).filter
        (headerAt data)).take maxZipValidationAttempts).find? (opens data)) := by
    by_cases room : minHeaderSize ≤ min data.length maxNavxHeaderBytes - 3
    · exact probe_eq fits (by omega) (by decide)
    · rw [Nat.sub_eq_zero_of_le (Nat.le_of_not_le room)]
      rfl
  cases headerAt data standardHeader with
  | false =>
      rw [Bool.false_and, if_neg (by decide)]
      exact scanned
  | true =>
      rw [Bool.true_and, cond_true, List.find?_singleton]
      cases opens data standardHeader with
      | true => rfl
      | false =>
          rw [if_neg (by decide)]
          exact scanned

omit [ArchiveLibrary] in
theorem directoryIsThere_eq {cdPos : Nat} (within : cdPos ≤ data.length) :
    directoryIsThere data cdPos = .ok (directoryAt data cdPos) := by
  rw [directoryIsThere, checkedAdd_eq (by omega), ok_bind, directoryAt]
  split
  · rfl
  next short =>
      have other : ¬(data.drop cdPos).take 4 = centralDirectorySignature := by
        intro same
        have length : ((data.drop cdPos).take 4).length = 4 := congrArg List.length same
        rw [List.length_take, List.length_drop] at length
        omega
      rw [decide_eq_false other]
      rfl

theorem prefixHolds_eq {trailer : ZipTrailer} {start : Nat} (within : start + trailer.cdOffset ≤ data.length) :
    prefixHolds data trailer start = .ok (taken data trailer start) := by
  rw [prefixHolds, checkedAdd_eq (by omega), ok_bind, directoryIsThere_eq fits within, ok_bind, taken]
  cases directoryAt data (start + trailer.cdOffset) || trailer.entries == 0 with
  | true => rw [if_pos rfl, isValidZip_eq (by omega), Bool.true_and]
  | false => rfl

omit fits [ArchiveLibrary] in
theorem trailerPrefix_some {trailer : ZipTrailer} {start : Nat} (given : trailerPrefix data trailer = some start) :
    start + trailer.cdOffset + trailer.cdSize = trailer.eocdPos ∧ start < data.length := by
  rw [trailerPrefix, Option.filter_eq_some_iff, subtract] at given
  obtain ⟨given, within⟩ := given
  refine ⟨?_, of_decide_eq_true within⟩
  split at given
  · rw [Option.bind_some, subtract] at given
    split at given
    · cases given
      omega
    · cases given
  · cases given

/-- What a trailer leads to. -/
def foundBy (data : Bytes) (trailer : ZipTrailer) : Option Nat :=
  if maxArchiveEntries < trailer.entries then none
  else ((trailerPrefix data trailer).filter (taken data trailer)).or ((headersTried data).find? (opens data))

theorem findZipOffset_eq : findZipOffset data = .ok ((readZipTrailer data).bind (foundBy data)) := by
  rw [findZipOffset, checkedReadZipTrailer_eq fits, ok_bind]
  cases read : readZipTrailer data with
  | none => rfl
  | some trailer =>
      dsimp only
      rw [Option.bind_some, foundBy]
      by_cases many : maxArchiveEntries < trailer.entries
      · rw [if_pos many, if_pos many]
        rfl
      rw [if_neg many, if_neg many]
      cases given : trailerPrefix data trailer with
      | none => exact probeHeaders_eq fits
      | some start =>
          have behind := (trailerPrefix_some given).1
          have within := readZipTrailer_eocdPos read
          dsimp only
          rw [prefixHolds_eq fits (by omega), ok_bind, Option.filter_some]
          cases taken data trailer start with
          | true => rfl
          | false => exact probeHeaders_eq fits

end Found

end AlLanguage.Symbols
