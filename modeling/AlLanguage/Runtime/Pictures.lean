import AlLanguage.Runtime.Collections
import AlLanguage.Runtime.Multiples
import AlLanguage.Runtime.Weeks

/-!
# The texts of values

- `Format` with its standard formats, and the XML format.
- Format pictures: literal text and components such as `<Integer Thousand>` or `<Month,2>`.
-/

namespace AlLanguage.Runtime

open Library.Rounding

/-! ## Helpers of the texts -/

/-- `str::split_once`. -/
def splitOnce (c : Char) (text : List Char) : Option (List Char × List Char) :=
  match text.span (· ≠ c) with
  | (_, []) => none
  | (before, _ :: after) => some (before, after)

/-- A minus sign in front and the text behind it. -/
def splitMinus (text : List Char) : String × List Char :=
  match text with
  | '-' :: digits => ("-", digits)
  | digits => ("", digits)

/-- `1234567` becomes `1,234,567`. -/
def groupThousands (digits : List Char) : List Char :=
  let length := (digits.map Char.utf8Size).sum
  digits.zipIdx.flatMap fun (digit, index) => if 0 < index ∧ (length - index) % 3 = 0 then [',', digit] else [digit]

/-- `{:0width}` of an integer. The sign counts. -/
def zeroPadded (width : Nat) (n : Int) : String :=
  let digits := Nat.toDigits 10 n.natAbs
  if n < 0 then String.ofList ('-' :: (List.replicate (width - 1 - digits.length) '0' ++ digits))
  else String.ofList (List.replicate (width - digits.length) '0' ++ digits)

def padLeft (text : List Char) (width : Option Nat) (filler : Char) : List Char :=
  match width with
  | some width => List.replicate (width - text.length) filler ++ text
  | none => text

/-! ## Standard formats -/

/-- `HH:MM:SS[.fff]`. -/
def renderTimeMs (ms : Int) : String :=
  let seconds := ms / 1000
  let millis := ms % 1000
  let text := zeroPadded 2 (seconds.tdiv 3600) ++ ":" ++ zeroPadded 2 ((seconds.tdiv 60).tmod 60) ++ ":" ++
    zeroPadded 2 (seconds.tmod 60)
  if millis = 0 then text else text ++ "." ++ zeroPadded 3 millis

/-- The units that are not zero, from days down. -/
def durationParts : Nat → List (Nat × String) → List String
  | _, [] => []
  | rest, (unit, name) :: units =>
      let count := rest / unit
      let later := durationParts (rest % unit) units
      if count = 0 then later else (toString count ++ " " ++ name ++ (if count = 1 then "" else "s")) :: later

def renderDuration (milliseconds : Int) : String :=
  let parts := durationParts milliseconds.natAbs
    [(86400000, "day"), (3600000, "hour"), (60000, "minute"), (1000, "second"), (1, "millisecond")]
  if parts.isEmpty then "0 seconds"
  else
    let rendered := String.intercalate " " parts
    if milliseconds < 0 then "-" ++ rendered else rendered

/-- Standard format 0. -/
def renderValue (v : Value) : String :=
  match v with
  | .integer n | .bigInteger n =>
      let sign := if n < 0 then "-" else ""
      sign ++ String.ofList (groupThousands (Nat.toDigits 10 n.toInt.natAbs))
  | .decimal n =>
      let (sign, digits) := splitMinus n.normalize.render.toList
      match splitOnce '.' digits with
      | some (integer, fraction) => sign ++ String.ofList (groupThousands integer) ++ "." ++ String.ofList fraction
      | none => sign ++ String.ofList (groupThousands digits)
  | .boolean true => "Yes"
  | .boolean false => "No"
  | .text s | .code s => s
  | .date d =>
      if d = 0 then ""
      else
        let (y, m, day) := ymdFromAlDays d.toInt
        zeroPadded 2 m ++ "/" ++ zeroPadded 2 day ++ "/" ++ zeroPadded 4 y
  | .time t => if t = 0 then "" else renderTimeMs t.toInt
  | .dateTime dt =>
      if dt = 0 then ""
      else
        let (y, m, day) := ymdFromAlDays (dt.toInt / msPerDay)
        zeroPadded 2 m ++ "/" ++ zeroPadded 2 day ++ "/" ++ zeroPadded 4 y ++ " " ++ renderTimeMs (dt.toInt % msPerDay)
  | .duration d => renderDuration d.toInt
  | .guid g => g
  | .char c => String.singleton c
  | .null | .empty => ""
  | .option _ member _ => member
  | other => "<" ++ other.typeName ++ ">"

/-- Standard format 9, the XML format. -/
def renderValueXml (v : Value) : String :=
  match v with
  | .integer n | .bigInteger n => renderI64 n
  | .decimal n => n.normalize.render
  | .boolean b => if b then "true" else "false"
  | .date d =>
      if d = 0 then ""
      else
        let (y, m, day) := ymdFromAlDays d.toInt
        zeroPadded 4 y ++ "-" ++ zeroPadded 2 m ++ "-" ++ zeroPadded 2 day
  | .time t => if t = 0 then "" else renderTimeMs t.toInt
  | .dateTime dt =>
      if dt = 0 then ""
      else
        let (y, m, day) := ymdFromAlDays (dt.toInt / msPerDay)
        zeroPadded 4 y ++ "-" ++ zeroPadded 2 m ++ "-" ++ zeroPadded 2 day ++ "T" ++ renderTimeMs (dt.toInt % msPerDay) ++ "Z"
  | other => renderValue other

/-! ## Pictures -/

inductive PicturePart where
  | literal (text : List Char)
  | component (name : String) (argument : Option (List Char))
  deriving DecidableEq

/-- One component or one run of literal text after the other. Each takes a character at least. -/
def partsWithin (picture : List Char) : Nat → List Char → Except String (List PicturePart)
  | _, [] => .ok []
  | 0, _ => .ok []
  | fuel + 1, '<' :: rest => do
      if '>' ∉ rest then throw ("unclosed component in format '" ++ String.ofList picture ++ "'")
      let inner := rest.takeWhile (· ≠ '>')
      let (name, argument) := match splitOnce ',' inner with
        | some (name, argument) => (name, some argument)
        | none => (inner, none)
      let later ← partsWithin picture fuel ((rest.dropWhile (· ≠ '>')).drop 1)
      return .component (toAsciiLowercase (trim (String.ofList name))) argument :: later
  | fuel + 1, rest => do
      let later ← partsWithin picture fuel (rest.dropWhile (· ≠ '<'))
      return .literal (rest.takeWhile (· ≠ '<')) :: later

def parts (picture : List Char) : Except String (List PicturePart) := partsWithin picture picture.length picture

/-- `Decimal::round_dp_with_strategy`. A number with no more digits is left as it is. -/
def Decimal.roundDp (d : Decimal) (dp : Nat) (direction : Direction) : Decimal :=
  if d.scale ≤ dp then d
  else
    { mantissa := d.mantissa.sign * steps direction d.mantissa.natAbs (10 ^ (d.scale - dp))
      scale := min d.scale dp
      mantissaBound := by
        have below : steps direction d.mantissa.natAbs (10 ^ (d.scale - dp)) ≤ d.mantissa.natAbs :=
          steps_le (Nat.pow_pos (by decide)) (Nat.le_mul_of_pos_right _ (Nat.pow_pos (by decide)))
        have bound := d.mantissaBound
        have sign : d.mantissa.sign.natAbs ≤ 1 := by
          rw [Int.natAbs_sign]
          split <;> omega
        have product := Nat.mul_le_mul sign below
        rw [Int.natAbs_mul, Int.natAbs_natCast]
        omega
      scaleBound := (Nat.min_le_left _ _).trans d.scaleBound }

/-- A number split for rendering. -/
structure NumberParts where
  negative : Bool
  integer : List Char
  fraction : List Char

def numberOf (value : Value) (precision : Option (Nat × Nat)) : Option NumberParts :=
  value.asDecimal.map fun decimal =>
    let decimal : Decimal := match precision with
      | some (_, most) => decimal.roundDp most .nearest
      | none => decimal
    let text := decimal.abs.normalize.render.toList
    let (integer, fraction) := (splitOnce '.' text).getD (text, [])
    let fraction := match precision with
      | some (least, _) => fraction ++ List.replicate (least - fraction.length) '0'
      | none => fraction
    { negative := decide (decimal.mantissa < 0)
      integer := integer
      fraction := fraction }

/-- The picture a numbered standard format stands for. -/
def standardPicture (value : Value) (number : Int64) : Except String String :=
  if value.asDecimal.isSome ∧ number = 0 then .ok "<Sign><Integer Thousand><Decimals>"
  else if value.asDecimal.isSome ∧ number = 1 then .ok "<Sign><Integer><Decimals>"
  else if value.asDecimal.isSome ∧ number = 2 then .ok "<Sign><Integer><Decimals>"
  else if value.asDecimal.isSome ∧ number = 3 then .ok "<Integer Thousand><Decimals><Sign>"
  else if value.asDecimal.isSome ∧ number = 4 then .ok "<Integer><Decimals><Sign>"
  else .error ("standard format " ++ renderI64 number ++ " of a " ++ value.typeName ++ " is not supported by the local runtime")

def months : List String :=
  ["January", "February", "March", "April", "May", "June", "July", "August", "September", "October", "November", "December"]

def weekdays : List String := ["Monday", "Tuesday", "Wednesday", "Thursday", "Friday", "Saturday", "Sunday"]

/-- `str::parse::<u32>`. -/
def parseU32 (s : String) : Option Nat := (parseSignedUsize s).filter (· < 2 ^ 32)

/-- The filler and the precision of a picture, wherever they stand. The last one counts. -/
structure PictureSettings where
  filler : Char
  precision : Option (Nat × Nat)

def parsePrecision (argument : Option (List Char)) : Except String (Nat × Nat) :=
  let argument := argument.getD []
  let (min, max) := (splitOnce ':' argument).getD (argument, argument)
  match parseU32 (trim (String.ofList min)), parseU32 (trim (String.ofList max)) with
  | some min, some max => .ok (min, max)
  | _, _ => .error ("invalid precision '" ++ String.ofList argument ++ "'")

def readSettings (settings : PictureSettings) : List PicturePart → Except String PictureSettings
  | [] => .ok settings
  | .component "filler character" argument :: rest =>
      readSettings { settings with filler := (argument.bind List.head?).getD ' ' } rest
  | .component "precision" argument :: rest => do
      let precision ← parsePrecision argument
      readSettings { settings with precision := some precision } rest
  | _ :: rest => readSettings settings rest

/-- The first characters of a name of a month or a day. -/
def shortened (names : List String) (index : Int) (width : Option Nat) : List Char :=
  let text := (names.getD (index - 1).toNat "").toList
  text.take (width.getD text.length)

/-- What one component shows. A standard format is a picture of its own without one in it. -/
def renderComponent (standardFormat : Value → String → Except String (List Char)) (value : Value) (settings : PictureSettings)
    (name : String) (argument : Option (List Char)) : Except String (List Char) := do
  let width := argument.bind fun a => parseSignedUsize (trim (String.ofList a))
  let unsupported := "format component <" ++ name ++ "> of a " ++ value.typeName ++ " is not supported by the local runtime"
  let orUnsupported {α : Type} (found : Option α) : Except String α := match found with
    | some a => .ok a
    | none => .error unsupported
  let date := match value with
    | .date d => some d.toInt
    | .dateTime dt => some (dt.toInt / msPerDay)
    | _ => none
  let time := match value with
    | .time t => some t.toInt
    | .dateTime dt => some (dt.toInt % msPerDay)
    | _ => none
  match name with
  | "filler character" | "precision" => return []
  | "standard format" =>
      let number ← orUnsupported (argument.bind fun a => parseI64 (trim (String.ofList a)))
      if number = 9 then return (renderValueXml value).toList
      match numberOf value settings.precision with
      | some _ =>
        let standard ← standardPicture value number
        let withPrecision := match settings.precision with
          | some (min, max) => "<Precision," ++ toString min ++ ":" ++ toString max ++ ">" ++ standard
          | none => standard
        standardFormat value withPrecision
      | none => if number = 0 then return (renderValue value).toList else throw unsupported
  | "sign" =>
      let number ← orUnsupported (numberOf value settings.precision)
      return if number.negative then ['-'] else []
  | "integer" =>
      let number ← orUnsupported (numberOf value settings.precision)
      return padLeft number.integer width settings.filler
  | "integer thousand" =>
      let number ← orUnsupported (numberOf value settings.precision)
      return padLeft (groupThousands number.integer) width settings.filler
  | "decimals" =>
      -- The width counts the separator.
      let precision := match settings.precision, width with
        | none, some width => some ((width - 1) % 2 ^ 32, (width - 1) % 2 ^ 32)
        | precision, _ => precision
      let number ← orUnsupported (numberOf value precision)
      return if number.fraction.isEmpty then [] else '.' :: number.fraction
  | "day" =>
      let date ← orUnsupported date
      return padLeft (toString (ymdFromAlDays date).2.2).toList width '0'
  | "month" =>
      let date ← orUnsupported date
      return padLeft (toString (ymdFromAlDays date).2.1).toList width '0'
  | "month text" =>
      let date ← orUnsupported date
      return shortened months (ymdFromAlDays date).2.1 width
  | "year" =>
      let date ← orUnsupported date
      return (zeroPadded 2 ((ymdFromAlDays date).1 % 100)).toList
  | "year4" =>
      let date ← orUnsupported date
      return (zeroPadded 4 (ymdFromAlDays date).1).toList
  | "weekday" =>
      let date ← orUnsupported date
      return (toString (weekdayOf date)).toList
  | "weekday text" =>
      let date ← orUnsupported date
      return shortened weekdays (weekdayOf date) width
  | "week" =>
      let date ← orUnsupported date
      return padLeft (toString (isoWeek date).1).toList width '0'
  | "closing" =>
      -- Local dates are never closing dates.
      let _ ← orUnsupported date
      return []
  | "hours24" =>
      let ms ← orUnsupported time
      return padLeft (toString ((ms / 1000).tdiv 3600)).toList width '0'
  | "hours12" =>
      let ms ← orUnsupported time
      let hours := ((ms / 1000).tdiv 3600).tmod 12
      return padLeft (toString (if hours = 0 then 12 else hours)).toList width '0'
  | "minutes" =>
      let ms ← orUnsupported time
      return padLeft (toString (((ms / 1000).tdiv 60).tmod 60)).toList width '0'
  | "seconds" =>
      let ms ← orUnsupported time
      return padLeft (toString ((ms / 1000).tmod 60)).toList width '0'
  | "thousands" =>
      let ms ← orUnsupported time
      return padLeft (zeroPadded 3 (ms % 1000)).toList width '0'
  | "am/pm" =>
      let ms ← orUnsupported time
      return padLeft (if (ms / 1000).tdiv 3600 < 12 then "AM" else "PM").toList width '0'
  | "text" => return (renderValue value).toList
  | _ => throw unsupported

def renderParts (standardFormat : Value → String → Except String (List Char)) (value : Value) (settings : PictureSettings) :
    List PicturePart → Except String (List Char)
  | [] => .ok []
  | .literal text :: rest => do
      let later ← renderParts standardFormat value settings rest
      return text ++ later
  | .component name argument :: rest => do
      let shown ← renderComponent standardFormat value settings name argument
      let later ← renderParts standardFormat value settings rest
      return shown ++ later

def renderPictureWith (standardFormat : Value → String → Except String (List Char)) (value : Value) (picture : String) :
    Except String (List Char) := do
  let parts ← parts picture.toList
  let settings ← readSettings ⟨' ', none⟩ parts
  renderParts standardFormat value settings parts

/-- The pictures of the standard formats hold no standard format. -/
def renderPicture (value : Value) (picture : String) : Except String String :=
  (renderPictureWith (renderPictureWith fun _ _ => .ok []) value picture).map String.ofList

def renderStandard (value : Value) (number : Int64) : Except String String := do
  renderPicture value (← standardPicture value number)

/-! ## Format -/

/-- The text before it is brought to a length. -/
def renderedFormat (value : Value) (format : Option Value) : Except String String :=
  match format with
  | none => .ok (renderValue value)
  | some (.integer n) =>
      if n = 0 then .ok (renderValue value)
      else if n = 9 then .ok (renderValueXml value)
      else (renderStandard value n).mapError fun error => "Format: " ++ error
  | some (.text s) | some (.code s) =>
      if s = "" then .ok (renderValue value) else (renderPicture value s).mapError fun error => "Format: " ++ error
  | some other => .error ("Format: format argument must be an Integer or Text, got " ++ other.typeName)

def formatLength (argument : Option Value) : Except String Int64 :=
  match argument with
  | none => .ok 0
  | some (.integer n) => .ok n
  | some other => .error ("Format: length must be an Integer, got " ++ other.typeName)

/-- Exactly so many characters, the text at the left for a positive length. A longer text loses its end. -/
def fitLength (rendered : String) (length : Int64) : Except String String := do
  if length = 0 then return rendered
  let width := length.toInt.natAbs
  let missing := width - rendered.toList.length
  checkTextSize "Format" (byteLength rendered + missing)
  if width < rendered.toList.length then return String.ofList (rendered.toList.take width)
  if 0 < length then return rendered ++ String.ofList (List.replicate missing ' ')
  return String.ofList (List.replicate missing ' ') ++ rendered

def builtinFormat (args : List Value) : Except String Value :=
  match args with
  | [] => .error "Format() requires at least 1 argument"
  | value :: options => do
      if 2 < options.length then throw "Format expects at most 3 arguments"
      let rendered ← renderedFormat value options[1]?
      let length ← formatLength options[0]?
      return .text (← fitLength rendered length)

end AlLanguage.Runtime
