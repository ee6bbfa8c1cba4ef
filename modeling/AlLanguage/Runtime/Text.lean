import Mathlib

/-!
# Text of the runtime

- The case mappings of the standard library, with the Unicode tables as a parameter.
- Trimming, ASCII folding and the text form of 64-bit integers.
-/

namespace AlLanguage.Runtime

/-- The Unicode full case mappings. Upper case maps character by character, lower case looks at the
whole text because of the final sigma. -/
class CaseMapping where
  upperChar : Char → List Char
  lowerText : List Char → List Char
  upper_ascii : ∀ c : Char, c.toNat < 128 → upperChar c = [c.toUpper]
  lower_ascii : ∀ text : List Char, (∀ c ∈ text, c.toNat < 128) → lowerText text = text.map Char.toLower
  /-- No letter has a wildcard in its lower case. -/
  lower_wildcard : ∀ text : List Char, ∀ c ∈ ['*', '?'], c ∈ lowerText text → c ∈ text

def latin1Lower (c : Char) : Char :=
  if ('A' ≤ c ∧ c ≤ 'Z') ∨ ('À' ≤ c ∧ c ≤ 'Þ' ∧ c ≠ '×') then Char.ofNat (c.toNat + 32) else c

theorem latin1Lower_wildcard {c : Char} (wild : latin1Lower c ∈ ['*', '?']) : latin1Lower c = c := by
  by_cases small : c.toNat < 256
  · have each : ∀ n < 256, latin1Lower (Char.ofNat n) ∈ ['*', '?'] → latin1Lower (Char.ofNat n) = Char.ofNat n := by
      decide +kernel
    have here := each c.toNat small
    rw [Char.ofNat_toNat] at here
    exact here wild
  · rw [latin1Lower, if_neg]
    rintro (⟨_, high⟩ | ⟨_, high, _⟩)
    all_goals
      have bound : c.toNat ≤ _ := high
      exact small (bound.trans_lt (by decide))

/-- The mappings of the characters up to U+00FF. -/
@[reducible] def CaseMapping.latin1 : CaseMapping where
  upperChar c :=
    if c = 'ß' then ['S', 'S']
    else if c = 'µ' then ['Μ']
    else if c = 'ÿ' then ['Ÿ']
    else if ('a' ≤ c ∧ c ≤ 'z') ∨ ('à' ≤ c ∧ c ≤ 'þ' ∧ c ≠ '÷') then [Char.ofNat (c.toNat - 32)]
    else [c]
  lowerText := List.map latin1Lower
  upper_ascii c small := by
    rw [← Char.ofNat_toNat c]
    revert small
    generalize c.toNat = n
    revert n
    decide +kernel
  lower_ascii text small := by
    have each : ∀ n < 128, latin1Lower (Char.ofNat n) = (Char.ofNat n).toLower := by decide +kernel
    apply List.map_congr_left
    intro c member
    rw [← Char.ofNat_toNat c]
    exact each c.toNat (small c member)
  lower_wildcard text c wild member := by
    obtain ⟨d, inside, lower⟩ := List.mem_map.mp member
    rw [← lower, latin1Lower_wildcard (lower ▸ wild)]
    exact inside

def toUppercase [CaseMapping] (s : String) : String :=
  String.ofList (s.toList.flatMap CaseMapping.upperChar)

def toLowercase [CaseMapping] (s : String) : String :=
  String.ofList (CaseMapping.lowerText s.toList)

/-- `char::to_ascii_uppercase` over a text. -/
def toAsciiUppercase (s : String) : String := String.ofList (s.toList.map Char.toUpper)

def eqIgnoreAsciiCase (a b : String) : Bool := toAsciiUppercase a == toAsciiUppercase b

/-- The characters with the Unicode property White_Space. -/
def isWhitespace (c : Char) : Bool :=
  (9 ≤ c.toNat && c.toNat ≤ 13) || c.toNat == 32 || c.toNat == 0x85 || c.toNat == 0xA0 ||
    c.toNat == 0x1680 || (0x2000 ≤ c.toNat && c.toNat ≤ 0x200A) || c.toNat == 0x2028 ||
    c.toNat == 0x2029 || c.toNat == 0x202F || c.toNat == 0x205F || c.toNat == 0x3000

def trim (s : String) : String :=
  String.ofList ((s.toList.dropWhile isWhitespace).rdropWhile isWhitespace)

/-! ## 64-bit integers -/

/-- `i64::to_string`. -/
def renderI64 (n : Int64) : String := toString n.toInt

def digitsValue (digits : List Char) : Option Nat :=
  if digits ≠ [] ∧ digits.all Char.isDigit then some (Nat.ofDigitChars 10 digits 0) else none

def i64OfInt (n : Int) : Option Int64 :=
  if -9223372036854775808 ≤ n ∧ n ≤ 9223372036854775807 then some (Int64.ofInt n) else none

/-- `str::parse::<i64>`: a sign or none, then at least one digit and nothing else. -/
def parseI64 (s : String) : Option Int64 :=
  match s.toList with
  | '-' :: digits => (digitsValue digits).bind fun n => i64OfInt (-n)
  | '+' :: digits => (digitsValue digits).bind fun n => i64OfInt n
  | digits => (digitsValue digits).bind fun n => i64OfInt n

theorem i64OfInt_toInt (n : Int64) : i64OfInt n.toInt = some n := by
  have low := Int64.le_toInt n
  have high := Int64.toInt_lt n
  have range : -9223372036854775808 ≤ n.toInt ∧ n.toInt ≤ 9223372036854775807 := by omega
  rw [i64OfInt, if_pos range, Int64.ofInt_toInt]

theorem digitsValue_toDigits (n : Nat) : digitsValue (Nat.toDigits 10 n) = some n := by
  have digits : (Nat.toDigits 10 n).all Char.isDigit := by
    simpa using fun c member => Nat.isDigit_of_mem_toDigits (by decide) (by decide) member
  rw [digitsValue, if_pos ⟨Nat.toDigits_ne_nil, digits⟩, Nat.ofDigitChars_ten_toDigits]

/-- A digit text starts with neither sign. -/
theorem parseI64_of_digits {s : String} {n : Nat} (digits : s.toList = Nat.toDigits 10 n) :
    parseI64 s = i64OfInt n := by
  have value := digitsValue_toDigits n
  rw [← digits] at value
  have isDigit : ∀ c ∈ s.toList, c.isDigit := fun c member =>
    Nat.isDigit_of_mem_toDigits (b := 10) (by decide) (by decide) (digits ▸ member)
  unfold parseI64
  split
  next rest shape => exact absurd (isDigit '-' (by simp [shape])) (by decide)
  next rest shape => exact absurd (isDigit '+' (by simp [shape])) (by decide)
  next => simp [value]

theorem parseI64_of_minus {s : String} {digits : List Char} (shape : s.toList = '-' :: digits) :
    parseI64 s = (digitsValue digits).bind fun n => i64OfInt (-n) := by
  simp only [parseI64, shape]

theorem parseI64_toString (i : Int) : parseI64 (toString i) = i64OfInt i := by
  cases i with
  | ofNat m =>
      have digits : (toString (Int.ofNat m)).toList = Nat.toDigits 10 m := Nat.toList_repr
      exact parseI64_of_digits digits
  | negSucc m =>
      have shape : (toString (Int.negSucc m)).toList = '-' :: Nat.toDigits 10 (m + 1) := by
        simp [toString, Int.repr, Nat.toList_repr]
      have negated : Int.negSucc m = -((m + 1 : Nat) : Int) := rfl
      rw [parseI64_of_minus shape, digitsValue_toDigits, negated, Option.bind_some]

theorem parseI64_renderI64 (n : Int64) : parseI64 (renderI64 n) = some n := by
  rw [renderI64, parseI64_toString, i64OfInt_toInt]

end AlLanguage.Runtime
