import AlLanguage.Runtime.Text
import Mathlib.Data.Int.Order.Basic
import Mathlib.Tactic.Ring

/-!
# Decimals

The 96-bit decimal of the runtime: an integer mantissa over a power of ten up to `10 ^ 28`. Equality
and order are by value, so `1.0` and `1.00` are one number.
-/

namespace AlLanguage.Runtime

structure Decimal where
  mantissa : Int
  scale : Nat
  mantissaBound : mantissa.natAbs < 2 ^ 96
  scaleBound : scale ≤ 28
deriving DecidableEq

namespace Decimal

/-- The value in units of `10 ^ -28`. -/
def units (d : Decimal) : Int := d.mantissa * 10 ^ (28 - d.scale)

instance : Ord Decimal := ⟨compareOn units⟩

instance : Std.TransOrd Decimal := inferInstanceAs (Std.TransCmp (compareOn units))

/-- `Decimal::from(i64)`. -/
def ofInt64 (n : Int64) : Decimal where
  mantissa := n.toInt
  scale := 0
  mantissaBound := by
    have low := Int64.le_toInt n
    have high := Int64.toInt_lt n
    omega
  scaleBound := by decide

def zero : Decimal := ofInt64 0

theorem compare_units (a b : Decimal) : compare a b = compare a.units b.units := rfl

theorem compare_eq_iff (a b : Decimal) : compare a b = .eq ↔ a.units = b.units := by
  rw [compare_units, Std.LawfulEqOrd.compare_eq_iff_eq]

theorem compare_toInt (a b : Int64) : compare a b = compare a.toInt b.toInt := by
  simp only [compare, compareOfLessAndEq, Int64.lt_iff_toInt_lt, Int64.toInt_inj]

theorem compare_scaled (a b : Int) {unit : Int} (positive : 0 < unit) :
    compare (a * unit) (b * unit) = compare a b := by
  have order : a * unit < b * unit ↔ a < b := Int.mul_lt_mul_right positive
  have equal : a * unit = b * unit ↔ a = b := Int.mul_eq_mul_right_iff positive.ne'
  simp only [compare, compareOfLessAndEq, order, equal]

/-- A 64-bit integer keeps its order as a decimal. -/
theorem compare_ofInt64 (a b : Int64) : compare (ofInt64 a) (ofInt64 b) = compare a b := by
  rw [compare_units, units, units, compare_toInt]
  exact compare_scaled a.toInt b.toInt (by simp [ofInt64])

/-- Drop trailing zeros of the fraction, at most `scale` of them. -/
def stripZeros (m : Int) : Nat → Int × Nat
  | 0 => (m, 0)
  | scale + 1 => if m % 10 = 0 then stripZeros (m / 10) scale else (m, scale + 1)

theorem stripZeros_spec (m : Int) (scale : Nat) :
    (stripZeros m scale).2 ≤ scale ∧ (stripZeros m scale).1.natAbs ≤ m.natAbs ∧
      (stripZeros m scale).1 * 10 ^ (scale - (stripZeros m scale).2) = m := by
  induction scale generalizing m with
  | zero => simp [stripZeros]
  | succ scale ih =>
      rw [stripZeros]
      split
      next whole =>
        obtain ⟨smaller, bounded, value⟩ := ih (m / 10)
        refine ⟨by omega, by omega, ?_⟩
        have step : scale + 1 - (stripZeros (m / 10) scale).2 = scale - (stripZeros (m / 10) scale).2 + 1 := by omega
        rw [step, pow_succ, ← mul_assoc, value]
        omega
      next => simp

/-- Zeros that were put behind a number are stripped again. -/
theorem stripZeros_scaled (m : Int) (k scale : Nat) : stripZeros (m * 10 ^ k) (scale + k) = stripZeros m scale := by
  induction k with
  | zero => rw [pow_zero, mul_one, Nat.add_zero]
  | succ k ih =>
      have whole : m * 10 ^ (k + 1) % 10 = 0 := by
        rw [pow_succ, ← mul_assoc]
        exact Int.mul_emod_left _ _
      have tenth : m * 10 ^ (k + 1) / 10 = m * 10 ^ k := by
        rw [pow_succ, ← mul_assoc]
        exact Int.mul_ediv_cancel _ (by decide)
      rw [← Nat.add_assoc, stripZeros, if_pos whole, tenth, ih]

/-- `Decimal::normalize`. -/
def normalize (d : Decimal) : Decimal where
  mantissa := (stripZeros d.mantissa d.scale).1
  scale := (stripZeros d.mantissa d.scale).2
  mantissaBound := (stripZeros_spec d.mantissa d.scale).2.1.trans_lt d.mantissaBound
  scaleBound := (stripZeros_spec d.mantissa d.scale).1.trans d.scaleBound

theorem units_normalize (d : Decimal) : d.normalize.units = d.units := by
  obtain ⟨smaller, _, value⟩ := stripZeros_spec d.mantissa d.scale
  have bound := d.scaleBound
  have split : 28 - (stripZeros d.mantissa d.scale).2
      = d.scale - (stripZeros d.mantissa d.scale).2 + (28 - d.scale) := by omega
  calc (stripZeros d.mantissa d.scale).1 * 10 ^ (28 - (stripZeros d.mantissa d.scale).2)
      = (stripZeros d.mantissa d.scale).1 * 10 ^ (d.scale - (stripZeros d.mantissa d.scale).2)
          * 10 ^ (28 - d.scale) := by rw [split, pow_add, mul_assoc]
    _ = d.mantissa * 10 ^ (28 - d.scale) := by rw [value]

/-- `Decimal::to_string`: the point stands `scale` digits from the right. -/
def render (d : Decimal) : String :=
  let digits := Nat.toDigits 10 d.mantissa.natAbs
  let padded := List.replicate (d.scale + 1 - digits.length) '0' ++ digits
  let sign := if d.mantissa < 0 then ['-'] else []
  let whole := padded.take (padded.length - d.scale)
  let fraction := padded.drop (padded.length - d.scale)
  String.ofList (sign ++ whole ++ (if d.scale = 0 then [] else '.' :: fraction))

end Decimal

/-- `str::parse::<Decimal>`, a function of the decimal package. -/
class DecimalSyntax where
  parseDecimal : String → Option Decimal

export DecimalSyntax (parseDecimal)

/-- A decimal in digits, with a point or none. -/
def decimalOfDigits (negative : Bool) (whole fraction : List Char) : Option Decimal :=
  if whole ≠ [] ∧ (whole ++ fraction).all Char.isDigit then
    let magnitude := Nat.ofDigitChars 10 (whole ++ fraction) 0
    if bounds : magnitude < 2 ^ 96 ∧ fraction.length ≤ 28 then
      some ⟨if negative then -magnitude else magnitude, fraction.length, by split <;> simpa using bounds.1, bounds.2⟩
    else none
  else none

def parseUnsigned (negative : Bool) (text : List Char) : Option Decimal :=
  match text.span (· ≠ '.') with
  | (whole, []) => decimalOfDigits negative whole []
  | (_, [_]) => none
  | (whole, _ :: fraction) => decimalOfDigits negative whole fraction

/-- Decimals in plain notation that fit without rounding. -/
@[reducible] def DecimalSyntax.plain : DecimalSyntax where
  parseDecimal s :=
    match s.toList with
    | '-' :: text => parseUnsigned true text
    | '+' :: text => parseUnsigned false text
    | text => parseUnsigned false text

/-- The package reads back what it renders, by value. -/
class LawfulDecimalSyntax [DecimalSyntax] : Prop where
  parse_render : ∀ d : Decimal, ∃ d', parseDecimal d.normalize.render = some d' ∧ d'.units = d.units

end AlLanguage.Runtime
