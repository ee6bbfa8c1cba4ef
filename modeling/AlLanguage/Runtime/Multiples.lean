import AlLanguage.Library.Rounding
import AlLanguage.Runtime.Arithmetic

/-!
# Round

- `Round` divides by the precision, rounds the quotient to an integer and multiplies back.
- The result is the multiple next to the number exactly where the quotient that is kept goes to the integer of the ratio.
-/

namespace AlLanguage.Runtime

open Library.Rounding DecimalArithmetic DecimalProducts

/-! ## The builtin -/

theorem Decimal.roundDp0_scaleBound : 0 ≤ 28 := by decide

/-- `Decimal::round_dp_with_strategy` to no digits. A direction moves the magnitude. -/
def Decimal.roundDp0 (d : Decimal) (direction : Direction) : Decimal where
  mantissa := d.mantissa.sign * steps direction d.mantissa.natAbs (10 ^ d.scale)
  scale := 0
  mantissaBound := by
    have below : steps direction d.mantissa.natAbs (10 ^ d.scale) ≤ d.mantissa.natAbs :=
      steps_le (Nat.pow_pos (by decide)) (Nat.le_mul_of_pos_right _ (Nat.pow_pos (by decide)))
    have bound := d.mantissaBound
    have sign : d.mantissa.sign.natAbs ≤ 1 := by
      rw [Int.natAbs_sign]
      split <;> omega
    have product := Nat.mul_le_mul sign below
    rw [Int.natAbs_mul, Int.natAbs_natCast]
    omega
  scaleBound := Decimal.roundDp0_scaleBound

def parseDirection (text : String) : Except String Direction :=
  if text = "=" then .ok .nearest
  else if text = "<" then .ok .down
  else if text = ">" then .ok .up
  else .error ("Round: direction must be '=', '<' or '>', got '" ++ text ++ "'")

def roundPrecision (argument : Option Value) : Except String Decimal :=
  match argument with
  | none => .ok ⟨1, 2, by decide, by decide⟩
  | some v =>
    match v.asDecimal with
    | some p => if 0 < p.units then .ok p else .error "Round: precision must be greater than zero"
    | none => .error ("Round: precision must be numeric, got " ++ v.typeName)

def roundDirection (argument : Option Value) : Except String String :=
  match argument with
  | none => .ok "="
  | some (.text s) | some (.code s) => .ok s
  | some v => .error ("Round: direction must be Text, got " ++ v.typeName)

/-- The text of the direction is looked at after the division. -/
def builtinRound [DecimalArithmetic] [DecimalProducts] (args : List Value) : Except String Value :=
  match args with
  | value :: options =>
    if 2 < options.length then .error "Round expects 1 to 3 arguments"
    else
      match value.asDecimal with
      | none => .error ("Round expects a numeric value, got " ++ value.typeName)
      | some number => do
          let precision ← roundPrecision options[0]?
          let text ← roundDirection options[1]?
          match checkedDiv number precision with
          | none => throw "Round: arithmetic overflow"
          | some quotient =>
            let direction ← parseDirection text
            match checkedMul (quotient.roundDp0 direction) precision with
            | some result => return .decimal result.normalize
            | none => throw "Round: arithmetic overflow"
  | [] => .error "Round expects 1 to 3 arguments"

/-! ## Normal forms -/

namespace Decimal

theorem stripZeros_units (d : Decimal) : stripZeros d.units 28 = stripZeros d.mantissa d.scale := by
  have scaled := stripZeros_scaled d.mantissa (28 - d.scale) d.scale
  rwa [Nat.add_sub_cancel' d.scaleBound] at scaled

theorem normalize_congr {a b : Decimal} (same : a.units = b.units) : a.normalize = b.normalize := by
  have strip : stripZeros a.mantissa a.scale = stripZeros b.mantissa b.scale := by
    rw [← stripZeros_units, ← stripZeros_units, same]
  simp only [normalize, strip]

theorem stripZeros_neg (m : Int) (scale : Nat) :
    stripZeros (-m) scale = (-(stripZeros m scale).1, (stripZeros m scale).2) := by
  induction scale generalizing m with
  | zero => rfl
  | succ scale ih =>
      have zero : -m % 10 = 0 ↔ m % 10 = 0 := by omega
      rw [stripZeros, stripZeros]
      simp only [zero]
      split
      next whole =>
        rw [Int.neg_ediv_of_dvd (Int.dvd_of_emod_eq_zero whole)]
        exact ih (m / 10)
      next => rfl

theorem normalize_neg (d : Decimal) : d.neg.normalize = d.normalize.neg := by
  simp only [normalize, neg, stripZeros_neg]

@[simp] theorem units_neg (d : Decimal) : d.neg.units = -d.units := Int.neg_mul _ _

theorem units_natAbs (d : Decimal) : d.units.natAbs = d.mantissa.natAbs * 10 ^ (28 - d.scale) := by
  rw [units, Int.natAbs_mul, Int.natAbs_pow]
  rfl

theorem units_representable (d : Decimal) : Representable 10 (2 ^ 96) 28 d.units.natAbs :=
  ⟨d.mantissa.natAbs, d.scale, d.mantissaBound, d.scaleBound, d.units_natAbs⟩

theorem units_roundDp0 (d : Decimal) (direction : Direction) :
    (d.roundDp0 direction).units = d.units.sign * steps direction d.units.natAbs (10 ^ 28) * 10 ^ 28 := by
  have powers : (10 : Nat) ^ 28 = 10 ^ d.scale * 10 ^ (28 - d.scale) := by
    rw [← Nat.pow_add, Nat.add_sub_cancel' d.scaleBound]
  have sign : d.units.sign = d.mantissa.sign := by
    rw [units, Int.sign_mul, Int.sign_eq_one_of_pos (Int.pow_pos (by decide)), Int.mul_one]
  rw [units_natAbs, powers, steps_scaled _ _ _ (Nat.pow_pos (by decide)), sign]
  rfl

end Decimal

/-! ## The decimal package -/

/-- The digit before a half from which the package rounds up. -/
class DecimalTies where
  tieUp : Nat → Bool

export DecimalTies (tieUp)

section Package

variable [DecimalTies]

def quotientUnits (n d : Nat) : Option Nat := rounded tieUp 10 (2 ^ 96) 28 n d

def productUnits (a b : Nat) : Option Nat := rounded tieUp 10 (2 ^ 96) 28 (a * b) (10 ^ 28 * 10 ^ 28)

/-- Quotients and products are exact results rounded to at most 28 digits of a fraction and 96 bits, or missing. -/
class RoundedProducts [DecimalArithmetic] [DecimalProducts] : Prop where
  div_units : ∀ a b : Decimal, b.units ≠ 0 →
    (checkedDiv a b).map Decimal.units =
      (quotientUnits a.units.natAbs b.units.natAbs).map fun m : Nat => a.units.sign * b.units.sign * m
  mul_units : ∀ a b : Decimal,
    (checkedMul a b).map Decimal.units =
      (productUnits a.units.natAbs b.units.natAbs).map fun m : Nat => a.units.sign * b.units.sign * m

end Package

/-! ## The result -/

section Round

def directionText : Direction → String
  | .nearest => "="
  | .down => "<"
  | .up => ">"

theorem parseDirection_text (direction : Direction) : parseDirection (directionText direction) = .ok direction := by
  cases direction <;> rfl

variable [DecimalArithmetic] [DecimalProducts]

def roundTo (number precision : Decimal) (direction : Direction) : Option Decimal :=
  ((checkedDiv number precision).bind fun quotient => checkedMul (quotient.roundDp0 direction) precision).map Decimal.normalize

/-- `Round` of decimals. -/
def round (number precision : Decimal) (direction : Direction) : Except String Value :=
  builtinRound [.decimal number, .decimal precision, .text (directionText direction)]

theorem round_eq {number precision : Decimal} (direction : Direction) (positive : 0 < precision.units) :
    round number precision direction =
      match roundTo number precision direction with
      | some result => .ok (.decimal result)
      | none => .error "Round: arithmetic overflow" := by
  have argument : roundPrecision (some (.decimal precision)) = .ok precision := by
    simp only [roundPrecision, Value.asDecimal, if_pos positive]
  simp only [round, builtinRound, List.length_cons, List.length_nil, Nat.lt_irrefl, if_false, Value.asDecimal,
    List.getElem?_cons_zero, List.getElem?_cons_succ, argument, roundDirection, bind, Except.bind, roundTo]
  cases checkedDiv number precision with
  | none => rfl
  | some quotient =>
      simp only [parseDirection_text, Option.bind_some]
      cases checkedMul (quotient.roundDp0 direction) precision <;> rfl

theorem round_ok_iff {number precision : Decimal} {direction : Direction} (positive : 0 < precision.units) {r : Decimal} :
    round number precision direction = .ok (.decimal r) ↔ roundTo number precision direction = some r := by
  rw [round_eq direction positive]
  cases roundTo number precision direction with
  | none => simp
  | some result => simp

variable [DecimalTies] [RoundedProducts]

omit [DecimalArithmetic] [DecimalProducts] [RoundedProducts] in
theorem productUnits_steps (u : Int) (direction : Direction) {d : Nat} :
    ((productUnits (u.sign * steps direction u.natAbs (10 ^ 28) * 10 ^ 28).natAbs d).map fun m : Nat =>
      (u.sign * steps direction u.natAbs (10 ^ 28) * 10 ^ 28).sign * 1 * (m : Int)) =
    (rounded tieUp 10 (2 ^ 96) 28 (steps direction u.natAbs (10 ^ 28) * 10 ^ 28 * d) (10 ^ 28 * 10 ^ 28)).map fun m : Nat =>
      u.sign * (m : Int) := by
  have zero : u = 0 → steps direction u.natAbs (10 ^ 28) = 0 := by
    rintro rfl
    exact steps_zero direction (by decide)
  generalize steps direction u.natAbs (10 ^ 28) = k at zero ⊢
  have magnitude : (u.sign * k * 10 ^ 28).natAbs = k * 10 ^ 28 := by
    rw [Int.natAbs_mul, Int.natAbs_mul, Int.natAbs_sign, Int.natAbs_natCast]
    split
    next none => rw [zero none, Nat.zero_mul, Nat.zero_mul]
    next => rw [Nat.one_mul]; rfl
  have sign : (u.sign * k * 10 ^ 28).sign = u.sign * (k : Int).sign := by
    rw [Int.sign_mul, Int.sign_mul, Int.sign_sign, Int.sign_eq_one_of_pos (Int.pow_pos (by decide)), Int.mul_one]
  rw [productUnits, magnitude, sign]
  refine Option.map_congr fun m found => ?_
  rcases Nat.eq_zero_or_pos k with rfl | some
  · rw [Nat.zero_mul, Nat.zero_mul] at found
    rw [rounded_zero (by decide) (by decide) found, Int.natCast_zero, Int.mul_zero, Int.mul_zero]
  · rw [Int.sign_eq_one_of_pos (Int.natCast_pos.mpr some), Int.mul_one, Int.mul_one]

/-- The result has the sign of the number, and its magnitude is the multiple of the magnitudes. -/
theorem roundTo_units {number precision : Decimal} (direction : Direction) (positive : 0 < precision.units) :
    (roundTo number precision direction).map Decimal.units =
      (multiple tieUp 10 (2 ^ 96) 28 direction number.units.natAbs precision.units.natAbs).map fun m : Nat => number.units.sign * m := by
  have one : precision.units.sign = 1 := Int.sign_eq_one_of_pos positive
  have whole : 0 < precision.units.natAbs := Int.natAbs_pos.mpr positive.ne'
  have normal : Decimal.units ∘ Decimal.normalize = Decimal.units := funext Decimal.units_normalize
  have step (quotient : Decimal) : (checkedMul (quotient.roundDp0 direction) precision).map Decimal.units =
      (rounded tieUp 10 (2 ^ 96) 28 (steps direction quotient.units.natAbs (10 ^ 28) * 10 ^ 28 * precision.units.natAbs)
        (10 ^ 28 * 10 ^ 28)).map fun m : Nat => quotient.units.sign * (m : Int) := by
    rw [RoundedProducts.mul_units, Decimal.units_roundDp0, one]
    exact productUnits_steps quotient.units direction
  rw [roundTo, Option.map_map, normal, Option.map_bind]
  have division := RoundedProducts.div_units number precision positive.ne'
  rw [one, Int.mul_one] at division
  unfold multiple
  change Option.map _ _ = Option.map _ (rounded tieUp 10 (2 ^ 96) 28 _ _) at division
  cases ratio : rounded tieUp 10 (2 ^ 96) 28 number.units.natAbs precision.units.natAbs with
  | none =>
      rw [ratio, Option.map_none, Option.map_eq_none_iff] at division
      rw [division]
      rfl
  | some q =>
      rw [ratio, Option.map_some] at division
      obtain ⟨quotient, found, units⟩ := Option.map_eq_some_iff.mp division
      rw [found, Option.bind_some, Option.bind_some, Function.comp_apply, step, units]
      have magnitude : (number.units.sign * (q : Int)).natAbs = q := by
        rw [Int.natAbs_mul, Int.natAbs_sign, Int.natAbs_natCast]
        split
        next none =>
          rw [none] at ratio
          rw [rounded_zero (by decide) whole ratio]
        next => exact Nat.one_mul q
      rw [magnitude]
      refine Option.map_congr fun m product => ?_
      rcases Nat.eq_zero_or_pos q with rfl | some
      · rw [steps_zero direction (by decide), Nat.zero_mul, Nat.zero_mul] at product
        rw [rounded_zero (by decide) (by decide) product, Int.natCast_zero, Int.mul_zero, Int.mul_zero]
      · rw [Int.sign_mul, Int.sign_sign, Int.sign_eq_one_of_pos (Int.natCast_pos.mpr some), Int.mul_one]

omit [DecimalTies] [RoundedProducts] in
theorem normal_of_roundTo {number precision r : Decimal} {direction : Direction}
    (found : roundTo number precision direction = some r) : r.normalize = r := by
  obtain ⟨result, _, rfl⟩ := Option.map_eq_some_iff.mp found
  exact Decimal.normalize_congr result.units_normalize

/-- The result of rounding a number to a precision in a direction. -/
structure RoundedRight (number precision : Decimal) (direction : Direction) (r : Decimal) : Prop where
  multiple : ∃ k : Int, r.units = k * precision.units
  near : (r.units - number.units).natAbs < precision.units.natAbs
  down : direction = .down → r.units.natAbs ≤ number.units.natAbs ∧ (r.units = 0 ∨ r.units.sign = number.units.sign)
  up : direction = .up → number.units.natAbs ≤ r.units.natAbs ∧ (r.units = 0 ∨ r.units.sign = number.units.sign)
  nearest : direction = .nearest → ∀ k : Int, k * precision.units ≠ r.units →
    (r.units - number.units).natAbs < (k * precision.units - number.units).natAbs ∨
      ((r.units - number.units).natAbs = (k * precision.units - number.units).natAbs ∧
        (k * precision.units).natAbs < r.units.natAbs)
  fixed : round r precision direction = .ok (.decimal r)
  odd : round number.neg precision direction = .ok (.decimal r.neg)

section Signed

variable {number precision r : Decimal} {direction : Direction} {σ : Int} {n d m j : Nat} (one : σ = 1 ∨ σ = -1)
  (numberIs : number.units = σ * n) (precisionIs : precision.units = d) (resultIs : r.units = σ * ((j * d : Nat) : Int))
  (positive : 0 < d)

include one numberIs precisionIs resultIs positive

omit [DecimalTies] [RoundedProducts] in
theorem RoundedRight.chosen (right : RoundedRight number precision direction r) : Chosen direction n d (j * d) := by
  have near := right.near
  rw [numberIs, precisionIs, resultIs] at near
  cases direction with
  | nearest =>
      have above : σ * (j + 1) * precision.units = σ * ((j * d : Nat) : Int) + σ * d := by
        rw [precisionIs]
        push_cast
        ring
      have below : σ * (j - 1) * precision.units = σ * ((j * d : Nat) : Int) - σ * d := by
        rw [precisionIs]
        push_cast
        ring
      have next := right.nearest rfl (σ * (j + 1))
      have previous := right.nearest rfl (σ * (j - 1))
      rw [above, numberIs, resultIs] at next
      rw [below, numberIs, resultIs] at previous
      generalize j * d = product at near next previous ⊢
      clear above below
      dsimp only [Chosen]
      rcases one with rfl | rfl <;> omega
  | down =>
      have magnitude := (right.down rfl).1
      rw [numberIs, resultIs] at magnitude
      generalize j * d = product at near magnitude ⊢
      dsimp only [Chosen]
      rcases one with rfl | rfl <;> omega
  | up =>
      have magnitude := (right.up rfl).1
      rw [numberIs, resultIs] at magnitude
      generalize j * d = product at near magnitude ⊢
      dsimp only [Chosen]
      rcases one with rfl | rfl <;> omega

omit [DecimalTies] [RoundedProducts] in
theorem RoundedRight.of_chosen (chosen : Chosen direction n d (j * d))
    (fixed : round r precision direction = .ok (.decimal r)) (odd : round number.neg precision direction = .ok (.decimal r.neg)) :
    RoundedRight number precision direction r := by
  have whole : j * d = 0 ∨ d ≤ j * d := by
    rcases Nat.eq_zero_or_pos j with rfl | some
    · exact .inl (Nat.zero_mul d)
    · exact .inr (Nat.le_mul_of_pos_left d some)
  have sign : r.units = 0 ∨ r.units.sign = number.units.sign := by
    rcases whole with none | least
    · left
      rw [resultIs, none, Int.natCast_zero, Int.mul_zero]
    · right
      have some : 0 < n := by cases direction <;> dsimp only [Chosen] at chosen <;> omega
      have product : 0 < j * d := Nat.lt_of_lt_of_le positive least
      rw [resultIs, numberIs, Int.sign_mul, Int.sign_mul, Int.sign_eq_one_of_pos (Int.natCast_pos.mpr some),
        Int.sign_eq_one_of_pos (Int.natCast_pos.mpr product)]
  refine ⟨⟨σ * j, by rw [resultIs, precisionIs]; push_cast; ring⟩, ?_, ?_, ?_, ?_, fixed, odd⟩
  · rw [resultIs, numberIs, precisionIs]
    generalize j * d = product at chosen ⊢
    cases direction <;> dsimp only [Chosen] at chosen <;> rcases one with rfl | rfl <;> omega
  · rintro rfl
    refine ⟨?_, sign⟩
    rw [resultIs, numberIs]
    generalize j * d = product at chosen ⊢
    dsimp only [Chosen] at chosen
    rcases one with rfl | rfl <;> omega
  · rintro rfl
    refine ⟨?_, sign⟩
    rw [resultIs, numberIs]
    generalize j * d = product at chosen ⊢
    dsimp only [Chosen] at chosen
    rcases one with rfl | rfl <;> omega
  · rintro rfl k other
    have apart : k - σ * j ≠ 0 := by
      intro none
      apply other
      rw [Int.sub_eq_zero.mp none, resultIs, precisionIs]
      push_cast
      ring
    have moved : k * precision.units = σ * ((j * d : Nat) : Int) + (k - σ * j) * d := by
      rw [precisionIs]
      push_cast
      ring
    have far : (d : Int) ≤ (k - σ * j) * d ∨ (k - σ * j) * d ≤ -d := by
      rcases Int.lt_or_gt_of_ne apart with less | more
      · right
        have bound := Int.mul_le_mul_of_nonneg_right (Int.le_sub_one_of_lt less) (Int.natCast_nonneg d)
        omega
      · left
        have bound := Int.mul_le_mul_of_nonneg_right (Int.add_one_le_of_lt more) (Int.natCast_nonneg d)
        omega
    rw [moved, resultIs, numberIs]
    generalize j * d = product at chosen whole ⊢
    generalize (k - σ * j) * d = move at far ⊢
    clear apart moved
    dsimp only [Chosen] at chosen
    rcases one with rfl | rfl <;> omega

end Signed

section Right

variable {number precision : Decimal} {direction : Direction} (positive : 0 < precision.units)

include positive

theorem roundTo_some {m : Nat}
    (found : multiple tieUp 10 (2 ^ 96) 28 direction number.units.natAbs precision.units.natAbs = some m) :
    ∃ r, roundTo number precision direction = some r ∧ r.units = number.units.sign * m := by
  have units := @roundTo_units _ _ _ _ number precision direction positive
  rw [found, Option.map_some] at units
  exact Option.map_eq_some_iff.mp units

theorem multiple_of_roundTo {r : Decimal} (found : roundTo number precision direction = some r) :
    ∃ m, multiple tieUp 10 (2 ^ 96) 28 direction number.units.natAbs precision.units.natAbs = some m ∧
      r.units = number.units.sign * m := by
  have units := @roundTo_units _ _ _ _ number precision direction positive
  rw [found, Option.map_some] at units
  obtain ⟨m, multiple, is⟩ := Option.map_eq_some_iff.mp units.symm
  exact ⟨m, multiple, is.symm⟩

theorem roundTo_unique {other r : Decimal} {m : Nat} (normal : r.normalize = r)
    (found : multiple tieUp 10 (2 ^ 96) 28 direction other.units.natAbs precision.units.natAbs = some m)
    (units : r.units = other.units.sign * m) : roundTo other precision direction = some r := by
  obtain ⟨result, is, resultUnits⟩ := roundTo_some positive found
  rw [is, ← normal_of_roundTo is, ← normal, Decimal.normalize_congr (resultUnits.trans units.symm)]

omit [DecimalArithmetic] [DecimalProducts] [RoundedProducts] in
/-- Some sign goes with the number and with what is rounded to it. -/
theorem sign_of_multiple {m : Nat}
    (found : multiple tieUp 10 (2 ^ 96) 28 direction number.units.natAbs precision.units.natAbs = some m) :
    ∃ σ : Int, (σ = 1 ∨ σ = -1) ∧ number.units = σ * number.units.natAbs ∧ number.units.sign * m = σ * m := by
  rcases Int.lt_trichotomy number.units 0 with less | zero | more
  · refine ⟨-1, .inr rfl, by omega, ?_⟩
    rw [Int.sign_eq_neg_one_of_neg less]
  · refine ⟨1, .inl rfl, by omega, ?_⟩
    rw [zero, Int.natAbs_zero] at found
    rw [multiple_zero (by decide) (Int.natAbs_pos.mpr positive.ne') found, Int.natCast_zero, Int.mul_zero, Int.mul_zero]
  · refine ⟨1, .inl rfl, by omega, ?_⟩
    rw [Int.sign_eq_one_of_pos more]

omit [RoundedProducts] in
theorem steps_of_roundedRight {r : Decimal} {m : Nat} (right : RoundedRight number precision direction r)
    (found : multiple tieUp 10 (2 ^ 96) 28 direction number.units.natAbs precision.units.natAbs = some m)
    (units : r.units = number.units.sign * m) :
    m = steps direction number.units.natAbs precision.units.natAbs * precision.units.natAbs := by
  have magnitude : 0 < precision.units.natAbs := Int.natAbs_pos.mpr positive.ne'
  obtain ⟨σ, one, numberIs, same⟩ := sign_of_multiple positive found
  obtain ⟨k, multiple⟩ := right.multiple
  have product : m = k.natAbs * precision.units.natAbs := by
    rw [← Int.natAbs_mul, ← multiple, units, same, Int.natAbs_mul, Int.natAbs_natCast]
    rcases one with rfl | rfl
    · exact (Nat.one_mul m).symm
    · exact (Nat.one_mul m).symm
  have chosen := right.chosen one numberIs (Int.natAbs_of_nonneg (Int.le_of_lt positive)).symm
    (by rw [← product, units, same]) magnitude
  rw [product, chosen_unique chosen (steps_chosen direction _ magnitude)]

theorem roundedRight_of_steps {r : Decimal} (found : roundTo number precision direction = some r)
    (multiple : multiple tieUp 10 (2 ^ 96) 28 direction number.units.natAbs precision.units.natAbs =
      some (steps direction number.units.natAbs precision.units.natAbs * precision.units.natAbs))
    (units : r.units = number.units.sign *
      ((steps direction number.units.natAbs precision.units.natAbs * precision.units.natAbs : Nat) : Int)) :
    RoundedRight number precision direction r := by
  have magnitude : 0 < precision.units.natAbs := Int.natAbs_pos.mpr positive.ne'
  have normal := normal_of_roundTo found
  obtain ⟨σ, one, numberIs, same⟩ := sign_of_multiple positive multiple
  have resultIs := units.trans same
  apply RoundedRight.of_chosen one numberIs (Int.natAbs_of_nonneg (Int.le_of_lt positive)).symm resultIs magnitude
    (steps_chosen direction _ magnitude)
  · have again := multiple_fixed (by decide) (by decide) magnitude number.units_representable (by decide) multiple
    rw [round_ok_iff positive]
    have resultMagnitude : r.units.natAbs =
        steps direction number.units.natAbs precision.units.natAbs * precision.units.natAbs := by
      rw [resultIs, Int.natAbs_mul, Int.natAbs_natCast]
      rcases one with rfl | rfl
      · exact Nat.one_mul _
      · exact Nat.one_mul _
    apply roundTo_unique positive normal (by rw [resultMagnitude]; exact again)
    rw [← resultMagnitude, Int.sign_mul_natAbs]
  · rw [round_ok_iff positive]
    apply roundTo_unique positive (by rw [Decimal.normalize_neg, normal]) (by rw [Decimal.units_neg, Int.natAbs_neg]; exact multiple)
    rw [Decimal.units_neg, Decimal.units_neg, Int.sign_neg, Int.neg_mul, units]

end Right

/-- `Round` is right exactly where an overflow is reported, or the digits that the quotient loses do not carry it over to
another integer and the multiple is a decimal. -/
theorem round_right_iff (number precision : Decimal) (direction : Direction) (positive : 0 < precision.units) :
    (∀ r, round number precision direction = .ok (.decimal r) → RoundedRight number precision direction r) ↔
      Steady tieUp 10 (2 ^ 96) 28 direction number.units.natAbs precision.units.natAbs := by
  have magnitude : 0 < precision.units.natAbs := Int.natAbs_pos.mpr positive.ne'
  rw [← multiple_iff (by decide) (by decide) magnitude number.units_representable]
  constructor
  · intro right m found
    obtain ⟨r, result, units⟩ := roundTo_some positive found
    exact steps_of_roundedRight positive (right r ((round_ok_iff positive).mpr result)) found units
  · intro exact_ r result
    have found := (round_ok_iff positive).mp result
    obtain ⟨m, multiple, units⟩ := multiple_of_roundTo positive found
    cases exact_ m multiple
    exact roundedRight_of_steps positive found multiple units

end Round

section Examples

/-- A half goes to the even digit. -/
@[reducible] def DecimalTies.halfEven : DecimalTies where
  tieUp digit := digit % 2 = 1

attribute [local instance] DecimalTies.halfEven

/-- Sums that are decimals, and rounded quotients. -/
@[reducible] def DecimalArithmetic.rounded : DecimalArithmetic where
  checkedAdd a b := Decimal.ofUnits (a.units + b.units)
  checkedDiv a b :=
    (quotientUnits a.units.natAbs b.units.natAbs).bind fun m => Decimal.ofUnits (a.units.sign * b.units.sign * m)

@[reducible] def DecimalProducts.rounded : DecimalProducts where
  checkedSub a b := Decimal.ofUnits (a.units - b.units)
  checkedMul a b :=
    (productUnits a.units.natAbs b.units.natAbs).bind fun m => Decimal.ofUnits (a.units.sign * b.units.sign * m)

theorem ofUnits_signed {m : Nat} (found : Representable 10 (2 ^ 96) 28 m) (a b : Int) :
    (Decimal.ofUnits (a.sign * b.sign * m)).map Decimal.units = some (a.sign * b.sign * m) := by
  obtain ⟨digits, scale, small, within, rfl⟩ := found
  have sign : (a.sign * b.sign).natAbs ≤ 1 := by
    rw [Int.natAbs_mul, Int.natAbs_sign, Int.natAbs_sign]
    split <;> split <;> decide
  have bound : (a.sign * b.sign * digits).natAbs < 2 ^ 96 := by
    have product := Nat.mul_le_mul_right digits sign
    rw [Int.natAbs_mul, Int.natAbs_natCast]
    omega
  have units : (⟨a.sign * b.sign * digits, scale, bound, within⟩ : Decimal).units =
      a.sign * b.sign * ((digits * 10 ^ (28 - scale) : Nat) : Int) := by
    rw [Decimal.units, Int.mul_assoc]
    rfl
  rw [← units]
  exact Decimal.ofUnits_units _

theorem roundedProducts_halfEven : @RoundedProducts .halfEven .rounded .rounded :=
  @RoundedProducts.mk .halfEven .rounded .rounded
    (fun a b _ => by
      change ((quotientUnits a.units.natAbs b.units.natAbs).bind fun m => _).map Decimal.units = _
      rw [Option.map_bind]
      cases found : quotientUnits a.units.natAbs b.units.natAbs with
      | none => rfl
      | some m => exact ofUnits_signed (rounded_representable found) a.units b.units)
    (fun a b => by
      change ((productUnits a.units.natAbs b.units.natAbs).bind fun m => _).map Decimal.units = _
      rw [Option.map_bind]
      cases found : productUnits a.units.natAbs b.units.natAbs with
      | none => rfl
      | some m => exact ofUnits_signed (rounded_representable found) a.units b.units)

attribute [local instance] DecimalArithmetic.rounded DecimalProducts.rounded roundedProducts_halfEven

theorem round_right_iff_cent :
    (∀ r, round (.ofInt64 7) ⟨1, 2, by decide, by decide⟩ .up = .ok (.decimal r) →
      RoundedRight (.ofInt64 7) ⟨1, 2, by decide, by decide⟩ .up r) ↔
      Steady tieUp 10 (2 ^ 96) 28 .up (Decimal.ofInt64 7).units.natAbs
        (⟨1, 2, by decide, by decide⟩ : Decimal).units.natAbs :=
  round_right_iff (.ofInt64 7) ⟨1, 2, by decide, by decide⟩ .up (by decide)

/-- The quotient of the second largest decimal by the largest is kept as one. -/
theorem round_down_up :
    ¬ ∀ r, round ⟨2 ^ 96 - 2, 0, by decide, by decide⟩ ⟨2 ^ 96 - 1, 0, by decide, by decide⟩ .down = .ok (.decimal r) →
      RoundedRight ⟨2 ^ 96 - 2, 0, by decide, by decide⟩ ⟨2 ^ 96 - 1, 0, by decide, by decide⟩ .down r := by
  intro right
  have result : round ⟨2 ^ 96 - 2, 0, by decide, by decide⟩ ⟨2 ^ 96 - 1, 0, by decide, by decide⟩ .down =
      .ok (.decimal ⟨2 ^ 96 - 1, 0, by decide, by decide⟩) := by
    rw [round_ok_iff (by decide)]
    decide +kernel
  have low := ((right _ result).down rfl).1
  exact absurd low (by decide)

end Examples

end AlLanguage.Runtime
