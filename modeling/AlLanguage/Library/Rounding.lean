import Mathlib

/-!
# Rounding a ratio

- To the nearest integer, with a rule for ties.
- To as many digits as fit below a limit: the number with digits that is kept lies on the same side of every number that fits
  as the ratio does.
- Down, up or to the nearest integer with ties upward.
-/

namespace AlLanguage.Library.Rounding

/-! ## The nearest integer -/

section Nearest

variable (tieUp : Nat → Bool)

def nearest (n d : Nat) : Nat :=
  if d < 2 * (n % d) ∨ (d = 2 * (n % d) ∧ tieUp (n / d) = true) then n / d + 1 else n / d

variable {tieUp} {n d k : Nat}

theorem nearest_le (positive : 0 < d) (below : n ≤ k * d) : nearest tieUp n d ≤ k := by
  have whole : n / d ≤ k := Nat.div_le_of_le_mul (by rwa [Nat.mul_comm])
  have parts := Nat.div_add_mod n d
  unfold nearest
  split
  next up =>
    rcases Nat.lt_or_eq_of_le whole with less | same
    · exact less
    · rw [same, Nat.mul_comm] at parts
      omega
  next => exact whole

theorem le_nearest (positive : 0 < d) (above : k * d ≤ n) : k ≤ nearest tieUp n d := by
  have whole : k ≤ n / d := (Nat.le_div_iff_mul_le positive).mpr above
  unfold nearest
  split <;> omega

theorem lt_half_nearest (positive : 0 < d) (above : 2 * (k * d) < 2 * n + d) : k ≤ nearest tieUp n d := by
  have parts := Nat.div_add_mod n d
  have rest := Nat.mod_lt n positive
  by_contra less
  have whole : n / d < k := by
    unfold nearest at less
    split at less <;> omega
  have bound : d * (n / d) + d ≤ k * d := by
    have := Nat.mul_le_mul_left d whole
    rw [Nat.mul_succ, Nat.mul_comm d k] at this
    exact this
  have up : d < 2 * (n % d) := by omega
  unfold nearest at less
  rw [if_pos (.inl up)] at less
  have next : d * (n / d + 1 + 1) ≤ d * k := Nat.mul_le_mul_left d (by omega)
  rw [Nat.mul_succ, Nat.mul_succ, Nat.mul_comm d k] at next
  omega

theorem half_of_le_nearest (positive : 0 < d) (reached : k ≤ nearest tieUp n d) : 2 * (k * d) ≤ 2 * n + d := by
  have parts := Nat.div_add_mod n d
  unfold nearest at reached
  split at reached
  next up =>
    have bound := Nat.mul_le_mul_left d reached
    rw [Nat.mul_succ, Nat.mul_comm d k] at bound
    omega
  next =>
    have bound := Nat.mul_le_mul_left d reached
    rw [Nat.mul_comm d k] at bound
    omega

end Nearest

/-! ## The digits that fit -/

section Fitted

variable (tieUp : Nat → Bool) (base limit n d : Nat)

/-- The ratio to the most digits, at most the given number of them, with which it stays below the limit: the digits as one
number, and how many of them are fractional. -/
def fitted : Nat → Option (Nat × Nat)
  | 0 => if nearest tieUp n d < limit then some (nearest tieUp n d, 0) else none
  | scale + 1 =>
      if nearest tieUp (n * base ^ (scale + 1)) d < limit then some (nearest tieUp (n * base ^ (scale + 1)) d, scale + 1)
      else fitted scale

variable {tieUp base limit n d} {most digits scale : Nat}

theorem fitted_some (found : fitted tieUp base limit n d most = some (digits, scale)) :
    scale ≤ most ∧ digits = nearest tieUp (n * base ^ scale) d ∧ digits < limit ∧
      (scale < most → limit ≤ nearest tieUp (n * base ^ (scale + 1)) d) := by
  induction most with
  | zero =>
      unfold fitted at found
      split at found
      next fits =>
        cases found
        exact ⟨Nat.le_refl 0, by rw [Nat.pow_zero, Nat.mul_one], fits, fun less => absurd less (Nat.lt_irrefl 0)⟩
      next => cases found
  | succ most ih =>
      unfold fitted at found
      split at found
      next fits =>
        cases found
        exact ⟨Nat.le_refl _, rfl, fits, fun less => absurd less (Nat.lt_irrefl _)⟩
      next large =>
        obtain ⟨within, is, fits, more⟩ := ih found
        refine ⟨Nat.le_succ_of_le within, is, fits, fun less => ?_⟩
        rcases Nat.lt_or_eq_of_le within with before | same
        · exact more before
        · rw [same]
          exact Nat.not_lt.mp large

theorem fitted_none (missing : fitted tieUp base limit n d most = none) (scale : Nat) (within : scale ≤ most) :
    limit ≤ nearest tieUp (n * base ^ scale) d := by
  induction most with
  | zero =>
      unfold fitted at missing
      split at missing
      next => cases missing
      next large =>
        rw [Nat.le_zero.mp within, Nat.pow_zero, Nat.mul_one]
        exact Nat.not_lt.mp large
  | succ most ih =>
      unfold fitted at missing
      split at missing
      next => cases missing
      next large =>
        rcases Nat.lt_or_eq_of_le within with before | same
        · exact ih missing (Nat.le_of_lt_succ before)
        · rw [same]
          exact Nat.not_lt.mp large

theorem scaled_pow (a : Nat) {low high : Nat} (le : low ≤ high) : a * base ^ high = a * base ^ low * base ^ (high - low) := by
  rw [Nat.mul_assoc, ← Nat.pow_add, Nat.add_sub_cancel' le]

variable (positive : 0 < d) {other otherScale : Nat}

include positive

/-- A ratio not above a number that fits is kept. -/
theorem fitted_isSome (otherFits : other < limit) (otherWithin : otherScale ≤ most)
    (below : n * base ^ otherScale ≤ other * d) : ∃ digits scale, fitted tieUp base limit n d most = some (digits, scale) := by
  cases found : fitted tieUp base limit n d most with
  | none =>
      have large := fitted_none found otherScale otherWithin
      have small : nearest tieUp (n * base ^ otherScale) d ≤ other := nearest_le positive below
      omega
  | some kept => exact ⟨kept.1, kept.2, rfl⟩

variable (basePositive : 0 < base)

include basePositive

/-- A number that fits and is not below the ratio is not below the digits that are kept. -/
theorem fitted_le (found : fitted tieUp base limit n d most = some (digits, scale)) (otherFits : other < limit)
    (otherWithin : otherScale ≤ most) (below : n * base ^ otherScale ≤ other * d) :
    digits * base ^ otherScale ≤ other * base ^ scale := by
  obtain ⟨within, is, fits, more⟩ := fitted_some found
  rcases Nat.lt_or_ge scale otherScale with finer | fewer
  · exfalso
    have large := more (Nat.lt_of_lt_of_le finer otherWithin)
    have small : n * base ^ (scale + 1) ≤ other * d := by
      refine Nat.le_trans ?_ below
      exact Nat.mul_le_mul_left n (Nat.pow_le_pow_right basePositive finer)
    have : nearest tieUp (n * base ^ (scale + 1)) d ≤ other := nearest_le positive small
    omega
  · have bound : digits ≤ other * base ^ (scale - otherScale) := by
      rw [is]
      apply nearest_le positive
      rw [scaled_pow n fewer]
      calc n * base ^ otherScale * base ^ (scale - otherScale)
          ≤ other * d * base ^ (scale - otherScale) := Nat.mul_le_mul_right _ below
        _ = other * base ^ (scale - otherScale) * d := by ring
    calc digits * base ^ otherScale
        ≤ other * base ^ (scale - otherScale) * base ^ otherScale := Nat.mul_le_mul_right _ bound
      _ = other * base ^ scale := by rw [Nat.mul_assoc, ← Nat.pow_add, Nat.sub_add_cancel fewer]

/-- The limit is more than half a digit above a multiple of the base, so that what does not fit is not rounded below it. -/
theorem le_fitted (steep : base + 2 ≤ 2 * (limit % base)) (found : fitted tieUp base limit n d most = some (digits, scale))
    (otherFits : other < limit) (otherWithin : otherScale ≤ most) (above : other * d ≤ n * base ^ otherScale) :
    other * base ^ scale ≤ digits * base ^ otherScale := by
  obtain ⟨within, is, fits, more⟩ := fitted_some found
  rcases Nat.lt_or_ge scale otherScale with finer | fewer
  · have large := half_of_le_nearest positive (more (Nat.lt_of_lt_of_le finer otherWithin))
    have parts := Nat.div_add_mod limit base
    have reached : limit / base + 1 ≤ digits := by
      rw [is]
      apply lt_half_nearest positive
      have scaled : base * (2 * ((limit / base + 1) * d)) < base * (2 * (n * base ^ scale) + d) := by
        have expanded : base * (2 * (n * base ^ scale) + d) = 2 * (n * base ^ (scale + 1)) + base * d := by ring
        have left : base * (2 * ((limit / base + 1) * d)) + (2 * (limit % base)) * d =
            2 * ((base * (limit / base) + limit % base) * d) + 2 * (base * d) := by ring
        have room : (base + 2) * d ≤ 2 * (limit % base) * d := Nat.mul_le_mul_right d steep
        rw [Nat.add_mul] at room
        rw [parts] at left
        omega
      exact Nat.lt_of_mul_lt_mul_left scaled
    calc other * base ^ scale
        ≤ digits * base * base ^ scale := by
          apply Nat.mul_le_mul_right
          have := Nat.mul_le_mul_left base reached
          rw [Nat.mul_succ, Nat.mul_comm base digits] at this
          have rest := Nat.mod_lt limit basePositive
          omega
      _ = digits * base ^ (scale + 1) := by ring
      _ ≤ digits * base ^ otherScale := Nat.mul_le_mul_left digits (Nat.pow_le_pow_right basePositive finer)
  · have bound : other * base ^ (scale - otherScale) ≤ digits := by
      rw [is]
      apply le_nearest positive
      rw [scaled_pow n fewer]
      calc other * base ^ (scale - otherScale) * d
          = other * d * base ^ (scale - otherScale) := by ring
        _ ≤ n * base ^ otherScale * base ^ (scale - otherScale) := Nat.mul_le_mul_right _ above
    calc other * base ^ scale
        = other * base ^ (scale - otherScale) * base ^ otherScale := by
          rw [Nat.mul_assoc, ← Nat.pow_add, Nat.sub_add_cancel fewer]
      _ ≤ digits * base ^ otherScale := Nat.mul_le_mul_right _ bound

end Fitted

/-! ## The kept number in units of the last digit -/

section Rounded

variable (tieUp : Nat → Bool) (base limit most : Nat)

/-- A number of units that is written with digits below the limit. -/
def Representable (units : Nat) : Prop :=
  ∃ digits scale, digits < limit ∧ scale ≤ most ∧ units = digits * base ^ (most - scale)

/-- A ratio of so many units of the last digit, as it is kept. -/
def rounded (n d : Nat) : Option Nat :=
  (fitted tieUp base limit n d most).map fun kept => kept.1 * base ^ (most - kept.2)

variable {tieUp base limit most} {n d units whole kept : Nat}

theorem rounded_some (found : rounded tieUp base limit most n d = some kept) :
    ∃ digits scale, fitted tieUp base limit n d most = some (digits, scale) ∧ scale ≤ most ∧ digits < limit ∧
      kept = digits * base ^ (most - scale) := by
  obtain ⟨pair, fit, is⟩ := Option.map_eq_some_iff.mp found
  obtain ⟨digits, scale⟩ := pair
  obtain ⟨within, _, small, _⟩ := fitted_some fit
  exact ⟨digits, scale, fit, within, small, is.symm⟩

theorem rounded_representable (found : rounded tieUp base limit most n d = some kept) : Representable base limit most kept := by
  obtain ⟨digits, scale, _, within, small, is⟩ := rounded_some found
  exact ⟨digits, scale, small, within, is⟩

theorem representable_whole (small : whole < limit) : Representable base limit most (whole * base ^ most) :=
  ⟨whole, 0, small, Nat.zero_le most, by rw [Nat.sub_zero]⟩

variable (basePositive : 0 < base)

include basePositive

theorem representable_le (fit : Representable base limit most units) : units ≤ (limit - 1) * base ^ most := by
  obtain ⟨digits, scale, small, within, rfl⟩ := fit
  exact Nat.mul_le_mul (Nat.le_sub_one_of_lt small) (Nat.pow_le_pow_right basePositive (Nat.sub_le most scale))

theorem cross_scale {a b s t : Nat} (left : s ≤ most) (right : t ≤ most) :
    a * base ^ (most - s) ≤ b * base ^ (most - t) ↔ a * base ^ t ≤ b * base ^ s := by
  have first : a * base ^ (most - s) * base ^ (s + t) = a * base ^ t * base ^ most := by
    rw [Nat.mul_assoc, ← Nat.pow_add, Nat.mul_assoc, ← Nat.pow_add]
    congr 2
    omega
  have second : b * base ^ (most - t) * base ^ (s + t) = b * base ^ s * base ^ most := by
    rw [Nat.mul_assoc, ← Nat.pow_add, Nat.mul_assoc, ← Nat.pow_add]
    congr 2
    omega
  rw [← Nat.mul_le_mul_right_iff (Nat.pow_pos basePositive : 0 < base ^ (s + t)), first, second]
  exact Nat.mul_le_mul_right_iff (Nat.pow_pos basePositive)

variable (positive : 0 < d)

include positive

/-- What is kept is not above a number that fits and is not below the ratio. -/
theorem rounded_le (found : rounded tieUp base limit most n d = some kept) (fit : Representable base limit most units)
    (below : n * base ^ most ≤ units * d) : kept ≤ units := by
  obtain ⟨digits, scale, fitting, within, small, rfl⟩ := rounded_some found
  obtain ⟨other, otherScale, otherFits, otherWithin, rfl⟩ := fit
  have bound : n * base ^ otherScale ≤ other * d := by
    rw [scaled_pow n otherWithin, Nat.mul_right_comm other] at below
    exact Nat.le_of_mul_le_mul_right below (Nat.pow_pos basePositive)
  have order := fitted_le positive basePositive fitting otherFits otherWithin bound
  exact (cross_scale basePositive within otherWithin).mpr order

theorem le_rounded (steep : base + 2 ≤ 2 * (limit % base)) (found : rounded tieUp base limit most n d = some kept)
    (fit : Representable base limit most units) (above : units * d ≤ n * base ^ most) : units ≤ kept := by
  obtain ⟨digits, scale, fitting, within, small, rfl⟩ := rounded_some found
  obtain ⟨other, otherScale, otherFits, otherWithin, rfl⟩ := fit
  have bound : other * d ≤ n * base ^ otherScale := by
    rw [scaled_pow n otherWithin, Nat.mul_right_comm other] at above
    exact Nat.le_of_mul_le_mul_right above (Nat.pow_pos basePositive)
  have order := le_fitted positive basePositive steep fitting otherFits otherWithin bound
  exact (cross_scale basePositive otherWithin within).mpr order

/-- A ratio that fits is kept as it is. -/
theorem rounded_exact (steep : base + 2 ≤ 2 * (limit % base)) (fit : Representable base limit most units)
    (exact_ : n * base ^ most = units * d) : rounded tieUp base limit most n d = some units := by
  have found : ∃ kept, rounded tieUp base limit most n d = some kept := by
    obtain ⟨other, otherScale, otherFits, otherWithin, rfl⟩ := fit
    have bound : n * base ^ otherScale ≤ other * d := by
      rw [scaled_pow n otherWithin, Nat.mul_right_comm other] at exact_
      exact Nat.le_of_mul_le_mul_right (Nat.le_of_eq exact_) (Nat.pow_pos basePositive)
    obtain ⟨digits, scale, fitting⟩ := fitted_isSome positive otherFits otherWithin bound
    exact ⟨_, by rw [rounded, fitting, Option.map_some]⟩
  obtain ⟨kept, found⟩ := found
  have low := le_rounded basePositive positive steep found fit (Nat.le_of_eq exact_.symm)
  have high := rounded_le basePositive positive found fit (Nat.le_of_eq exact_)
  rw [found, Nat.le_antisymm high low]

/-- No integer lies between a ratio and what is kept of it. -/
theorem rounded_le_whole (found : rounded tieUp base limit most n d = some kept) (below : n ≤ whole * d) :
    kept ≤ whole * base ^ most := by
  rcases Nat.lt_or_ge whole limit with small | large
  · apply rounded_le basePositive positive found (representable_whole small)
    rw [Nat.mul_right_comm]
    exact Nat.mul_le_mul_right _ below
  · apply Nat.le_trans (representable_le basePositive (rounded_representable found))
    exact Nat.mul_le_mul_right _ (by omega)

theorem rounded_zero (found : rounded tieUp base limit most 0 d = some kept) : kept = 0 := by
  have bound := rounded_le_whole basePositive positive found (Nat.zero_le (0 * d))
  rw [Nat.zero_mul] at bound
  exact Nat.le_zero.mp bound

theorem whole_le_rounded (steep : base + 2 ≤ 2 * (limit % base)) (found : rounded tieUp base limit most n d = some kept)
    (above : whole * d ≤ n) : whole * base ^ most ≤ kept := by
  rcases Nat.lt_or_ge whole limit with small | large
  · apply le_rounded basePositive positive steep found (representable_whole small)
    rw [Nat.mul_right_comm]
    exact Nat.mul_le_mul_right _ above
  · obtain ⟨digits, scale, fitting, within, small, _⟩ := rounded_some found
    have is := (fitted_some fitting).2.1
    have reached : limit ≤ nearest tieUp (n * base ^ scale) d := by
      apply le_nearest positive
      calc limit * d ≤ whole * d := Nat.mul_le_mul_right d large
        _ ≤ n := above
        _ ≤ n * base ^ scale := Nat.le_mul_of_pos_right n (Nat.pow_pos basePositive)
    omega

end Rounded

/-! ## Directions -/

inductive Direction where
  | nearest | down | up
  deriving DecidableEq

/-- Ties go upward. -/
def steps (direction : Direction) (n d : Nat) : Nat :=
  match direction with
  | .nearest => (2 * n + d) / (2 * d)
  | .down => n / d
  | .up => if n % d = 0 then n / d else n / d + 1

theorem steps_le {direction : Direction} {n d k : Nat} (positive : 0 < d) (below : n ≤ k * d) : steps direction n d ≤ k := by
  have whole : n / d ≤ k := Nat.div_le_of_le_mul (by rwa [Nat.mul_comm])
  cases direction with
  | nearest =>
      apply Nat.lt_succ_iff.mp
      rw [steps, Nat.div_lt_iff_lt_mul (by omega)]
      have expanded : k.succ * (2 * d) = 2 * (k * d) + 2 * d := by
        rw [Nat.succ_eq_add_one]
        ring
      omega
  | down => exact whole
  | up =>
      dsimp only [steps]
      split
      next => exact whole
      next rest =>
        have parts := Nat.div_add_mod n d
        rcases Nat.lt_or_eq_of_le whole with less | same
        · exact less
        · rw [same, Nat.mul_comm] at parts
          omega

theorem le_steps {direction : Direction} {n d k : Nat} (positive : 0 < d) (above : k * d ≤ n) : k ≤ steps direction n d := by
  have whole : k ≤ n / d := (Nat.le_div_iff_mul_le positive).mpr above
  cases direction with
  | nearest =>
      rw [steps, Nat.le_div_iff_mul_le (by omega)]
      have expanded : k * (2 * d) = 2 * (k * d) := by ring
      omega
  | down => exact whole
  | up =>
      dsimp only [steps]
      split <;> omega

theorem steps_zero (direction : Direction) {d : Nat} (positive : 0 < d) : steps direction 0 d = 0 :=
  Nat.le_zero.mp (steps_le positive (Nat.zero_le _))

theorem steps_scaled (direction : Direction) (n d : Nat) {m : Nat} (positive : 0 < m) :
    steps direction (n * m) (d * m) = steps direction n d := by
  cases direction with
  | nearest =>
      unfold steps
      have numerator : 2 * (n * m) + d * m = (2 * n + d) * m := by ring
      have denominator : 2 * (d * m) = 2 * d * m := by ring
      rw [numerator, denominator, Nat.mul_div_mul_right _ _ positive]
  | down => exact Nat.mul_div_mul_right _ _ positive
  | up =>
      unfold steps
      have zero : n % d * m = 0 ↔ n % d = 0 := by
        rw [Nat.mul_eq_zero]
        omega
      rw [Nat.mul_mod_mul_right, Nat.mul_div_mul_right _ _ positive]
      simp only [zero]

/-- A multiple that the direction allows. -/
def Chosen (direction : Direction) (n d r : Nat) : Prop :=
  match direction with
  | .nearest => 2 * r ≤ 2 * n + d ∧ 2 * n < 2 * r + d
  | .down => r ≤ n ∧ n < r + d
  | .up => n ≤ r ∧ r < n + d

theorem steps_chosen (direction : Direction) (n : Nat) {d : Nat} (positive : 0 < d) :
    Chosen direction n d (steps direction n d * d) := by
  have parts := Nat.div_add_mod n d
  have rest := Nat.mod_lt n positive
  rw [Nat.mul_comm] at parts
  cases direction with
  | nearest =>
      have parts := Nat.div_add_mod (2 * n + d) (2 * d)
      have rest := Nat.mod_lt (2 * n + d) (Nat.mul_pos Nat.two_pos positive)
      have expanded : 2 * d * ((2 * n + d) / (2 * d)) = 2 * ((2 * n + d) / (2 * d) * d) := by ring
      dsimp only [Chosen, steps]
      omega
  | down =>
      dsimp only [Chosen, steps]
      omega
  | up =>
      dsimp only [Chosen, steps]
      split
      · omega
      · rw [Nat.succ_mul]
        omega

/-- The direction allows one multiple. -/
theorem chosen_unique {direction : Direction} {n d i j : Nat} (first : Chosen direction n d (i * d))
    (second : Chosen direction n d (j * d)) : i = j := by
  rcases Nat.lt_trichotomy i j with less | same | more
  · have bound := Nat.mul_le_mul_right d (Nat.succ_le_of_lt less)
    rw [Nat.succ_mul] at bound
    cases direction <;> dsimp only [Chosen] at first second <;> omega
  · exact same
  · have bound := Nat.mul_le_mul_right d (Nat.succ_le_of_lt more)
    rw [Nat.succ_mul] at bound
    cases direction <;> dsimp only [Chosen] at first second <;> omega

/-- A number rounded to finer steps that is a number of coarse steps is also what rounding to the coarse steps gives. -/
theorem steps_coarser {n d k c : Nat} (positive : 0 < d) (steppedPositive : 0 < c)
    (fine : steps .nearest (n * c) d = k * c) : steps .nearest n d = k := by
  have chosen := steps_chosen .nearest (n * c) positive
  rw [fine] at chosen
  have coarse : Chosen .nearest n d (k * d) := by
    obtain ⟨low, high⟩ := chosen
    have lowScaled : 2 * (k * d) * c ≤ (2 * n + d) * c := by
      have spread : d ≤ d * c := Nat.le_mul_of_pos_right d steppedPositive
      have left : 2 * (k * d) * c = 2 * (k * c * d) := by ring
      have right : (2 * n + d) * c = 2 * (n * c) + d * c := by ring
      omega
    have highScaled : 2 * n * c < (2 * (k * d) + d) * c := by
      have spread : d ≤ d * c := Nat.le_mul_of_pos_right d steppedPositive
      have left : 2 * n * c = 2 * (n * c) := by ring
      have right : (2 * (k * d) + d) * c = 2 * (k * c * d) + d * c := by ring
      omega
    exact ⟨Nat.le_of_mul_le_mul_right lowScaled steppedPositive, Nat.lt_of_mul_lt_mul_right highScaled⟩
  exact chosen_unique (steps_chosen .nearest n positive) coarse

/-! ## Multiples -/

section Multiples

variable (tieUp : Nat → Bool) (base limit most : Nat) (direction : Direction) (n d : Nat)

/-- The multiple of `d` next to `n`, both in units of the last digit: the ratio is kept with the digits that fit, rounded to an
integer and multiplied again. -/
def multiple : Option Nat :=
  (rounded tieUp base limit most n d).bind fun quotient =>
    rounded tieUp base limit most (steps direction quotient (base ^ most) * base ^ most * d) (base ^ most * base ^ most)

/-- The digits that the ratio loses do not carry it over to another integer, and the multiple is written with the digits
that fit. -/
def Steady : Prop :=
  ∀ quotient, rounded tieUp base limit most n d = some quotient →
    (rounded tieUp base limit most (steps direction quotient (base ^ most) * base ^ most * d) (base ^ most * base ^ most)).isSome →
      steps direction quotient (base ^ most) = steps direction n d ∧ Representable base limit most (steps direction n d * d)

variable {tieUp base limit most direction n d} {quotient result : Nat}

variable (basePositive : 0 < base) (steep : base + 2 ≤ 2 * (limit % base)) (positive : 0 < d)

include basePositive positive

theorem steps_rounded_le (found : rounded tieUp base limit most n d = some quotient) {k : Nat} (below : n ≤ k * d) :
    steps direction quotient (base ^ most) ≤ k :=
  steps_le (Nat.pow_pos basePositive) (rounded_le_whole basePositive positive found below)

theorem multiple_zero (found : multiple tieUp base limit most direction 0 d = some result) : result = 0 := by
  obtain ⟨quotient, ratio, product⟩ := Option.bind_eq_some_iff.mp found
  rw [rounded_zero basePositive positive ratio, steps_zero direction (Nat.pow_pos basePositive), Nat.zero_mul,
    Nat.zero_mul] at product
  exact rounded_zero basePositive (Nat.mul_pos (Nat.pow_pos basePositive) (Nat.pow_pos basePositive)) product

include steep

theorem le_steps_rounded (found : rounded tieUp base limit most n d = some quotient) {k : Nat} (above : k * d ≤ n) :
    k ≤ steps direction quotient (base ^ most) :=
  le_steps (Nat.pow_pos basePositive) (whole_le_rounded basePositive positive steep found above)

/-- The product is the multiple that the exact ratio gives only where nothing that matters is lost: the digits of the ratio
cannot be wrong and the product make up for it, as the product does not pass `n`. -/
theorem product_eq_iff (numberFits : Representable base limit most n) (found : rounded tieUp base limit most n d = some quotient)
    (product : rounded tieUp base limit most (steps direction quotient (base ^ most) * base ^ most * d)
      (base ^ most * base ^ most) = some result) :
    result = steps direction n d * d ↔
      steps direction quotient (base ^ most) = steps direction n d ∧ Representable base limit most (steps direction n d * d) := by
  have unitPositive : 0 < base ^ most := Nat.pow_pos basePositive
  have scaled (k : Nat) : k * base ^ most * d * base ^ most = k * d * (base ^ most * base ^ most) := by ring
  constructor
  · intro is
    refine ⟨?_, is ▸ rounded_representable product⟩
    apply Nat.le_antisymm
    · by_contra less
      have above : n ≤ steps direction quotient (base ^ most) * d := by
        by_contra over_
        exact less (le_steps positive (Nat.le_of_lt (Nat.not_le.mp over_)))
      have reached : n ≤ result := by
        apply le_rounded basePositive (Nat.mul_pos unitPositive unitPositive) steep product numberFits
        rw [scaled]
        exact Nat.mul_le_mul_right _ above
      exact less (steps_rounded_le basePositive positive found (is ▸ reached))
    · by_contra less
      have below : steps direction quotient (base ^ most) * d ≤ n := by
        by_contra over_
        exact less (steps_le positive (Nat.le_of_lt (Nat.not_le.mp over_)))
      have reached : result ≤ n := by
        apply rounded_le basePositive (Nat.mul_pos unitPositive unitPositive) product numberFits
        rw [scaled]
        exact Nat.mul_le_mul_right _ below
      exact less (le_steps_rounded basePositive steep positive found (is ▸ reached))
  · rintro ⟨same, fit⟩
    rw [same] at product
    have kept : rounded tieUp base limit most (steps direction n d * base ^ most * d) (base ^ most * base ^ most) =
        some (steps direction n d * d) :=
      rounded_exact basePositive (Nat.mul_pos unitPositive unitPositive) steep fit (scaled _)
    exact Option.some.inj (product.symm.trans kept)

theorem multiple_iff (numberFits : Representable base limit most n) :
    (∀ result, multiple tieUp base limit most direction n d = some result → result = steps direction n d * d) ↔
      Steady tieUp base limit most direction n d := by
  constructor
  · intro right quotient found product
    obtain ⟨result, product⟩ := Option.isSome_iff_exists.mp product
    have is := right result (by rw [multiple, found, Option.bind_some, product])
    exact (product_eq_iff basePositive steep positive numberFits found product).mp is
  · intro steady result found
    obtain ⟨quotient, ratio, product⟩ := Option.bind_eq_some_iff.mp found
    exact (product_eq_iff basePositive steep positive numberFits ratio product).mpr
      (steady quotient ratio (by rw [product, Option.isSome_some]))

/-- A multiple that is kept is the multiple next to itself. -/
theorem multiple_fixed (numberFits : Representable base limit most n) (limitPositive : 0 < limit)
    (found : multiple tieUp base limit most direction n d = some (steps direction n d * d)) :
    multiple tieUp base limit most direction (steps direction n d * d) d = some (steps direction n d * d) := by
  have unitPositive : 0 < base ^ most := Nat.pow_pos basePositive
  obtain ⟨quotient, ratio, product⟩ := Option.bind_eq_some_iff.mp found
  obtain ⟨same, fit⟩ := (product_eq_iff basePositive steep positive numberFits ratio product).mp rfl
  have small : steps direction n d < limit := by
    have : steps direction quotient (base ^ most) ≤ limit - 1 :=
      steps_le unitPositive (representable_le basePositive (rounded_representable ratio))
    omega
  have again : rounded tieUp base limit most (steps direction n d * d) d = some (steps direction n d * base ^ most) :=
    rounded_exact basePositive positive steep (representable_whole small) (Nat.mul_right_comm _ _ _)
  have whole : steps direction (steps direction n d * base ^ most) (base ^ most) = steps direction n d :=
    Nat.le_antisymm (steps_le unitPositive (Nat.le_refl _)) (le_steps unitPositive (Nat.le_refl _))
  rw [same] at product
  rw [multiple, again, Option.bind_some, whole, product]

end Multiples

end AlLanguage.Library.Rounding
