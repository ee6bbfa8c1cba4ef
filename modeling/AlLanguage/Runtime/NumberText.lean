import AlLanguage.Runtime.FilterParse
import Mathlib.Data.List.TakeDrop
import Mathlib.Tactic.IntervalCases

/-!
# The texts of numbers

A rendered number is a plain filter text, and the filter parser reads the number back from it.
-/

namespace AlLanguage.Runtime

/-- Digits with a minus sign or none, and a fraction or none. -/
structure NumberText (text : List Char) (sign whole fraction : List Char) : Prop where
  shape : text = sign ++ whole ++ (if fraction = [] then [] else '.' :: fraction)
  sign : sign = [] ∨ sign = ['-']
  nonempty : whole ≠ []
  wholeDigits : ∀ c ∈ whole, c.isDigit = true
  fractionDigits : ∀ c ∈ fraction, c.isDigit = true

theorem isDigit_mem {c : Char} (digit : c.isDigit = true) :
    c ∈ ['0', '1', '2', '3', '4', '5', '6', '7', '8', '9'] := by
  have bounds : 48 ≤ c.toNat ∧ c.toNat ≤ 57 := by simpa [Char.isDigit, UInt32.le_iff_toNat_le] using digit
  rw [← Char.ofNat_toNat c]
  obtain ⟨low, high⟩ := bounds
  interval_cases c.toNat <;> decide

theorem isPlain_digit {c : Char} (digit : c.isDigit = true) : Filter.isPlain c = true := by
  have each : ['0', '1', '2', '3', '4', '5', '6', '7', '8', '9'].all Filter.isPlain = true := by decide
  exact List.all_eq_true.mp each c (isDigit_mem digit)

theorem digit_ne_dot {c : Char} (digit : c.isDigit = true) : c ≠ '.' := by
  rintro rfl
  exact absurd digit (by decide)

namespace NumberText

variable {text sign whole fraction : List Char}

theorem plain (number : NumberText text sign whole fraction) : ∀ c ∈ text, Filter.isPlain c = true := by
  intro c member
  rw [number.shape, List.mem_append, List.mem_append] at member
  rcases member with (inSign | inWhole) | inFraction
  · rcases number.sign with rfl | rfl
    · cases inSign
    · rw [List.mem_singleton.mp inSign]
      decide
  · exact isPlain_digit (number.wholeDigits c inWhole)
  · split at inFraction
    · cases inFraction
    · rcases List.mem_cons.mp inFraction with rfl | digit
      · decide
      · exact isPlain_digit (number.fractionDigits c digit)

theorem ne_nil (number : NumberText text sign whole fraction) : text ≠ [] := by
  rw [number.shape]
  simp [number.nonempty]

/-- A number neither holds two dots in a row nor ends with one. -/
theorem noDots (number : NumberText text sign whole fraction) : Filter.NoDots (text ++ ['.']) := by
  have chain (digits : List Char) (none : ∀ c ∈ digits, c ≠ '.') (rest : List Char) (later : Filter.NoDots rest) :
      Filter.NoDots (digits ++ rest) := by
    induction digits with
    | nil => exact later
    | cons c digits ih =>
        refine List.isChain_cons.mpr ⟨fun _ _ => .inl (none c (List.mem_cons_self ..)), ih fun d member => ?_⟩
        exact none d (List.mem_cons_of_mem _ member)
  have front : ∀ c ∈ sign ++ whole, c ≠ '.' := by
    intro c member
    rcases List.mem_append.mp member with inSign | inWhole
    · rcases number.sign with rfl | rfl
      · cases inSign
      · rw [List.mem_singleton.mp inSign]
        decide
    · exact digit_ne_dot (number.wholeDigits c inWhole)
  have digits : ∀ c ∈ fraction, c ≠ '.' := fun c member => digit_ne_dot (number.fractionDigits c member)
  have last : Filter.NoDots ['.'] := List.isChain_singleton _
  rw [number.shape, List.append_assoc]
  apply chain _ front
  split
  · exact last
  next nonempty =>
    obtain ⟨d, rest, rfl⟩ := List.exists_cons_of_ne_nil nonempty
    refine List.isChain_cons.mpr ⟨?_, chain _ digits _ last⟩
    rintro _ ⟨⟩
    exact .inr (digits d (List.mem_cons_self ..))

theorem filterText (number : NumberText text sign whole fraction) : Filter.FilterText (String.ofList text) where
  nonempty := by simpa using number.ne_nil
  plain := by simpa using number.plain
  noDots := by
    rw [String.toList_ofList]
    exact (List.isChain_append.mp number.noDots).1

theorem length_eq (number : NumberText text sign whole fraction) :
    text.length ≤ 2 + whole.length + fraction.length := by
  rw [number.shape]
  rcases number.sign with rfl | rfl <;> split <;> simp <;> omega

end NumberText

/-! ## Integers -/

theorem numberText_int (i : Int) :
    ∃ sign, NumberText (toString i).toList sign (Nat.toDigits 10 i.natAbs) [] := by
  have digits (n : Nat) : ∀ c ∈ Nat.toDigits 10 n, c.isDigit = true :=
    fun c member => Nat.isDigit_of_mem_toDigits (by decide) (by decide) member
  cases i with
  | ofNat n =>
      have text : (toString (Int.ofNat n)).toList = Nat.toDigits 10 n := Nat.toList_repr
      exact ⟨[], by rw [text]; simp, .inl rfl, Nat.toDigits_ne_nil, digits n, by simp⟩
  | negSucc n =>
      have text : (toString (Int.negSucc n)).toList = '-' :: Nat.toDigits 10 (n + 1) := by
        simp [toString, Int.repr, Nat.toList_repr]
      exact ⟨['-'], by rw [text]; simp, .inr rfl, Nat.toDigits_ne_nil, digits (n + 1), by simp⟩

theorem numberText_i64 (n : Int64) :
    ∃ sign, NumberText (renderI64 n).toList sign (Nat.toDigits 10 n.toInt.natAbs) [] :=
  numberText_int n.toInt

theorem parseI64_dot {s : String} (dot : '.' ∈ s.toList) : parseI64 s = none := by
  have none {digits : List Char} (member : '.' ∈ digits) : digitsValue digits = none := by
    rw [digitsValue, if_neg]
    rintro ⟨-, all⟩
    exact absurd (List.all_eq_true.mp all '.' member) (by decide)
  unfold parseI64
  split
  next digits shape =>
    rw [shape] at dot
    rw [none (by simpa using dot), Option.bind_none]
  next digits shape =>
    rw [shape] at dot
    rw [none (by simpa using dot), Option.bind_none]
  next => rw [none dot, Option.bind_none]

/-! ## Decimals -/

namespace Decimal

/-- The digits of the mantissa with zeros in front, at least one before the point. -/
def padded (d : Decimal) : List Char :=
  let digits := Nat.toDigits 10 d.mantissa.natAbs
  List.replicate (d.scale + 1 - digits.length) '0' ++ digits

theorem padded_digits (d : Decimal) : ∀ c ∈ d.padded, c.isDigit = true := by
  intro c member
  rcases List.mem_append.mp member with zero | digit
  · rw [List.eq_of_mem_replicate zero]
    decide
  · exact Nat.isDigit_of_mem_toDigits (by decide) (by decide) digit

theorem padded_length (d : Decimal) : d.scale + 1 ≤ d.padded.length ∧ d.padded.length ≤ 30 := by
  have bound := d.scaleBound
  have digits : (Nat.toDigits 10 d.mantissa.natAbs).length ≤ 29 := by
    rw [Nat.length_toDigits_le_iff (by decide) (by decide)]
    exact d.mantissaBound.trans (by decide)
  simp only [padded, List.length_append, List.length_replicate]
  omega

theorem ofDigitChars_padded (d : Decimal) : Nat.ofDigitChars 10 d.padded 0 = d.mantissa.natAbs := by
  rw [padded, Nat.ofDigitChars_append, Nat.ofDigitChars_replicate_zero, Nat.mul_zero, Nat.ofDigitChars_ten_toDigits]

theorem render_eq (d : Decimal) :
    d.render = String.ofList ((if d.mantissa < 0 then ['-'] else []) ++ d.padded.take (d.padded.length - d.scale) ++
      (if d.scale = 0 then [] else '.' :: d.padded.drop (d.padded.length - d.scale))) := rfl

theorem numberText_render (d : Decimal) :
    NumberText d.render.toList (if d.mantissa < 0 then ['-'] else []) (d.padded.take (d.padded.length - d.scale))
      (d.padded.drop (d.padded.length - d.scale)) where
  shape := by
    obtain ⟨long, _⟩ := d.padded_length
    have empty : d.scale = 0 ↔ d.padded.drop (d.padded.length - d.scale) = [] := by
      rw [List.drop_eq_nil_iff]
      omega
    simp only [render_eq, String.toList_ofList, empty]
  sign := by split <;> simp
  nonempty := by
    obtain ⟨long, _⟩ := d.padded_length
    rw [ne_eq, List.take_eq_nil_iff, not_or]
    constructor
    · omega
    · rw [← List.length_eq_zero_iff]
      omega
  wholeDigits c member := d.padded_digits c (List.mem_of_mem_take member)
  fractionDigits c member := d.padded_digits c (List.mem_of_mem_drop member)

theorem render_whole {d : Decimal} (whole : d.scale = 0) : d.render = toString d.mantissa := by
  have digits : d.padded = Nat.toDigits 10 d.mantissa.natAbs := by
    have positive := @Nat.length_toDigits_pos 10 d.mantissa.natAbs
    rw [padded, whole, show 0 + 1 - (Nat.toDigits 10 d.mantissa.natAbs).length = 0 by omega]
    simp
  rw [render_eq, if_pos whole, whole, Nat.sub_zero, List.take_length, digits, List.append_nil]
  apply String.toList_injective
  rw [String.toList_ofList]
  cases sign : d.mantissa with
  | ofNat n => exact (show (toString (Int.ofNat n)).toList = Nat.toDigits 10 n from Nat.toList_repr).symm
  | negSucc n => simp [toString, Int.repr, Nat.toList_repr]

theorem dot_mem_render {d : Decimal} (fraction : d.scale ≠ 0) : '.' ∈ d.render.toList := by
  simp [render_eq, fraction]

end Decimal

theorem i64OfInt_some {i : Int} {n : Int64} (read : i64OfInt i = some n) : n.toInt = i := by
  unfold i64OfInt at read
  split at read
  next range =>
    cases read
    exact Int64.toInt_ofInt_of_le (by simpa using range.1) (by simpa using Int.lt_add_one_iff.mpr range.2)
  · cases read

/-! ## Plain notation is lawful -/

theorem parseUnsigned_number (negative : Bool) {whole fraction : List Char} (wholeDigits : ∀ c ∈ whole, c.isDigit = true) :
    parseUnsigned negative (whole ++ (if fraction = [] then [] else '.' :: fraction)) =
      decimalOfDigits negative whole fraction := by
  have noDot : ∀ c ∈ whole, (decide (c ≠ '.')) = true := fun c member => by simp [digit_ne_dot (wholeDigits c member)]
  rw [parseUnsigned, List.span_eq_takeWhile_dropWhile, List.takeWhile_append_of_pos noDot,
    List.dropWhile_append_of_pos noDot]
  cases fraction with
  | nil => simp
  | cons c rest => simp

theorem parseDecimal_plain {s : String} {sign whole fraction : List Char}
    (number : NumberText s.toList sign whole fraction) :
    @parseDecimal .plain s = decimalOfDigits (sign ≠ []) whole fraction := by
  obtain ⟨c, rest, first⟩ := List.exists_cons_of_ne_nil number.nonempty
  have digit := number.wholeDigits c (first ▸ List.mem_cons_self ..)
  have read (negative : Bool) := @parseUnsigned_number negative _ fraction number.wholeDigits
  have shape := number.shape
  simp only [parseDecimal]
  rcases number.sign with rfl | rfl
  · split
    next text starts =>
      rw [starts, first] at shape
      cases shape
      exact absurd digit (by decide)
    next text starts =>
      rw [starts, first] at shape
      cases shape
      exact absurd digit (by decide)
    next => simpa [shape] using read false
  · simpa [shape] using read true

theorem decimalOfDigits_padded (d : Decimal) :
    decimalOfDigits (d.mantissa < 0) (d.padded.take (d.padded.length - d.scale))
      (d.padded.drop (d.padded.length - d.scale)) = some d := by
  obtain ⟨long, _⟩ := d.padded_length
  have value := d.ofDigitChars_padded
  have length : (d.padded.drop (d.padded.length - d.scale)).length = d.scale := by
    rw [List.length_drop]
    omega
  have digits := d.padded_digits
  have bounds : Nat.ofDigitChars 10 d.padded 0 < 2 ^ 96 ∧ (d.padded.drop (d.padded.length - d.scale)).length ≤ 28 := by
    rw [value, length]
    exact ⟨d.mantissaBound, d.scaleBound⟩
  have nonempty : d.padded.take (d.padded.length - d.scale) ≠ [] := d.numberText_render.nonempty
  simp only [decimalOfDigits, List.take_append_drop]
  rw [if_pos ⟨nonempty, List.all_eq_true.mpr digits⟩, dif_pos bounds]
  have signed : (if decide (d.mantissa < 0) = true then -(d.mantissa.natAbs : Int) else d.mantissa.natAbs) = d.mantissa := by
    split
    next negative =>
      have below := of_decide_eq_true negative
      omega
    next positive =>
      have above : ¬d.mantissa < 0 := fun below => positive (decide_eq_true below)
      omega
  simp only [value, length, signed]

theorem lawfulDecimalSyntax_plain : @LawfulDecimalSyntax .plain :=
  @LawfulDecimalSyntax.mk .plain fun d => by
    refine ⟨d.normalize, ?_, d.units_normalize⟩
    rw [parseDecimal_plain d.normalize.numberText_render, ← decimalOfDigits_padded]
    congr 1
    by_cases negative : d.normalize.mantissa < 0 <;> simp [negative]

/-- What the filter parser reads from a rendered decimal has the value of the decimal. -/
theorem parseOrderableStr_render [DecimalSyntax] [LawfulDecimalSyntax] (d : Decimal) :
    (∃ n, parseOrderableStr d.normalize.render = some (.integer n) ∧ (Decimal.ofInt64 n).units = d.units) ∨
      ∃ d', parseOrderableStr d.normalize.render = some (.decimal d') ∧ d'.units = d.units := by
  unfold parseOrderableStr
  cases integer : parseI64 d.normalize.render with
  | none =>
      obtain ⟨d', parsed, units⟩ := LawfulDecimalSyntax.parse_render d
      right
      exact ⟨d', by simp only [parsed], units⟩
  | some n =>
      have whole : d.normalize.scale = 0 := by
        by_contra fraction
        rw [parseI64_dot (Decimal.dot_mem_render fraction)] at integer
        cases integer
      rw [Decimal.render_whole whole, parseI64_toString] at integer
      left
      refine ⟨n, rfl, ?_⟩
      rw [← d.units_normalize, Decimal.units, Decimal.units, ← i64OfInt_some integer, whole]
      rfl

theorem parseOrderableStr_renderI64 [DecimalSyntax] (n : Int64) :
    parseOrderableStr (renderI64 n) = some (.integer n) := by
  rw [parseOrderableStr, parseI64_renderI64]

end AlLanguage.Runtime
