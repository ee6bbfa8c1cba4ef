import AlLanguage.Runtime.FormatEvaluate

/-!
# Numbers in pictures

- A picture of a sign, the whole digits and the decimals, with a precision or none.
- Each part rounds the number for itself, so that the parts belong to one rounded number only under a condition.
-/

namespace AlLanguage.Runtime

open Library.Rounding

/-! ## The pictures -/

/-- `<Sign><Integer>` or `<Sign><Integer Thousand>` with `<Decimals>` or `<Decimals,n>` behind it, and `<Precision,min:max>` before,
between or behind them. -/
structure NumericPicture where
  thousand : Bool
  width : Option Nat
  precision : Option (Nat × Nat)
  place : Nat

namespace NumericPicture

/-- The names of the components with their arguments. -/
def components (p : NumericPicture) : List (String × Option (List Char)) :=
  let numbers := [("Sign", none), (if p.thousand then "Integer Thousand" else "Integer", none),
    ("Decimals", p.width.map fun n => (toString n).toList)]
  match p.precision with
  | some (min, max) =>
      numbers.take p.place ++ ("Precision", some ((toString min).toList ++ ':' :: (toString max).toList)) :: numbers.drop p.place
  | none => numbers

def spellInside (component : String × Option (List Char)) : List Char :=
  component.1.toList ++ match component.2 with
    | some argument => ',' :: argument
    | none => []

def spell (component : String × Option (List Char)) : List Char := '<' :: (spellInside component ++ ['>'])

def text (p : NumericPicture) : String := String.ofList (p.components.flatMap spell)

end NumericPicture

/-! ## What a text says -/

/-- The digits of a number with its sign, and how many of them are behind the point. -/
def spelledFraction (text : List Char) : Option (Int × Nat) :=
  let (sign, digits) := splitMinus text
  let (whole, fraction) := (splitOnce '.' digits).getD (digits, [])
  if whole = [] then none
  else (digitsValue (whole ++ fraction)).map fun n : Nat => (if sign = "-" then -(n : Int) else n, fraction.length)

/-- The number in units of so many digits of a fraction, a half away from zero. -/
def roundedUnits (v : Decimal) (digits : Nat) : Nat := steps .nearest (v.mantissa.natAbs * 10 ^ digits) (10 ^ v.scale)

/-- The text without separators is the number rounded to the digits that the text has. -/
def PrintsRounded (v : Decimal) (text : String) : Prop :=
  ∃ digits, spelledFraction (dropCommas text).toList = some (v.mantissa.sign * roundedUnits v digits, digits)

/-- The rounding for the decimals does not carry into the whole digits, which are not rounded; or the precision is valid and no
digit is asked for that was rounded away. -/
def Agrees (v : Decimal) (p : NumericPicture) : Prop :=
  match p.precision, p.width.filter (· < 2 ^ 64) with
  | some (min, max), _ =>
      min < 2 ^ 32 ∧ max < 2 ^ 32 ∧ (min ≤ max ∨ roundedUnits v min = roundedUnits v max * 10 ^ (min - max))
  | none, some n => roundedUnits v ((n - 1) % 2 ^ 32) / 10 ^ ((n - 1) % 2 ^ 32) = v.mantissa.natAbs / 10 ^ v.scale
  | none, none => True

/-! ## The parts of a picture -/

theorem splitOnce_append {c : Char} {before : List Char} (none : c ∉ before) (after : List Char) :
    splitOnce c (before ++ c :: after) = some (before, after) := by
  have other : ∀ d ∈ before, (decide (d ≠ c)) = true := fun d member => by
    simpa using fun same : d = c => none (same ▸ member)
  rw [splitOnce, List.span_eq_takeWhile_dropWhile, List.takeWhile_append_of_pos other, List.dropWhile_append_of_pos other]
  simp

theorem splitOnce_none {c : Char} {text : List Char} (none : c ∉ text) : splitOnce c text = Option.none := by
  have other : ∀ d ∈ text, (decide (d ≠ c)) = true := fun d member => by
    simpa using fun same : d = c => none (same ▸ member)
  rw [splitOnce, List.span_eq_takeWhile_dropWhile, List.dropWhile_eq_nil_iff.mpr other]

def partOf (component : String × Option (List Char)) : PicturePart :=
  .component (toAsciiLowercase (trim component.1)) component.2

/-- A component that is read back as it is spelled. -/
def Spellable (component : String × Option (List Char)) : Prop :=
  ',' ∉ component.1.toList ∧ '>' ∉ component.1.toList ∧ ∀ argument, component.2 = some argument → '>' ∉ argument

theorem partsWithin_spell (picture : List Char) (fuel : Nat) {component : String × Option (List Char)} (spellable : Spellable component)
    (rest : List Char) :
    partsWithin picture (fuel + 1) (NumericPicture.spell component ++ rest) =
      (partsWithin picture fuel rest).map fun later => partOf component :: later := by
  obtain ⟨name, argument⟩ := component
  obtain ⟨noComma, noClose, noCloseArgument⟩ := spellable
  have noCloseInside : '>' ∉ NumericPicture.spellInside (name, argument) := by
    cases argument with
    | none => simpa [NumericPicture.spellInside] using noClose
    | some argument => simpa [NumericPicture.spellInside] using ⟨noClose, noCloseArgument argument rfl⟩
  have split : splitOnce ',' (NumericPicture.spellInside (name, argument)) = argument.map fun argument => (name.toList, argument) := by
    cases argument with
    | none => exact splitOnce_none (by simpa [NumericPicture.spellInside] using noComma)
    | some argument => exact splitOnce_append noComma argument
  have alone (bare : argument = none) : NumericPicture.spellInside (name, argument) = name.toList := by
    rw [bare, NumericPicture.spellInside, List.append_nil]
  generalize inside : NumericPicture.spellInside (name, argument) = text at noCloseInside split alone
  have other : ∀ d ∈ text, (decide (d ≠ '>')) = true := fun d member => by
    simpa using fun same : d = '>' => noCloseInside (same ▸ member)
  have spelled : NumericPicture.spell (name, argument) ++ rest = '<' :: (text ++ '>' :: rest) := by
    rw [NumericPicture.spell, inside]
    simp
  have shown : (text ++ List.takeWhile (fun x => decide (x ≠ '>')) ('>' :: rest)) = text := by simp
  have behind : (List.dropWhile (fun x => decide (x ≠ '>')) ('>' :: rest)).drop 1 = rest := by simp
  rw [spelled, partsWithin, if_neg (by simp), List.takeWhile_append_of_pos other, List.dropWhile_append_of_pos other, shown, behind]
  dsimp only
  rw [split]
  cases argument with
  | none =>
      rw [Option.map_none, alone rfl]
      cases partsWithin picture fuel rest with
      | error e => rfl
      | ok later =>
          simp only [partOf, String.ofList_toList]
          rfl
  | some argument =>
      rw [Option.map_some]
      cases partsWithin picture fuel rest with
      | error e => rfl
      | ok later =>
          simp only [partOf, String.ofList_toList]
          rfl

theorem partsWithin_spelled (picture : List Char) {components : List (String × Option (List Char))}
    (spellable : ∀ component ∈ components, Spellable component) {fuel : Nat} (enough : components.length ≤ fuel) :
    partsWithin picture fuel (components.flatMap NumericPicture.spell) = .ok (components.map partOf) := by
  induction components generalizing fuel with
  | nil =>
      cases fuel <;> rfl
  | cons component components ih =>
      cases fuel with
      | zero => cases enough
      | succ fuel =>
          rw [List.flatMap_cons, partsWithin_spell picture fuel (spellable component (List.mem_cons_self ..)),
            ih (fun other member => spellable other (List.mem_cons_of_mem _ member)) (Nat.le_of_succ_le_succ enough)]
          rfl

theorem toList_toString_nat (n : Nat) : (toString n).toList = Nat.toDigits 10 n := Nat.toList_repr

theorem digit_ne {c d : Char} (digit : c.isDigit = true) (other : d.isDigit = false) : c ≠ d := by
  rintro rfl
  rw [digit] at other
  cases other

theorem notMem_digits {n : Nat} {c : Char} (other : c.isDigit = false) : c ∉ (toString n).toList := by
  rw [toList_toString_nat]
  intro member
  rw [Nat.isDigit_of_mem_toDigits (by decide) (by decide) member] at other
  cases other

namespace NumericPicture

variable (p : NumericPicture)

/-- The components without the precision. -/
def numbers : List (String × Option (List Char)) :=
  [("Sign", none), (if p.thousand then "Integer Thousand" else "Integer", none), ("Decimals", p.width.map fun n => (toString n).toList)]

def precisionComponent (min max : Nat) : String × Option (List Char) :=
  ("Precision", some ((toString min).toList ++ ':' :: (toString max).toList))

theorem components_eq : p.components = match p.precision with
    | some (min, max) => p.numbers.take p.place ++ precisionComponent min max :: p.numbers.drop p.place
    | none => p.numbers := rfl

theorem spellable : ∀ component ∈ p.components, Spellable component := by
  have numbers : ∀ component ∈ p.numbers, Spellable component := by
    intro component member
    simp only [NumericPicture.numbers, List.mem_cons, List.not_mem_nil, or_false] at member
    rcases member with rfl | rfl | rfl
    · exact ⟨by decide, by decide, by simp⟩
    · split <;> exact ⟨by decide, by decide, by simp⟩
    · refine ⟨(by decide : ',' ∉ "Decimals".toList), (by decide : '>' ∉ "Decimals".toList), fun argument is => ?_⟩
      obtain ⟨n, _, rfl⟩ := Option.map_eq_some_iff.mp is
      exact notMem_digits (by decide)
  rw [components_eq]
  split
  next min max _ =>
    intro component member
    rcases List.mem_append.mp member with front | behind
    · exact numbers component (List.mem_of_mem_take front)
    · rcases List.mem_cons.mp behind with rfl | later
      · refine ⟨(by decide : ',' ∉ "Precision".toList), (by decide : '>' ∉ "Precision".toList), fun argument is => ?_⟩
        cases is
        rw [List.mem_append, List.mem_cons, not_or, not_or]
        exact ⟨notMem_digits (by decide), by decide, notMem_digits (by decide)⟩
      · exact numbers component (List.mem_of_mem_drop later)
  next => exact numbers

theorem length_spell (component : String × Option (List Char)) : 1 ≤ (spell component).length := by
  simp [spell]

theorem parts_text : parts p.text.toList = .ok (p.components.map partOf) := by
  have long : p.components.length ≤ (p.components.flatMap spell).length := by
    generalize p.components = components
    induction components with
    | nil => simp
    | cons component components ih =>
        have one := length_spell component
        simp only [List.flatMap_cons, List.length_append, List.length_cons]
        omega
  rw [parts, text, String.toList_ofList]
  exact partsWithin_spelled _ p.spellable long

end NumericPicture

/-! ## The settings and the components -/

theorem parseSignedUsize_toString (n : Nat) :
    parseSignedUsize (trim (String.ofList (toString n).toList)) = (some n).filter (· < 2 ^ 64) := by
  have digits : ∀ c ∈ (toString n).toList, c.isDigit = true := by
    rw [toList_toString_nat]
    exact fun c member => Nat.isDigit_of_mem_toDigits (by decide) (by decide) member
  have solid : ∀ c ∈ (String.ofList (toString n).toList).toList, isWhitespace c = false := by
    intro c member
    rw [String.toList_ofList] at member
    exact (numeral_solid (by simp [isNumeral, digits c member])).1
  have value : digitsValue (toString n).toList = some n := by rw [toList_toString_nat, digitsValue_toDigits]
  rw [Filter.trim_solid solid, parseSignedUsize, String.toList_ofList]
  split
  next rest starts => exact absurd (digits '+' (starts ▸ List.mem_cons_self ..)) (by decide)
  next => rw [value]

theorem parseU32_toString (n : Nat) : parseU32 (trim (String.ofList (toString n).toList)) = (some n).filter (· < 2 ^ 32) := by
  rw [parseU32, parseSignedUsize_toString, Option.filter_filter]
  congr 1
  funext m
  rw [← Bool.decide_and]
  exact decide_eq_decide.mpr ⟨And.right, fun small => ⟨Nat.lt_trans small (by decide), small⟩⟩

theorem parsePrecision_spelled (min max : Nat) :
    parsePrecision (some ((toString min).toList ++ ':' :: (toString max).toList)) =
      if min < 2 ^ 32 ∧ max < 2 ^ 32 then .ok (min, max)
      else .error ("invalid precision '" ++ String.ofList ((toString min).toList ++ ':' :: (toString max).toList) ++ "'") := by
  have noColon : ':' ∉ (toString min).toList := notMem_digits (by decide)
  unfold parsePrecision
  simp only [Option.getD_some, splitOnce_append noColon, parseU32_toString, Option.filter_some]
  generalize 2 ^ 32 = bound
  by_cases small : min < bound <;> by_cases large : max < bound <;> simp [small, large]

/-- Neither a filler nor a precision. -/
def Plain (part : PicturePart) : Prop :=
  match part with
  | .component name _ => name ≠ "filler character" ∧ name ≠ "precision"
  | .literal _ => True

theorem readSettings_plain (settings : PictureSettings) {front : List PicturePart} (plain : ∀ part ∈ front, Plain part)
    (rest : List PicturePart) : readSettings settings (front ++ rest) = readSettings settings rest := by
  induction front with
  | nil => rfl
  | cons part front ih =>
      have later := ih fun other member => plain other (List.mem_cons_of_mem _ member)
      cases part with
      | literal text => exact later
      | component name argument =>
          obtain ⟨noFiller, noPrecision⟩ := plain _ (List.mem_cons_self ..)
          rw [List.cons_append, readSettings, later]
          · exact fun _ filler => noFiller (PicturePart.component.inj filler).1
          · exact fun _ precision => noPrecision (PicturePart.component.inj precision).1

section Components

variable (standardFormat : Value → String → Except String (List Char)) (value : Value) (settings : PictureSettings)

theorem renderParts_append (front rest : List PicturePart) :
    renderParts standardFormat value settings (front ++ rest) = (do
      let shown ← renderParts standardFormat value settings front
      let later ← renderParts standardFormat value settings rest
      return shown ++ later) := by
  induction front with
  | nil =>
      rw [List.nil_append, renderParts]
      cases renderParts standardFormat value settings rest <;> rfl
  | cons part front ih =>
      rw [List.cons_append]
      cases part with
      | literal text =>
          rw [renderParts, renderParts, ih]
          cases renderParts standardFormat value settings front with
          | error e => rfl
          | ok shown =>
              cases renderParts standardFormat value settings rest with
              | error e => rfl
              | ok later => exact congrArg Except.ok (List.append_assoc ..).symm
      | component name argument =>
          rw [renderParts, renderParts, ih]
          cases renderComponent standardFormat value settings name argument with
          | error e => rfl
          | ok text =>
              cases renderParts standardFormat value settings front with
              | error e => rfl
              | ok shown =>
                  cases renderParts standardFormat value settings rest with
                  | error e => rfl
                  | ok later => exact congrArg Except.ok (List.append_assoc ..).symm

theorem renderComponent_precision (argument : Option (List Char)) :
    renderComponent standardFormat value settings "precision" argument = .ok [] := rfl

theorem renderComponent_sign (argument : Option (List Char)) {number : NumberParts} (found : numberOf value settings.precision = some number) :
    renderComponent standardFormat value settings "sign" argument = .ok (if number.negative then ['-'] else []) := by
  unfold renderComponent
  simp only [found]
  rfl

theorem renderComponent_integer {number : NumberParts} (found : numberOf value settings.precision = some number) :
    renderComponent standardFormat value settings "integer" none = .ok number.integer := by
  unfold renderComponent
  simp only [found]
  rfl

theorem renderComponent_thousand {number : NumberParts} (found : numberOf value settings.precision = some number) :
    renderComponent standardFormat value settings "integer thousand" none = .ok (groupThousands number.integer) := by
  unfold renderComponent
  simp only [found]
  rfl

/-- The precision that the decimals see. -/
def decimalsPrecision (precision : Option (Nat × Nat)) (width : Option Nat) : Option (Nat × Nat) :=
  match precision, width with
  | none, some width => some ((width - 1) % 2 ^ 32, (width - 1) % 2 ^ 32)
  | precision, _ => precision

theorem renderComponent_decimals (width : Option Nat) {number : NumberParts}
    (found : numberOf value (decimalsPrecision settings.precision (width.filter (· < 2 ^ 64))) = some number) :
    renderComponent standardFormat value settings "decimals" (width.map fun n => (toString n).toList) =
      .ok (if number.fraction = [] then [] else '.' :: number.fraction) := by
  have read : ((width.map fun n => (toString n).toList).bind fun a => parseSignedUsize (trim (String.ofList a))) =
      width.filter (· < 2 ^ 64) := by
    cases width with
    | none => rfl
    | some n => rw [Option.map_some, Option.bind_some, parseSignedUsize_toString]
  unfold renderComponent
  simp only [read]
  generalize settings.precision = precision at found ⊢
  generalize width.filter (· < 2 ^ 64) = seen at found ⊢
  have printed : (Except.ok number : Except String NumberParts) >>= (fun number =>
      return if number.fraction.isEmpty then [] else '.' :: number.fraction) =
        .ok (if number.fraction = [] then [] else '.' :: number.fraction) := by
    simp only [List.isEmpty_iff]
    rfl
  cases precision with
  | none =>
      cases seen with
      | none =>
          simp only [show numberOf value none = some number from found]
          exact printed
      | some width =>
          simp only [show numberOf value (some ((width - 1) % 2 ^ 32, (width - 1) % 2 ^ 32)) = some number from found]
          exact printed
  | some precision =>
      simp only [show numberOf value (some precision) = some number from found]
      exact printed

theorem partOf_precision (min max : Nat) : partOf (NumericPicture.precisionComponent min max) =
    .component "precision" (some ((toString min).toList ++ ':' :: (toString max).toList)) := by
  have name : toAsciiLowercase (trim "Precision") = "precision" := by decide
  rw [partOf, NumericPicture.precisionComponent, name]

theorem renderParts_components (p : NumericPicture) :
    renderParts standardFormat value settings (p.components.map partOf) =
      renderParts standardFormat value settings (p.numbers.map partOf) := by
  have silent (min max : Nat) (rest : List PicturePart) :
      renderParts standardFormat value settings (partOf (NumericPicture.precisionComponent min max) :: rest) =
        renderParts standardFormat value settings rest := by
    rw [partOf_precision, renderParts, renderComponent_precision]
    cases renderParts standardFormat value settings rest <;> rfl
  rw [NumericPicture.components_eq]
  cases p.precision with
  | none => rfl
  | some bounds =>
      obtain ⟨min, max⟩ := bounds
      dsimp only
      rw [List.map_append, List.map_cons, renderParts_append, silent, ← renderParts_append, ← List.map_append, List.take_append_drop]

/-- The whole digits as the picture shows them. -/
def shownWhole (p : NumericPicture) (whole : List Char) : List Char := if p.thousand then groupThousands whole else whole

theorem renderParts_numbers (p : NumericPicture) {number decimals : NumberParts} (found : numberOf value settings.precision = some number)
    (foundDecimals : numberOf value (decimalsPrecision settings.precision (p.width.filter (· < 2 ^ 64))) = some decimals) :
    renderParts standardFormat value settings (p.numbers.map partOf) =
      .ok ((if number.negative then ['-'] else []) ++ shownWhole p number.integer ++
        (if decimals.fraction = [] then [] else '.' :: decimals.fraction)) := by
  have sign : toAsciiLowercase (trim "Sign") = "sign" := by decide
  have integer : toAsciiLowercase (trim "Integer") = "integer" := by decide
  have thousand : toAsciiLowercase (trim "Integer Thousand") = "integer thousand" := by decide
  have decimalsName : toAsciiLowercase (trim "Decimals") = "decimals" := by decide
  have whole : renderComponent standardFormat value settings
      (toAsciiLowercase (trim (if p.thousand then "Integer Thousand" else "Integer"))) none = .ok (shownWhole p number.integer) := by
    unfold shownWhole
    split
    · rw [thousand, renderComponent_thousand _ _ _ found]
    · rw [integer, renderComponent_integer _ _ _ found]
  rw [NumericPicture.numbers, List.map_cons, List.map_cons, List.map_cons, List.map_nil, partOf, partOf, partOf, renderParts, renderParts,
    renderParts, renderParts, whole, sign, decimalsName, renderComponent_sign _ _ _ _ found,
    renderComponent_decimals _ _ _ p.width foundDecimals]
  simp only [bind, pure, Except.bind, Except.pure, List.append_nil, List.append_assoc]

end Components

/-- The settings that a picture gives. -/
theorem readSettings_components (p : NumericPicture) :
    readSettings ⟨' ', none⟩ (p.components.map partOf) = match p.precision with
      | some (min, max) => (parsePrecision (NumericPicture.precisionComponent min max).2).map fun precision => ⟨' ', some precision⟩
      | none => .ok ⟨' ', none⟩ := by
  have plain : ∀ part ∈ p.numbers.map partOf, Plain part := by
    have sign : Plain (partOf ("Sign", none)) := by
      unfold Plain partOf
      decide
    have whole (name : String) (member : name ∈ ["Integer Thousand", "Integer"]) : Plain (partOf (name, none)) := by
      have each : ∀ name ∈ ["Integer Thousand", "Integer"], toAsciiLowercase (trim name) ≠ "filler character" ∧
          toAsciiLowercase (trim name) ≠ "precision" := by decide
      exact each name member
    have decimals (argument : Option (List Char)) : Plain (partOf ("Decimals", argument)) := by
      have name : toAsciiLowercase (trim "Decimals") ≠ "filler character" ∧ toAsciiLowercase (trim "Decimals") ≠ "precision" := by decide
      exact name
    intro part member
    simp only [NumericPicture.numbers, List.map_cons, List.map_nil, List.mem_cons, List.not_mem_nil, or_false] at member
    rcases member with rfl | rfl | rfl
    · exact sign
    · apply whole
      split <;> simp
    · exact decimals _
  rw [NumericPicture.components_eq]
  cases p.precision with
  | none =>
      have all := readSettings_plain ⟨' ', none⟩ plain []
      rwa [List.append_nil] at all
  | some bounds =>
      obtain ⟨min, max⟩ := bounds
      dsimp only
      have front : ∀ part ∈ (p.numbers.take p.place).map partOf, Plain part := by
        rw [List.map_take]
        exact fun part member => plain part (List.mem_of_mem_take member)
      have behind : ∀ part ∈ (p.numbers.drop p.place).map partOf, Plain part := by
        rw [List.map_drop]
        exact fun part member => plain part (List.mem_of_mem_drop member)
      rw [List.map_append, readSettings_plain _ front, List.map_cons, partOf_precision, readSettings]
      cases parsed : parsePrecision (some ((toString min).toList ++ ':' :: (toString max).toList)) with
      | error e =>
          rw [NumericPicture.precisionComponent, parsed]
          rfl
      | ok precision =>
          have later := readSettings_plain ⟨' ', some precision⟩ behind []
          rw [List.append_nil] at later
          rw [NumericPicture.precisionComponent, parsed]
          exact later

/-! ## The digits of one number -/

/-- The digits of so many units of a fraction, before and behind the point. -/
structure Digits (units scale : Nat) (whole fraction : List Char) : Prop where
  nonempty : whole ≠ []
  wholeDigits : ∀ c ∈ whole, c.isDigit = true
  fractionDigits : ∀ c ∈ fraction, c.isDigit = true
  short : fraction.length ≤ scale
  value : Nat.ofDigitChars 10 (whole ++ fraction) 0 * 10 ^ (scale - fraction.length) = units

theorem ofDigitChars_joined (front back : List Char) : Nat.ofDigitChars 10 (front ++ back) 0 =
    10 ^ back.length * Nat.ofDigitChars 10 front 0 + Nat.ofDigitChars 10 back 0 := by
  rw [Nat.ofDigitChars_append, Nat.ofDigitChars_eq_ofDigitChars_zero]

theorem ofDigitChars_lt {digits : List Char} (all : ∀ c ∈ digits, c.isDigit = true) : Nat.ofDigitChars 10 digits 0 < 10 ^ digits.length := by
  induction digits with
  | nil => decide
  | cons c digits ih =>
      have rest := ih fun d member => all d (List.mem_cons_of_mem _ member)
      have first : c.toNat - '0'.toNat ≤ 9 := by
        have each : ['0', '1', '2', '3', '4', '5', '6', '7', '8', '9'].all (fun c => decide (c.toNat - '0'.toNat ≤ 9)) = true := by decide
        exact of_decide_eq_true (List.all_eq_true.mp each c (isDigit_mem (all c (List.mem_cons_self ..))))
      rw [Nat.ofDigitChars_cons, Nat.ofDigitChars_eq_ofDigitChars_zero, List.length_cons, Nat.pow_succ]
      have scaled := Nat.mul_le_mul_left (10 ^ digits.length) first
      rw [Nat.mul_zero, Nat.zero_add]
      omega

namespace Digits

variable {units scale : Nat} {whole fraction : List Char} (digits : Digits units scale whole fraction)

include digits

theorem whole_eq : Nat.ofDigitChars 10 whole 0 = units / 10 ^ scale := by
  have small := ofDigitChars_lt digits.fractionDigits
  have value := digits.value
  have scaled : 10 ^ fraction.length * 10 ^ (scale - fraction.length) = 10 ^ scale := by
    rw [← Nat.pow_add, Nat.add_sub_cancel' digits.short]
  rw [ofDigitChars_joined, Nat.add_mul, Nat.mul_right_comm, scaled] at value
  rw [← value, Nat.mul_add_div (Nat.pow_pos (by decide)), Nat.div_eq_of_lt, Nat.add_zero]
  rw [← scaled]
  exact Nat.mul_lt_mul_of_pos_right small (Nat.pow_pos (by decide))

end Digits

theorem digits_normalize (d : Decimal) : ∃ whole fraction, Digits d.mantissa.natAbs d.scale whole fraction ∧
    (splitOnce '.' d.abs.normalize.render.toList).getD (d.abs.normalize.render.toList, []) = (whole, fraction) := by
  obtain ⟨shorter, _, value⟩ := Decimal.stripZeros_spec d.abs.mantissa d.abs.scale
  have positive : ¬d.abs.normalize.mantissa < 0 := by
    intro negative
    have product := Int.mul_neg_of_neg_of_pos negative (Int.pow_pos (by decide : (0 : Int) < 10) : 0 < (10 : Int) ^ (d.abs.scale - d.abs.normalize.scale))
    have abs : (0 : Int) ≤ d.abs.mantissa := Int.natCast_nonneg _
    exact absurd (value ▸ product) (Int.not_lt.mpr abs)
  have number := d.abs.normalize.numberText_render
  rw [if_neg positive] at number
  have long := d.abs.normalize.padded_length.1
  have length : (d.abs.normalize.padded.drop (d.abs.normalize.padded.length - d.abs.normalize.scale)).length = d.abs.normalize.scale := by
    rw [List.length_drop]
    omega
  have point := number.splitOnce_point
  have shape := number.shape
  rw [List.nil_append] at shape
  generalize fractionIs : d.abs.normalize.padded.drop _ = fraction at number length point shape
  generalize wholeIs : d.abs.normalize.padded.take _ = whole at number point shape
  have all : whole ++ fraction = d.abs.normalize.padded := by rw [← wholeIs, ← fractionIs, List.take_append_drop]
  refine ⟨whole, fraction, ⟨number.nonempty, number.wholeDigits, number.fractionDigits, length ▸ shorter, ?_⟩, ?_⟩
  · rw [all, Decimal.ofDigitChars_padded, length]
    have abs := congrArg Int.natAbs value
    rw [Int.natAbs_mul, Int.natAbs_pow] at abs
    exact abs.trans (Int.natAbs_natCast _)
  · rw [shape, point]
    split
    next none => rw [none, List.append_nil, Option.getD_none]
    next => rfl

theorem numberOf_exact (v : Decimal) : ∃ whole fraction, Digits v.mantissa.natAbs v.scale whole fraction ∧
    numberOf (.decimal v) none = some ⟨decide (v.mantissa < 0), whole, fraction⟩ := by
  obtain ⟨whole, fraction, digits, split⟩ := digits_normalize v
  refine ⟨whole, fraction, digits, ?_⟩
  rw [numberOf, Value.asDecimal, Option.map_some]
  dsimp only
  rw [split]

theorem units_roundDp (v : Decimal) (most : Nat) :
    (v.roundDp most .nearest).scale ≤ most ∧
      (v.roundDp most .nearest).mantissa.natAbs * 10 ^ (most - (v.roundDp most .nearest).scale) = roundedUnits v most ∧
      ((v.roundDp most .nearest).mantissa < 0 ↔ v.mantissa < 0 ∧ roundedUnits v most ≠ 0) := by
  have unit (k : Nat) : 0 < 10 ^ k := Nat.pow_pos (by decide)
  unfold Decimal.roundDp roundedUnits
  split
  next short =>
    have exact_ : steps .nearest (v.mantissa.natAbs * 10 ^ most) (10 ^ v.scale) = v.mantissa.natAbs * 10 ^ (most - v.scale) := by
      have scaled : v.mantissa.natAbs * 10 ^ most = v.mantissa.natAbs * 10 ^ (most - v.scale) * 10 ^ v.scale := by
        rw [Nat.mul_assoc, ← Nat.pow_add, Nat.sub_add_cancel short]
      rw [scaled]
      exact Nat.le_antisymm (steps_le (unit _) (Nat.le_refl _)) (le_steps (unit _) (Nat.le_refl _))
    refine ⟨short, exact_.symm, ?_⟩
    rw [exact_]
    have positive := unit (most - v.scale)
    constructor
    · intro negative
      refine ⟨negative, Nat.mul_ne_zero (by omega) (by omega)⟩
    · exact And.left
  next long =>
    have scaled : steps .nearest (v.mantissa.natAbs * 10 ^ most) (10 ^ v.scale) =
        steps .nearest v.mantissa.natAbs (10 ^ (v.scale - most)) := by
      rw [show 10 ^ v.scale = 10 ^ (v.scale - most) * 10 ^ most by rw [← Nat.pow_add, Nat.sub_add_cancel (by omega)]]
      exact steps_scaled _ _ _ (unit most)
    have min : Min.min v.scale most = most := Nat.min_eq_right (by omega)
    dsimp only
    rw [scaled, min, Nat.sub_self, Nat.pow_zero, Nat.mul_one, Int.natAbs_mul, Int.natAbs_natCast]
    rcases Int.lt_trichotomy v.mantissa 0 with negative | zero | positive
    · rw [Int.sign_eq_neg_one_of_neg negative]
      refine ⟨Nat.le_refl _, Nat.one_mul _, ?_⟩
      omega
    · rw [zero, Int.natAbs_zero, steps_zero .nearest (unit _)]
      exact ⟨Nat.le_refl _, rfl, by decide⟩
    · rw [Int.sign_eq_one_of_pos positive]
      refine ⟨Nat.le_refl _, Nat.one_mul _, ?_⟩
      omega

theorem numberOf_rounded (v : Decimal) (least most : Nat) : ∃ whole fraction, Digits (roundedUnits v most) most whole fraction ∧
    numberOf (.decimal v) (some (least, most)) =
      some ⟨decide (v.mantissa < 0 ∧ roundedUnits v most ≠ 0), whole, fraction ++ List.replicate (least - fraction.length) '0'⟩ := by
  obtain ⟨short, units, negative⟩ := units_roundDp v most
  obtain ⟨whole, fraction, digits, split⟩ := digits_normalize (v.roundDp most .nearest)
  refine ⟨whole, fraction, ⟨digits.nonempty, digits.wholeDigits, digits.fractionDigits, digits.short.trans short, ?_⟩, ?_⟩
  · rw [← units, ← digits.value, Nat.mul_assoc, ← Nat.pow_add]
    congr 2
    have := digits.short
    omega
  · rw [numberOf, Value.asDecimal, Option.map_some]
    dsimp only
    rw [split]
    simp only [negative]

/-! ## One rounded number -/

theorem spelledFraction_text {text sign whole fraction : List Char} (number : NumberText text sign whole fraction) :
    spelledFraction text = some (if sign = ['-'] then -(Nat.ofDigitChars 10 (whole ++ fraction) 0 : Int)
      else (Nat.ofDigitChars 10 (whole ++ fraction) 0 : Int), fraction.length) := by
  have digits : digitsValue (whole ++ fraction) = some (Nat.ofDigitChars 10 (whole ++ fraction) 0) := by
    rw [digitsValue, if_pos]
    refine ⟨List.append_ne_nil_of_left_ne_nil number.nonempty fraction, List.all_eq_true.mpr fun c member => ?_⟩
    rcases List.mem_append.mp member with inWhole | inFraction
    · exact number.wholeDigits c inWhole
    · exact number.fractionDigits c inFraction
  have split : (splitOnce '.' (whole ++ (if fraction = [] then [] else '.' :: fraction))).getD
      (whole ++ (if fraction = [] then [] else '.' :: fraction), []) = (whole, fraction) := by
    rw [number.splitOnce_point]
    split
    next none => rw [none, List.append_nil, Option.getD_none]
    next => rfl
  unfold spelledFraction
  rw [number.splitMinus_text]
  dsimp only
  rw [split]
  dsimp only
  rw [if_neg number.nonempty, digits, Option.map_some]
  rcases number.sign with rfl | rfl
  · rfl
  · rfl

section Prints

variable (v : Decimal) (p : NumericPicture)

theorem renderPicture_numbers {settings : PictureSettings} (read : readSettings ⟨' ', none⟩ (p.components.map partOf) = .ok settings)
    {number decimals : NumberParts} (found : numberOf (.decimal v) settings.precision = some number)
    (foundDecimals : numberOf (.decimal v) (decimalsPrecision settings.precision (p.width.filter (· < 2 ^ 64))) = some decimals) :
    renderPicture (.decimal v) p.text = .ok (String.ofList ((if number.negative then ['-'] else []) ++ shownWhole p number.integer ++
      (if decimals.fraction = [] then [] else '.' :: decimals.fraction))) := by
  rw [renderPicture, renderPictureWith, p.parts_text]
  simp only [bind, Except.bind]
  rw [read]
  dsimp only
  rw [renderParts_components, renderParts_numbers _ _ _ p found foundDecimals]
  rfl

/-- The text says the number only if the digits of its components belong together. -/
theorem printsRounded_iff {settings : PictureSettings} (read : readSettings ⟨' ', none⟩ (p.components.map partOf) = .ok settings)
    {number decimals : NumberParts} (found : numberOf (.decimal v) settings.precision = some number)
    (foundDecimals : numberOf (.decimal v) (decimalsPrecision settings.precision (p.width.filter (· < 2 ^ 64))) = some decimals)
    (nonempty : number.integer ≠ []) (wholeDigits : ∀ c ∈ number.integer, c.isDigit = true)
    (fractionDigits : ∀ c ∈ decimals.fraction, c.isDigit = true) :
    (∃ text, renderPicture (.decimal v) p.text = .ok text ∧ PrintsRounded v text) ↔
      (if number.negative then -(Nat.ofDigitChars 10 (number.integer ++ decimals.fraction) 0 : Int)
        else (Nat.ofDigitChars 10 (number.integer ++ decimals.fraction) 0 : Int)) =
          v.mantissa.sign * roundedUnits v decimals.fraction.length := by
  have shape : NumberText ((if number.negative then ['-'] else []) ++ number.integer ++
      (if decimals.fraction = [] then [] else '.' :: decimals.fraction)) (if number.negative then ['-'] else [])
      number.integer decimals.fraction := by
    refine ⟨rfl, ?_, nonempty, wholeDigits, fractionDigits⟩
    split <;> simp
  have plain : dropCommas (String.ofList ((if number.negative then ['-'] else []) ++ shownWhole p number.integer ++
      (if decimals.fraction = [] then [] else '.' :: decimals.fraction))) =
        String.ofList ((if number.negative then ['-'] else []) ++ number.integer ++
          (if decimals.fraction = [] then [] else '.' :: decimals.fraction)) := by
    unfold shownWhole
    by_cases thousand : p.thousand = true
    · rw [if_pos thousand]
      exact shape.dropCommas_grouped
    · rw [if_neg thousand]
      exact shape.dropCommas_plain
  have spelled := spelledFraction_text shape
  have sign : ((if number.negative then ['-'] else []) = ['-']) ↔ number.negative = true := by
    split <;> simp_all
  simp only [sign] at spelled
  rw [renderPicture_numbers v p read found foundDecimals]
  constructor
  · rintro ⟨text, is, count, said⟩
    cases is
    rw [plain, String.toList_ofList, spelled] at said
    obtain ⟨value, length⟩ := Prod.mk.inj (Option.some.inj said)
    rw [value, length]
  · intro value
    refine ⟨_, rfl, decimals.fraction.length, ?_⟩
    rw [plain, String.toList_ofList, spelled, value]

theorem signed_iff {v : Decimal} {shown expected rounded : Nat} (silent : rounded = 0 → shown = 0)
    (zero : v.mantissa = 0 → expected = 0) :
    (if decide (v.mantissa < 0 ∧ rounded ≠ 0) = true then -(shown : Int) else shown) = v.mantissa.sign * expected ↔ shown = expected := by
  rcases Int.lt_trichotomy v.mantissa 0 with negative | none | positive
  · rw [Int.sign_eq_neg_one_of_neg negative]
    split
    next => omega
    next other =>
      have silent : shown = 0 := silent (by simpa [negative] using other)
      omega
  · have less : ¬v.mantissa < 0 := by omega
    simp only [none, Int.sign_zero, zero none]
    simp
  · have less : ¬v.mantissa < 0 := by omega
    rw [Int.sign_eq_one_of_pos positive]
    simp [less]

theorem signed_exact_iff {v : Decimal} {shown expected : Nat} (zero : v.mantissa = 0 → expected = 0) :
    (if decide (v.mantissa < 0) = true then -(shown : Int) else shown) = v.mantissa.sign * expected ↔ shown = expected := by
  have signed := @signed_iff v shown expected 1 (fun none => absurd none Nat.one_ne_zero) zero
  simpa only [ne_eq, Nat.one_ne_zero, not_false_eq_true, and_true] using signed

theorem roundedUnits_zero {v : Decimal} (none : v.mantissa = 0) (digits : Nat) : roundedUnits v digits = 0 := by
  rw [roundedUnits, none, Int.natAbs_zero, Nat.zero_mul]
  exact steps_zero .nearest (Nat.pow_pos (by decide))

/-- The digits of a number and zeros behind them. -/
theorem ofDigitChars_zeros (digits : List Char) (zeros : Nat) :
    Nat.ofDigitChars 10 (digits ++ List.replicate zeros '0') 0 = Nat.ofDigitChars 10 digits 0 * 10 ^ zeros := by
  rw [Nat.ofDigitChars_append, Nat.ofDigitChars_replicate_zero, Nat.mul_comm]

theorem padded_isDigit {fraction : List Char} (digits : ∀ c ∈ fraction, c.isDigit = true) (zeros : Nat) :
    ∀ c ∈ fraction ++ List.replicate zeros '0', c.isDigit = true := by
  intro c member
  rcases List.mem_append.mp member with digit | zero
  · exact digits c digit
  · rw [List.eq_of_mem_replicate zero]
    decide

theorem prints_exact (precision : p.precision = none) (width : p.width.filter (· < 2 ^ 64) = none) :
    ∃ text, renderPicture (.decimal v) p.text = .ok text ∧ PrintsRounded v text := by
  have read : readSettings ⟨' ', none⟩ (p.components.map partOf) = .ok ⟨' ', none⟩ := by rw [readSettings_components, precision]
  obtain ⟨whole, fraction, digits, found⟩ := numberOf_exact v
  have foundDecimals : numberOf (.decimal v) (decimalsPrecision none (p.width.filter (· < 2 ^ 64))) =
      some ⟨decide (v.mantissa < 0), whole, fraction⟩ := by rw [width]; exact found
  rw [printsRounded_iff v p read found foundDecimals digits.nonempty digits.wholeDigits digits.fractionDigits]
  have rounded : roundedUnits v fraction.length = Nat.ofDigitChars 10 (whole ++ fraction) 0 := by
    have scaled : v.mantissa.natAbs * 10 ^ fraction.length = Nat.ofDigitChars 10 (whole ++ fraction) 0 * 10 ^ v.scale := by
      rw [← digits.value, Nat.mul_assoc, ← Nat.pow_add, Nat.sub_add_cancel digits.short]
    have unit : 0 < 10 ^ v.scale := Nat.pow_pos (by decide)
    rw [roundedUnits, scaled]
    exact Nat.le_antisymm (steps_le unit (Nat.le_refl _)) (le_steps unit (Nat.le_refl _))
  exact (signed_exact_iff fun none => roundedUnits_zero none _).mpr rounded.symm

theorem prints_width_iff (precision : p.precision = none) {n : Nat} (width : p.width.filter (· < 2 ^ 64) = some n) :
    (∃ text, renderPicture (.decimal v) p.text = .ok text ∧ PrintsRounded v text) ↔
      roundedUnits v ((n - 1) % 2 ^ 32) / 10 ^ ((n - 1) % 2 ^ 32) = v.mantissa.natAbs / 10 ^ v.scale := by
  have read : readSettings ⟨' ', none⟩ (p.components.map partOf) = .ok ⟨' ', none⟩ := by rw [readSettings_components, precision]
  obtain ⟨whole, fraction, digits, found⟩ := numberOf_exact v
  obtain ⟨roundedWhole, roundedFraction, rounded, foundDecimals⟩ := numberOf_rounded v ((n - 1) % 2 ^ 32) ((n - 1) % 2 ^ 32)
  rw [show some ((n - 1) % 2 ^ 32, (n - 1) % 2 ^ 32) = decimalsPrecision none (p.width.filter (· < 2 ^ 64)) by rw [width]; rfl]
    at foundDecimals
  rw [printsRounded_iff v p read found foundDecimals digits.nonempty digits.wholeDigits (padded_isDigit rounded.fractionDigits _)]
  dsimp only
  clear foundDecimals
  generalize (n - 1) % 2 ^ 32 = places at rounded
  have short := rounded.short
  have length : (roundedFraction ++ List.replicate (places - roundedFraction.length) '0').length = places := by
    rw [List.length_append, List.length_replicate]
    omega
  have value : Nat.ofDigitChars 10 (roundedWhole ++ (roundedFraction ++ List.replicate (places - roundedFraction.length) '0')) 0 =
      roundedUnits v places := by
    rw [← List.append_assoc, ofDigitChars_zeros, rounded.value]
  have small := ofDigitChars_lt (padded_isDigit rounded.fractionDigits (places - roundedFraction.length))
  generalize roundedFraction ++ List.replicate (places - roundedFraction.length) '0' = printed at length value small ⊢
  rw [length] at small ⊢
  rw [signed_exact_iff fun none => roundedUnits_zero none _, ← value, ← digits.whole_eq, ofDigitChars_joined, ofDigitChars_joined, length]
  have unit : 0 < 10 ^ places := Nat.pow_pos (by decide)
  rw [Nat.mul_add_div unit, Nat.div_eq_of_lt small, Nat.add_zero]
  constructor
  · intro same
    have scaled : 10 ^ places * Nat.ofDigitChars 10 whole 0 = 10 ^ places * Nat.ofDigitChars 10 roundedWhole 0 := by omega
    exact (Nat.eq_of_mul_eq_mul_left unit scaled).symm
  · intro same
    rw [same]

theorem prints_precision_iff {min max : Nat} (precision : p.precision = some (min, max)) :
    (∃ text, renderPicture (.decimal v) p.text = .ok text ∧ PrintsRounded v text) ↔
      min < 2 ^ 32 ∧ max < 2 ^ 32 ∧ (min ≤ max ∨ roundedUnits v min = roundedUnits v max * 10 ^ (min - max)) := by
  have settings := readSettings_components p
  rw [precision] at settings
  dsimp only at settings
  rw [NumericPicture.precisionComponent, parsePrecision_spelled] at settings
  by_cases valid : min < 2 ^ 32 ∧ max < 2 ^ 32
  · rw [if_pos valid] at settings
    obtain ⟨whole, fraction, digits, found⟩ := numberOf_rounded v min max
    rw [printsRounded_iff v p settings found found digits.nonempty digits.wholeDigits (padded_isDigit digits.fractionDigits _)]
    dsimp only
    have short := digits.short
    have value := digits.value
    have length : (fraction ++ List.replicate (min - fraction.length) '0').length = fraction.length + (min - fraction.length) := by
      rw [List.length_append, List.length_replicate]
    have silent : roundedUnits v max = 0 → Nat.ofDigitChars 10 (whole ++ fraction) 0 * 10 ^ (min - fraction.length) = 0 := by
      intro none
      have zero := (Nat.mul_eq_zero.mp (value.trans none)).resolve_right (Nat.pow_pos (by decide)).ne'
      rw [zero, Nat.zero_mul]
    rw [← List.append_assoc, ofDigitChars_zeros, length, signed_iff silent fun none => roundedUnits_zero none _,
      and_iff_right valid.1, and_iff_right valid.2]
    rcases Nat.lt_or_ge max min with more | fewer
    · have behind : min - fraction.length = max - fraction.length + (min - max) := by omega
      have all : fraction.length + (min - fraction.length) = min := by omega
      rw [all, behind, Nat.pow_add, ← Nat.mul_assoc, value, or_iff_right (Nat.not_le.mpr more)]
      exact eq_comm
    · have printed : roundedUnits v (fraction.length + (min - fraction.length)) =
          Nat.ofDigitChars 10 (whole ++ fraction) 0 * 10 ^ (min - fraction.length) := by
        have rest : max - fraction.length = min - fraction.length + (max - (fraction.length + (min - fraction.length))) := by omega
        rw [rest, Nat.pow_add, ← Nat.mul_assoc] at value
        rw [roundedUnits]
        apply @steps_coarser _ _ _ (10 ^ (max - (fraction.length + (min - fraction.length)))) (Nat.pow_pos (by decide)) (Nat.pow_pos (by decide))
        rw [value, Nat.mul_assoc, ← Nat.pow_add, Nat.add_sub_cancel' (by omega), roundedUnits]
      simp only [printed, fewer, true_or]
  · rw [if_neg valid] at settings
    constructor
    · rintro ⟨text, is, _⟩
      rw [renderPicture, renderPictureWith, p.parts_text] at is
      simp only [bind, Except.bind] at is
      rw [settings] at is
      cases is
    · rintro ⟨small, large, _⟩
      exact absurd ⟨small, large⟩ valid

/-- A picture of a sign, the whole digits and the decimals prints one rounded number just when the rounding of the decimals does not
carry, or the precision asks for no digit that was rounded away. -/
theorem picture_prints_iff :
    (∃ text, renderPicture (.decimal v) p.text = .ok text ∧ PrintsRounded v text) ↔ Agrees v p := by
  unfold Agrees
  cases precision : p.precision with
  | none =>
      cases width : p.width.filter (· < 2 ^ 64) with
      | none => simpa only [iff_true] using prints_exact v p precision width
      | some n => exact prints_width_iff v p precision width
  | some bounds =>
      obtain ⟨min, max⟩ := bounds
      exact prints_precision_iff v p precision

end Prints

/-- `0.999` with two decimals is `1.00`, and the picture prints `0.00`. -/
theorem carry_lost :
    ∃ (v : Decimal) (p : NumericPicture), p.text = "<Sign><Integer><Decimals,3>" ∧ v.render = "0.999" ∧
      renderPicture (.decimal v) p.text = .ok "0.00" ∧ roundedUnits v 2 = 100 ∧
      ¬∃ text, renderPicture (.decimal v) p.text = .ok text ∧ PrintsRounded v text := by
  refine ⟨⟨999, 3, by decide, by decide⟩, ⟨false, some 3, none, 0⟩, by decide, by decide, by decide, by decide, ?_⟩
  rw [prints_width_iff _ _ rfl rfl]
  decide

end AlLanguage.Runtime
