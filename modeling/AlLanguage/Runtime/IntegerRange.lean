import AlLanguage.Runtime.Arithmetic
import AlLanguage.Runtime.DateFormulas
import AlLanguage.Runtime.JsonMethods

/-!
# The range of Integer

- An Integer has 32 bits and is held in 64.
- Every operation that makes one is compared with the number it stands for.
-/

namespace AlLanguage.Runtime

open Json

/-- A number that an Integer can hold. -/
def InI32 (n : Int) : Prop := -2147483648 ≤ n ∧ n ≤ 2147483647

instance (n : Int) : Decidable (InI32 n) := inferInstanceAs (Decidable (_ ∧ _))

/-- An Integer within its range and a BigInteger are the number itself. -/
def Carries (number : Option Int) : Value → Prop
  | .integer n => InI32 n.toInt ∧ number = some n.toInt
  | .bigInteger n => number = some n.toInt
  | _ => True

def Exact {ε : Type} (result : Except ε Value) (number : Option Int) : Prop := ∀ v, result = .ok v → Carries number v

theorem exact_error {ε : Type} (e : ε) (number : Option Int) : Exact (.error e) number := by
  intro v impossible
  cases impossible

theorem exact_ok {ε : Type} {v : Value} {number : Option Int} : Exact (.ok v : Except ε Value) number ↔ Carries number v := by
  constructor
  · intro exact_
    exact exact_ v rfl
  · rintro carries w same
    rwa [← Except.ok.inj same]

theorem carries_other {v : Value} (number : Option Int) (other : v.asInt = none) : Carries number v := by
  cases v with
  | integer n => cases other
  | bigInteger n => cases other
  | _ => trivial

theorem inInt32Range_iff (n : Int64) : inInt32Range n = true ↔ InI32 n.toInt := by
  simp [inInt32Range, InI32]

theorem i64OfInt_eq_some {i : Int} {n : Int64} : i64OfInt i = some n ↔ InI64 i ∧ n = Int64.ofInt i := by
  unfold i64OfInt InI64
  split
  next inside => simp [inside, eq_comm]
  next outside => simp [outside]

theorem InI64.toInt_ofInt {i : Int} (fits : InI64 i) : (Int64.ofInt i).toInt = i :=
  Int64.toInt_ofInt_of_le fits.1 (Int.lt_of_le_sub_one fits.2)

theorem toInt_inI64 (n : Int64) : InI64 n.toInt := ⟨Int64.le_toInt n, Int.le_sub_one_of_lt (Int64.toInt_lt n)⟩

/-! ## Operators -/

theorem checkedInt_exact {result : Option Int64} {number : Option Int} (big : Bool)
    (same : ∀ n, result = some n → number = some n.toInt) : Exact (checkedInt result big) number := by
  unfold checkedInt
  split
  next n => 
    split
    · exact exact_ok.mpr (same n rfl)
    · split
      next inside => exact exact_ok.mpr ⟨(inInt32Range_iff n).mp inside, same n rfl⟩
      next => exact exact_error _ _
  next => exact exact_error _ _

theorem checkedDecimal_exact (d : Option Decimal) (number : Option Int) : Exact (checkedDecimal d) number := by
  cases d with
  | none => exact exact_error _ _
  | some d => exact exact_ok.mpr trivial

/-- The integer that an operand is. -/
def intOf (v : Value) : Option Int :=
  match classifyNumeric v with
  | some (.int val _) => some val.toInt
  | _ => none

/-- The number that an operator makes of two integers. -/
def exactInts (op : BinaryOp) (a b : Int) : Option Int :=
  match op with
  | .add => some (a + b)
  | .sub => some (a - b)
  | .mul => some (a * b)
  | .div => if b = 0 then none else some (a.tdiv b)
  | .mod => if b = 0 then none else some (a.tmod b)
  | _ => none

/-- The number that a binary operator stands for. -/
def exactBinary (op : BinaryOp) (left right : Value) : Option Int :=
  match op, left, right with
  | .sub, .date l, .date r => some (l.toInt - r.toInt)
  | op, left, right =>
    match intOf left, intOf right with
    | some a, some b => exactInts op a b
    | _, _ => none

theorem moveCarrier_exact {make : Int64 → Value} (makes : ∀ n number, Carries number (make n)) (kind zero : String)
    (move : Int64 → Int64 → Option Int64) (carrier : Int64) (offset : Value) (number : Option Int) :
    Exact (moveCarrier kind zero make move carrier offset) number := by
  unfold moveCarrier
  by_cases undefined_ : carrier = 0
  · rw [if_pos undefined_]
    exact exact_error _ _
  · rw [if_neg undefined_]
    cases wholeOffset offset with
    | error e => exact exact_error _ _
    | ok n =>
        simp only [bind, Except.bind]
        cases move carrier n with
        | none => exact exact_error _ _
        | some value => exact exact_ok.mpr (makes value number)

theorem carrierDifference_exact (kind zero : String) (left right : Int64) (number : Option Int) :
    Exact (carrierDifference kind zero left right) number := by
  unfold carrierDifference
  split
  · exact exact_error _ _
  · split
    · exact exact_ok.mpr trivial
    · exact exact_error _ _

theorem moveDuration_exact (move : Int64 → Int64 → Option Int64) (ms : Int64) (offset : Value) (number : Option Int) :
    Exact (moveDuration move ms offset) number := by
  unfold moveDuration
  cases wholeOffset offset with
  | error e => exact exact_error _ _
  | ok n =>
      simp only [bind, Except.bind]
      cases move ms n with
      | none => exact exact_error _ _
      | some value => exact exact_ok.mpr trivial

theorem checkedSub_some {a b n : Int64} (computed : checkedSubI64 a b = some n) : some (a.toInt - b.toInt) = some n.toInt := by
  rw [i64OfInt_some computed]

/-- Of dates and times only the difference of two dates is an integer. -/
theorem applyTemporalArithmetic_exact {op : BinaryOp} {left right : Value} {result : Except String Value}
    (temporal : applyTemporalArithmetic op left right = some result) : Exact result (exactBinary op left right) := by
  unfold applyTemporalArithmetic at temporal
  split at temporal <;> cases temporal
  · exact carrierDifference_exact _ _ _ _ _
  · exact moveCarrier_exact (by simp [Carries]) _ _ _ _ _ _
  · exact moveCarrier_exact (by simp [Carries]) _ _ _ _ _ _
  · exact moveCarrier_exact (by simp [Carries]) _ _ _ _ _ _
  · exact moveCarrier_exact (by simp [Carries]) _ _ _ _ _ _
  · exact moveCarrier_exact (by simp [Carries]) _ _ _ _ _ _
  · split
    · exact exact_error _ _
    · exact checkedInt_exact false fun n => checkedSub_some
  · exact moveCarrier_exact (by simp [Carries]) _ _ _ _ _ _
  · exact moveCarrier_exact (by simp [Carries]) _ _ _ _ _ _
  · exact moveCarrier_exact (by simp [Carries]) _ _ _ _ _ _
  · exact carrierDifference_exact _ _ _ _ _
  · exact moveCarrier_exact (by simp [Carries]) _ _ _ _ _ _
  · exact moveDuration_exact _ _ _ _
  · exact moveDuration_exact _ _ _ _
  · exact moveDuration_exact _ _ _ _

theorem map_exact {ε α : Type} {make : α → Value} (makes : ∀ a number, Carries number (make a)) (result : Except ε α)
    (number : Option Int) : Exact (result.map make) number := by
  cases result with
  | error e => exact exact_error _ _
  | ok a => exact exact_ok.mpr (makes a number)

theorem concatenate_exact {make : String → Value} (makes : ∀ s number, Carries number (make s)) (a b : String)
    (number : Option Int) : Exact (concatenate make a b) number := by
  unfold concatenate
  cases checkTextSize "Text concatenation" (byteLength a + byteLength b) with
  | error e => exact exact_error _ _
  | ok _ => exact exact_ok.mpr (makes _ number)

theorem applyOther_exact (op : BinaryOp) (left right : Value) (number : Option Int) :
    Exact (applyOther op left right) number := by
  unfold applyOther
  split
  · exact concatenate_exact (by simp [Carries]) _ _ _
  · exact concatenate_exact (by simp [Carries]) _ _ _
  · exact concatenate_exact (by simp [Carries]) _ _ _
  · exact concatenate_exact (by simp [Carries]) _ _ _
  · exact exact_ok.mpr trivial
  · exact exact_ok.mpr trivial
  · exact map_exact (by simp [Carries]) _ _
  · exact map_exact (by simp [Carries]) _ _
  · exact map_exact (by simp [Carries]) _ _
  · exact map_exact (by simp [Carries]) _ _
  · exact exact_ok.mpr trivial
  · exact exact_ok.mpr trivial
  · exact exact_ok.mpr trivial
  · exact exact_ok.mpr trivial
  · exact map_exact (by simp [Carries]) _ _
  · exact exact_error _ _

section Decimals

variable [DecimalArithmetic] [DecimalProducts]

theorem applyNumeric_ints (op : BinaryOp) (a b : Int64) (ab bb : Bool) :
    Exact (applyNumeric op (.int a ab) (.int b bb)) (exactInts op a.toInt b.toInt) := by
  have nonzero (differ : ¬ b = 0) : b.toInt ≠ 0 := fun zero => differ (Int64.toInt_inj.mp zero)
  cases op with
  | divide =>
      unfold applyNumeric
      dsimp only
      split
      · exact exact_error _ _
      · exact checkedDecimal_exact _ _
  | add => exact checkedInt_exact _ fun n computed => congrArg some (i64OfInt_some computed).symm
  | sub => exact checkedInt_exact _ fun n computed => congrArg some (i64OfInt_some computed).symm
  | mul => exact checkedInt_exact _ fun n computed => congrArg some (i64OfInt_some computed).symm
  | div =>
      unfold applyNumeric exactInts
      dsimp only
      by_cases zero : b = 0
      · rw [if_pos zero]
        exact exact_error _ _
      · rw [if_neg zero, if_neg (nonzero zero)]
        apply checkedInt_exact
        intro n computed
        rw [checkedDivI64, if_neg zero] at computed
        rw [i64OfInt_some computed]
  | mod =>
      unfold applyNumeric exactInts
      dsimp only
      by_cases zero : b = 0
      · rw [if_pos zero]
        exact exact_error _ _
      · rw [if_neg zero, if_neg (nonzero zero)]
        apply checkedInt_exact
        intro n computed
        obtain ⟨quotient, -, computed⟩ := Option.bind_eq_some_iff.mp computed
        rw [i64OfInt_some computed]
  | _ => exact exact_error _ _

/-- A decimal operand makes no integer. -/
theorem applyNumeric_decimal (op : BinaryOp) {l r : Num} (decimal : (∃ d, l = .dec d) ∨ ∃ d, r = .dec d) (number : Option Int) :
    Exact (applyNumeric op l r) number := by
  unfold applyNumeric
  split
  · split
    · exact exact_error _ _
    · exact checkedDecimal_exact _ _
  · split
    next => simp at decimal
    next =>
      split
      · exact checkedDecimal_exact _ _
      · exact checkedDecimal_exact _ _
      · exact checkedDecimal_exact _ _
      · exact exact_error _ _
      · exact exact_error _ _
      · exact exact_error _ _

theorem applyNumeric_exact {op : BinaryOp} {left right : Value} {l r : Num} (isLeft : classifyNumeric left = some l)
    (isRight : classifyNumeric right = some r) : Exact (applyNumeric op l r) (exactBinary op left right) := by
  cases l with
  | dec d => exact applyNumeric_decimal op (.inl ⟨d, rfl⟩) _
  | int a ab =>
      cases r with
      | dec d => exact applyNumeric_decimal op (.inr ⟨d, rfl⟩) _
      | int b bb =>
          have number : exactBinary op left right = exactInts op a.toInt b.toInt := by
            unfold exactBinary
            split
            next => cases isLeft
            next => simp only [intOf, isLeft, isRight]
          rw [number]
          exact applyNumeric_ints op a b ab bb

/-- Every integer that an operator makes is exact and in its range. -/
theorem applyBinary_exact (op : BinaryOp) (left right : Value) :
    Exact (applyBinary op left right) (exactBinary op left right) := by
  unfold applyBinary
  cases temporal : applyTemporalArithmetic op left right with
  | some result => exact applyTemporalArithmetic_exact temporal
  | none =>
      dsimp only
      split
      next isLeft isRight => exact applyNumeric_exact isLeft isRight
      next => exact applyOther_exact _ _ _ _

end Decimals

theorem applyUnary_exact (operand : Value) :
    Exact (applyUnary .minus operand) ((intOf operand).map fun n => -n) := by
  cases operand with
  | integer n => exact checkedInt_exact _ fun m computed => congrArg some (i64OfInt_some computed).symm
  | bigInteger n => exact checkedInt_exact _ fun m computed => congrArg some (i64OfInt_some computed).symm
  | option typeName member ordinal =>
      exact checkedInt_exact _ fun m computed => congrArg some (i64OfInt_some computed).symm
  | decimal d => exact exact_ok.mpr trivial
  | _ => exact exact_error _ _

/-! ## Abs, Maximum and Minimum -/

theorem builtinAbs_exact (operand : Value) :
    Exact (builtinAbs [operand]) (operand.asInt.map fun n => (n.toInt.natAbs : Int)) := by
  unfold builtinAbs
  split
  next n only =>
    obtain rfl := List.singleton_inj.mp only
    cases computed : checkedAbsI64 n with
    | none => exact exact_error _ _
    | some a =>
        dsimp only
        split
        next inside => exact exact_ok.mpr ⟨(inInt32Range_iff a).mp inside, congrArg some (i64OfInt_some computed).symm⟩
        next => exact exact_error _ _
  next n only =>
    obtain rfl := List.singleton_inj.mp only
    cases computed : checkedAbsI64 n with
    | none => exact exact_error _ _
    | some a => exact exact_ok.mpr (congrArg some (i64OfInt_some computed).symm)
  next => exact exact_ok.mpr trivial
  next => exact exact_error _ _
  next => exact exact_error _ _

/-- A value whose Integer, where it is one, is within the range. -/
def InRange (v : Value) : Prop := ∀ n, v = .integer n → InI32 n.toInt

/-- The greater or the lesser of two integers. -/
def exactExtreme (maximum : Bool) (left right : Value) : Option Int :=
  match left.asInt, right.asInt with
  | some a, some b => some (if maximum then max a.toInt b.toInt else min a.toInt b.toInt)
  | _, _ => none

theorem builtinExtreme_exact (maximum : Bool) {left right : Value} (leftIn : InRange left) (rightIn : InRange right) :
    Exact (builtinExtreme [left, right] maximum) (exactExtreme maximum left right) := by
  by_cases both : (∃ a, left = .integer a) ∧ ∃ b, right = .integer b
  · obtain ⟨⟨a, rfl⟩, b, rfl⟩ := both
    have order : b ≤ a ↔ b.toInt ≤ a.toInt := Int64.le_iff_toInt_le
    have first := leftIn a rfl
    have second := rightIn b rfl
    rw [builtinExtreme, exact_ok, exactExtreme]
    simp only [Carries, Value.asInt, Option.some.injEq]
    by_cases greater : b.toInt ≤ a.toInt
    · cases maximum with
      | true => simp [order, greater, first]
      | false => simp [order, greater, second]
    · have less := Int.le_of_not_le greater
      cases maximum with
      | true => simp [order, greater, second, less]
      | false => simp [order, greater, first, less]
  · unfold builtinExtreme
    generalize (if maximum = true then "Maximum" else "Minimum") = name
    dsimp only
    split
    next a b same =>
      obtain ⟨rfl, rfl⟩ : left = .integer a ∧ right = .integer b := by simpa using same
      exact absurd ⟨⟨a, rfl⟩, b, rfl⟩ both
    next =>
      split
      · exact exact_ok.mpr trivial
      · exact exact_error _ _
    next => exact exact_error _ _

/-! ## Evaluate -/

/-- The integer that a text spells. -/
def spelledInt (s : String) : Option Int :=
  match s.toList with
  | '-' :: digits => (digitsValue digits).map fun n : Nat => -(n : Int)
  | '+' :: digits => (digitsValue digits).map fun n : Nat => (n : Int)
  | digits => (digitsValue digits).map fun n : Nat => (n : Int)

theorem parseI64_eq (s : String) : parseI64 s = (spelledInt s).bind i64OfInt := by
  unfold parseI64 spelledInt
  generalize s.toList = text
  repeat' split
  all_goals simp_all [Option.bind_map]

/-- A text that spells no 64-bit integer is not read. -/
theorem parseI64_none {s : String} (unread : ∀ i, spelledInt s = some i → ¬ InI64 i) : parseI64 s = none := by
  rw [parseI64_eq]
  cases spelled : spelledInt s with
  | none => rfl
  | some i => exact if_neg (unread i spelled)

theorem parseI64_some {s : String} {i : Int} (spelled : spelledInt s = some i) (fits : InI64 i) :
    parseI64 s = some (Int64.ofInt i) := by
  rw [parseI64_eq, spelled]
  exact if_pos fits

theorem parseI64_toInt {s : String} {n : Int64} (read : parseI64 s = some n) : spelledInt s = some n.toInt := by
  rw [parseI64_eq] at read
  obtain ⟨i, spelled, fits⟩ := Option.bind_eq_some_iff.mp read
  rw [spelled, i64OfInt_some fits]

def exactEvaluate (target : Value) (raw : String) : Option Int :=
  match target with
  | .integer _ => spelledInt (dropCommas (trim raw))
  | .bigInteger _ => spelledInt (trimSuffixL (dropCommas (trim raw)))
  | _ => none

/-- Slots that give an integer their own type. -/
def Value.isNumeric : Value → Bool
  | .integer _ | .bigInteger _ | .decimal _ => true
  | _ => false

/-- What is left in the argument, and a false answer for one that is left as it is. -/
def evaluation [CaseMapping] [DecimalSyntax] (statement : Bool) (place : ArgumentPlace) (target : Value) (raw : String) :
    Except String Value :=
  (evaluateInto statement place target raw).map fun written => written.getD (.boolean false)

theorem coerceIntoSlot_integer [CaseMapping] {slot : Value} (n : Int64) (capacity : Option Nat)
    (other : slot.isNumeric = false) : coerceIntoSlot slot (.integer n) capacity = .ok (.integer n) := by
  cases slot with
  | integer _ => cases other
  | bigInteger _ => cases other
  | decimal _ => cases other
  | _ => rfl

theorem coerceIntoSlot_bigInteger [CaseMapping] {slot : Value} (n : Int64) (capacity : Option Nat)
    (other : slot.isNumeric = false) : coerceIntoSlot slot (.bigInteger n) capacity = .ok (.bigInteger n) := by
  cases slot with
  | integer _ => cases other
  | bigInteger _ => cases other
  | decimal _ => cases other
  | _ => rfl

theorem checked_exact {v : Value} {number : Option Int} (check : Except String Unit) (carries : Carries number v) :
    Exact (do check; return v) number := by
  cases check with
  | error e => exact exact_error _ _
  | ok _ => exact exact_ok.mpr carries

/-- A value of another kind is no integer in any slot. -/
theorem coerceIntoSlot_other [CaseMapping] {slot v : Value} (number : Option Int) (capacity : Option Nat)
    (other : v.asInt = none) : Exact (coerceIntoSlot slot v capacity) number := by
  unfold coerceIntoSlot
  split
  · exact checked_exact _ trivial
  · exact checked_exact _ trivial
  · exact checked_exact _ trivial
  · exact checked_exact _ trivial
  · cases other
  · cases other
  · cases other
  · cases other
  · cases other
  · cases other
  · exact exact_ok.mpr (carries_other number other)

theorem inInt32Range_exact {n : Int64} {number : Option Int} (same : number = some n.toInt) (message : String) :
    Exact (if inInt32Range n then .ok (.integer n) else .error message : Except String Value) number := by
  split
  next inside => exact exact_ok.mpr ⟨(inInt32Range_iff n).mp inside, same⟩
  next => exact exact_error _ _

/-- A numeric slot gives an integer its own type, and checks the range of an Integer. -/
theorem coerceIntoSlot_numeric [CaseMapping] {slot v : Value} {n : Int64} {number : Option Int} (capacity : Option Nat)
    (numeric : slot.isNumeric = true) (isInt : v.asInt = some n) (same : number = some n.toInt) :
    Exact (coerceIntoSlot slot v capacity) number := by
  have cases_ : v = .integer n ∨ v = .bigInteger n := by
    cases v with
    | integer m => exact .inl (congrArg _ (Option.some.inj isInt))
    | bigInteger m => exact .inr (congrArg _ (Option.some.inj isInt))
    | _ => cases isInt
  cases slot with
  | integer m => rcases cases_ with rfl | rfl <;> exact inInt32Range_exact same _
  | bigInteger m => rcases cases_ with rfl | rfl <;> exact exact_ok.mpr same
  | decimal d => rcases cases_ with rfl | rfl <;> exact exact_ok.mpr trivial
  | _ => cases numeric

/-- The place gives an integer the type of its slot. -/
def ArgumentPlace.Converts (place : ArgumentPlace) (target : Value) : Prop :=
  ∃ slot, place.slot target = some slot ∧ slot.isNumeric = true

/-- The place of an Integer converts what is written to it, or the text spells an Integer or nothing that is read. -/
def EvaluateFits (place : ArgumentPlace) (target : Value) (raw : String) : Prop :=
  (∃ m, target = .integer m) →
    place.Converts target ∨ ∀ n, exactEvaluate target raw = some n → InI64 n → InI32 n

section Evaluation

variable [CaseMapping] [DecimalSyntax]

theorem evaluation_some {target v : Value} {raw : String} (statement : Bool) (place : ArgumentPlace)
    (read : evaluateText target raw = .ok (some v)) :
    evaluation statement place target raw = writeVarArgument place target v := by
  unfold evaluation evaluateInto builtinEvaluate
  dsimp only
  rw [read]
  change Except.map _ (do return some (← writeVarArgument place target v)) = _
  cases writeVarArgument place target v with
  | error e => rfl
  | ok w => rfl

theorem evaluation_none {target : Value} {raw : String} {number : Option Int} (statement : Bool) (place : ArgumentPlace)
    (unread : evaluateText target raw = .ok none) : Exact (evaluation statement place target raw) number := by
  unfold evaluation evaluateInto builtinEvaluate
  dsimp only
  rw [unread]
  cases statement with
  | true => exact exact_error _ _
  | false => exact exact_ok.mpr trivial

theorem evaluation_error {target : Value} {raw e : String} {number : Option Int} (statement : Bool) (place : ArgumentPlace)
    (refused : evaluateText target raw = .error e) : Exact (evaluation statement place target raw) number := by
  unfold evaluation evaluateInto builtinEvaluate
  dsimp only
  rw [refused]
  exact exact_error _ _

omit [DecimalSyntax] in
theorem writeVarArgument_exact {target v : Value} {number : Option Int} (place : ArgumentPlace)
    (carries : place.Converts target ∨ Carries number v) (same : ∀ n, v.asInt = some n → number = some n.toInt) :
    Exact (writeVarArgument place target v) number := by
  unfold writeVarArgument
  cases held : place.slot target with
  | none =>
      rcases carries with ⟨slot, has, -⟩ | carries
      · rw [held] at has
        cases has
      · exact exact_ok.mpr carries
  | some slot =>
      dsimp only
      cases isInt : v.asInt with
      | none => exact coerceIntoSlot_other number _ isInt
      | some n =>
          by_cases numeric : slot.isNumeric = true
          · exact coerceIntoSlot_numeric _ numeric isInt (same n isInt)
          · have other : slot.isNumeric = false := by simpa using numeric
            have carries : Carries number v := by
              rcases carries with ⟨slot, has, isNumeric⟩ | carries
              · rw [held] at has
                cases has
                exact absurd isNumeric numeric
              · exact carries
            cases v with
            | integer m =>
                rw [coerceIntoSlot_integer m _ other]
                exact exact_ok.mpr carries
            | bigInteger m =>
                rw [coerceIntoSlot_bigInteger m _ other]
                exact exact_ok.mpr carries
            | _ => cases isInt

omit [DecimalSyntax] in
theorem writeVarArgument_kept {target : Value} (n : Int64) {place : ArgumentPlace} (keeps : ¬ place.Converts target) :
    writeVarArgument place target (.integer n) = .ok (.integer n) := by
  unfold writeVarArgument
  cases held : place.slot target with
  | none => rfl
  | some slot =>
      have other : slot.isNumeric = false := by
        by_contra numeric
        exact keeps ⟨slot, held, by simpa using numeric⟩
      exact coerceIntoSlot_integer n _ other

theorem evaluation_integer_iff (statement : Bool) (place : ArgumentPlace) (m : Int64) (raw : String) :
    Exact (evaluation statement place (.integer m) raw) (spelledInt (dropCommas (trim raw))) ↔
      (place.Converts (.integer m) ∨ ∀ i, spelledInt (dropCommas (trim raw)) = some i → InI64 i → InI32 i) := by
  have text : evaluateText (.integer m) raw = .ok ((parseI64 (dropCommas (trim raw))).map .integer) := rfl
  by_cases read : ∃ i, spelledInt (dropCommas (trim raw)) = some i ∧ InI64 i
  · obtain ⟨i, spelled, fits⟩ := read
    rw [parseI64_some spelled fits] at text
    rw [evaluation_some statement place text, spelled]
    constructor
    · intro exact_
      by_cases converts : place.Converts (.integer m)
      · exact .inl converts
      · right
        intro j same _
        have carries := exact_ _ (writeVarArgument_kept (Int64.ofInt i) converts)
        rw [Carries, fits.toInt_ofInt] at carries
        rw [← Option.some.inj same]
        exact carries.1
    · intro condition
      apply writeVarArgument_exact
      · refine condition.imp_right fun inside => ?_
        rw [Carries, fits.toInt_ofInt]
        exact ⟨inside i rfl fits, rfl⟩
      · intro n isInt
        cases isInt
        rw [fits.toInt_ofInt]
  · have unread : ∀ i, spelledInt (dropCommas (trim raw)) = some i → ¬ InI64 i := fun i spelled fits => read ⟨i, spelled, fits⟩
    rw [parseI64_none unread] at text
    exact ⟨fun _ => .inr fun i spelled fits => absurd fits (unread i spelled), fun _ => evaluation_none statement place text⟩

theorem evaluation_exact {target : Value} {raw : String} {number : Option Int} (statement : Bool) (place : ArgumentPlace)
    (carries : ∀ v, evaluateText target raw = .ok (some v) →
      Carries number v ∧ ∀ n, v.asInt = some n → number = some n.toInt) :
    Exact (evaluation statement place target raw) number := by
  cases read : evaluateText target raw with
  | error e => exact evaluation_error statement place read
  | ok found =>
      cases found with
      | none => exact evaluation_none statement place read
      | some v =>
          rw [evaluation_some statement place read]
          exact writeVarArgument_exact place (.inr (carries v read).1) (carries v read).2

/-- Nothing but an Integer can be left outside of its range. -/
theorem evaluation_exact_iff (statement : Bool) (place : ArgumentPlace) (target : Value) (raw : String) :
    Exact (evaluation statement place target raw) (exactEvaluate target raw) ↔ EvaluateFits place target raw := by
  by_cases isInteger : ∃ m, target = .integer m
  · obtain ⟨m, rfl⟩ := isInteger
    have fits : EvaluateFits place (.integer m) raw ↔
        (place.Converts (.integer m) ∨ ∀ i, spelledInt (dropCommas (trim raw)) = some i → InI64 i → InI32 i) :=
      ⟨fun every => every ⟨m, rfl⟩, fun condition _ => condition⟩
    rw [fits]
    exact evaluation_integer_iff statement place m raw
  · refine ⟨fun _ integer => absurd integer isInteger, fun _ => ?_⟩
    apply evaluation_exact
    intro v read
    cases target with
    | integer m => exact absurd ⟨m, rfl⟩ isInteger
    | bigInteger m =>
        obtain ⟨n, parsed, rfl⟩ := Option.map_eq_some_iff.mp (Except.ok.inj read)
        have spelled := parseI64_toInt parsed
        refine ⟨spelled, ?_⟩
        intro k isInt
        cases isInt
        exact spelled
    | decimal d =>
        obtain ⟨n, parsed, rfl⟩ := Option.map_eq_some_iff.mp (Except.ok.inj read)
        exact ⟨trivial, by simp [Value.asInt]⟩
    | boolean b =>
        obtain ⟨n, parsed, rfl⟩ := Option.map_eq_some_iff.mp (Except.ok.inj read)
        exact ⟨trivial, by simp [Value.asInt]⟩
    | text t =>
        cases Except.ok.inj read
        exact ⟨trivial, by simp [Value.asInt]⟩
    | code t =>
        cases Except.ok.inj read
        exact ⟨trivial, by simp [Value.asInt]⟩
    | _ => cases read

end Evaluation

/-! ## JSON -/

/-- The integer that a JSON number is. -/
def exactJson : Option Scalar → Option Int
  | none => some 0
  | some (.number d) => if d.mantissa % 10 ^ d.scale = 0 then some (d.mantissa / 10 ^ d.scale) else none
  | some _ => none

/-- `AsInteger` and `AsBigInteger` of a value, and the getters of the same types, which take 0 for a missing key. -/
def jsonInteger [JsonSyntax] [CaseMapping] (found : Option Scalar) (big : Bool) : Except String Value :=
  let conversion : Conversion := if big then .bigInteger else .integer
  match found with
  | none => .ok (defaultForGetter conversion)
  | some scalar => scalarAs scalar conversion

/-- An Integer is asked of a number in its range, or of none that is read. -/
def JsonFits (found : Option Scalar) (big : Bool) : Prop :=
  big = true ∨ ∀ n, exactJson found = some n → InI64 n → InI32 n

theorem wholeNumber_eq (d : Decimal) : wholeNumber d = (exactJson (some (.number d))).bind i64OfInt := by
  unfold wholeNumber exactJson i64OfInt
  dsimp only
  by_cases whole : d.mantissa % 10 ^ d.scale = 0
  · rw [if_pos whole, Option.bind_some]
    have same : (d.mantissa % 10 ^ d.scale = 0 ∧ -2 ^ 63 ≤ d.mantissa / 10 ^ d.scale ∧ d.mantissa / 10 ^ d.scale < 2 ^ 63) ↔
        (-9223372036854775808 ≤ d.mantissa / 10 ^ d.scale ∧ d.mantissa / 10 ^ d.scale ≤ 9223372036854775807) := by
      generalize d.mantissa / 10 ^ d.scale = n
      simp only [whole, true_and]
      omega
    simp only [same]
  · rw [if_neg whole, if_neg (fun both => whole both.1)]
    rfl

theorem jsonInteger_number [JsonSyntax] [CaseMapping] (d : Decimal) (big : Bool) :
    jsonInteger (some (.number d)) big =
      ((match wholeNumber d with
        | some n => .ok n
        | none => .error s!"the JSON value {JsonSyntax.displayNumber d} is not an Integer" : Except String Int64).map
          (if big then Value.bigInteger else Value.integer)) := by
  cases big <;> rfl

theorem jsonInteger_number_iff [JsonSyntax] [CaseMapping] (d : Decimal) (big : Bool) :
    Exact (jsonInteger (some (.number d)) big) (exactJson (some (.number d))) ↔ JsonFits (some (.number d)) big := by
  rw [jsonInteger_number]
  by_cases read : ∃ i, exactJson (some (.number d)) = some i ∧ InI64 i
  · obtain ⟨i, is, fits⟩ := read
    have whole : wholeNumber d = some (Int64.ofInt i) := by
      rw [wholeNumber_eq, is]
      exact if_pos fits
    rw [whole, is]
    dsimp only [Except.map]
    rw [exact_ok]
    cases big with
    | true =>
        simp only [if_true, Carries, fits.toInt_ofInt]
        exact ⟨fun _ => .inl rfl, fun _ => trivial⟩
    | false =>
        simp only [Bool.false_eq_true, if_false, Carries, fits.toInt_ofInt]
        unfold JsonFits
        rw [is]
        simp [fits]
  · have whole : wholeNumber d = none := by
      rw [wholeNumber_eq]
      cases is : exactJson (some (.number d)) with
      | none => rfl
      | some i => exact if_neg (fun fits => read ⟨i, is, fits⟩)
    rw [whole]
    exact ⟨fun _ => .inr fun i is fits => absurd ⟨i, is, fits⟩ read, fun _ => exact_error _ _⟩

theorem jsonInteger_exact_iff [JsonSyntax] [CaseMapping] (found : Option Scalar) (big : Bool) :
    Exact (jsonInteger found big) (exactJson found) ↔ JsonFits found big := by
  have refused {scalar : Scalar} {e : String} (other : scalarNumber scalar = .error e) (number : exactJson (some scalar) = none) :
      Exact (jsonInteger (some scalar) big) (exactJson (some scalar)) ↔ JsonFits (some scalar) big := by
    have answer : jsonInteger (some scalar) big = .error e := by
      cases big <;> simp [jsonInteger, scalarAs, scalarWhole, other, bind, Except.bind, Except.map]
    rw [answer, number]
    refine ⟨fun _ => .inr ?_, fun _ => exact_error _ _⟩
    rw [number]
    intro n impossible
    cases impossible
  cases found with
  | none =>
      have fits : JsonFits none big := by
        refine .inr ?_
        intro n same _
        cases same
        decide
      refine ⟨fun _ => fits, fun _ => ?_⟩
      cases big with
      | true => exact exact_ok.mpr rfl
      | false => exact exact_ok.mpr ⟨by decide, rfl⟩
  | some scalar =>
      cases scalar with
      | number d => exact jsonInteger_number_iff d big
      | _ => exact refused rfl rfl

/-! ## Arguments -/

def ArgumentFits (val : Value) (typeName : String) : Prop :=
  ∀ n, val = .bigInteger n → eqIgnoreAsciiCase typeName "integer" = true → InI32 n.toInt

theorem coerceIntWidth_exact_iff {val : Value} (typeName : String) (valIn : InRange val) :
    Carries (val.asInt.map Int64.toInt) (coerceIntWidth val typeName) ↔ ArgumentFits val typeName := by
  unfold ArgumentFits
  cases val with
  | integer n =>
      have inside := valIn n rfl
      unfold coerceIntWidth
      dsimp only
      split
      · exact ⟨fun _ m impossible => (by cases impossible), fun _ => rfl⟩
      · exact ⟨fun _ m impossible => (by cases impossible), fun _ => ⟨inside, rfl⟩⟩
  | bigInteger n =>
      unfold coerceIntWidth
      dsimp only
      by_cases narrow : eqIgnoreAsciiCase typeName "integer" = true
      · rw [if_pos narrow]
        constructor
        · rintro ⟨inside, -⟩ m same -
          cases same
          exact inside
        · intro fits
          exact ⟨fits n rfl narrow, rfl⟩
      · rw [if_neg narrow]
        exact ⟨fun _ m _ isNarrow => absurd isNarrow narrow, fun _ => rfl⟩
  | _ => exact ⟨fun _ m impossible => (by cases impossible), fun _ => trivial⟩

/-! ## Totals -/

/-- The integers among the cells. -/
def cellInts (cells : List Value) : List Int := (cells.filterMap Value.asInt).map Int64.toInt

/-- A decimal among the cells makes the total a decimal, and a partial sum outside of 64 bits an error. -/
def TotalFits (cells : List Value) : Prop :=
  (∃ d, .decimal d ∈ cells) ∨ (∃ k, ¬ InI64 ((cellInts cells).take k).sum) ∨ InI32 (cellInts cells).sum

theorem cellInts_cons (cell : Value) (cells : List Value) :
    cellInts (cell :: cells) = (cell.asInt.map Int64.toInt).toList ++ cellInts cells := by
  unfold cellInts
  cases isInt : cell.asInt with
  | none => rw [List.filterMap_cons_none isInt]; rfl
  | some n => rw [List.filterMap_cons_some isInt]; rfl

section Totals

variable [DecimalArithmetic]

open DecimalArithmetic

theorem add_integer {sum : CellSum} {cell : Value} {n : Int64} (isInt : cell.asInt = some n) :
    sum.add cell = do
      let int ← orOverflow "Sum" (checkedAddI64 sum.int n)
      let dec ← orOverflow "Sum" (checkedAdd sum.dec (.ofInt64 n))
      return { sum with int, dec } := by
  cases cell with
  | integer m => cases isInt; rfl
  | bigInteger m => cases isInt; rfl
  | _ => cases isInt

theorem add_other {sum : CellSum} {cell : Value} (notInt : cell.asInt = none) (notDecimal : ∀ d, cell ≠ .decimal d) :
    sum.add cell = .ok sum := by
  cases cell with
  | integer m => cases notInt
  | bigInteger m => cases notInt
  | decimal d => exact absurd rfl (notDecimal d)
  | _ => rfl

/-- A sum without decimals that comes to an end is exact, and so were the partial ones. -/
theorem fold_exact {cells : List Value} (noDecimal : ∀ d, .decimal d ∉ cells) {start total : CellSum}
    (summed : cells.foldlM CellSum.add start = .ok total) :
    total.int.toInt = start.int.toInt + (cellInts cells).sum ∧ total.anyDecimal = start.anyDecimal ∧
      ∀ k, InI64 (start.int.toInt + ((cellInts cells).take k).sum) := by
  induction cells generalizing start with
  | nil =>
      cases summed
      simp [cellInts, toInt_inI64]
  | cons cell cells ih =>
      rw [List.foldlM_cons] at summed
      have noneLater : ∀ d, .decimal d ∉ cells := fun d member => noDecimal d (List.mem_cons_of_mem _ member)
      have notDecimal : ∀ d, cell ≠ .decimal d := fun d same => noDecimal d (same ▸ List.mem_cons_self)
      rw [cellInts_cons]
      cases isInt : cell.asInt with
      | none =>
          rw [add_other isInt notDecimal] at summed
          exact ih noneLater summed
      | some n =>
          rw [add_integer isInt] at summed
          cases int : checkedAddI64 start.int n with
          | none =>
              rw [int] at summed
              cases summed
          | some m =>
              rw [int] at summed
              cases dec : checkedAdd start.dec (.ofInt64 n) with
              | none =>
                  rw [dec] at summed
                  cases summed
              | some d =>
                  rw [dec] at summed
                  obtain ⟨sum, any, fits⟩ := ih noneLater summed
                  have added : m.toInt = start.int.toInt + n.toInt := i64OfInt_some int
                  rw [added] at sum fits
                  refine ⟨?_, any, ?_⟩
                  · simp only [Option.map_some, Option.toList_some, List.singleton_append, List.sum_cons]
                    rw [sum]
                    ring
                  · intro k
                    cases k with
                    | zero => simpa using toInt_inI64 start.int
                    | succ k =>
                        simp only [Option.map_some, Option.toList_some, List.singleton_append, List.take_succ_cons,
                          List.sum_cons]
                        rw [← Int.add_assoc]
                        exact fits k

theorem add_decimal {sum next : CellSum} {cell : Value} (added : sum.add cell = .ok next)
    (found : sum.anyDecimal = true ∨ ∃ d, cell = .decimal d) : next.anyDecimal = true := by
  cases isInt : cell.asInt with
  | some n =>
      have before : sum.anyDecimal = true := by
        rcases found with before | ⟨d, rfl⟩
        · exact before
        · cases isInt
      rw [add_integer isInt] at added
      cases int : checkedAddI64 sum.int n with
      | none =>
          rw [int] at added
          cases added
      | some m =>
          rw [int] at added
          cases dec : checkedAdd sum.dec (.ofInt64 n) with
          | none =>
              rw [dec] at added
              cases added
          | some d =>
              rw [dec] at added
              cases added
              exact before
  | none =>
      by_cases decimal : ∃ d, cell = .decimal d
      · obtain ⟨d, rfl⟩ := decimal
        cases dec : checkedAdd sum.dec d with
        | none =>
            rw [CellSum.add, dec] at added
            cases added
        | some e =>
            rw [CellSum.add, dec] at added
            cases added
            rfl
      · rw [add_other isInt (fun d same => decimal ⟨d, same⟩)] at added
        cases added
        exact found.resolve_right decimal

/-- A decimal among the cells leaves its mark on the sum. -/
theorem fold_decimal {cells : List Value} {start total : CellSum} (summed : cells.foldlM CellSum.add start = .ok total)
    (found : start.anyDecimal = true ∨ ∃ d, .decimal d ∈ cells) : total.anyDecimal = true := by
  induction cells generalizing start with
  | nil =>
      cases summed
      simpa using found
  | cons cell cells ih =>
      rw [List.foldlM_cons] at summed
      cases added : start.add cell with
      | error e =>
          rw [added] at summed
          cases summed
      | ok next =>
          rw [added] at summed
          apply ih summed
          rcases found with before | ⟨d, member⟩
          · exact .inl (add_decimal added (.inl before))
          · rcases List.mem_cons.mp member with same | later
            · exact .inl (add_decimal added (.inr ⟨d, same.symm⟩))
            · exact .inr ⟨d, later⟩

variable [LawfulDecimalArithmetic]

/-- The sum of integers as a decimal is the sum as an integer. -/
def WholeSum (sum : CellSum) : Prop := sum.dec.units = sum.int.toInt * 10 ^ 28

theorem add_whole {sum : CellSum} {cell : Value} {n : Int64} (isInt : cell.asInt = some n) (whole : WholeSum sum)
    (fits : InI64 (sum.int.toInt + n.toInt)) :
    ∃ next, sum.add cell = .ok next ∧ WholeSum next ∧ next.int.toInt = sum.int.toInt + n.toInt := by
  have int : checkedAddI64 sum.int n = some (.ofInt (sum.int.toInt + n.toInt)) := if_pos fits
  have value := fits.toInt_ofInt
  have units : (Decimal.ofInt64 (.ofInt (sum.int.toInt + n.toInt))).units = sum.dec.units + (Decimal.ofInt64 n).units := by
    rw [whole]
    change (Int64.ofInt (sum.int.toInt + n.toInt)).toInt * 10 ^ 28 = _ + n.toInt * 10 ^ 28
    rw [value]
    ring
  obtain ⟨d, dec, same⟩ := Option.map_eq_some_iff.mp (LawfulDecimalArithmetic.add_exact _ _ _ units)
  refine ⟨{ sum with int := .ofInt (sum.int.toInt + n.toInt), dec := d }, ?_, ?_, value⟩
  · rw [add_integer isInt, int, dec]
    rfl
  · exact same

/-- Without decimals and with partial sums of 64 bits the sum comes to an end. -/
theorem fold_total {cells : List Value} (noDecimal : ∀ d, .decimal d ∉ cells) {start : CellSum} (whole : WholeSum start)
    (fits : ∀ k, InI64 (start.int.toInt + ((cellInts cells).take k).sum)) :
    ∃ total, cells.foldlM CellSum.add start = .ok total := by
  induction cells generalizing start with
  | nil => exact ⟨start, rfl⟩
  | cons cell cells ih =>
      have noneLater : ∀ d, .decimal d ∉ cells := fun d member => noDecimal d (List.mem_cons_of_mem _ member)
      have notDecimal : ∀ d, cell ≠ .decimal d := fun d same => noDecimal d (same ▸ List.mem_cons_self)
      rw [List.foldlM_cons]
      rw [cellInts_cons] at fits
      cases isInt : cell.asInt with
      | none =>
          rw [isInt] at fits
          rw [add_other isInt notDecimal]
          exact ih noneLater whole fits
      | some n =>
          simp only [isInt, Option.map_some, Option.toList_some, List.singleton_append] at fits
          have one := fits 1
          rw [List.take_succ_cons, List.take_zero, List.sum_cons, List.sum_nil, Int.add_zero] at one
          obtain ⟨next, added, stillWhole, value⟩ := add_whole isInt whole one
          rw [added]
          apply ih noneLater stillWhole
          intro k
          have here := fits (k + 1)
          rw [List.take_succ_cons, List.sum_cons, ← Int.add_assoc] at here
          rwa [value]

theorem sumCells_exact_iff (cells : List Value) :
    Exact (sumCells cells) (some (cellInts cells).sum) ↔ TotalFits cells := by
  unfold sumCells TotalFits
  by_cases decimals : ∃ d, .decimal d ∈ cells
  · refine ⟨fun _ => .inl decimals, fun _ => ?_⟩
    cases summed : cells.foldlM CellSum.add .start with
    | error e => exact exact_error _ _
    | ok total =>
        have any := fold_decimal summed (.inr decimals)
        refine exact_ok.mpr ?_
        rw [CellSum.total, if_pos any]
        trivial
  · have noDecimal : ∀ d, .decimal d ∉ cells := fun d member => decimals ⟨d, member⟩
    have start : CellSum.start.int.toInt = 0 := rfl
    by_cases partials : ∀ k, InI64 ((cellInts cells).take k).sum
    · have whole : WholeSum .start := rfl
      obtain ⟨total, summed⟩ := fold_total noDecimal whole (by simpa [start] using partials)
      obtain ⟨value, any, -⟩ := fold_exact noDecimal summed
      have integer : total.total = .integer total.int := by
        rw [CellSum.total, any]
        rfl
      rw [start, Int.zero_add] at value
      rw [summed]
      change Exact (.ok total.total) _ ↔ _
      rw [exact_ok, integer, Carries, value]
      constructor
      · exact fun carries => .inr (.inr carries.1)
      · rintro (decimal | ⟨k, outside⟩ | inside)
        · exact absurd decimal decimals
        · exact absurd (partials k) outside
        · exact ⟨inside, rfl⟩
    · refine ⟨fun _ => .inr (.inl (not_forall.mp partials)), fun _ => ?_⟩
      cases summed : cells.foldlM CellSum.add .start with
      | error e => exact exact_error _ _
      | ok total =>
          obtain ⟨-, -, fits⟩ := fold_exact noDecimal summed
          exact absurd (by simpa [start] using fits) partials

end Totals

/-! ## Totals of tables -/

/-- The cells that `CalcSums` adds. -/
def calcSumCells [CaseMapping] [DecimalSyntax] (table : MockRecord) (view : RecordView) (field : FieldNo) : List Value :=
  (table.rows.values.filter (rowMatchesFilters view.filters)).filterMap (·.get? field)

def flowCells [CaseMapping] [DecimalSyntax] (referenced : MockRecord) (conditions : List (FieldNo × FlowFilter))
    (target : Option FieldNo) : List Value :=
  (referenced.rows.values.filter (selectsRow conditions)).filterMap fun row => target.bind row.get?

def declaredDecimal (table : MockRecord) (field : FieldNo) : Bool :=
  table.fieldDefaults.get? field matches some (.decimal _)

def bufferCell (view : RecordView) (field : FieldNo) : Value := (view.current.get? field).getD .empty

theorem bufferCell_fieldSetIn (view : RecordView) (field : FieldNo) (value : Value) :
    bufferCell (MockRecord.fieldSetIn view field value) field = value := by
  rw [bufferCell, MockRecord.fieldSetIn, Library.OrderedMap.get?_insert_self]
  rfl

theorem exact_mapError {ε ε' : Type} (describe : ε → ε') (result : Except ε Value) (number : Option Int) :
    Exact (result.mapError describe) number ↔ Exact result number := by
  cases result with
  | error e => exact ⟨fun _ => exact_error _ _, fun _ => exact_error _ _⟩
  | ok v => exact exact_ok.trans exact_ok.symm

/-- What is written into the buffer is the total. -/
theorem exact_buffer {ε : Type} (total : Except ε Value) (view : RecordView) (field : FieldNo) (number : Option Int) :
    Exact ((total.map fun value => MockRecord.fieldSetIn view field value).map (bufferCell · field)) number ↔
      Exact total number := by
  cases total with
  | error e => exact ⟨fun _ => exact_error _ _, fun _ => exact_error _ _⟩
  | ok v =>
      have cell := bufferCell_fieldSetIn view field v
      refine exact_ok.trans ?_
      dsimp only
      rw [cell]
      exact exact_ok.symm

/-- A field that is declared Decimal has a Decimal total. -/
def promote (declared : Bool) (total : CellSum) : Value :=
  if declared && !total.anyDecimal then .decimal (.ofInt64 total.int) else total.total

section TableTotals

variable [DecimalArithmetic] [LawfulDecimalArithmetic] [CaseMapping] [DecimalSyntax]

theorem calcSumIn_exact_iff (table : MockRecord) (view : RecordView) (field : FieldNo) :
    Exact (table.calcSumIn view field) (some (cellInts (calcSumCells table view field)).sum) ↔
      (declaredDecimal table field = true ∨ TotalFits (calcSumCells table view field)) := by
  have promoted : table.calcSumIn view field =
      ((calcSumCells table view field).foldlM CellSum.add .start).map (promote (declaredDecimal table field)) := by
    unfold MockRecord.calcSumIn
    change (sumCells (calcSumCells table view field) >>= _) = _
    unfold sumCells
    cases (calcSumCells table view field).foldlM CellSum.add .start with
    | error e => rfl
    | ok total =>
        simp only [bind, Except.bind, Except.map]
        unfold promote CellSum.total declaredDecimal
        cases total.anyDecimal with
        | true => simp [pure, Except.pure]
        | false =>
            simp only [Bool.false_eq_true, if_false, Bool.not_false, Bool.and_true]
            split <;> simp_all [pure, Except.pure]
  rw [promoted]
  by_cases declared : declaredDecimal table field = true
  · refine ⟨fun _ => .inl declared, fun _ => ?_⟩
    cases (calcSumCells table view field).foldlM CellSum.add .start with
    | error e => exact exact_error _ _
    | ok total =>
        refine exact_ok.mpr ?_
        rw [declared, promote, CellSum.total]
        cases total.anyDecimal <;> trivial
  · have plain : promote (declaredDecimal table field) = CellSum.total := by
      funext total
      rw [promote, eq_false_of_ne_true declared]
      rfl
    rw [plain, or_iff_right declared]
    exact sumCells_exact_iff (calcSumCells table view field)

theorem flowSum_exact_iff (referenced : MockRecord) (conditions : List (FieldNo × FlowFilter)) (target : Option FieldNo) :
    Exact (referenced.calcFlow conditions target .sum) (some (cellInts (flowCells referenced conditions target)).sum) ↔
      TotalFits (flowCells referenced conditions target) :=
  sumCells_exact_iff (flowCells referenced conditions target)

end TableTotals

/-! ## The operations -/

inductive IntegerOperation where
  | binary (op : BinaryOp) (left right : Value)
  | negation (operand : Value)
  | absolute (operand : Value)
  | extreme (maximum : Bool) (left right : Value)
  | evaluate (statement : Bool) (place : ArgumentPlace) (target : Value) (raw : String)
  | json (found : Option Scalar) (big : Bool)
  | argument (val : Value) (typeName : String)
  | calcSums (table : MockRecord) (view : RecordView) (field : FieldNo)
  | flowSum (referenced : MockRecord) (conditions : List (FieldNo × FlowFilter)) (target : Option FieldNo)
      (view : RecordView) (field : FieldNo)

namespace IntegerOperation

section Operations

variable [DecimalArithmetic] [DecimalProducts] [CaseMapping] [DecimalSyntax] [JsonSyntax]

/-- The value that the operation leaves, in the argument of `Evaluate` and in the buffer for the totals. -/
def result : IntegerOperation → Except String Value
  | binary op left right => applyBinary op left right
  | negation operand => applyUnary .minus operand
  | absolute operand => builtinAbs [operand]
  | extreme maximum left right => builtinExtreme [left, right] maximum
  | evaluate statement place target raw => evaluation statement place target raw
  | json found big => jsonInteger found big
  | argument val typeName => .ok (coerceIntWidth val typeName)
  | calcSums table view field =>
      ((calcSumsInto table view field).map (bufferCell · field)).mapError RecordError.message
  | flowSum referenced conditions target view field =>
      ((calcFieldInto referenced conditions target .sum view field).map (bufferCell · field)).mapError RecordError.message

omit [DecimalArithmetic] [DecimalProducts] [JsonSyntax] in
/-- The number it stands for. -/
def number : IntegerOperation → Option Int
  | binary op left right => exactBinary op left right
  | negation operand => (intOf operand).map fun n => -n
  | absolute operand => operand.asInt.map fun n => (n.toInt.natAbs : Int)
  | extreme maximum left right => exactExtreme maximum left right
  | evaluate _ _ target raw => exactEvaluate target raw
  | json found _ => exactJson found
  | argument val _ => val.asInt.map Int64.toInt
  | calcSums table view field => some (cellInts (calcSumCells table view field)).sum
  | flowSum referenced conditions target _ _ => some (cellInts (flowCells referenced conditions target)).sum

omit [DecimalArithmetic] [DecimalProducts] [CaseMapping] [DecimalSyntax] [JsonSyntax] in
def operands : IntegerOperation → List Value
  | binary _ left right | extreme _ left right => [left, right]
  | negation operand | absolute operand => [operand]
  | evaluate _ _ target _ => [target]
  | argument val _ => [val]
  | json .. | calcSums .. | flowSum .. => []

omit [DecimalArithmetic] [DecimalProducts] [JsonSyntax] in
/-- What the operations that make an Integer without a check are asked for. -/
def Fits : IntegerOperation → Prop
  | binary .. | negation _ | absolute _ | extreme .. => True
  | evaluate _ place target raw => EvaluateFits place target raw
  | json found big => JsonFits found big
  | argument val typeName => ArgumentFits val typeName
  | calcSums table view field => declaredDecimal table field = true ∨ TotalFits (calcSumCells table view field)
  | flowSum referenced conditions target _ _ => TotalFits (flowCells referenced conditions target)

variable [LawfulDecimalArithmetic]

/-- An operation on values whose Integers are in their range makes an exact Integer in the range or reports an error, if and
only if it fits. -/
theorem result_exact_iff (operation : IntegerOperation) (operandsIn : ∀ v ∈ operation.operands, InRange v) :
    Exact operation.result operation.number ↔ operation.Fits := by
  cases operation with
  | binary op left right => exact iff_of_true (applyBinary_exact op left right) trivial
  | negation operand => exact iff_of_true (applyUnary_exact operand) trivial
  | absolute operand => exact iff_of_true (builtinAbs_exact operand) trivial
  | extreme maximum left right =>
      have leftIn := operandsIn left (by simp [operands])
      have rightIn := operandsIn right (by simp [operands])
      exact iff_of_true (builtinExtreme_exact maximum leftIn rightIn) trivial
  | evaluate statement place target raw => exact evaluation_exact_iff statement place target raw
  | json found big => exact jsonInteger_exact_iff found big
  | argument val typeName =>
      exact exact_ok.trans (coerceIntWidth_exact_iff typeName (operandsIn val (by simp [operands])))
  | calcSums table view field =>
      exact (exact_mapError _ _ _).trans ((exact_buffer _ _ _ _).trans (calcSumIn_exact_iff table view field))
  | flowSum referenced conditions target view field =>
      exact (exact_mapError _ _ _).trans ((exact_buffer _ _ _ _).trans (flowSum_exact_iff referenced conditions target))

end Operations

end IntegerOperation

section Examples

/-- Differences and products that are decimals. -/
@[reducible] def DecimalProducts.plain : DecimalProducts where
  checkedSub a b := Decimal.ofUnits (a.units - b.units)
  checkedMul a b := if a.units * b.units % 10 ^ 28 ≠ 0 then none else Decimal.ofUnits (a.units * b.units / 10 ^ 28)

/-- JSON texts that are one number. -/
@[reducible] def JsonSyntax.numbers : JsonSyntax where
  parseJson text := if (DecimalSyntax.plain.parseDecimal text).isSome then .ok (.number text) else .error "not a number"
  parseNumber := DecimalSyntax.plain.parseDecimal
  numberText d := d.normalize.render
  displayNumber := Decimal.render
  debugScalar
    | .null => "Null"
    | .bool b => if b then "Bool(true)" else "Bool(false)"
    | .number d => "Number(" ++ d.render ++ ")"
    | .text t => "Text(" ++ Json.writeString t ++ ")"
  renderXml value := value.typeName
  parsePath text := .error ("the JSON path " ++ text ++ " is not supported")

attribute [local instance] CaseMapping.latin1 DecimalSyntax.plain DecimalArithmetic.plain lawfulDecimalArithmetic_plain
  DecimalProducts.plain JsonSyntax.numbers

theorem result_exact_iff_argument :
    Exact (IntegerOperation.argument (.bigInteger 7) "Integer").result (IntegerOperation.argument (.bigInteger 7) "Integer").number ↔
      (IntegerOperation.argument (.bigInteger 7) "Integer").Fits :=
  IntegerOperation.result_exact_iff (.argument (.bigInteger 7) "Integer") (by simp [IntegerOperation.operands, InRange])

/-- Three billion passes as an Integer argument, as a JSON Integer and through `Evaluate`, and the total of a field can be
outside of the range. -/
theorem integers_out_of_range :
    ¬ Exact (IntegerOperation.argument (.bigInteger 3000000000) "Integer").result (some 3000000000) ∧
    ¬ Exact (IntegerOperation.json (some (.number (.ofInt64 3000000000))) false).result (some 3000000000) ∧
    ¬ Exact (IntegerOperation.evaluate true .variable (.integer 0) "3000000000").result (some 3000000000) ∧
    ¬ Exact (sumCells [.integer 2147483647, .integer 1]) (some 2147483648) := by
  refine ⟨fun exact_ => ?_, fun exact_ => ?_, fun exact_ => ?_, fun exact_ => ?_⟩
  · exact absurd (exact_ (.integer 3000000000) rfl).1 (by decide)
  · exact absurd (exact_ (.integer 3000000000) (by rfl)).1 (by decide)
  · exact absurd (exact_ (.integer 3000000000) (by rfl)).1 (by decide)
  · exact absurd (exact_ (.integer 2147483648) (by rfl)).1 (by decide)

end Examples

end AlLanguage.Runtime
