import AlLanguage.Runtime.Decimal

/-!
# Runtime values

`Value` and its order. Two values are equal for the runtime when they compare equal, which is coarser
than being the same term: `Integer 5` equals `BigInteger 5`, and `1.0` equals `1.00`.
-/

namespace AlLanguage.Runtime

/-- A record handle. -/
structure RecordValue where
  tableName : String
  tableId : Int
  handle : Option UInt64
  temporary : Bool
deriving DecidableEq

structure ErrorInfo where
  message : String
  errorType : Option String
  source : Option String
deriving DecidableEq

inductive Value where
  | null
  | empty
  | integer (n : Int64)
  | decimal (d : Decimal)
  | boolean (b : Bool)
  | char (c : Char)
  | text (s : String)
  | code (s : String)
  | date (d : Int64)
  | time (t : Int64)
  | dateTime (dt : Int64)
  | duration (n : Int64)
  | guid (s : String)
  | option (typeName member : String) (ordinal : Int64)
  | record (r : RecordValue)
  | recordRef (r : RecordValue)
  | variant (inner : Value)
  | array (items : List Value)
  | blob (bytes : List UInt8)
  | errorInfo (e : ErrorInfo)
  | codeunit (objectName : String) (inst : Option UInt64)
  | bigInteger (n : Int64)
  | range (start stop : Value)

namespace Value

instance : Inhabited Value := ⟨.null⟩

/-- Integer and BigInteger are one numeric class. -/
def variantIndex : Value → Nat
  | null => 0
  | empty => 1
  | integer _ | bigInteger _ => 2
  | decimal _ => 3
  | boolean _ => 4
  | char _ => 5
  | text _ => 6
  | code _ => 7
  | date _ => 8
  | time _ => 9
  | dateTime _ => 10
  | duration _ => 11
  | guid _ => 12
  | option .. => 13
  | record _ => 14
  | recordRef _ => 15
  | variant _ => 16
  | array _ => 17
  | blob _ => 20
  | errorInfo _ => 21
  | codeunit .. => 22
  | range .. => 23

def typeName : Value → String
  | null => "Null"
  | empty => "Empty"
  | integer _ => "Integer"
  | bigInteger _ => "BigInteger"
  | decimal _ => "Decimal"
  | boolean _ => "Boolean"
  | char _ => "Char"
  | text _ => "Text"
  | code _ => "Code"
  | date _ => "Date"
  | time _ => "Time"
  | dateTime _ => "DateTime"
  | duration _ => "Duration"
  | guid _ => "Guid"
  | option .. => "Option"
  | record _ => "Record"
  | recordRef _ => "RecordRef"
  | variant _ => "Variant"
  | array _ => "Array"
  | blob _ => "Blob"
  | errorInfo _ => "ErrorInfo"
  | codeunit .. => "Codeunit"
  | range .. => "Range"

def asInt : Value → Option Int64
  | integer n | bigInteger n => some n
  | _ => none

/-- The exact numeric view: integers promote, decimals pass through. -/
def asDecimal : Value → Option Decimal
  | integer n | bigInteger n => some (.ofInt64 n)
  | decimal d => some d
  | _ => none

/-! ## The order -/

mutual

def compare : Value → Value → Ordering
  | null, null | empty, empty => .eq
  | integer a, integer b | integer a, bigInteger b | bigInteger a, integer b | bigInteger a, bigInteger b =>
      Ord.compare a b
  | decimal a, decimal b => Ord.compare a b
  | boolean a, boolean b => Ord.compare a b
  | char a, char b => Ord.compare a b
  | text a, text b | code a, code b | guid a, guid b => Ord.compare a b
  | date a, date b | time a, time b | dateTime a, dateTime b | duration a, duration b => Ord.compare a b
  | option at_ am ao, option bt bm bo =>
      (Ord.compare ao bo).then ((Ord.compare at_ bt).then (Ord.compare am bm))
  | record a, record b | recordRef a, recordRef b =>
      (Ord.compare a.tableId b.tableId).then
        ((Ord.compare a.tableName b.tableName).then (Ord.compare a.handle b.handle))
  | variant a, variant b => compare a b
  | array as, array bs => compareAll as bs
  | blob a, blob b => Ord.compare a b
  | errorInfo a, errorInfo b => Ord.compare a.message b.message
  | codeunit a ai, codeunit b bi => (Ord.compare a b).then (Ord.compare ai bi)
  | range s e, range s' e' => (compare s s').then (compare e e')
  | left, right => Ord.compare left.variantIndex right.variantIndex

/-- Element by element, a shorter sequence that matches so far first. -/
def compareAll : List Value → List Value → Ordering
  | [], [] => .eq
  | [], _ :: _ => .lt
  | _ :: _, [] => .gt
  | a :: as, b :: bs => (compare a b).then (compareAll as bs)

end

instance : Ord Value := ⟨compare⟩

instance : BEq Value := ⟨fun a b => Ord.compare a b == .eq⟩

/-! ## The order is a total preorder

A value is read as the sequence of its plain parts in the order `compare` meets them, closed by an end
mark. The order of values is the lexicographic order of these sequences.
-/

def int64Part : Value → Int64
  | integer n | bigInteger n | date n | time n | dateTime n | duration n | option _ _ n => n
  | _ => 0

def intPart : Value → Int
  | decimal d => d.units
  | record r | recordRef r => r.tableId
  | _ => 0

def boolPart : Value → Bool
  | boolean b => b
  | _ => false

def charPart : Value → Char
  | char c => c
  | _ => default

def namePart : Value → String
  | text s | code s | guid s | codeunit s _ | option s _ _ => s
  | record r | recordRef r => r.tableName
  | errorInfo e => e.message
  | _ => ""

def memberPart : Value → String
  | option _ member _ => member
  | _ => ""

def handlePart : Value → Option UInt64
  | record r | recordRef r => r.handle
  | codeunit _ inst => inst
  | _ => none

def bytesPart : Value → List UInt8
  | blob bytes => bytes
  | _ => []

/-- The values inside a value. -/
def inside : Value → List Value
  | variant inner => [inner]
  | array items => items
  | range start stop => [start, stop]
  | _ => []

def comparePlain : Value → Value → Ordering :=
  compareLex (compareOn variantIndex) <| compareLex (compareOn int64Part) <|
  compareLex (compareOn intPart) <| compareLex (compareOn boolPart) <| compareLex (compareOn charPart) <|
  compareLex (compareOn namePart) <| compareLex (compareOn memberPart) <|
  compareLex (compareOn handlePart) (compareOn bytesPart)

instance : Std.TransCmp comparePlain := by unfold comparePlain; infer_instance

theorem compare_eq (a b : Value) : compare a b = (comparePlain a b).then (compareAll a.inside b.inside) := by
  cases a <;> cases b <;> first
    | rfl
    | simp [compare, comparePlain, compareLex, compareOn, variantIndex, int64Part, intPart, boolPart, charPart,
        namePart, memberPart, handlePart, bytesPart, inside, compareAll, Decimal.compare_units]

theorem sizeOf_inside {v w : Value} (member : w ∈ v.inside) : sizeOf w < sizeOf v := by
  cases v <;> simp only [inside, List.mem_cons, List.not_mem_nil, or_false] at member
  case variant inner => simp [member]
  case array items =>
    have smaller := List.sizeOf_lt_of_mem member
    simp only [array.sizeOf_spec]
    omega
  case range start stop => rcases member with rfl | rfl <;> simp only [range.sizeOf_spec] <;> omega

theorem induction_inside {P : Value → Prop} (step : ∀ v, (∀ w ∈ v.inside, P w) → P v) (v : Value) : P v :=
  step v fun w member =>
    have := sizeOf_inside member
    induction_inside step w
termination_by sizeOf v

/-- A value without what is inside it. -/
structure Plain where
  value : Value

instance : Ord Plain := ⟨fun a b => comparePlain a.value b.value⟩

instance : Std.TransOrd Plain where
  eq_swap {a b} := @Std.OrientedCmp.eq_swap _ comparePlain _ a.value b.value
  isLE_trans {a b c} := @Std.TransCmp.isLE_trans _ comparePlain _ a.value b.value c.value

mutual

def tokens : Value → List (Option Plain)
  | variant inner => some ⟨variant inner⟩ :: (tokens inner ++ [none])
  | array items => some ⟨array items⟩ :: (tokensAll items ++ [none])
  | range start stop => some ⟨range start stop⟩ :: (tokens start ++ (tokens stop ++ [none]))
  | v => [some ⟨v⟩, none]

def tokensAll : List Value → List (Option Plain)
  | [] => []
  | v :: vs => tokens v ++ tokensAll vs

end

theorem tokens_eq (v : Value) : v.tokens = some ⟨v⟩ :: (tokensAll v.inside ++ [none]) := by
  cases v <;> simp [tokens, tokensAll, inside]

theorem compare_tokensAll {as : List Value}
    (each : ∀ a ∈ as, ∀ b r s, Ord.compare (tokens a ++ r) (tokens b ++ s) = (compare a b).then (Ord.compare r s))
    (bs : List Value) (r s : List (Option Plain)) :
    Ord.compare (tokensAll as ++ none :: r) (tokensAll bs ++ none :: s) =
      (compareAll as bs).then (Ord.compare r s) := by
  induction as generalizing bs with
  | nil =>
      cases bs with
      | nil => rfl
      | cons b bs => simp [tokensAll, tokens_eq, compareAll]; rfl
  | cons a as ih =>
      cases bs with
      | nil => simp [tokensAll, tokens_eq, compareAll]; rfl
      | cons b bs =>
          simp only [tokensAll, List.append_assoc, compareAll]
          rw [each a (List.mem_cons_self ..) b, ih fun v member => each v (List.mem_cons_of_mem _ member)]
          exact (Ordering.then_assoc ..).symm

theorem compare_tokens (a b : Value) (r s : List (Option Plain)) :
    Ord.compare (tokens a ++ r) (tokens b ++ s) = (compare a b).then (Ord.compare r s) := by
  induction a using induction_inside generalizing b r s with
  | step a ih =>
      rw [tokens_eq, tokens_eq, compare_eq, Ordering.then_assoc, ← compare_tokensAll ih]
      simp only [List.cons_append, List.append_assoc, List.nil_append]
      exact List.compareLex_cons_cons

theorem compare_eq_compareOn : compare = compareOn tokens := by
  funext a b
  have lifted := compare_tokens a b [] []
  simp only [List.append_nil] at lifted
  rw [compareOn, lifted]
  cases compare a b <;> rfl

instance : Std.TransOrd Value :=
  have transported : Std.TransCmp compare := compare_eq_compareOn ▸ inferInstance
  transported

theorem beq_iff (a b : Value) : (a == b) = true ↔ Ord.compare a b = .eq := by
  cases order : Ord.compare a b <;> simp [BEq.beq, order]

@[simp] theorem beq_refl (a : Value) : (a == a) = true := (beq_iff a a).mpr Std.ReflCmp.compare_self

end Value

/-! ## The limit of a text -/

def maxTextBytes : Nat := 64 * 1024 * 1024

def checkTextSize (operation : String) (bytes : Nat) : Except String Unit :=
  if bytes ≤ maxTextBytes then .ok ()
  else .error (operation ++ " would make a text of " ++ toString bytes ++
    " bytes, over the local test runtime's limit of " ++ toString (maxTextBytes / (1024 * 1024)) ++ " MiB for one text")

end AlLanguage.Runtime
