import AlLanguage.Runtime.Value

/-!
# Storing into a typed slot

A value keeps the type of the slot it is stored into. The type is read off the value the slot holds.
-/

namespace AlLanguage.Runtime

def checkStringCapacity (value : String) (capacity : Option Nat) : Except String Unit :=
  match capacity with
  | none => .ok ()
  | some capacity =>
      let length := value.toList.length
      if length ≤ capacity then .ok ()
      else .error ("The length of the string is " ++ toString length ++ ", but it must be less than or equal to " ++
        toString capacity ++ " characters. Value: " ++ value)

def inInt32Range (n : Int64) : Bool := -2147483648 ≤ n.toInt && n.toInt ≤ 2147483647

/-- A Code is measured after trimming and before it is raised to upper case. -/
def coerceIntoSlot [CaseMapping] (slot incoming : Value) (capacity : Option Nat) : Except String Value :=
  match slot, incoming with
  | .code _, .text s | .code _, .code s => do
      let trimmed := trim s
      checkStringCapacity trimmed capacity
      return .code (toUppercase trimmed)
  | .text _, .text s | .text _, .code s => do
      checkStringCapacity s capacity
      return .text s
  | .bigInteger _, .integer n | .bigInteger _, .bigInteger n => .ok (.bigInteger n)
  | .integer _, .integer n | .integer _, .bigInteger n =>
      if inInt32Range n then .ok (.integer n)
      else .error ("value " ++ renderI64 n ++ " is outside the Integer range")
  | .decimal _, .integer n | .decimal _, .bigInteger n => .ok (.decimal (.ofInt64 n))
  | _, incoming => .ok incoming

end AlLanguage.Runtime
