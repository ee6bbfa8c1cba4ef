import AlLanguage.Library.IndexMap
import AlLanguage.Library.Search
import AlLanguage.Runtime.SharedValue

/-!
# JSON values

- A JSON value is a handle, and the arena maps it to a node. Copies of a variable share the handle.
- A node that already sits inside an object or array is copied when it is added elsewhere.
-/

namespace AlLanguage.Runtime.Json

open Library

/-- The declared JSON type of a variable or value. -/
inductive JsonKind where
  | object | array | token | value
  deriving DecidableEq

def JsonKind.name : JsonKind → String
  | object => "JsonObject"
  | array => "JsonArray"
  | token => "JsonToken"
  | value => "JsonValue"

/-- Every value that is built has a handle. -/
structure JsonRef where
  kind : JsonKind
  handle : Nat
  deriving DecidableEq

inductive Scalar where
  | null
  | bool (b : Bool)
  | number (d : Decimal)
  | text (t : String)
  deriving DecidableEq

abbrev NodeId := Nat

inductive Node where
  | object (entries : List (String × NodeId))
  | array (items : List NodeId)
  | scalar (s : Scalar)
  deriving DecidableEq

def Node.children : Node → List NodeId
  | object entries => entries.map (·.2)
  | array items => items
  | scalar _ => []

/-- `serde_json::Value`. A number is its text. -/
inductive Parsed where
  | object (entries : List (String × Parsed))
  | array (items : List Parsed)
  | null
  | bool (b : Bool)
  | number (text : String)
  | string (s : String)

/-- How many levels deep `WriteTo`, `Clone` and the copy that `Add` makes walk into a value. -/
def maxJsonDepth : Nat := 10000

/-- Every JSON node that the running test has made. The bytes are those of all values of the test. -/
structure JsonArena where
  nodes : IndexMap NodeId Node := .empty
  attached : Finset NodeId := ∅
  targets : IndexMap Nat NodeId := .empty
  nextId : Nat := 1
  heldBytes : Nat := 0

inductive JsonError where
  | failed (message : String)
  | invalid (message : String)
  deriving DecidableEq

def tooDeep (operation : String) : String :=
  s!"{operation} nested more than {maxJsonDepth} levels deep is past the local test runtime's limit"

/-! ## Bytes -/

/-- The size of a node with its id in the arena. -/
def arenaEntry : Nat := 56

def Node.bytes : Node → Nat
  | object entries => arenaEntry + (entries.map fun entry => 32 + entry.1.utf8ByteSize).sum
  | array items => arenaEntry + items.length * 8
  | scalar (.text t) => arenaEntry + t.utf8ByteSize
  | scalar _ => arenaEntry

/-- A variable's first node. -/
def emptyNode : JsonKind → Node
  | .object => .object []
  | .array => .array []
  | .value | .token => .scalar .null

namespace JsonArena

/-! ## Nodes -/

/-- A node that does not exist is a panic. No arena that is reached has a child or a target without a node. -/
def node (a : JsonArena) (id : NodeId) : Node := (a.nodes.get? id).getD (.scalar .null)

def children (a : JsonArena) (id : NodeId) : List NodeId := (a.node id).children

def freshId (a : JsonArena) : Nat × JsonArena := (a.nextId, { a with nextId := a.nextId + 1 })

def push (a : JsonArena) (node : Node) : NodeId × JsonArena :=
  (a.nextId, { a with
    nodes := a.nodes.insert a.nextId node
    nextId := a.nextId + 1
    heldBytes := a.heldBytes + node.bytes })

def attach (a : JsonArena) (id : NodeId) : JsonArena := { a with attached := insert id a.attached }

/-- The node of a handle, which is made when the handle is first used. -/
def target (a : JsonArena) (ref : JsonRef) : NodeId × JsonArena :=
  match a.targets.get? ref.handle with
  | some node => (node, a)
  | none =>
      let (node, a) := a.push (emptyNode ref.kind)
      (node, { a with targets := a.targets.insert ref.handle node })

/-- A new reference to a node. -/
def reference (a : JsonArena) (kind : JsonKind) (node : NodeId) : JsonRef × JsonArena :=
  let (handle, a) := a.freshId
  (⟨kind, handle⟩, { a with targets := a.targets.insert handle node })

def set (a : JsonArena) (id : NodeId) (node : Node) : JsonArena :=
  let before := ((a.nodes.get? id).map Node.bytes).getD 0
  { a with
    nodes := a.nodes.insert id node
    heldBytes := a.heldBytes + node.bytes - before }

def checkHeldBytes (a : JsonArena) (operation : String) : Except String Unit :=
  if maxHeldBytes < a.heldBytes then .error (overHeldBudget operation a.heldBytes) else .ok ()

/-! ## Copies -/

/-- Copies of several values, each attached when it is made. -/
def copyAll (copy : JsonArena → NodeId → Except String NodeId × JsonArena) (a : JsonArena) :
    List NodeId → Except String (List NodeId) × JsonArena
  | [] => (.ok [], a)
  | child :: rest =>
    match copy a child with
    | (.error e, a) => (.error e, a)
    | (.ok new, a) =>
        match copyAll copy (a.attach new) rest with
        | (.error e, a) => (.error e, a)
        | (.ok copies, a) => (.ok (new :: copies), a)

/-- The node with copies in the place of its children. -/
def Node.withChildren (copies : List NodeId) : Node → Node
  | .object entries => .object ((entries.map (·.1)).zip copies)
  | .array _ => .array copies
  | .scalar s => .scalar s

/-- `deep_copy_at` with so many levels left. -/
def deepCopyAt : Nat → JsonArena → NodeId → Except String NodeId × JsonArena
  | 0, a, _ => (.error (tooDeep "Copying a JSON value"), a)
  | levels + 1, a, id =>
    match copyAll (deepCopyAt levels) a (a.children id) with
    | (.error e, a') => (.error e, a')
    | (.ok copies, a') =>
        let (new, a') := a'.push (Node.withChildren copies (a.node id))
        (.ok new, a')

/-- A copy of a value and everything it holds. -/
def deepCopy (a : JsonArena) (id : NodeId) : Except String NodeId × JsonArena := deepCopyAt (maxJsonDepth + 1) a id

/-- Whether a node is the wanted one or holds it at any depth. The last child comes first. -/
def holds (a : JsonArena) (node wanted : NodeId) : Bool :=
  Search.finds (fun id => (a.children id).reverse) wanted
    (1 + (a.nodes.entries.map fun entry => entry.2.children.length).sum) [node] []

/-- A node and every node that it holds, in document order. -/
def selfAndDescendants (a : JsonArena) (node : NodeId) : List NodeId :=
  Search.visit a.children (1 + (a.nodes.entries.map fun entry => entry.2.children.length).sum) [node] []

end JsonArena

/-! ## Paths -/

inductive CompareOp where
  | eq | ne | lt | le | gt | ge
  deriving DecidableEq

mutual

/-- One step of a `SelectToken` path. -/
inductive PathStep where
  | member (key : String)
  | index (place : Nat)
  | wildcard
  /-- The next step applies to every descendant as well. -/
  | descend
  | filter (f : PathFilter)

inductive PathFilter where
  | any (parts : List PathFilter)
  | all (parts : List PathFilter)
  | exists_ (operand : FilterOperand)
  | compare (left : FilterOperand) (op : CompareOp) (right : FilterOperand)

/-- A path starts at the element, or at the token that is queried. -/
inductive FilterOperand where
  | path (fromRoot : Bool) (steps : List PathStep)
  | literal (s : Scalar)

end

def scalarOrder : Option Scalar → Option Scalar → Option Ordering
  | some (.number a), some (.number b) => some (Ord.compare a b)
  | some (.text a), some (.text b) => some (Ord.compare a b)
  | some (.bool a), some (.bool b) => if a = b then some .eq else none
  | some .null, some .null => some .eq
  | _, _ => none

/-- Values of different types are unequal and unordered, and an object or array equals nothing. -/
def compareScalars (left : Option Scalar) (op : CompareOp) (right : Option Scalar) : Bool :=
  let order := scalarOrder left right
  match op with
  | .eq => order = some .eq
  | .ne => order ≠ some .eq
  | .lt => order = some .lt
  | .le => order = some .lt ∨ order = some .eq
  | .gt => order = some .gt
  | .ge => order = some .gt ∨ order = some .eq

namespace JsonArena

def member (a : JsonArena) (object : NodeId) (key : String) : Option NodeId :=
  match a.node object with
  | .object entries => (entries.find? fun entry => entry.1 = key).map (·.2)
  | _ => none

def scalarAt (a : JsonArena) (id : NodeId) : Option Scalar :=
  match a.node id with
  | .scalar s => some s
  | _ => none

mutual

/-- The nodes that steps reach. The root is what the dollar sign names in a filter. -/
def follow (a : JsonArena) (root : NodeId) : List PathStep → (descend : Bool) → List NodeId → List NodeId
  | [], _, current => current
  | step :: rest, descend, current =>
    match stepAt a root step with
    | none => follow a root rest true current
    | some next =>
        let scope := if descend then current.flatMap a.selfAndDescendants else current
        follow a root rest false (scope.flatMap next)

/-- What one step reaches from a node. Descending is no step of its own. -/
def stepAt (a : JsonArena) (root : NodeId) : PathStep → Option (NodeId → List NodeId)
  | .member key => some fun node => (a.member node key).toList
  | .index place => some fun node => match a.node node with
    | .array items => (items[place]?).toList
    | _ => []
  | .wildcard => some a.children
  | .descend => none
  | .filter f => some fun node => match a.node node with
    | .array items => items.filter fun item => accepts a root f item
    | _ => []

def accepts (a : JsonArena) (root : NodeId) : PathFilter → NodeId → Bool
  | .any parts, item => acceptsAny a root parts item
  | .all parts, item => acceptsAll a root parts item
  | .exists_ o, item => operand a root o item ≠ []
  | .compare left op right, item =>
      (operand a root left item).any fun l => (operand a root right item).any fun r => compareScalars l op r

def acceptsAny (a : JsonArena) (root : NodeId) : List PathFilter → NodeId → Bool
  | [], _ => false
  | part :: rest, item => accepts a root part item || acceptsAny a root rest item

def acceptsAll (a : JsonArena) (root : NodeId) : List PathFilter → NodeId → Bool
  | [], _ => true
  | part :: rest, item => accepts a root part item && acceptsAll a root rest item

def operand (a : JsonArena) (root : NodeId) : FilterOperand → NodeId → List (Option Scalar)
  | .literal s, _ => [some s]
  | .path fromRoot steps, item => (follow a root steps false [if fromRoot then root else item]).map a.scalarAt

end

end JsonArena

/-! ## Values in and out -/

/-- The JSON parser, the numbers of the decimal package, dates in the XML format, and the parser of paths. -/
class JsonSyntax where
  parseJson : String → Except String Parsed
  parseNumber : String → Option Decimal
  /-- Without trailing zeros. -/
  numberText : Decimal → String
  displayNumber : Decimal → String
  debugScalar : Scalar → String
  renderXml : Value → String
  parsePath : String → Except String (List PathStep)

def hexDigit (n : Nat) : Char := if n < 10 then Char.ofNat (48 + n) else Char.ofNat (87 + n)

def escapeChar (c : Char) : String :=
  if c = '"' then "\\\""
  else if c = '\\' then "\\\\"
  else if c.toNat = 8 then "\\b"
  else if c.toNat = 12 then "\\f"
  else if c = '\n' then "\\n"
  else if c = '\r' then "\\r"
  else if c = '\t' then "\\t"
  else if c.toNat < 32 then "\\u00" ++ String.ofList [hexDigit (c.toNat / 16), hexDigit (c.toNat % 16)]
  else String.singleton c

def writeString (text : String) : String := "\"" ++ String.join (text.toList.map escapeChar) ++ "\""

section Syntax

variable [JsonSyntax]

def scalarOf : Value → Except String Scalar
  | .null | .empty => .ok .null
  | .boolean b => .ok (.bool b)
  | .integer n | .bigInteger n => .ok (.number (.ofInt64 n))
  | .decimal d => .ok (.number d)
  | .text t | .code t | .guid t => .ok (.text t)
  | .char c => .ok (.text (String.singleton c))
  | .option _ name _ => .ok (.text name)
  | .date d => .ok (.text (JsonSyntax.renderXml (.date d)))
  | .time t => .ok (.text (JsonSyntax.renderXml (.time t)))
  | .dateTime dt => .ok (.text (JsonSyntax.renderXml (.dateTime dt)))
  | other => .error s!"a {other.typeName} cannot be stored in JSON by the local runtime"

namespace JsonArena

mutual

/-- The node of a parsed value, with its children attached. -/
def importValue (a : JsonArena) : Parsed → Except String NodeId × JsonArena
  | .object entries =>
    match importEntries a entries with
    | (.error e, a) => (.error e, a)
    | (.ok children, a) =>
        let (new, a) := a.push (.object children)
        (.ok new, a)
  | .array items =>
    match importItems a items with
    | (.error e, a) => (.error e, a)
    | (.ok children, a) =>
        let (new, a) := a.push (.array children)
        (.ok new, a)
  | .null =>
      let (new, a) := a.push (.scalar .null)
      (.ok new, a)
  | .bool b =>
      let (new, a) := a.push (.scalar (.bool b))
      (.ok new, a)
  | .number text =>
    match JsonSyntax.parseNumber text with
    | none => (.error s!"the JSON number {text} is outside the Decimal range", a)
    | some d =>
        let (new, a) := a.push (.scalar (.number d))
        (.ok new, a)
  | .string s =>
      let (new, a) := a.push (.scalar (.text s))
      (.ok new, a)

def importEntries (a : JsonArena) : List (String × Parsed) → Except String (List (String × NodeId)) × JsonArena
  | [] => (.ok [], a)
  | (key, value) :: rest =>
    match importValue a value with
    | (.error e, a) => (.error e, a)
    | (.ok child, a) =>
        match importEntries (a.attach child) rest with
        | (.error e, a) => (.error e, a)
        | (.ok entries, a) => (.ok ((key, child) :: entries), a)

def importItems (a : JsonArena) : List Parsed → Except String (List NodeId) × JsonArena
  | [] => (.ok [], a)
  | value :: rest =>
    match importValue a value with
    | (.error e, a) => (.error e, a)
    | (.ok child, a) =>
        match importItems (a.attach child) rest with
        | (.error e, a) => (.error e, a)
        | (.ok items, a) => (.ok (child :: items), a)

end

def writeScalar : Scalar → String
  | .null => "null"
  | .bool b => if b then "true" else "false"
  | .number d => JsonSyntax.numberText d
  | .text t => writeString t

/-- The text of a value with so many levels left. -/
def writeAt : Nat → JsonArena → NodeId → Except String String
  | 0, _, _ => .error (tooDeep "Writing a JSON value")
  | levels + 1, a, id =>
    match a.node id with
    | .object entries => do
        let parts ← entries.mapM fun entry => do
          let text ← writeAt levels a entry.2
          pure (writeString entry.1 ++ ":" ++ text)
        pure ("\x7b" ++ ",".intercalate parts ++ "\x7d")
    | .array items => do
        let parts ← items.mapM (writeAt levels a)
        pure ("[" ++ ",".intercalate parts ++ "]")
    | .scalar s => pure (writeScalar s)

def textOf (a : JsonArena) (id : NodeId) : Except String String := writeAt (maxJsonDepth + 1) a id

/-- Every node that a path selects, in document order. -/
def select (a : JsonArena) (node : NodeId) (path : String) : Except String (List NodeId) :=
  (JsonSyntax.parsePath path).map fun steps => a.follow node steps false [node]

end JsonArena

end Syntax

end AlLanguage.Runtime.Json
