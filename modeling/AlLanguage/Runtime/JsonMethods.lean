import AlLanguage.Library.Machine
import AlLanguage.Runtime.Json

/-!
# Methods of JSON values

- `Add`, `Insert`, `Set` and `Replace` place a node, a copy of it, or a new scalar.
- A program holds references in variables. A copy of a variable is the same reference.
-/

namespace AlLanguage.Runtime.Json

open Library

inductive JsonArg where
  | json (ref : JsonRef)
  | value (v : Value)

def JsonArg.typeName : JsonArg → String
  | json ref => ref.kind.name
  | value v => v.typeName

/-- What `As…` and the typed getters convert to. -/
inductive Conversion where
  | text | code | integer | bigInteger | decimal | boolean
  deriving DecidableEq

def Conversion.name : Conversion → String
  | text => "text"
  | code => "code"
  | integer => "integer"
  | bigInteger => "biginteger"
  | decimal => "decimal"
  | boolean => "boolean"

inductive JsonMethod where
  | writeTo | readFrom | selectToken | clone | asToken
  | isObject | isArray | isValue | asObject | asArray | asValue
  | add | replace | remove | contains | get | keys | values
  | count | insert | removeAt | set | indexOf
  | isNull | isUndefined | setValue | setValueToNull
  | getAs (as_ : Conversion)
  | convert (as_ : Conversion)
  deriving DecidableEq

def JsonMethod.name : JsonMethod → String
  | writeTo => "writeto"
  | readFrom => "readfrom"
  | selectToken => "selecttoken"
  | clone => "clone"
  | asToken => "astoken"
  | isObject => "isobject"
  | isArray => "isarray"
  | isValue => "isvalue"
  | asObject => "asobject"
  | asArray => "asarray"
  | asValue => "asvalue"
  | add => "add"
  | replace => "replace"
  | remove => "remove"
  | contains => "contains"
  | get => "get"
  | keys => "keys"
  | values => "values"
  | count => "count"
  | insert => "insert"
  | removeAt => "removeat"
  | set => "set"
  | indexOf => "indexof"
  | isNull => "isnull"
  | isUndefined => "isundefined"
  | setValue => "setvalue"
  | setValueToNull => "setvaluetonull"
  | getAs as_ => "get" ++ as_.name
  | convert as_ => "as" ++ as_.name

inductive JsonResult where
  | value (v : Value)
  | json (ref : JsonRef)
  | texts (items : List String)
  | tokens (items : List JsonRef)

/-- A result, and the values for the `var` arguments by their places. -/
structure Reply where
  result : JsonResult
  writebacks : List (Nat × JsonArg) := []

namespace Reply

def boolean (b : Bool) : Reply := { result := .value (.boolean b) }

def done : Reply := boolean true

def integer (n : Int64) : Reply := { result := .value (.integer n) }

/-- The token is written to the second argument. -/
def token (ref : JsonRef) : Reply := { result := .value (.boolean true), writebacks := [(1, .json ref)] }

/-- The references that the caller is given. -/
def refs (reply : Reply) : List JsonRef :=
  (match reply.result with
    | .json ref => [ref]
    | .tokens items => items
    | _ => []) ++
  reply.writebacks.filterMap fun written => match written.2 with
    | .json ref => some ref
    | .value _ => none

end Reply

abbrev Answer := Except JsonError Reply × JsonArena

def textArg (value : Option JsonArg) (what : String) : Except String String :=
  match value with
  | some (.value (.text t)) | some (.value (.code t)) => .ok t
  | some other => .error s!"{what} must be Text, got {other.typeName}"
  | none => .error s!"{what} is missing"

def indexArg (value : Option JsonArg) (len : Nat) (inclusive : Bool) : Except JsonError Nat :=
  match value with
  | some (.value (.integer n)) =>
      let limit := if inclusive then len else len - 1
      let index := n.toInt.toNat
      if 0 ≤ n.toInt ∧ index ≤ limit ∧ (inclusive ∨ 0 < len) then .ok index
      else .error (.failed s!"index {n.toInt} is outside the JSON array of {len} elements")
  | _ => .error (.invalid "a JSON array index must be an Integer")

/-- The 64-bit integer that a decimal is. -/
def wholeNumber (d : Decimal) : Option Int64 :=
  let unit : Int := 10 ^ d.scale
  if d.mantissa % unit = 0 ∧ -2 ^ 63 ≤ d.mantissa / unit ∧ d.mantissa / unit < 2 ^ 63 then some (Int64.ofInt (d.mantissa / unit))
  else none

/-- What a typed getter returns for a missing key when it is asked for a default. -/
def defaultForGetter : Conversion → Value
  | .text => .text ""
  | .code => .code ""
  | .integer => .integer 0
  | .bigInteger => .bigInteger 0
  | .decimal => .decimal .zero
  | .boolean => .boolean false

section Methods

variable [JsonSyntax] [CaseMapping]

def scalarText : Scalar → Except String String
  | .text t => .ok t
  | .number d => .ok (JsonSyntax.numberText d)
  | .bool b => .ok (if b then "true" else "false")
  | .null => .error "the JSON value is null"

def scalarNumber : Scalar → Except String Decimal
  | .number d => .ok d
  | other => .error s!"the JSON value {JsonSyntax.debugScalar other} is not a number"

def scalarWhole (s : Scalar) : Except String Int64 := do
  let d ← scalarNumber s
  match wholeNumber d with
  | some n => .ok n
  | none => .error s!"the JSON value {JsonSyntax.displayNumber d} is not an Integer"

def scalarAs (s : Scalar) : Conversion → Except String Value
  | .text => (scalarText s).map .text
  | .code => (scalarText s).map fun t => .code (toUppercase t)
  | .integer => (scalarWhole s).map .integer
  | .bigInteger => (scalarWhole s).map .bigInteger
  | .decimal => (scalarNumber s).map .decimal
  | .boolean => match s with
    | .bool b => .ok (.boolean b)
    | other => .error s!"the JSON value {JsonSyntax.debugScalar other} is not a Boolean"

/-- A typed getter returns the value itself, so that a bad index is an error wherever the call is. -/
def JsonError.always : JsonError → JsonError
  | .failed message | .invalid message => .invalid message

namespace JsonArena

/-- The value of a scalar node, converted. -/
def scalarReply (a : JsonArena) (id : NodeId) (as_ : Conversion) (message : String) : Except JsonError Reply :=
  match a.node id with
  | .scalar s => match scalarAs s as_ with
    | .ok v => .ok { result := .value v }
    | .error e => .error (.invalid e)
  | _ => .error (.invalid message)

/-- The last steps of `child_for`. -/
def attachChild : Except String NodeId × JsonArena → Except String NodeId × JsonArena
  | (.error e, a) => (.error e, a)
  | (.ok id, a) =>
    match (a.attach id).checkHeldBytes "Adding a value to a JsonObject or JsonArray" with
    | .error e => (.error e, a.attach id)
    | .ok () => (.ok id, a.attach id)

/-- A node that is attached already is copied, and so is one that holds the container. -/
def placed (a : JsonArena) (parent node : NodeId) : Except String NodeId × JsonArena :=
  if node ∈ a.attached ∨ a.holds node parent = true then a.deepCopy node else (.ok node, a)

/-- The node to place inside a container for a value. -/
def childFor (a : JsonArena) (parent : NodeId) : JsonArg → Except String NodeId × JsonArena
  | .json ref =>
      let (node, a) := a.target ref
      attachChild (a.placed parent node)
  | .value v =>
    match scalarOf v with
    | .error e => (.error e, a)
    | .ok s =>
        let (id, a) := a.push (.scalar s)
        attachChild (.ok id, a)

/-- A container with a value placed in it. -/
def place (a : JsonArena) (node : NodeId) (value : Option JsonArg) (put : NodeId → Node) : Answer :=
  match value with
  | none => (.error (.invalid "the value is missing"), a)
  | some value =>
    match a.childFor node value with
    | (.error e, a) => (.error (.invalid e), a)
    | (.ok child, a) => (.ok .done, a.set node (put child))

def unsupported (a : JsonArena) (kind : JsonKind) (method : JsonMethod) : Answer :=
  (.error (.invalid s!"{kind.name}.{method.name} is not supported by the local runtime here"), a)

def tokenAnswer (a : JsonArena) (node : NodeId) : Answer :=
  let (ref, a) := a.reference .token node
  (.ok (.token ref), a)

def referenceAnswer (a : JsonArena) (kind : JsonKind) (node : NodeId) : Answer :=
  let (ref, a) := a.reference kind node
  (.ok { result := .json ref }, a)

/-- A new token for each node. -/
def tokensFor (a : JsonArena) : List NodeId → List JsonRef × JsonArena
  | [] => ([], a)
  | node :: rest =>
      let (ref, a) := a.reference .token node
      let (refs, a) := tokensFor a rest
      (ref :: refs, a)

/-- An argument, or the error that the call ends with. -/
def withArg {α : Type} (a : JsonArena) (arg : Except JsonError α) (next : α → Answer) : Answer :=
  match arg with
  | .error e => (.error e, a)
  | .ok value => next value

def keyArg (args : List JsonArg) (what : String) : Except JsonError String := (textArg args[0]? what).mapError .invalid

def defaultIfNotFound : Option JsonArg → Except JsonError Bool
  | none => .ok false
  | some (.value (.boolean flag)) => .ok flag
  | some other => .error (.invalid s!"DefaultIfNotFound must be a Boolean, got {other.typeName}")

def objectMethod (a : JsonArena) (node : NodeId) (entries : List (String × NodeId)) (args : List JsonArg) : JsonMethod → Answer
  | .add => a.withArg (keyArg args "the key") fun key =>
      if entries.any fun entry => entry.1 = key then (.error (.failed s!"the key '{key}' already exists"), a)
      else a.place node args[1]? fun child => .object (entries ++ [(key, child)])
  | .replace => a.withArg (keyArg args "the key") fun key =>
    match entries.findIdx? fun entry => entry.1 = key with
    | none => (.error (.failed s!"the key '{key}' does not exist"), a)
    | some place => a.place node args[1]? fun child => .object (entries.modify place fun entry => (entry.1, child))
  | .remove => a.withArg (keyArg args "the key") fun key =>
      let kept := entries.filter fun entry => entry.1 ≠ key
      (.ok (.boolean (kept.length ≠ entries.length)), a.set node (.object kept))
  | .contains => a.withArg (keyArg args "the key") fun key => (.ok (.boolean (entries.any fun entry => entry.1 = key)), a)
  | .get => a.withArg (keyArg args "the key") fun key =>
    match entries.find? fun entry => entry.1 = key with
    | none => (.error (.failed s!"the key '{key}' does not exist"), a)
    | some entry => a.tokenAnswer entry.2
  | .keys => (.ok { result := .texts (entries.map (·.1)) }, a)
  | .values =>
      let (refs, a) := a.tokensFor (entries.map (·.2))
      (.ok { result := .tokens refs }, a)
  | .getAs as_ => a.withArg (keyArg args "the key") fun key => a.withArg (defaultIfNotFound args[1]?) fun default_ =>
    match entries.find? fun entry => entry.1 = key with
    | none =>
        if default_ then (.ok { result := .value (defaultForGetter as_) }, a)
        else (.error (.invalid s!"the key '{key}' does not exist"), a)
    | some entry => (a.scalarReply entry.2 as_ s!"the value of '{key}' is not a JSON value", a)
  | method => a.unsupported .object method

/-- The text that `IndexOf` looks for. A value that is no JSON value is placed like one that is added. -/
def wantedText (a : JsonArena) (node : NodeId) : Option JsonArg → Except String String × JsonArena
  | some (.json ref) =>
      let (node, a) := a.target ref
      (a.textOf node, a)
  | some other =>
    match a.childFor node other with
    | (.error e, a) => (.error e, a)
    | (.ok probe, a) => (a.textOf probe, a)
  | none => (.error "the value is missing", a)

/-- The place of the first element with a text. -/
def findText (a : JsonArena) (wanted : String) : Int64 → List NodeId → Except JsonError Reply
  | _, [] => .ok (.integer (-1))
  | place, item :: rest =>
    match a.textOf item with
    | .error e => .error (.invalid e)
    | .ok text => if text = wanted then .ok (.integer place) else findText a wanted (place + 1) rest

def arrayMethod (a : JsonArena) (node : NodeId) (items : List NodeId) (args : List JsonArg) : JsonMethod → Answer
  | .add => a.place node args[0]? fun child => .array (items ++ [child])
  | .insert => a.withArg (indexArg args[0]? items.length true) fun place =>
      a.place node args[1]? fun child => .array (items.insertIdx place child)
  | .set => a.withArg (indexArg args[0]? items.length false) fun place =>
      a.place node args[1]? fun child => .array (items.set place child)
  | .removeAt => a.withArg (indexArg args[0]? items.length false) fun place =>
      (.ok .done, a.set node (.array (items.eraseIdx place)))
  | .count => (.ok (.integer (Int64.ofNat items.length)), a)
  | .get => a.withArg (indexArg args[0]? items.length false) fun place =>
    match items[place]? with
    | none => (.error (.invalid "index out of bounds"), a)
    | some item => a.tokenAnswer item
  | .indexOf =>
    match a.wantedText node args[0]? with
    | (.error e, a) => (.error (.invalid e), a)
    | (.ok wanted, a) => (a.findText wanted 0 items, a)
  | .getAs as_ => a.withArg ((indexArg args[0]? items.length false).mapError JsonError.always) fun place =>
    match items[place]? with
    | none => (.error (.invalid "index out of bounds"), a)
    | some item => (a.scalarReply item as_ s!"element {place} is not a JSON value", a)
  | method => a.unsupported .array method

def tokenMethod (a : JsonArena) (node : NodeId) : JsonMethod → Answer
  | .isObject => (.ok (.boolean (match a.node node with | .object _ => true | _ => false)), a)
  | .isArray => (.ok (.boolean (match a.node node with | .array _ => true | _ => false)), a)
  | .isValue => (.ok (.boolean (match a.node node with | .scalar _ => true | _ => false)), a)
  | .asObject => match a.node node with
    | .object _ => a.referenceAnswer .object node
    | _ => (.error (.invalid "the token is not a JSON object"), a)
  | .asArray => match a.node node with
    | .array _ => a.referenceAnswer .array node
    | _ => (.error (.invalid "the token is not a JSON array"), a)
  | .asValue => match a.node node with
    | .scalar _ => a.referenceAnswer .value node
    | _ => (.error (.invalid "the token is not a JSON value"), a)
  | method => a.unsupported .token method

def valueMethod (a : JsonArena) (node : NodeId) (args : List JsonArg) : JsonMethod → Answer
  | .isNull => match a.node node with
    | .scalar s => (.ok (.boolean (s = .null)), a)
    | _ => a.unsupported .value .isNull
  | .isUndefined => (.ok (.boolean false), a)
  | .setValueToNull => (.ok { result := .value .empty }, a.set node (.scalar .null))
  | .setValue =>
    match args.head? with
    | none => (.error (.invalid "the value is missing"), a)
    | some (.json ref) => (.error (.invalid s!"a {ref.kind.name} cannot be stored in JSON by the local runtime"), a)
    | some (.value v) =>
      match scalarOf v with
      | .error e => (.error (.invalid e), a)
      | .ok s => (.ok { result := .value .empty }, a.set node (.scalar s))
  | .convert as_ => match a.node node with
    | .scalar _ => (a.scalarReply node as_ "", a)
    | _ => a.unsupported .value (.convert as_)
  | method => a.unsupported .value method

/-- Whether a parsed value is of a declared type. -/
def fits : JsonKind → Parsed → Bool
  | .object, .object _ | .array, .array _ | .token, _ => true
  | .value, .object _ | .value, .array _ => false
  | .value, _ => true
  | _, _ => false

def readFrom (a : JsonArena) (ref : JsonRef) (args : List JsonArg) : Answer :=
  a.withArg (keyArg args "the JSON text") fun text =>
    match JsonSyntax.parseJson text with
    | .error e => (.error (.failed s!"the text is not valid JSON: {e}"), a)
    | .ok parsed =>
        if fits ref.kind parsed then
          match a.importValue parsed with
          | (.error e, a) => (.error (.invalid e), a)
          | (.ok imported, a) =>
            match a.checkHeldBytes s!"{ref.kind.name}.ReadFrom" with
            | .error e => (.error (.invalid e), a)
            | .ok () => (.ok .done, { a with targets := a.targets.insert ref.handle imported })
        else (.error (.failed s!"the text does not hold a {ref.kind.name}"), a)

def selectToken (a : JsonArena) (node : NodeId) (args : List JsonArg) : Answer :=
  a.withArg (keyArg args "the path") fun path =>
    match a.select node path with
    | .error e => (.error (.invalid e), a)
    | .ok [found] => a.tokenAnswer found
    | .ok [] => (.error (.failed s!"no token matches the path '{path}'"), a)
    | .ok several => (.error (.failed s!"the path '{path}' matches {several.length} tokens"), a)

def cloneOf (a : JsonArena) (kind : JsonKind) (node : NodeId) : Answer :=
  match a.deepCopy node with
  | (.error e, a) => (.error (.invalid e), a)
  | (.ok copy, a) =>
    match a.checkHeldBytes s!"{kind.name}.Clone" with
    | .error e => (.error (.invalid e), a)
    | .ok () => a.referenceAnswer kind copy

def writeTo (a : JsonArena) (node : NodeId) (args : List JsonArg) : Except JsonError Reply :=
  match a.textOf node with
  | .error e => .error (.invalid e)
  | .ok text =>
      if args.isEmpty then .ok { result := .value (.text text) }
      else .ok { result := .value (.boolean true), writebacks := [(0, .value (.text text))] }

/-- A method of the value that a reference stands for, whose node is known. -/
def runOn (a : JsonArena) (ref : JsonRef) (node : NodeId) (method : JsonMethod) (args : List JsonArg) : Answer :=
  match method with
  | .writeTo => (a.writeTo node args, a)
  | .readFrom => a.readFrom ref args
  | .selectToken => a.selectToken node args
  | .clone => a.cloneOf ref.kind node
  | .asToken => a.referenceAnswer .token node
  | method =>
    match ref.kind, a.node node with
    | .token, _ => a.tokenMethod node method
    | .object, .object entries => a.objectMethod node entries args method
    | .array, .array items => a.arrayMethod node items args method
    | .value, _ => a.valueMethod node args method
    | kind, _ => a.unsupported kind method

def run (a : JsonArena) (ref : JsonRef) (method : JsonMethod) (args : List JsonArg) : Answer :=
  let (node, a) := a.target ref
  a.runOn ref node method args

end JsonArena

/-! ## Programs -/

structure JsonState where
  arena : JsonArena := {}
  vars : IndexMap String JsonRef := .empty

inductive Operand where
  | variable_ (name : String)
  | value (v : Value)

inductive JsonAction where
  | declare (name : String) (kind : JsonKind)
  | assign (name source : String)
  | clear (name : String)
  /-- The references that the call gives are stored in variables, in order. -/
  | call (recv : String) (method : JsonMethod) (args : List Operand) (into : List String)
  /-- The other values of the test take so many bytes, or fewer. -/
  | hold (bytes : Nat)
  | release (bytes : Nat)

namespace JsonState

/-- A variable with a new handle. -/
def fresh (s : JsonState) (name : String) (kind : JsonKind) : JsonState :=
  let (handle, arena) := s.arena.freshId
  { arena := arena, vars := s.vars.insert name ⟨kind, handle⟩ }

def operandValue (s : JsonState) : Operand → Option JsonArg
  | .variable_ name => (s.vars.get? name).map .json
  | .value v => some (.value v)

def store (s : JsonState) (into : List String) (refs : List JsonRef) : JsonState :=
  (into.zip refs).foldl (fun s written => { s with vars := s.vars.insert written.1 written.2 }) s

/-- The answer of a call whose variables are declared. -/
def answer (s : JsonState) (recv : String) (method : JsonMethod) (args : List Operand) : Option Answer :=
  match s.vars.get? recv, args.mapM s.operandValue with
  | some ref, some values => some (s.arena.run ref method values)
  | _, _ => none

def step (s : JsonState) : JsonAction → JsonState
  | .declare name kind => s.fresh name kind
  | .assign name source => match s.vars.get? source with
    | some ref => { s with vars := s.vars.insert name ref }
    | none => s
  | .clear name => match s.vars.get? name with
    | some ref => s.fresh name ref.kind
    | none => s
  | .call recv method args into =>
    match s.answer recv method args with
    | none => s
    | some (.error _, arena) => { s with arena := arena }
    | some (.ok reply, arena) => { s with arena := arena }.store into reply.refs
  | .hold bytes => { s with arena := { s.arena with heldBytes := s.arena.heldBytes + bytes } }
  | .release bytes => { s with arena := { s.arena with heldBytes := s.arena.heldBytes - bytes } }

end JsonState

end Methods

end AlLanguage.Runtime.Json
