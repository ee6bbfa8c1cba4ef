import AlLanguage.Runtime.JsonTrees
import AlLanguage.Runtime.Multiples

/-!
# Reading JSON text back

The text of a value is read as the value if it is nested less than the parser's limit, if the parser keeps its numbers, and
if its nodes are within the byte budget.
-/

namespace AlLanguage.Runtime.Json

open Library

/-- The containers that `serde_json` refuses to open. -/
def recursionLimit : Nat := 128

theorem normalize_normalize (d : Decimal) : d.normalize.normalize = d.normalize :=
  Decimal.normalize_congr (Decimal.units_normalize d)

section Reading

variable [JsonSyntax] [SerdeNumbers]

/-! ## What is read -/

def Scalar.parsed : Scalar → Parsed
  | .null => .null
  | .bool b => .bool b
  | .number d => .number (SerdeNumbers.numberLexeme (JsonSyntax.numberText d))
  | .text t => .string t

/-- The number that is read where a number was written. -/
def rereadNumber (d : Decimal) : Option Decimal :=
  JsonSyntax.parseNumber (SerdeNumbers.numberLexeme (JsonSyntax.numberText d))

def Scalar.reread : Scalar → Option Scalar
  | .number d => (rereadNumber d).map .number
  | s => some s

def Scalar.normal : Scalar → Scalar
  | .number d => .number d.normalize
  | s => s

namespace Tree

mutual

def parsed : Tree → Parsed
  | object entries => .object (parsedEntries entries)
  | array items => .array (parsedItems items)
  | scalar s => s.parsed

def parsedItems : List Tree → List Parsed
  | [] => []
  | item :: rest => item.parsed :: parsedItems rest

def parsedEntries : List (String × Tree) → List (String × Parsed)
  | [] => []
  | (key, item) :: rest => (key, item.parsed) :: parsedEntries rest

end

/-- Two trees with one structure, keys in one order, and scalars of one value. -/
def Same (t t' : Tree) : Prop := (t.changed fun s => some s.normal) = t'.changed fun s => some s.normal

/-- What `serde_json` makes of a text with distinct keys. -/
def Parses (t : Tree) : Prop :=
  t.DistinctKeys → (t.nested < recursionLimit → JsonSyntax.parseJson t.text = .ok t.parsed) ∧
    (recursionLimit ≤ t.nested → ∃ e, JsonSyntax.parseJson t.text = .error e)

/-- The parser keeps the numbers of the tree. -/
def KeepsNumbers (t : Tree) : Prop :=
  ∀ d, .number d ∈ t.scalars → (rereadNumber d).map Decimal.normalize = some d.normalize

end Tree

/-- Numbers are kept if the parser gives their own texts for them. -/
theorem Tree.keepsNumbers_of_texts {t : Tree}
    (display : ∀ d : Decimal, JsonSyntax.parseNumber (JsonSyntax.numberText d) = some d.normalize)
    (same : ∀ d, .number d ∈ t.scalars →
      SerdeNumbers.numberLexeme (JsonSyntax.numberText d) = JsonSyntax.numberText d) : t.KeepsNumbers := by
  intro d member
  rw [rereadNumber, same d member, display, Option.map_some, normalize_normalize]

namespace JsonArena

variable {a b : JsonArena}

/-! ## Importing -/

/-- The result of an import: the tree that was reread, or an error. -/
def Imports (a : JsonArena) (t : Tree) (result : Except String NodeId × JsonArena) : Prop :=
  match t.changed Scalar.reread with
  | none => ∃ e b, result = (.error e, b)
  | some t' => ∃ new b, result = (.ok new, b) ∧ b.Shows new t' ∧ b.heldBytes = a.heldBytes + t.bytes

def ImportsItems (a : JsonArena) (items : List Tree) (result : Except String (List NodeId) × JsonArena) : Prop :=
  match Tree.changedItems Scalar.reread items with
  | none => ∃ e b, result = (.error e, b)
  | some items' => ∃ ids b, result = (.ok ids, b) ∧ b.ShowsItems ids items' ∧ ids.length = items.length ∧
      b.heldBytes = a.heldBytes + Tree.bytesItems items

def ImportsEntries (a : JsonArena) (entries : List (String × Tree))
    (result : Except String (List (String × NodeId)) × JsonArena) : Prop :=
  match Tree.changedEntries Scalar.reread entries with
  | none => ∃ e b, result = (.error e, b)
  | some entries' => ∃ ids b, result = (.ok ids, b) ∧ b.ShowsEntries ids entries' ∧ ids.map (·.1) = entries.map (·.1) ∧
      b.heldBytes = a.heldBytes + Tree.bytesEntries entries

omit [JsonSyntax] [SerdeNumbers] in
theorem get?_push_self (a : JsonArena) (node : Node) : (a.push node).2.nodes.get? a.nextId = some node := by
  rw [get?_push, if_pos rfl]

omit [JsonSyntax] [SerdeNumbers] in
theorem extends_attach (a : JsonArena) (id : NodeId) : Extends a (a.attach id) := ⟨fun _ _ => rfl, fun _ _ same => same, Nat.le_refl _⟩

theorem imports_scalar (s : Scalar) (a : JsonArena) : a.Imports (.scalar s) (a.importValue s.parsed) := by
  have pushed (s' : Scalar) (same : (Node.scalar s').bytes = (Node.scalar s).bytes) :
      ∃ new b, ((.ok (a.push (.scalar s')).1, (a.push (.scalar s')).2) : Except String NodeId × JsonArena) = (.ok new, b) ∧
        b.Shows new (.scalar s') ∧ b.heldBytes = a.heldBytes + (Tree.scalar s).bytes := by
    refine ⟨_, _, rfl, get?_push_self a _, ?_⟩
    rw [Tree.bytes, ← same]
    rfl
  rw [Imports, Tree.changed]
  cases s with
  | null => exact pushed .null rfl
  | bool b => exact pushed (.bool b) rfl
  | text t => exact pushed (.text t) rfl
  | number d =>
      rw [Scalar.reread, Scalar.parsed, importValue, rereadNumber]
      cases JsonSyntax.parseNumber (SerdeNumbers.numberLexeme (JsonSyntax.numberText d)) with
      | none => exact ⟨_, _, rfl⟩
      | some d' => exact pushed (.number d') rfl

mutual

theorem imports_parsed : ∀ (t : Tree) (a : JsonArena), a.Forest → a.Imports t (a.importValue t.parsed)
  | .object entries, a, forest => by
      have all := importsEntries_parsed entries a forest
      have made := makesEntries_importEntries (Tree.parsedEntries entries) a forest
      rw [Imports, Tree.changed, Tree.parsed, importValue]
      rw [ImportsEntries] at all
      cases changed : Tree.changedEntries Scalar.reread entries with
      | none =>
          rw [changed] at all
          obtain ⟨e, b, result⟩ := all
          rw [result]
          exact ⟨e, b, rfl⟩
      | some entries' =>
          rw [changed] at all
          obtain ⟨ids, b, result, shown, keys, bytes⟩ := all
          rw [result] at made ⊢
          refine ⟨b.nextId, _, rfl, ⟨ids, get?_push_self b _, ?_⟩, ?_⟩
          · exact (extends_push made.forest _).keeps.showsEntries entries' ids shown
          · have size : (Node.object ids).bytes = (Node.object (entries.map fun entry => (entry.1, 0))).bytes := by
              have texts := congrArg (List.map fun key : String => 32 + key.utf8ByteSize) keys
              rw [List.map_map, List.map_map] at texts
              rw [Node.bytes, Node.bytes, List.map_map]
              exact congrArg (fun sizes : List Nat => arenaEntry + sizes.sum) texts
            change b.heldBytes + (Node.object ids).bytes = _
            rw [bytes, size, Tree.bytes]
            omega
  | .array items, a, forest => by
      have all := importsItems_parsed items a forest
      have made := makesAll_importItems (Tree.parsedItems items) a forest
      rw [Imports, Tree.changed, Tree.parsed, importValue]
      rw [ImportsItems] at all
      cases changed : Tree.changedItems Scalar.reread items with
      | none =>
          rw [changed] at all
          obtain ⟨e, b, result⟩ := all
          rw [result]
          exact ⟨e, b, rfl⟩
      | some items' =>
          rw [changed] at all
          obtain ⟨ids, b, result, shown, length, bytes⟩ := all
          rw [result] at made ⊢
          refine ⟨b.nextId, _, rfl, ⟨ids, get?_push_self b _, ?_⟩, ?_⟩
          · exact (extends_push made.forest _).keeps.showsItems items' ids shown
          · change b.heldBytes + (Node.array ids).bytes = _
            rw [bytes, Tree.bytes, Node.bytes, Node.bytes, length, List.length_map]
            omega
  | .scalar s, a, _ => imports_scalar s a

theorem importsItems_parsed : ∀ (items : List Tree) (a : JsonArena), a.Forest →
    a.ImportsItems items (a.importItems (Tree.parsedItems items))
  | [], a, _ => ⟨[], a, rfl, trivial, rfl, rfl⟩
  | item :: rest, a, forest => by
      have first := imports_parsed item a forest
      have made := makes_importValue item.parsed a forest
      rw [ImportsItems, Tree.changedItems, Tree.parsedItems, importItems]
      rw [Imports] at first
      cases changed : item.changed Scalar.reread with
      | none =>
          rw [changed] at first
          obtain ⟨e, b, result⟩ := first
          rw [result]
          exact ⟨e, b, rfl⟩
      | some item' =>
          rw [changed] at first
          obtain ⟨new, b, result, shown, bytes⟩ := first
          rw [result] at made ⊢
          have marked := Added.mark made
          have others := importsItems_parsed rest (b.attach new) marked.forest
          have madeAll := makesAll_importItems (Tree.parsedItems rest) (b.attach new) marked.forest
          rw [ImportsItems] at others
          dsimp only [Option.bind_eq_bind, Option.bind_some]
          cases changed' : Tree.changedItems Scalar.reread rest with
          | none =>
              rw [changed'] at others
              obtain ⟨e, c, result'⟩ := others
              rw [result']
              exact ⟨e, c, rfl⟩
          | some rest' =>
              rw [changed'] at others
              obtain ⟨ids, c, result', shown', length, bytes'⟩ := others
              rw [result'] at madeAll ⊢
              refine ⟨new :: ids, c, rfl, ⟨?_, shown'⟩, ?_, ?_⟩
              · exact ((extends_attach b new).trans madeAll.grown).keeps.shows item' new shown
              · rw [List.length_cons, List.length_cons, length]
              · have same : (b.attach new).heldBytes = b.heldBytes := rfl
                rw [bytes', same, bytes, Tree.bytesItems]
                omega

theorem importsEntries_parsed : ∀ (entries : List (String × Tree)) (a : JsonArena), a.Forest →
    a.ImportsEntries entries (a.importEntries (Tree.parsedEntries entries))
  | [], a, _ => ⟨[], a, rfl, trivial, rfl, rfl⟩
  | (key, item) :: rest, a, forest => by
      have first := imports_parsed item a forest
      have made := makes_importValue item.parsed a forest
      rw [ImportsEntries, Tree.changedEntries, Tree.parsedEntries, importEntries]
      rw [Imports] at first
      cases changed : item.changed Scalar.reread with
      | none =>
          rw [changed] at first
          obtain ⟨e, b, result⟩ := first
          rw [result]
          exact ⟨e, b, rfl⟩
      | some item' =>
          rw [changed] at first
          obtain ⟨new, b, result, shown, bytes⟩ := first
          rw [result] at made ⊢
          have marked := Added.mark made
          have others := importsEntries_parsed rest (b.attach new) marked.forest
          have madeAll := makesEntries_importEntries (Tree.parsedEntries rest) (b.attach new) marked.forest
          rw [ImportsEntries] at others
          dsimp only [Option.bind_eq_bind, Option.bind_some]
          cases changed' : Tree.changedEntries Scalar.reread rest with
          | none =>
              rw [changed'] at others
              obtain ⟨e, c, result'⟩ := others
              rw [result']
              exact ⟨e, c, rfl⟩
          | some rest' =>
              rw [changed'] at others
              obtain ⟨ids, c, result', shown', keys, bytes'⟩ := others
              rw [result'] at madeAll ⊢
              refine ⟨(key, new) :: ids, c, rfl, ⟨rfl, ?_, shown'⟩, ?_, ?_⟩
              · exact ((extends_attach b new).trans madeAll.grown).keeps.shows item' new shown
              · rw [List.map_cons, List.map_cons, keys]
              · have same : (b.attach new).heldBytes = b.heldBytes := rfl
                rw [bytes', same, bytes, Tree.bytesEntries]
                omega

end

/-! ## Reading back -/

/-- A value is written, read into a variable as the same value, and written again. -/
def ReadsBack (a b : JsonArena) (id : NodeId) (ref : JsonRef) (t : Tree) : Prop :=
  ∃ text, a.writeTo id [] = .ok { result := .value (.text text) } ∧
    ∃ b' new t', b.readFrom ref [.value (.text text)] = (.ok .done, b') ∧ b'.targets.get? ref.handle = some new ∧
      b'.Shows new t' ∧ t.Same t' ∧ b'.writeTo new [] = .ok { result := .value (.text text) }

omit [SerdeNumbers] in
theorem writeTo_shows {t : Tree} {id : NodeId} (shown : a.Shows id t) (low : t.height ≤ maxJsonDepth) :
    a.writeTo id [] = .ok { result := .value (.text t.text) } := by
  rw [writeTo, textOf_shows shown low]
  rfl

theorem same_iff {t t' : Tree} (read : t.changed Scalar.reread = some t') : t.Same t' ↔ t.KeepsNumbers := by
  have total : (t.changed fun s => some s.normal).isSome := by
    rw [Tree.changed_isSome]
    exact fun _ _ => rfl
  have both := @Tree.changed_bind Scalar.reread (fun s => some s.normal) t
  rw [read, Option.bind_some] at both
  rw [Tree.Same, both, eq_comm, Tree.changed_eq_iff t total]
  constructor
  · intro kept d member
    have here := kept _ member
    rw [Scalar.reread, Scalar.normal] at here
    cases reread : rereadNumber d with
    | none =>
        rw [reread] at here
        cases here
    | some d' =>
        rw [reread] at here
        obtain same := Scalar.number.inj (Option.some.inj here)
        rw [Option.map_some, same]
  · intro kept s member
    cases s with
    | null => rfl
    | bool b => rfl
    | text text => rfl
    | number d =>
        have here := kept d member
        rw [Scalar.reread, Scalar.normal]
        cases reread : rereadNumber d with
        | none =>
            rw [reread] at here
            cases here
        | some d' =>
            rw [reread, Option.map_some] at here
            change some (Scalar.number d'.normalize) = _
            rw [Option.some.inj here]

omit [SerdeNumbers] in
theorem same_text (normal : ∀ d : Decimal, JsonSyntax.numberText d.normalize = JsonSyntax.numberText d) {t t' : Tree}
    (same : t.Same t') : t'.text = t.text ∧ t'.height = t.height := by
  have kept : Tree.Kept fun s => some s.normal := by
    intro s s' changed
    cases changed
    cases s with
    | number d => exact normal d
    | null => rfl
    | bool b => rfl
    | text text => rfl
  have total : (t.changed fun s => some s.normal).isSome := by
    rw [Tree.changed_isSome]
    exact fun _ _ => rfl
  obtain ⟨c, here⟩ := Option.isSome_iff_exists.mp total
  have first := Tree.text_changed kept t c here
  have second := Tree.text_changed kept t' c (same.symm.trans here)
  exact ⟨second.1.symm.trans first.1, second.2.symm.trans first.2⟩

omit [JsonSyntax] [SerdeNumbers] in
theorem keyArg_text (text what : String) : keyArg [.value (.text text)] what = .ok text := rfl

omit [SerdeNumbers] in
theorem readFrom_refused {ref : JsonRef} {text e : String} (refused : JsonSyntax.parseJson text = .error e) :
    b.readFrom ref [.value (.text text)] = (.error (.failed s!"the text is not valid JSON: {e}"), b) := by
  rw [readFrom, keyArg_text, withArg, refused]

/-- What `ReadFrom` makes of an import. -/
def retarget (ref : JsonRef) : Except String NodeId × JsonArena → Answer
  | (.error e, b) => (.error (.invalid e), b)
  | (.ok imported, b) =>
    match b.checkHeldBytes s!"{ref.kind.name}.ReadFrom" with
    | .error e => (.error (.invalid e), b)
    | .ok () => (.ok .done, { b with targets := b.targets.insert ref.handle imported })

omit [SerdeNumbers] in
theorem readFrom_accepted {ref : JsonRef} {text : String} {parsed : Parsed}
    (accepted : JsonSyntax.parseJson text = .ok parsed) (fitting : fits ref.kind parsed = true) :
    b.readFrom ref [.value (.text text)] = retarget ref (b.importValue parsed) := by
  rw [readFrom, keyArg_text, withArg, accepted]
  dsimp only
  rw [if_pos fitting]
  rfl

omit [JsonSyntax] [SerdeNumbers] in
theorem retarget_ok_iff {ref : JsonRef} {new : NodeId} {reply : Reply} {b' : JsonArena} :
    retarget ref (.ok new, b) = (.ok reply, b') ↔
      b.heldBytes ≤ maxHeldBytes ∧ reply = .done ∧ b' = { b with targets := b.targets.insert ref.handle new } := by
  rw [retarget, checkHeldBytes]
  by_cases exceeds : maxHeldBytes < b.heldBytes
  · rw [if_pos exceeds]
    apply iff_of_false
    · intro same
      cases same
    · exact fun both => absurd both.1 (Nat.not_le.mpr exceeds)
  · rw [if_neg exceeds]
    rw [Prod.mk.injEq, Except.ok.injEq, and_iff_right (Nat.not_lt.mp exceeds), eq_comm, @eq_comm _ b']

section ReadBack

variable {t : Tree} {id : NodeId} {ref : JsonRef} (shown : a.Shows id t) (low : t.height ≤ maxJsonDepth)
  (distinct : t.DistinctKeys) (forest : b.Forest) (fitting : fits ref.kind t.parsed = true) (parses : t.Parses)
include shown low distinct forest fitting parses

theorem of_readsBack (back : ReadsBack a b id ref t) :
    t.nested < recursionLimit ∧ t.KeepsNumbers ∧ b.heldBytes + t.bytes ≤ maxHeldBytes := by
  have written := writeTo_shows shown low
  have imports := imports_parsed t b forest
  obtain ⟨accepts, refuses⟩ := parses distinct
  have same_nodes (c : JsonArena) (new : NodeId) : Keeps c { c with targets := c.targets.insert ref.handle new } :=
    fun _ _ there => there
  rw [Imports] at imports
  obtain ⟨text, written', b', new, t', read, target, shown', same, -⟩ := back
  rw [written] at written'
  cases written'
  by_cases deep : recursionLimit ≤ t.nested
  · obtain ⟨e, refused⟩ := refuses deep
    rw [readFrom_refused refused] at read
    cases read
  · rw [readFrom_accepted (accepts (Nat.not_le.mp deep)) fitting] at read
    cases reread : t.changed Scalar.reread with
    | none =>
        rw [reread] at imports
        obtain ⟨e, c, failed⟩ := imports
        rw [failed] at read
        cases read
    | some t'' =>
        rw [reread] at imports
        obtain ⟨made, c, result, shown'', bytes⟩ := imports
        rw [result, retarget_ok_iff] at read
        obtain ⟨room, -, rfl⟩ := read
        rw [IndexMap.get?_insert, if_pos rfl] at target
        obtain rfl : made = new := Option.some.inj target
        obtain rfl := shows_unique t' t'' made shown' ((same_nodes c made).shows t'' made shown'')
        exact ⟨Nat.not_le.mp deep, (same_iff reread).mp same, bytes ▸ room⟩

theorem readsBack_of (normal : ∀ d : Decimal, JsonSyntax.numberText d.normalize = JsonSyntax.numberText d)
    (shallow : t.nested < recursionLimit) (keeps : t.KeepsNumbers) (room : b.heldBytes + t.bytes ≤ maxHeldBytes) :
    ReadsBack a b id ref t := by
  have written := writeTo_shows shown low
  have imports := imports_parsed t b forest
  obtain ⟨accepts, -⟩ := parses distinct
  have same_nodes (c : JsonArena) (new : NodeId) : Keeps c { c with targets := c.targets.insert ref.handle new } :=
    fun _ _ there => there
  rw [Imports] at imports
  have total : (t.changed Scalar.reread).isSome := by
    rw [Tree.changed_isSome]
    intro s member
    cases s with
    | null => rfl
    | bool b => rfl
    | text text => rfl
    | number d =>
        have here := keeps d member
        rw [Scalar.reread, Option.isSome_map]
        exact Option.isSome_map.symm.trans (Option.isSome_of_eq_some here)
  obtain ⟨t', reread⟩ := Option.isSome_iff_exists.mp total
  rw [reread] at imports
  obtain ⟨made, c, result, shown', bytes⟩ := imports
  have same := (same_iff reread).mpr keeps
  obtain ⟨text, height⟩ := same_text normal same
  refine ⟨t.text, written, { c with targets := c.targets.insert ref.handle made }, made, t', ?_, ?_, ?_, same, ?_⟩
  · rw [readFrom_accepted (accepts shallow) fitting, result, retarget_ok_iff]
    exact ⟨bytes ▸ room, rfl, rfl⟩
  · rw [IndexMap.get?_insert, if_pos rfl]
  · exact (same_nodes c made).shows t' made shown'
  · rw [writeTo_shows ((same_nodes c made).shows t' made shown') (by rw [height]; exact low), text]

/-- A value is read back exactly if its text is not nested too deep, its numbers are kept and its nodes are within the
budget. -/
theorem reads_back_iff (normal : ∀ d : Decimal, JsonSyntax.numberText d.normalize = JsonSyntax.numberText d) :
    ReadsBack a b id ref t ↔
      t.nested < recursionLimit ∧ t.KeepsNumbers ∧ b.heldBytes + t.bytes ≤ maxHeldBytes := by
  constructor
  · exact of_readsBack shown low distinct forest fitting parses
  · rintro ⟨shallow, keeps, room⟩
    exact readsBack_of shown low distinct forest fitting parses normal shallow keeps room

end ReadBack

end JsonArena

end Reading

section Examples

/-- The numbers 7 and 12345678901234567.89 and an array of the one. -/
@[reducible] def JsonSyntax.sample : JsonSyntax where
  parseJson text :=
    if text = "[7]" then .ok (.array [.number "7"])
    else if text = "12345678901234567.89" then .ok (.number "1.2345678901234568e16")
    else .error "expected value at line 1 column 1"
  parseNumber text :=
    if text = "1.2345678901234568e16" then some (.ofInt64 12345678901234568) else DecimalSyntax.plain.parseDecimal text
  numberText d := d.normalize.render
  displayNumber := Decimal.render
  debugScalar
    | .null => "Null"
    | .bool b => if b then "Bool(true)" else "Bool(false)"
    | .number d => "Number(" ++ d.render ++ ")"
    | .text t => "Text(" ++ writeString t ++ ")"
  renderXml value := value.typeName
  parsePath text := .error ("the JSON path " ++ text ++ " is not supported")

@[reducible] def SerdeNumbers.sample : SerdeNumbers :=
  ⟨fun text => if text = "12345678901234567.89" then "1.2345678901234568e16" else text⟩

attribute [local instance] JsonSyntax.sample SerdeNumbers.sample

theorem sample_scaleBound : 2 ≤ 28 := by decide

/-- An arena with the array `[7]` at node 2 and the number at node 3. -/
def sampleArena : JsonArena :=
  (((({} : JsonArena).push (.scalar (.number (.ofInt64 7)))).2.push (.array [1])).2.push
    (.scalar (.number ⟨1234567890123456789, 2, by decide, sample_scaleBound⟩))).2

def seven : Tree := .array [.scalar (.number (.ofInt64 7))]

theorem sample_normal (d : Decimal) : JsonSyntax.numberText d.normalize = JsonSyntax.numberText d := by
  change d.normalize.normalize.render = d.normalize.render
  rw [normalize_normalize]

theorem reads_back_seven : JsonArena.ReadsBack sampleArena {} 2 ⟨.array, 0⟩ seven := by
  have shown : sampleArena.Shows 2 seven := ⟨[1], rfl, rfl, trivial⟩
  have text : seven.text = "[7]" := by decide +kernel
  have parses : seven.Parses := by
    intro _
    rw [text]
    exact ⟨fun _ => by rfl, fun deep => absurd deep (by decide)⟩
  have keeps : seven.KeepsNumbers := by
    intro d member
    obtain rfl : d = .ofInt64 7 := by simpa [seven, Tree.scalars, Tree.scalarsItems] using member
    decide +kernel
  apply (JsonArena.reads_back_iff shown (by decide) (by simp [seven, Tree.DistinctKeys, Tree.DistinctItems])
    JsonArena.forest_new rfl parses sample_normal).mpr
  exact ⟨by decide, keeps, by decide⟩

def amount : Decimal := ⟨1234567890123456789, 2, by decide, sample_scaleBound⟩

/-- A decimal with more digits than a 64-bit float has is not read back. -/
theorem digits_lost : ¬JsonArena.ReadsBack sampleArena {} 3 ⟨.value, 0⟩ (.scalar (.number amount)) := by
  intro back
  have text : (Tree.scalar (.number amount)).text = "12345678901234567.89" := by decide +kernel
  have parses : (Tree.scalar (.number amount)).Parses := by
    intro _
    rw [text]
    exact ⟨fun _ => by rfl, fun deep => absurd deep (by decide)⟩
  have shown : sampleArena.Shows 3 (.scalar (.number amount)) := rfl
  have kept := (JsonArena.of_readsBack shown (by decide) trivial JsonArena.forest_new rfl parses back).2.1
  have lost : ¬(rereadNumber amount).map Decimal.normalize = some amount.normalize := by decide +kernel
  exact lost (kept amount List.mem_cons_self)

end Examples

end AlLanguage.Runtime.Json
