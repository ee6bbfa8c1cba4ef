import AlLanguage.Runtime.JsonCopies

/-!
# The trees that the arena holds

A node stands for a tree. It is written as the text of its tree, and importing a parsed tree makes a node that stands for it.
-/

namespace AlLanguage.Runtime.Json

open Library

inductive Tree where
  | object (entries : List (String × Tree))
  | array (items : List Tree)
  | scalar (s : Scalar)

/-- The text that `serde_json` gives for a number it has read. -/
class SerdeNumbers where
  numberLexeme : String → String

/-! ## What is asked of a tree -/

namespace Tree

mutual

/-- The levels below the root. -/
def height : Tree → Nat
  | object entries => heightEntries entries
  | array items => heightItems items
  | scalar _ => 0

def heightItems : List Tree → Nat
  | [] => 0
  | item :: rest => max (item.height + 1) (heightItems rest)

def heightEntries : List (String × Tree) → Nat
  | [] => 0
  | (_, item) :: rest => max (item.height + 1) (heightEntries rest)

end

mutual

/-- The containers that are open at the deepest place of the text. -/
def nested : Tree → Nat
  | object entries => nestedEntries entries + 1
  | array items => nestedItems items + 1
  | scalar _ => 0

def nestedItems : List Tree → Nat
  | [] => 0
  | item :: rest => max item.nested (nestedItems rest)

def nestedEntries : List (String × Tree) → Nat
  | [] => 0
  | (_, item) :: rest => max item.nested (nestedEntries rest)

end

mutual

def scalars : Tree → List Scalar
  | object entries => scalarsEntries entries
  | array items => scalarsItems items
  | scalar s => [s]

def scalarsItems : List Tree → List Scalar
  | [] => []
  | item :: rest => item.scalars ++ scalarsItems rest

def scalarsEntries : List (String × Tree) → List Scalar
  | [] => []
  | (_, item) :: rest => item.scalars ++ scalarsEntries rest

end

mutual

def DistinctKeys : Tree → Prop
  | object entries => (entries.map (·.1)).Nodup ∧ DistinctEntries entries
  | array items => DistinctItems items
  | scalar _ => True

def DistinctItems : List Tree → Prop
  | [] => True
  | item :: rest => item.DistinctKeys ∧ DistinctItems rest

def DistinctEntries : List (String × Tree) → Prop
  | [] => True
  | (_, item) :: rest => item.DistinctKeys ∧ DistinctEntries rest

end

mutual

/-- The bytes of the nodes of a tree. -/
def bytes : Tree → Nat
  | object entries => (Node.object (entries.map fun entry => (entry.1, 0))).bytes + bytesEntries entries
  | array items => (Node.array (items.map fun _ => 0)).bytes + bytesItems items
  | scalar s => (Node.scalar s).bytes

def bytesItems : List Tree → Nat
  | [] => 0
  | item :: rest => item.bytes + bytesItems rest

def bytesEntries : List (String × Tree) → Nat
  | [] => 0
  | (_, item) :: rest => item.bytes + bytesEntries rest

end

/-! ## Changed scalars -/

section Scalars

variable (change : Scalar → Option Scalar)

mutual

/-- The tree with its scalars changed, unless one has no counterpart. -/
def changed : Tree → Option Tree
  | object entries => (changedEntries entries).map object
  | array items => (changedItems items).map array
  | scalar s => (change s).map scalar

def changedItems : List Tree → Option (List Tree)
  | [] => some []
  | item :: rest => do
      let item ← item.changed
      let rest ← changedItems rest
      pure (item :: rest)

def changedEntries : List (String × Tree) → Option (List (String × Tree))
  | [] => some []
  | (key, item) :: rest => do
      let item ← item.changed
      let rest ← changedEntries rest
      pure ((key, item) :: rest)

end

variable {change} {other : Scalar → Option Scalar}

mutual

theorem changed_isSome : ∀ t : Tree, (t.changed change).isSome ↔ ∀ s ∈ t.scalars, (change s).isSome
  | object entries => by
      rw [changed, scalars, Option.isSome_map]
      exact changedEntries_isSome entries
  | array items => by
      rw [changed, scalars, Option.isSome_map]
      exact changedItems_isSome items
  | scalar s => by
      rw [changed, scalars, Option.isSome_map]
      simp

theorem changedItems_isSome : ∀ items, (changedItems change items).isSome ↔ ∀ s ∈ scalarsItems items, (change s).isSome
  | [] => by simp [changedItems, scalarsItems]
  | item :: rest => by
      have here := changed_isSome item
      have later := changedItems_isSome rest
      rw [changedItems, scalarsItems, List.forall_mem_append, ← here, ← later]
      cases item.changed change <;> cases changedItems change rest <;> simp

theorem changedEntries_isSome : ∀ entries,
    (changedEntries change entries).isSome ↔ ∀ s ∈ scalarsEntries entries, (change s).isSome
  | [] => by simp [changedEntries, scalarsEntries]
  | (key, item) :: rest => by
      have here := changed_isSome item
      have later := changedEntries_isSome rest
      rw [changedEntries, scalarsEntries, List.forall_mem_append, ← here, ← later]
      cases item.changed change <;> cases changedEntries change rest <;> simp

end

mutual

theorem changed_eq_iff : ∀ t : Tree, (t.changed other).isSome →
    (t.changed change = t.changed other ↔ ∀ s ∈ t.scalars, change s = other s)
  | object entries, total => by
      rw [changed, Option.isSome_map] at total
      rw [changed, changed, scalars, (Option.map_injective fun _ _ => object.inj).eq_iff]
      exact changedEntries_eq_iff entries total
  | array items, total => by
      rw [changed, Option.isSome_map] at total
      rw [changed, changed, scalars, (Option.map_injective fun _ _ => array.inj).eq_iff]
      exact changedItems_eq_iff items total
  | scalar s, _ => by
      rw [changed, changed, scalars, (Option.map_injective fun _ _ => scalar.inj).eq_iff]
      simp

theorem changedItems_eq_iff : ∀ items, (changedItems other items).isSome →
    (changedItems change items = changedItems other items ↔ ∀ s ∈ scalarsItems items, change s = other s)
  | [], _ => by simp [changedItems, scalarsItems]
  | item :: rest, total => by
      rw [changedItems_isSome, scalarsItems, List.forall_mem_append] at total
      have here := changed_eq_iff item ((changed_isSome item).mpr total.1)
      have later := changedItems_eq_iff rest ((changedItems_isSome rest).mpr total.2)
      rw [scalarsItems, List.forall_mem_append, ← here, ← later, changedItems, changedItems]
      obtain ⟨item', same⟩ := Option.isSome_iff_exists.mp ((changed_isSome item).mpr total.1)
      obtain ⟨rest', same'⟩ := Option.isSome_iff_exists.mp ((changedItems_isSome rest).mpr total.2)
      rw [same, same']
      cases item.changed change <;> cases changedItems change rest <;> simp

theorem changedEntries_eq_iff : ∀ entries, (changedEntries other entries).isSome →
    (changedEntries change entries = changedEntries other entries ↔ ∀ s ∈ scalarsEntries entries, change s = other s)
  | [], _ => by simp [changedEntries, scalarsEntries]
  | (key, item) :: rest, total => by
      rw [changedEntries_isSome, scalarsEntries, List.forall_mem_append] at total
      have here := changed_eq_iff item ((changed_isSome item).mpr total.1)
      have later := changedEntries_eq_iff rest ((changedEntries_isSome rest).mpr total.2)
      rw [scalarsEntries, List.forall_mem_append, ← here, ← later, changedEntries, changedEntries]
      obtain ⟨item', same⟩ := Option.isSome_iff_exists.mp ((changed_isSome item).mpr total.1)
      obtain ⟨rest', same'⟩ := Option.isSome_iff_exists.mp ((changedEntries_isSome rest).mpr total.2)
      rw [same, same']
      cases item.changed change <;> cases changedEntries change rest <;> simp

end

mutual

theorem changed_bind : ∀ t : Tree, ((t.changed change).bind fun t' => t'.changed other) =
    t.changed fun s => (change s).bind other
  | object entries => by
      rw [changed, changed, ← changedEntries_bind entries]
      cases changedEntries change entries <;> rfl
  | array items => by
      rw [changed, changed, ← changedItems_bind items]
      cases changedItems change items <;> rfl
  | scalar s => by
      rw [changed, changed]
      cases change s <;> rfl

theorem changedItems_bind : ∀ items, ((changedItems change items).bind fun items' => changedItems other items') =
    changedItems (fun s => (change s).bind other) items
  | [] => rfl
  | item :: rest => by
      rw [changedItems, changedItems, ← changed_bind item, ← changedItems_bind rest]
      cases item.changed change with
      | none => rfl
      | some item' =>
          cases changedItems change rest with
          | none => cases here : item'.changed other <;> simp [here]
          | some rest' => rfl

theorem changedEntries_bind : ∀ entries,
    ((changedEntries change entries).bind fun entries' => changedEntries other entries') =
      changedEntries (fun s => (change s).bind other) entries
  | [] => rfl
  | (key, item) :: rest => by
      rw [changedEntries, changedEntries, ← changed_bind item, ← changedEntries_bind rest]
      cases item.changed change with
      | none => rfl
      | some item' =>
          cases changedEntries change rest with
          | none => cases here : item'.changed other <;> simp [here]
          | some rest' => rfl

end

end Scalars

/-! ## Texts -/

section Texts

variable [JsonSyntax]

mutual

/-- The compact text. -/
def text : Tree → String
  | object entries => "\x7b" ++ ",".intercalate (textEntries entries) ++ "\x7d"
  | array items => "[" ++ ",".intercalate (textItems items) ++ "]"
  | scalar s => JsonArena.writeScalar s

def textItems : List Tree → List String
  | [] => []
  | item :: rest => item.text :: textItems rest

def textEntries : List (String × Tree) → List String
  | [] => []
  | (key, item) :: rest => (writeString key ++ ":" ++ item.text) :: textEntries rest

end

section Changed

variable {change : Scalar → Option Scalar}

/-- The scalars are written as they were. -/
def Kept (change : Scalar → Option Scalar) : Prop :=
  ∀ s s', change s = some s' → JsonArena.writeScalar s' = JsonArena.writeScalar s

mutual

theorem text_changed (kept : Kept change) : ∀ t t' : Tree, t.changed change = some t' → t'.text = t.text ∧ t'.height = t.height
  | object entries, t', same => by
      rw [changed] at same
      obtain ⟨entries', same', rfl⟩ := Option.map_eq_some_iff.mp same
      obtain ⟨texts, heights⟩ := text_changedEntries kept entries entries' same'
      rw [text, text, height, height, texts, heights]
      exact ⟨rfl, rfl⟩
  | array items, t', same => by
      rw [changed] at same
      obtain ⟨items', same', rfl⟩ := Option.map_eq_some_iff.mp same
      obtain ⟨texts, heights⟩ := text_changedItems kept items items' same'
      rw [text, text, height, height, texts, heights]
      exact ⟨rfl, rfl⟩
  | scalar s, t', same => by
      rw [changed] at same
      obtain ⟨s', same', rfl⟩ := Option.map_eq_some_iff.mp same
      exact ⟨kept s s' same', rfl⟩

theorem text_changedItems (kept : Kept change) : ∀ items items', changedItems change items = some items' →
    textItems items' = textItems items ∧ heightItems items' = heightItems items
  | [], items', same => by
      cases same
      exact ⟨rfl, rfl⟩
  | item :: rest, items', same => by
      rw [changedItems] at same
      obtain ⟨item', here, same⟩ := Option.bind_eq_some_iff.mp same
      obtain ⟨rest', later, same⟩ := Option.bind_eq_some_iff.mp same
      cases same
      obtain ⟨texts, heights⟩ := text_changed kept item item' here
      obtain ⟨texts', heights'⟩ := text_changedItems kept rest rest' later
      rw [textItems, textItems, heightItems, heightItems, texts, texts', heights, heights']
      exact ⟨rfl, rfl⟩

theorem text_changedEntries (kept : Kept change) : ∀ entries entries', changedEntries change entries = some entries' →
    textEntries entries' = textEntries entries ∧ heightEntries entries' = heightEntries entries
  | [], entries', same => by
      cases same
      exact ⟨rfl, rfl⟩
  | (key, item) :: rest, entries', same => by
      rw [changedEntries] at same
      obtain ⟨item', here, same⟩ := Option.bind_eq_some_iff.mp same
      obtain ⟨rest', later, same⟩ := Option.bind_eq_some_iff.mp same
      cases same
      obtain ⟨texts, heights⟩ := text_changed kept item item' here
      obtain ⟨texts', heights'⟩ := text_changedEntries kept rest rest' later
      rw [textEntries, textEntries, heightEntries, heightEntries, texts, texts', heights, heights']
      exact ⟨rfl, rfl⟩

end

end Changed

end Texts

end Tree

/-! ## Nodes that stand for trees -/

namespace JsonArena

variable {a b : JsonArena}

mutual

/-- The node stands for the tree. -/
def Shows (a : JsonArena) (id : NodeId) : Tree → Prop
  | .object entries => ∃ children, a.nodes.get? id = some (.object children) ∧ ShowsEntries a children entries
  | .array items => ∃ children, a.nodes.get? id = some (.array children) ∧ ShowsItems a children items
  | .scalar s => a.nodes.get? id = some (.scalar s)

def ShowsItems (a : JsonArena) : List NodeId → List Tree → Prop
  | [], [] => True
  | id :: ids, item :: rest => Shows a id item ∧ ShowsItems a ids rest
  | _, _ => False

def ShowsEntries (a : JsonArena) : List (String × NodeId) → List (String × Tree) → Prop
  | [], [] => True
  | (key, id) :: ids, (key', item) :: rest => key = key' ∧ Shows a id item ∧ ShowsEntries a ids rest
  | _, _ => False

end

mutual

theorem shows_unique : ∀ (t t' : Tree) (id : NodeId), a.Shows id t → a.Shows id t' → t = t'
  | .object entries, t', id, shown, shown' => by
      obtain ⟨children, node, all⟩ := shown
      cases t' with
      | object entries' =>
          obtain ⟨children', node', all'⟩ := shown'
          rw [node] at node'
          cases node'
          exact congrArg _ (showsEntries_unique entries entries' children all all')
      | array items =>
          obtain ⟨children', node', _⟩ := shown'
          rw [node] at node'
          cases node'
      | scalar s =>
          rw [Shows, node] at shown'
          cases shown'
  | .array items, t', id, shown, shown' => by
      obtain ⟨children, node, all⟩ := shown
      cases t' with
      | object entries =>
          obtain ⟨children', node', _⟩ := shown'
          rw [node] at node'
          cases node'
      | array items' =>
          obtain ⟨children', node', all'⟩ := shown'
          rw [node] at node'
          cases node'
          exact congrArg _ (showsItems_unique items items' children all all')
      | scalar s =>
          rw [Shows, node] at shown'
          cases shown'
  | .scalar s, t', id, shown, shown' => by
      rw [Shows] at shown
      cases t' with
      | object entries =>
          obtain ⟨children', node', _⟩ := shown'
          rw [shown] at node'
          cases node'
      | array items =>
          obtain ⟨children', node', _⟩ := shown'
          rw [shown] at node'
          cases node'
      | scalar s' =>
          rw [Shows, shown] at shown'
          cases shown'
          rfl

theorem showsItems_unique : ∀ (items items' : List Tree) (ids : List NodeId), a.ShowsItems ids items →
    a.ShowsItems ids items' → items = items'
  | [], [], _, _, _ => rfl
  | [], _ :: _, [], _, shown' => shown'.elim
  | [], _, _ :: _, shown, _ => shown.elim
  | _ :: _, _, [], shown, _ => shown.elim
  | _ :: _, [], _ :: _, _, shown' => shown'.elim
  | item :: rest, item' :: rest', id :: ids, shown, shown' => by
      rw [shows_unique item item' id shown.1 shown'.1, showsItems_unique rest rest' ids shown.2 shown'.2]

theorem showsEntries_unique : ∀ (entries entries' : List (String × Tree)) (ids : List (String × NodeId)),
    a.ShowsEntries ids entries → a.ShowsEntries ids entries' → entries = entries'
  | [], [], _, _, _ => rfl
  | [], _ :: _, [], _, shown' => shown'.elim
  | [], _, _ :: _, shown, _ => shown.elim
  | _ :: _, _, [], shown, _ => shown.elim
  | _ :: _, [], _ :: _, _, shown' => shown'.elim
  | (key, item) :: rest, (key', item') :: rest', (name, id) :: ids, shown, shown' => by
      rw [← shown.1, ← shown'.1, shows_unique item item' id shown.2.1 shown'.2.1,
        showsEntries_unique rest rest' ids shown.2.2 shown'.2.2]

end

theorem exists_of_get? {id : NodeId} {node : Node} (there : a.nodes.get? id = some node) : a.Exists id := by
  rw [Exists, there]
  rfl

/-- The nodes of one arena are in the other. -/
def Keeps (a b : JsonArena) : Prop := ∀ id node, a.nodes.get? id = some node → b.nodes.get? id = some node

theorem Extends.keeps (grown : Extends a b) : Keeps a b :=
  fun id _ there => (grown.nodes id (exists_of_get? there)).trans there

mutual

theorem Keeps.shows (keeps : Keeps a b) : ∀ (t : Tree) (id : NodeId), a.Shows id t → b.Shows id t
  | .object entries, id, shown => by
      obtain ⟨children, node, all⟩ := shown
      exact ⟨children, keeps id _ node, keeps.showsEntries entries children all⟩
  | .array items, id, shown => by
      obtain ⟨children, node, all⟩ := shown
      exact ⟨children, keeps id _ node, keeps.showsItems items children all⟩
  | .scalar _, id, shown => keeps id _ shown

theorem Keeps.showsItems (keeps : Keeps a b) : ∀ (items : List Tree) (ids : List NodeId), a.ShowsItems ids items →
    b.ShowsItems ids items
  | [], [], _ => trivial
  | [], _ :: _, shown => shown.elim
  | _ :: _, [], shown => shown.elim
  | item :: rest, id :: ids, shown => ⟨keeps.shows item id shown.1, keeps.showsItems rest ids shown.2⟩

theorem Keeps.showsEntries (keeps : Keeps a b) : ∀ (entries : List (String × Tree)) (ids : List (String × NodeId)),
    a.ShowsEntries ids entries → b.ShowsEntries ids entries
  | [], [], _ => trivial
  | [], _ :: _, shown => shown.elim
  | _ :: _, [], shown => shown.elim
  | (_, item) :: rest, (_, id) :: ids, shown =>
      ⟨shown.1, keeps.shows item id shown.2.1, keeps.showsEntries rest ids shown.2.2⟩

end

/-! ## Writing -/

theorem node_of_get? {id : NodeId} {node : Node} (there : a.nodes.get? id = some node) : a.node id = node := by
  rw [JsonArena.node, there]
  rfl

section Writing

variable [JsonSyntax]

mutual

theorem writeAt_shows : ∀ (t : Tree) (id : NodeId) (levels : Nat), a.Shows id t → t.height < levels →
    writeAt levels a id = .ok t.text
  | .object entries, id, levels, shown, low => by
      obtain ⟨children, node, all⟩ := shown
      obtain ⟨levels, rfl⟩ := Nat.exists_eq_succ_of_ne_zero (Nat.ne_zero_of_lt low)
      rw [Tree.height] at low
      rw [writeAt, node_of_get? node]
      dsimp only
      rw [writeAt_showsEntries entries children levels all (Nat.le_of_lt_succ low)]
      rfl
  | .array items, id, levels, shown, low => by
      obtain ⟨children, node, all⟩ := shown
      obtain ⟨levels, rfl⟩ := Nat.exists_eq_succ_of_ne_zero (Nat.ne_zero_of_lt low)
      rw [Tree.height] at low
      rw [writeAt, node_of_get? node]
      dsimp only
      rw [writeAt_showsItems items children levels all (Nat.le_of_lt_succ low)]
      rfl
  | .scalar s, id, levels, shown, low => by
      obtain ⟨levels, rfl⟩ := Nat.exists_eq_succ_of_ne_zero (Nat.ne_zero_of_lt low)
      rw [writeAt, node_of_get? shown]
      rfl

theorem writeAt_showsItems : ∀ (items : List Tree) (ids : List NodeId) (levels : Nat), a.ShowsItems ids items →
    Tree.heightItems items ≤ levels → ids.mapM (writeAt levels a) = .ok (Tree.textItems items)
  | [], [], _, _, _ => rfl
  | [], _ :: _, _, shown, _ => shown.elim
  | _ :: _, [], _, shown, _ => shown.elim
  | item :: rest, id :: ids, levels, shown, low => by
      rw [Tree.heightItems] at low
      have here := writeAt_shows item id levels shown.1 (by omega)
      have later := writeAt_showsItems rest ids levels shown.2 (by omega)
      rw [List.mapM_cons, here, later]
      rfl

theorem writeAt_showsEntries : ∀ (entries : List (String × Tree)) (ids : List (String × NodeId)) (levels : Nat),
    a.ShowsEntries ids entries → Tree.heightEntries entries ≤ levels →
    (ids.mapM fun entry => do
      let text ← writeAt levels a entry.2
      pure (writeString entry.1 ++ ":" ++ text)) = .ok (Tree.textEntries entries)
  | [], [], _, _, _ => rfl
  | [], _ :: _, _, shown, _ => shown.elim
  | _ :: _, [], _, shown, _ => shown.elim
  | (key, item) :: rest, (name, id) :: ids, levels, shown, low => by
      rw [Tree.heightEntries] at low
      obtain ⟨rfl, first, others⟩ := shown
      have here := writeAt_shows item id levels first (by omega)
      have later := writeAt_showsEntries rest ids levels others (by omega)
      rw [List.mapM_cons]
      dsimp only
      rw [here, later]
      rfl

end

theorem textOf_shows {t : Tree} {id : NodeId} (shown : a.Shows id t) (low : t.height ≤ maxJsonDepth) :
    a.textOf id = .ok t.text := writeAt_shows t id _ shown (Nat.lt_succ_of_le low)

end Writing

end JsonArena

end AlLanguage.Runtime.Json
