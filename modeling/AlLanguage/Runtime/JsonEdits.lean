import AlLanguage.Library.Pointwise
import AlLanguage.Runtime.JsonValues

/-!
# What calls change

- A copy stands for the same tree and is made exactly where the tree is not too deep.
- A call that succeeds changes the tree of its receiver as the method says, and no value that does not hold the receiver.
-/

namespace AlLanguage.Runtime.Json

open Library
open Relation (TransGen ReflTransGen)

namespace JsonArena

variable {a b c : JsonArena} {κ : Nat → JsonKind} {id : NodeId} {node : Node} {ref : JsonRef} {args : List JsonArg}

/-! ## Copies -/

theorem showsEntries_iff (ids : List (String × NodeId)) : ∀ entries : List (String × Tree), a.ShowsEntries ids entries ↔
    ids.map (·.1) = entries.map (·.1) ∧ a.ShowsItems (ids.map (·.2)) (entries.map (·.2)) := by
  induction ids with
  | nil =>
      intro entries
      cases entries with
      | nil => exact ⟨fun _ => ⟨rfl, trivial⟩, fun _ => trivial⟩
      | cons entry rest => exact ⟨fun shown => shown.elim, fun shown => shown.2.elim⟩
  | cons id ids ih =>
      intro entries
      cases entries with
      | nil => exact ⟨fun shown => shown.elim, fun shown => shown.2.elim⟩
      | cons entry rest =>
          rw [ShowsEntries, ih, List.map_cons, List.map_cons, List.map_cons, List.map_cons, ShowsItems, List.cons.injEq]
          tauto

/-- The copies stand for what is copied, and there is one where no tree is too deep. -/
theorem shows_copyAll {levels : Nat} (copies : ∀ (b : JsonArena) (id : NodeId) (t : Tree), b.Forest → b.Exists id → b.Shows id t →
      (t.height < levels ↔ ∃ new c, deepCopyAt levels b id = (.ok new, c)) ∧
        ∀ new c, deepCopyAt levels b id = (.ok new, c) → c.Shows new t) (ids : List NodeId) :
    ∀ (a : JsonArena) (items : List Tree), a.Forest → (∀ id ∈ ids, a.Exists id) → a.ShowsItems ids items →
      (Tree.heightItems items ≤ levels ↔ ∃ news c, copyAll (deepCopyAt levels) a ids = (.ok news, c)) ∧
        ∀ news c, copyAll (deepCopyAt levels) a ids = (.ok news, c) → c.ShowsItems news items := by
  induction ids with
  | nil =>
      intro a items forest there shown
      cases items with
      | nil =>
          refine ⟨iff_of_true (Nat.zero_le _) ⟨[], a, rfl⟩, ?_⟩
          intro news c copied
          cases copied
          trivial
      | cons item rest => exact shown.elim
  | cons id ids ih =>
      intro a items forest there shown
      cases items with
      | nil => exact shown.elim
      | cons item rest =>
          obtain ⟨here, shows⟩ := copies a id item forest (there id List.mem_cons_self) shown.1
          have made := makes_deepCopyAt levels a id forest (there id List.mem_cons_self)
          rw [Tree.heightItems, Nat.max_le, Nat.succ_le_iff, here, copyAll]
          cases copied : deepCopyAt levels a id with
          | mk result b =>
              rw [copied] at made
              cases result with
              | error e => simp
              | ok new =>
                  have marked := Added.mark made
                  have later := marked.grown.keeps
                  obtain ⟨others, shows'⟩ := ih (b.attach new) rest marked.forest
                    (fun other inside => marked.grown.exists_ (there other (List.mem_cons_of_mem _ inside)))
                    (later.showsItems rest ids shown.2)
                  have all := makesAll_copyAll (makes_deepCopyAt levels) ids (b.attach new) marked.forest
                    fun other inside => marked.grown.exists_ (there other (List.mem_cons_of_mem _ inside))
                  rw [others]
                  dsimp only
                  cases copiedAll : copyAll (deepCopyAt levels) (b.attach new) ids with
                  | mk result c =>
                      rw [copiedAll] at all
                      cases result with
                      | error e => simp
                      | ok news =>
                          refine ⟨by simp, ?_⟩
                          intro news' c' same
                          cases same
                          have kept : Keeps b c := fun id node held => all.grown.keeps id node held
                          exact ⟨kept.shows item new (shows new b copied), shows' news c copiedAll⟩

theorem heightEntries_eq (entries : List (String × Tree)) : Tree.heightEntries entries = Tree.heightItems (entries.map (·.2)) := by
  induction entries with
  | nil => rfl
  | cons entry rest ih => rw [Tree.heightEntries, List.map_cons, Tree.heightItems, ih]

/-- A new node with the copies of the children. -/
theorem shows_pushCopies {entries : List (String × NodeId)} {trees : List (String × Tree)} {copies : List NodeId} (forest : a.Forest)
    (length : copies.length = entries.length) (keys : entries.map (·.1) = trees.map (·.1)) (shown : a.ShowsItems copies (trees.map (·.2))) :
    (a.push (.object ((entries.map (·.1)).zip copies))).2.Shows a.nextId (.object trees) := by
  have same : (entries.map (·.1)).length = copies.length := by rw [List.length_map, length]
  refine ⟨_, (get?_push a _ _).trans (if_pos rfl), (showsEntries_iff _ _).mpr ⟨?_, ?_⟩⟩
  · rw [List.map_fst_zip same.le, keys]
  · rw [List.map_snd_zip same.ge]
    exact (extends_push forest _).keeps.showsItems _ _ shown

/-- A copy stands for what is copied, and it is made where the tree is not too deep. -/
theorem shows_deepCopyAt (levels : Nat) : ∀ (a : JsonArena) (id : NodeId) (t : Tree), a.Forest → a.Exists id → a.Shows id t →
    (t.height < levels ↔ ∃ new b, deepCopyAt levels a id = (.ok new, b)) ∧
      ∀ new b, deepCopyAt levels a id = (.ok new, b) → b.Shows new t := by
  induction levels with
  | zero =>
      intro a id t _ _ _
      refine ⟨iff_of_false (Nat.not_lt_zero _) ?_, ?_⟩
      · rintro ⟨new, b, copied⟩
        cases copied
      · intro new b copied
        cases copied
  | succ levels ih =>
      intro a id t forest there shown
      have all := makesAll_copyAll (makes_deepCopyAt levels) (a.children id) a forest (forest.resolves id)
      cases t with
      | object trees =>
          obtain ⟨entries, held, each⟩ := shown
          obtain ⟨keys, items⟩ := (showsEntries_iff _ _).mp each
          have here : a.children id = entries.map (·.2) := by rw [children, node_of_get? held, Node.children]
          rw [here] at all
          obtain ⟨low, shows⟩ := shows_copyAll ih (entries.map (·.2)) a _ forest (here ▸ forest.resolves id) items
          rw [Tree.height, Nat.lt_succ_iff, heightEntries_eq, low, deepCopyAt, here, node_of_get? held]
          cases copied : copyAll (deepCopyAt levels) a (entries.map (·.2)) with
          | mk result b =>
              rw [copied] at all
              cases result with
              | error e => simp
              | ok copies =>
                  refine ⟨by simp, ?_⟩
                  intro new c same
                  cases same
                  have length := copyAll_length copied
                  rw [List.length_map] at length
                  exact shows_pushCopies all.forest length keys (shows copies b copied)
      | array trees =>
          obtain ⟨ids, held, each⟩ := shown
          have here : a.children id = ids := by rw [children, node_of_get? held, Node.children]
          rw [here] at all
          obtain ⟨low, shows⟩ := shows_copyAll ih ids a trees forest (here ▸ forest.resolves id) each
          rw [Tree.height, Nat.lt_succ_iff, low, deepCopyAt, here, node_of_get? held]
          cases copied : copyAll (deepCopyAt levels) a ids with
          | mk result b =>
              rw [copied] at all
              cases result with
              | error e => simp
              | ok copies =>
                  refine ⟨by simp, ?_⟩
                  intro new c same
                  cases same
                  exact ⟨copies, (get?_push b _ _).trans (if_pos rfl),
                    (extends_push all.forest _).keeps.showsItems _ _ (shows copies b copied)⟩
      | scalar s =>
          have here : a.children id = [] := by rw [children, node_of_get? shown, Node.children]
          rw [Tree.height, deepCopyAt, here, node_of_get? shown]
          refine ⟨iff_of_true (Nat.succ_pos _) ⟨_, _, rfl⟩, ?_⟩
          intro new c same
          cases same
          exact (get?_push a _ _).trans (if_pos rfl)

/-! ## Lists of trees -/

theorem showsItems_forall₂ (ids : List NodeId) : ∀ items : List Tree, a.ShowsItems ids items ↔ List.Forall₂ a.Shows ids items := by
  induction ids with
  | nil =>
      intro items
      cases items with
      | nil => exact iff_of_true trivial .nil
      | cons item rest => exact ⟨fun shown => shown.elim, fun all => by cases all⟩
  | cons id ids ih =>
      intro items
      cases items with
      | nil => exact ⟨fun shown => shown.elim, fun all => by cases all⟩
      | cons item rest => rw [ShowsItems, List.forall₂_cons, ih]

/-- An entry stands for an entry with its key. -/
def ShowsEntry (a : JsonArena) (entry : String × NodeId) (tree : String × Tree) : Prop := entry.1 = tree.1 ∧ a.Shows entry.2 tree.2

theorem showsEntries_forall₂ (ids : List (String × NodeId)) : ∀ entries : List (String × Tree),
    a.ShowsEntries ids entries ↔ List.Forall₂ a.ShowsEntry ids entries := by
  induction ids with
  | nil =>
      intro entries
      cases entries with
      | nil => exact iff_of_true trivial .nil
      | cons entry rest => exact ⟨fun shown => shown.elim, fun all => by cases all⟩
  | cons id ids ih =>
      intro entries
      cases entries with
      | nil => exact ⟨fun shown => shown.elim, fun all => by cases all⟩
      | cons entry rest => rw [ShowsEntries, List.forall₂_cons, ih, ShowsEntry, and_assoc]

/-! ## A node that is changed -/

/-- What does not hold the changed node is kept. -/
theorem shows_set {t : Tree} {other : NodeId} (apart : ¬ ReflTransGen a.Contains other id) (shown : a.Shows other t) :
    (a.set id node).Shows other t := by
  refine shows_kept t other ?_ shown
  intro x walk
  rw [get?_set, if_neg]
  rintro rfl
  exact apart walk

theorem Forest.child_apart (forest : a.Forest) {child : NodeId} (inside : child ∈ a.children id) : ¬ ReflTransGen a.Contains child id := by
  intro walk
  exact forest.acyclic id (TransGen.head' inside walk)

theorem showsItems_set {ids : List NodeId} {items : List Tree} (apart : ∀ child ∈ ids, ¬ ReflTransGen a.Contains child id)
    (shown : List.Forall₂ a.Shows ids items) : (a.set id (.array ids)).Shows id (.array items) := by
  refine ⟨ids, (get?_set a id _ id).trans (if_pos rfl), (showsItems_forall₂ _ _).mpr ?_⟩
  generalize Node.array ids = new
  induction shown with
  | nil => exact .nil
  | cons first rest ih =>
      exact .cons (shows_set (apart _ List.mem_cons_self) first) (ih fun child inside => apart child (List.mem_cons_of_mem _ inside))

theorem showsEntries_set {ids : List (String × NodeId)} {entries : List (String × Tree)}
    (apart : ∀ entry ∈ ids, ¬ ReflTransGen a.Contains entry.2 id) (shown : List.Forall₂ a.ShowsEntry ids entries) :
    (a.set id (.object ids)).Shows id (.object entries) := by
  refine ⟨ids, (get?_set a id _ id).trans (if_pos rfl), (showsEntries_forall₂ _ _).mpr ?_⟩
  generalize Node.object ids = new
  induction shown with
  | nil => exact .nil
  | cons first rest ih =>
      exact .cons ⟨first.1, shows_set (apart _ List.mem_cons_self) first.2⟩
        (ih fun entry inside => apart entry (List.mem_cons_of_mem _ inside))

/-! ## What a call leaves -/

/-- Nodes, and what handles stand for, are as they were. There may be more of both. -/
structure Calm (κ : Nat → JsonKind) (a b : JsonArena) : Prop where
  grown : Extends a b
  made : ∀ handle < a.nextId, ∀ node, b.targets.get? handle = some node → a.targets.get? handle = some node ∨
    a.targets.get? handle = none ∧ ¬ a.Exists node ∧ b.nodes.get? node = some (emptyNode (κ handle))

theorem Quiet.calm (quiet : Quiet κ a b) : Calm κ a b := ⟨quiet.grown, fun handle _ => quiet.made handle⟩

theorem Calm.refl (a : JsonArena) : Calm κ a a := (Quiet.refl a).calm

theorem Calm.trans (forest : b.Forest) (first : Calm κ a b) (second : Calm κ b c) : Calm κ a c where
  grown := first.grown.trans second.grown
  made handle known node same := by
    rcases second.made handle (Nat.lt_of_lt_of_le known first.grown.nextId) node same with before | ⟨missing, unknown, new⟩
    · rcases first.made handle known node before with first_before | ⟨missing, unknown, new⟩
      · exact .inl first_before
      · exact .inr ⟨missing, unknown, (second.grown.nodes node (forest.targets handle node before).2).trans new⟩
    · refine .inr ⟨?_, fun there => unknown (first.grown.exists_ there), new⟩
      cases there : a.targets.get? handle with
      | none => rfl
      | some old =>
          rw [first.grown.targets handle old there] at missing
          cases missing

theorem calm_reference (forest : a.Forest) (kind : JsonKind) (id : NodeId) : Calm κ a (a.reference kind id).2 where
  grown := by
    refine ⟨fun _ _ => rfl, ?_, Nat.le_succ _⟩
    intro handle node same
    show (a.targets.insert a.nextId id).get? handle = some node
    rw [IndexMap.get?_insert, if_neg]
    · exact same
    · rintro rfl
      exact Nat.lt_irrefl _ (forest.targets _ _ same).1
  made handle known node same := by
    replace same : (a.targets.insert a.nextId id).get? handle = some node := same
    rw [IndexMap.get?_insert, if_neg (Nat.ne_of_gt known)] at same
    exact .inl same

theorem calm_referenceAnswer (forest : a.Forest) {kind : JsonKind} {reply : Reply} (answered : a.referenceAnswer kind id = (.ok reply, b)) :
    Calm κ a b := by
  have same : (a.reference kind id).2 = b := congrArg Prod.snd answered
  exact same ▸ calm_reference forest kind id

theorem calm_tokenAnswer (forest : a.Forest) {reply : Reply} (answered : a.tokenAnswer id = (.ok reply, b)) : Calm κ a b := by
  have same : (a.reference .token id).2 = b := congrArg Prod.snd answered
  exact same ▸ calm_reference forest .token id

theorem calm_tokensFor (children : List NodeId) : ∀ a : JsonArena, a.Forest → (∀ c ∈ children, a.Exists c) →
    Calm κ a (a.tokensFor children).2 := by
  induction children with
  | nil => exact fun a _ _ => .refl a
  | cons child rest ih =>
      intro a forest there
      have new : (a.reference .token child).2.Forest :=
        forest_retarget (forest_freshId forest) (Nat.lt_succ_self _) (there child List.mem_cons_self)
      exact (calm_reference forest .token child).trans new (ih _ new fun c inside => there c (List.mem_cons_of_mem _ inside))

/-- One node is another one. The other nodes, and what handles stand for, are as they were. -/
structure Edited (κ : Nat → JsonKind) (a : JsonArena) (id : NodeId) (t : Tree) (b : JsonArena) : Prop where
  nodes : ∀ other, a.Exists other → other ≠ id → b.nodes.get? other = a.nodes.get? other
  targets : ∀ handle node, a.targets.get? handle = some node → b.targets.get? handle = some node
  made : ∀ handle < a.nextId, ∀ node, b.targets.get? handle = some node → a.targets.get? handle = some node ∨
    a.targets.get? handle = none ∧ ¬ a.Exists node ∧ b.nodes.get? node = some (emptyNode (κ handle))
  shows : b.Shows id t

theorem Calm.edited (calm : Calm κ a b) {t : Tree} (shown : a.Shows id t) : Edited κ a id t b where
  nodes other there _ := calm.grown.nodes other there
  targets := calm.grown.targets
  made := calm.made
  shows := calm.grown.keeps.shows t id shown

theorem Calm.edited_set (calm : Calm κ a c) (there : a.Exists id) {t : Tree} (shown : (c.set id node).Shows id t) :
    Edited κ a id t (c.set id node) where
  nodes other there apart := by
    rw [get?_set, if_neg (Ne.symm apart)]
    exact calm.grown.nodes other there
  targets := calm.grown.targets
  made handle known other same := by
    rcases calm.made handle known other same with before | ⟨missing, unknown, new⟩
    · exact .inl before
    · refine .inr ⟨missing, unknown, ?_⟩
      rw [get?_set, if_neg]
      · exact new
      · rintro rfl
        exact unknown there
  shows := shown

/-! ## What is placed -/

section Calls

variable [JsonSyntax]

/-- What an argument is placed as. -/
def ArgReads (a : JsonArena) : JsonArg → Tree → Prop
  | .json ref, t => a.Reads ref t
  | .value v, t => ∃ s, scalarOf v = .ok s ∧ t = .scalar s

omit [JsonSyntax] in
theorem attachChild_ok {result : Except String NodeId × JsonArena} {child : NodeId} (attached : attachChild result = (.ok child, c)) :
    result.1 = .ok child ∧ c = result.2.attach child := by
  unfold attachChild at attached
  split at attached
  next => cases attached
  next =>
    split at attached
    · cases attached
    · cases attached
      exact ⟨rfl, rfl⟩

omit [JsonSyntax] in
theorem shows_attach {child : NodeId} {t : Tree} (shown : a.Shows id t) : (a.attach child).Shows id t :=
  shows_kept (a := a) t id (fun _ _ => rfl) shown

omit [JsonSyntax] in
theorem placed_shows (forest : a.Forest) {parent child : NodeId} (there : a.Exists id) {t : Tree} (shown : a.Shows id t)
    (placed : attachChild (a.placed parent id) = (.ok child, b)) : b.Shows child t := by
  obtain ⟨result, rfl⟩ := attachChild_ok placed
  apply shows_attach
  unfold JsonArena.placed at result ⊢
  split
  next copied =>
    rw [if_pos copied] at result
    cases made : a.deepCopy id with
    | mk made_id c =>
        rw [made] at result
        obtain rfl : made_id = .ok child := result
        exact (shows_deepCopyAt (maxJsonDepth + 1) a id t forest there shown).2 child c made
  next free =>
    rw [if_neg free] at result
    cases result
    exact shown

/-- What is offered for an argument stands for what the argument stands for. -/
theorem childFor_shows (typed : a.Typed κ) {arg : JsonArg} (knows : a.KnowsArg κ arg) {parent child : NodeId}
    (offered : a.childFor parent arg = (.ok child, b)) : ∃ t, a.ArgReads arg t ∧ b.Shows child t := by
  cases arg with
  | json ref =>
      have made := targeted typed knows
      obtain ⟨t, reads, _⟩ := exists_reads typed knows
      exact ⟨t, reads, placed_shows made.moves.typed.forest made.there reads offered⟩
  | value v =>
      unfold childFor at offered
      dsimp only at offered
      split at offered
      next => cases offered
      next s stored =>
        obtain ⟨result, rfl⟩ := attachChild_ok offered
        cases result
        exact ⟨.scalar s, ⟨s, stored, rfl⟩, shows_attach ((get?_push a _ _).trans (if_pos rfl))⟩

/-! ## What methods do to trees -/

/-- How a method changes the tree that its receiver stands for. -/
inductive Edits (a : JsonArena) (args : List JsonArg) : JsonMethod → Tree → Tree → Prop where
  | addKey {entries : List (String × Tree)} {key : String} {arg : JsonArg} {child : Tree} (named : keyArg args "the key" = .ok key)
      (free : key ∉ entries.map (·.1)) (given : args[1]? = some arg) (placed : a.ArgReads arg child) :
      Edits a args .add (.object entries) (.object (entries ++ [(key, child)]))
  | replaceKey {entries : List (String × Tree)} {key : String} {place : Nat} {arg : JsonArg} {child : Tree}
      (named : keyArg args "the key" = .ok key) (first : (entries.map (·.1)).findIdx? (fun name => name = key) = some place)
      (given : args[1]? = some arg) (placed : a.ArgReads arg child) :
      Edits a args .replace (.object entries) (.object (entries.modify place fun entry => (entry.1, child)))
  | removeKey {entries : List (String × Tree)} {key : String} (named : keyArg args "the key" = .ok key) :
      Edits a args .remove (.object entries) (.object (entries.filter fun entry => entry.1 ≠ key))
  | addItem {items : List Tree} {arg : JsonArg} {child : Tree} (given : args[0]? = some arg) (placed : a.ArgReads arg child) :
      Edits a args .add (.array items) (.array (items ++ [child]))
  | insertItem {items : List Tree} {place : Nat} {arg : JsonArg} {child : Tree}
      (indexed : indexArg args[0]? items.length true = .ok place) (given : args[1]? = some arg) (placed : a.ArgReads arg child) :
      Edits a args .insert (.array items) (.array (items.insertIdx place child))
  | setItem {items : List Tree} {place : Nat} {arg : JsonArg} {child : Tree}
      (indexed : indexArg args[0]? items.length false = .ok place) (given : args[1]? = some arg) (placed : a.ArgReads arg child) :
      Edits a args .set (.array items) (.array (items.set place child))
  | removeItem {items : List Tree} {place : Nat} (indexed : indexArg args[0]? items.length false = .ok place) :
      Edits a args .removeAt (.array items) (.array (items.eraseIdx place))
  | setValue {old s : Scalar} {v : Value} (given : args.head? = some (.value v)) (stored : scalarOf v = .ok s) :
      Edits a args .setValue (.scalar old) (.scalar s)
  | setNull {old : Scalar} : Edits a args .setValueToNull (.scalar old) (.scalar .null)
  | kept {method : JsonMethod} {t : Tree} (reads : method ∉ [.add, .replace, .remove, .insert, .set, .removeAt, .setValue, .setValueToNull]) :
      Edits a args method t t

theorem edited_place (typed : a.Typed κ) (there : a.Exists id) {value : Option JsonArg} (knows : ∀ arg ∈ value, a.KnowsArg κ arg)
    {put : NodeId → Node} {reply : Reply} (placed : a.place id value put = (.ok reply, b)) :
    ∃ arg child t c, value = some arg ∧ a.ArgReads arg t ∧ Quiet κ a c ∧ c.Forest ∧ c.Shows child t ∧
      ¬ ReflTransGen c.Contains child id ∧ b = c.set id (put child) := by
  cases value with
  | none => cases placed
  | some arg =>
      have offers := offers_childFor typed there (knows arg rfl)
      unfold place at placed
      dsimp only at placed
      cases offered : a.childFor id arg with
      | mk result c =>
          rw [offered] at offers placed
          cases result with
          | error e => cases placed
          | ok child =>
              cases placed
              obtain ⟨t, reads, shown⟩ := childFor_shows typed (knows arg rfl) offered
              exact ⟨arg, child, t, c, rfl, reads, offers.quiet, offers.moves.typed.forest, shown, (offers.loose child rfl).apart, rfl⟩

omit [JsonSyntax] in
theorem withArg_ok {α : Type} {arg : Except JsonError α} {next : α → Answer} {reply : Reply}
    (answered : a.withArg arg next = (.ok reply, b)) : ∃ value, arg = .ok value ∧ next value = (.ok reply, b) := by
  cases arg with
  | error e => cases answered
  | ok value => exact ⟨value, rfl, answered⟩

omit [JsonSyntax] in
theorem shows_object {entries : List (String × NodeId)} (object : a.node id = .object entries) {t : Tree} (shown : a.Shows id t) :
    ∃ trees, t = .object trees ∧ List.Forall₂ a.ShowsEntry entries trees := by
  cases t with
  | object trees =>
      obtain ⟨ids, held, all⟩ := shown
      rw [node_of_get? held] at object
      cases object
      exact ⟨trees, rfl, (showsEntries_forall₂ _ _).mp all⟩
  | array items =>
      obtain ⟨ids, held, _⟩ := shown
      rw [node_of_get? held] at object
      cases object
  | scalar s =>
      rw [node_of_get? shown] at object
      cases object

omit [JsonSyntax] in
theorem shows_array {items : List NodeId} (array : a.node id = .array items) {t : Tree} (shown : a.Shows id t) :
    ∃ trees, t = .array trees ∧ List.Forall₂ a.Shows items trees := by
  cases t with
  | object trees =>
      obtain ⟨ids, held, _⟩ := shown
      rw [node_of_get? held] at array
      cases array
  | array trees =>
      obtain ⟨ids, held, all⟩ := shown
      rw [node_of_get? held] at array
      cases array
      exact ⟨trees, rfl, (showsItems_forall₂ _ _).mp all⟩
  | scalar s =>
      rw [node_of_get? shown] at array
      cases array

omit [JsonSyntax] in
theorem keys_of_forall₂ {entries : List (String × NodeId)} {trees : List (String × Tree)} (all : List.Forall₂ a.ShowsEntry entries trees) :
    entries.map (·.1) = trees.map (·.1) := by
  induction all with
  | nil => rfl
  | cons first _ ih => rw [List.map_cons, List.map_cons, ih, first.1]

omit [JsonSyntax] in
theorem Extends.showsEntries₂ (grown : Extends a b) {entries : List (String × NodeId)} {trees : List (String × Tree)}
    (all : List.Forall₂ a.ShowsEntry entries trees) : List.Forall₂ b.ShowsEntry entries trees :=
  all.imp fun _ _ shown => ⟨shown.1, grown.keeps.shows _ _ shown.2⟩

omit [JsonSyntax] in
theorem Extends.showsItems₂ (grown : Extends a b) {items : List NodeId} {trees : List Tree}
    (all : List.Forall₂ a.Shows items trees) : List.Forall₂ b.Shows items trees :=
  all.imp fun _ _ shown => grown.keeps.shows _ _ shown

variable [CaseMapping]

theorem edited_objectMethod (typed : a.Typed κ) (there : a.Exists id) {entries : List (String × NodeId)} (object : a.node id = .object entries)
    (knows : ∀ arg ∈ args, a.KnowsArg κ arg) {t : Tree} (shown : a.Shows id t) {method : JsonMethod} {reply : Reply}
    (answered : a.objectMethod id entries args method = (.ok reply, b)) : ∃ t', a.Edits args method t t' ∧ Edited κ a id t' b := by
  have children : a.children id = entries.map (·.2) := congrArg Node.children object
  have knows_second : ∀ arg ∈ args[1]?, a.KnowsArg κ arg := fun arg inside => knows arg (List.mem_of_getElem? inside)
  obtain ⟨trees, rfl, all⟩ := shows_object object shown
  have keys := keys_of_forall₂ all
  have apart {c : JsonArena} (quiet : Quiet κ a c) (forest : c.Forest) : ∀ child ∈ entries.map (·.2), ¬ ReflTransGen c.Contains child id := by
    intro child inside
    apply forest.child_apart
    rw [quiet.grown.children_eq there, children]
    exact inside
  have kept (calm : Calm κ a b) (reads : method ∉ [.add, .replace, .remove, .insert, .set, .removeAt, .setValue, .setValueToNull]) :
      ∃ t', a.Edits args method (.object trees) t' ∧ Edited κ a id t' b := ⟨_, .kept reads, calm.edited shown⟩
  cases method with
  | add =>
      obtain ⟨key, named, answered⟩ := withArg_ok answered
      split at answered
      next => cases answered
      next free =>
        obtain ⟨arg, child, t, c, given, reads, quiet, forest, shows, loose, rfl⟩ := edited_place typed there knows_second answered
        refine ⟨_, .addKey named ?_ given reads, quiet.calm.edited_set there ?_⟩
        · rw [← keys]
          intro inside
          obtain ⟨entry, member, same⟩ := List.mem_map.mp inside
          exact free (List.any_eq_true.mpr ⟨entry, member, decide_eq_true same⟩)
        · apply showsEntries_set
          · intro entry inside
            rcases List.mem_append.mp inside with old | new
            · exact apart quiet forest entry.2 (List.mem_map_of_mem old)
            · rw [List.mem_singleton.mp new]
              exact loose
          · exact forall₂_concat (quiet.grown.showsEntries₂ all) ⟨rfl, shows⟩
  | replace =>
      obtain ⟨key, named, answered⟩ := withArg_ok answered
      split at answered
      next => cases answered
      next place found =>
        obtain ⟨arg, child, t, c, given, reads, quiet, forest, shows, loose, rfl⟩ := edited_place typed there knows_second answered
        refine ⟨.object (trees.modify place fun entry => (entry.1, t)), .replaceKey named ?_ given reads,
          quiet.calm.edited_set there ?_⟩
        · rw [← keys, List.findIdx?_map]
          exact found
        · apply showsEntries_set
          · intro entry inside
            have inside := List.mem_map_of_mem (f := (·.2)) inside
            rw [map_modify] at inside
            rcases List.mem_or_eq_of_mem_set inside with old | new
            · exact apart quiet forest entry.2 old
            · rw [new]
              exact loose
          · exact forall₂_modify (f := fun entry => (entry.1, child)) (g := fun entry => (entry.1, t))
              (quiet.grown.showsEntries₂ all) (fun _ _ shown => ⟨shown.1, shows⟩) place
  | remove =>
      obtain ⟨key, named, answered⟩ := withArg_ok answered
      cases answered
      refine ⟨_, .removeKey named, (Calm.refl a).edited_set there ?_⟩
      apply showsEntries_set
      · intro entry inside
        exact apart (.refl a) typed.forest entry.2 (List.mem_map_of_mem (List.mem_of_mem_filter inside))
      · apply List.rel_filter ?_ all
        intro entry tree shown
        dsimp only
        rw [shown.1]
  | contains =>
      obtain ⟨key, _, answered⟩ := withArg_ok answered
      cases answered
      exact kept (.refl a) (by decide)
  | get =>
      obtain ⟨key, _, answered⟩ := withArg_ok answered
      split at answered
      next => cases answered
      next => exact kept (calm_tokenAnswer typed.forest answered) (by decide)
  | keys =>
      cases answered
      exact kept (.refl a) (by decide)
  | values =>
      cases answered
      exact kept (calm_tokensFor _ a typed.forest (children ▸ typed.forest.resolves id)) (by decide)
  | getAs as_ =>
      obtain ⟨key, _, answered⟩ := withArg_ok answered
      obtain ⟨flag, _, answered⟩ := withArg_ok answered
      have same : b = a := by
        split at answered
        · split at answered
          · cases answered
            rfl
          · cases answered
        · exact (congrArg Prod.snd answered).symm
      rw [same] at kept ⊢
      exact kept (.refl a) (by simp)
  | _ => cases answered

omit [CaseMapping] in
theorem calm_wantedText (typed : a.Typed κ) (there : a.Exists id) {value : Option JsonArg} (knows : ∀ arg ∈ value, a.KnowsArg κ arg) :
    Calm κ a (a.wantedText id value).2 := (serves_wantedText typed there knows).2.calm

theorem edited_arrayMethod (typed : a.Typed κ) (there : a.Exists id) {items : List NodeId} (array : a.node id = .array items)
    (knows : ∀ arg ∈ args, a.KnowsArg κ arg) {t : Tree} (shown : a.Shows id t) {method : JsonMethod} {reply : Reply}
    (answered : a.arrayMethod id items args method = (.ok reply, b)) : ∃ t', a.Edits args method t t' ∧ Edited κ a id t' b := by
  have children : a.children id = items := congrArg Node.children array
  have knows_at (i : Nat) : ∀ arg ∈ args[i]?, a.KnowsArg κ arg := fun arg inside => knows arg (List.mem_of_getElem? inside)
  obtain ⟨trees, rfl, all⟩ := shows_array array shown
  have length := all.length_eq
  have apart {c : JsonArena} (quiet : Quiet κ a c) (forest : c.Forest) : ∀ child ∈ items, ¬ ReflTransGen c.Contains child id := by
    intro child inside
    apply forest.child_apart
    rw [quiet.grown.children_eq there, children]
    exact inside
  have kept (calm : Calm κ a b) (reads : method ∉ [.add, .replace, .remove, .insert, .set, .removeAt, .setValue, .setValueToNull]) :
      ∃ t', a.Edits args method (.array trees) t' ∧ Edited κ a id t' b := ⟨_, .kept reads, calm.edited shown⟩
  cases method with
  | add =>
      obtain ⟨arg, child, t, c, given, reads, quiet, forest, shows, loose, rfl⟩ := edited_place typed there (knows_at 0) answered
      refine ⟨_, .addItem given reads, quiet.calm.edited_set there ?_⟩
      apply showsItems_set
      · intro other inside
        rcases List.mem_append.mp inside with old | new
        · exact apart quiet forest other old
        · rw [List.mem_singleton.mp new]
          exact loose
      · exact forall₂_concat (quiet.grown.showsItems₂ all) shows
  | insert =>
      obtain ⟨place, indexed, answered⟩ := withArg_ok answered
      obtain ⟨arg, child, t, c, given, reads, quiet, forest, shows, loose, rfl⟩ := edited_place typed there (knows_at 1) answered
      refine ⟨_, .insertItem (length ▸ indexed) given reads, quiet.calm.edited_set there ?_⟩
      apply showsItems_set
      · intro other inside
        rcases List.eq_or_mem_of_mem_insertIdx inside with rfl | old
        · exact loose
        · exact apart quiet forest other old
      · exact forall₂_insertIdx (quiet.grown.showsItems₂ all) shows place
  | set =>
      obtain ⟨place, indexed, answered⟩ := withArg_ok answered
      obtain ⟨arg, child, t, c, given, reads, quiet, forest, shows, loose, rfl⟩ := edited_place typed there (knows_at 1) answered
      refine ⟨_, .setItem (length ▸ indexed) given reads, quiet.calm.edited_set there ?_⟩
      apply showsItems_set
      · intro other inside
        rcases List.mem_or_eq_of_mem_set inside with old | rfl
        · exact apart quiet forest other old
        · exact loose
      · exact forall₂_set (quiet.grown.showsItems₂ all) shows place
  | removeAt =>
      obtain ⟨place, indexed, answered⟩ := withArg_ok answered
      cases answered
      refine ⟨_, .removeItem (length ▸ indexed), (Calm.refl a).edited_set there ?_⟩
      apply showsItems_set
      · intro other inside
        exact apart (.refl a) typed.forest other (List.mem_of_mem_eraseIdx inside)
      · exact forall₂_eraseIdx all place
  | count =>
      cases answered
      exact kept (.refl a) (by decide)
  | get =>
      obtain ⟨place, _, answered⟩ := withArg_ok answered
      split at answered
      next => cases answered
      next => exact kept (calm_tokenAnswer typed.forest answered) (by decide)
  | indexOf =>
      have calm := calm_wantedText typed there (knows_at 0)
      unfold arrayMethod at answered
      dsimp only at answered
      cases searched : a.wantedText id args[0]? with
      | mk result c =>
          rw [searched] at calm answered
          cases result with
          | error e => cases answered
          | ok text =>
              have same : b = c := (congrArg Prod.snd answered).symm
              rw [same] at kept ⊢
              exact kept calm (by decide)
  | getAs as_ =>
      obtain ⟨place, _, answered⟩ := withArg_ok answered
      have same : b = a := by
        split at answered
        · cases answered
        · exact (congrArg Prod.snd answered).symm
      rw [same] at kept ⊢
      exact kept (.refl a) (by simp)
  | _ => cases answered

theorem edited_valueMethod (there : a.Exists id) (agrees : Agrees .value (a.node id)) {t : Tree} (shown : a.Shows id t)
    {method : JsonMethod} {reply : Reply} (answered : a.valueMethod id args method = (.ok reply, b)) :
    ∃ t', a.Edits args method t t' ∧ Edited κ a id t' b := by
  obtain ⟨old, rfl⟩ : ∃ old, t = .scalar old := by
    have ofKind := ofKind_of_agrees agrees shown
    cases t with
    | object _ => cases ofKind
    | array _ => cases ofKind
    | scalar old => exact ⟨old, rfl⟩
  have kept (same : b = a) (reads : method ∉ [.add, .replace, .remove, .insert, .set, .removeAt, .setValue, .setValueToNull]) :
      ∃ t', a.Edits args method (.scalar old) t' ∧ Edited κ a id t' b := by
    rw [same]
    exact ⟨_, .kept reads, (Calm.refl a).edited shown⟩
  cases method with
  | isNull =>
      unfold valueMethod at answered
      dsimp only at answered
      split at answered
      · exact kept (congrArg Prod.snd answered).symm (by decide)
      · cases answered
  | isUndefined => exact kept (congrArg Prod.snd answered).symm (by decide)
  | setValueToNull =>
      cases answered
      exact ⟨_, .setNull, (Calm.refl a).edited_set there ((get?_set a id _ id).trans (if_pos rfl))⟩
  | setValue =>
      unfold valueMethod at answered
      dsimp only at answered
      split at answered
      next => cases answered
      next => cases answered
      next v given =>
        split at answered
        next => cases answered
        next s stored =>
          cases answered
          exact ⟨_, .setValue given stored, (Calm.refl a).edited_set there ((get?_set a id _ id).trans (if_pos rfl))⟩
  | convert as_ =>
      unfold valueMethod at answered
      dsimp only at answered
      split at answered
      · exact kept (congrArg Prod.snd answered).symm (by simp)
      · cases answered
  | _ => cases answered

omit [JsonSyntax] [CaseMapping] in
theorem calm_tokenMethod (forest : a.Forest) {method : JsonMethod} {reply : Reply} (answered : a.tokenMethod id method = (.ok reply, b)) :
    Calm κ a b ∧ method ∉ [.add, .replace, .remove, .insert, .set, .removeAt, .setValue, .setValueToNull] := by
  cases method with
  | isObject =>
      cases answered
      exact ⟨.refl a, by decide⟩
  | isArray =>
      cases answered
      exact ⟨.refl a, by decide⟩
  | isValue =>
      cases answered
      exact ⟨.refl a, by decide⟩
  | asObject =>
      unfold tokenMethod at answered
      dsimp only at answered
      split at answered
      · exact ⟨calm_referenceAnswer forest answered, by decide⟩
      · cases answered
  | asArray =>
      unfold tokenMethod at answered
      dsimp only at answered
      split at answered
      · exact ⟨calm_referenceAnswer forest answered, by decide⟩
      · cases answered
  | asValue =>
      unfold tokenMethod at answered
      dsimp only at answered
      split at answered
      · exact ⟨calm_referenceAnswer forest answered, by decide⟩
      · cases answered
  | _ => cases answered

omit [CaseMapping] in
theorem calm_selectToken (forest : a.Forest) {reply : Reply} (answered : a.selectToken id args = (.ok reply, b)) : Calm κ a b := by
  obtain ⟨path, _, answered⟩ := withArg_ok answered
  split at answered
  next => cases answered
  next => exact calm_tokenAnswer forest answered
  next => cases answered
  next => cases answered

omit [JsonSyntax] [CaseMapping] in
theorem calm_cloneOf (typed : a.Typed κ) (there : a.Exists id) {kind : JsonKind} {reply : Reply}
    (answered : a.cloneOf kind id = (.ok reply, b)) : Calm κ a b := by
  have made := makes_deepCopyAt (maxJsonDepth + 1) a id typed.forest there
  unfold cloneOf deepCopy at answered
  cases copied : deepCopyAt (maxJsonDepth + 1) a id with
  | mk result c =>
      rw [copied] at made answered
      cases result with
      | error e => cases answered
      | ok new =>
          dsimp only at answered
          split at answered
          next => cases answered
          next => exact made.partial_.quiet.calm.trans made.forest (calm_referenceAnswer made.forest answered)

/-- A method of a value does to its tree what the method says. -/
theorem edited_ofKind (typed : a.Typed κ) (there : a.Exists id) (agrees : Agrees ref.kind (a.node id))
    (knows : ∀ arg ∈ args, a.KnowsArg κ arg) {t : Tree} (shown : a.Shows id t) {method : JsonMethod} {reply : Reply}
    (answered : (match ref.kind, a.node id with
      | .token, _ => a.tokenMethod id method
      | .object, .object entries => a.objectMethod id entries args method
      | .array, .array items => a.arrayMethod id items args method
      | .value, _ => a.valueMethod id args method
      | kind, _ => a.unsupported kind method) = (.ok reply, b)) : ∃ t', a.Edits args method t t' ∧ Edited κ a id t' b := by
  split at answered
  next =>
    obtain ⟨calm, reads⟩ := calm_tokenMethod typed.forest answered
    exact ⟨_, .kept reads, calm.edited shown⟩
  next object => exact edited_objectMethod typed there object knows shown answered
  next array => exact edited_arrayMethod typed there array knows shown answered
  next kind =>
    rw [kind] at agrees
    exact edited_valueMethod there agrees shown answered
  next => cases answered

theorem edited_runOn (typed : a.Typed κ) (there : a.Exists id) (agrees : Agrees ref.kind (a.node id))
    (knows : ∀ arg ∈ args, a.KnowsArg κ arg) {t : Tree} (shown : a.Shows id t) {method : JsonMethod} (stays : method ≠ .readFrom)
    {reply : Reply} (answered : a.runOn ref id method args = (.ok reply, b)) : ∃ t', a.Edits args method t t' ∧ Edited κ a id t' b := by
  have kept (calm : Calm κ a b) (reads : method ∉ [.add, .replace, .remove, .insert, .set, .removeAt, .setValue, .setValueToNull]) :
      ∃ t', a.Edits args method t t' ∧ Edited κ a id t' b := ⟨_, .kept reads, calm.edited shown⟩
  cases method with
  | writeTo =>
      have same : a = b := congrArg Prod.snd answered
      exact kept (same ▸ .refl a) (by decide)
  | readFrom => exact absurd rfl stays
  | selectToken => exact kept (calm_selectToken typed.forest answered) (by decide)
  | clone => exact kept (calm_cloneOf typed there answered) (by decide)
  | asToken => exact kept (calm_referenceAnswer typed.forest answered) (by decide)
  | _ => exact edited_ofKind typed there agrees knows shown answered

/-! ## References after a call -/

omit [CaseMapping] in
theorem Edits.mono {method : JsonMethod} {t t' : Tree} (argReads : ∀ arg ∈ args, ∀ t, a.ArgReads arg t → b.ArgReads arg t)
    (edits : a.Edits args method t t') : b.Edits args method t t' := by
  cases edits with
  | addKey named free given placed => exact .addKey named free given (argReads _ (List.mem_of_getElem? given) _ placed)
  | replaceKey named first given placed => exact .replaceKey named first given (argReads _ (List.mem_of_getElem? given) _ placed)
  | removeKey named => exact .removeKey named
  | addItem given placed => exact .addItem given (argReads _ (List.mem_of_getElem? given) _ placed)
  | insertItem indexed given placed => exact .insertItem indexed given (argReads _ (List.mem_of_getElem? given) _ placed)
  | setItem indexed given placed => exact .setItem indexed given (argReads _ (List.mem_of_getElem? given) _ placed)
  | removeItem indexed => exact .removeItem indexed
  | setValue given stored => exact .setValue given stored
  | setNull => exact .setNull
  | kept reads => exact .kept reads

omit [JsonSyntax] [CaseMapping] in
theorem get?_target_ne {other : JsonRef} (apart : other.handle ≠ ref.handle) :
    (a.target ref).2.targets.get? other.handle = a.targets.get? other.handle := by
  rcases target_cases a ref with ⟨node, _, same⟩ | ⟨_, same⟩
  · rw [same]
  · rw [same]
    show (a.targets.insert ref.handle a.nextId).get? other.handle = _
    rw [IndexMap.get?_insert, if_neg (Ne.symm apart)]

/-- A change of the second reference's value is seen through the first. -/
def Sees (a : JsonArena) (other ref : JsonRef) : Prop :=
  other.handle = ref.handle ∨ ∃ above id, a.targets.get? other.handle = some above ∧ a.targets.get? ref.handle = some id ∧
    ReflTransGen a.Contains above id

omit [JsonSyntax] [CaseMapping] in
theorem Edited.reads_apart (typed : a.Typed κ) (knows : a.Knows κ ref) {t' : Tree}
    (edited : Edited κ (a.target ref).2 (a.target ref).1 t' b) {other : JsonRef} (known : a.Knows κ other) (apart : ¬ a.Sees other ref)
    {t : Tree} (reads : a.Reads other t) : b.Reads other t := by
  have made := targeted typed knows
  obtain ⟨handles, below⟩ := not_or.mp apart
  cases held : a.targets.get? other.handle with
  | some above =>
      rw [reads_held held] at reads
      have there := (typed.forest.targets _ _ held).2
      rw [reads_held (edited.targets _ _ (made.quiet.grown.targets _ _ held))]
      have contains (x y : NodeId) : (a.target ref).2.Contains x y ↔ a.Contains x y := by
        rw [Contains, Contains, made.children]
      refine shows_kept t above ?_ (made.quiet.grown.keeps.shows t above reads)
      intro x walk
      have inside : ReflTransGen a.Contains above x := ReflTransGen.mono (fun x y => (contains x y).mp) _ _ walk
      have exists_x := typed.forest.exists_below there inside
      apply edited.nodes x (made.quiet.grown.exists_ exists_x)
      rintro rfl
      rcases target_cases a ref with ⟨node, target, same⟩ | ⟨_, same⟩
      · apply below
        rw [same] at inside
        exact ⟨above, node, held, target, inside⟩
      · rw [same] at exists_x
        exact typed.forest.missing (Nat.le_refl _) exists_x
  | none =>
      rw [reads_unique reads (reads_missing held)]
      cases later : b.targets.get? other.handle with
      | none => exact reads_missing later
      | some node =>
          rw [reads_held later]
          rcases edited.made _ (Nat.lt_of_lt_of_le known.1 made.moves.nextId) _ later with before | ⟨_, _, new⟩
          · rw [get?_target_ne handles, held] at before
            cases before
          · rw [known.2] at new
            exact shows_emptyNode new

/-- A call changes the value of its reference as the method says, and it changes no value that does not hold that value. -/
theorem edited_run (typed : a.Typed κ) (knows : a.Knows κ ref) (knowsArgs : ∀ arg ∈ args, a.KnowsArg κ arg) {method : JsonMethod}
    (stays : method ≠ .readFrom) {reply : Reply} (answered : a.run ref method args = (.ok reply, b)) {t : Tree} (reads : a.Reads ref t) :
    ∃ t', a.Edits args method t t' ∧ b.Reads ref t' ∧ ∀ other, a.Knows κ other → ¬ a.Sees other ref → ∀ t, a.Reads other t → b.Reads other t := by
  have made := targeted typed knows
  obtain ⟨t', edits, edited⟩ := edited_runOn made.moves.typed made.there (agrees_target typed knows)
    (fun arg inside => made.moves.knowsArg (knowsArgs arg inside)) reads stays answered
  refine ⟨t', edits.mono ?_, ?_, fun other known apart t reads => edited.reads_apart typed knows known apart reads⟩
  · intro arg inside t placed
    cases arg with
    | json other => exact (made.quiet.reads_iff typed (knowsArgs _ inside)).mp placed
    | value v => exact placed
  · rw [reads_held (edited.targets _ _ (get?_target a ref))]
    exact edited.shows

end Calls

end JsonArena

/-! ## Parsed values -/

section Parsing

variable [JsonSyntax]

namespace Parsed

mutual

/-- The tree that an import makes. -/
def tree : Parsed → Option Tree
  | object entries => (treeEntries entries).map .object
  | array items => (treeItems items).map .array
  | null => some (.scalar .null)
  | bool b => some (.scalar (.bool b))
  | number text => (JsonSyntax.parseNumber text).map fun d => .scalar (.number d)
  | string s => some (.scalar (.text s))

def treeItems : List Parsed → Option (List Tree)
  | [] => some []
  | item :: rest => do
      let item ← item.tree
      let rest ← treeItems rest
      pure (item :: rest)

def treeEntries : List (String × Parsed) → Option (List (String × Tree))
  | [] => some []
  | (key, item) :: rest => do
      let item ← item.tree
      let rest ← treeEntries rest
      pure ((key, item) :: rest)

end

end Parsed

namespace JsonArena

variable {b : JsonArena}

mutual

theorem importValue_shows : ∀ (parsed : Parsed) (a b : JsonArena) (new : NodeId), a.Forest → a.importValue parsed = (.ok new, b) →
    ∃ t, parsed.tree = some t ∧ b.Shows new t
  | .object entries, a, b, new, forest, imported => by
      have made := makesEntries_importEntries entries a forest
      rw [importValue] at imported
      split at imported
      next => cases imported
      next children c all =>
        cases imported
        rw [all] at made
        obtain ⟨trees, same, shown⟩ := importEntries_shows entries a c children forest all
        refine ⟨.object trees, by rw [Parsed.tree, same, Option.map_some], children, (get?_push c _ _).trans (if_pos rfl), ?_⟩
        exact (extends_push made.forest _).keeps.showsEntries trees children shown
  | .array items, a, b, new, forest, imported => by
      have made := makesAll_importItems items a forest
      rw [importValue] at imported
      split at imported
      next => cases imported
      next children c all =>
        cases imported
        rw [all] at made
        obtain ⟨trees, same, shown⟩ := importItems_shows items a c children forest all
        refine ⟨.array trees, by rw [Parsed.tree, same, Option.map_some], children, (get?_push c _ _).trans (if_pos rfl), ?_⟩
        exact (extends_push made.forest _).keeps.showsItems trees children shown
  | .null, a, b, new, _, imported => by
      rw [importValue] at imported
      cases imported
      exact ⟨_, rfl, (get?_push a _ _).trans (if_pos rfl)⟩
  | .bool flag, a, b, new, _, imported => by
      rw [importValue] at imported
      cases imported
      exact ⟨_, rfl, (get?_push a _ _).trans (if_pos rfl)⟩
  | .number text, a, b, new, _, imported => by
      rw [importValue] at imported
      split at imported
      next => cases imported
      next d same =>
        cases imported
        exact ⟨.scalar (.number d), by rw [Parsed.tree, same, Option.map_some], (get?_push a _ _).trans (if_pos rfl)⟩
  | .string s, a, b, new, _, imported => by
      rw [importValue] at imported
      cases imported
      exact ⟨_, rfl, (get?_push a _ _).trans (if_pos rfl)⟩

theorem importItems_shows : ∀ (items : List Parsed) (a b : JsonArena) (ids : List NodeId), a.Forest → a.importItems items = (.ok ids, b) →
    ∃ trees, Parsed.treeItems items = some trees ∧ b.ShowsItems ids trees
  | [], a, b, ids, _, imported => by
      rw [importItems] at imported
      cases imported
      exact ⟨[], rfl, trivial⟩
  | item :: rest, a, b, ids, forest, imported => by
      have made := makes_importValue item a forest
      rw [importItems] at imported
      split at imported
      next => cases imported
      next child c first =>
        rw [first] at made
        have marked := Added.mark made
        split at imported
        next => cases imported
        next others d later =>
          cases imported
          have all := makesAll_importItems rest (c.attach child) marked.forest
          rw [later] at all
          obtain ⟨t, same, shown⟩ := importValue_shows item a c child forest first
          obtain ⟨trees, same', shown'⟩ := importItems_shows rest (c.attach child) b others marked.forest later
          refine ⟨t :: trees, by rw [Parsed.treeItems, same, same']; rfl, ?_, shown'⟩
          exact all.grown.keeps.shows t child (shows_attach shown)

theorem importEntries_shows : ∀ (entries : List (String × Parsed)) (a b : JsonArena) (ids : List (String × NodeId)), a.Forest →
    a.importEntries entries = (.ok ids, b) → ∃ trees, Parsed.treeEntries entries = some trees ∧ b.ShowsEntries ids trees
  | [], a, b, ids, _, imported => by
      rw [importEntries] at imported
      cases imported
      exact ⟨[], rfl, trivial⟩
  | (key, item) :: rest, a, b, ids, forest, imported => by
      have made := makes_importValue item a forest
      rw [importEntries] at imported
      split at imported
      next => cases imported
      next child c first =>
        rw [first] at made
        have marked := Added.mark made
        split at imported
        next => cases imported
        next others d later =>
          cases imported
          have all := makesEntries_importEntries rest (c.attach child) marked.forest
          rw [later] at all
          obtain ⟨t, same, shown⟩ := importValue_shows item a c child forest first
          obtain ⟨trees, same', shown'⟩ := importEntries_shows rest (c.attach child) b others marked.forest later
          refine ⟨(key, t) :: trees, by rw [Parsed.treeEntries, same, same']; rfl, rfl, ?_, shown'⟩
          exact all.grown.keeps.shows t child (shows_attach shown)

end

variable {a : JsonArena} {κ : Nat → JsonKind} {ref : JsonRef} {args : List JsonArg}

omit [JsonSyntax] in
/-- Another handle gets a node. -/
theorem reads_retarget {handle : Nat} {id : NodeId} {other : JsonRef} (apart : other.handle ≠ handle) {t : Tree} (reads : a.Reads other t) :
    Reads { a with targets := a.targets.insert handle id } other t := by
  have same : (a.targets.insert handle id).get? other.handle = a.targets.get? other.handle := by
    rw [IndexMap.get?_insert, if_neg (Ne.symm apart)]
  cases held : a.targets.get? other.handle with
  | some node =>
      rw [reads_held held] at reads
      rw [reads_held (same.trans held)]
      exact shows_kept (a := a) t node (fun _ _ => rfl) reads
  | none =>
      rw [reads_unique reads (reads_missing held)]
      exact reads_missing (same.trans held)

/-- `ReadFrom` gives the reference the tree of the text. What holds the old value keeps it. -/
theorem readFrom_run (typed : a.Typed κ) (knows : a.Knows κ ref) {reply : Reply} [CaseMapping]
    (answered : a.run ref .readFrom args = (.ok reply, b)) :
    ∃ text parsed t, keyArg args "the JSON text" = .ok text ∧ JsonSyntax.parseJson text = .ok parsed ∧ parsed.tree = some t ∧
      b.Reads ref t ∧ ∀ other, a.Knows κ other → other.handle ≠ ref.handle → ∀ t, a.Reads other t → b.Reads other t := by
  have made := targeted typed knows
  have forest := made.moves.typed.forest
  replace answered : (a.target ref).2.readFrom ref args = (.ok reply, b) := answered
  obtain ⟨text, key, answered⟩ := withArg_ok answered
  split at answered
  next => cases answered
  next parsed accepted =>
    split at answered
    next =>
      split at answered
      next => cases answered
      next new c imported =>
        have all := makes_importValue parsed (a.target ref).2 forest
        rw [imported] at all
        split at answered
        next => cases answered
        next =>
          cases answered
          obtain ⟨t, same, shown⟩ := importValue_shows parsed _ c new forest imported
          refine ⟨text, parsed, t, key, accepted, same, ?_, ?_⟩
          · refine (reads_held ?_ t).mpr (shows_kept (a := c) t new (fun _ _ => rfl) shown)
            exact (IndexMap.get?_insert ..).trans (if_pos rfl)
          · intro other known apart t reads
            apply reads_retarget apart
            exact all.partial_.quiet.reads (made.moves.knows known) (made.quiet.reads known reads)
    next => cases answered

end JsonArena

end Parsing

end AlLanguage.Runtime.Json
