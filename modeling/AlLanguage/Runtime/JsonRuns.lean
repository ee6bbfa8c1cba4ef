import AlLanguage.Runtime.JsonAnswers
import AlLanguage.Runtime.JsonPaths
import AlLanguage.Runtime.JsonTrees

/-!
# Runs of JSON programs

- In every state that a program reaches the arena is a forest, and each variable stands for one tree of its type.
- A call that fails is not seen. One that succeeds is seen through the values that hold its node, and through no other.
-/

namespace AlLanguage.Runtime.Json

open Library
open Relation (TransGen ReflTransGen)

namespace JsonArena

variable {a b : JsonArena} {κ : Nat → JsonKind} {id : NodeId} {ref : JsonRef} {args : List JsonArg}

/-! ## The remaining methods -/

theorem agrees_withChildren {kind : JsonKind} {node : Node} (copies : List NodeId) (agrees : Agrees kind node) :
    Agrees kind (Node.withChildren copies node) := by
  cases node with
  | object entries => cases kind <;> exact agrees
  | array items => cases kind <;> exact agrees
  | scalar s => exact agrees

/-- A copy is of the type of what is copied. -/
theorem deepCopy_node {new : NodeId} (copied : a.deepCopy id = (.ok new, b)) : ∃ copies, b.node new = Node.withChildren copies (a.node id) := by
  rw [deepCopy, deepCopyAt] at copied
  split at copied
  next => cases copied
  next copies c _ =>
    cases copied
    refine ⟨copies, ?_⟩
    show ((c.push (Node.withChildren copies (a.node id))).2.nodes.get? c.nextId).getD (.scalar .null) = _
    rw [get?_push, if_pos rfl, Option.getD_some]

theorem serves_cloneOf {kind : JsonKind} (typed : a.Typed κ) (there : a.Exists id) (agrees : Agrees kind (a.node id)) :
    Serves κ a (a.cloneOf kind id) := by
  have made := makes_deepCopyAt (maxJsonDepth + 1) a id typed.forest there
  unfold cloneOf
  cases copied : a.deepCopy id with
  | mk result b =>
    rw [deepCopy] at copied
    rw [copied] at made
    cases result with
    | error e => exact serves_error (made.moves typed) made.quiet _
    | ok new =>
      have moves := made.partial_.moves typed
      obtain ⟨copies, is⟩ := deepCopy_node copied
      dsimp only
      split
      next => exact serves_error moves made.partial_.quiet _
      next =>
        apply Serves.after moves made.partial_.quiet
        apply serves_reference moves.typed (made.roots new List.mem_cons_self).2.1
        rw [is]
        exact agrees_withChildren copies agrees

section Methods

variable [JsonSyntax] [CaseMapping]

omit [JsonSyntax] [CaseMapping] in
/-- A node that a value variable stands for becomes another scalar. -/
theorem serves_setScalar (typed : a.Typed κ) (there : a.Exists id) (agrees : Agrees .value (a.node id)) (s : Scalar) {reply : Reply}
    (silent : reply.refs = []) : Serves κ a (.ok reply, a.set id (.scalar s)) := by
  apply serves_shrink typed there silent
  · intro kind before
    cases is : a.node id with
    | object entries =>
      rw [is] at agrees
      cases agrees
    | array items =>
      rw [is] at agrees
      cases agrees
    | scalar old =>
      rw [is] at before
      cases kind <;> exact before
  · exact List.nil_sublist _

theorem serves_valueMethod (typed : a.Typed κ) (there : a.Exists id) (agrees : Agrees .value (a.node id)) (method : JsonMethod) :
    Serves κ a (a.valueMethod id args method) := by
  have answers (b : Bool) : Serves κ a (.ok (.boolean b), a) := by
    apply serves_same typed
    intro reply answered
    cases answered
    rfl
  cases method with
  | isNull =>
    unfold valueMethod
    dsimp only
    split
    · exact answers _
    · exact serves_unsupported typed _ _
  | isUndefined => exact answers _
  | setValueToNull => exact serves_setScalar typed there agrees _ rfl
  | setValue =>
    unfold valueMethod
    dsimp only
    split
    · exact serves_error (.refl typed) (.refl a) _
    · exact serves_error (.refl typed) (.refl a) _
    · split
      · exact serves_error (.refl typed) (.refl a) _
      · exact serves_setScalar typed there agrees _ rfl
  | convert as_ =>
    unfold valueMethod
    dsimp only
    split
    · exact serves_scalarReply typed _ _
    · exact serves_unsupported typed _ _
  | _ => exact serves_unsupported typed _ _

omit [CaseMapping] in
theorem serves_selectToken (typed : a.Typed κ) (there : a.Exists id) : Serves κ a (a.selectToken id args) := by
  apply serves_withArg typed
  intro path
  split
  next => exact serves_error (.refl typed) (.refl a) _
  next found selected =>
    apply serves_token typed
    rw [select] at selected
    obtain ⟨steps, _, is⟩ : ∃ steps, JsonSyntax.parsePath path = .ok steps ∧ a.follow id steps false [id] = [found] := by
      cases parsed : JsonSyntax.parsePath path with
      | error e =>
        rw [parsed] at selected
        cases selected
      | ok steps =>
        rw [parsed] at selected
        exact ⟨steps, rfl, Except.ok.inj selected⟩
    obtain ⟨start, inside, walk⟩ := follow_below typed.forest steps (is ▸ List.mem_cons_self)
    rw [List.mem_singleton.mp inside] at walk
    exact typed.forest.exists_below there walk
  next => exact serves_error (.refl typed) (.refl a) _
  next => exact serves_error (.refl typed) (.refl a) _

omit [CaseMapping] in
theorem serves_writeTo (typed : a.Typed κ) : Serves κ a (a.writeTo id args, a) := by
  apply serves_same typed
  intro reply answered
  unfold writeTo at answered
  split at answered
  · cases answered
  · split at answered
    · cases answered
      rfl
    · cases answered
      rfl

/-! ## Every call -/

/-- What a call keeps. `ReadFrom` gives its reference another node. -/
structure Served (κ : Nat → JsonKind) (a : JsonArena) (answer : Answer) : Prop where
  typed : ∃ κ', answer.2.Typed κ' ∧ a.nextId ≤ answer.2.nextId ∧ (∀ handle < a.nextId, κ' handle = κ handle) ∧
    ∀ reply, answer.1 = .ok reply → ∀ ref ∈ reply.refs, answer.2.Knows κ' ref
  quiet : ∀ e, answer.1 = .error e → Quiet κ a answer.2

omit [JsonSyntax] [CaseMapping] in
theorem Serves.served {answer : Answer} (serves : Serves κ a answer) : Served κ a answer where
  typed := by
    obtain ⟨κ', moves, knows⟩ := serves.moves
    exact ⟨κ', moves.typed, moves.nextId, moves.kinds, knows⟩
  quiet := serves.quiet

omit [CaseMapping] in
/-- The node of a parsed value is of its type. -/
theorem importValue_node {parsed : Parsed} {new : NodeId} (imported : a.importValue parsed = (.ok new, b)) {kind : JsonKind}
    (fitting : fits kind parsed = true) : Agrees kind (b.node new) := by
  have pushed {c : JsonArena} {node : Node} (same : ((.ok (c.push node).1, (c.push node).2) : Except String NodeId × JsonArena) = (.ok new, b)) :
      b.node new = node := by
    cases same
    show ((c.push node).2.nodes.get? c.nextId).getD (.scalar .null) = node
    rw [get?_push, if_pos rfl, Option.getD_some]
  cases parsed with
  | object entries =>
      rw [importValue] at imported
      split at imported
      next => cases imported
      next =>
        rw [pushed imported]
        cases kind <;> trivial
  | array items =>
      rw [importValue] at imported
      split at imported
      next => cases imported
      next =>
        rw [pushed imported]
        cases kind <;> trivial
  | number text =>
      rw [importValue] at imported
      split at imported
      next => cases imported
      next =>
        rw [pushed imported]
        cases kind <;> trivial
  | null =>
      rw [importValue] at imported
      rw [pushed imported]
      cases kind <;> trivial
  | bool _ =>
      rw [importValue] at imported
      rw [pushed imported]
      cases kind <;> trivial
  | string _ =>
      rw [importValue] at imported
      rw [pushed imported]
      cases kind <;> trivial

omit [CaseMapping] in
/-- The reference stands for the new node. What the other handles stand for is kept. -/
theorem served_readFrom (typed : a.Typed κ) (knows : a.Knows κ ref) : Served κ a (a.readFrom ref args) := by
  cases key : keyArg args "the JSON text" with
  | error e =>
      rw [readFrom, key]
      exact (serves_error (.refl typed) (.refl a) _).served
  | ok text =>
      rw [readFrom, key]
      rw [withArg]
      split
      next => exact (serves_error (.refl typed) (.refl a) _).served
      next parsed _ =>
        split
        next fitting =>
          have made := makes_importValue parsed a typed.forest
          cases imported : a.importValue parsed with
          | mk result b =>
              rw [imported] at made
              cases result with
              | error e => exact (serves_error (made.moves typed) made.quiet _).served
              | ok new =>
                  have moves := made.partial_.moves typed
                  have known := moves.knows knows
                  have there := (made.roots new List.mem_cons_self).2.1
                  dsimp only
                  split
                  next => exact (serves_error moves made.partial_.quiet _).served
                  next =>
                    refine ⟨⟨κ, ⟨forest_retarget moves.typed.forest known.1 there, ?_⟩, moves.nextId, moves.kinds, ?_⟩, ?_⟩
                    · intro handle node found
                      replace found : (b.targets.insert ref.handle new).get? handle = some node := found
                      show Agrees (κ handle) (b.node node)
                      rw [IndexMap.get?_insert] at found
                      split at found
                      next here =>
                        cases found
                        rw [← here, known.2]
                        exact importValue_node imported fitting
                      next => exact moves.typed.agrees handle node found
                    · intro reply answered
                      cases answered
                      intro ref inside
                      cases inside
                    · intro e answered
                      cases answered
        next => exact (serves_error (.refl typed) (.refl a) _).served

theorem served_ofKind (typed : a.Typed κ) (there : a.Exists id) (agrees : Agrees ref.kind (a.node id))
    (knowsArgs : ∀ arg ∈ args, a.KnowsArg κ arg) (method : JsonMethod) : Served κ a (match ref.kind, a.node id with
      | .token, _ => a.tokenMethod id method
      | .object, .object entries => a.objectMethod id entries args method
      | .array, .array items => a.arrayMethod id items args method
      | .value, _ => a.valueMethod id args method
      | kind, _ => a.unsupported kind method) := by
  split
  next => exact (serves_tokenMethod typed there method).served
  next object => exact (serves_objectMethod typed there object knowsArgs method).served
  next array => exact (serves_arrayMethod typed there array knowsArgs method).served
  next kind =>
    rw [kind] at agrees
    exact (serves_valueMethod typed there agrees method).served
  next => exact (serves_unsupported typed _ _).served

theorem served_runOn (typed : a.Typed κ) (there : a.Exists id) (knows : a.Knows κ ref) (agrees : Agrees ref.kind (a.node id))
    (knowsArgs : ∀ arg ∈ args, a.KnowsArg κ arg) (method : JsonMethod) : Served κ a (a.runOn ref id method args) := by
  cases method with
  | writeTo => exact (serves_writeTo typed).served
  | readFrom => exact served_readFrom typed knows
  | selectToken => exact (serves_selectToken typed there).served
  | clone => exact (serves_cloneOf typed there agrees).served
  | asToken => exact (serves_reference typed there (show Agrees .token (a.node id) from trivial)).served
  | _ => exact served_ofKind typed there agrees knowsArgs _

omit [JsonSyntax] [CaseMapping] in
theorem get?_target (a : JsonArena) (ref : JsonRef) : (a.target ref).2.targets.get? ref.handle = some (a.target ref).1 := by
  rcases target_cases a ref with ⟨node, held, same⟩ | ⟨_, same⟩
  · rw [same]
    exact held
  · rw [same]
    show (a.targets.insert ref.handle a.nextId).get? ref.handle = _
    rw [IndexMap.get?_insert, if_pos rfl]

omit [JsonSyntax] [CaseMapping] in
theorem agrees_target (typed : a.Typed κ) (knows : a.Knows κ ref) : Agrees ref.kind ((a.target ref).2.node (a.target ref).1) := by
  rw [← knows.2]
  exact (targeted typed knows).moves.typed.agrees _ _ (get?_target a ref)

omit [JsonSyntax] [CaseMapping] in
theorem Moves.knowsArg {κ' : Nat → JsonKind} (moves : Moves κ κ' a b) {arg : JsonArg} (knows : a.KnowsArg κ arg) : b.KnowsArg κ' arg := by
  cases arg with
  | json ref => exact moves.knows knows
  | value v => trivial

theorem served_run (typed : a.Typed κ) (knows : a.Knows κ ref) (knowsArgs : ∀ arg ∈ args, a.KnowsArg κ arg) (method : JsonMethod) :
    Served κ a (a.run ref method args) := by
  have made := targeted typed knows
  have served : Served κ (a.target ref).2 (a.run ref method args) :=
    served_runOn made.moves.typed made.there (made.moves.knows knows) (agrees_target typed knows)
      (fun arg inside => made.moves.knowsArg (knowsArgs arg inside)) method
  refine ⟨?_, fun e answered => made.quiet.trans made.moves.typed.forest (served.quiet e answered)⟩
  obtain ⟨κ', typed', grown, kinds, knows'⟩ := served.typed
  exact ⟨κ', typed', made.moves.nextId.trans grown, fun handle known => kinds handle (Nat.lt_of_lt_of_le known made.moves.nextId), knows'⟩

end Methods

end JsonArena

/-! ## Every program -/

namespace JsonState

variable {s : JsonState}

/-- The arena is typed, and the variables hold references that it knows. -/
def Sound (κ : Nat → JsonKind) (s : JsonState) : Prop :=
  s.arena.Typed κ ∧ ∀ name ref, s.vars.get? name = some ref → s.arena.Knows κ ref

theorem sound_fresh {κ : Nat → JsonKind} (sound : s.Sound κ) (name : String) (kind : JsonKind) :
    (s.fresh name kind).Sound (Function.update κ s.arena.nextId kind) := by
  obtain ⟨typed, knows⟩ := sound
  refine ⟨⟨JsonArena.forest_freshId typed.forest, ?_⟩, ?_⟩
  · intro handle node found
    rw [Function.update_of_ne (Nat.ne_of_lt (typed.forest.targets handle node found).1)]
    exact typed.agrees handle node found
  · intro other ref found
    replace found : (s.vars.insert name ⟨kind, s.arena.nextId⟩).get? other = some ref := found
    rw [IndexMap.get?_insert] at found
    split at found
    · cases found
      exact ⟨Nat.lt_succ_self _, Function.update_self ..⟩
    · have known := knows other ref found
      exact ⟨Nat.lt_succ_of_lt known.1, (Function.update_of_ne (Nat.ne_of_lt known.1) ..).trans known.2⟩

theorem sound_store {κ : Nat → JsonKind} (into : List String) : ∀ (refs : List JsonRef) (s : JsonState), s.Sound κ →
    (∀ ref ∈ refs, s.arena.Knows κ ref) → (s.store into refs).Sound κ := by
  induction into with
  | nil => exact fun refs s sound _ => sound
  | cons name rest ih =>
      intro refs s sound knows
      cases refs with
      | nil => exact sound
      | cons ref refs =>
          apply ih refs
          · refine ⟨sound.1, ?_⟩
            intro other ref' found
            rw [IndexMap.get?_insert] at found
            split at found
            · cases found
              exact knows ref List.mem_cons_self
            · exact sound.2 other ref' found
          · exact fun ref' inside => knows ref' (List.mem_cons_of_mem _ inside)

theorem operandValue_knows {κ : Nat → JsonKind} (sound : s.Sound κ) {operand : Operand} {arg : JsonArg}
    (same : s.operandValue operand = some arg) : s.arena.KnowsArg κ arg := by
  cases operand with
  | variable_ name =>
      obtain ⟨ref, found, rfl⟩ := Option.map_eq_some_iff.mp same
      exact sound.2 name ref found
  | value v =>
      cases same
      trivial

theorem operands_know {κ : Nat → JsonKind} (sound : s.Sound κ) (operands : List Operand) : ∀ args : List JsonArg,
    operands.mapM s.operandValue = some args → ∀ arg ∈ args, s.arena.KnowsArg κ arg := by
  induction operands with
  | nil =>
      intro args same arg inside
      cases same
      cases inside
  | cons operand rest ih =>
      intro args same arg inside
      rw [List.mapM_cons] at same
      obtain ⟨first, here, same⟩ := Option.bind_eq_some_iff.mp same
      obtain ⟨others, later, same⟩ := Option.bind_eq_some_iff.mp same
      cases same
      rcases List.mem_cons.mp inside with rfl | inside
      · exact operandValue_knows sound here
      · exact ih others later arg inside

/-- The total of the bytes is not seen. -/
theorem sound_heldBytes {κ : Nat → JsonKind} (sound : s.Sound κ) (bytes : Nat) :
    Sound κ { s with arena := { s.arena with heldBytes := bytes } } := by
  obtain ⟨typed, knows⟩ := sound
  obtain ⟨forest, agrees⟩ := typed
  exact ⟨⟨⟨forest.below, forest.targets, forest.resolves, forest.nodup, forest.once, forest.attached, forest.present, forest.acyclic⟩,
    agrees⟩, knows⟩

section Steps

variable [JsonSyntax] [CaseMapping]

theorem served_answer {κ : Nat → JsonKind} (sound : s.Sound κ) {recv : String} {method : JsonMethod} {operands : List Operand}
    {answer : Answer} (answered : s.answer recv method operands = some answer) : JsonArena.Served κ s.arena answer := by
  unfold JsonState.answer at answered
  split at answered
  next ref args found same =>
    cases answered
    exact JsonArena.served_run sound.1 (sound.2 recv ref found) (operands_know sound operands args same) method
  next => cases answered

omit [JsonSyntax] [CaseMapping] in
/-- The variables are sound after a call, also where it fails. -/
theorem sound_answer {κ : Nat → JsonKind} (sound : s.Sound κ) {answer : Answer} (served : JsonArena.Served κ s.arena answer) :
    ∃ κ', Sound κ' { s with arena := answer.2 } ∧ ∀ reply, answer.1 = .ok reply → ∀ ref ∈ reply.refs, answer.2.Knows κ' ref := by
  obtain ⟨κ', typed, grown, kinds, knows⟩ := served.typed
  refine ⟨κ', ⟨typed, ?_⟩, knows⟩
  intro name ref found
  have known := sound.2 name ref found
  exact ⟨Nat.lt_of_lt_of_le known.1 grown, (kinds _ known.1).trans known.2⟩

theorem sound_step {κ : Nat → JsonKind} (sound : s.Sound κ) (action : JsonAction) : ∃ κ', (s.step action).Sound κ' := by
  cases action with
  | declare name kind => exact ⟨_, sound_fresh sound name kind⟩
  | assign name source =>
      unfold step
      dsimp only
      split
      next ref found =>
        refine ⟨κ, sound.1, ?_⟩
        intro other ref' same
        rw [IndexMap.get?_insert] at same
        split at same
        · cases same
          exact sound.2 source ref found
        · exact sound.2 other ref' same
      next => exact ⟨κ, sound⟩
  | clear name =>
      unfold step
      dsimp only
      split
      next ref _ => exact ⟨_, sound_fresh sound name ref.kind⟩
      next => exact ⟨κ, sound⟩
  | call recv method operands into =>
      unfold step
      dsimp only
      split
      next => exact ⟨κ, sound⟩
      next answered =>
        obtain ⟨κ', sound', _⟩ := sound_answer sound (served_answer sound answered)
        exact ⟨κ', sound'⟩
      next answered =>
        obtain ⟨κ', sound', knows⟩ := sound_answer sound (served_answer sound answered)
        exact ⟨κ', sound_store into _ _ sound' (knows _ rfl)⟩
  | hold bytes => exact ⟨κ, sound_heldBytes sound _⟩
  | release bytes => exact ⟨κ, sound_heldBytes sound _⟩

/-- Some program ends in the state. -/
def Reached (s : JsonState) : Prop := ∃ actions, Machine.run step {} actions = s

theorem Reached.sound (reached : s.Reached) : ∃ κ, s.Sound κ := by
  obtain ⟨actions, rfl⟩ := reached
  refine @Machine.run_invariant _ _ step (fun s => ∃ κ, Sound κ s) ?_ _ ?_ actions
  · rintro s action ⟨κ, sound⟩
    exact sound_step sound action
  · refine ⟨fun _ => .token, ⟨JsonArena.forest_new, ?_⟩, ?_⟩
    · intro handle node found
      cases found
    · intro name ref found
      cases found

end Steps

end JsonState

end AlLanguage.Runtime.Json
