import AlLanguage.Runtime.JsonEdits
import AlLanguage.Runtime.JsonTexts

/-!
# Calls as programs see them

- A call changes what its variable, and every copy of it, stands for as the method says.
- What another variable stands for is changed only where it holds the value of the call.
- A clone stands for the same tree and shares nothing with it.
-/

namespace AlLanguage.Runtime.Json

open Library
open Relation (TransGen ReflTransGen)

namespace JsonArena

variable {a b : JsonArena} {κ : Nat → JsonKind} {ref : JsonRef} {args : List JsonArg}

/-- What is below an old node is old. -/
theorem Added.below_old {roots marked : List NodeId} (added : Added a b roots marked) (forest : a.Forest) {x y : NodeId}
    (walk : ReflTransGen b.Contains x y) (there : a.Exists x) : a.Exists y := by
  induction walk with
  | refl => exact there
  | tail _ last ih =>
      rw [Contains, added.grown.children_eq ih] at last
      exact forest.resolves _ _ last

/-- A clone has a handle and nodes of its own. -/
theorem clone_run [JsonSyntax] [CaseMapping] (typed : a.Typed κ) (knows : a.Knows κ ref) {t : Tree} (reads : a.Reads ref t) {reply : Reply}
    (answered : a.run ref .clone args = (.ok reply, b)) : t.height ≤ maxJsonDepth ∧ ∃ new : JsonRef, reply.refs = [new] ∧ b.Reads new t ∧
      ∀ other, a.Knows κ other → ¬ b.Sees new other ∧ ¬ b.Sees other new := by
  have made := targeted typed knows
  have forest := made.moves.typed.forest
  obtain ⟨low, shows⟩ := shows_deepCopyAt (maxJsonDepth + 1) (a.target ref).2 (a.target ref).1 t forest made.there reads
  have added := makes_deepCopyAt (maxJsonDepth + 1) (a.target ref).2 (a.target ref).1 forest made.there
  replace answered : (a.target ref).2.cloneOf ref.kind (a.target ref).1 = (.ok reply, b) := answered
  unfold cloneOf deepCopy at answered
  cases copied : deepCopyAt (maxJsonDepth + 1) (a.target ref).2 (a.target ref).1 with
  | mk result c =>
      rw [copied] at added answered
      cases result with
      | error e => cases answered
      | ok new =>
          dsimp only at answered
          split at answered
          next => cases answered
          next =>
            have new_missing := forest.missing (added.roots new List.mem_cons_self).1
            refine ⟨Nat.le_of_lt_succ (low.mpr ⟨new, c, copied⟩), ⟨ref.kind, c.nextId⟩, ?_⟩
            have after : (c.reference ref.kind new).2 = b := congrArg Prod.snd answered
            have held : b.targets.get? c.nextId = some new := by
              rw [← after]
              exact (IndexMap.get?_insert ..).trans (if_pos rfl)
            have contains : b.Contains = c.Contains := by
              rw [← after]
              rfl
            refine ⟨?_, ?_, ?_⟩
            · have is : { result := .json ⟨ref.kind, c.nextId⟩ } = reply := Except.ok.inj (congrArg Prod.fst answered)
              rw [← is]
              rfl
            · rw [reads_held held, ← after]
              exact shows_kept (a := c) t new (fun _ _ => rfl) (shows new c copied)
            · intro other known
              have below := Nat.lt_of_lt_of_le known.1 (made.moves.nextId.trans added.grown.nextId)
              have there {node : NodeId} (target : b.targets.get? other.handle = some node) : (a.target ref).2.Exists node := by
                rw [← after] at target
                replace target : (c.targets.insert c.nextId new).get? other.handle = some node := target
                rw [IndexMap.get?_insert, if_neg (Nat.ne_of_gt below), added.targets] at target
                exact (forest.targets _ _ target).2
              unfold Sees
              rw [contains]
              constructor
              · rintro (same | ⟨above, node, target, target', walk⟩)
                · exact Nat.ne_of_gt below same
                · rw [held] at target
                  cases target
                  exact added.below_new walk new_missing (there target')
              · rintro (same | ⟨above, node, target, target', walk⟩)
                · exact Nat.ne_of_lt below same
                · rw [held] at target'
                  cases target'
                  exact new_missing (added.below_old forest walk (there target))

end JsonArena

namespace JsonState

variable {s : JsonState}

/-- A change of the second variable's value is seen through the first. -/
def Sees (s : JsonState) (name other : String) : Prop :=
  ∃ ref ref', s.vars.get? name = some ref ∧ s.vars.get? other = some ref' ∧ s.arena.Sees ref ref'

theorem vars_store (into : List String) {name : String} (kept : name ∉ into) : ∀ (refs : List JsonRef) (s : JsonState),
    (s.store into refs).vars.get? name = s.vars.get? name := by
  induction into with
  | nil => exact fun refs s => rfl
  | cons first rest ih =>
      intro refs s
      cases refs with
      | nil => rfl
      | cons ref refs =>
          have later := ih (fun inside => kept (List.mem_cons_of_mem _ inside)) refs { s with vars := s.vars.insert first ref }
          refine later.trans ?_
          rw [IndexMap.get?_insert, if_neg]
          rintro rfl
          exact kept List.mem_cons_self

theorem arena_store (into : List String) : ∀ (refs : List JsonRef) (s : JsonState), (s.store into refs).arena = s.arena := by
  induction into with
  | nil => exact fun refs s => rfl
  | cons first rest ih =>
      intro refs s
      cases refs with
      | nil => rfl
      | cons ref refs => exact ih refs _

section Calls

variable [JsonSyntax] [CaseMapping]

/-- The parts of a call that was answered. -/
theorem answer_run {recv : String} {method : JsonMethod} {operands : List Operand} {answer : Answer}
    (answered : s.answer recv method operands = some answer) : ∃ ref args, s.vars.get? recv = some ref ∧
      operands.mapM s.operandValue = some args ∧ s.arena.run ref method args = answer := by
  unfold JsonState.answer at answered
  split at answered
  next ref args found same =>
    cases answered
    exact ⟨ref, args, found, same, rfl⟩
  next => cases answered

/-- The variables that the call does not store in keep their references. -/
theorem stands_call {recv : String} {method : JsonMethod} {operands : List Operand} {into : List String} {reply : Reply}
    {arena : JsonArena} (answered : s.answer recv method operands = some (.ok reply, arena)) {name : String} (kept : name ∉ into)
    {ref : JsonRef} (found : s.vars.get? name = some ref) (t : Tree) :
    (s.step (.call recv method operands into)).Stands name t ↔ arena.Reads ref t := by
  have after : s.step (.call recv method operands into) = { s with arena := arena }.store into reply.refs := by
    rw [step, answered]
  rw [after, Stands, arena_store, vars_store into kept]
  constructor
  · rintro ⟨ref', found', reads⟩
    have same : ref = ref' := Option.some.inj (found.symm.trans found')
    exact same ▸ reads
  · exact fun reads => ⟨ref, found, reads⟩

/-- A call changes the trees of its variable and of the copies of it as the method says, and no tree that does not hold the value
that is changed. -/
theorem call_edits (reached : s.Reached) (recv : String) {method : JsonMethod} (stays : method ≠ .readFrom) (operands : List Operand)
    (into : List String) {reply : Reply} {arena : JsonArena} (answered : s.answer recv method operands = some (.ok reply, arena)) :
    ∃ args t t', operands.mapM s.operandValue = some args ∧ s.Stands recv t ∧ s.arena.Edits args method t t' ∧ ∀ name ∉ into,
      (s.vars.get? name = s.vars.get? recv → (s.step (.call recv method operands into)).Stands name t') ∧
      (¬ s.Sees name recv → ∀ u, s.Stands name u → (s.step (.call recv method operands into)).Stands name u) := by
  obtain ⟨κ, sound⟩ := reached.sound
  obtain ⟨ref, args, found, given, ran⟩ := answer_run answered
  have knows := sound.2 recv ref found
  obtain ⟨t, reads, _⟩ := JsonArena.exists_reads sound.1 knows
  obtain ⟨t', edits, reads', frame⟩ := JsonArena.edited_run sound.1 knows (operands_know sound operands args given) stays ran reads
  refine ⟨args, t, t', given, ⟨ref, found, reads⟩, edits, ?_⟩
  intro name kept
  constructor
  · intro copy
    exact (stands_call answered kept (copy.trans found) t').mpr reads'
  · rintro apart u ⟨other, here, reads⟩
    apply (stands_call answered kept here u).mpr
    exact frame other (sound.2 name other here) (fun sees => apart ⟨other, ref, here, found, sees⟩) u reads

/-- `ReadFrom` gives its variable and the copies of it the tree of the text. Every other variable, also one that holds the old
value, stands for what it stood for. -/
theorem readFrom_call (reached : s.Reached) (recv : String) (operands : List Operand) (into : List String) {reply : Reply}
    {arena : JsonArena} (answered : s.answer recv .readFrom operands = some (.ok reply, arena)) :
    ∃ args text parsed t, operands.mapM s.operandValue = some args ∧ JsonArena.keyArg args "the JSON text" = .ok text ∧
      JsonSyntax.parseJson text = .ok parsed ∧ parsed.tree = some t ∧ ∀ name ∉ into,
        (s.vars.get? name = s.vars.get? recv → (s.step (.call recv .readFrom operands into)).Stands name t) ∧
        (s.vars.get? name ≠ s.vars.get? recv → ∀ u, s.Stands name u → (s.step (.call recv .readFrom operands into)).Stands name u) := by
  obtain ⟨κ, sound⟩ := reached.sound
  obtain ⟨ref, args, found, given, ran⟩ := answer_run answered
  have knows := sound.2 recv ref found
  obtain ⟨text, parsed, t, key, accepted, same, reads, frame⟩ := JsonArena.readFrom_run sound.1 knows ran
  refine ⟨args, text, parsed, t, given, key, accepted, same, ?_⟩
  intro name kept
  constructor
  · intro copy
    exact (stands_call answered kept (copy.trans found) t).mpr reads
  · rintro apart u ⟨other, here, reads⟩
    have known := sound.2 name other here
    apply (stands_call answered kept here u).mpr
    refine frame other known ?_ u reads
    intro handles
    have kinds : other.kind = ref.kind := by rw [← known.2, ← knows.2, handles]
    apply apart
    rw [here, found, Option.some.injEq]
    cases other
    cases ref
    exact (JsonRef.mk.injEq ..).mpr ⟨kinds, handles⟩

/-- A clone stands for the tree of its variable and neither sees nor is seen by a variable that there was. -/
theorem clone_call (reached : s.Reached) (recv : String) (operands : List Operand) (into : String) {reply : Reply} {arena : JsonArena}
    (answered : s.answer recv .clone operands = some (.ok reply, arena)) :
    ∃ t, s.Stands recv t ∧ t.height ≤ maxJsonDepth ∧ (s.step (.call recv .clone operands [into])).Stands into t ∧
      ∀ name ≠ into, ¬ (s.step (.call recv .clone operands [into])).Sees into name ∧
        ¬ (s.step (.call recv .clone operands [into])).Sees name into := by
  obtain ⟨κ, sound⟩ := reached.sound
  obtain ⟨ref, args, found, given, ran⟩ := answer_run answered
  have knows := sound.2 recv ref found
  obtain ⟨t, reads, _⟩ := JsonArena.exists_reads sound.1 knows
  obtain ⟨low, new, refs, reads', apart⟩ := JsonArena.clone_run sound.1 knows reads ran
  have after : s.step (.call recv .clone operands [into]) = { arena := arena, vars := s.vars.insert into new } := by
    rw [step, answered]
    dsimp only
    rw [refs]
    rfl
  have here : (s.vars.insert into new).get? into = some new := (IndexMap.get?_insert ..).trans (if_pos rfl)
  rw [after]
  refine ⟨t, ⟨ref, found, reads⟩, low, ⟨new, here, reads'⟩, ?_⟩
  intro name kept
  have others {other : JsonRef} (there : (s.vars.insert into new).get? name = some other) : s.vars.get? name = some other := by
    rwa [IndexMap.get?_insert, if_neg (Ne.symm kept)] at there
  constructor
  · rintro ⟨ref₁, ref₂, found₁, found₂, sees⟩
    have same : new = ref₁ := Option.some.inj (here.symm.trans found₁)
    exact (apart ref₂ (sound.2 name ref₂ (others found₂))).1 (same ▸ sees)
  · rintro ⟨ref₁, ref₂, found₁, found₂, sees⟩
    have same : new = ref₂ := Option.some.inj (here.symm.trans found₂)
    exact (apart ref₁ (sound.2 name ref₁ (others found₁))).2 (same ▸ sees)

end Calls

section Examples

attribute [local instance] JsonSyntax.sample CaseMapping.latin1

/-- An array with one element, and a copy of the variable. -/
def listed : List JsonAction :=
  [.declare "list" .array, .assign "copy" "list", .call "list" .add [.value (.boolean true)] []]

theorem call_edits_listed : ∃ args t t', [Operand.variable_ "copy"].mapM (Machine.run step {} listed).operandValue = some args ∧
    (Machine.run step {} listed).Stands "list" t ∧ (Machine.run step {} listed).arena.Edits args .add t t' ∧ ∀ name ∉ ([] : List String),
      ((Machine.run step {} listed).vars.get? name = (Machine.run step {} listed).vars.get? "list" →
        ((Machine.run step {} listed).step (.call "list" .add [.variable_ "copy"] [])).Stands name t') ∧
      (¬ (Machine.run step {} listed).Sees name "list" → ∀ u, (Machine.run step {} listed).Stands name u →
        ((Machine.run step {} listed).step (.call "list" .add [.variable_ "copy"] [])).Stands name u) :=
  call_edits ⟨listed, rfl⟩ "list" (by decide) [.variable_ "copy"] [] rfl

theorem readFrom_call_listed : ∃ args text parsed t,
    [Operand.value (.text "[7]")].mapM (Machine.run step {} listed).operandValue = some args ∧
      JsonArena.keyArg args "the JSON text" = .ok text ∧ JsonSyntax.parseJson text = .ok parsed ∧ parsed.tree = some t ∧
      ∀ name ∉ ([] : List String),
        ((Machine.run step {} listed).vars.get? name = (Machine.run step {} listed).vars.get? "list" →
          ((Machine.run step {} listed).step (.call "list" .readFrom [.value (.text "[7]")] [])).Stands name t) ∧
        ((Machine.run step {} listed).vars.get? name ≠ (Machine.run step {} listed).vars.get? "list" →
          ∀ u, (Machine.run step {} listed).Stands name u →
            ((Machine.run step {} listed).step (.call "list" .readFrom [.value (.text "[7]")] [])).Stands name u) :=
  readFrom_call ⟨listed, rfl⟩ "list" [.value (.text "[7]")] [] rfl

theorem clone_call_listed : ∃ t, (Machine.run step {} listed).Stands "list" t ∧ t.height ≤ maxJsonDepth ∧
    ((Machine.run step {} listed).step (.call "list" .clone [] ["other"])).Stands "other" t ∧ ∀ name ≠ "other",
      ¬ ((Machine.run step {} listed).step (.call "list" .clone [] ["other"])).Sees "other" name ∧
        ¬ ((Machine.run step {} listed).step (.call "list" .clone [] ["other"])).Sees name "other" :=
  clone_call ⟨listed, rfl⟩ "list" [] "other" rfl

end Examples

end JsonState

end AlLanguage.Runtime.Json
