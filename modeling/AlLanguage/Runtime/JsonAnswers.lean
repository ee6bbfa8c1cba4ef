import AlLanguage.Runtime.JsonCalls

/-!
# The answer of each method

Every method of every type keeps the forest, also where it fails.
-/

namespace AlLanguage.Runtime.Json

open Library
open Relation (TransGen ReflTransGen)

namespace JsonArena

variable {a b : JsonArena} {κ : Nat → JsonKind} {id : NodeId} {node : Node} {args : List JsonArg}

/-- A container whose children are among those it had. -/
theorem serves_shrink (typed : a.Typed κ) (there : a.Exists id) {reply : Reply} (silent : reply.refs = [])
    (agrees : ∀ kind, Agrees kind (a.node id) → Agrees kind node) (fewer : node.children.Sublist (a.children id)) :
    Serves κ a (.ok reply, a.set id node) := by
  have forest : (a.set id node).Forest := by
    apply forest_set typed.forest there
    · exact (typed.forest.nodup id).sublist fewer
    · intro c inside
      exact .inl (fewer.subset inside)
  apply serves_ok (moves_set typed forest agrees)
  intro ref inside
  rw [silent] at inside
  cases inside

theorem serves_tokensFor (children : List NodeId) : ∀ (a : JsonArena) (κ : Nat → JsonKind), a.Typed κ → (∀ c ∈ children, a.Exists c) →
    ∃ κ', Moves κ κ' a (a.tokensFor children).2 ∧ ∀ ref ∈ (a.tokensFor children).1, (a.tokensFor children).2.Knows κ' ref := by
  induction children with
  | nil =>
      intro a κ typed _
      exact ⟨κ, .refl typed, fun ref inside => by cases inside⟩
  | cons child rest ih =>
      intro a κ typed there
      obtain ⟨moves, knows⟩ := moves_reference typed (there child List.mem_cons_self) (show Agrees .token (a.node child) from trivial)
      obtain ⟨κ', later, others⟩ := ih _ _ moves.typed fun c inside => there c (List.mem_cons_of_mem _ inside)
      refine ⟨κ', moves.trans later, ?_⟩
      intro ref inside
      rcases List.mem_cons.mp inside with rfl | inside
      · exact later.knows knows
      · exact others ref inside

theorem serves_unsupported (typed : a.Typed κ) (kind : JsonKind) (method : JsonMethod) :
    Serves κ a (a.unsupported kind method) := serves_error (.refl typed) (.refl a) _

section Methods

variable [JsonSyntax] [CaseMapping]

theorem serves_scalarReply (typed : a.Typed κ) (as_ : Conversion) (message : String) :
    Serves κ a (a.scalarReply id as_ message, a) := by
  apply serves_same typed
  intro reply answered
  unfold scalarReply at answered
  split at answered
  · split at answered
    · cases answered
      rfl
    · cases answered
  · cases answered

omit [JsonSyntax] [CaseMapping] in
theorem map_modify (entries : List (String × NodeId)) (place : Nat) (child : NodeId) :
    (entries.modify place fun entry => (entry.1, child)).map (·.2) = (entries.map (·.2)).set place child := by
  induction entries generalizing place with
  | nil => cases place <;> rfl
  | cons entry rest ih =>
      cases place with
      | zero => rfl
      | succ place => simp [List.modify_succ_cons, ih]

theorem serves_objectMethod (typed : a.Typed κ) (there : a.Exists id) {entries : List (String × NodeId)}
    (object : a.node id = .object entries) (knows : ∀ arg ∈ args, a.KnowsArg κ arg) (method : JsonMethod) :
    Serves κ a (a.objectMethod id entries args method) := by
  have children : a.children id = entries.map (·.2) := congrArg Node.children object
  have nodup := typed.forest.nodup id
  rw [children] at nodup
  have knows_second : ∀ arg ∈ args[1]?, a.KnowsArg κ arg := fun arg inside => knows arg (List.mem_of_getElem? inside)
  have objects {kind : JsonKind} {kept : List (String × NodeId)} (agrees : Agrees kind (a.node id)) : Agrees kind (.object kept) := by
    rw [object] at agrees
    cases kind <;> exact agrees
  cases method with
  | add =>
      apply serves_withArg typed
      intro key
      split
      · exact serves_error (.refl typed) (.refl a) _
      · apply serves_place typed there knows_second
        · exact fun child kind => objects
        · intro child fresh
          rw [children] at fresh
          rw [Node.children, List.map_append]
          exact List.nodup_append.mpr ⟨nodup, List.nodup_singleton _, by
            rintro c inside _ here rfl
            have same : c = child := List.mem_singleton.mp here
            exact fresh (same ▸ inside)⟩
        · intro child c inside
          rw [children]
          simpa [Node.children] using inside
  | replace =>
      apply serves_withArg typed
      intro key
      split
      · exact serves_error (.refl typed) (.refl a) _
      next place found =>
        have replaced (child : NodeId) : (Node.object (entries.modify place fun entry => (entry.1, child))).children =
            (entries.map (·.2)).set place child := map_modify entries place child
        apply serves_place typed there knows_second
        · exact fun child kind => objects
        · intro child fresh
          rw [children] at fresh
          rw [replaced]
          exact List.Nodup.set nodup fresh
        · intro child c inside
          rw [children]
          rw [replaced] at inside
          exact List.mem_or_eq_of_mem_set inside
  | remove =>
      apply serves_withArg typed
      intro key
      apply serves_shrink typed there
      · rfl
      · exact fun kind => objects
      · rw [children]
        exact List.filter_sublist.map _
  | contains =>
      apply serves_withArg typed
      intro key
      apply serves_same typed
      intro reply answered
      cases answered
      rfl
  | get =>
      apply serves_withArg typed
      intro key
      split
      · exact serves_error (.refl typed) (.refl a) _
      next entry found =>
        apply serves_token typed
        apply typed.forest.resolves id
        rw [children]
        exact List.mem_map_of_mem (List.mem_of_find?_eq_some found)
  | keys =>
      apply serves_same typed
      intro reply answered
      cases answered
      rfl
  | values =>
      obtain ⟨κ', moves, knows⟩ := serves_tokensFor (entries.map (·.2)) a κ typed (children ▸ typed.forest.resolves id)
      apply serves_ok moves
      intro ref inside
      rw [Reply.refs, List.filterMap_nil, List.append_nil] at inside
      exact knows ref inside
  | getAs as_ =>
      apply serves_withArg typed
      intro key
      apply serves_withArg typed
      intro flag
      split
      · split
        · apply serves_same typed
          intro reply answered
          cases answered
          rfl
        · exact serves_error (.refl typed) (.refl a) _
      · exact serves_scalarReply typed _ _
  | _ => exact serves_unsupported typed _ _

omit [CaseMapping] in
theorem serves_wantedText (typed : a.Typed κ) (there : a.Exists id) {value : Option JsonArg}
    (knows : ∀ arg ∈ value, a.KnowsArg κ arg) :
    Moves κ κ a (a.wantedText id value).2 ∧ Quiet κ a (a.wantedText id value).2 := by
  cases value with
  | none => exact ⟨.refl typed, .refl a⟩
  | some arg =>
      cases arg with
      | json ref =>
          have made := targeted typed (knows _ rfl)
          exact ⟨made.moves, made.quiet⟩
      | value v =>
          have offers := offers_childFor typed there (knows _ rfl)
          unfold wantedText
          dsimp only
          cases offered : a.childFor id (.value v) with
          | mk result b =>
              rw [offered] at offers
              cases result with
              | error e => exact ⟨offers.moves, offers.quiet⟩
              | ok probe => exact ⟨offers.moves, offers.quiet⟩

omit [CaseMapping] in
theorem refs_findText (a : JsonArena) (wanted : String) (items : List NodeId) (place : Int64) (reply : Reply)
    (found : a.findText wanted place items = .ok reply) : reply.refs = [] := by
  induction items generalizing place with
  | nil =>
      cases found
      rfl
  | cons item rest ih =>
      rw [findText] at found
      split at found
      · cases found
      · split at found
        · cases found
          rfl
        · exact ih _ found

theorem serves_arrayMethod (typed : a.Typed κ) (there : a.Exists id) {items : List NodeId}
    (array : a.node id = .array items) (knows : ∀ arg ∈ args, a.KnowsArg κ arg) (method : JsonMethod) :
    Serves κ a (a.arrayMethod id items args method) := by
  have children : a.children id = items := congrArg Node.children array
  have nodup := typed.forest.nodup id
  rw [children] at nodup
  have knows_at (i : Nat) : ∀ arg ∈ args[i]?, a.KnowsArg κ arg := fun arg inside => knows arg (List.mem_of_getElem? inside)
  have arrays {kind : JsonKind} {kept : List NodeId} (agrees : Agrees kind (a.node id)) : Agrees kind (.array kept) := by
    rw [array] at agrees
    cases kind <;> exact agrees
  cases method with
  | add =>
      apply serves_place typed there (knows_at 0)
      · exact fun child kind => arrays
      · intro child fresh
        rw [children] at fresh
        exact List.nodup_append.mpr ⟨nodup, List.nodup_singleton _, by
          rintro c inside _ here rfl
          exact fresh (List.mem_singleton.mp here ▸ inside)⟩
      · intro child c inside
        rw [children]
        simpa [Node.children] using inside
  | insert =>
      apply serves_withArg typed
      intro place
      apply serves_place typed there (knows_at 1)
      · exact fun child kind => arrays
      · intro child fresh
        rw [children] at fresh
        show (items.insertIdx place child).Nodup
        rcases Nat.lt_or_ge items.length place with beyond | within
        · rwa [List.insertIdx_of_length_lt beyond]
        · exact (List.perm_insertIdx child items within).nodup_iff.mpr (List.nodup_cons.mpr ⟨fresh, nodup⟩)
      · intro child c inside
        rw [children]
        exact (List.eq_or_mem_of_mem_insertIdx inside).symm
  | set =>
      apply serves_withArg typed
      intro place
      apply serves_place typed there (knows_at 1)
      · exact fun child kind => arrays
      · intro child fresh
        rw [children] at fresh
        exact List.Nodup.set nodup fresh
      · intro child c inside
        rw [children]
        exact List.mem_or_eq_of_mem_set inside
  | removeAt =>
      apply serves_withArg typed
      intro place
      apply serves_shrink typed there
      · rfl
      · exact fun kind => arrays
      · rw [children]
        exact List.eraseIdx_sublist ..
  | count =>
      apply serves_same typed
      intro reply answered
      cases answered
      rfl
  | get =>
      apply serves_withArg typed
      intro place
      split
      · exact serves_error (.refl typed) (.refl a) _
      next item found =>
        apply serves_token typed
        apply typed.forest.resolves id
        rw [children]
        exact List.mem_of_getElem? found
  | indexOf =>
      have wanted := serves_wantedText typed there (knows_at 0)
      unfold arrayMethod
      dsimp only
      cases searched : a.wantedText id args[0]? with
      | mk result b =>
          rw [searched] at wanted
          cases result with
          | error e => exact serves_error wanted.1 wanted.2 _
          | ok text => exact (serves_same wanted.1.typed (refs_findText b text items 0)).after wanted.1 wanted.2
  | getAs as_ =>
      apply serves_withArg typed
      intro place
      split
      · exact serves_error (.refl typed) (.refl a) _
      · exact serves_scalarReply typed _ _
  | _ => exact serves_unsupported typed _ _

omit [JsonSyntax] [CaseMapping] in
theorem serves_tokenMethod (typed : a.Typed κ) (there : a.Exists id) (method : JsonMethod) :
    Serves κ a (a.tokenMethod id method) := by
  have answers (b : Bool) : Serves κ a (.ok (.boolean b), a) := by
    apply serves_same typed
    intro reply answered
    cases answered
    rfl
  cases method with
  | isObject => exact answers _
  | isArray => exact answers _
  | isValue => exact answers _
  | asObject =>
      unfold tokenMethod
      dsimp only
      split
      next same =>
        apply serves_reference typed there
        rw [same]
        trivial
      next => exact serves_error (.refl typed) (.refl a) _
  | asArray =>
      unfold tokenMethod
      dsimp only
      split
      next same =>
        apply serves_reference typed there
        rw [same]
        trivial
      next => exact serves_error (.refl typed) (.refl a) _
  | asValue =>
      unfold tokenMethod
      dsimp only
      split
      next same =>
        apply serves_reference typed there
        rw [same]
        trivial
      next => exact serves_error (.refl typed) (.refl a) _
  | _ => exact serves_unsupported typed _ _

end Methods

end JsonArena

end AlLanguage.Runtime.Json
