import AlLanguage.Symbols.Concurrent

/-!
# What concurrent calls find in the caches

- A composition is in the cache as long as no update will touch its parts, or else a removal still clears the cache.
- A catalog whose generation is the current one is right unless an update still has to count.
-/

namespace AlLanguage.Symbols

open Library Threads AlLanguage.Runtime

section Calls

variable [CaseMapping] [LanguageData]

/-! ## The parts of a composition -/

/-- Those of the named and extending entries that are composed. -/
def partsOf (kind : ObjectKind) (named extending : List Arc) : List Arc × List Arc :=
  (named.filter (·.value.kind = kind), extending.filter (·.value.kind.baseKind = some kind))

theorem composeFrom_parts {kind : ObjectKind} {named named' extending extending' : List Arc}
    (same : partsOf kind named extending = partsOf kind named' extending') :
    composeFrom kind named extending = composeFrom kind named' extending' := by
  obtain ⟨left, right⟩ := Prod.mk.inj same
  simp only [composeFrom, left, right]

namespace SymbolIndex

def namedNow (index : SymbolIndex) (lower : String) : List Arc := (index.byName.get? lower).getD []

def extendingNow (index : SymbolIndex) (lower : String) : List Arc := (index.byExtends.get? lower).getD []

def parts (index : SymbolIndex) (kind : ObjectKind) (lower : String) : List Arc × List Arc :=
  partsOf kind (index.namedNow lower) (index.extendingNow lower)

def composedNow (index : SymbolIndex) (kind : ObjectKind) (lower : String) : Option ComposedObject :=
  composeFrom kind (index.namedNow lower) (index.extendingNow lower)

theorem composedNow_of_parts {index index' : SymbolIndex} {kind : ObjectKind} {lower : String}
    (same : index'.parts kind lower = index.parts kind lower) :
    index'.composedNow kind lower = index.composedNow kind lower := composeFrom_parts same

end SymbolIndex

/-- An entry with this name, or one that extends it. -/
def Affects (kind : ObjectKind) (lower : String) (entry : SymbolEntry) : Prop :=
  (entry.kind = kind ∧ foldName entry.name = lower) ∨
    (entry.kind.baseKind = some kind ∧ entry.extends_.map toLowercase = some lower)

def MapWrite.Touches (kind : ObjectKind) (lower : String) : MapWrite → Prop
  | pushName arc => arc.value.kind = kind ∧ foldName arc.value.name = lower
  | pushExtends arc => arc.value.kind.baseKind = some kind ∧ extendsOf arc = some lower
  | retainName _ | retainExtends _ => True
  | _ => False

omit [CaseMapping] [LanguageData] in
theorem getD_pushUnder {m : OrderedMap String (List Arc)} {key : Option String} {arc : Arc} {lower : String} :
    ((pushUnder m key arc).get? lower).getD [] = (m.get? lower).getD [] ++ if key = some lower then [arc] else [] := by
  unfold pushUnder
  cases key with
  | none => simp
  | some k =>
      dsimp only
      rw [OrderedMap.push, OrderedMap.get?_insert]
      by_cases same : k = lower
      · subst same
        rw [if_pos Std.ReflCmp.compare_self, if_pos rfl]
        rfl
      · rw [if_neg fun equal => same (Std.LawfulEqCmp.eq_of_compare equal), if_neg (by simpa using same), List.append_nil]

theorem MapWrite.parts_apply {index : SymbolIndex} {write : MapWrite} {kind : ObjectKind} {lower : String}
    (untouched : ¬write.Touches kind lower) : (write.apply index).parts kind lower = index.parts kind lower := by
  cases write with
  | pushName arc =>
      have named : (apply index (pushName arc)).namedNow lower =
          index.namedNow lower ++ if nameOf arc = some lower then [arc] else [] := getD_pushUnder
      have kept : ((index.namedNow lower ++ if nameOf arc = some lower then [arc] else []).filter (·.value.kind = kind)) =
          (index.namedNow lower).filter (·.value.kind = kind) := by
        rw [List.filter_append]
        split
        next under =>
          have other : arc.value.kind ≠ kind := fun same => untouched ⟨same, Option.some.inj under⟩
          simp [other]
        next => simp
      simp only [SymbolIndex.parts, partsOf, named, kept]
      rfl
  | pushExtends arc =>
      have extending : (apply index (pushExtends arc)).extendingNow lower =
          index.extendingNow lower ++ if extendsOf arc = some lower then [arc] else [] := getD_pushUnder
      have kept : ((index.extendingNow lower ++ if extendsOf arc = some lower then [arc] else []).filter
          (·.value.kind.baseKind = some kind)) = (index.extendingNow lower).filter (·.value.kind.baseKind = some kind) := by
        rw [List.filter_append]
        split
        next under =>
          have other : arc.value.kind.baseKind ≠ some kind := fun same => untouched ⟨same, under⟩
          simp [other]
        next => simp
      simp only [SymbolIndex.parts, partsOf, extending, kept]
      rfl
  | retainName ptrs => exact absurd trivial untouched
  | retainExtends ptrs => exact absurd trivial untouched
  | _ => rfl

theorem touches_addArcWrites {seq : Nat} {arc : Arc} {packageKey : String} {kind : ObjectKind} {lower : String}
    (touches : ∃ write ∈ addArcWrites seq arc packageKey, write.Touches kind lower) : Affects kind lower arc.value := by
  obtain ⟨write, member, touched⟩ := touches
  simp only [addArcWrites, List.mem_cons, List.not_mem_nil, or_false] at member
  rcases member with rfl | rfl | rfl | rfl | rfl | rfl
  · exact touched.elim
  · exact .inl touched
  · exact touched.elim
  · exact touched.elim
  · exact touched.elim
  · exact .inr touched

theorem mem_affectedNames {entries : List SymbolEntry} {entry : SymbolEntry} {kind : ObjectKind} {lower : String}
    (member : entry ∈ entries) (affects : Affects kind lower entry) : lower ∈ SymbolIndex.affectedNames entries := by
  apply List.mem_flatMap.mpr
  refine ⟨entry, member, ?_⟩
  rcases affects with ⟨_, name⟩ | ⟨_, extended⟩
  · rw [← name]
    exact List.mem_cons_self
  · rw [extended]
    simp

omit [LanguageData] in
/-- An invalidation changes the composed cache only. -/
theorem SymbolIndex.invalidated (index : SymbolIndex) (entries : List SymbolEntry) :
    ∃ cache, index.invalidateComposedForEntries entries = { index with composedCache := cache } := by
  unfold SymbolIndex.invalidateComposedForEntries
  split
  · exact ⟨index.composedCache, rfl⟩
  dsimp only
  split
  · exact ⟨index.composedCache, rfl⟩
  · exact ⟨_, rfl⟩

/-- What stays in the cache is not affected by the entries. -/
theorem composed_invalidated {index : SymbolIndex} {entries : List SymbolEntry} {kind : ObjectKind} {lower : String}
    {object : ComposedObject}
    (cached : (index.invalidateComposedForEntries entries).composedCache.get? (kind, lower) = some object) :
    index.composedCache.get? (kind, lower) = some object ∧ ∀ entry ∈ entries, ¬Affects kind lower entry := by
  unfold SymbolIndex.invalidateComposedForEntries at cached
  split at cached
  next empty =>
    rw [OrderedMap.get?, List.isEmpty_iff.mp empty] at cached
    cases cached
  dsimp only at cached
  split at cached
  next nobody =>
    refine ⟨cached, ?_⟩
    intro entry member affects
    have affected := mem_affectedNames member affects
    rw [List.isEmpty_iff.mp nobody] at affected
    cases affected
  next =>
    obtain ⟨stored, member, same⟩ := (OrderedMap.get?_eq_some_iff ..).mp cached
    obtain ⟨inside, kept⟩ := List.mem_filter.mp member
    obtain rfl := Std.LawfulEqCmp.eq_of_compare same
    refine ⟨(OrderedMap.get?_eq_some_iff ..).mpr ⟨_, inside, Std.ReflCmp.compare_self⟩, ?_⟩
    intro entry among affects
    simp only [decide_eq_true_eq] at kept
    exact kept (mem_affectedNames among affects)

/-! ## The composed cache -/

namespace Worker

/-- The update will still change the parts of a composition. -/
def Touches (kind : ObjectKind) (lower : String) : Worker → Prop
  | probing entries _ => ∃ entry ∈ entries, Affects kind lower entry
  | adding pending _ writes _ _ => (∃ entry ∈ pending, Affects kind lower entry) ∨ ∃ write ∈ writes, write.Touches kind lower
  | _ => False

/-- A removal that has begun to change the maps still has to clear the cache. -/
def clears : Worker → Bool
  | removing .. | clearing => true
  | _ => false

end Worker

/-- What is cached is the composition of now, and no update in progress is to touch it. -/
def Settled (world : World SymbolIndex Worker) : Prop :=
  ∀ kind lower object, world.shared.composedCache.get? (kind, lower) = some object →
    world.shared.composedNow kind lower = some object ∧ ∀ t, ¬(world.threads t).Touches kind lower

def Coherent (world : World SymbolIndex Worker) : Prop := (∃ t, (world.threads t).clears = true) ∨ Settled world

/-- A call inserts a composition whose parts are those of now and stay so, unless the cache is cleared anyway. -/
def Clean (world : World SymbolIndex Worker) : Action Call Empty → Prop
  | .step t =>
    match world.threads t with
    | .inserting kind name named extending =>
        composeFrom kind named extending = none ∨ world.shared.composedCache.contains (kind, toLowercase name) = true ∨
          (∃ u, (world.threads u).clears = true) ∨
            (partsOf kind named extending = world.shared.parts kind (toLowercase name) ∧
              ∀ u, ¬(world.threads u).Touches kind (toLowercase name))
    | _ => True
  | _ => True

section Steps

variable {world : World SymbolIndex Worker} {index : SymbolIndex} {t : Nat} {state : Worker}

/-- A step that keeps the parts of what stays in the cache. -/
theorem Settled.stepTo (settled : Settled world)
    (kept : ∀ kind lower object, index.composedCache.get? (kind, lower) = some object →
      world.shared.composedCache.get? (kind, lower) = some object ∧
        index.composedNow kind lower = world.shared.composedNow kind lower ∧ ¬state.Touches kind lower) :
    Settled (World.goto { world with shared := index } t state) := by
  intro kind lower object cached
  obtain ⟨before, same, untouched⟩ := kept kind lower object cached
  obtain ⟨right, others⟩ := settled kind lower object before
  refine ⟨same.trans right, ?_⟩
  intro u
  by_cases own : u = t
  · subst own
    rw [World.goto_self]
    exact untouched
  · rw [World.goto_other _ own]
    exact others u

/-- A step that leaves the cache and the two groups a composition is made of. -/
theorem Settled.stay (settled : Settled world) (cache : index.composedCache = world.shared.composedCache)
    (named : index.byName = world.shared.byName) (extending : index.byExtends = world.shared.byExtends)
    (touches : ∀ kind lower, state.Touches kind lower → (world.threads t).Touches kind lower) :
    Settled (World.goto { world with shared := index } t state) := by
  apply settled.stepTo
  intro kind lower object cached
  rw [cache] at cached
  refine ⟨cached, ?_, fun touched => (settled kind lower object cached).2 t (touches kind lower touched)⟩
  simp only [SymbolIndex.composedNow, SymbolIndex.namedNow, SymbolIndex.extendingNow, named, extending]

theorem coherent_clearing (clears : (world.threads t).clears = true) : Coherent (indexCalls.after world (.step t)) := by
  cases at_ : world.threads t with
  | removing writes removedNames =>
      left
      refine ⟨t, ?_⟩
      cases writes with
      | nil => simp [System.after, indexCalls, at_, SymbolIndex.next, Worker.clears]
      | cons write rest => simp [System.after, indexCalls, at_, SymbolIndex.next, Worker.clears]
  | clearing =>
      right
      intro kind lower object cached
      simp [System.after, indexCalls, at_, SymbolIndex.next, SymbolIndex.clearComposed] at cached
  | _ =>
      rw [at_] at clears
      cases clears

theorem settled_invalidating {entries : List SymbolEntry} {packageKey : Option String} (settled : Settled world) :
    Settled (World.goto { world with shared := world.shared.invalidateComposedForEntries entries } t
      (.probing entries packageKey)) := by
  apply settled.stepTo
  intro kind lower object cached
  obtain ⟨stored, unaffected⟩ := composed_invalidated cached
  refine ⟨stored, ?_, ?_⟩
  · obtain ⟨cache, invalidated⟩ := world.shared.invalidated entries
    rw [invalidated]
    rfl
  · rintro ⟨entry, member, affects⟩
    exact unaffected entry member affects

theorem settled_writing {pending : List SymbolEntry} {packageKey : Option String} {write : MapWrite}
    {writes : List MapWrite} {added : List Arc} {update : Bool} (settled : Settled world)
    (at_ : world.threads t = .adding pending packageKey (write :: writes) added update) :
    Settled (World.goto { world with shared := write.apply world.shared } t
      (.adding pending packageKey writes added update)) := by
  have cache : (write.apply world.shared).composedCache = world.shared.composedCache := by cases write <;> rfl
  apply settled.stepTo
  intro kind lower object cached
  rw [cache] at cached
  have untouched := (settled kind lower object cached).2 t
  rw [at_] at untouched
  obtain ⟨later, now⟩ := not_or.mp untouched
  have here : ¬write.Touches kind lower := fun touched => now ⟨write, List.mem_cons_self, touched⟩
  refine ⟨cached, SymbolIndex.composedNow_of_parts (MapWrite.parts_apply here), not_or.mpr ⟨later, ?_⟩⟩
  rintro ⟨other, member, touched⟩
  exact now ⟨other, List.mem_cons_of_mem _ member, touched⟩

theorem Settled.insert {kind : ObjectKind} {lower : String} {object : ComposedObject} (settled : Settled world)
    (composed : world.shared.composedNow kind lower = some object) (untouched : ∀ u, ¬(world.threads u).Touches kind lower)
    (own : ∀ kind lower, ¬state.Touches kind lower) :
    Settled (World.goto { world with shared := world.shared.withComposed (kind, lower) object } t state) := by
  intro kind' lower' object' cached
  have others (before : ∀ u, ¬(world.threads u).Touches kind' lower') (u : Nat) :
      ¬((World.goto { world with shared := world.shared.withComposed (kind, lower) object } t state).threads u).Touches
        kind' lower' := by
    by_cases mine : u = t
    · subst mine
      rw [World.goto_self]
      exact own kind' lower'
    · rw [World.goto_other _ mine]
      exact before u
  rw [World.goto_shared, SymbolIndex.withComposed, OrderedMap.get?_insert] at cached
  split at cached
  next fits =>
    cases cached
    cases Std.LawfulEqCmp.eq_of_compare fits
    exact ⟨composed, others untouched⟩
  next =>
    obtain ⟨right, before⟩ := settled kind' lower' object' cached
    exact ⟨right, others before⟩

theorem settled_inserting {kind : ObjectKind} {name : String} {named extending : List Arc} (settled : Settled world)
    (at_ : world.threads t = .inserting kind name named extending) (calm : ¬∃ u, (world.threads u).clears = true)
    (clean : Clean world (.step t)) : Settled (indexCalls.after world (.step t)) := by
  simp only [Clean, at_] at clean
  have idle {result : Option ComposedObject} :
      ∀ kind' lower, ¬(Worker.composed kind name result).Touches kind' lower := fun _ _ touched => touched
  simp only [System.after, indexCalls, at_]
  rw [SymbolIndex.next]
  split
  next => exact settled.stay rfl rfl rfl (fun kind' lower touched => absurd touched (idle kind' lower))
  next object composed =>
  split
  next => exact settled.stay rfl rfl rfl (fun kind' lower touched => absurd touched (idle kind' lower))
  next present =>
  rcases clean with nothing | there | clearing | ⟨same, untouched⟩
  · rw [composed] at nothing
    cases nothing
  · rw [(OrderedMap.contains_eq_false_iff ..).mpr present] at there
    cases there
  · exact absurd clearing calm
  · exact settled.insert ((composeFrom_parts same).symm.trans composed) untouched idle

theorem Coherent.step (coherent : Coherent world) (clean : Clean world (.step t)) :
    Coherent (indexCalls.after world (.step t)) := by
  by_cases own : (world.threads t).clears = true
  · exact coherent_clearing own
  rcases coherent with ⟨u, clears⟩ | settled
  · have apart : u ≠ t := by
      rintro rfl
      exact own clears
    left
    exact ⟨u, by rw [System.after, World.goto_other _ apart]; exact clears⟩
  by_cases calm : ∃ u, (world.threads u).clears = true
  · obtain ⟨u, clears⟩ := calm
    have apart : u ≠ t := by
      rintro rfl
      exact own clears
    left
    exact ⟨u, by rw [System.after, World.goto_other _ apart]; exact clears⟩
  cases at_ : world.threads t with
  | invalidating entries packageKey =>
      right
      simp only [System.after, indexCalls, at_, SymbolIndex.next]
      exact settled_invalidating settled
  | probing entries packageKey =>
      right
      simp only [System.after, indexCalls, at_, SymbolIndex.next]
      apply settled.stay rfl rfl rfl
      intro kind lower touched
      rw [at_]
      rcases touched with affected | ⟨write, member, _⟩
      · exact affected
      · cases member
  | adding pending packageKey writes added update =>
      right
      cases writes with
      | cons write writes =>
          simp only [System.after, indexCalls, at_, SymbolIndex.next]
          exact settled_writing settled at_
      | nil =>
          cases pending with
          | nil =>
              simp only [System.after, indexCalls, at_, SymbolIndex.next]
              exact settled.stay rfl rfl rfl (fun _ _ touched => touched.elim)
          | cons entry pending =>
              simp only [System.after, indexCalls, at_, SymbolIndex.next]
              apply settled.stay rfl rfl rfl
              intro kind lower touched
              rw [at_]
              rcases touched with ⟨other, member, affects⟩ | written
              · exact .inl ⟨other, List.mem_cons_of_mem _ member, affects⟩
              · exact .inl ⟨entry, List.mem_cons_self, touches_addArcWrites written⟩
  | sorting added update =>
      right
      simp only [System.after, indexCalls, at_, SymbolIndex.next]
      unfold SymbolIndex.updateSortedNamesAfterAdd
      split <;> exact settled.stay rfl rfl rfl (fun _ _ touched => touched.elim)
  | selecting chosen =>
      right
      simp only [System.after, indexCalls, at_, SymbolIndex.next]
      exact settled.stay rfl rfl rfl (fun _ _ touched => touched.elim)
  | selected toRemove =>
      right
      simp only [System.after, indexCalls, at_, SymbolIndex.next]
      split <;> exact settled.stay rfl rfl rfl (fun _ _ touched => touched.elim)
  | removing writes removedNames =>
      rw [at_] at own
      exact absurd rfl own
  | clearing =>
      rw [at_] at own
      exact absurd rfl own
  | inserting kind name named extending => exact .inr (settled_inserting settled at_ calm clean)
  | looking kind name =>
      right
      simp only [System.after, indexCalls, at_, SymbolIndex.next]
      split <;> exact settled.stay rfl rfl rfl (fun _ _ touched => touched.elim)
  | recalling generation =>
      right
      simp only [System.after, indexCalls, at_, SymbolIndex.next]
      split
      · exact settled.stay rfl rfl rfl (fun _ _ touched => touched.elim)
      · split <;> exact settled.stay rfl rfl rfl (fun _ _ touched => touched.elim)
  | extracting generation remaining catalog =>
      right
      cases remaining <;> simp only [System.after, indexCalls, at_, SymbolIndex.next] <;>
        exact settled.stay rfl rfl rfl (fun _ _ touched => touched.elim)
  | _ =>
      right
      simp only [System.after, indexCalls, at_, SymbolIndex.next]
      exact settled.stay rfl rfl rfl (fun _ _ touched => touched.elim)

end Steps

/-! ## The event catalog -/

/-- The update has changed entries, or may, and will count that. -/
def Worker.counts : Worker → Bool
  | probing .. | adding .. | sorting .. | removing .. | clearing | bumping => true
  | _ => false

/-- Unless an update still has to count, an answer of the current generation is the catalog of now. -/
def Valid (world : World SymbolIndex Worker) (generation : Nat) (answer : EventCatalog) : Prop :=
  generation ≤ world.shared.mutation ∧
    (generation = world.shared.mutation →
      (∃ t, (world.threads t).counts = true) ∨ answer = buildEventCatalog world.shared)

/-- What becomes of a catalog that is being built. -/
def builtFrom (index : SymbolIndex) (remaining : List Arc) (catalog : EventCatalog) : EventCatalog :=
  (remaining.foldl (addEvents index) catalog).sorted

def DatedWorker (world : World SymbolIndex Worker) : Worker → Prop
  | .recalling generation | .collecting generation => generation ≤ world.shared.mutation
  | .extracting generation remaining catalog => Valid world generation (builtFrom world.shared remaining catalog)
  | .filing generation catalog => Valid world generation catalog
  | _ => True

def Dated (world : World SymbolIndex Worker) : Prop :=
  (∀ cache, world.shared.eventCatalogCache = some cache → Valid world cache.generation cache.catalog) ∧
    ∀ t, DatedWorker world (world.threads t)

omit [LanguageData] in
theorem addEvents_congr {index index' : SymbolIndex} (same : index'.byKindId = index.byKindId) :
    addEvents index' = addEvents index := by
  have names : publisherNameForId index' = publisherNameForId index := by
    funext targetType target
    simp only [publisherNameForId, SymbolIndex.getById, same]
  have attributes : addAttribute index' = addAttribute index := by
    funext object methodIndex catalog attr
    simp only [addAttribute, names]
  funext catalog object
  simp only [addEvents, attributes]

omit [LanguageData] in
theorem builtFrom_congr {index index' : SymbolIndex} (same : index'.byKindId = index.byKindId) (remaining : List Arc)
    (catalog : EventCatalog) : builtFrom index' remaining catalog = builtFrom index remaining catalog := by
  simp only [builtFrom, addEvents_congr same]

omit [LanguageData] in
theorem buildEventCatalog_congr {index index' : SymbolIndex} (all : index'.all = index.all)
    (same : index'.byKindId = index.byKindId) : buildEventCatalog index' = buildEventCatalog index := by
  simp only [buildEventCatalog, SymbolIndex.allEntries, all, addEvents_congr same]

/-- The maps that a query does not change. -/
structure SameEntries (index index' : SymbolIndex) : Prop where
  byName : index'.byName = index.byName
  byExtends : index'.byExtends = index.byExtends
  byKindId : index'.byKindId = index.byKindId
  all : index'.all = index.all
  mutation : index'.mutation = index.mutation

theorem next_uncounted (index : SymbolIndex) {worker : Worker} (uncounted : worker.counts = false) :
    SameEntries index (index.next worker).1 := by
  fun_cases SymbolIndex.next index worker
  all_goals first
    | exact ⟨rfl, rfl, rfl, rfl, rfl⟩
    | cases uncounted
  rename_i entries packageKey
  unfold SymbolIndex.invalidateComposedForEntries
  split
  · exact ⟨rfl, rfl, rfl, rfl, rfl⟩
  dsimp only
  split <;> exact ⟨rfl, rfl, rfl, rfl, rfl⟩

/-- An update that is to count goes on, or counts. -/
theorem next_counted (index : SymbolIndex) {worker : Worker} (counted : worker.counts = true) :
    ((index.next worker).2.counts = true ∧ (index.next worker).1.mutation = index.mutation ∨
        (index.next worker).2 = .done ∧ (index.next worker).1.mutation = index.mutation + 1) ∧
      (index.next worker).1.eventCatalogCache = index.eventCatalogCache := by
  have write_mutation (write : MapWrite) : (write.apply index).mutation = index.mutation := by cases write <;> rfl
  have write_cache (write : MapWrite) : (write.apply index).eventCatalogCache = index.eventCatalogCache := by
    cases write <;> rfl
  cases worker with
  | probing entries packageKey => exact ⟨.inl ⟨rfl, rfl⟩, rfl⟩
  | adding pending packageKey writes added update =>
      cases writes with
      | cons write writes => exact ⟨.inl ⟨rfl, write_mutation write⟩, write_cache write⟩
      | nil => cases pending <;> exact ⟨.inl ⟨rfl, rfl⟩, rfl⟩
  | sorting added update => cases update <;> exact ⟨.inl ⟨rfl, rfl⟩, rfl⟩
  | removing writes removedNames =>
      cases writes with
      | cons write writes => exact ⟨.inl ⟨rfl, write_mutation write⟩, write_cache write⟩
      | nil => cases removedNames <;> exact ⟨.inl ⟨rfl, rfl⟩, rfl⟩
  | clearing => exact ⟨.inl ⟨rfl, rfl⟩, rfl⟩
  | bumping => exact ⟨.inr ⟨rfl, rfl⟩, rfl⟩
  | _ => cases counted

section Dates

variable {world : World SymbolIndex Worker} {t : Nat}

theorem threads_after_other {u : Nat} (apart : u ≠ t) :
    (indexCalls.after world (.step t)).threads u = world.threads u := by
  rw [System.after, World.goto_other _ apart]

theorem threads_after_self :
    (indexCalls.after world (.step t)).threads t = (world.shared.next (world.threads t)).2 := by
  rw [System.after, World.goto_self]
  rfl

theorem shared_after : (indexCalls.after world (.step t)).shared = (world.shared.next (world.threads t)).1 := rfl

/-- An answer stays valid when it does not depend on what the step changes. -/
theorem Valid.step {generation : Nat} {answer answer' : EventCatalog} (valid : Valid world generation answer)
    (same : (world.threads t).counts = false → answer' = answer) :
    Valid (indexCalls.after world (.step t)) generation answer' := by
  obtain ⟨known, right⟩ := valid
  by_cases counted : (world.threads t).counts = true
  · rcases (next_counted world.shared counted).1 with ⟨goes, mutation⟩ | ⟨_, mutation⟩
    · refine ⟨?_, fun _ => .inl ⟨t, ?_⟩⟩
      · rw [shared_after, mutation]
        exact known
      · rw [threads_after_self]
        exact goes
    · rw [Valid, shared_after, mutation]
      refine ⟨by omega, ?_⟩
      intro current
      omega
  · have uncounted : (world.threads t).counts = false := by simpa using counted
    have entries := next_uncounted world.shared uncounted
    rw [Valid, shared_after, entries.mutation]
    refine ⟨known, ?_⟩
    intro current
    rcases right current with ⟨u, counts⟩ | built
    · left
      have apart : u ≠ t := by
        rintro rfl
        exact counted counts
      exact ⟨u, by rw [threads_after_other apart]; exact counts⟩
    · right
      rw [same uncounted, built, buildEventCatalog_congr entries.all entries.byKindId]

theorem mutation_after : world.shared.mutation ≤ (indexCalls.after world (.step t)).shared.mutation := by
  rw [shared_after]
  by_cases counted : (world.threads t).counts = true
  · rcases (next_counted world.shared counted).1 with ⟨_, mutation⟩ | ⟨_, mutation⟩ <;> omega
  · rw [(next_uncounted world.shared (by simpa using counted)).mutation]

theorem DatedWorker.step {worker : Worker} (dated : DatedWorker world worker) :
    DatedWorker (indexCalls.after world (.step t)) worker := by
  cases worker with
  | recalling generation => exact Nat.le_trans dated mutation_after
  | collecting generation => exact Nat.le_trans dated mutation_after
  | extracting generation remaining catalog =>
      exact Valid.step dated fun uncounted => builtFrom_congr (next_uncounted world.shared uncounted).byKindId ..
  | filing generation catalog => exact Valid.step dated fun _ => rfl
  | _ => trivial

/-- What a call knows about dates after its own step. -/
theorem dated_next (dated : Dated world) :
    DatedWorker (indexCalls.after world (.step t)) (world.shared.next (world.threads t)).2 := by
  have own := dated.2 t
  cases at_ : world.threads t with
  | dating => 
      change world.shared.mutation ≤ (indexCalls.after world (.step t)).shared.mutation
      exact mutation_after
  | recalling generation =>
      rw [at_] at own
      rw [SymbolIndex.next]
      split
      · exact Nat.le_trans own mutation_after
      split
      · trivial
      · exact Nat.le_trans own mutation_after
  | collecting generation =>
      rw [at_] at own
      have valid : Valid world generation (builtFrom world.shared world.shared.allEntries {}) := ⟨own, fun _ => .inr rfl⟩
      exact valid.step fun uncounted => builtFrom_congr (next_uncounted world.shared uncounted).byKindId ..
  | extracting generation remaining catalog =>
      rw [at_] at own
      cases remaining with
      | nil => exact Valid.step own fun _ => rfl
      | cons object remaining =>
          exact Valid.step own fun uncounted => builtFrom_congr (next_uncounted world.shared uncounted).byKindId ..
  | adding pending packageKey writes added update =>
      cases writes with
      | cons write writes => trivial
      | nil => cases pending <;> trivial
  | removing writes removedNames => cases writes <;> trivial
  | looking kind name =>
      rw [SymbolIndex.next]
      split <;> trivial
  | selected toRemove =>
      rw [SymbolIndex.next]
      split <;> trivial
  | inserting kind name named extending =>
      rw [SymbolIndex.next]
      split
      · trivial
      split <;> trivial
  | _ => trivial

omit [LanguageData] in
theorem invalidated_cache (index : SymbolIndex) (entries : List SymbolEntry) :
    (index.invalidateComposedForEntries entries).eventCatalogCache = index.eventCatalogCache := by
  obtain ⟨cache, invalidated⟩ := index.invalidated entries
  rw [invalidated]

/-- Only a call that files its catalog changes the cached one. -/
theorem next_cache (index : SymbolIndex) (worker : Worker) :
    (index.next worker).1.eventCatalogCache = index.eventCatalogCache ∨
      ∃ generation catalog, worker = .filing generation catalog ∧
        (index.next worker).1.eventCatalogCache = some ⟨generation, catalog⟩ := by
  by_cases counted : worker.counts = true
  · exact .inl (next_counted index counted).2
  fun_cases SymbolIndex.next index worker
  all_goals first
    | exact .inl rfl
    | exact absurd rfl counted
    | exact .inr ⟨_, _, rfl, rfl⟩
    | exact .inl (invalidated_cache ..)

theorem Dated.step (dated : Dated world) : Dated (indexCalls.after world (.step t)) := by
  refine ⟨?_, ?_⟩
  · intro cache stored
    rw [shared_after] at stored
    rcases next_cache world.shared (world.threads t) with same | ⟨generation, catalog, at_, filed⟩
    · rw [same] at stored
      exact (dated.1 cache stored).step fun _ => rfl
    · rw [filed] at stored
      cases stored
      have own := dated.2 t
      rw [at_] at own
      exact Valid.step own fun _ => rfl
  · intro u
    by_cases own : u = t
    · subst own
      rw [threads_after_self]
      exact dated_next dated
    · rw [threads_after_other own]
      exact (dated.2 u).step

end Dates

/-! ## Runs -/

section Runs

variable {world : World SymbolIndex Worker} {t : Nat}

omit [CaseMapping] [LanguageData] in
theorem quiet_of_rests {worker : Worker} (rests : worker.rests = true) : worker.updates = false := by
  cases worker <;> first | rfl | cases rests

omit [CaseMapping] [LanguageData] in
theorem uncounted_of_quiet {worker : Worker} (quiet : worker.updates = false) : worker.counts = false := by
  cases worker <;> first | rfl | cases quiet

omit [CaseMapping] [LanguageData] in
theorem unclearing_of_quiet {worker : Worker} (quiet : worker.updates = false) : worker.clears = false := by
  cases worker <;> first | rfl | cases quiet

theorem Coherent.start (coherent : Coherent world) (rests : (world.threads t).rests = true) (call : Call) :
    Coherent (world.goto t (.start call)) := by
  rcases coherent with ⟨u, clears⟩ | settled
  · have apart : u ≠ t := by
      rintro rfl
      rw [unclearing_of_quiet (quiet_of_rests rests)] at clears
      cases clears
    exact .inl ⟨u, by rw [World.goto_other _ apart]; exact clears⟩
  · have untouched (kind : ObjectKind) (lower : String) : ¬(Worker.start call).Touches kind lower := by
      cases call <;> exact id
    right
    have stays : Settled (World.goto { world with shared := world.shared } t (.start call)) :=
      settled.stay rfl rfl rfl (fun kind lower touched => absurd touched (untouched kind lower))
    exact stays

omit [LanguageData] in
theorem Valid.start {generation : Nat} {answer : EventCatalog} (valid : Valid world generation answer)
    (rests : (world.threads t).rests = true) (call : Call) : Valid (world.goto t (.start call)) generation answer := by
  obtain ⟨known, right⟩ := valid
  refine ⟨known, ?_⟩
  intro current
  rcases right current with ⟨u, counts⟩ | built
  · have apart : u ≠ t := by
      rintro rfl
      rw [uncounted_of_quiet (quiet_of_rests rests)] at counts
      cases counts
    exact .inl ⟨u, by rw [World.goto_other _ apart]; exact counts⟩
  · exact .inr built

omit [LanguageData] in
theorem Dated.start (dated : Dated world) (rests : (world.threads t).rests = true) (call : Call) :
    Dated (world.goto t (.start call)) := by
  refine ⟨fun cache stored => (dated.1 cache stored).start rests call, ?_⟩
  intro u
  by_cases own : u = t
  · subst own
    rw [World.goto_self]
    cases call <;> trivial
  · rw [World.goto_other _ own]
    have before := dated.2 u
    cases at_ : world.threads u <;> rw [at_] at before <;> first | exact before | exact Valid.start before rests call

theorem Coherent.after (coherent : Coherent world) (action : Action Call Empty) (clean : Clean world action) :
    Coherent (indexCalls.after world action) := by
  cases action with
  | start u call =>
      rw [System.after]
      split
      next rests => exact coherent.start rests call
      next => exact coherent
  | step u => exact coherent.step clean
  | environment event => cases event

theorem Dated.after (dated : Dated world) (action : Action Call Empty) : Dated (indexCalls.after world action) := by
  cases action with
  | start u call =>
      rw [System.after]
      split
      next rests => exact dated.start rests call
      next => exact dated
  | step u => exact dated.step
  | environment event => cases event

theorem coherent_run (actions : List (Action Call Empty)) (clean : indexCalls.Allowed Clean freshIndex actions) :
    Coherent (Machine.run indexCalls.after freshIndex actions) := by
  apply System.run_world (fun world action coherent clean => Coherent.after coherent action clean) _ actions clean
  right
  intro kind lower object cached
  cases cached

theorem dated_run (actions : List (Action Call Empty)) : Dated (Machine.run indexCalls.after freshIndex actions) := by
  have fresh : Dated freshIndex := by
    refine ⟨?_, fun _ => trivial⟩
    intro cache stored
    cases stored
  have preserved : ∀ world action, Dated world → Dated (indexCalls.after world action) :=
    fun _ action dated => dated.after action
  exact Machine.run_invariant preserved fresh actions

/-! ## Calls while no update is in progress -/

def Call.queries : Call → Bool
  | getComposedCached .. | eventCatalog => true
  | _ => false

/-- No update is in progress. -/
def Quiet (world : World SymbolIndex Worker) : Prop := ∀ t, (world.threads t).updates = false

/-- The action begins no update. -/
def BeginsNoUpdate : Action Call Empty → Prop
  | .start _ call => call.queries = true
  | _ => True

/-- The entries are those of the answer that the call has, or of what it has read. -/
def Current (index : SymbolIndex) : Worker → Prop
  | .extending _ name named => named = index.getByName name
  | .inserting _ name named extending => named = index.getByName name ∧ extending = index.getExtensionsOf name
  | .composed kind name result => result = getComposed index kind name
  | _ => True

def CurrentCatalog (index : SymbolIndex) : Worker → Prop
  | .recalling generation | .collecting generation => generation = index.mutation
  | .extracting generation remaining catalog =>
      generation = index.mutation ∧ builtFrom index remaining catalog = buildEventCatalog index
  | .filing generation catalog => generation = index.mutation ∧ catalog = buildEventCatalog index
  | .catalogued catalog => catalog = buildEventCatalog index
  | _ => True

theorem next_quiet (index : SymbolIndex) {worker : Worker} (quiet : worker.updates = false) :
    (index.next worker).2.updates = false := by
  fun_cases SymbolIndex.next index worker <;> first | rfl | cases quiet

theorem Quiet.after (quiet : Quiet world) {action : Action Call Empty} (calm : BeginsNoUpdate action) :
    Quiet (indexCalls.after world action) := by
  intro u
  cases action with
  | start v call =>
      rw [System.after]
      split
      · by_cases own : u = v
        · subst own
          rw [World.goto_self]
          cases call <;> first | rfl | cases calm
        · rw [World.goto_other _ own]
          exact quiet u
      · exact quiet u
  | step v =>
      by_cases own : u = v
      · subst own
        rw [threads_after_self]
        exact next_quiet world.shared (quiet u)
      · rw [threads_after_other own]
        exact quiet u
  | environment event => cases event

theorem Quiet.settled (quiet : Quiet world) (coherent : Coherent world) : Settled world := by
  rcases coherent with ⟨u, clears⟩ | settled
  · rw [unclearing_of_quiet (quiet u)] at clears
    cases clears
  · exact settled

omit [LanguageData] in
theorem Quiet.valid (quiet : Quiet world) {answer : EventCatalog}
    (valid : Valid world world.shared.mutation answer) : answer = buildEventCatalog world.shared := by
  rcases valid.2 rfl with ⟨u, counts⟩ | built
  · rw [uncounted_of_quiet (quiet u)] at counts
    cases counts
  · exact built

theorem Current.congr {index index' : SymbolIndex} (same : SameEntries index index') {worker : Worker}
    (current : Current index worker) : Current index' worker := by
  cases worker with
  | extending kind name named =>
      simp only [Current, SymbolIndex.getByName, same.byName]
      exact current
  | inserting kind name named extending =>
      simp only [Current, SymbolIndex.getByName, SymbolIndex.getExtensionsOf, same.byName, same.byExtends]
      exact current
  | composed kind name result =>
      simp only [Current, getComposed, SymbolIndex.getByName, SymbolIndex.getExtensionsOf, same.byName, same.byExtends]
      exact current
  | _ => trivial

omit [LanguageData] in
theorem CurrentCatalog.congr {index index' : SymbolIndex} (same : SameEntries index index') {worker : Worker}
    (current : CurrentCatalog index worker) : CurrentCatalog index' worker := by
  have built := buildEventCatalog_congr same.all same.byKindId
  cases worker with
  | recalling generation => exact current.trans same.mutation.symm
  | collecting generation => exact current.trans same.mutation.symm
  | extracting generation remaining catalog =>
      exact ⟨current.1.trans same.mutation.symm, by rw [builtFrom_congr same.byKindId, built]; exact current.2⟩
  | filing generation catalog => exact ⟨current.1.trans same.mutation.symm, current.2.trans built.symm⟩
  | catalogued catalog => exact Eq.trans current built.symm
  | _ => trivial

/-- What a call knows of the entries after its own step. -/
theorem current_next (settled : Settled world) (own : Current world.shared (world.threads t)) :
    Current world.shared (world.shared.next (world.threads t)).2 := by
  cases at_ : world.threads t with
  | looking kind name =>
      rw [SymbolIndex.next]
      split
      next cached found => exact (settled kind (toLowercase name) cached found).1.symm
      next => trivial
  | composing kind name => rfl
  | extending kind name named =>
      rw [at_] at own
      exact ⟨own, rfl⟩
  | inserting kind name named extending =>
      rw [at_] at own
      obtain ⟨rfl, rfl⟩ := own
      rw [SymbolIndex.next]
      split
      next nothing => exact nothing.symm
      next object composed =>
      split
      next stored found => exact (settled kind (toLowercase name) stored found).1.symm
      next => exact composed.symm
  | composed kind name result =>
      rw [at_] at own
      exact own
  | adding pending packageKey writes added update =>
      cases writes with
      | cons write writes => trivial
      | nil => cases pending <;> trivial
  | removing writes removedNames => cases writes <;> trivial
  | selected toRemove =>
      rw [SymbolIndex.next]
      split <;> trivial
  | recalling generation =>
      rw [SymbolIndex.next]
      split
      · trivial
      split <;> trivial
  | extracting generation remaining catalog => cases remaining <;> trivial
  | _ => trivial

theorem currentCatalog_next (quiet : Quiet world) (dated : Dated world)
    (own : CurrentCatalog world.shared (world.threads t)) :
    CurrentCatalog world.shared (world.shared.next (world.threads t)).2 := by
  cases at_ : world.threads t with
  | dating => rfl
  | recalling generation =>
      rw [at_] at own
      rw [SymbolIndex.next]
      split
      · exact own
      next cached stored =>
      split
      next current =>
        have valid := dated.1 cached stored
        rw [current, own] at valid
        exact quiet.valid valid
      next => exact own
  | collecting generation =>
      rw [at_] at own
      exact ⟨own, rfl⟩
  | extracting generation remaining catalog =>
      rw [at_] at own
      cases remaining with
      | nil => exact own
      | cons object remaining => exact own
  | filing generation catalog =>
      rw [at_] at own
      exact own.2
  | catalogued catalog =>
      rw [at_] at own
      exact own
  | adding pending packageKey writes added update =>
      cases writes with
      | cons write writes => trivial
      | nil => cases pending <;> trivial
  | removing writes removedNames => cases writes <;> trivial
  | selected toRemove =>
      rw [SymbolIndex.next]
      split <;> trivial
  | looking kind name =>
      rw [SymbolIndex.next]
      split <;> trivial
  | inserting kind name named extending =>
      rw [SymbolIndex.next]
      split
      · trivial
      split <;> trivial
  | _ => trivial

theorem current_after (quiet : Quiet world) (coherent : Coherent world) (own : Current world.shared (world.threads t))
    (action : Action Call Empty) :
    Current (indexCalls.after world action).shared ((indexCalls.after world action).threads t) := by
  cases action with
  | start u call =>
      rw [System.after]
      split
      · by_cases same : t = u
        · subst same
          rw [World.goto_self]
          cases call <;> trivial
        · rw [World.goto_other _ same]
          exact own
      · exact own
  | step u =>
      have entries := next_uncounted world.shared (uncounted_of_quiet (quiet u))
      rw [shared_after]
      by_cases same : t = u
      · subst same
        rw [threads_after_self]
        exact (current_next (quiet.settled coherent) own).congr entries
      · rw [threads_after_other same]
        exact own.congr entries
  | environment event => cases event

theorem currentCatalog_after (quiet : Quiet world) (dated : Dated world)
    (own : CurrentCatalog world.shared (world.threads t)) (action : Action Call Empty) :
    CurrentCatalog (indexCalls.after world action).shared ((indexCalls.after world action).threads t) := by
  cases action with
  | start u call =>
      rw [System.after]
      split
      · by_cases same : t = u
        · subst same
          rw [World.goto_self]
          cases call <;> trivial
        · rw [World.goto_other _ same]
          exact own
      · exact own
  | step u =>
      have entries := next_uncounted world.shared (uncounted_of_quiet (quiet u))
      rw [shared_after]
      by_cases same : t = u
      · subst same
        rw [threads_after_self]
        exact (currentCatalog_next quiet dated own).congr entries
      · rw [threads_after_other same]
        exact own.congr entries
  | environment event => cases event

theorem current_run (quiet : Quiet world) (coherent : Coherent world) (own : Current world.shared (world.threads t))
    (actions : List (Action Call Empty)) (calm : ∀ action ∈ actions, BeginsNoUpdate action)
    (clean : indexCalls.Allowed Clean world actions) :
    Current (Machine.run indexCalls.after world actions).shared ((Machine.run indexCalls.after world actions).threads t) := by
  induction actions generalizing world with
  | nil => exact own
  | cons action rest ih =>
      obtain ⟨now, later⟩ := clean
      have first := quiet.after (calm action List.mem_cons_self)
      exact ih first (coherent.after action now) (current_after quiet coherent own action)
        (fun other member => calm other (List.mem_cons_of_mem _ member)) later

theorem currentCatalog_run (quiet : Quiet world) (dated : Dated world)
    (own : CurrentCatalog world.shared (world.threads t)) (actions : List (Action Call Empty))
    (calm : ∀ action ∈ actions, BeginsNoUpdate action) :
    CurrentCatalog (Machine.run indexCalls.after world actions).shared
      ((Machine.run indexCalls.after world actions).threads t) := by
  induction actions generalizing world with
  | nil => exact own
  | cons action rest ih =>
      have first := quiet.after (calm action List.mem_cons_self)
      exact ih first (dated.after action) (currentCatalog_after quiet dated own action)
        (fun other member => calm other (List.mem_cons_of_mem _ member))

theorem threads_begun (rests : (world.threads t).rests = true) (call : Call) :
    (indexCalls.after world (.start t call)).threads t = .start call := by
  rw [System.after]
  refine (congrArg (fun world => World.threads world t) (if_pos rests)).trans ?_
  exact World.goto_self ..

theorem current_begun (rests : (world.threads t).rests = true) (call : Call) :
    Current (indexCalls.after world (.start t call)).shared ((indexCalls.after world (.start t call)).threads t) := by
  rw [threads_begun rests]
  cases call <;> trivial

/-- A call that begins while no update is in progress, and during which none begins, answers for the entries of now:
a catalog always, a composition as long as none is inserted whose parts are gone or will still be touched. -/
theorem indexCalls_current (before after : List (Action Call Empty)) (t : Nat) (call : Call)
    (queries : call.queries = true) (rests : ((Machine.run indexCalls.after freshIndex before).threads t).rests = true)
    (quiet : Quiet (Machine.run indexCalls.after freshIndex before)) (calm : ∀ action ∈ after, BeginsNoUpdate action) :
    let world := Machine.run indexCalls.after freshIndex (before ++ .start t call :: after)
    (∀ catalog, world.threads t = .catalogued catalog → catalog = buildEventCatalog world.shared) ∧
      (indexCalls.Allowed Clean freshIndex (before ++ .start t call :: after) →
        ∀ kind name result, world.threads t = .composed kind name result → result = getComposed world.shared kind name) := by
  have still : Quiet (indexCalls.after (Machine.run indexCalls.after freshIndex before) (.start t call)) :=
    quiet.after queries
  rw [Machine.run_append, Machine.run_cons]
  constructor
  · intro catalog answered
    have own : CurrentCatalog (indexCalls.after (Machine.run indexCalls.after freshIndex before) (.start t call)).shared
        ((indexCalls.after (Machine.run indexCalls.after freshIndex before) (.start t call)).threads t) := by
      rw [threads_begun rests]
      cases call <;> trivial
    have current := currentCatalog_run still ((dated_run before).after (.start t call)) own after calm
    rw [answered] at current
    exact current
  · intro clean kind name result answered
    obtain ⟨first, now, later⟩ := (System.allowed_append ..).mp clean
    have current := current_run still ((coherent_run before first).after (.start t call) now)
      (current_begun rests call) after calm later
    rw [answered] at current
    exact current

/-- A composition of what is there now is inserted while no update is in progress. -/
theorem clean_of_current (quiet : Quiet world) (own : Current world.shared (world.threads t)) :
    Clean world (.step t) := by
  rw [Clean]
  split
  next kind name named extending at_ =>
    rw [at_] at own
    obtain ⟨rfl, rfl⟩ := own
    refine .inr (.inr (.inr ⟨rfl, ?_⟩))
    intro u touched
    have still := quiet u
    cases state : world.threads u <;> rw [state] at still touched <;> first | exact touched | cases still
  next => trivial

end Runs

end Calls

/-! ## A table that is extended while it is composed -/

@[reducible] def tableKinds : LanguageData := ⟨[⟨"table", ["tableextension"]⟩]⟩

def customer : SymbolEntry := { kind := .table, id := 18, name := "Customer", package := "Base Application" }

def customerExt : SymbolEntry :=
  { kind := .tableExtension, id := 50100, name := "Customer Ext", extends_ := some "Customer", package := "My App" }

/-- A batch of one entry, from its beginning to its end. -/
def addOne (t : Nat) (entry : SymbolEntry) : List (Action Call Empty) :=
  .start t (.addEntries [entry] none) :: List.replicate 12 (.step t)

def composeCustomer : Call := .getComposedCached .table "Customer"

section Examples

attribute [local instance] CaseMapping.latin1 tableKinds

def Worker.inserts : Worker → Bool
  | inserting .. => true
  | _ => false

/-- The action inserts no composition. -/
def InsertsNone (world : World SymbolIndex Worker) : Action Call Empty → Bool
  | .step t => !(world.threads t).inserts
  | _ => true

theorem clean_of_insertsNone (world : World SymbolIndex Worker) (action : Action Call Empty)
    (none : InsertsNone world action = true) : Clean world action := by
  cases action with
  | step t =>
      rw [Clean]
      split
      next at_ => simp [InsertsNone, at_, Worker.inserts] at none
      next => trivial
  | start t call => trivial
  | environment event => trivial

theorem quiet_of_finished (actions : List (Action Call Empty)) (n : Nat)
    (finished : ∀ t < n, ((Machine.run indexCalls.after freshIndex actions).threads t).updates = false)
    (few : ∀ action ∈ actions, ∀ t, action.thread = some t → t < n) :
    Quiet (Machine.run indexCalls.after freshIndex actions) := by
  intro t
  by_cases small : t < n
  · exact finished t small
  · rw [System.run_other fun action member own => small (few action member t own)]
    rfl

/-- A table is added, and then composed. -/
theorem indexCalls_current_customer :
    let world := Machine.run indexCalls.after freshIndex (addOne 0 customer ++ .start 1 composeCustomer :: List.replicate 4 (.step 1))
    ∀ kind name result, world.threads 1 = .composed kind name result → result = getComposed world.shared kind name := by
  have quiet : Quiet (Machine.run indexCalls.after freshIndex (addOne 0 customer)) := by
    apply quiet_of_finished _ 1
    · decide +kernel
    · decide +kernel
  have calm (n : Nat) : ∀ action ∈ List.replicate n (Action.step 1 : Action Call Empty), BeginsNoUpdate action := by
    intro action member
    rw [List.eq_of_mem_replicate member]
    trivial
  have early : indexCalls.Allowed Clean freshIndex (addOne 0 customer ++ .start 1 composeCustomer :: List.replicate 3 (.step 1)) := by
    apply System.allowed_imp clean_of_insertsNone
    decide +kernel
  refine (indexCalls_current (addOne 0 customer) (List.replicate 4 (.step 1)) 1 composeCustomer rfl (by decide +kernel)
    quiet (calm 4)).2 ?_
  -- the composition is inserted in the last step
  change indexCalls.Allowed Clean freshIndex
    ((addOne 0 customer ++ .start 1 composeCustomer :: List.replicate 3 (.step 1)) ++ [.step 1])
  refine (System.allowed_append ..).mpr ⟨early, clean_of_current ?_ ?_, trivial⟩
  · apply quiet_of_finished _ 2
    · decide +kernel
    · decide +kernel
  · obtain ⟨first, now, later⟩ := (System.allowed_append ..).mp early
    rw [Machine.run_append, Machine.run_cons]
    have still : Quiet (indexCalls.after (Machine.run indexCalls.after freshIndex (addOne 0 customer))
        (.start 1 composeCustomer)) := quiet.after rfl
    exact current_run still
      ((coherent_run (addOne 0 customer) first).after (.start 1 composeCustomer) now)
      (current_begun (by decide +kernel) composeCustomer) _ (calm 3) later

/-- The table is composed before its extension is there, and the composition inserted after it. -/
def slowComposition : List (Action Call Empty) :=
  addOne 0 customer ++ .start 1 composeCustomer :: List.replicate 3 (.step 1) ++ addOne 0 customerExt ++ [.step 1]

/-- What a call has composed, with the number of extensions. -/
def Worker.answer : Worker → Option (ObjectKind × String × Option Nat)
  | composed kind name result => some (kind, name, result.map (·.extensions.length))
  | _ => none

theorem indexCalls_stale :
    Quiet (Machine.run indexCalls.after freshIndex slowComposition) ∧
      let world := Machine.run indexCalls.after freshIndex (slowComposition ++ [.start 2 composeCustomer, .step 2])
      ∃ kind name result, world.threads 2 = .composed kind name result ∧ result ≠ getComposed world.shared kind name := by
  constructor
  · apply quiet_of_finished _ 2
    · decide +kernel
    · decide +kernel
  intro world
  have answer : (world.threads 2).answer = some (.table, "Customer", some 0) := by decide +kernel
  have now : (getComposed world.shared .table "Customer").map (·.extensions.length) = some 1 := by decide +kernel
  cases state : world.threads 2 with
  | composed kind name result =>
      refine ⟨kind, name, result, rfl, ?_⟩
      rintro rfl
      rw [state] at answer
      simp only [Worker.answer, Option.some.injEq, Prod.mk.injEq] at answer
      obtain ⟨rfl, rfl, zero⟩ := answer
      rw [now] at zero
      cases zero
  | _ =>
      rw [state] at answer
      cases answer

end Examples

end AlLanguage.Symbols
