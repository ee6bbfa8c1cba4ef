import AlLanguage.Dap.ReplayEngine

/-!
# Callers and occurrences

- The caller of a context is the last earlier one with the frames of its callers.
- The occurrences of a line are its statements, in the order of the walk.
-/

namespace AlLanguage.Dap

open Library

/-! ## Callers -/

section Links

variable {contexts done rest : List MethodContext} {links : Links} {ctx caller callee : MethodContext} {c l : Nat}

theorem exists_of_callSite (found : callSite caller callee = some l) : ∃ frame line, callee.frames[1]? = some frame ∧
    caller.lineContexts[l]? = some line ∧ line.statementSpan.fromPos.line = frame.statementSpan.fromPos.line := by
  unfold callSite at found
  split at found
  · cases found
  next frame framed =>
    dsimp only at found
    set exact := (List.range caller.lineContexts.length).filter fun i => caller.lineContexts[i]?.any fun line =>
      line.statementSpan.fromPos.line == frame.statementSpan.fromPos.line &&
        line.statementSpan.fromPos.column == frame.statementSpan.fromPos.column with exactly
    set near := (List.range caller.lineContexts.length).filter fun i => caller.lineContexts[i]?.any fun line =>
      line.statementSpan.fromPos.line == frame.statementSpan.fromPos.line with nearly
    have member : l ∈ if exact.isEmpty = true then near else exact := by
      rcases Option.or_eq_some_iff.mp found with last | ⟨_, first⟩
      · exact List.mem_reverse.mp (List.mem_of_find?_eq_some last)
      · exact List.mem_of_mem_head? first
    have close : l ∈ near := by
      split at member
      · exact member
      · rw [exactly] at member
        rw [nearly]
        obtain ⟨inside, there⟩ := List.mem_filter.mp member
        refine List.mem_filter.mpr ⟨inside, ?_⟩
        cases line : caller.lineContexts[l]? with
        | none => rw [line] at there; cases there
        | some lc =>
            rw [line] at there
            exact (Bool.and_eq_true_iff.mp there).1
    rw [nearly] at close
    obtain ⟨_, there⟩ := List.mem_filter.mp close
    cases line : caller.lineContexts[l]? with
    | none => rw [line] at there; cases there
    | some lc =>
        rw [line] at there
        exact ⟨frame, lc, framed, rfl, by simpa using there⟩

/-- The last earlier context with the frames of the callers. -/
structure IsCaller (contexts : List MethodContext) (caller c : Nat) : Prop where
  earlier : caller < c
  chain : ∃ callerCtx ctx, contexts[caller]? = some callerCtx ∧ contexts[c]? = some ctx ∧ callerCtx.chain = ctx.chain.tail ∧
    ctx.chain.tail ≠ []
  last : ∀ m, caller < m → m < c → ∀ ctx between, contexts[c]? = some ctx → contexts[m]? = some between → between.chain ≠ ctx.chain.tail

/-- The statement of the caller that made the call. -/
def CalledFrom (contexts : List MethodContext) (c : Nat) (site : Pos) : Prop :=
  IsCaller contexts site.ctx c ∧
    ∃ caller callee, contexts[site.ctx]? = some caller ∧ contexts[c]? = some callee ∧ callSite caller callee = some site.line

structure Linked (contexts done : List MethodContext) (links : Links) : Prop where
  length : links.parent.length = done.length
  latest : ∀ chain c, links.latest.get? chain = some c ↔ (∃ ctx, done[c]? = some ctx ∧ ctx.chain = chain) ∧
    ∀ m, c < m → ∀ between, done[m]? = some between → between.chain ≠ chain
  parent : ∀ c site, links.parent[c]? = some (some site) ↔ c < done.length ∧ CalledFrom contexts c site
  callees : ∀ site, Filing.filed links.callees site = (List.range done.length).filter fun c => links.parent[c]? == some (some site)

theorem linked_empty : Linked contexts [] .empty where
  length := rfl
  latest chain c := by simp [Links.empty]
  parent c site := by simp [Links.empty]
  callees site := rfl

theorem siteOf_iff (linked : Linked contexts done links) (split : contexts = done ++ ctx :: rest) (site : Pos) :
    links.siteOf contexts ctx = some site ↔ CalledFrom contexts done.length site := by
  have here : contexts[done.length]? = some ctx := by simp [split]
  have before {m : Nat} (within : m < done.length) : contexts[m]? = done[m]? := by rw [split, List.getElem?_append_left within]
  unfold Links.siteOf CalledFrom
  constructor
  · intro found
    split at found
    next own first others chained =>
      split at found
      next caller latest =>
        obtain ⟨l, located, rfl⟩ := Option.map_eq_some_iff.mp found
        obtain ⟨callerCtx, there, sited⟩ := Option.bind_eq_some_iff.mp located
        obtain ⟨⟨callerCtx', stored, same⟩, last⟩ := (linked.latest _ _).mp latest
        have within : caller < done.length := (List.getElem?_eq_some_iff.mp stored).1
        obtain rfl : callerCtx = callerCtx' := Option.some.inj (there.symm.trans ((before within).trans stored))
        refine ⟨⟨within, ⟨callerCtx, ctx, there, here, ?_, ?_⟩, ?_⟩, callerCtx, ctx, there, here, sited⟩
        · rw [same, chained]; rfl
        · rw [chained]; simp
        · intro m above below own' between own'' stored'
          obtain rfl : ctx = own' := Option.some.inj (here.symm.trans own'')
          rw [chained]
          exact last m above between ((before below).symm.trans stored')
      next => cases found
    next => cases found
  · rintro ⟨⟨within, ⟨callerCtx, own, there, here', same, nonempty⟩, last⟩, callerCtx', callee, there', here'', sited⟩
    obtain rfl : ctx = own := Option.some.inj (here.symm.trans here')
    obtain rfl : ctx = callee := Option.some.inj (here.symm.trans here'')
    obtain rfl : callerCtx = callerCtx' := Option.some.inj (there.symm.trans there')
    obtain ⟨own, first, others, chained⟩ : ∃ own first others, ctx.chain = own :: first :: others := by
      cases chained : ctx.chain with
      | nil => rw [chained] at nonempty; cases nonempty rfl
      | cons own tail =>
          cases tail with
          | nil => rw [chained] at nonempty; cases nonempty rfl
          | cons first others => exact ⟨own, first, others, rfl⟩
    have latest : links.latest.get? (first :: others) = some site.ctx := by
      refine (linked.latest _ _).mpr ⟨⟨callerCtx, (before within).symm.trans there, ?_⟩, ?_⟩
      · rw [same, chained]; rfl
      · intro m above between stored
        have below : m < done.length := (List.getElem?_eq_some_iff.mp stored).1
        have apart := last m above below ctx between here ((before below).trans stored)
        rw [chained] at apart
        exact apart
    rw [chained]
    dsimp only
    rw [latest]
    dsimp only
    rw [there, Option.bind_some, sited]
    rfl

theorem getElem?_snoc {α : Type} (items : List α) (a : α) (i : Nat) :
    (items ++ [a])[i]? = if i = items.length then some a else items[i]? := by
  split
  next same => rw [same, List.getElem?_concat_length]
  next apart =>
    rcases Nat.lt_or_gt_of_ne apart with below | above
    · rw [List.getElem?_append_left below]
    · rw [List.getElem?_eq_none (by simp; omega), List.getElem?_eq_none (by omega)]

theorem linked_add (linked : Linked contexts done links) (split : contexts = done ++ ctx :: rest) :
    Linked contexts (done ++ [ctx]) (links.add contexts ctx) := by
  have sited := siteOf_iff linked split
  have parents (c : Nat) : (links.add contexts ctx).parent[c]? =
      if c = done.length then some (links.siteOf contexts ctx) else links.parent[c]? := by
    rw [← linked.length]
    exact getElem?_snoc ..
  refine ⟨?_, ?_, ?_, ?_⟩
  · simp [Links.add, linked.length]
  · intro chain c
    unfold Links.add
    rw [IndexMap.get?_insert]
    split
    next same =>
      subst same
      rw [Option.some.injEq, linked.length]
      constructor
      · rintro rfl
        refine ⟨⟨ctx, by simp, rfl⟩, fun m above between stored => ?_⟩
        have within := (List.getElem?_eq_some_iff.mp stored).1
        rw [List.length_append, List.length_singleton] at within
        omega
      · rintro ⟨⟨other, stored, _⟩, last⟩
        have within := (List.getElem?_eq_some_iff.mp stored).1
        rw [List.length_append, List.length_singleton] at within
        by_contra apart
        exact last done.length (by omega) ctx (by simp) rfl
    next apart =>
      rw [linked.latest]
      constructor
      · rintro ⟨⟨other, stored, same⟩, last⟩
        have within := (List.getElem?_eq_some_iff.mp stored).1
        refine ⟨⟨other, by rw [List.getElem?_append_left within]; exact stored, same⟩, fun m above between stored' => ?_⟩
        rw [getElem?_snoc] at stored'
        split at stored'
        next => cases stored'; exact apart
        next => exact last m above between stored'
      · rintro ⟨⟨other, stored, same⟩, last⟩
        rw [getElem?_snoc] at stored
        split at stored
        next =>
          cases stored
          exact absurd same apart
        next =>
          refine ⟨⟨other, stored, same⟩, fun m above between stored' => last m above between ?_⟩
          have within := (List.getElem?_eq_some_iff.mp stored').1
          rw [List.getElem?_append_left within]
          exact stored'
  · intro c site
    rw [parents, List.length_append, List.length_singleton]
    split
    next same =>
      subst same
      rw [Option.some.injEq, sited]
      exact ⟨fun called => ⟨Nat.lt_succ_self _, called⟩, fun called => called.2⟩
    next apart =>
      rw [linked.parent]
      constructor
      · rintro ⟨within, called⟩
        exact ⟨by omega, called⟩
      · rintro ⟨within, called⟩
        exact ⟨by omega, called⟩
  · intro site
    have old : ((List.range done.length).filter fun c => (links.add contexts ctx).parent[c]? == some (some site)) =
        Filing.filed links.callees site := by
      rw [linked.callees]
      refine List.filter_congr fun c member => ?_
      rw [parents, if_neg (Nat.ne_of_lt (List.mem_range.mp member))]
    rw [List.length_append, List.length_singleton, List.range_succ, List.filter_append, old]
    unfold Links.add
    dsimp only
    cases called : links.siteOf contexts ctx with
    | none =>
        have apart : (links.parent ++ [none])[done.length]? ≠ some (some site) := by
          rw [← linked.length]; simp
        simp [apart]
    | some own =>
        dsimp only [Option.elim]
        rw [Filing.filed_push, ← linked.length]
        by_cases same : own = site
        · subst same
          simp
        · rw [if_neg same]
          simp [same]

theorem linkCalls_linked (contexts : List MethodContext) : Linked contexts contexts (linkCalls contexts) := by
  suffices run : ∀ (rest done : List MethodContext) (links : Links), contexts = done ++ rest → Linked contexts done links →
      Linked contexts contexts (rest.foldl (Links.add contexts) links) from run contexts [] .empty rfl linked_empty
  intro rest
  induction rest with
  | nil =>
      intro done links split linked
      rw [split, List.append_nil] at *
      exact linked
  | cons ctx rest ih =>
      intro done links split linked
      exact ih (done ++ [ctx]) _ (by rw [split, List.append_assoc]; rfl) (linked_add linked split)

end Links

/-! ## Occurrences -/

theorem filed_foldl_push {α κ : Type} [DecidableEq κ] {ν : Type} (key : α → κ) (item : α → ν) (k : κ) (items : List α)
    (m : IndexMap κ (List ν)) : Filing.filed (items.foldl (fun m a => Filing.push m (key a) (item a)) m) k =
      Filing.filed m k ++ (items.filter fun a => key a = k).map item := by
  induction items generalizing m with
  | nil => simp
  | cons a rest ih =>
      rw [List.foldl_cons, ih, Filing.filed_push]
      by_cases same : key a = k <;> simp [same]

theorem mem_foldl_pushNew {α : Type} [DecidableEq α] (items more : List α) (a : α) :
    a ∈ more.foldl pushNew items ↔ a ∈ items ∨ a ∈ more := by
  induction more generalizing items with
  | nil => simp
  | cons b rest ih =>
      rw [List.foldl_cons, ih, List.mem_cons]
      have pushed : a ∈ pushNew items b ↔ a ∈ items ∨ a = b := by
        unfold pushNew
        split
        next there => exact ⟨.inl, fun either => either.elim id fun same => same ▸ there⟩
        next => simp
      rw [pushed, or_assoc]

/-! ## The engine of a recording -/

namespace Engine

/-- The engine before the first move. -/
def new (contexts : List MethodContext) : Engine where
  lens := contexts.map (·.lineContexts.length)
  exceptionAt := contexts.map (·.exceptionAt)
  parent := (linkCalls contexts).parent
  callees := (linkCalls contexts).callees
  occurrences := (statements contexts).foldl (fun m statement => Filing.push m statement.key statement.pos) .empty
  snappoints := (((statements contexts).filter fun s => s.shown || s.raises).map (·.key)).foldl pushNew []
  listed := (((statements contexts).filter fun s => s.shown && !s.raises).map (·.key)).foldl pushNew []
  user := .empty
  hits := .empty
  current := none
  earlier c site called := (((linkCalls_linked contexts).parent c site).mp called).2.1.earlier

end Engine

end AlLanguage.Dap
