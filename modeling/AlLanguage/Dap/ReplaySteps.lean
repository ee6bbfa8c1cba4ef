import AlLanguage.Dap.ReplayWalk

/-!
# Steps around calls

- A call stack is the statement where the walk stands, with the call sites that lead to it.
- `next` and `step_out` move on the call stack.
-/

namespace AlLanguage.Dap

open Library

/-! ## Call stacks -/

/-- A recorded statement. -/
def Recorded (contexts : List MethodContext) (pos : Pos) : Prop := ∃ ctx line, lineAt contexts pos = some (ctx, line)

theorem lineAt_iff {contexts : List MethodContext} {pos : Pos} {ctx : MethodContext} {line : LineContext} :
    lineAt contexts pos = some (ctx, line) ↔ contexts[pos.ctx]? = some ctx ∧ ctx.lineContexts[pos.line]? = some line := by
  unfold lineAt
  rw [Option.bind_eq_some_iff]
  constructor
  · rintro ⟨own, stored, found⟩
    obtain ⟨_, there, pair⟩ := Option.map_eq_some_iff.mp found
    cases pair
    exact ⟨stored, there⟩
  · exact fun ⟨stored, there⟩ => ⟨ctx, stored, Option.map_eq_some_iff.mpr ⟨line, there, rfl⟩⟩

/-- The stack of a statement, innermost first: each site made the call of the context before it, and the last context is an entry method.
The frames recorded with the statement are those of the contexts of the stack. -/
structure IsCallStack (contexts : List MethodContext) (pos : Pos) (stack : List Pos) : Prop where
  top : stack.head? = some pos
  recorded : ∀ site ∈ stack, Recorded contexts site
  calls : stack.IsChain fun inner outer => CalledFrom contexts inner.ctx outer
  entry : ∀ last, stack.getLast? = some last → ∀ site, ¬ CalledFrom contexts last.ctx site
  frames : ∀ (i : Nat) site ctx own, stack[i]? = some site → contexts[site.ctx]? = some ctx → contexts[pos.ctx]? = some own →
    ctx.chain = own.chain.drop i

/-- The statement after the innermost one that is not the last of its context. -/
def advance (contexts : List MethodContext) : List Pos → Option (List Pos)
  | [] => none
  | pos :: callers =>
      if (lineAt contexts ⟨pos.ctx, pos.line + 1⟩).isSome then some (⟨pos.ctx, pos.line + 1⟩ :: callers) else advance contexts callers

/-- Out of an entry method that is not the first context, the walk starts over. -/
def fromEntry (contexts : List MethodContext) (stack : List Pos) : Option (List Pos × Bool) :=
  match stack.getLast? with
  | some entry => if entry.ctx ≠ 0 ∧ (lineAt contexts ⟨0, 0⟩).isSome then some ([⟨0, 0⟩], true) else none
  | none => none

/-- Where a step out of the given part of a stack leads. -/
def leave (contexts : List MethodContext) (stack part : List Pos) : Option (List Pos × Bool) :=
  match advance contexts part with
  | some moved => some (moved, false)
  | none => fromEntry contexts stack

namespace Engine

variable {contexts : List MethodContext} {e : Engine} {pos site : Pos} {ctx c : Nat}

/-- The stack where a move stops. -/
def stackOf (e : Engine) : Step → Option (List Pos × Bool)
  | .stopped landing => some ((e.stack landing.pos).reverse, landing.startOver)
  | .ended => none

theorem Records.site_iff (records : e.Records contexts) : e.site c = some site ↔ CalledFrom contexts c site := by
  unfold Engine.site
  rw [records.parent, Option.join_eq_some_iff]
  refine ((linkCalls_linked contexts).parent c site).trans ⟨fun called => called.2, fun called => ⟨?_, called⟩⟩
  obtain ⟨_, callee, _, there, _⟩ := called.2
  exact (List.getElem?_eq_some_iff.mp there).1

theorem Records.len (records : e.Records contexts) : e.len ctx = (contexts[ctx]?.elim 0 (·.lineContexts.length)) := by
  unfold Engine.len
  rw [records.lens]
  unfold Engine.new
  dsimp only
  rw [List.getElem?_map]
  cases contexts[ctx]? <;> rfl

theorem Records.lt_len (records : e.Records contexts) (pos : Pos) : pos.line < e.len pos.ctx ↔ (lineAt contexts pos).isSome = true := by
  rw [records.len]
  unfold lineAt
  cases contexts[pos.ctx]? with
  | none => simp
  | some ctx => simp

theorem CalledFrom.recorded (called : CalledFrom contexts c site) : Recorded contexts site := by
  obtain ⟨_, caller, callee, stored, _, located⟩ := called
  obtain ⟨_, line, _, there, _⟩ := exists_of_callSite located
  exact ⟨caller, line, lineAt_iff.mpr ⟨stored, there⟩⟩

/-- The stack, innermost first. -/
theorem reverse_stack (e : Engine) (pos : Pos) :
    (e.stack pos).reverse = pos :: (e.site pos.ctx).elim [] fun site => (e.stack site).reverse := by
  rw [stack]
  split
  next called => simp [called]
  next called => simp [called]

theorem Records.callStack (records : e.Records contexts) (recorded : Recorded contexts pos) :
    IsCallStack contexts pos (e.stack pos).reverse := by
  obtain ⟨c, l⟩ := pos
  induction c using Nat.strong_induction_on generalizing l with
  | _ c ih =>
      rw [reverse_stack]
      cases called : e.site c with
      | none =>
          rw [Option.elim_none]
          refine ⟨rfl, by simpa using recorded, .singleton _, fun last same site from_ => ?_, fun i site ctx own found stored stored' => ?_⟩
          · cases same
            exact absurd (called.symm.trans (records.site_iff.mpr from_)) (by simp)
          · cases i with
            | zero =>
                cases found
                cases stored.symm.trans stored'
                rfl
            | succ i => cases found
      | some site =>
          have from_ := records.site_iff.mp called
          have below : site.ctx < c := e.site_ctx called
          have rest := ih site.ctx below site.line (CalledFrom.recorded from_)
          rw [Option.elim_some]
          have shape := reverse_stack e site
          generalize (e.stack site).reverse = callers at rest shape
          refine ⟨rfl, fun other member => ?_, ?_, fun last same => ?_, fun i other ctx own found stored stored' => ?_⟩
          · rcases List.mem_cons.mp member with rfl | inside
            · exact recorded
            · exact rest.recorded other inside
          · rw [shape] at rest ⊢
            exact .cons_cons from_ rest.calls
          · rw [shape, List.getLast?_cons_cons, ← shape] at same
            exact rest.entry last same
          · cases i with
            | zero =>
                cases found
                cases stored.symm.trans stored'
                rfl
            | succ i =>
                obtain ⟨caller, callee, there, here, chained, _⟩ := from_.1.chain
                cases here.symm.trans stored'
                rw [rest.frames i other ctx caller found stored there, chained, List.drop_tail]

/-! ## The moves -/

theorem stack_step (e : Engine) (pos : Pos) (l : Nat) :
    (e.stack ⟨pos.ctx, l⟩).reverse = ⟨pos.ctx, l⟩ :: (e.stack pos).reverse.tail := by
  rw [reverse_stack, reverse_stack e pos, List.tail_cons]

theorem site_zero (e : Engine) : e.site 0 = none := by
  cases called : e.site 0 with
  | none => rfl
  | some site => exact absurd (e.site_ctx called) (Nat.not_lt_zero _)

/-- A step out walks up the stack. -/
theorem Records.stepOutOf (records : e.Records contexts) (pos : Pos) :
    e.stackOf (e.stepOutOf pos.ctx).1 = leave contexts (e.stack pos).reverse (e.stack pos).reverse.tail := by
  obtain ⟨c, l⟩ := pos
  induction c using Nat.strong_induction_on generalizing l with
  | _ c ih =>
      rw [Engine.stepOutOf, reverse_stack]
      split
      next site called =>
        have shape := reverse_stack e site
        have later := ih site.ctx (e.site_ctx called) site.line
        rw [called, Option.elim_some, List.tail_cons]
        have within := records.lt_len ⟨site.ctx, site.line + 1⟩
        dsimp only at within
        by_cases more : site.line + 1 < e.len site.ctx
        · rw [if_pos more, leave, shape, advance, if_pos (within.mp more)]
          exact congrArg (fun stack => some (stack, false)) ((e.stack_step site _).trans (by rw [shape]; rfl))
        · rw [if_neg more, later]
          unfold leave
          rw [shape, List.tail_cons, advance, if_neg fun found => more (within.mpr found)]
          cases advance contexts ((e.site site.ctx).elim [] fun site => (e.stack site).reverse) with
          | some moved => rfl
          | none =>
              unfold fromEntry
              rw [List.getLast?_cons_cons]
      next called =>
        rw [called, Option.elim_none, List.tail_cons]
        change _ = fromEntry contexts [⟨c, l⟩]
        unfold fromEntry Engine.startOver
        have within := records.lt_len ⟨0, 0⟩
        dsimp only at within
        by_cases first : c = 0
        · simp [first, finish, stackOf]
        · rw [if_neg first]
          by_cases none_ : e.len 0 = 0
          · have missing : ¬ (lineAt contexts ⟨0, 0⟩).isSome = true := fun found => by have := within.mpr found; omega
            rw [if_pos none_]
            simp [finish, stackOf, missing]
          · have found := within.mp (Nat.pos_of_ne_zero none_)
            have alone : (e.stack ⟨0, 0⟩).reverse = [⟨0, 0⟩] := by rw [reverse_stack, site_zero]; rfl
            rw [if_neg none_]
            simp [land, stackOf, first, found, alone]

theorem Records.next (records : e.Records contexts) (here : e.current = some pos) :
    e.stackOf e.next.1 = leave contexts (e.stack pos).reverse (e.stack pos).reverse := by
  have shape := reverse_stack e pos
  have within := records.lt_len ⟨pos.ctx, pos.line + 1⟩
  dsimp only at within
  unfold Engine.next
  rw [here]
  dsimp only
  by_cases more : pos.line + 1 < e.len pos.ctx
  · rw [if_pos more]
    conv_rhs => rw [leave, shape, advance, if_pos (within.mp more)]
    exact congrArg (fun stack => some (stack, false)) ((e.stack_step pos _).trans (by rw [shape]; rfl))
  · rw [if_neg more, records.stepOutOf pos]
    have passed : advance contexts (e.stack pos).reverse = advance contexts (e.stack pos).reverse.tail := by
      rw [shape, advance, if_neg fun found => more (within.mpr found), List.tail_cons]
    unfold leave
    rw [passed]

theorem Records.stepOut (records : e.Records contexts) (here : e.current = some pos) :
    e.stackOf e.stepOut.1 = leave contexts (e.stack pos).reverse (e.stack pos).reverse.tail := by
  unfold Engine.stepOut
  rw [here]
  exact records.stepOutOf pos

/-! ## Where the walk stands -/

/-- The walk stands at a recorded statement, or at none. -/
def Stands (contexts : List MethodContext) (e : Engine) : Prop := ∀ pos, e.current = some pos → Recorded contexts pos

theorem Records.recorded (records : e.Records contexts) (within : pos.line < e.len pos.ctx) : Recorded contexts pos := by
  obtain ⟨⟨ctx, line⟩, found⟩ := Option.isSome_iff_exists.mp ((records.lt_len pos).mp within)
  exact ⟨ctx, line, found⟩

theorem stands_land (recorded : Recorded contexts pos) (startOver : Bool) : Stands contexts (e.land pos startOver).2 := by
  intro other same
  cases same
  exact recorded

theorem stands_finish : Stands contexts e.finish.2 := by
  intro pos same
  cases same

theorem Records.stands_startOver (records : e.Records contexts) : Stands contexts e.startOver.2 := by
  unfold startOver
  split
  next => exact stands_finish
  next filled => exact stands_land (records.recorded (Nat.pos_of_ne_zero filled)) true

theorem Records.stands_cont (records : e.Records contexts) : Stands contexts e.cont.2 := by
  unfold cont
  split
  next pos least =>
    obtain ⟨key, _, found⟩ := List.mem_filterMap.mp (List.min?_mem least)
    rw [records.filed] at found
    obtain ⟨ctx, line, there, _⟩ := mem_occurrencesOf.mp (List.mem_of_getElem? found)
    exact stands_land ⟨ctx, line, there⟩ false
  next => exact stands_finish

theorem Records.stands_start (records : e.Records contexts) : Stands contexts e.start.2 := by
  unfold start
  split
  · exact records.stands_startOver
  · exact records.stands_cont

theorem Records.stands_stepOutOf (records : e.Records contexts) (ctx : Nat) : Stands contexts (e.stepOutOf ctx).2 := by
  induction ctx using Nat.strong_induction_on with
  | _ ctx ih =>
      rw [Engine.stepOutOf]
      split
      next site called =>
        split
        next within => exact stands_land (records.recorded within) false
        next => exact ih site.ctx (e.site_ctx called)
      next =>
        split
        · exact stands_finish
        · exact records.stands_startOver

theorem stands_stays (recorded : Recorded contexts pos) : Stands contexts (stepIn.stays e pos).2 := by
  unfold stepIn.stays
  split
  · exact stands_finish
  · exact stands_land recorded false

theorem Records.stands_move (records : e.Records contexts) (stands : Stands contexts e) (move : Move) :
    Stands contexts (e.move move).2 := by
  cases move with
  | start => exact records.stands_start
  | cont => exact records.stands_cont
  | next =>
      change Stands contexts e.next.2
      unfold Engine.next
      split
      next => exact records.stands_start
      next =>
        split
        next within => exact stands_land (records.recorded within) false
        next => exact records.stands_stepOutOf _
  | stepIn =>
      change Stands contexts e.stepIn.2
      unfold stepIn
      split
      next => exact records.stands_start
      next pos here =>
        split
        next callee _ =>
          split
          next within => exact stands_land (records.recorded within) false
          next => exact stands_stays (stands pos here)
        next => exact stands_stays (stands pos here)
  | stepOut =>
      change Stands contexts e.stepOut.2
      unfold Engine.stepOut
      split
      next => exact records.stands_start
      next => exact records.stands_stepOutOf _

theorem stands_run (contexts : List MethodContext) (commands : List Command) :
    (Machine.run act (new contexts) commands).Records contexts ∧ Stands contexts (Machine.run act (new contexts) commands) := by
  refine @Machine.run_invariant _ _ act (fun e => e.Records contexts ∧ Stands contexts e) ?_ (new contexts)
    ⟨⟨rfl, rfl, rfl, rfl, rfl, rfl⟩, fun pos here => by cases here⟩ commands
  rintro e command ⟨records, stands⟩
  refine ⟨act_records records command, ?_⟩
  cases command with
  | setUserBreakpoints set => exact stands
  | move move => exact records.stands_move stands move

end Engine

/-- After every run the walk stands nowhere, or at a statement whose call stack the engine shows, and then `next` goes on with the
innermost statement of the stack that is not the last of its context, and `step_out` with that of the callers. -/
theorem steps_exact (contexts : List MethodContext) (commands : List Command) :
    let e := Machine.run Engine.act (Engine.new contexts) commands
    e.current = none ∨ ∃ pos stack, e.current = some pos ∧ e.stack pos = stack.reverse ∧ IsCallStack contexts pos stack ∧
      e.stackOf e.next.1 = leave contexts stack stack ∧ e.stackOf e.stepOut.1 = leave contexts stack stack.tail := by
  intro e
  obtain ⟨records, stands⟩ := Engine.stands_run contexts commands
  cases here : e.current with
  | none => exact .inl rfl
  | some pos =>
      exact .inr ⟨pos, (e.stack pos).reverse, rfl, (List.reverse_reverse _).symm, records.callStack (stands pos here),
        records.next here, records.stepOut here⟩

end AlLanguage.Dap
