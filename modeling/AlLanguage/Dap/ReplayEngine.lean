import AlLanguage.Library.Filing
import Mathlib.Data.Prod.Lex

/-!
# The walk of a snapshot replay

- A recording is a list of method contexts in execution order, each with the statements that ran.
- The engine stops at statements: `cont` at those of the next breakpoint line, the steps around calls.
-/

namespace AlLanguage.Dap

open Library

/-! ## Recordings -/

structure SourcePosition where
  line : Nat
  column : Nat
  deriving DecidableEq

structure SourceSpan where
  fromPos : SourcePosition
  toPos : SourcePosition
  deriving DecidableEq

structure ObjectId where
  objectType : Int
  number : Int
  deriving DecidableEq

structure Variable where
  name : String
  value : String
  typeName : String
  children : List Variable

structure LineContext where
  statementSpan : SourceSpan
  vars : List Variable
  timestamp : Int

structure StackFrame where
  methodName : String
  id : ObjectId
  objectName : String
  statementSpan : SourceSpan

structure ExceptionContext where
  message : String
  lineNumber : Int

/-- The first frame is that of the method itself, then come its callers. -/
structure MethodContext where
  id : ObjectId
  methodName : String
  exception : Option ExceptionContext
  frames : List StackFrame
  lineContexts : List LineContext
  startTime : Int

/-! ## Positions -/

/-- A statement: its context, and its index there. -/
structure Pos where
  ctx : Nat
  line : Nat
  deriving DecidableEq

/-- The order of the walk. -/
instance : LinearOrder Pos :=
  LinearOrder.lift' (fun pos => toLex (pos.ctx, pos.line)) fun a b same => by
    cases a
    cases b
    cases toLex_inj.mp same
    rfl

theorem Pos.le_iff (a b : Pos) : a ≤ b ↔ a.ctx < b.ctx ∨ a.ctx = b.ctx ∧ a.line ≤ b.line := Prod.Lex.toLex_le_toLex

theorem Pos.lt_iff (a b : Pos) : a < b ↔ a.ctx < b.ctx ∨ a.ctx = b.ctx ∧ a.line < b.line := Prod.Lex.toLex_lt_toLex

structure LineKey where
  objectType : Int
  number : Int
  line : Nat
  deriving DecidableEq

/-! ## The calls -/

abbrev Chain := List (String × ObjectId)

def MethodContext.chain (ctx : MethodContext) : Chain := ctx.frames.map fun frame => (frame.methodName, frame.id)

/-- The statement of the caller that made the call. Of one that ran several times it is the last run before the call. -/
def callSite (caller callee : MethodContext) : Option Nat :=
  match callee.frames[1]? with
  | none => none
  | some frame =>
      let start := frame.statementSpan.fromPos
      let indices := List.range caller.lineContexts.length
      let same (matching : SourcePosition → Bool) :=
        indices.filter fun i => caller.lineContexts[i]?.any fun line => matching line.statementSpan.fromPos
      let exact := same fun pos => pos.line == start.line && pos.column == start.column
      let candidates := if exact.isEmpty then same fun pos => pos.line == start.line else exact
      (candidates.reverse.find? fun i => caller.lineContexts[i]?.any fun line => line.timestamp ≤ callee.startTime).or candidates.head?

/-- `latest` has the last context so far of each chain. -/
structure Links where
  latest : IndexMap Chain Nat
  parent : List (Option Pos)
  callees : IndexMap Pos (List Nat)

def Links.empty : Links := ⟨.empty, [], .empty⟩

/-- The statement that a context was called from. -/
def Links.siteOf (contexts : List MethodContext) (links : Links) (ctx : MethodContext) : Option Pos :=
  match ctx.chain with
  | _ :: callers@(_ :: _) =>
      match links.latest.get? callers with
      | some caller => (contexts[caller]?.bind fun callerCtx => callSite callerCtx ctx).map fun line => ⟨caller, line⟩
      | none => none
  | _ => none

def Links.add (contexts : List MethodContext) (links : Links) (ctx : MethodContext) : Links :=
  let c := links.parent.length
  let site := links.siteOf contexts ctx
  { latest := links.latest.insert ctx.chain c
    parent := links.parent ++ [site]
    callees := site.elim links.callees fun site => Filing.push links.callees site c }

def linkCalls (contexts : List MethodContext) : Links := contexts.foldl (Links.add contexts) .empty

/-! ## The statements -/

/-- The statement where the exception was raised. An index that is none is that of the last statement. -/
def MethodContext.exceptionAt (ctx : MethodContext) : Option Nat :=
  if ctx.lineContexts.isEmpty then none
  else ctx.exception.map fun exception =>
    if 0 ≤ exception.lineNumber ∧ exception.lineNumber.toNat < ctx.lineContexts.length then exception.lineNumber.toNat
    else ctx.lineContexts.length - 1

structure Statement where
  pos : Pos
  key : LineKey
  shown : Bool
  raises : Bool

def statementsOf (ctx : MethodContext) (c : Nat) : List Statement :=
  ctx.lineContexts.zipIdx.map fun (line, l) =>
    { pos := ⟨c, l⟩, key := ⟨ctx.id.objectType, ctx.id.number, line.statementSpan.fromPos.line⟩, shown := !line.vars.isEmpty,
      raises := ctx.exceptionAt == some l }

def statements (contexts : List MethodContext) : List Statement := contexts.zipIdx.flatMap fun (ctx, c) => statementsOf ctx c

def pushNew {α : Type} [DecidableEq α] (items : List α) (a : α) : List α := if a ∈ items then items else items ++ [a]

/-! ## The engine -/

structure Landing where
  pos : Pos
  startOver : Bool
  exception : Bool
  deriving DecidableEq

inductive Step where
  | stopped (landing : Landing)
  | ended
  deriving DecidableEq

structure UserBreakpoint where
  key : LineKey
  verified : Bool
  deriving DecidableEq

/-- A context is called by an earlier one. -/
structure Engine where
  lens : List Nat
  exceptionAt : List (Option Nat)
  parent : List (Option Pos)
  callees : IndexMap Pos (List Nat)
  occurrences : IndexMap LineKey (List Pos)
  snappoints : List LineKey
  listed : List LineKey
  user : IndexMap String (List LineKey)
  hits : IndexMap LineKey Nat
  current : Option Pos
  earlier : ∀ (c : Nat) (site : Pos), parent[c]? = some (some site) → site.ctx < c

namespace Engine

def len (e : Engine) (ctx : Nat) : Nat := (e.lens[ctx]?).getD 0

def site (e : Engine) (ctx : Nat) : Option Pos := (e.parent[ctx]?).join

theorem site_ctx (e : Engine) {ctx : Nat} {site : Pos} (called : e.site ctx = some site) : site.ctx < ctx :=
  e.earlier ctx site (Option.join_eq_some_iff.mp called)

/-- `partition_point` of the occurrences, which are in the order of the walk. -/
def passed (e : Engine) (key : LineKey) (pos : Option Pos) : Nat :=
  match pos with
  | none => 0
  | some pos => ((Filing.filed e.occurrences key).takeWhile (· ≤ pos)).length

def hitsOf (e : Engine) (key : LineKey) : Nat := (e.hits.get? key).getD 0

/-- One turn of the loop of `set_user_breakpoints`. Lines are 1-based here. -/
def setLine (e : Engine) (objectType number : Int) (state : List LineKey × List UserBreakpoint × IndexMap LineKey Nat) (l : Int) :
    List LineKey × List UserBreakpoint × IndexMap LineKey Nat :=
  let (keys, out, hits) := state
  if 0 ≤ l - 1 ∧ l - 1 < 65536 then
    let key : LineKey := ⟨objectType, number, (l - 1).toNat⟩
    if (e.occurrences.get? key).isSome then
      (keys ++ [key], out ++ [⟨key, true⟩], if (hits.get? key).isSome then hits else hits.insert key (e.passed key e.current))
    else (keys, out ++ [⟨key, false⟩], hits)
  else (keys, out ++ [⟨⟨objectType, number, 0⟩, false⟩], hits)

/-- The lines of one source. -/
def setUserBreakpoints (e : Engine) (source : String) (objectType number : Int) (lines : List Int) : List UserBreakpoint × Engine :=
  let (keys, out, hits) := lines.foldl (e.setLine objectType number) ([], [], e.hits)
  (out, { e with user := e.user.insert source keys, hits })

def activeKeys (e : Engine) : List LineKey := e.user.values.flatten.foldl pushNew e.snappoints

def finish (e : Engine) : Step × Engine := (.ended, { e with current := none })

def land (e : Engine) (pos : Pos) (startOver : Bool) : Step × Engine :=
  (.stopped ⟨pos, startOver, (e.exceptionAt[pos.ctx]?).join == some pos.line⟩,
    { e with
      hits := e.activeKeys.foldl (fun hits key => hits.insert key (max ((hits.get? key).getD 0) (e.passed key (some pos)))) e.hits
      current := some pos })

/-- Restart at the first recorded statement. -/
def startOver (e : Engine) : Step × Engine :=
  if e.len 0 = 0 then e.finish else e.land ⟨0, 0⟩ true

/-- Run to the next unused occurrence of a breakpoint. -/
def cont (e : Engine) : Step × Engine :=
  match (e.activeKeys.filterMap fun key => (Filing.filed e.occurrences key)[e.hitsOf key]?).min? with
  | some pos => e.land pos false
  | none => e.finish

def start (e : Engine) : Step × Engine :=
  if e.activeKeys.isEmpty then e.startOver else e.cont

/-- `step_out_of`, with `next_after` in it. An entry method that is not the first context restarts the walk. -/
def stepOutOf (e : Engine) (ctx : Nat) : Step × Engine :=
  match called : e.site ctx with
  | some site => if site.line + 1 < e.len site.ctx then e.land ⟨site.ctx, site.line + 1⟩ false else e.stepOutOf site.ctx
  | none => if ctx = 0 then e.finish else e.startOver
termination_by ctx
decreasing_by exact e.site_ctx called

/-- The next statement of the same context, or the return to the caller. -/
def next (e : Engine) : Step × Engine :=
  match e.current with
  | none => e.start
  | some cur => if cur.line + 1 < e.len cur.ctx then e.land ⟨cur.ctx, cur.line + 1⟩ false else e.stepOutOf cur.ctx

/-- Without a call the walk stays on the statement. In the last context it ends. -/
def stepIn (e : Engine) : Step × Engine :=
  match e.current with
  | none => e.start
  | some cur =>
    match (Filing.filed e.callees cur).head? with
    | some callee => if 0 < e.len callee then e.land ⟨callee, 0⟩ false else stays cur
    | none => stays cur
where
  stays (cur : Pos) : Step × Engine := if e.lens.length ≤ cur.ctx + 1 then e.finish else e.land cur false

def stepOut (e : Engine) : Step × Engine :=
  match e.current with
  | none => e.start
  | some cur => e.stepOutOf cur.ctx

/-- The call sites from the entry method down to a statement. -/
def stack (e : Engine) (pos : Pos) : List Pos :=
  match _called : e.site pos.ctx with
  | some site => e.stack site ++ [pos]
  | none => [pos]
termination_by pos.ctx
decreasing_by exact e.site_ctx _called

end Engine

end AlLanguage.Dap
