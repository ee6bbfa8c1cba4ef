import AlLanguage.Dap.ReplayLinks
import AlLanguage.Library.Machine
import AlLanguage.Library.Ranks

/-!
# Where the walk stops

- For each line that was ever active there is a mark: how far the walk has come since then.
- `cont` stops at the first statement of an active line beyond the mark of the line.
-/

namespace AlLanguage.Dap

open Library

/-! ## The statements of a recording -/

section Statements

variable {contexts : List MethodContext}

theorem statements_ordered (contexts : List MethodContext) : (statements contexts).Pairwise fun a b => a.pos < b.pos := by
  have indexed {α : Type} (items : List α) : items.zipIdx.Pairwise fun a b => a.2 < b.2 := by
    rw [← List.pairwise_map, List.zipIdx_map_snd]
    exact List.pairwise_lt_range'
  unfold statements
  refine List.pairwise_flatMap.mpr ⟨fun (ctx, c) _ => ?_, (indexed contexts).imp fun {a b} below x inside y inside' => ?_⟩
  · unfold statementsOf
    rw [List.pairwise_map]
    refine (indexed ctx.lineContexts).imp fun {a b} below => ?_
    exact (Pos.lt_iff _ _).mpr (.inr ⟨rfl, below⟩)
  · unfold statementsOf at inside inside'
    obtain ⟨_, _, rfl⟩ := List.mem_map.mp inside
    obtain ⟨_, _, rfl⟩ := List.mem_map.mp inside'
    exact (Pos.lt_iff _ _).mpr (.inl below)

/-- The recorded statement at a position. -/
def lineAt (contexts : List MethodContext) (pos : Pos) : Option (MethodContext × LineContext) :=
  contexts[pos.ctx]?.bind fun ctx => ctx.lineContexts[pos.line]?.map fun line => (ctx, line)

def keyOf (ctx : MethodContext) (line : LineContext) : LineKey := ⟨ctx.id.objectType, ctx.id.number, line.statementSpan.fromPos.line⟩

def statementAt (pos : Pos) (ctx : MethodContext) (line : LineContext) : Statement :=
  ⟨pos, keyOf ctx line, !line.vars.isEmpty, ctx.exceptionAt == some pos.line⟩

theorem mem_statements (s : Statement) :
    s ∈ statements contexts ↔ ∃ ctx line, lineAt contexts s.pos = some (ctx, line) ∧ s = statementAt s.pos ctx line := by
  unfold statements statementsOf lineAt
  rw [List.mem_flatMap]
  constructor
  · rintro ⟨⟨ctx, c⟩, stored, member⟩
    obtain ⟨⟨line, l⟩, there, rfl⟩ := List.mem_map.mp member
    exact ⟨ctx, line, by simp [List.mem_zipIdx_iff_getElem?.mp stored, List.mem_zipIdx_iff_getElem?.mp there], rfl⟩
  · rintro ⟨ctx, line, found, same⟩
    obtain ⟨own, stored, found⟩ := Option.bind_eq_some_iff.mp found
    obtain ⟨line', there, pair⟩ := Option.map_eq_some_iff.mp found
    cases pair
    exact ⟨(ctx, s.pos.ctx), List.mem_zipIdx_iff_getElem?.mpr stored, List.mem_map.mpr
      ⟨(line, s.pos.line), List.mem_zipIdx_iff_getElem?.mpr there, same.symm⟩⟩

/-- The statements of a line. -/
def occurrencesOf (contexts : List MethodContext) (key : LineKey) : List Pos :=
  ((statements contexts).filter fun s => s.key = key).map (·.pos)

theorem occurrencesOf_ordered (contexts : List MethodContext) (key : LineKey) : (occurrencesOf contexts key).Pairwise (· < ·) := by
  rw [occurrencesOf, List.pairwise_map]
  exact (statements_ordered contexts).filter _

theorem mem_occurrencesOf {key : LineKey} {pos : Pos} :
    pos ∈ occurrencesOf contexts key ↔ ∃ ctx line, lineAt contexts pos = some (ctx, line) ∧ keyOf ctx line = key := by
  unfold occurrencesOf
  rw [List.mem_map]
  constructor
  · rintro ⟨s, member, rfl⟩
    obtain ⟨member, same⟩ := List.mem_filter.mp member
    obtain ⟨ctx, line, found, eq⟩ := (mem_statements s).mp member
    refine ⟨ctx, line, found, ?_⟩
    rw [eq] at same
    exact of_decide_eq_true same
  · rintro ⟨ctx, line, found, rfl⟩
    exact ⟨statementAt pos ctx line, List.mem_filter.mpr ⟨(mem_statements _).mpr ⟨ctx, line, found, rfl⟩, decide_eq_true rfl⟩, rfl⟩

/-- The lines that show variables or an error. -/
def Snappoint (contexts : List MethodContext) (key : LineKey) : Prop :=
  ∃ pos ctx line, lineAt contexts pos = some (ctx, line) ∧ keyOf ctx line = key ∧ (line.vars ≠ [] ∨ ctx.exceptionAt = some pos.line)

theorem mem_snappoints {key : LineKey} : key ∈ (Engine.new contexts).snappoints ↔ Snappoint contexts key := by
  unfold Engine.new
  dsimp only
  rw [mem_foldl_pushNew, List.mem_map]
  constructor
  · rintro (none | ⟨s, member, rfl⟩)
    · cases none
    · obtain ⟨member, chosen⟩ := List.mem_filter.mp member
      obtain ⟨ctx, line, found, eq⟩ := (mem_statements s).mp member
      rw [eq] at chosen ⊢
      exact ⟨s.pos, ctx, line, found, rfl, by simpa [statementAt] using chosen⟩
  · rintro ⟨pos, ctx, line, found, rfl, chosen⟩
    exact .inr ⟨statementAt pos ctx line,
      List.mem_filter.mpr ⟨(mem_statements _).mpr ⟨ctx, line, found, rfl⟩, by simpa [statementAt] using chosen⟩, rfl⟩

end Statements

/-! ## Runs -/

inductive Move where
  | start
  | cont
  | next
  | stepIn
  | stepOut
  deriving DecidableEq

/-- The breakpoint lines of one source. -/
structure SourceLines where
  source : String
  objectType : Int
  number : Int
  lines : List Int

inductive Command where
  | setUserBreakpoints (set : SourceLines)
  | move (move : Move)

namespace Engine

def move (e : Engine) : Move → Step × Engine
  | .start => e.start
  | .cont => e.cont
  | .next => e.next
  | .stepIn => e.stepIn
  | .stepOut => e.stepOut

def act (e : Engine) : Command → Engine
  | .setUserBreakpoints set => (e.setUserBreakpoints set.source set.objectType set.number set.lines).2
  | .move move => (e.move move).2

/-! ## What a command changes -/

variable {contexts : List MethodContext} {e : Engine} {key : LineKey}

/-- The parts that no command changes. -/
structure Records (contexts : List MethodContext) (e : Engine) : Prop where
  lens : e.lens = (Engine.new contexts).lens
  exceptionAt : e.exceptionAt = (Engine.new contexts).exceptionAt
  parent : e.parent = (Engine.new contexts).parent
  callees : e.callees = (Engine.new contexts).callees
  occurrences : e.occurrences = (Engine.new contexts).occurrences
  snappoints : e.snappoints = (Engine.new contexts).snappoints

theorem Records.filed (records : e.Records contexts) (key : LineKey) : Filing.filed e.occurrences key = occurrencesOf contexts key := by
  rw [records.occurrences]
  exact (filed_foldl_push ..).trans (List.nil_append _)

theorem Records.passed (records : e.Records contexts) (key : LineKey) (pos : Option Pos) :
    e.passed key pos = rank (occurrencesOf contexts key) pos := by
  cases pos with
  | none => exact (rank_of_bot _).symm
  | some pos =>
      unfold Engine.passed rank
      rw [records.filed]
      simp only [WithBot.some_eq_coe, WithBot.coe_le_coe]

/-- Every move stops at a statement, or ends. -/
inductive Moved (e : Engine) : Step × Engine → Prop
  | landed (pos : Pos) (startOver : Bool) : Moved e (e.land pos startOver)
  | finished : Moved e e.finish

theorem moved_startOver (e : Engine) : Moved e e.startOver := by
  unfold startOver
  split
  · exact .finished
  · exact .landed ..

theorem moved_cont (e : Engine) : Moved e e.cont := by
  unfold cont
  split
  · exact .landed ..
  · exact .finished

theorem moved_start (e : Engine) : Moved e e.start := by
  unfold start
  split
  · exact moved_startOver e
  · exact moved_cont e

theorem moved_stepOutOf (e : Engine) (ctx : Nat) : Moved e (e.stepOutOf ctx) := by
  induction ctx using Nat.strong_induction_on with
  | _ ctx ih =>
      rw [stepOutOf]
      split
      next site called =>
        split
        · exact .landed ..
        · exact ih site.ctx (e.site_ctx called)
      next =>
        split
        · exact .finished
        · exact moved_startOver e

theorem moved_stays (e : Engine) (pos : Pos) : Moved e (stepIn.stays e pos) := by
  unfold stepIn.stays
  split
  · exact .finished
  · exact .landed ..

theorem moved_move (e : Engine) (move : Move) : Moved e (e.move move) := by
  cases move with
  | start => exact moved_start e
  | cont => exact moved_cont e
  | next =>
      change Moved e e.next
      unfold next
      split
      · exact moved_start e
      · split
        · exact .landed ..
        · exact moved_stepOutOf ..
  | stepIn =>
      change Moved e e.stepIn
      unfold stepIn
      split
      · exact moved_start e
      · split
        · split
          · exact .landed ..
          · exact moved_stays ..
        · exact moved_stays ..
  | stepOut =>
      change Moved e e.stepOut
      unfold stepOut
      split
      · exact moved_start e
      · exact moved_stepOutOf ..

theorem Moved.records {answer : Step × Engine} (moved : Moved e answer) (records : e.Records contexts) : answer.2.Records contexts := by
  cases moved <;> exact ⟨records.lens, records.exceptionAt, records.parent, records.callees, records.occurrences, records.snappoints⟩

theorem act_records (records : e.Records contexts) (command : Command) : (e.act command).Records contexts := by
  cases command with
  | setUserBreakpoints set =>
      exact ⟨records.lens, records.exceptionAt, records.parent, records.callees, records.occurrences, records.snappoints⟩
  | move move => exact (moved_move e move).records records

theorem mem_activeKeys (e : Engine) (key : LineKey) :
    key ∈ e.activeKeys ↔ key ∈ e.snappoints ∨ ∃ source keys, e.user.get? source = some keys ∧ key ∈ keys := by
  unfold activeKeys
  rw [mem_foldl_pushNew, List.mem_flatten]
  refine or_congr Iff.rfl ⟨fun ⟨keys, listed, member⟩ => ?_, fun ⟨source, keys, listed, member⟩ => ?_⟩
  · obtain ⟨entry, inside, rfl⟩ := List.mem_map.mp listed
    exact ⟨entry.1, entry.2, (e.user.mem_entries_iff _ _).mp inside, member⟩
  · exact ⟨keys, List.mem_map.mpr ⟨(source, keys), (e.user.mem_entries_iff _ _).mpr listed, rfl⟩, member⟩

/-- The breakpoint of a line as the client sent it. -/
def lineKey (objectType number l : Int) : Option LineKey :=
  if 0 ≤ l - 1 ∧ l - 1 < 65536 then some ⟨objectType, number, (l - 1).toNat⟩ else none

/-- The lines that have a statement. -/
def placed (e : Engine) (objectType number : Int) (lines : List Int) : List LineKey :=
  (lines.filterMap (lineKey objectType number)).filter fun key => (e.occurrences.get? key).isSome

/-- What the client is told about a line. -/
def answerTo (e : Engine) (objectType number l : Int) : UserBreakpoint :=
  match lineKey objectType number l with
  | some key => ⟨key, (e.occurrences.get? key).isSome⟩
  | none => ⟨⟨objectType, number, 0⟩, false⟩

theorem setLine_exact (e : Engine) (objectType number l : Int) (keys : List LineKey) (out : List UserBreakpoint)
    (hits : IndexMap LineKey Nat) : ∃ hits' : IndexMap LineKey Nat, e.setLine objectType number (keys, out, hits) l =
      (keys ++ e.placed objectType number [l], out ++ [e.answerTo objectType number l], hits') ∧
    ∀ key, hits'.get? key =
      if key ∈ e.placed objectType number [l] ∧ hits.get? key = none then some (e.passed key e.current) else hits.get? key := by
  unfold setLine answerTo placed
  dsimp only
  rw [List.filterMap_cons]
  by_cases within : 0 ≤ l - 1 ∧ l - 1 < 65536
  · rw [if_pos within, show lineKey objectType number l = some _ from if_pos within]
    generalize (⟨objectType, number, (l - 1).toNat⟩ : LineKey) = key
    dsimp only
    rw [List.filterMap_nil, List.filter_cons, List.filter_nil]
    by_cases recorded : (e.occurrences.get? key).isSome = true
    · rw [if_pos recorded, if_pos recorded, recorded]
      refine ⟨_, rfl, fun other => ?_⟩
      simp only [List.mem_singleton]
      cases counted : hits.get? key with
      | some count =>
          by_cases same : other = key
          · subst same
            simp [counted]
          · simp [same]
      | none =>
          by_cases same : other = key
          · subst same
            simp [counted]
          · simp [same, Ne.symm same]
    · rw [if_neg recorded, if_neg recorded, Bool.eq_false_iff.mpr recorded, List.append_nil]
      exact ⟨hits, rfl, fun other => by simp⟩
  · rw [if_neg within, show lineKey objectType number l = none from if_neg within]
    exact ⟨hits, by simp, fun other => by simp⟩

theorem setUserBreakpoints_exact (e : Engine) (source : String) (objectType number : Int) (lines : List Int) :
    ∃ hits, e.setUserBreakpoints source objectType number lines =
      (lines.map (e.answerTo objectType number), { e with user := e.user.insert source (e.placed objectType number lines), hits }) ∧
    ∀ key, hits.get? key =
      if key ∈ e.placed objectType number lines ∧ e.hits.get? key = none then some (e.passed key e.current) else e.hits.get? key := by
  unfold setUserBreakpoints
  suffices loop : ∀ (keys : List LineKey) (out : List UserBreakpoint) (hits : IndexMap LineKey Nat), ∃ hits' : IndexMap LineKey Nat,
      lines.foldl (e.setLine objectType number) (keys, out, hits) =
        (keys ++ e.placed objectType number lines, out ++ lines.map (e.answerTo objectType number), hits') ∧
      ∀ key, hits'.get? key =
        if key ∈ e.placed objectType number lines ∧ hits.get? key = none then some (e.passed key e.current) else hits.get? key by
    obtain ⟨hits, same, counts⟩ := loop [] [] e.hits
    rw [same]
    exact ⟨hits, rfl, counts⟩
  induction lines with
  | nil => exact fun keys out hits => ⟨hits, by simp [placed], fun key => by simp [placed]⟩
  | cons l rest ih =>
      intro keys out hits
      have joined : e.placed objectType number (l :: rest) = e.placed objectType number [l] ++ e.placed objectType number rest := by
        unfold placed
        rw [← List.filter_append, ← List.filterMap_append, List.singleton_append]
      obtain ⟨hits₁, first, counts₁⟩ := e.setLine_exact objectType number l keys out hits
      obtain ⟨hits₂, later, counts₂⟩ := ih (keys ++ e.placed objectType number [l]) (out ++ [e.answerTo objectType number l]) hits₁
      refine ⟨hits₂, ?_, fun key => ?_⟩
      · rw [List.foldl_cons, first, later, joined, List.append_assoc, List.append_assoc]
        rfl
      · simp only [counts₂, counts₁, joined, List.mem_append]
        by_cases inside : key ∈ e.placed objectType number [l] <;> by_cases inside' : key ∈ e.placed objectType number rest <;>
          cases hits.get? key <;> simp [inside, inside']

theorem land_hits (e : Engine) (pos : Pos) (startOver : Bool) (key : LineKey) :
    (e.land pos startOver).2.hits.get? key =
      if key ∈ e.activeKeys then some (max (e.hitsOf key) (e.passed key (some pos))) else e.hits.get? key := by
  unfold land hitsOf
  dsimp only
  generalize e.activeKeys = keys
  generalize e.hits = hits
  induction keys generalizing hits with
  | nil => simp
  | cons first rest ih =>
      rw [List.foldl_cons, ih, IndexMap.get?_insert]
      by_cases same : first = key
      · subst same
        simp
      · have other : key ≠ first := Ne.symm same
        simp [same, other]

end Engine

/-! ## Marks -/

/-- How far the walk has come for each line that was ever active. -/
abbrev Marks := LineKey → Option (WithBot Pos)

def Marks.mark (marks : Marks) (key : LineKey) : WithBot Pos := (marks key).getD ⊥

/-- A line gets its mark when it is set. While it is active, landings take the mark along. -/
def watch (s : Engine × Marks) (command : Command) : Engine × Marks :=
  (s.1.act command,
    match command with
    | .setUserBreakpoints set => fun key =>
        if key ∈ s.1.placed set.objectType set.number set.lines ∧ s.2 key = none then some s.1.current else s.2 key
    | .move move =>
        match (s.1.move move).1 with
        | .stopped landing => fun key => if key ∈ s.1.activeKeys then some (max (s.2.mark key) landing.pos) else s.2 key
        | .ended => s.2)

/-- A hit is a statement up to the mark. -/
structure Counts (contexts : List MethodContext) (s : Engine × Marks) : Prop where
  records : s.1.Records contexts
  hits : ∀ key, s.1.hits.get? key = (s.2 key).map (rank (occurrencesOf contexts key))

section Runs

variable {contexts : List MethodContext} {s : Engine × Marks}

theorem Counts.hitsOf (counts : Counts contexts s) (key : LineKey) :
    s.1.hitsOf key = rank (occurrencesOf contexts key) (s.2.mark key) := by
  unfold Engine.hitsOf Marks.mark
  rw [counts.hits]
  cases s.2 key with
  | none => exact (rank_of_bot _).symm
  | some mark => rfl

theorem counts_new (contexts : List MethodContext) : Counts contexts (Engine.new contexts, fun _ => none) where
  records := ⟨rfl, rfl, rfl, rfl, rfl, rfl⟩
  hits _ := rfl

theorem counts_watch (counts : Counts contexts s) (command : Command) : Counts contexts (watch s command) := by
  refine ⟨Engine.act_records counts.records command, fun key => ?_⟩
  cases command with
  | setUserBreakpoints set =>
      obtain ⟨hits, same, counted⟩ := s.1.setUserBreakpoints_exact set.source set.objectType set.number set.lines
      change (s.1.setUserBreakpoints set.source set.objectType set.number set.lines).2.hits.get? key = _
      rw [same]
      dsimp only
      rw [counted, counts.records.passed, counts.hits]
      unfold watch
      dsimp only
      by_cases fresh : s.2 key = none
      · rw [fresh]
        by_cases member : key ∈ s.1.placed set.objectType set.number set.lines
        · rw [if_pos ⟨member, rfl⟩, if_pos ⟨member, rfl⟩]
          rfl
        · rw [if_neg fun both => member both.1, if_neg fun both => member both.1]
      · simp [fresh]
  | move move =>
      have moved := s.1.moved_move move
      unfold watch
      change (s.1.move move).2.hits.get? key = _
      dsimp only
      generalize s.1.move move = answer at moved
      cases moved with
      | landed pos startOver =>
          rw [Engine.land_hits, counts.hitsOf, counts.records.passed, counts.hits]
          change _ = Option.map _ (if _ then _ else _)
          split
          · exact congrArg some (rank_of_max _ _ _).symm
          · rfl
      | finished => exact counts.hits key

theorem run_counts (contexts : List MethodContext) (commands : List Command) :
    Counts contexts (Machine.run watch (Engine.new contexts, fun _ => none) commands) :=
  @Machine.run_invariant _ _ watch (Counts contexts) (fun _ command counts => counts_watch counts command) _ (counts_new contexts) commands

/-- The active lines: the snappoints, and those set for some source. -/
def Active (contexts : List MethodContext) (e : Engine) (key : LineKey) : Prop :=
  Snappoint contexts key ∨ ∃ source keys, e.user.get? source = some keys ∧ key ∈ keys

/-- The statements of active lines beyond the marks of their lines. -/
def ahead (contexts : List MethodContext) (s : Engine × Marks) : Set Pos :=
  { pos | ∃ ctx line, lineAt contexts pos = some (ctx, line) ∧ Active contexts s.1 (keyOf ctx line) ∧ s.2.mark (keyOf ctx line) < pos }

theorem Engine.Records.active_iff {e : Engine} (records : e.Records contexts) (key : LineKey) :
    key ∈ e.activeKeys ↔ Active contexts e key := by
  rw [Engine.mem_activeKeys, records.snappoints, mem_snappoints]
  rfl

theorem ahead_eq (records : s.1.Records contexts) :
    ahead contexts s = { pos | ∃ key ∈ s.1.activeKeys, pos ∈ Beyond (occurrencesOf contexts key) (s.2.mark key) } := by
  ext pos
  constructor
  · rintro ⟨ctx, line, found, active, beyond⟩
    exact ⟨_, (records.active_iff _).mpr active, mem_occurrencesOf.mpr ⟨ctx, line, found, rfl⟩, beyond⟩
  · rintro ⟨key, active, member, beyond⟩
    obtain ⟨ctx, line, found, rfl⟩ := mem_occurrencesOf.mp member
    exact ⟨ctx, line, found, (records.active_iff _).mp active, beyond⟩

theorem Counts.least_iff (counts : Counts contexts s) (key : LineKey) (pos : Pos) :
    (Filing.filed s.1.occurrences key)[s.1.hitsOf key]? = some pos ↔
      IsLeast (Beyond (occurrencesOf contexts key) (s.2.mark key)) pos := by
  rw [counts.records.filed, counts.hitsOf]
  exact getElem?_rank (occurrencesOf_ordered contexts key)

theorem Counts.none_left (counts : Counts contexts s) (key : LineKey)
    (missing : (Filing.filed s.1.occurrences key)[s.1.hitsOf key]? = none) :
    Beyond (occurrencesOf contexts key) (s.2.mark key) = ∅ := by
  rw [counts.records.filed, counts.hitsOf] at missing
  exact beyond_eq_empty missing

/-- The exception of the context was raised at the statement. -/
def raises (contexts : List MethodContext) (pos : Pos) : Bool := contexts[pos.ctx]?.bind (·.exceptionAt) == some pos.line

theorem Engine.Records.raises {e : Engine} (records : e.Records contexts) (pos : Pos) :
    ((e.exceptionAt[pos.ctx]?).join == some pos.line) = Dap.raises contexts pos := by
  rw [records.exceptionAt]
  unfold Engine.new Dap.raises
  rw [List.getElem?_map]
  cases contexts[pos.ctx]? <;> rfl

/-- The walk stops at the first of some statements, and ends without one. -/
def StopsAt (contexts : List MethodContext) (statements : Set Pos) (answer : Step) : Prop :=
  (∃ pos, IsLeast statements pos ∧ answer = .stopped ⟨pos, false, raises contexts pos⟩) ∨ statements = ∅ ∧ answer = .ended

/-- After every run, `cont` stops at the first statement of an active line beyond the mark of the line. -/
theorem cont_exact (contexts : List MethodContext) (commands : List Command) :
    let s := Machine.run watch (Engine.new contexts, fun _ => none) commands
    StopsAt contexts (ahead contexts s) s.1.cont.1 := by
  intro s
  have counts : Counts contexts s := run_counts contexts commands
  rw [ahead_eq counts.records]
  unfold Engine.cont
  cases found : (s.1.activeKeys.filterMap fun key => (Filing.filed s.1.occurrences key)[s.1.hitsOf key]?).min? with
  | some pos =>
      refine .inl ⟨pos, (min?_leasts counts.least_iff counts.none_left pos).mp found, ?_⟩
      exact congrArg Step.stopped (congrArg (Landing.mk pos false) (counts.records.raises pos))
  | none => exact .inr ⟨leasts_empty counts.none_left found, rfl⟩

/-! ## Breakpoints that stay -/

/-- The landings of a run of moves. -/
def landings (e : Engine) : List Move → List Pos
  | [] => []
  | move :: rest =>
    match (e.move move).1 with
    | .stopped landing => landing.pos :: landings (e.move move).2 rest
    | .ended => landings (e.move move).2 rest

theorem moved_user {e : Engine} {answer : Step × Engine} (moved : e.Moved answer) : answer.2.user = e.user := by
  cases moved <;> rfl

/-- The marks of the active lines. -/
def Level (contexts : List MethodContext) (mark : WithBot Pos) (s : Engine × Marks) : Prop :=
  ∀ key, Active contexts s.1 key → s.2.mark key = mark

theorem level_sets (contexts : List MethodContext) (sets : List SourceLines) :
    (Machine.run watch (Engine.new contexts, fun _ => none) (sets.map .setUserBreakpoints)).1.current = none ∧
      ∀ key, (Machine.run watch (Engine.new contexts, fun _ => none) (sets.map .setUserBreakpoints)).2.mark key = ⊥ := by
  refine @Machine.run_invariant_mem _ _ watch (fun s => s.1.current = none ∧ ∀ key, s.2.mark key = ⊥) (sets.map .setUserBreakpoints)
    ?_ _ ⟨rfl, fun _ => rfl⟩
  rintro s command member ⟨still, low⟩
  obtain ⟨set, _, rfl⟩ := List.mem_map.mp member
  obtain ⟨hits, same, _⟩ := s.1.setUserBreakpoints_exact set.source set.objectType set.number set.lines
  refine ⟨?_, fun key => ?_⟩
  · change (s.1.setUserBreakpoints set.source set.objectType set.number set.lines).2.current = none
    rw [same]
    exact still
  · unfold watch Marks.mark
    dsimp only
    split
    · rw [still]
      rfl
    · exact low key

/-- How far the walk has come after some landings. -/
def furthest (mark : WithBot Pos) (landed : List Pos) : WithBot Pos := landed.foldl (fun mark (pos : Pos) => max mark pos) mark

def Step.mark (mark : WithBot Pos) : Step → WithBot Pos
  | .stopped landing => max mark landing.pos
  | .ended => mark

theorem level_move {mark : WithBot Pos} (counts : Counts contexts s) (level : Level contexts mark s) (move : Move) :
    Level contexts ((s.1.move move).1.mark mark) (watch s (.move move)) := by
  have moved := s.1.moved_move move
  intro key active
  have active' : Active contexts s.1 key := by
    unfold Active at active ⊢
    rw [show (watch s (.move move)).1.user = s.1.user from moved_user moved] at active
    exact active
  have listed : key ∈ s.1.activeKeys := (counts.records.active_iff key).mpr active'
  have before := level key active'
  unfold watch Marks.mark Step.mark
  dsimp only
  cases (s.1.move move).1 with
  | stopped landing =>
      dsimp only
      rw [if_pos listed]
      exact congrArg (max · _) before
  | ended => exact before

theorem watch_act (s : Engine × Marks) (commands : List Command) : (Machine.run watch s commands).1 = Machine.run Engine.act s.1 commands := by
  induction commands generalizing s with
  | nil => rfl
  | cons command rest ih => exact ih (watch s command)

theorem level_moves {mark : WithBot Pos} (counts : Counts contexts s) (level : Level contexts mark s) (moves : List Move) :
    Counts contexts (Machine.run watch s (moves.map .move)) ∧
      Level contexts (furthest mark (landings s.1 moves)) (Machine.run watch s (moves.map .move)) ∧
      (Machine.run watch s (moves.map .move)).1.user = s.1.user := by
  induction moves generalizing s mark with
  | nil => exact ⟨counts, level, rfl⟩
  | cons move rest ih =>
      have next := level_move counts level move
      obtain ⟨counts', level', user⟩ := ih (counts_watch counts (.move move)) next
      refine ⟨counts', ?_, user.trans (moved_user (s.1.moved_move move))⟩
      unfold landings
      cases answered : (s.1.move move).1 with
      | stopped landing =>
          rw [answered] at level'
          exact level'
      | ended =>
          rw [answered] at level'
          exact level'

theorem furthest_lt_iff (landed : List Pos) (mark : WithBot Pos) (pos : Pos) :
    furthest mark landed < pos ↔ mark < pos ∧ ∀ p ∈ landed, p < pos := by
  induction landed generalizing mark with
  | nil => simp [furthest]
  | cons first rest ih =>
      rw [furthest, List.foldl_cons, ← furthest, ih, max_lt_iff, WithBot.coe_lt_coe]
      simp [and_assoc]

/-- The statements of active lines after all landings. -/
def unvisited (contexts : List MethodContext) (e : Engine) (landed : List Pos) : Set Pos :=
  { pos | ∃ ctx line, lineAt contexts pos = some (ctx, line) ∧ Active contexts e (keyOf ctx line) ∧ ∀ p ∈ landed, p < pos }

/-- When the breakpoints are set before the walk, `cont` never goes back and passes no statement of an active line. -/
theorem cont_forward (contexts : List MethodContext) (sets : List SourceLines) (moves : List Move) :
    let e := Machine.run Engine.act (Engine.new contexts) (sets.map .setUserBreakpoints)
    StopsAt contexts (unvisited contexts e (landings e moves)) (Machine.run Engine.act e (moves.map .move)).cont.1 := by
  intro e
  obtain ⟨_, low⟩ := level_sets contexts sets
  have same := watch_act (Engine.new contexts, fun _ => none) (sets.map .setUserBreakpoints)
  have counts := run_counts contexts (sets.map .setUserBreakpoints)
  have exact := cont_exact contexts (sets.map .setUserBreakpoints ++ moves.map .move)
  rw [Machine.run_append] at exact
  generalize Machine.run watch (Engine.new contexts, fun _ => none) (sets.map .setUserBreakpoints) = s at low same counts exact
  obtain ⟨counts', level, user⟩ := level_moves counts (fun key _ => low key) moves
  have here : s.1 = e := same
  have there : (Machine.run watch s (moves.map .move)).1 = Machine.run Engine.act e (moves.map .move) := by
    rw [watch_act, here]
  have sets_eq : ahead contexts (Machine.run watch s (moves.map .move)) = unvisited contexts e (landings e moves) := by
    ext pos
    unfold ahead unvisited Active
    rw [user, here]
    refine exists_congr fun ctx => exists_congr fun line => and_congr_right fun _ => and_congr_right fun active => ?_
    have mark := level (keyOf ctx line) (by unfold Active; rw [user, here]; exact active)
    rw [mark, furthest_lt_iff, here]
    simp
  dsimp only at exact
  rw [sets_eq, there] at exact
  exact exact

/-- The statements of active lines. -/
def stops (contexts : List MethodContext) (e : Engine) : List Pos :=
  ((statements contexts).filter fun s => s.key ∈ e.activeKeys).map (·.pos)

theorem stops_ordered (contexts : List MethodContext) (e : Engine) : (stops contexts e).Pairwise (· < ·) := by
  rw [stops, List.pairwise_map]
  exact (statements_ordered contexts).filter _

theorem mem_stops {e : Engine} (records : e.Records contexts) (pos : Pos) :
    pos ∈ stops contexts e ↔ ∃ ctx line, lineAt contexts pos = some (ctx, line) ∧ Active contexts e (keyOf ctx line) := by
  unfold stops
  rw [List.mem_map]
  constructor
  · rintro ⟨s, member, rfl⟩
    obtain ⟨member, active⟩ := List.mem_filter.mp member
    obtain ⟨ctx, line, found, eq⟩ := (mem_statements s).mp member
    rw [eq] at active
    exact ⟨ctx, line, found, (records.active_iff _).mp (of_decide_eq_true active)⟩
  · rintro ⟨ctx, line, found, active⟩
    exact ⟨statementAt pos ctx line, List.mem_filter.mpr
      ⟨(mem_statements _).mpr ⟨ctx, line, found, rfl⟩, decide_eq_true ((records.active_iff _).mpr active)⟩, rfl⟩

theorem landings_concat (e : Engine) (moves : List Move) (move : Move) :
    landings e (moves ++ [move]) = landings e moves ++ landings (Machine.run Engine.act e (moves.map .move)) [move] := by
  induction moves generalizing e with
  | nil => rfl
  | cons first rest ih =>
      rw [List.cons_append]
      unfold landings
      split
      · rw [ih]; rfl
      · exact ih _

theorem unvisited_take {e : Engine} (records : e.Records contexts) (n : Nat) :
    unvisited contexts e ((stops contexts e).take n) = { pos | pos ∈ (stops contexts e).drop n } := by
  ext pos
  rw [Set.mem_ofPred_eq, mem_drop_iff (stops_ordered contexts e), mem_stops records]
  constructor
  · exact fun ⟨ctx, line, found, active, after⟩ => ⟨⟨ctx, line, found, active⟩, after⟩
  · exact fun ⟨⟨ctx, line, found, active⟩, after⟩ => ⟨ctx, line, found, active, after⟩

/-- A client that only continues sees every statement of an active line once, in the order of the walk. -/
theorem continues_visit (contexts : List MethodContext) (sets : List SourceLines) (n : Nat) :
    let e := Machine.run Engine.act (Engine.new contexts) (sets.map .setUserBreakpoints)
    (Machine.run Engine.act e (List.replicate n (.move .cont))).cont.1 =
      match (stops contexts e)[n]? with
      | some pos => .stopped ⟨pos, false, raises contexts pos⟩
      | none => .ended := by
  intro e
  have records : e.Records contexts :=
    @Machine.run_invariant _ _ Engine.act (Engine.Records contexts) (fun _ command records => Engine.act_records records command)
      (Engine.new contexts) ⟨rfl, rfl, rfl, rfl, rfl, rfl⟩ (sets.map .setUserBreakpoints)
  -- where the next `cont` stops follows from where the walk was
  have answer (n : Nat) (landed : landings e (List.replicate n .cont) = (stops contexts e).take n) :
      (Machine.run Engine.act e (List.replicate n (.move .cont))).cont.1 =
        match (stops contexts e)[n]? with
        | some pos => .stopped ⟨pos, false, raises contexts pos⟩
        | none => .ended := by
    have forward := cont_forward contexts sets (List.replicate n .cont)
    dsimp only at forward
    rw [show Machine.run Engine.act (Engine.new contexts) (sets.map .setUserBreakpoints) = e from rfl, landed, unvisited_take records, List.map_replicate] at forward
    rcases forward with ⟨pos, least, stopped⟩ | ⟨empty, ended⟩
    · cases found : (stops contexts e)[n]? with
      | some pos' =>
          rw [stopped, least.unique (isLeast_drop (stops_ordered contexts e) found)]
      | none =>
          have none_left : (stops contexts e).drop n = [] := List.drop_eq_nil_of_le (List.getElem?_eq_none_iff.mp found)
          have inside : pos ∈ (stops contexts e).drop n := least.1
          rw [none_left] at inside
          cases inside
    · cases found : (stops contexts e)[n]? with
      | some pos' =>
          have inside : pos' ∈ { pos | pos ∈ (stops contexts e).drop n } := (isLeast_drop (stops_ordered contexts e) found).1
          rw [empty] at inside
          cases inside
      | none => exact ended
  suffices landed : ∀ n, landings e (List.replicate n .cont) = (stops contexts e).take n from answer n (landed n)
  intro n
  induction n with
  | zero => rfl
  | succ n ih =>
      rw [List.replicate_succ', landings_concat, ih, List.map_replicate, List.take_add_one]
      congr 1
      have stopped := answer n ih
      unfold landings landings
      change (match (Machine.run Engine.act e (List.replicate n (.move .cont))).cont.1 with
        | .stopped landing => [landing.pos]
        | .ended => []) = _
      rw [stopped]
      cases (stops contexts e)[n]? <;> rfl

end Runs

end AlLanguage.Dap
