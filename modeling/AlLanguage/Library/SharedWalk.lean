import AlLanguage.Library.Trees
import Mathlib.Algebra.Order.BigOperators.Group.Finset
import Mathlib.Data.Fintype.Card
import Mathlib.Data.Fintype.Prod
import Mathlib.Logic.Relation
import Mathlib.Tactic.Ring

/-!
# Comparing values that share contents

- Values hold other values, some of them at an address that several values share and that may hold itself.
- Two values are compared with a stack of the rows that are being compared and a set of the pairs of addresses that were met. A
  pair met again counts as equal.
- The comparison ends. On values that unfold to trees it is the order of the trees.
-/

namespace AlLanguage.Library

universe u v

/-- Values, what each holds, and the addresses of contents that are shared. -/
structure SharedGraph (V : Type u) (K : Type v) where
  /-- The order of two values without what they hold. -/
  plain : V → V → Ordering
  held : V → Option (List V)
  address : V → Option K
  contents : K → List V
  weight : V → Nat
  held_address : ∀ v k, address v = some k → held v = some (contents k)
  plain_address : ∀ a b k, address a = some k → address b = some k → plain a b = .eq
  held_isSome : ∀ a b, plain a b = .eq → (held a).isSome = (held b).isSome
  address_isSome : ∀ a b, plain a b = .eq → (address a).isSome = (address b).isSome
  weight_pos : ∀ v, 2 ≤ weight v
  weight_held : ∀ v vs, address v = none → held v = some vs → (vs.map weight).sum + 2 ≤ weight v

/-- What comparing one pair gives: an order, or two rows to go on with. -/
inductive Visit (V : Type u) where
  | done (order : Ordering)
  | descend (left right : List V)

structure Walk (V : Type u) (K : Type v) where
  met : Finset (K × K)
  pending : List (List V × List V)

namespace Walk

variable {V : Type u} {K : Type v} (one : Finset (K × K) → V → V → Visit V × Finset (K × K))

/-- One turn of the loop: the order, or what is still to be compared. -/
def step (w : Walk V K) : Except Ordering (Walk V K) :=
  match w.pending with
  | [] => .error .eq
  | ([], []) :: rest => .ok { w with pending := rest }
  | ([], _ :: _) :: _ => .error .lt
  | (_ :: _, []) :: _ => .error .gt
  | (a :: as, b :: bs) :: rest =>
    match one w.met a b with
    | (.done .eq, met) => .ok ⟨met, (as, bs) :: rest⟩
    | (.done order, _) => .error order
    | (.descend left right, met) => .ok ⟨met, (left, right) :: (as, bs) :: rest⟩

/-- So many turns. -/
def advance : Nat → Walk V K → Except Ordering (Walk V K)
  | 0, w => .ok w
  | n + 1, w => (step one w).bind (advance n)

/-- The loop, which asks before each turn whether it is cancelled and then answers that the values are equal. -/
def loop (cancelled : Nat → Bool) : Nat → Nat → Walk V K → Option Ordering
  | 0, _, _ => none
  | fuel + 1, turn, w =>
    if w.pending = [] then some .eq
    else if cancelled turn then some .eq
    else
      match step one w with
      | .error order => some order
      | .ok next => loop cancelled fuel (turn + 1) next

def compareWithin (cancelled : Nat → Bool) (fuel : Nat) (left right : V) : Option Ordering :=
  match one ∅ left right with
  | (.done order, _) => some order
  | (.descend ls rs, met) => loop one cancelled fuel 0 ⟨met, [(ls, rs)]⟩

variable {one} {cancelled : Nat → Bool}

theorem advance_add (m n : Nat) (w : Walk V K) : advance one (m + n) w = (advance one m w).bind (advance one n) := by
  induction m generalizing w with
  | zero =>
      rw [Nat.zero_add]
      rfl
  | succ m ih =>
      rw [Nat.succ_add, advance, advance]
      cases step one w with
      | error => rfl
      | ok next => exact ih next

/-- A walk that ends within so many turns gives an order, and that of the turns when it is not cancelled. -/
theorem loop_of_advance {fuel : Nat} {w : Walk V K} {order : Ordering} (ends : advance one fuel w = .error order) (turn : Nat) :
    ∃ answer, loop one cancelled fuel turn w = some answer ∧ ((∀ i, cancelled i = false) → answer = order) := by
  induction fuel generalizing w turn with
  | zero => cases ends
  | succ fuel ih =>
      rw [advance] at ends
      unfold loop
      split
      next finished =>
        refine ⟨.eq, rfl, fun _ => ?_⟩
        rw [step, finished] at ends
        exact Except.error.inj ends
      next =>
        split
        next stopped => exact ⟨.eq, rfl, fun quiet => absurd stopped (by simp [quiet])⟩
        next =>
          cases taken : step one w with
          | error answer =>
              rw [taken] at ends
              exact ⟨answer, rfl, fun _ => Except.error.inj ends⟩
          | ok next =>
              rw [taken] at ends
              exact ih ends (turn + 1)

theorem loop_mono {fuel more turn : Nat} {w : Walk V K} {answer : Ordering} (found : loop one cancelled fuel turn w = some answer)
    (le : fuel ≤ more) : loop one cancelled more turn w = some answer := by
  induction fuel generalizing more turn w with
  | zero => cases found
  | succ fuel ih =>
      cases more with
      | zero => omega
      | succ more =>
          unfold loop at found ⊢
          split
          next finished => rwa [if_pos finished] at found
          next unfinished =>
            rw [if_neg unfinished] at found
            split
            next stopped => rwa [if_pos stopped] at found
            next going =>
              rw [if_neg going] at found
              cases taken : step one w with
              | error order => rwa [taken] at found
              | ok next =>
                  rw [taken] at found
                  exact ih found (by omega)

theorem compareWithin_mono {fuel more : Nat} {left right : V} {answer : Ordering}
    (found : compareWithin one cancelled fuel left right = some answer) (le : fuel ≤ more) :
    compareWithin one cancelled more left right = some answer := by
  unfold compareWithin at found ⊢
  split at found
  next => exact found
  next => exact loop_mono found le

end Walk

namespace SharedGraph

variable {V : Type u} {K : Type v} [DecidableEq K] (g : SharedGraph V K)

/-- Compare two values without what they hold, and go on with what they hold unless they share it or met before. -/
def visit (met : Finset (K × K)) (a b : V) : Visit V × Finset (K × K) :=
  match g.plain a b with
  | .eq =>
    match g.held a, g.held b with
    | some ls, some rs =>
      match g.address a, g.address b with
      | some k, some l =>
        if k = l ∨ (k, l) ∈ met then (.done .eq, met) else (.descend ls rs, insert (k, l) met)
      | _, _ => (.descend ls rs, met)
    | _, _ => (.done .eq, met)
  | order => (.done order, met)

/-! ## The comparison ends -/

section Ends

variable [Fintype K]

def rowWeight (vs : List V) : Nat := (vs.map g.weight).sum

def heaviest : Nat := Finset.univ.sum fun k => g.rowWeight (g.contents k)

omit [DecidableEq K] in
theorem rowWeight_contents (k : K) : g.rowWeight (g.contents k) ≤ g.heaviest :=
  Finset.single_le_sum (f := fun k => g.rowWeight (g.contents k)) (fun _ _ => Nat.zero_le _) (Finset.mem_univ k)

/-- Every turn takes from it: a row ends, a value is done with, or a pair is met that was not met before. -/
def potential (w : Walk V K) : Nat :=
  (Fintype.card (K × K) - w.met.card) * g.heaviest + (w.pending.map fun rows => g.rowWeight rows.1 + 1).sum

omit [Fintype K] in
theorem visit_done {met met' : Finset (K × K)} {a b : V} {order : Ordering} (visited : g.visit met a b = (.done order, met')) :
    met' = met := by
  unfold visit at visited
  repeat' split at visited
  all_goals cases visited
  all_goals rfl

theorem potential_visit {met met' : Finset (K × K)} {a b : V} {ls rs : List V}
    (visited : g.visit met a b = (.descend ls rs, met')) :
    (Fintype.card (K × K) - met'.card) * g.heaviest + g.rowWeight ls + 2 ≤
      (Fintype.card (K × K) - met.card) * g.heaviest + g.weight a := by
  unfold visit at visited
  split at visited
  next same =>
    split at visited
    next ls' rs' left right =>
      split at visited
      next k l leftAt rightAt =>
        split at visited
        next => cases visited
        next fresh =>
          cases visited
          have contents : ls = g.contents k := Option.some.inj (left.symm.trans (g.held_address a k leftAt))
          have heavy := g.rowWeight_contents k
          have unmet : (k, l) ∉ met := fun member => fresh (.inr member)
          have room := Finset.card_le_univ (insert (k, l) met)
          have positive := g.weight_pos a
          rw [Finset.card_insert_of_notMem unmet] at room ⊢
          have split : Fintype.card (K × K) - met.card = Fintype.card (K × K) - (met.card + 1) + 1 := by omega
          rw [split, Nat.succ_mul, contents]
          omega
      next apart =>
        cases visited
        have unshared : g.address a = none := by
          have both := g.address_isSome a b same
          cases leftAt : g.address a with
          | none => rfl
          | some k =>
              rw [leftAt] at both
              obtain ⟨l, rightAt⟩ := Option.isSome_iff_exists.mp both.symm
              exact absurd rightAt (apart k l leftAt)
        have light := g.weight_held a ls unshared left
        unfold rowWeight
        omega
    next => cases visited
  next => cases visited

theorem potential_step {w next : Walk V K} (taken : Walk.step g.visit w = .ok next) : g.potential next < g.potential w := by
  obtain ⟨met, pending⟩ := w
  unfold Walk.step at taken
  split at taken
  next => cases taken
  next rest pendingIs =>
    cases taken
    cases pendingIs
    simp [potential]
  next => cases taken
  next => cases taken
  next a as b bs rest pendingIs =>
    cases pendingIs
    have positive := g.weight_pos a
    split at taken
    next met' visited =>
      cases taken
      cases g.visit_done visited
      simp only [potential, rowWeight, List.map_cons, List.sum_cons]
      omega
    next => cases taken
    next ls rs met' visited =>
      cases taken
      have lighter := g.potential_visit visited
      simp only [potential, rowWeight, List.map_cons, List.sum_cons] at lighter ⊢
      omega

theorem advance_ends {n : Nat} {w : Walk V K} (enough : g.potential w < n) : ∃ order, Walk.advance g.visit n w = .error order := by
  induction n generalizing w with
  | zero => omega
  | succ n ih =>
      rw [Walk.advance]
      cases taken : Walk.step g.visit w with
      | error order => exact ⟨order, rfl⟩
      | ok next => exact ih (Nat.lt_of_lt_of_le (g.potential_step taken) (Nat.le_of_lt_succ enough))

/-- So many turns are enough for a comparison with this left value. -/
def enough (left : V) : Nat := Fintype.card (K × K) * g.heaviest + g.weight left + 1

theorem compareWithin_isSome (cancelled : Nat → Bool) {fuel : Nat} (left right : V) (le : g.enough left ≤ fuel) :
    ∃ answer, Walk.compareWithin g.visit cancelled fuel left right = some answer := by
  unfold Walk.compareWithin
  split
  next order _ _ => exact ⟨order, rfl⟩
  next ls rs met visited =>
    have lighter := g.potential_visit visited
    have bound : g.potential ⟨met, [(ls, rs)]⟩ < fuel := by
      simp only [enough] at le
      simp only [potential, List.map_cons, List.map_nil, List.sum_cons, List.sum_nil]
      rw [Finset.card_empty, Nat.sub_zero] at lighter
      omega
    obtain ⟨order, ends⟩ := g.advance_ends bound
    obtain ⟨answer, found, _⟩ := Walk.loop_of_advance ends 0
    exact ⟨answer, found⟩

end Ends

/-! ## Unfolding -/

section Unfolding

omit [DecidableEq K]

mutual

/-- The tree of a value, with all that it holds. -/
def Unfolds : Tree V → V → Prop
  | .node label kids, v => label = v ∧ UnfoldsAll kids ((g.held v).getD [])

def UnfoldsAll : List (Tree V) → List V → Prop
  | [], [] => True
  | t :: ts, v :: vs => Unfolds t v ∧ UnfoldsAll ts vs
  | _, _ => False

end

variable {g}

theorem unfolds_iff {t : Tree V} {v : V} : g.Unfolds t v ↔ t.label = v ∧ g.UnfoldsAll t.kids ((g.held v).getD []) := by
  cases t
  exact Iff.rfl

theorem unfoldsAll_nil {ts : List (Tree V)} (unfolds : g.UnfoldsAll ts []) : ts = [] := by
  cases ts with
  | nil => rfl
  | cons => cases unfolds

theorem unfoldsAll_unique {ss : List (Tree V)} (each : ∀ s ∈ ss, ∀ t v, g.Unfolds s v → g.Unfolds t v → s = t)
    {ts : List (Tree V)} {vs : List V} (first : g.UnfoldsAll ss vs) (second : g.UnfoldsAll ts vs) : ss = ts := by
  induction ss generalizing ts vs with
  | nil =>
      cases vs with
      | nil =>
          cases ts with
          | nil => rfl
          | cons => cases second
      | cons => cases first
  | cons s ss ih =>
      cases vs with
      | nil => cases first
      | cons v vs =>
          cases ts with
          | nil => cases second
          | cons t ts =>
              rw [each s (List.mem_cons_self ..) t v first.1 second.1,
                ih (fun w member => each w (List.mem_cons_of_mem _ member)) first.2 second.2]

theorem unfolds_unique {s t : Tree V} {v : V} (first : g.Unfolds s v) (second : g.Unfolds t v) : s = t := by
  induction s using Tree.induction_kids generalizing t v with
  | step s ih =>
      cases s with
      | node a as =>
          cases t with
          | node b bs =>
              have kids : as = bs := unfoldsAll_unique (fun s member t v => ih s member) first.2 second.2
              rw [first.1, second.1, kids]

theorem unfoldsAll_kids_unique {ss ts : List (Tree V)} {vs : List V} (first : g.UnfoldsAll ss vs) (second : g.UnfoldsAll ts vs) :
    ss = ts :=
  unfoldsAll_unique (fun _ _ _ _ => unfolds_unique) first second

/-- Some value of the tree is at the address. -/
inductive Meets (g : SharedGraph V K) (k : K) : Tree V → Prop
  | here {t : Tree V} : g.address t.label = some k → Meets g k t
  | inside {s t : Tree V} : s ∈ t.kids → Meets g k s → Meets g k t

theorem mem_unfoldsAll {ts : List (Tree V)} {vs : List V} (unfolds : g.UnfoldsAll ts vs) {t : Tree V} (member : t ∈ ts) :
    ∃ v ∈ vs, g.Unfolds t v := by
  induction ts generalizing vs with
  | nil => cases member
  | cons s ts ih =>
      cases vs with
      | nil => cases unfolds
      | cons v vs =>
          rcases List.mem_cons.mp member with rfl | later
          · exact ⟨v, List.mem_cons_self .., unfolds.1⟩
          · obtain ⟨w, held, is⟩ := ih unfolds.2 later
            exact ⟨w, List.mem_cons_of_mem _ held, is⟩

theorem Meets.subtree {k : K} {t : Tree V} (meets : g.Meets k t) {v : V} (unfolds : g.Unfolds t v) :
    ∃ s w, g.Unfolds s w ∧ g.address w = some k ∧ sizeOf s ≤ sizeOf t := by
  induction meets generalizing v with
  | @here t at_ => exact ⟨t, v, unfolds, (unfolds_iff.mp unfolds).1 ▸ at_, Nat.le_refl _⟩
  | inside member _ ih =>
      obtain ⟨w, _, is⟩ := mem_unfoldsAll (unfolds_iff.mp unfolds).2 member
      obtain ⟨s, x, sub, at_, smaller⟩ := ih is
      exact ⟨s, x, sub, at_, Nat.le_trans smaller (Nat.le_of_lt (Tree.sizeOf_kids member))⟩

/-- A tree does not meet its own address further inside. -/
theorem not_meets_kids {k : K} {t : Tree V} {v : V} (unfolds : g.Unfolds t v) (at_ : g.address v = some k) {s : Tree V}
    (member : s ∈ t.kids) : ¬ g.Meets k s := by
  intro meets
  obtain ⟨w, _, is⟩ := mem_unfoldsAll (unfolds_iff.mp unfolds).2 member
  obtain ⟨r, x, sub, again, smaller⟩ := meets.subtree is
  have kids : r.kids = t.kids := by
    have first := (unfolds_iff.mp sub).2
    have second := (unfolds_iff.mp unfolds).2
    rw [g.held_address x k again] at first
    rw [g.held_address v k at_] at second
    exact unfoldsAll_kids_unique first second
  have inside : sizeOf s < sizeOf r := Tree.sizeOf_kids (kids ▸ member)
  omega

end Unfolding

/-! ## The order of the trees -/

section Order

/-- Whatever is at the two addresses is equal. -/
def Same (p : K × K) : Prop :=
  ∀ s t a b, g.address a = some p.1 → g.address b = some p.2 → g.Unfolds s a → g.Unfolds t b → Tree.compare g.plain s t = .eq

/-- What was met and comes again is equal. -/
def Settled (met : Finset (K × K)) (ts : List (Tree V)) : Prop := ∀ p ∈ met, ∀ t ∈ ts, g.Meets p.1 t → g.Same p

variable {g}

omit [DecidableEq K] in
theorem Settled.mono {met met' : Finset (K × K)} {ss ts : List (Tree V)} (settled : g.Settled met ss)
    (known : ∀ p ∈ met', p ∈ met ∨ g.Same p) (fewer : ∀ t ∈ ts, t ∈ ss) : g.Settled met' ts := by
  intro p member t within meets
  rcases known p member with before | same
  · exact settled p before t (fewer t within) meets
  · exact same

omit [DecidableEq K] in
theorem compare_of_kids {s t : Tree V} (plain : g.plain s.label t.label = .eq) :
    Tree.compare g.plain s t = Tree.compareAll g.plain s.kids t.kids := by
  rw [Tree.compare_eq, plain]
  rfl

omit [DecidableEq K] in
theorem kids_of_address {s t : Tree V} {a b : V} {k : K} (left : g.Unfolds s a) (right : g.Unfolds t b) (leftAt : g.address a = some k)
    (rightAt : g.address b = some k) : s.kids = t.kids := by
  have first := (unfolds_iff.mp left).2
  have second := (unfolds_iff.mp right).2
  rw [g.held_address a k leftAt] at first
  rw [g.held_address b k rightAt] at second
  exact unfoldsAll_kids_unique first second

variable [Std.TransCmp g.plain]

omit [DecidableEq K] in
theorem compareAll_refl (ts : List (Tree V)) : Tree.compareAll g.plain ts ts = .eq := by
  induction ts with
  | nil => rfl
  | cons t ts ih =>
      have self : Tree.compare g.plain t t = .eq := Std.ReflCmp.compare_self
      rw [Tree.compareAll, self, ih]
      rfl

omit [DecidableEq K] in
/-- Contents that were found equal are equal wherever they are met again. -/
theorem same_of_kids {s t : Tree V} {a b : V} {k l : K} (left : g.Unfolds s a) (right : g.Unfolds t b)
    (leftAt : g.address a = some k) (rightAt : g.address b = some l) (equal : Tree.compare g.plain s t = .eq) : g.Same (k, l) := by
  intro s' t' a' b' leftAt' rightAt' left' right'
  have first : Tree.compare g.plain s' s = .eq := by
    rw [compare_of_kids, kids_of_address left' left leftAt' leftAt, compareAll_refl]
    rw [(unfolds_iff.mp left').1, (unfolds_iff.mp left).1]
    exact g.plain_address a' a k leftAt' leftAt
  have second : Tree.compare g.plain t t' = .eq := by
    rw [compare_of_kids, kids_of_address right right' rightAt rightAt', compareAll_refl]
    rw [(unfolds_iff.mp right).1, (unfolds_iff.mp right').1]
    exact g.plain_address b b' l rightAt rightAt'
  exact Std.TransCmp.eq_trans (Std.TransCmp.eq_trans first equal) second

end Order

/-! ## The comparison of trees -/

section Compares

theorem visit_cases (met : Finset (K × K)) (a b : V) :
    (g.plain a b ≠ .eq ∧ g.visit met a b = (.done (g.plain a b), met)) ∨
    (g.plain a b = .eq ∧ g.held a = none ∧ g.held b = none ∧ g.visit met a b = (.done .eq, met)) ∨
    (g.plain a b = .eq ∧ ∃ k l, g.address a = some k ∧ g.address b = some l ∧ (k = l ∨ (k, l) ∈ met) ∧
      g.visit met a b = (.done .eq, met)) ∨
    (g.plain a b = .eq ∧ ∃ ls rs met', g.held a = some ls ∧ g.held b = some rs ∧ g.visit met a b = (.descend ls rs, met') ∧
      (met' = met ∨ ∃ k l, g.address a = some k ∧ g.address b = some l ∧ met' = insert (k, l) met)) := by
  by_cases same : g.plain a b = .eq
  · right
    have both := g.held_isSome a b same
    unfold visit
    rw [same]
    cases left : g.held a with
    | none =>
        rw [left, Option.isSome_none, Eq.comm, Option.isSome_eq_false_iff, Option.isNone_iff_eq_none] at both
        exact .inl ⟨rfl, rfl, both, by rw [both]⟩
    | some ls =>
        rw [left, Option.isSome_some, Eq.comm, Option.isSome_iff_exists] at both
        obtain ⟨rs, right⟩ := both
        right
        rw [right]
        dsimp only
        split
        next k l leftAt rightAt =>
          split
          next met' => exact .inl ⟨rfl, k, l, leftAt, rightAt, met', rfl⟩
          next => exact .inr ⟨rfl, ls, rs, _, rfl, rfl, rfl, .inr ⟨k, l, leftAt, rightAt, rfl⟩⟩
        next => exact .inr ⟨rfl, ls, rs, met, rfl, rfl, rfl, .inl rfl⟩
  · left
    refine ⟨same, ?_⟩
    unfold visit
    split
    next equal => exact absurd equal same
    next => rfl

/-- The walk gives the order, or is done with what is equal and has met only pairs that are equal. -/
def Outcome (order : Ordering) (w : Walk V K) (rest : List (List V × List V)) : Prop :=
  (order ≠ .eq → ∃ n, Walk.advance g.visit n w = .error order) ∧
    (order = .eq → ∃ n met', Walk.advance g.visit n w = .ok ⟨met', rest⟩ ∧ ∀ p ∈ met', p ∈ w.met ∨ g.Same p)

variable {g}

theorem Outcome.trans {order : Ordering} {w next : Walk V K} {rest : List (List V × List V)} {n : Nat}
    (leads : Walk.advance g.visit n w = .ok next) (met : ∀ p ∈ next.met, p ∈ w.met ∨ g.Same p)
    (outcome : g.Outcome order next rest) : g.Outcome order w rest := by
  constructor
  · intro different
    obtain ⟨m, ends⟩ := outcome.1 different
    exact ⟨n + m, by rw [Walk.advance_add, leads]; exact ends⟩
  · intro equal
    obtain ⟨m, met', ends, known⟩ := outcome.2 equal
    refine ⟨n + m, met', by rw [Walk.advance_add, leads]; exact ends, fun p member => ?_⟩
    rcases known p member with before | same
    · exact met p before
    · exact .inr same

theorem outcome_row {ss : List (Tree V)}
    (each : ∀ s ∈ ss, ∀ t a b as bs met rest, g.Unfolds s a → g.Unfolds t b → g.Settled met [s] →
      g.Outcome (Tree.compare g.plain s t) ⟨met, (a :: as, b :: bs) :: rest⟩ ((as, bs) :: rest))
    {ts : List (Tree V)} {as bs : List V} {met : Finset (K × K)} {rest : List (List V × List V)} (left : g.UnfoldsAll ss as)
    (right : g.UnfoldsAll ts bs) (settled : g.Settled met ss) :
    g.Outcome (Tree.compareAll g.plain ss ts) ⟨met, (as, bs) :: rest⟩ rest := by
  induction ss generalizing ts as bs met with
  | nil =>
      cases as with
      | cons => cases left
      | nil =>
          cases ts with
          | nil =>
              cases bs with
              | cons => cases right
              | nil => exact ⟨fun different => absurd rfl different, fun _ => ⟨1, met, rfl, fun p member => .inl member⟩⟩
          | cons t ts =>
              cases bs with
              | nil => cases right
              | cons b bs => exact ⟨fun _ => ⟨1, rfl⟩, fun equal => by cases equal⟩
  | cons s ss ih =>
      cases as with
      | nil => cases left
      | cons a as =>
          cases ts with
          | nil =>
              cases bs with
              | cons => cases right
              | nil => exact ⟨fun _ => ⟨1, rfl⟩, fun equal => by cases equal⟩
          | cons t ts =>
              cases bs with
              | nil => cases right
              | cons b bs =>
                  have first := each s (List.mem_cons_self ..) t a b as bs met rest left.1 right.1
                    (settled.mono (fun p member => .inl member) (by simp))
                  rw [Tree.compareAll]
                  by_cases equal : Tree.compare g.plain s t = .eq
                  · rw [equal]
                    obtain ⟨n, met', leads, known⟩ := first.2 equal
                    apply Outcome.trans leads known
                    apply ih (fun s member => each s (List.mem_cons_of_mem _ member)) left.2 right.2
                    exact settled.mono known fun t member => List.mem_cons_of_mem _ member
                  · have order : (Tree.compare g.plain s t).then (Tree.compareAll g.plain ss ts) = Tree.compare g.plain s t := by
                      cases result : Tree.compare g.plain s t with
                      | eq => exact absurd result equal
                      | lt => rfl
                      | gt => rfl
                    rw [order]
                    exact ⟨first.1, fun same => absurd same equal⟩

variable [Std.TransCmp g.plain]

/-- One pair of values that unfold to trees is done with the order of the trees, or goes on with their children. -/
theorem visit_unfolds {s t : Tree V} {a b : V} {met : Finset (K × K)} (left : g.Unfolds s a) (right : g.Unfolds t b)
    (settled : g.Settled met [s]) :
    g.visit met a b = (.done (Tree.compare g.plain s t), met) ∨
    ∃ ls rs met', g.visit met a b = (.descend ls rs, met') ∧ g.UnfoldsAll s.kids ls ∧ g.UnfoldsAll t.kids rs ∧
      g.Settled met' s.kids ∧ Tree.compare g.plain s t = Tree.compareAll g.plain s.kids t.kids ∧
      (Tree.compare g.plain s t = .eq → ∀ p ∈ met', p ∈ met ∨ g.Same p) := by
  obtain ⟨leftLabel, leftKids⟩ := unfolds_iff.mp left
  obtain ⟨rightLabel, rightKids⟩ := unfolds_iff.mp right
  rcases g.visit_cases met a b with ⟨different, visited⟩ | ⟨same, none, none', visited⟩ |
    ⟨same, k, l, leftAt, rightAt, known, visited⟩ | ⟨same, ls, rs, met', leftHeld, rightHeld, visited, grown⟩
  · left
    have order : Tree.compare g.plain s t = g.plain a b := by
      rw [Tree.compare_eq, leftLabel, rightLabel]
      cases result : g.plain a b with
      | eq => exact absurd result different
      | lt => rfl
      | gt => rfl
    rw [visited, order]
  · left
    rw [none, Option.getD_none] at leftKids
    rw [none', Option.getD_none] at rightKids
    rw [visited, compare_of_kids (by rw [leftLabel, rightLabel, same]), unfoldsAll_nil leftKids, unfoldsAll_nil rightKids]
    rfl
  · left
    have equal : Tree.compare g.plain s t = .eq := by
      rcases known with rfl | member
      · rw [compare_of_kids (by rw [leftLabel, rightLabel, same]), kids_of_address left right leftAt rightAt, compareAll_refl]
      · have meets : g.Meets k s := .here (leftLabel ▸ leftAt)
        exact settled (k, l) member s (List.mem_singleton_self s) meets s t a b leftAt rightAt left right
    rw [visited, equal]
  · right
    rw [leftHeld, Option.getD_some] at leftKids
    rw [rightHeld, Option.getD_some] at rightKids
    refine ⟨ls, rs, met', visited, leftKids, rightKids, ?_, compare_of_kids (by rw [leftLabel, rightLabel, same]), ?_⟩
    · intro p member u within meets
      rcases grown with rfl | ⟨k, l, leftAt, rightAt, rfl⟩
      · exact settled p member s (List.mem_singleton_self s) (.inside within meets)
      · rcases Finset.mem_insert.mp member with rfl | before
        · exact absurd meets (not_meets_kids left leftAt within)
        · exact settled p before s (List.mem_singleton_self s) (.inside within meets)
    · intro equal p member
      rcases grown with rfl | ⟨k, l, leftAt, rightAt, rfl⟩
      · exact .inl member
      · rcases Finset.mem_insert.mp member with rfl | before
        · exact .inr (same_of_kids left right leftAt rightAt equal)
        · exact .inl before

/-- Two values that unfold to trees: the pairs that are being compared do not come again inside, and those that were compared are
equal. -/
theorem outcome_value (s : Tree V) : ∀ t a b as bs met rest, g.Unfolds s a → g.Unfolds t b → g.Settled met [s] →
    g.Outcome (Tree.compare g.plain s t) ⟨met, (a :: as, b :: bs) :: rest⟩ ((as, bs) :: rest) := by
  induction s using Tree.induction_kids with
  | step s ih =>
      intro t a b as bs met rest left right settled
      rcases visit_unfolds left right settled with visited | ⟨ls, rs, met', visited, leftKids, rightKids, settledKids, kids, known⟩
      · cases order : Tree.compare g.plain s t with
        | eq =>
            refine ⟨fun different => absurd rfl different, fun _ => ⟨1, met, ?_, fun p member => .inl member⟩⟩
            simp only [Walk.advance, Walk.step, visited, order]
            rfl
        | lt =>
            refine ⟨fun _ => ⟨1, ?_⟩, fun equal => by cases equal⟩
            simp only [Walk.advance, Walk.step, visited, order]
            rfl
        | gt =>
            refine ⟨fun _ => ⟨1, ?_⟩, fun equal => by cases equal⟩
            simp only [Walk.advance, Walk.step, visited, order]
            rfl
      · have step : Walk.advance g.visit 1 ⟨met, (a :: as, b :: bs) :: rest⟩ = .ok ⟨met', (ls, rs) :: (as, bs) :: rest⟩ := by
          simp only [Walk.advance, Walk.step, visited]
          rfl
        have row : g.Outcome (Tree.compareAll g.plain s.kids t.kids) ⟨met', (ls, rs) :: (as, bs) :: rest⟩ ((as, bs) :: rest) :=
          outcome_row ih leftKids rightKids settledKids
        rw [kids] at known ⊢
        by_cases equal : Tree.compareAll g.plain s.kids t.kids = .eq
        · exact Outcome.trans step (known equal) row
        · refine ⟨fun _ => ?_, fun same => absurd same equal⟩
          obtain ⟨n, ends⟩ := row.1 equal
          exact ⟨1 + n, by rw [Walk.advance_add, step]; exact ends⟩

/-- A comparison that is not cancelled gives the order of the trees. -/
theorem compareWithin_unfolds {s t : Tree V} {left right : V} (leftTree : g.Unfolds s left) (rightTree : g.Unfolds t right)
    {cancelled : Nat → Bool} (quiet : ∀ i, cancelled i = false) {fuel : Nat} {answer : Ordering}
    (found : Walk.compareWithin g.visit cancelled fuel left right = some answer) : answer = Tree.compare g.plain s t := by
  have empty : g.Settled ∅ [s] := fun p member => absurd member (Finset.notMem_empty p)
  unfold Walk.compareWithin at found
  rcases visit_unfolds leftTree rightTree empty with visited | ⟨ls, rs, met, visited, leftKids, rightKids, settled, kids, _⟩
  · rw [visited] at found
    exact (Option.some.inj found).symm
  · rw [visited] at found
    have row : g.Outcome (Tree.compareAll g.plain s.kids t.kids) ⟨met, [(ls, rs)]⟩ [] :=
      outcome_row (fun s _ => outcome_value s) leftKids rightKids settled
    have ends : ∃ n, Walk.advance g.visit n ⟨met, [(ls, rs)]⟩ = .error (Tree.compare g.plain s t) := by
      rw [kids]
      by_cases equal : Tree.compareAll g.plain s.kids t.kids = .eq
      · obtain ⟨n, met', done, _⟩ := row.2 equal
        exact ⟨n + 1, by rw [Walk.advance_add, done, equal]; rfl⟩
      · exact row.1 equal
    obtain ⟨n, ends⟩ := ends
    obtain ⟨answer', reached, is⟩ := @Walk.loop_of_advance _ _ _ cancelled _ _ _ ends 0
    have long := Walk.loop_mono found (Nat.le_max_left fuel n)
    have long' := Walk.loop_mono reached (Nat.le_max_right fuel n)
    rw [← is quiet]
    exact Option.some.inj (long.symm.trans long')

end Compares

/-! ## Values without a cycle -/

section Acyclic

omit [DecidableEq K]

def Holds (v w : V) : Prop := ∃ vs, g.held v = some vs ∧ w ∈ vs

/-- No address that the value leads to leads to itself. -/
def Acyclic (v : V) : Prop :=
  ∀ w k, Relation.ReflTransGen g.Holds v w → g.address w = some k → ∀ x, Relation.TransGen g.Holds w x → g.address x ≠ some k

variable {g}

theorem Acyclic.held {v w : V} (acyclic : g.Acyclic v) (held : g.Holds v w) : g.Acyclic w :=
  fun x k leads => acyclic x k (leads.head held)

theorem unfoldsAll_of_each {vs : List V} (each : ∀ v ∈ vs, ∃ t, g.Unfolds t v) : ∃ ts, g.UnfoldsAll ts vs := by
  induction vs with
  | nil => exact ⟨[], trivial⟩
  | cons v vs ih =>
      obtain ⟨t, first⟩ := each v (List.mem_cons_self ..)
      obtain ⟨ts, rest⟩ := ih fun w member => each w (List.mem_cons_of_mem _ member)
      exact ⟨t :: ts, first, rest⟩

theorem unfolds_of_held {v : V} (each : ∀ w, g.Holds v w → ∃ t, g.Unfolds t w) : ∃ t, g.Unfolds t v := by
  have row : ∃ ts, g.UnfoldsAll ts ((g.held v).getD []) := by
    cases held : g.held v with
    | none => exact ⟨[], trivial⟩
    | some vs => exact unfoldsAll_of_each fun w member => each w ⟨vs, held, member⟩
  obtain ⟨ts, kids⟩ := row
  exact ⟨.node v ts, rfl, kids⟩

/-- Every step down meets fewer addresses, or stays between addresses and meets a lighter value. -/
theorem acyclic_unfolds_within [DecidableEq K] (n : Nat) : ∀ (S : Finset K), S.card = n → ∀ m v, g.weight v = m → g.Acyclic v →
    (∀ w k, Relation.ReflTransGen g.Holds v w → g.address w = some k → k ∈ S) → ∃ t, g.Unfolds t v := by
  induction n using Nat.strong_induction_on with
  | h n fewer =>
      intro S card m
      induction m using Nat.strong_induction_on with
      | h m lighter =>
          intro v weight acyclic within
          apply unfolds_of_held
          intro w holds
          cases at_ : g.address v with
          | none =>
              obtain ⟨vs, held, member⟩ := holds
              have light := g.weight_held v vs at_ held
              have least := List.single_le_sum (by simp) (g.weight w) (List.mem_map_of_mem member)
              exact lighter (g.weight w) (by omega) w rfl (acyclic.held ⟨vs, held, member⟩)
                fun x k leads => within x k (leads.head ⟨vs, held, member⟩)
          | some k =>
              have own : k ∈ S := within v k .refl at_
              apply fewer (S.erase k).card (card ▸ Finset.card_erase_lt_of_mem own) (S.erase k) rfl (g.weight w) w rfl
                (acyclic.held holds)
              intro x l leads address
              apply Finset.mem_erase.mpr
              refine ⟨?_, within x l (leads.head holds) address⟩
              rintro rfl
              exact acyclic v l .refl at_ x (Relation.TransGen.head' holds leads) address

theorem acyclic_unfolds [DecidableEq K] [Fintype K] {v : V} (acyclic : g.Acyclic v) : ∃ t, g.Unfolds t v :=
  acyclic_unfolds_within _ Finset.univ rfl _ v rfl acyclic fun _ k _ _ => Finset.mem_univ k

end Acyclic

end SharedGraph

end AlLanguage.Library
