import Mathlib

/-!
# Computations in lockstep

Two computations with states of their own that may fail to end. They run in lockstep when, from related states, both end in related
results and states or neither ends.
-/

namespace AlLanguage.Library

variable {γ δ α β α' β' : Type}

theorem bind_run (m : StateT γ Option α) (f : α → StateT γ Option β) (c : γ) : (m >>= f) c = (m c).bind fun x => f x.1 x.2 := rfl

/-! ## Related options -/

section Related

variable {r : α → β → Prop} {r' : α' → β' → Prop} {x : Option α} {y : Option β}

theorem rel_bind {f : α → Option α'} {g : β → Option β'} (related : Option.Rel r x y) (next : ∀ a b, r a b → Option.Rel r' (f a) (g b)) :
    Option.Rel r' (x.bind f) (y.bind g) := by
  cases related with
  | none => exact .none
  | some holds => exact next _ _ holds

theorem rel_mono {q : α → β → Prop} (related : Option.Rel r x y) (weaker : ∀ a b, r a b → q a b) : Option.Rel q x y := by
  cases related with
  | none => exact .none
  | some holds => exact .some (weaker _ _ holds)

theorem rel_map {f : α → α'} {g : β → β'} (related : Option.Rel r x y) (maps : ∀ a b, r a b → r' (f a) (g b)) :
    Option.Rel r' (x.map f) (y.map g) := by
  cases related with
  | none => exact .none
  | some holds => exact .some (maps _ _ holds)

theorem map_eq_of_rel {f : α → α'} {g : β → α'} (related : Option.Rel r x y) (maps : ∀ a b, r a b → f a = g b) : x.map f = y.map g := by
  cases related with
  | none => rfl
  | some holds => exact congrArg some (maps _ _ holds)

end Related

/-! ## Lockstep -/

def Lockstep (pre : γ → δ → Prop) (m : StateT γ Option α) (n : StateT δ Option β) (post : α → β → γ → δ → Prop) : Prop :=
  ∀ ⦃c s⦄, pre c s → Option.Rel (fun x y => post x.1 y.1 x.2 y.2) (m c) (n s)

/-- Equal results, and the relation of the states is kept. -/
def Alike (inv : γ → δ → Prop) (m : StateT γ Option α) (n : StateT δ Option α) : Prop :=
  Lockstep inv m n fun a b c s => a = b ∧ inv c s

namespace Lockstep

variable {pre pre' inv : γ → δ → Prop} {m : StateT γ Option α} {n : StateT δ Option β} {post post' : α → β → γ → δ → Prop}

theorem pure {a : α} {b : β} (holds : ∀ c s, pre c s → post a b c s) :
    Lockstep pre (Pure.pure a : StateT γ Option α) (Pure.pure b : StateT δ Option β) post :=
  fun c s related => .some (holds c s related)

theorem bind {f : α → StateT γ Option α'} {g : β → StateT δ Option β'} {final : α' → β' → γ → δ → Prop} (first : Lockstep pre m n post)
    (next : ∀ a b, Lockstep (post a b) (f a) (g b) final) : Lockstep pre (m >>= f) (n >>= g) final := by
  intro c s related
  rw [bind_run, bind_run]
  apply rel_bind (first related)
  intro x y holds
  exact next x.1 y.1 holds

theorem mono (run : Lockstep pre m n post) (before : ∀ c s, pre' c s → pre c s) (after : ∀ a b c s, post a b c s → post' a b c s) :
    Lockstep pre' m n post' := by
  intro c s related
  apply rel_mono (run (before c s related))
  intro x y
  exact after x.1 y.1 x.2 y.2

theorem modify {f : γ → γ} {g : δ → δ} {post : PUnit → PUnit → γ → δ → Prop} (holds : ∀ c s, pre c s → post () () (f c) (g s)) :
    Lockstep pre (modify f : StateT γ Option PUnit) (modify g : StateT δ Option PUnit) post :=
  fun c s related => .some (holds c s related)

/-- Facts that do not speak of the states can be assumed. -/
theorem given {p : Prop} (before : ∀ c s, pre c s → p) (run : p → Lockstep pre m n post) : Lockstep pre m n post :=
  fun c s related => run (before c s related) related

end Lockstep

/-! ## Computations with errors -/

/-- Both computations have results or both have the same error. -/
def Ended {ε : Type} (ok : α → β → γ → δ → Prop) (failed : ε → γ → δ → Prop) : Except ε α → Except ε β → γ → δ → Prop
  | .ok a, .ok b, c, s => ok a b c s
  | .error e, .error e', c, s => e = e' ∧ failed e c s
  | _, _, _, _ => False

theorem Ended.mono {ε : Type} {ok ok' : α → β → γ → δ → Prop} {failed failed' : ε → γ → δ → Prop} {a : Except ε α} {b : Except ε β} {c : γ} {s : δ}
    (ended : Ended ok failed a b c s) (results : ∀ a b, ok a b c s → ok' a b c s) (errors : ∀ e, failed e c s → failed' e c s) :
    Ended ok' failed' a b c s := by
  cases a with
  | error e =>
    cases b with
    | error e' => exact ⟨ended.1, errors e ended.2⟩
    | ok b => exact ended.elim
  | ok a =>
    cases b with
    | error e' => exact ended.elim
    | ok b => exact results a b ended

theorem Lockstep.bind_except {ε : Type} {pre : γ → δ → Prop} {m : ExceptT ε (StateT γ Option) α} {n : ExceptT ε (StateT δ Option) β}
    {ok : α → β → γ → δ → Prop} {failed : ε → γ → δ → Prop} {f : α → ExceptT ε (StateT γ Option) α'}
    {g : β → ExceptT ε (StateT δ Option) β'} {final : α' → β' → γ → δ → Prop} (first : Lockstep pre m.run n.run (Ended ok failed))
    (next : ∀ a b, Lockstep (ok a b) (f a).run (g b).run (Ended final failed)) :
    Lockstep pre (m >>= f).run (n >>= g).run (Ended final failed) := by
  rw [ExceptT.run_bind, ExceptT.run_bind]
  apply first.bind
  intro a b
  cases a with
  | error e =>
    cases b with
    | error e' => exact Lockstep.pure fun _ _ both => both
    | ok b => exact fun _ _ both => both.elim
  | ok a =>
    cases b with
    | error e' => exact fun _ _ both => both.elim
    | ok b => exact next a b

namespace Alike

variable {inv : γ → δ → Prop} {m : StateT γ Option α} {n : StateT δ Option α}

theorem pure (a : α) : Alike inv (Pure.pure a : StateT γ Option α) (Pure.pure a : StateT δ Option α) :=
  Lockstep.pure fun _ _ related => ⟨rfl, related⟩

theorem bind {f : α → StateT γ Option β} {g : α → StateT δ Option β} (first : Alike inv m n) (next : ∀ a, Alike inv (f a) (g a)) :
    Alike inv (m >>= f) (n >>= g) := by
  apply Lockstep.bind first
  intro a b c s related
  obtain ⟨rfl, related⟩ := related
  exact next a related

end Alike

end AlLanguage.Library
