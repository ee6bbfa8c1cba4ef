import AlLanguage.Library.Champions
import AlLanguage.Runtime.NumberText
import AlLanguage.Symbols.Loading

/-!
# Versions of packages

- Versions of dotted numbers are ordered like their components with zeros behind them. Other versions compare with themselves only.
- One package per identity is kept. It meets the dependencies of the others if their versions compare.
-/

namespace AlLanguage.Symbols

open Library AlLanguage.Runtime

/-! ## Dependencies -/

structure AppDependency where
  id : String
  name : String
  publisher : String
  version : String

def SymbolPackage.satisfiesDependency (pkg : SymbolPackage) (dependency : AppDependency) : Bool :=
  eqIgnoreAsciiCase pkg.appId dependency.id && versionAtLeast pkg.version dependency.version

/-! ## Components -/

/-- The components with zeros behind the shorter list. -/
def compareComponents (a b : List Nat) : Ordering :=
  compare (a.rightpad (max a.length b.length) 0) (b.rightpad (max a.length b.length) 0)

theorem compare_same (a : List Nat) : compare a a = .eq := Std.ReflCmp.compare_self

theorem compare_append {a b : List Nat} (length : a.length = b.length) (c : List Nat) : compare (a ++ c) (b ++ c) = compare a b := by
  induction a generalizing b with
  | nil =>
      rw [List.length_eq_zero_iff.mp length.symm]
      rw [List.nil_append, compare_same]
      rfl
  | cons x a ih =>
      cases b with
      | nil => cases length
      | cons y b =>
          rw [List.cons_append, List.cons_append, List.compare_cons_cons, List.compare_cons_cons, ih (Nat.succ.inj length)]

/-- More zeros make no difference. -/
theorem compare_rightpad {a b : List Nat} {width : Nat} (left : a.length ≤ width) (right : b.length ≤ width) :
    compare (a.rightpad width 0) (b.rightpad width 0) = compareComponents a b := by
  have more (c : List Nat) (short : c.length ≤ max a.length b.length) :
      c.rightpad width 0 = c.rightpad (max a.length b.length) 0 ++ List.replicate (width - max a.length b.length) 0 := by
    rw [List.rightpad, List.rightpad, List.append_assoc, List.replicate_append_replicate]
    congr 2
    omega
  rw [more a (Nat.le_max_left ..), more b (Nat.le_max_right ..), compare_append, compareComponents]
  rw [List.length_rightpad, List.length_rightpad]
  omega

theorem compareComponents_trans {a b c : List Nat} (first : (compareComponents a b).isLE) (second : (compareComponents b c).isLE) :
    (compareComponents a c).isLE := by
  have width : a.length ≤ max a.length (max b.length c.length) ∧ b.length ≤ max a.length (max b.length c.length) ∧
      c.length ≤ max a.length (max b.length c.length) := by omega
  rw [← compare_rightpad width.1 width.2.1] at first
  rw [← compare_rightpad width.2.1 width.2.2] at second
  rw [← compare_rightpad width.1 width.2.2]
  exact Std.TransCmp.isLE_trans first second

theorem compareComponents_total (a b : List Nat) : (compareComponents a b).isLE ∨ (compareComponents b a).isLE := by
  have swapped : compareComponents b a = (compareComponents a b).swap := by
    rw [compareComponents, compareComponents, Nat.max_comm]
    exact Std.OrientedCmp.eq_swap
  rw [swapped]
  cases compareComponents a b <;> simp

/-- Components that are left out count as zero. -/
theorem compareComponents_zeros (a : List Nat) (zeros : Nat) : compareComponents a (a ++ List.replicate zeros 0) = .eq := by
  have padded : a.rightpad (max a.length (a ++ List.replicate zeros 0).length) 0 =
      (a ++ List.replicate zeros 0).rightpad (max a.length (a ++ List.replicate zeros 0).length) 0 := by
    rw [List.rightpad, List.rightpad, List.append_assoc, List.replicate_append_replicate, List.length_append, List.length_replicate]
    congr 2
    omega
  rw [compareComponents, padded]
  exact compare_same _

/-! ## Versions -/

theorem mem_splitOn {separator c : Char} {text : List Char} (member : c ∈ text) :
    c = separator ∨ ∃ part ∈ text.splitOn separator, c ∈ part := by
  induction text with
  | nil => cases member
  | cons d rest ih =>
      rw [List.splitOn_cons_eq_if_modifyHead]
      obtain ⟨first, later, is⟩ := List.exists_cons_of_ne_nil (List.splitOn_ne_nil separator rest)
      rw [is] at ih ⊢
      by_cases cut : d = separator
      · rcases List.mem_cons.mp member with rfl | inside
        · exact .inl cut
        · rcases ih inside with same | ⟨part, there, within⟩
          · exact .inl same
          · exact .inr ⟨part, by simpa [cut] using .inr (List.mem_cons.mp there), within⟩
      · rcases List.mem_cons.mp member with rfl | inside
        · exact .inr ⟨c :: first, by simp [cut], List.mem_cons_self⟩
        · rcases ih inside with same | ⟨part, there, within⟩
          · exact .inl same
          · rcases List.mem_cons.mp there with rfl | behind
            · exact .inr ⟨d :: part, by simp [cut], List.mem_cons_of_mem _ within⟩
            · exact .inr ⟨part, by simp [cut, behind], within⟩

theorem parts_of_mapM {β : Type} {f : List Char → Option β} {texts : List (List Char)} {values : List β}
    (read : texts.mapM f = some values) : ∀ text ∈ texts, (f text).isSome := by
  induction texts generalizing values with
  | nil => simp
  | cons text texts ih =>
      rw [List.mapM_cons] at read
      cases first : f text with
      | none =>
          rw [first] at read
          cases read
      | some value =>
          rw [first] at read
          cases rest : texts.mapM f with
          | none =>
              rw [rest] at read
              cases read
          | some later =>
              intro other member
              rcases List.mem_cons.mp member with rfl | inside
              · rw [first]
                rfl
              · exact ih rest other inside

/-- A version of dotted numbers has no letters. -/
theorem numeric_chars {version : String} {parts : List Nat} (numeric : versionComponents version = some parts) :
    ∀ c ∈ version.toList, c.isDigit = true ∨ c = '.' ∨ c = '+' := by
  intro c member
  rcases mem_splitOn member with dot | ⟨part, there, within⟩
  · exact .inr (.inl dot)
  · have read := parts_of_mapM numeric part there
    have digitsOnly {digits : List Char} (value : ((digitsValue digits).bind fun n => if n < 2 ^ 64 then some n else none).isSome) :
        ∀ d ∈ digits, d.isDigit = true := by
      unfold digitsValue at value
      split at value
      next all => exact List.all_eq_true.mp all.2
      next => cases value
    unfold parseU64 at read
    rw [String.toList_ofList] at read
    dsimp only at read
    split at read
    next digits =>
      rcases List.mem_cons.mp within with plus | inside
      · exact .inr (.inr plus)
      · exact .inl (digitsOnly read c inside)
    next => exact .inl (digitsOnly read c within)

theorem toUpper_lower {c : Char} (lower : 97 ≤ c.toNat ∧ c.toNat ≤ 122) : 65 ≤ c.toUpper.toNat ∧ c.toUpper.toNat ≤ 90 := by
  have range : 'a'.val ≤ c.val ∧ c.val ≤ 'z'.val := lower
  have value : c.toUpper.toNat = (c.val + ('A'.val - 'a'.val)).toNat := by
    rw [Char.toUpper, dif_pos range]
    rfl
  have sum : (c.val + ('A'.val - 'a'.val)).toNat = (c.toNat + 4294967264) % 4294967296 := UInt32.toNat_add ..
  omega

theorem toUpper_other {c : Char} (other : ¬(97 ≤ c.toNat ∧ c.toNat ≤ 122)) : c.toUpper = c := dif_neg other

theorem toUpper_plain {c d : Char} (plain : c.isDigit = true ∨ c = '.' ∨ c = '+') (same : c.toUpper = d.toUpper) : c = d := by
  have low : c.toNat ≤ 57 := by
    rcases plain with digit | rfl | rfl
    · have each : ['0', '1', '2', '3', '4', '5', '6', '7', '8', '9'].all (fun c => decide (c.toNat ≤ 57)) = true := by decide
      exact of_decide_eq_true (List.all_eq_true.mp each c (isDigit_mem digit))
    · decide
    · decide
  rw [toUpper_other (by omega)] at same
  by_cases lower : 97 ≤ d.toNat ∧ d.toNat ≤ 122
  · have bounds := toUpper_lower lower
    rw [← same] at bounds
    omega
  · rw [same, toUpper_other lower]

theorem eqIgnoreAsciiCase_iff {a b : String} : eqIgnoreAsciiCase a b = true ↔ a.toList.map Char.toUpper = b.toList.map Char.toUpper := by
  rw [eqIgnoreAsciiCase, beq_iff_eq, toAsciiUppercase, toAsciiUppercase, String.ofList_inj]

/-- A version of dotted numbers is equal to itself only, whatever the case. -/
theorem numeric_eq {a b : String} {parts : List Nat} (numeric : versionComponents a = some parts) (same : eqIgnoreAsciiCase a b = true) :
    a = b := by
  have plain := numeric_chars numeric
  rw [eqIgnoreAsciiCase_iff] at same
  apply String.toList_injective
  generalize a.toList = left at same plain
  generalize b.toList = right at same
  induction left generalizing right with
  | nil => exact (List.map_eq_nil_iff.mp same.symm).symm
  | cons c left ih =>
      cases right with
      | nil => cases same
      | cons d right =>
          rw [List.map_cons, List.map_cons] at same
          obtain ⟨first, rest⟩ := List.cons.inj same
          rw [toUpper_plain (plain c List.mem_cons_self) first, ih (fun e inside => plain e (List.mem_cons_of_mem _ inside)) right rest]

theorem atLeast_numeric {a b : String} {left right : List Nat} (first : versionComponents a = some left)
    (second : versionComponents b = some right) : versionAtLeast a b = (compareComponents right left).isLE := by
  rw [versionAtLeast, first, second, compareComponents, Nat.max_comm]

theorem atLeast_left {a : String} (other : versionComponents a = none) (b : String) : versionAtLeast a b = eqIgnoreAsciiCase a b := by
  rw [versionAtLeast, other]

theorem atLeast_right (a : String) {b : String} (other : versionComponents b = none) : versionAtLeast a b = eqIgnoreAsciiCase a b := by
  rw [versionAtLeast, other]
  cases versionComponents a <;> rfl

theorem eqIgnoreAsciiCase_refl (a : String) : eqIgnoreAsciiCase a a = true := beq_self_eq_true _

theorem eqIgnoreAsciiCase_symm {a b : String} (same : eqIgnoreAsciiCase a b = true) : eqIgnoreAsciiCase b a = true := by
  rw [eqIgnoreAsciiCase_iff] at same ⊢
  exact same.symm

theorem eqIgnoreAsciiCase_trans {a b c : String} (first : eqIgnoreAsciiCase a b = true) (second : eqIgnoreAsciiCase b c = true) :
    eqIgnoreAsciiCase a c = true := by
  rw [eqIgnoreAsciiCase_iff] at first second ⊢
  exact first.trans second

theorem atLeast_refl (a : String) : versionAtLeast a a = true := by
  cases components : versionComponents a with
  | none => rw [atLeast_left components, eqIgnoreAsciiCase_refl]
  | some parts =>
      rw [atLeast_numeric components components, compareComponents, compare_same]
      rfl

theorem atLeast_trans {a b c : String} (first : versionAtLeast a b = true) (second : versionAtLeast b c = true) :
    versionAtLeast a c = true := by
  cases middle : versionComponents b with
  | none =>
      rw [atLeast_right a middle] at first
      rw [atLeast_left middle] at second
      cases components : versionComponents a with
      | none => rw [atLeast_left components, eqIgnoreAsciiCase_trans first second]
      | some parts =>
          rw [numeric_eq components first, middle] at components
          cases components
  | some parts =>
      cases left : versionComponents a with
      | none =>
          rw [atLeast_left left] at first
          rw [numeric_eq middle (eqIgnoreAsciiCase_symm first), left] at middle
          cases middle
      | some leftParts =>
          cases right : versionComponents c with
          | none =>
              rw [atLeast_right b right] at second
              rw [numeric_eq middle second, right] at middle
              cases middle
          | some rightParts =>
              rw [atLeast_numeric left middle] at first
              rw [atLeast_numeric middle right] at second
              rw [atLeast_numeric left right]
              exact compareComponents_trans second first

/-- Two versions compare if both are dotted numbers or they are equal but for the case. -/
theorem atLeast_total_iff (a b : String) : (versionAtLeast a b = true ∨ versionAtLeast b a = true) ↔
    ((versionComponents a).isSome ∧ (versionComponents b).isSome) ∨ eqIgnoreAsciiCase a b = true := by
  have symmetric : eqIgnoreAsciiCase b a = true ↔ eqIgnoreAsciiCase a b = true := ⟨eqIgnoreAsciiCase_symm, eqIgnoreAsciiCase_symm⟩
  cases left : versionComponents a with
  | none =>
      rw [atLeast_left left, atLeast_right b left, symmetric]
      simp
  | some leftParts =>
      cases right : versionComponents b with
      | none =>
          rw [atLeast_right a right, atLeast_left right, symmetric]
          simp
      | some rightParts =>
          rw [atLeast_numeric left right, atLeast_numeric right left]
          have total := compareComponents_total rightParts leftParts
          simp [total]

/-! ## One package per identity -/

section Newest

variable {α : Type} (package : α → SymbolPackage)

def identityOf [CaseMapping] (item : α) : String := packageIdentityKey (package item).appId (package item).name

/-- The version of one item is at least that of the other. -/
def atLeastOf (a b : α) : Bool := versionAtLeast (package a).version (package b).version

variable {package}

theorem keys_keepNewest (identity : String) (item : α) (slots : List (String × α)) :
    (keepNewest package identity item slots).map Prod.fst =
      if identity ∈ slots.map Prod.fst then slots.map Prod.fst else slots.map Prod.fst ++ [identity] := by
  induction slots with
  | nil => rfl
  | cons slot rest ih =>
      rw [keepNewest]
      by_cases here : slot.1 = identity
      · rw [if_pos here]
        dsimp only
        split <;> simp [here]
      · rw [if_neg here, List.map_cons, List.map_cons, ih]
        have other : identity ≠ slot.1 := Ne.symm here
        by_cases inside : identity ∈ rest.map Prod.fst
        · rw [if_pos inside, if_pos (List.mem_cons_of_mem _ inside)]
        · rw [if_neg inside, if_neg (by rw [List.mem_cons]; exact not_or.mpr ⟨other, inside⟩), List.cons_append]

/-- A slot is as it was, or the item was put against the one in it, or it is new. -/
theorem mem_keepNewest {identity : String} {item : α} {slots : List (String × α)} (distinct : (slots.map Prod.fst).Nodup)
    {slot : String × α} (member : slot ∈ keepNewest package identity item slots) :
    (slot ∈ slots ∧ slot.1 ≠ identity) ∨
      (slot.1 = identity ∧ ∃ old, (identity, old) ∈ slots ∧ slot.2 = if beats (atLeastOf package) item old then item else old) ∨
        (slot = (identity, item) ∧ identity ∉ slots.map Prod.fst) := by
  induction slots with
  | nil => exact .inr (.inr ⟨List.mem_singleton.mp member, by simp⟩)
  | cons first rest ih =>
      rw [List.map_cons, List.nodup_cons] at distinct
      rw [keepNewest] at member
      by_cases here : first.1 = identity
      · rw [if_pos here] at member
        dsimp only at member
        rcases List.mem_cons.mp member with is | later
        · refine .inr (.inl ⟨?_, first.2, ?_, ?_⟩)
          · rw [is]
            split
            · rfl
            · exact here
          · rw [← here]
            exact List.mem_cons_self
          · rw [is]
            have same : beats (atLeastOf package) item first.2 = (versionAtLeast (package item).version (package first.2).version &&
                !versionAtLeast (package first.2).version (package item).version) := rfl
            rw [same]
            split <;> rfl
        · refine .inl ⟨List.mem_cons_of_mem _ later, fun same => ?_⟩
          apply distinct.1
          rw [here, ← same]
          exact List.mem_map_of_mem later
      · rw [if_neg here] at member
        rcases List.mem_cons.mp member with rfl | later
        · exact .inl ⟨List.mem_cons_self, here⟩
        · rcases ih distinct.2 later with old | ⟨key, old, there, is⟩ | ⟨is, new⟩
          · exact .inl ⟨List.mem_cons_of_mem _ old.1, old.2⟩
          · exact .inr (.inl ⟨key, old, List.mem_cons_of_mem _ there, is⟩)
          · refine .inr (.inr ⟨is, ?_⟩)
            rw [List.map_cons, List.mem_cons, not_or]
            exact ⟨Ne.symm here, new⟩

variable [CaseMapping]

/-- Each identity has one slot, in the order in which the identities occur first, with the champion of its items. -/
structure Slots (package : α → SymbolPackage) (items : List α) (slots : List (String × α)) : Prop where
  keys : slots.map Prod.fst = (items.map (identityOf package)).eraseDups
  distinct : (slots.map Prod.fst).Nodup
  champions : ∀ slot ∈ slots, ∃ first rest, items.filter (identityOf package · = slot.1) = first :: rest ∧
    slot.2 = champion (beats (atLeastOf package)) first rest

theorem Slots.snoc {items : List α} {slots : List (String × α)} (kept : Slots package items slots) (item : α) :
    Slots package (items ++ [item]) (keepNewest package (identityOf package item) item slots) := by
  have known : identityOf package item ∈ slots.map Prod.fst ↔ identityOf package item ∈ items.map (identityOf package) := by
    rw [kept.keys, List.mem_eraseDups]
  have single : (items ++ [item]).map (identityOf package) = items.map (identityOf package) ++ [identityOf package item] := by
    rw [List.map_append, List.map_singleton]
  constructor
  · rw [keys_keepNewest, single, List.eraseDups_append, ← kept.keys]
    by_cases there : identityOf package item ∈ items.map (identityOf package)
    · rw [if_pos (known.mpr there)]
      have seen : [identityOf package item].removeAll (items.map (identityOf package)) = [] := by
        rw [List.removeAll, List.filter_singleton, List.elem_eq_true_of_mem there]
        rfl
      rw [seen, List.eraseDups_nil, List.append_nil]
    · rw [if_neg (fun inside => there (known.mp inside))]
      have new : [identityOf package item].removeAll (items.map (identityOf package)) = [identityOf package item] := by
        rw [List.removeAll, List.filter_singleton, List.elem_eq_mem, decide_eq_false there]
        rfl
      rw [new]
      rfl
  · rw [keys_keepNewest]
    split
    next => exact kept.distinct
    next new =>
      rw [List.nodup_append]
      refine ⟨kept.distinct, by simp, fun a inside b single => ?_⟩
      rw [List.mem_singleton.mp single]
      rintro rfl
      exact new inside
  · intro slot member
    rcases mem_keepNewest kept.distinct member with ⟨old, other⟩ | ⟨key, old, there, is⟩ | ⟨rfl, new⟩
    · obtain ⟨first, rest, group, best⟩ := kept.champions slot old
      have none : [item].filter (identityOf package · = slot.1) = [] := by simpa using Ne.symm other
      exact ⟨first, rest, by rw [List.filter_append, group, none, List.append_nil], best⟩
    · obtain ⟨first, rest, group, best⟩ := kept.champions _ there
      have one : [item].filter (identityOf package · = slot.1) = [item] := by simp [key]
      dsimp only at group best
      refine ⟨first, rest ++ [item], ?_, ?_⟩
      · rw [List.filter_append, one, key, group, List.cons_append]
      · rw [champion_append, is, best]
    · have none : items.filter (identityOf package · = identityOf package item) = [] := by
        rw [List.filter_eq_nil_iff]
        intro other inside same
        apply new
        rw [known, ← of_decide_eq_true same]
        exact List.mem_map_of_mem inside
      have one : [item].filter (identityOf package · = identityOf package item) = [item] := by simp
      exact ⟨item, [], by rw [List.filter_append, none, one, List.nil_append], rfl⟩

theorem slots_newest (package : α → SymbolPackage) (items : List α) : ∃ slots, Slots package items slots ∧ newestPerIdentity items package = slots.map Prod.snd := by
  refine ⟨_, ?_, rfl⟩
  induction items using List.reverseRecOn with
  | nil => exact ⟨rfl, List.nodup_nil, by simp⟩
  | append_singleton items item ih =>
      rw [List.foldl_append]
      exact ih.snoc item

/-- The kept items are champions of their identities. -/
theorem newest_champion {items : List α} {kept : α} (member : kept ∈ newestPerIdentity items package) :
    ∃ first rest, items.filter (identityOf package · = identityOf package kept) = first :: rest ∧
      kept = champion (beats (atLeastOf package)) first rest := by
  obtain ⟨slots, sound, is⟩ := slots_newest package items
  rw [is] at member
  obtain ⟨slot, inside, rfl⟩ := List.mem_map.mp member
  obtain ⟨first, rest, group, best⟩ := sound.champions slot inside
  have within := champion_mem (beats (atLeastOf package)) first rest
  rw [← group, ← best, List.mem_filter] at within
  have key : identityOf package slot.2 = slot.1 := of_decide_eq_true within.2
  exact ⟨first, rest, by rw [key]; exact group, best⟩

theorem newest_keys (items : List α) :
    (newestPerIdentity items package).map (identityOf package) = (items.map (identityOf package)).eraseDups := by
  obtain ⟨slots, sound, is⟩ := slots_newest package items
  rw [is, ← sound.keys, List.map_map]
  apply List.map_congr_left
  intro slot inside
  obtain ⟨first, rest, group, best⟩ := sound.champions slot inside
  have within := champion_mem (beats (atLeastOf package)) first rest
  rw [← group, ← best, List.mem_filter] at within
  exact of_decide_eq_true within.2

theorem newest_mem {items : List α} {kept : α} (member : kept ∈ newestPerIdentity items package) : kept ∈ items := by
  obtain ⟨first, rest, group, best⟩ := newest_champion member
  have within := champion_mem (beats (atLeastOf package)) first rest
  rw [← group, ← best] at within
  exact List.mem_of_mem_filter within

/-! ## The dependencies of one identity -/

/-- All versions of the identity are dotted numbers, or all are equal but for the case. -/
def Comparable (package : α → SymbolPackage) (items : List α) (identity : String) : Prop :=
  (∀ item ∈ items, identityOf package item = identity → (versionComponents (package item).version).isSome) ∨
    ∀ a ∈ items, ∀ b ∈ items, identityOf package a = identity → identityOf package b = identity →
      eqIgnoreAsciiCase (package a).version (package b).version = true

theorem newest_atLeast_iff {items : List α} {kept : α} (member : kept ∈ newestPerIdentity items package) :
    (∀ item ∈ items, identityOf package item = identityOf package kept → atLeastOf package kept item = true) ↔
      Comparable package items (identityOf package kept) := by
  constructor
  · intro greatest
    have versions (item : α) (inside : item ∈ items) (same : identityOf package item = identityOf package kept) :
        versionAtLeast (package kept).version (package item).version = true := greatest item inside same
    cases numeric : versionComponents (package kept).version with
    | none =>
        right
        intro a left b right sameLeft sameRight
        have first := versions a left sameLeft
        have second := versions b right sameRight
        rw [atLeast_left numeric] at first second
        exact eqIgnoreAsciiCase_trans (eqIgnoreAsciiCase_symm first) second
    | some parts =>
        left
        intro item inside same
        have reached := versions item inside same
        cases components : versionComponents (package item).version with
        | none =>
            rw [atLeast_right _ components] at reached
            rw [numeric_eq numeric reached, components] at numeric
            cases numeric
        | some other => rfl
  · intro comparable item inside same
    obtain ⟨first, rest, group, best⟩ := newest_champion member
    have ofGroup {a : α} (within : a ∈ first :: rest) : a ∈ items ∧ identityOf package a = identityOf package kept := by
      rw [← group, List.mem_filter] at within
      exact ⟨within.1, of_decide_eq_true within.2⟩
    have there : item ∈ first :: rest := by
      rw [← group, List.mem_filter]
      exact ⟨inside, decide_eq_true same⟩
    rw [best]
    apply @champion_atLeast _ (atLeastOf package) (fun a => atLeast_refl _) atLeast_trans _ _ _ _ there
    intro a left b right
    obtain ⟨leftIn, leftSame⟩ := ofGroup left
    obtain ⟨rightIn, rightSame⟩ := ofGroup right
    apply (atLeast_total_iff _ _).mpr
    rcases comparable with numeric | equal
    · exact .inl ⟨numeric a leftIn leftSame, numeric b rightIn rightSame⟩
    · exact .inr (equal a leftIn b rightIn leftSame rightSame)

omit [CaseMapping] in
/-- One package meets all dependencies of another one just when it has the same id and at least the same version. -/
theorem satisfies_iff (a b : SymbolPackage) :
    (∀ dependency, b.satisfiesDependency dependency = true → a.satisfiesDependency dependency = true) ↔
      eqIgnoreAsciiCase a.appId b.appId = true ∧ versionAtLeast a.version b.version = true := by
  constructor
  · intro all
    have own : b.satisfiesDependency ⟨b.appId, b.name, b.publisher, b.version⟩ = true := by
      rw [SymbolPackage.satisfiesDependency, eqIgnoreAsciiCase_refl, atLeast_refl]
      rfl
    have met := all _ own
    rwa [SymbolPackage.satisfiesDependency, Bool.and_eq_true] at met
  · rintro ⟨sameId, newer⟩ dependency met
    rw [SymbolPackage.satisfiesDependency, Bool.and_eq_true] at met ⊢
    exact ⟨eqIgnoreAsciiCase_trans sameId met.1, atLeast_trans newer met.2⟩

/-- The versions of dotted numbers are ordered totally, and components that are left out count as zero. -/
structure OrdersVersions : Prop where
  refl : ∀ a, versionAtLeast a a = true
  trans : ∀ a b c, versionAtLeast a b = true → versionAtLeast b c = true → versionAtLeast a c = true
  total : ∀ a b, (versionComponents a).isSome → (versionComponents b).isSome → versionAtLeast a b = true ∨ versionAtLeast b a = true
  zeros : ∀ a b parts zeros, versionComponents a = some parts → versionComponents b = some (parts ++ List.replicate zeros 0) →
    versionAtLeast a b = true ∧ versionAtLeast b a = true

omit [CaseMapping] in
theorem ordersVersions : OrdersVersions where
  refl := atLeast_refl
  trans _ _ _ := atLeast_trans
  total a b left right := (atLeast_total_iff a b).mpr (.inl ⟨left, right⟩)
  zeros a b parts zeros left right := by
    have same := compareComponents_zeros parts zeros
    have swapped : compareComponents (parts ++ List.replicate zeros 0) parts = .eq := by
      have symmetric : compareComponents (parts ++ List.replicate zeros 0) parts =
          (compareComponents parts (parts ++ List.replicate zeros 0)).swap := by
        rw [compareComponents, compareComponents, Nat.max_comm]
        exact Std.OrientedCmp.eq_swap
      rw [symmetric, same]
      rfl
    rw [atLeast_numeric left right, atLeast_numeric right left, same, swapped]
    exact ⟨rfl, rfl⟩

/-- One package of each identity is kept, in the order in which the identities occur first. It meets the dependencies that some package of its
identity meets just when their versions compare and their ids are spelled alike, and then its version is a greatest one in any order
of the packages. -/
theorem newest_per_identity (package : α → SymbolPackage) (items : List α) :
    (newestPerIdentity items package).map (identityOf package) = (items.map (identityOf package)).eraseDups ∧
      (∀ kept ∈ newestPerIdentity items package, kept ∈ items) ∧
      (∀ kept ∈ newestPerIdentity items package,
        (∀ item ∈ items, identityOf package item = identityOf package kept → ∀ dependency,
          (package item).satisfiesDependency dependency = true → (package kept).satisfiesDependency dependency = true) ↔
        Comparable package items (identityOf package kept) ∧
          ∀ item ∈ items, identityOf package item = identityOf package kept →
            eqIgnoreAsciiCase (package kept).appId (package item).appId = true) ∧
      OrdersVersions ∧
      (∀ items', items.Perm items' → ∀ kept ∈ newestPerIdentity items package, ∀ kept' ∈ newestPerIdentity items' package,
        identityOf package kept' = identityOf package kept → Comparable package items (identityOf package kept) →
          atLeastOf package kept kept' = true ∧ ∀ item ∈ items, identityOf package item = identityOf package kept →
            atLeastOf package kept' item = true) := by
  refine ⟨newest_keys items, fun kept => newest_mem, fun kept member => ?_, ordersVersions, ?_⟩
  · rw [← newest_atLeast_iff member]
    constructor
    · intro meets
      have both (item : α) (inside : item ∈ items) (same : identityOf package item = identityOf package kept) :=
        (satisfies_iff (package kept) (package item)).mp (meets item inside same)
      exact ⟨fun item inside same => (both item inside same).2, fun item inside same => (both item inside same).1⟩
    · rintro ⟨greatest, sameIds⟩ item inside same
      exact (satisfies_iff (package kept) (package item)).mpr ⟨sameIds item inside same, greatest item inside same⟩
  · intro items' reordered kept member kept' member' sameIdentity comparable
    have comparable' : Comparable package items' (identityOf package kept') := by
      rw [sameIdentity]
      rcases comparable with numeric | equal
      · exact .inl fun item inside => numeric item (reordered.mem_iff.mpr inside)
      · exact .inr fun a left b right => equal a (reordered.mem_iff.mpr left) b (reordered.mem_iff.mpr right)
    have greatest := (newest_atLeast_iff member).mpr comparable
    have greatest' := (newest_atLeast_iff member').mpr comparable'
    refine ⟨greatest kept' (reordered.mem_iff.mpr (newest_mem member')) sameIdentity, fun item inside same => ?_⟩
    exact greatest' item (reordered.mem_iff.mp inside) (same.trans sameIdentity.symm)

end Newest

section Example

attribute [local instance] CaseMapping.latin1

/-- A preview version that comes first is kept, and the dependency that the released package meets is met no more. -/
theorem preview_kept :
    ∃ (preview released : SymbolPackage) (dependency : AppDependency),
      identityOf id preview = identityOf id released ∧ released.satisfiesDependency dependency = true ∧
        newestPerIdentity [preview, released] id = [preview] ∧ preview.satisfiesDependency dependency = false := by
  refine ⟨⟨"1", "System", "", "preview", [], 0⟩, ⟨"1", "System", "", "28.0.0.0", [], 0⟩, ⟨"1", "System", "", "28.0"⟩, ?_, ?_, ?_, ?_⟩
  · rfl
  · decide
  · rfl
  · decide

end Example

end AlLanguage.Symbols
