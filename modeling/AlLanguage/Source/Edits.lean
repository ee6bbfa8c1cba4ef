import AlLanguage.Source.Documents

/-!
# Edit batches

A batch is applied as the protocol says or rejected, and a rejected batch changes nothing.
-/

namespace AlLanguage.Source

open Library

/-! ## The reference model -/

/-- Why a change is rejected. -/
inductive Fault where
  | lineMissing
  | backward
  | tooLarge
deriving DecidableEq

def DocumentMutationError.fault : DocumentMutationError → Option Fault
  | .rangeOutOfBounds .. => some .lineMissing
  | .backwardRange .. => some .backward
  | .tooLarge .. | .sizeOverflow .. => some .tooLarge
  | _ => none

/-- The text after a change, positions resolved against the text before it. -/
def changedText (text : List Char) (change : TextChange) : Except Fault (List Char) :=
  match change.range with
  | none => .ok change.text.toList
  | some range =>
    match offsetAt text range.startLine.toNat range.startCharacter.toNat,
        offsetAt text range.endLine.toNat range.endCharacter.toNat with
    | some start, some stop =>
        if stop < start then .error .backward else .ok (text.take start ++ change.text.toList ++ text.drop stop)
    | _, _ => .error .lineMissing

namespace DocumentStore

variable {τ : Type}

def withinCap (store : DocumentStore τ) (len : Nat) : Bool := store.maxDocBytes = 0 || len ≤ store.maxDocBytes

/-- The cap, and for a ranged change the size of the address space. -/
def fits (store : DocumentStore τ) (change : TextChange) (text : List Char) : Bool :=
  store.withinCap (Rope.lenBytes text) && (change.range.isNone || Rope.lenBytes text < 2 ^ 64)

def referenceChange (store : DocumentStore τ) (text : List Char) (change : TextChange) : Except Fault (List Char) :=
  match changedText text change with
  | .error fault => .error fault
  | .ok next => if store.fits change next then .ok next else .error .tooLarge

/-- The changes one after another. -/
def referenceBatch (store : DocumentStore τ) (text : List Char) (changes : List TextChange) : Except Fault (List Char) :=
  changes.foldlM store.referenceChange text

end DocumentStore

/-! ## One change -/

namespace Rope

variable {rope : Rope} {start stop : Nat}

theorem insert_remove (ordered : start ≤ stop) (text : String) :
    (rope.remove start stop).insert start text = rope.take start ++ text.toList ++ rope.drop stop := by
  by_cases inside : start ≤ rope.length
  · have length : (rope.take start).length = start := by simp [inside]
    rw [remove, insert, List.take_append_of_le_length (by omega), List.take_take, Nat.min_self,
      List.drop_append_of_le_length (by omega), List.drop_eq_nil_of_le length.le, List.nil_append]
  · have nothing : rope.drop stop = [] := List.drop_eq_nil_of_le (by omega)
    have all : rope.take start = rope := List.take_of_length_le (by omega)
    rw [remove, insert, nothing, all, List.append_nil, all, List.drop_eq_nil_of_le (by omega)]

theorem lenBytes_slice (ordered : start ≤ stop) :
    lenBytes rope = lenBytes (rope.take start) + lenBytes (rope.slice start stop) + lenBytes (rope.drop stop) := by
  have whole : rope.take start ++ rope.slice start stop = rope.take stop := by
    have cut : (rope.take stop).take start = rope.take start := by rw [List.take_take, Nat.min_eq_left ordered]
    rw [slice, ← cut, List.take_append_drop]
  calc lenBytes rope = lenBytes (rope.take stop ++ rope.drop stop) := by rw [List.take_append_drop]
    _ = _ := by rw [← whole, lenBytes_append, lenBytes_append]

theorem lenBytes_edited (ordered : start ≤ stop) (text : String) :
    lenBytes (rope.take start ++ text.toList ++ rope.drop stop) =
      lenBytes rope - lenBytes (rope.slice start stop) + byteLen text := by
  have parts := @lenBytes_slice rope start stop ordered
  rw [lenBytes_append, lenBytes_append, byteLen]
  omega

end Rope

namespace DocumentStore

variable {τ : Type} (store : DocumentStore τ) (uri : Uri)

theorem validateSize_eq (len : Nat) :
    store.validateSize uri len = if store.withinCap len then .ok () else .error (.tooLarge uri len store.maxDocBytes) := by
  unfold validateSize docCap withinCap
  by_cases unbounded : store.maxDocBytes = 0
  · simp [unbounded]
  · by_cases small : len ≤ store.maxDocBytes
    · simp [unbounded, small]
    · simp [unbounded, small, Nat.lt_of_not_le small]

theorem applyChange_reference (candidate : Rope) (change : TextChange) :
    (store.applyChange uri candidate change).mapError DocumentMutationError.fault =
      (store.referenceChange candidate change).mapError some := by
  unfold applyChange referenceChange changedText
  cases ranged : change.range with
  | none =>
      simp only [validateSize_eq, fits, byteLen, ranged, Option.isNone_none, Bool.true_or, Bool.and_true]
      cases store.withinCap (Rope.lenBytes change.text.toList) <;> rfl
  | some range =>
      simp only [positionToOffset_eq]
      cases offsetAt candidate range.startLine.toNat range.startCharacter.toNat with
      | none => rfl
      | some start =>
        cases offsetAt candidate range.endLine.toNat range.endCharacter.toNat with
        | none => rfl
        | some stop =>
          dsimp only
          by_cases backward : stop < start
          · rw [if_pos backward, if_pos backward]
            rfl
          have ordered : start ≤ stop := Nat.le_of_not_lt backward
          rw [if_neg backward, if_neg backward, Rope.insert_remove ordered, ← Rope.lenBytes_edited ordered]
          simp only [validateSize_eq, fits, ranged, Option.isNone_some, Bool.false_or]
          generalize Rope.lenBytes _ = len
          by_cases overflow : 2 ^ 64 ≤ len
          · have large : decide (len < 2 ^ 64) = false := decide_eq_false (Nat.not_lt_of_le overflow)
            rw [if_pos overflow, large, Bool.and_false]
            rfl
          · rw [if_neg overflow]
            simp only [Nat.lt_of_not_le overflow, decide_true, Bool.and_true]
            cases store.withinCap len <;> rfl

theorem foldlM_reference (changes : List TextChange) (candidate : Rope) :
    (changes.foldlM (store.applyChange uri) candidate).mapError DocumentMutationError.fault =
      (store.referenceBatch candidate changes).mapError some := by
  induction changes generalizing candidate with
  | nil => rfl
  | cons change rest ih =>
      have first := store.applyChange_reference uri candidate change
      rw [referenceBatch, List.foldlM_cons, List.foldlM_cons]
      cases applied : store.applyChange uri candidate change with
      | error e =>
          cases expected : store.referenceChange candidate change with
          | error fault =>
              rw [applied, expected] at first
              exact first
          | ok next => simp [applied, expected, Except.mapError] at first
      | ok next =>
          cases expected : store.referenceChange candidate change with
          | error fault => simp [applied, expected, Except.mapError] at first
          | ok next' =>
              obtain rfl : next = next' := by simpa [applied, expected, Except.mapError] using first
              exact ih next

/-! ## A batch -/

/-- Whether the client version is newer than the last one. -/
def accepts (document : Document) (clientVersion : Option Int32) : Bool :=
  clientVersion.all (document.clientVersion < ·)

theorem isStale_eq_none_iff (document : Document) (clientVersion : Option Int32) :
    isStale document clientVersion = none ↔ accepts document clientVersion = true := by
  cases clientVersion with
  | none => simp [isStale, accepts]
  | some received => simp [isStale, accepts]

/-- What a batch that is applied leaves. -/
def edited (document : Document) (text : List Char) (clientVersion : Option Int32) : Document :=
  ⟨text, String.ofList text, document.version + 1, clientVersion.getD document.clientVersion⟩

/-- A batch is applied as the reference model says, or it is rejected for a reason and changes nothing. -/
theorem applyChangesInner_atomic (changes : List TextChange) (clientVersion : Option Int32) :
    let after := store.applyChangesInner uri changes clientVersion
    (∃ document text, store.docs.get? uri = some document ∧ accepts document clientVersion = true ∧
      store.referenceBatch document.text changes = .ok text ∧
      after.1 = .ok (String.ofList text, document.version + 1) ∧
      after.2.docs = store.docs.insert uri (edited document text clientVersion) ∧
      after.2 = { store with docs := after.2.docs, trees := store.trees.erase uri }) ∨
    ∃ error, after = (.error error, store) ∧
      (store.docs.get? uri = none ∨ ∃ document, store.docs.get? uri = some document ∧
        (accepts document clientVersion = false ∨
          ∃ fault, store.referenceBatch document.text changes = .error fault ∧ error.fault = some fault)) := by
  intro after
  cases opened : store.docs.get? uri with
  | none =>
      right
      exact ⟨.notOpen uri, by simp [after, applyChangesInner, opened], .inl rfl⟩
  | some document =>
    cases stale : isStale document clientVersion with
    | some received =>
        right
        refine ⟨.staleClientVersion uri received document.clientVersion, by simp [after, applyChangesInner, opened, stale],
          .inr ⟨document, rfl, .inl ?_⟩⟩
        rw [Bool.eq_false_iff, ne_eq, ← isStale_eq_none_iff, stale]
        nofun
    | none =>
        have accepted := (isStale_eq_none_iff document clientVersion).mp stale
        have batch := store.foldlM_reference uri changes document.text
        cases applied : changes.foldlM (store.applyChange uri) document.text with
        | error e =>
            right
            cases expected : store.referenceBatch document.text changes with
            | ok text => simp [applied, expected, Except.mapError] at batch
            | error fault =>
                have named : e.fault = some fault := by simpa [applied, expected, Except.mapError] using batch
                exact ⟨e, by simp [after, applyChangesInner, opened, stale, applied],
                  .inr ⟨document, rfl, .inr ⟨fault, expected, named⟩⟩⟩
        | ok text =>
            left
            cases expected : store.referenceBatch document.text changes with
            | error fault => simp [applied, expected, Except.mapError] at batch
            | ok text' =>
                obtain rfl : text = text' := by simpa [applied, expected, Except.mapError] using batch
                refine ⟨document, text, rfl, accepted, expected, ?_⟩
                simp [after, applyChangesInner, opened, stale, applied, edited, putDoc, removeTree]

end DocumentStore

end AlLanguage.Source
