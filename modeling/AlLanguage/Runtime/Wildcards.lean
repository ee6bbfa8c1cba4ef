import AlLanguage.Library.Pieces
import AlLanguage.Runtime.Filter

/-!
# The language of a wildcard pattern

- The table of `wildcard_match` decides it.
- Without regard to case, it does so for texts whose lower case goes character by character.
-/

namespace AlLanguage.Runtime.Filter

open Library

/-- The piece of a text that a pattern character takes. -/
def Takes (same : Char → Char → Prop) (c : Char) (piece : List Char) : Prop :=
  if c = '*' then True else if c = '?' then piece.length = 1 else ∃ d, piece = [d] ∧ same c d

section Language

variable {same : Char → Char → Prop}

theorem takes_star (piece : List Char) : Takes same '*' piece := trivial

theorem takes_query (piece : List Char) : Takes same '?' piece ↔ piece.length = 1 := Iff.rfl

theorem takes_char {c : Char} (star : c ≠ '*') (query : c ≠ '?') (piece : List Char) :
    Takes same c piece ↔ ∃ d, piece = [d] ∧ same c d := by rw [Takes, if_neg star, if_neg query]

/-! ## The table -/

/-- The beginnings of a text that are longer than `done`. -/
def starts (done : List Char) : List Char → List (List Char)
  | [] => []
  | x :: rest => (done ++ [x]) :: starts (done ++ [x]) rest

/-- Each entry says whether a beginning of the text is in the language. -/
def Row (language : List Char → Prop) (row : List Bool) (beginnings : List (List Char)) : Prop :=
  List.Forall₂ (fun (entry : Bool) start => entry = true ↔ language start) row beginnings

/-- How the language grows by one character of the pattern. -/
structure Grows (c : Char) (before after : List Char → Prop) : Prop where
  empty : after [] ↔ c = '*' ∧ before []
  star : c = '*' → ∀ s x, after (s ++ [x]) ↔ before (s ++ [x]) ∨ after s
  one : c ≠ '*' → ∀ s x, after (s ++ [x]) ↔ (c = '?' ∨ c = x) ∧ before s

theorem row_fill {c : Char} {before after : List Char → Prop} (grows : Grows c before after) (done text : List Char)
    {diagonal left : Bool} {ups : List Bool} (corner : diagonal = true ↔ before done) (side : left = true ↔ after done)
    (row : Row before ups (starts done text)) : Row after (fillRow c diagonal ups left text) (starts done text) := by
  induction text generalizing done diagonal left ups with
  | nil =>
      cases row
      exact .nil
  | cons x rest ih =>
      cases row with
      | @cons up _ ups _ above others =>
          have entry : (if c = '*' then up || left else (c == '?' || c == x) && diagonal) = true ↔ after (done ++ [x]) := by
            split
            next star => rw [Bool.or_eq_true, above, side, grows.star star]
            next star =>
              rw [Bool.and_eq_true, Bool.or_eq_true, beq_iff_eq, beq_iff_eq, corner, grows.one star]
          exact .cons entry (ih (done ++ [x]) above entry others)

theorem row_next {c : Char} {before after : List Char → Prop} (grows : Grows c before after) (text : List Char)
    {row : List Bool} (filled : Row before row ([] :: starts [] text)) :
    Row after (nextRow text row c) ([] :: starts [] text) := by
  cases filled with
  | @cons entry _ _ _ corner ups =>
      have first : (c == '*' && entry) = true ↔ after [] := by
        rw [Bool.and_eq_true, beq_iff_eq, corner, grows.empty]
      exact .cons first (row_fill grows [] text corner first ups)

theorem row_first {language : List Char → Prop} (only : ∀ s, language s ↔ s = []) (text : List Char) :
    Row language (firstRow text) ([] :: starts [] text) := by
  have others (done : List Char) : Row language (text.map fun _ => false) (starts done text) := by
    induction text generalizing done with
    | nil => exact .nil
    | cons x rest ih => exact .cons (by simp [only]) (ih (done ++ [x]))
  exact .cons (by simp [only]) (others [])

theorem row_last {language : List Char → Prop} (done text : List Char) {first : Bool} {row : List Bool}
    (filled : Row language (first :: row) (done :: starts done text)) :
    (first :: row).getLast?.getD false = true ↔ language (done ++ text) := by
  induction text generalizing done first row with
  | nil =>
      cases filled with
      | cons corner others =>
          cases others
          simpa using corner
  | cons x rest ih =>
      cases filled with
      | cons corner others =>
          cases others with
          | cons entry later =>
              rw [List.getLast?_cons_cons]
              simpa using ih (done ++ [x]) (.cons entry later)

/-! ## One more character of the pattern -/

theorem grows_concat (pattern : List Char) (c : Char) :
    Grows c (Cut (Takes (· = ·)) pattern) (Cut (Takes (· = ·)) (pattern ++ [c])) where
  empty := by
    rw [cut_concat]
    constructor
    · rintro ⟨s, piece, nothing, cut, took⟩
      obtain ⟨rfl, rfl⟩ := List.append_eq_nil_iff.mp nothing.symm
      refine ⟨?_, cut⟩
      by_contra star
      by_cases query : c = '?'
      · rw [query] at took
        cases took
      · obtain ⟨d, absurd, -⟩ := (takes_char star query []).mp took
        cases absurd
    · rintro ⟨rfl, cut⟩
      exact ⟨[], [], rfl, cut, takes_star []⟩
  star := by
    rintro rfl s x
    rw [cut_concat, cut_concat]
    constructor
    · rintro ⟨front, piece, split, cut, -⟩
      rcases List.eq_nil_or_concat piece with rfl | ⟨piece', last, rfl⟩
      · rw [List.append_nil] at split
        exact .inl (split ▸ cut)
      · rw [List.concat_eq_append, ← List.append_assoc] at split
        obtain ⟨rfl, -⟩ := List.append_inj' split rfl
        exact .inr ⟨front, piece', rfl, cut, takes_star piece'⟩
    · rintro (cut | ⟨front, piece, rfl, cut, -⟩)
      · exact ⟨s ++ [x], [], (List.append_nil _).symm, cut, takes_star []⟩
      · exact ⟨front, piece ++ [x], List.append_assoc front piece [x], cut, takes_star _⟩
  one := by
    intro star s x
    have single (piece : List Char) : Takes (· = ·) c piece ↔ ∃ d, piece = [d] ∧ (c = '?' ∨ c = d) := by
      by_cases query : c = '?'
      · rw [query, takes_query, List.length_eq_one_iff]
        simp
      · rw [takes_char star query]
        simp [query]
    rw [cut_concat]
    constructor
    · rintro ⟨front, piece, split, cut, took⟩
      obtain ⟨d, rfl, fits⟩ := (single piece).mp took
      obtain ⟨rfl, same⟩ := List.append_inj' split rfl
      cases same
      exact ⟨fits, cut⟩
    · rintro ⟨fits, cut⟩
      exact ⟨s, [x], rfl, cut, (single [x]).mpr ⟨x, rfl, fits⟩⟩

theorem row_pattern (pattern text : List Char) :
    Row (Cut (Takes (· = ·)) pattern) (pattern.foldl (nextRow text) (firstRow text)) ([] :: starts [] text) := by
  induction pattern using List.reverseRecOn with
  | nil => exact row_first (fun s => cut_nil s) text
  | append_singleton pattern c ih =>
      rw [List.foldl_concat]
      exact row_next (grows_concat pattern c) text ih

theorem wildcardMatchChars_iff (pattern text : List Char) :
    wildcardMatchChars pattern text = true ↔ Cut (Takes (· = ·)) pattern text := by
  have filled := row_pattern pattern text
  rw [wildcardMatchChars]
  generalize pattern.foldl (nextRow text) (firstRow text) = row at filled
  cases row with
  | nil => cases filled
  | cons first row => exact row_last [] text filled

/-- As many `?` as the text has characters take it. -/
theorem cut_queries (n : Nat) (text : List Char) : Cut (Takes same) (List.replicate n '?') text ↔ text.length = n := by
  induction n generalizing text with
  | zero => rw [List.replicate_zero, cut_nil, List.length_eq_zero_iff]
  | succ n ih =>
      rw [List.replicate_succ, cut_cons]
      constructor
      · rintro ⟨piece, rest, rfl, took, cut⟩
        rw [List.length_append, (takes_query piece).mp took, (ih rest).mp cut, Nat.add_comm]
      · intro length
        obtain ⟨x, rest, rfl⟩ := List.exists_cons_of_length_eq_add_one length
        exact ⟨[x], rest, rfl, rfl, (ih rest).mpr (Nat.succ.inj length)⟩

/-- A character between `?` takes the one at its place. -/
theorem cut_between {c : Char} (star : c ≠ '*') (query : c ≠ '?') (before after : Nat) (text : List Char) :
    Cut (Takes same) (List.replicate before '?' ++ c :: List.replicate after '?') text ↔
      ∃ s d t, text = s ++ d :: t ∧ s.length = before ∧ t.length = after ∧ same c d := by
  rw [cut_append]
  constructor
  · rintro ⟨s, _, rfl, left, right⟩
    obtain ⟨piece, t, rfl, took, others⟩ := (cut_cons c _ _).mp right
    obtain ⟨d, rfl, fits⟩ := (takes_char star query piece).mp took
    exact ⟨s, d, t, rfl, (cut_queries before s).mp left, (cut_queries after t).mp others, fits⟩
  · rintro ⟨s, d, t, rfl, left, right, fits⟩
    refine ⟨s, d :: t, rfl, (cut_queries before s).mpr left, (cut_cons c _ _).mpr ?_⟩
    exact ⟨[d], t, rfl, (takes_char star query [d]).mpr ⟨d, rfl, fits⟩, (cut_queries after t).mpr right⟩

end Language

/-! ## Lower case -/

/-- A cased character comes first, but for characters that are ignored. -/
def caseIgnorableThenCased (cased caseIgnorable : Char → Bool) (chars : List Char) : Bool :=
  (chars.dropWhile caseIgnorable).head?.any cased

/-- A sigma between these characters, the first ones reversed, ends a word. -/
def wordFinal (cased caseIgnorable : Char → Bool) (before rest : List Char) : Bool :=
  caseIgnorableThenCased cased caseIgnorable before && !caseIgnorableThenCased cased caseIgnorable rest

/-- `str::to_lowercase` behind the reversed characters of a text. -/
def lowerFrom (lowerChar : Char → List Char) (cased caseIgnorable : Char → Bool) (before : List Char) : List Char → List Char
  | [] => []
  | c :: rest =>
    let lower := if c = 'Σ' then [if wordFinal cased caseIgnorable before rest then 'ς' else 'σ'] else lowerChar c
    lower ++ lowerFrom lowerChar cased caseIgnorable (c :: before) rest

/-- The tables behind `str::to_lowercase`. -/
class LowercaseTables extends CaseMapping where
  lowerChar : Char → List Char
  cased : Char → Bool
  caseIgnorable : Char → Bool
  lowerText_eq : ∀ text, lowerText text = lowerFrom lowerChar cased caseIgnorable [] text
  lowerChar_ne_nil : ∀ c, lowerChar c ≠ []
  query_separates : cased '?' = false ∧ caseIgnorable '?' = false

section Caseless

open CaseMapping LowercaseTables

/-- Two characters that differ in case at most. -/
def SameCaseless [CaseMapping] (c d : Char) : Prop := lowerText [c] = lowerText [d]

/-- The lower case of the text is made of one character for each of its characters. -/
def ByChar [CaseMapping] (text : List Char) : Prop := (lowerText text).map (fun c => [c]) = text.map fun c => lowerText [c]

instance [CaseMapping] (text : List Char) : Decidable (ByChar text) := inferInstanceAs (Decidable (_ = _))

section Mapping

variable [CaseMapping]

def lowerOf (c : Char) : Char := (lowerText [c]).headD c

theorem ByChar.each {text : List Char} (byChar : ByChar text) : ∀ c ∈ text, lowerText [c] = [lowerOf c] := by
  intro c member
  have image : lowerText [c] ∈ (lowerText text).map fun c => [c] := by
    rw [byChar]
    exact List.mem_map_of_mem member
  obtain ⟨d, -, same⟩ := List.mem_map.mp image
  rw [lowerOf, ← same]
  rfl

theorem ByChar.lowerText_eq {text : List Char} (byChar : ByChar text) : lowerText text = text.map lowerOf := by
  have injective : Function.Injective fun c : Char => [c] := fun _ _ same => (List.cons.inj same).1
  apply List.map_injective_iff.mpr injective
  rw [byChar, List.map_map]
  exact List.map_congr_left byChar.each

theorem lowerText_ascii (c : Char) (small : c.toNat < 128) : lowerText [c] = [c.toLower] := by
  apply lower_ascii
  intro d member
  rw [List.mem_singleton.mp member]
  exact small

/-- Only a wildcard has a wildcard for its lower case. -/
theorem lowerOf_wildcard {c w : Char} (wild : w ∈ ['*', '?']) (single : lowerText [c] = [lowerOf c]) :
    lowerOf c = w ↔ c = w := by
  constructor
  · intro lower
    have member : w ∈ lowerText [c] := by
      rw [single, lower]
      exact List.mem_singleton_self w
    exact (List.mem_singleton.mp (lower_wildcard [c] w wild member)).symm
  · rintro rfl
    have fixed : ∀ w ∈ ['*', '?'], w.toNat < 128 ∧ w.toLower = w := by
      intro w member
      rcases List.mem_pair.mp member with rfl | rfl <;> decide
    rw [lowerOf, lowerText_ascii c (fixed c wild).1, (fixed c wild).2]
    rfl

theorem takes_lower {c : Char} {piece : List Char} (single : lowerText [c] = [lowerOf c])
    (singles : ∀ d ∈ piece, lowerText [d] = [lowerOf d]) :
    Takes (· = ·) (lowerOf c) (piece.map lowerOf) ↔ Takes SameCaseless c piece := by
  have star := lowerOf_wildcard (c := c) (w := '*') (by decide) single
  have query := lowerOf_wildcard (c := c) (w := '?') (by decide) single
  by_cases isStar : c = '*'
  · rw [Takes, Takes, if_pos (star.mpr isStar), if_pos isStar]
  · by_cases isQuery : c = '?'
    · rw [query.mpr isQuery, isQuery, takes_query, takes_query, List.length_map]
    · rw [takes_char (mt star.mp isStar) (mt query.mp isQuery), takes_char isStar isQuery]
      constructor
      · rintro ⟨_, image, rfl⟩
        obtain ⟨d, rfl, same⟩ := List.map_eq_singleton_iff.mp image
        refine ⟨d, rfl, ?_⟩
        rw [SameCaseless, single, singles d List.mem_cons_self, same]
      · rintro ⟨d, rfl, same⟩
        refine ⟨lowerOf d, rfl, ?_⟩
        rw [SameCaseless, single, singles d List.mem_cons_self] at same
        exact (List.cons.inj same).1

theorem wildcardMatch_byChar {pattern text : String} (left : ByChar pattern.toList) (right : ByChar text.toList) :
    wildcardMatch pattern text true = true ↔ Cut (Takes SameCaseless) pattern.toList text.toList := by
  rw [wildcardMatch, if_pos rfl, toLowercase, toLowercase, String.toList_ofList, String.toList_ofList,
    wildcardMatchChars_iff, left.lowerText_eq, right.lowerText_eq]
  apply cut_map
  intro c member piece inside
  exact takes_lower (left.each c member) fun d here => right.each d (inside here)

end Mapping

section Tables

variable [LowercaseTables]

abbrev lowered (before text : List Char) : List Char := lowerFrom lowerChar cased caseIgnorable before text

/-- The lower case of one character in its place. -/
def lowerAt (before : List Char) (c : Char) (rest : List Char) : List Char :=
  if c = 'Σ' then [if wordFinal cased caseIgnorable before rest then 'ς' else 'σ'] else lowerChar c

theorem lowerText_lowered (text : List Char) : lowerText text = lowered [] text := LowercaseTables.lowerText_eq text

theorem lowered_cons (before : List Char) (c : Char) (rest : List Char) :
    lowered before (c :: rest) = lowerAt before c rest ++ lowered (c :: before) rest := rfl

theorem lowerText_single (c : Char) : lowerText [c] = lowerAt [] c [] := by
  rw [lowerText_lowered]
  exact (lowered_cons [] c []).trans (List.append_nil _)

theorem lowerAt_length (before : List Char) (c : Char) (rest : List Char) : 1 ≤ (lowerAt before c rest).length := by
  unfold lowerAt
  split
  · exact Nat.le_refl 1
  · exact List.length_pos_iff.mpr (lowerChar_ne_nil c)

theorem le_lowered (before text : List Char) : text.length ≤ (lowered before text).length := by
  induction text generalizing before with
  | nil => exact Nat.zero_le _
  | cons c rest ih =>
      have first := lowerAt_length before c rest
      have others := ih (c :: before)
      rw [lowered_cons, List.length_append, List.length_cons]
      omega

theorem lowered_append (before s t : List Char) :
    ∃ front, lowered before (s ++ t) = front ++ lowered (s.reverse ++ before) t ∧ s.length ≤ front.length := by
  induction s generalizing before with
  | nil => exact ⟨[], rfl, Nat.le_refl 0⟩
  | cons c rest ih =>
      obtain ⟨front, split, length⟩ := ih (c :: before)
      refine ⟨lowerAt before c (rest ++ t) ++ front, ?_, ?_⟩
      · rw [List.cons_append, lowered_cons, split, List.append_assoc]
        simp
      · have first := lowerAt_length before c (rest ++ t)
        rw [List.length_append, List.length_cons]
        omega

/-- If no block is longer than one character and no sigma is final, then each character has its own lower case. -/
theorem lowered_byChar (before text : List Char) (length : (lowered before text).length = text.length)
    (medial : ∀ s t, text = s ++ 'Σ' :: t → wordFinal cased caseIgnorable (s.reverse ++ before) t = false) :
    (lowered before text).map (fun c => [c]) = text.map fun c => lowerText [c] := by
  induction text generalizing before with
  | nil => rfl
  | cons c rest ih =>
      have first := lowerAt_length before c rest
      have others := le_lowered (c :: before) rest
      rw [lowered_cons, List.length_append, List.length_cons] at length
      obtain ⟨d, single⟩ := List.length_eq_one_iff.mp (show (lowerAt before c rest).length = 1 by omega)
      have own : lowerText [c] = [d] := by
        rw [lowerText_single, ← single]
        unfold lowerAt
        split
        next sigma =>
          have inside := medial [] rest (by rw [sigma]; rfl)
          rw [List.reverse_nil, List.nil_append] at inside
          rw [inside]
          rfl
        next => rfl
      rw [lowered_cons, single, List.singleton_append, List.map_cons, List.map_cons, own]
      rw [ih (c :: before) (by omega)]
      intro s t split
      have inside := medial (c :: s) t (by rw [split]; rfl)
      rw [List.reverse_cons, List.append_assoc] at inside
      exact inside

/-! ## Patterns of `?` -/

theorem lowered_queries (before : List Char) (n : Nat) (rest : List Char) :
    lowered before (List.replicate n '?' ++ rest) =
      List.replicate n '?' ++ lowered (List.replicate n '?' ++ before) rest := by
  have query : lowerAt [] '?' [] = ['?'] := by rw [← lowerText_single, lowerText_ascii '?' (by decide)]; rfl
  induction n generalizing before with
  | zero => rfl
  | succ n ih =>
      rw [List.replicate_succ, List.cons_append, lowered_cons, ih ('?' :: before)]
      have moved : List.replicate n '?' ++ '?' :: before = '?' :: (List.replicate n '?' ++ before) := by
        rw [← List.cons_append, ← List.replicate_succ, List.replicate_succ', List.append_assoc]
        rfl
      rw [moved]
      exact congrArg (· ++ _) query

theorem queries_separate (n : Nat) : caseIgnorableThenCased cased caseIgnorable (List.replicate n '?') = false := by
  obtain ⟨cased_, ignorable⟩ := query_separates
  cases n with
  | zero => rfl
  | succ n =>
      rw [List.replicate_succ, caseIgnorableThenCased, List.dropWhile_cons_of_neg (by rw [ignorable]; decide)]
      exact cased_

theorem lowerText_queries (n : Nat) : lowerText (List.replicate n '?') = List.replicate n '?' := by
  have all := lowered_queries [] n []
  rw [List.append_nil] at all
  rw [lowerText_lowered, all]
  exact List.append_nil _

/-- Between `?` a sigma is not final. -/
theorem lowerText_sigma (before after : Nat) :
    lowerText (List.replicate before '?' ++ 'Σ' :: List.replicate after '?') =
      List.replicate before '?' ++ 'σ' :: List.replicate after '?' := by
  have rest := lowered_queries ('Σ' :: (List.replicate before '?' ++ [])) after []
  rw [List.append_nil (List.replicate after '?')] at rest
  rw [lowerText_lowered, lowered_queries, lowered_cons, rest, lowerAt, if_pos rfl, wordFinal,
    List.append_nil, queries_separate]
  simp [lowerFrom]

theorem byChar_queries (n : Nat) : ByChar (List.replicate n '?') := by
  have query : lowerText ['?'] = ['?'] := lowerText_queries 1
  rw [ByChar, lowerText_queries, List.map_replicate, List.map_replicate, query]

theorem byChar_sigma (before after : Nat) : ByChar (List.replicate before '?' ++ 'Σ' :: List.replicate after '?') := by
  have query : lowerText ['?'] = ['?'] := lowerText_queries 1
  have sigma : lowerText ['Σ'] = ['σ'] := lowerText_sigma 0 0
  rw [ByChar, lowerText_sigma]
  simp [query, sigma]

/-! ## Which texts -/

/-- The table decides the language of a pattern. Where case is ignored, it does so for the patterns whose lower case goes
by characters exactly if that of the text does. -/
theorem wildcardMatch_decides (text : String) :
    (∀ pattern : String, wildcardMatch pattern text false = true ↔ Cut (Takes (· = ·)) pattern.toList text.toList) ∧
      ((∀ pattern : String, ByChar pattern.toList →
        (wildcardMatch pattern text true = true ↔ Cut (Takes SameCaseless) pattern.toList text.toList)) ↔
          ByChar text.toList) := by
  refine ⟨fun pattern => wildcardMatchChars_iff pattern.toList text.toList, ?_, ?_⟩
  · intro decides
    have decided (pattern : List Char) (byChar : ByChar pattern) :
        Cut (Takes (· = ·)) (lowerText pattern) (lowerText text.toList) ↔ Cut (Takes SameCaseless) pattern text.toList := by
      have here := decides (String.ofList pattern) (by rw [String.toList_ofList]; exact byChar)
      rw [wildcardMatch, if_pos rfl, toLowercase, toLowercase, String.toList_ofList, String.toList_ofList,
        String.toList_ofList, wildcardMatchChars_iff] at here
      exact here
    -- a `?` for each character
    have length : (lowerText text.toList).length = text.toList.length := by
      have here := decided _ (byChar_queries text.toList.length)
      rw [lowerText_queries, cut_queries, cut_queries] at here
      exact here.mpr rfl
    rw [lowerText_lowered] at length
    rw [ByChar, lowerText_lowered]
    apply lowered_byChar [] text.toList length
    intro s t split
    -- a sigma at its place
    have here := decided _ (byChar_sigma s.length t.length)
    rw [lowerText_sigma, cut_between (by decide) (by decide), cut_between (by decide) (by decide)] at here
    obtain ⟨s', d, t', split', before, -, rfl⟩ := here.mpr ⟨s, 'Σ', t, split, rfl, rfl, rfl⟩
    obtain ⟨front, lower, long⟩ := lowered_append [] s ('Σ' :: t)
    have rest := le_lowered ('Σ' :: (s.reverse ++ [])) t
    rw [split, lower, lowered_cons, lowerAt, if_pos rfl] at length
    simp only [List.length_append, List.length_cons, List.length_nil] at length
    rw [lowerText_lowered, split, lower, lowered_cons, lowerAt, if_pos rfl] at split'
    obtain ⟨-, tails⟩ := List.append_inj split' (by omega)
    have sigma := (List.cons.inj tails).1
    by_contra final
    rw [if_pos (by simpa using final)] at sigma
    exact absurd sigma (by decide)
  · intro right pattern left
    exact wildcardMatch_byChar left right

end Tables

section Examples

/-- The lower case of the characters up to U+00FF, and of the dotted capital I, which is two characters. -/
def latinLowerChar (c : Char) : List Char := if c = 'İ' then ['i', '\u0307'] else [latin1Lower c]

def latinCased (c : Char) : Bool :=
  c.isAlpha || ('À' ≤ c && c ≤ 'ÿ' && c ≠ '×' && c ≠ '÷') || c ∈ ['ª', 'µ', 'º', 'Σ', 'σ', 'ς', 'İ']

def latinCaseIgnorable (c : Char) : Bool := c ∈ [Char.ofNat 39, '.', ':', '^', Char.ofNat 96, '¨', '\u00AD', '¯', '´', '·', '¸', '\u0307']

theorem latinLowerChar_wildcard {c w : Char} (wild : w ∈ ['*', '?']) (member : w ∈ latinLowerChar c) : c = w := by
  unfold latinLowerChar at member
  split at member
  next =>
    have apart : ∀ w ∈ ['*', '?'], w ∉ ['i', '\u0307'] := by
      intro w member
      rcases List.mem_pair.mp member with rfl | rfl <;> decide
    exact absurd member (apart w wild)
  next =>
    have lower := List.mem_singleton.mp member
    have fixed := latin1Lower_wildcard (lower ▸ wild)
    rw [lower, fixed]

theorem latin_ascii (before text : List Char) (small : ∀ c ∈ text, c.toNat < 128) :
    lowerFrom latinLowerChar latinCased latinCaseIgnorable before text = text.map Char.toLower := by
  have each : ∀ n < 128, Char.ofNat n ≠ 'Σ' ∧ latinLowerChar (Char.ofNat n) = [(Char.ofNat n).toLower] := by decide +kernel
  induction text generalizing before with
  | nil => rfl
  | cons c rest ih =>
      obtain ⟨plain, lower⟩ := each c.toNat (small c List.mem_cons_self)
      rw [Char.ofNat_toNat] at plain lower
      rw [lowerFrom, if_neg plain, lower, ih (c :: before) fun d member => small d (List.mem_cons_of_mem c member)]
      rfl

theorem latin_wildcard (before text : List Char) {w : Char} (wild : w ∈ ['*', '?'])
    (member : w ∈ lowerFrom latinLowerChar latinCased latinCaseIgnorable before text) : w ∈ text := by
  induction text generalizing before with
  | nil => cases member
  | cons c rest ih =>
      rw [lowerFrom] at member
      rcases List.mem_append.mp member with here | later
      · split at here
        next =>
          have apart : ∀ w ∈ ['*', '?'], ∀ final : Bool, w ∉ [if final then 'ς' else 'σ'] := by
            intro w member
            rcases List.mem_pair.mp member with rfl | rfl <;> decide
          exact absurd here (apart w wild _)
        next =>
          rw [latinLowerChar_wildcard wild here]
          exact List.mem_cons_self
      · exact List.mem_cons_of_mem c (ih (c :: before) later)

@[reducible] def LowercaseTables.latin : LowercaseTables where
  upperChar := CaseMapping.latin1.upperChar
  lowerText := lowerFrom latinLowerChar latinCased latinCaseIgnorable []
  upper_ascii := CaseMapping.latin1.upper_ascii
  lower_ascii := latin_ascii []
  lower_wildcard _ _ wild := latin_wildcard [] _ wild
  lowerChar := latinLowerChar
  cased := latinCased
  caseIgnorable := latinCaseIgnorable
  lowerText_eq _ := rfl
  lowerChar_ne_nil c := by
    unfold latinLowerChar
    split <;> exact List.cons_ne_nil _ _
  query_separates := by decide

attribute [local instance] LowercaseTables.latin

/-- The dotted capital I is one character, but its lower case is two. -/
theorem wildcardMatch_dotted :
    wildcardMatch "?" "İ" true = false ∧ Cut (Takes SameCaseless) "?".toList "İ".toList ∧
      wildcardMatch "i?" "İ" true = true ∧ ¬ Cut (Takes SameCaseless) "i?".toList "İ".toList := by
  refine ⟨by decide +kernel, (cut_queries 1 ['İ']).mpr rfl, by decide +kernel, ?_⟩
  rintro cut
  obtain ⟨piece, rest, split, took, cut⟩ := (cut_cons 'i' ['?'] ['İ']).mp cut
  obtain ⟨d, rfl, -⟩ := (takes_char (by decide) (by decide) piece).mp took
  obtain ⟨-, rfl⟩ := List.cons.inj split
  have long := (cut_queries 1 []).mp cut
  cases long

end Examples

end Caseless

end AlLanguage.Runtime.Filter
